import CustomDB.Pager.WalCrash

/-!
# Reading in WAL mode

A reader's BEGIN pins the cache and the length of the main file, not the end of the WAL: `get_page` brings an
uncached page in from the newest frame there is at that moment. Writers append while the reader reads.
-/

namespace CustomDB

open Lib

namespace Pager

variable {B : Type} [PageBody B] {s b : Pager B}

/-- What happens between a reader's BEGIN and its end: it reads a page, a writer appends a frame, or a writer
takes and gives up its locks. A WAL writer never takes more than RESERVED. -/
inductive ReaderStep (B : Type) where
  | read (p : Nat)
  | frame (f : Frame B)
  | writer (reserved : Bool) (slot : WriterSlot)

/-- One step, as it is in the reader's state. -/
def readerStep (s : Pager B) : ReaderStep B → Pager B
  | .read p => s.getPage p
  | .frame f => { s with disk := s.disk.apply (.appendWal f) }
  | .writer r w => { s with others := { s.others with reserved := r }, writerSlot := w }

/-- The page that is read is cached, or has no newer frame than the WAL `w` of BEGIN. -/
def NotOvertaken (w : List (Frame B)) (s : Pager B) : ReaderStep B → Prop
  | .read p => (s.pages.slot p).isSome = true ∨ newestFrame (s.disk.wal.getD []) p = newestFrame w p
  | _ => True

instance (w : List (Frame B)) [DecidableEq B] (s : Pager B) : (a : ReaderStep B) → Decidable (NotOvertaken w s a)
  | .read _ => inferInstanceAs (Decidable (_ ∨ _))
  | .frame _ => isTrue trivial
  | .writer _ _ => isTrue trivial

/-- A reader's transaction over the files `d` of BEGIN: what it has cached is from `d`, the main file has not
changed, and where there was a WAL it reads one. -/
structure Snapshot (d : Disk B) (s : Pager B) : Prop where
  inTx : s.inTransaction = true
  reader : s.isWriter = false
  sharedWrite : s.others.sharedWrite = false
  pending : s.others.pending = false
  cached : ∀ q x, s.pages.slot q = some x → x = found (noJournal d) q
  main : s.disk.main = d.main
  filePages : s.filePages = d.main.length % fileLengthWrap
  wal : d.wal.isSome = true → s.useWal = true ∧ s.walOpen = true

/-- The refresh of BEGIN opens a WAL that is there. -/
theorem refresh_wal (ht : s.inTransaction = false) (hm : s.isMemory = false) (hw : s.disk.wal.isSome = true) :
    s.pagerRefreshIfModified.useWal = true ∧ s.pagerRefreshIfModified.walOpen = true := by
  have hopen : s.openWal = { s with useWal := true, walOpen := true } := if_pos hw
  unfold pagerRefreshIfModified
  rw [if_neg (by simp [ht, hm])]
  simp only [hopen]
  split
  · exact ⟨rfl, rfl⟩
  · exact ⟨rfl, rfl⟩

theorem begin_snapshot (ht : s.inTransaction = false) (hm : s.isMemory = false) (hsw : s.others.sharedWrite = false)
    (hp : s.others.pending = false) (hb : s.pagerBeginTransaction = (true, b))
    (hc : ∀ q x, b.pages.slot q = some x → x = found (noJournal s.disk) q) : Snapshot s.disk b := by
  have hbeg := begin_begun ht hb
  have hfp := hbeg.filePages hm
  have hwal : s.disk.wal.isSome = true → b.useWal = true ∧ b.walOpen = true := by
    intro hw
    have hr := refresh_wal ht hm hw
    rcases begin_cases (s := s) (by simp [ht]) with he | he
    · rw [he] at hb
      cases hb
    · rw [he] at hb
      obtain rfl := (Prod.mk.inj hb).2
      exact hr
  obtain ⟨_, _, _, _, _, _, _, rfl⟩ := hbeg.same
  exact ⟨rfl, rfl, hsw, hp, hc, rfl, hfp, hwal⟩

theorem recoveredPage_noJournal (d : Disk B) (p : Nat) : recoveredPage (noJournal d) p =
    if p < d.main.length % fileLengthWrap then BlockFile.read Page.zero d.main p else Page.zero := rfl

/-- An uncached page without a newer frame still reads as at BEGIN. -/
theorem Snapshot.readPage {d : Disk B} (h : Snapshot d s) {p : Nat}
    (hn : newestFrame (s.disk.wal.getD []) p = newestFrame (d.wal.getD []) p) : s.readPage p = found (noJournal d) p := by
  have hfile : (if p < s.filePages then s.mainPage p else Page.zero) = recoveredPage (noJournal d) p := by
    rw [h.filePages, recoveredPage_noJournal, ← h.main]
    rfl
  have hframe : s.lastFrame p = newestFrame (d.wal.getD []) p := hn
  unfold Pager.readPage found
  rw [hfile, hframe]
  show _ = ((newestFrame (d.wal.getD []) p).map Frame.data).getD _
  cases hf : newestFrame (d.wal.getD []) p with
  | none => exact ite_self _
  | some f =>
    have hw : d.wal.isSome = true := by
      cases hd : d.wal with
      | none =>
        rw [hd] at hf
        cases hf
      | some w => rfl
    obtain ⟨hu, ho⟩ := h.wal hw
    rw [if_pos (by rw [hu, ho]; rfl)]
    rfl

theorem Snapshot.base {d : Disk B} (h : Snapshot d s) {p : Nat} (hok : NotOvertaken (d.wal.getD []) s (.read p)) :
    s.base p = found (noJournal d) p := by
  unfold Pager.base
  cases hs : s.pages.slot p with
  | some x => exact h.cached p x hs
  | none =>
    refine h.readPage (hok.resolve_left ?_)
    rw [hs]
    exact Bool.false_ne_true

theorem Snapshot.read {d : Disk B} (h : Snapshot d s) {p : Nat} (hok : NotOvertaken (d.wal.getD []) s (.read p)) :
    Snapshot d (s.getPage p) ∧ (s.getPage p).deref p = found (noJournal d) p := by
  have hl := getPage_inTx h.sharedWrite h.pending h.inTx p
  have hbase := h.base hok
  refine ⟨?_, ?_⟩
  · have hslot := hl.slot
    obtain ⟨_, _, _, _, he⟩ := hl.same
    rw [he] at hslot ⊢
    refine ⟨h.inTx, h.reader, h.sharedWrite, h.pending, fun q x hq => ?_, h.main, h.filePages, h.wal⟩
    have hq' := hslot q
    rw [show _ = some x from hq] at hq'
    split at hq'
    · next hqp =>
      rw [hqp, ← hbase]
      exact Option.some.inj hq'
    · exact h.cached q x hq'.symm
  · rw [hl.deref, view_unshadowed fun hs => ?_, hbase]
    have := hs.1
    rw [h.reader] at this
    cases this

theorem Snapshot.step {d : Disk B} (h : Snapshot d s) {a : ReaderStep B} (hok : NotOvertaken (d.wal.getD []) s a) :
    Snapshot d (s.readerStep a) := by
  cases a with
  | read p => exact (h.read hok).1
  | frame f => exact ⟨h.inTx, h.reader, h.sharedWrite, h.pending, h.cached, h.main, h.filePages, h.wal⟩
  | writer r w => exact ⟨h.inTx, h.reader, h.sharedWrite, h.pending, h.cached, h.main, h.filePages, h.wal⟩

/-- A reader whose cache was up to date at BEGIN, and which reads no uncached page after a newer frame of it,
sees the state of BEGIN in every read of its transaction. -/
theorem wal_reader_sees_begin (ht : s.inTransaction = false) (hm : s.isMemory = false)
    (hsw : s.others.sharedWrite = false) (hp : s.others.pending = false) (hb : s.pagerBeginTransaction = (true, b))
    (hc : ∀ q x, b.pages.slot q = some x → x = found (noJournal s.disk) q) {steps : List (ReaderStep B)}
    (hok : Run.Meets readerStep (NotOvertaken (s.disk.wal.getD [])) b steps) (pre post : List (ReaderStep B)) {p : Nat}
    (hat : steps = pre ++ .read p :: post) :
    ((Run.run readerStep b pre).getPage p).deref p = found (noJournal s.disk) p := by
  have h0 := begin_snapshot ht hm hsw hp hb hc
  subst hat
  rw [Run.meets_append, Run.meets_cons] at hok
  have hinv : Snapshot s.disk (Run.run readerStep b pre) :=
    hok.1.invariant (fun _ s' => Snapshot s.disk s') h0 fun _ _ _ _ h hstep => h.step hstep
  exact (hinv.read hok.2.1).2

/-- A writer's commit of pages 1 and 2, between two reads of a reader that had page 1 cached. -/
def readAcrossCommit : List (ReaderStep Word) :=
  [.read 1, .writer true .free, .frame ⟨0, true, 2, 1, ⟨0, 1, 0⟩⟩, .frame ⟨1, true, 2, 1, ⟨8, 0, 0⟩⟩,
    .frame ⟨2, true, 2, 1, ⟨8, 0, 0⟩⟩, .writer false .free]

/-- After the commit the reader's page 1 is still the old one, and its page 2 is the new one. -/
theorem wal_reader_mixes_states : threePages.pagerBeginTransaction.1 = true ∧
    ((Run.run readerStep threePages.pagerBeginTransaction.2 readAcrossCommit).getPage 1).deref 1 =
      found (noJournal threePages.disk) 1 ∧
    ((Run.run readerStep threePages.pagerBeginTransaction.2 readAcrossCommit).getPage 2).deref 2 ≠
      found (noJournal threePages.disk) 2 :=
  ⟨rfl, by decide, by decide⟩

/-- The page that was cached before the commit stays as it was at BEGIN. -/
theorem wal_reader_sees_begin_cached :
    ((Run.run readerStep threePages.pagerBeginTransaction.2 readAcrossCommit).getPage 1).deref 1 =
      found (noJournal threePages.disk) 1 := by
  have hempty : ∀ q, threePages.pagerBeginTransaction.2.pages.slot q = none := fun _ => rfl
  refine wal_reader_sees_begin (s := threePages) rfl rfl rfl rfl rfl
    (fun q x hq => absurd ((hempty q).symm.trans hq) (Option.some_ne_none x).symm) ?_ readAcrossCommit [] rfl
  simp only [readAcrossCommit, List.cons_append, List.nil_append, Run.meets_cons, Run.meets_nil, and_true]
  exact ⟨by decide, trivial, trivial, trivial, trivial, trivial, by decide⟩

end Pager

end CustomDB
