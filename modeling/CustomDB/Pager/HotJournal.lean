import CustomDB.Pager.Crash
import CustomDB.Pager.Touch

/-!
# Readers after a crash

A writer that crashed leaves a journal behind. `pager_open` replays it; `get_page` does not look for it, so a
connection that is open already reads what the commit had written before it stopped.
-/

namespace CustomDB

open Lib

namespace Pager

variable {B : Type} [PageBody B]

/-! ## The readers -/

/-- The files as a crashed writer left them, and the pagers of the readers. The locks of the writer are gone. -/
structure AfterCrash (B : Type) where
  disk : Disk B
  readers : List (Pager B)

/-- What a reader does then. -/
inductive Visit where
  | connect (clock : Nat)
  /-- `get_page(p)` of reader `i`. -/
  | get (i p : Nat)

/-- A reader over the files as they are now. -/
def onFiles (d : Disk B) (r : Pager B) : Pager B := { r with disk := d }

def AfterCrash.visit (s : AfterCrash B) : Visit → AfterCrash B
  | .connect clock => ⟨(pagerOpen s.disk ByteLocks.none .free clock).disk, s.readers ++ [pagerOpen s.disk ByteLocks.none .free clock]⟩
  | .get i p => ⟨s.disk, s.readers.modify i fun r => (onFiles s.disk r).getPage p⟩

/-- A read of a page that the transaction found at BEGIN returns it as it was then. -/
def OldPages (n : Nat) (orig : Nat → Page B) (s : AfterCrash B) : Visit → Prop
  | .connect _ => True
  | .get i p => ∀ r ∈ s.readers[i]?, p < n → SameBytes p (((onFiles s.disk r).getPage p).deref p) (orig p)

/-! ## When they do -/

/-- The refresh finds the file as the reader knows it. -/
def KeepsCache (s : Pager B) : Prop :=
  max s.walMaxLsn s.diskLsn ≤ s.walLsn ∧ s.disk.main.length % fileLengthWrap = s.filePages

/-- Nobody needs the journal for the page that is read: it was replayed by a connection that opened since, or the
commit has not come to the page, or the reader has it in a cache that it keeps. -/
def Settled (n : Nat) (orig : Nat → Page B) (s : AfterCrash B) : Visit → Prop
  | .connect _ => True
  | .get i p => ∀ r ∈ s.readers[i]?, p < n → records s.disk = [] ∨
      SameBytes p (BlockFile.read Page.zero s.disk.main p) (orig p) ∨
      KeepsCache (onFiles s.disk r) ∧ (r.pages.slot p).isSome = true

/-- The LSN that a refresh finds on page 0. -/
def fileLsn (d : Disk B) : Nat := if 1 ≤ d.main.length then (BlockFile.read Page.zero d.main 0).lsn else 0

/-- A reader of a database file in rollback mode, between transactions. What it has cached is the last committed
state, or older than the LSN that the file has, before a recovery and after it. -/
structure Reader (n : Nat) (orig : Nat → Page B) (d : Disk B) (r : Pager B) : Prop where
  notInTx : r.inTransaction = false
  file : r.isMemory = false
  sharedWrite : r.others.sharedWrite = false
  pending : r.others.pending = false
  cache : (∀ p x, p < n → r.pages.slot p = some x → SameBytes p x (orig p)) ∨
    r.walLsn < fileLsn d ∧ r.walLsn < fileLsn (checkAndRecoverJournal d ByteLocks.none)

/-- The files are below 4 GiB, before a recovery and after it. -/
def FitsFiles (d : Disk B) : Prop := d.main.length < fileLengthWrap ∧ ∀ e ∈ records d, e.1 + 1 < fileLengthWrap

/-- What holds from the crash on. -/
structure Crashed (n : Nat) (orig : Nat → Page B) (s : AfterCrash B) : Prop where
  recoverable : Recoverable n orig s.disk
  noWal : s.disk.wal = none
  fits : FitsFiles s.disk
  readers : ∀ r ∈ s.readers, Reader n orig s.disk r

variable {n p : Nat} {orig : Nat → Page B} {d : Disk B} {r : Pager B} {s : AfterCrash B}

/-! ## One read -/

instance (s : Pager B) : Decidable (KeepsCache s) := inferInstanceAs (Decidable (_ ∧ _))

/-- The cache a reader looks the page up in. -/
def keptCache (d : Disk B) (r : Pager B) : Slots (Page B) := if KeepsCache (onFiles d r) then r.pages else Slots.empty

/-- The page a reader gets: its own copy if it has kept one, else what the main file has. -/
def readerPage (d : Disk B) (r : Pager B) (p : Nat) : Page B :=
  ((keptCache d r).slot p).getD (BlockFile.read Page.zero d.main p)

/-- What `get_page(p)` makes of a reader. -/
structure Got (d : Disk B) (r : Pager B) (p : Nat) (q : Pager B) : Prop where
  page : q.deref p = readerPage d r p
  slot : ∀ k, q.pages.slot k = if k = p then some (readerPage d r p) else (keptCache d r).slot k
  inTransaction : q.inTransaction = r.inTransaction
  isMemory : q.isMemory = r.isMemory
  others : q.others = r.others

/-- The reader after the refresh. -/
theorem Reader.refresh (h : Reader n orig d r) (hw : d.wal = none) (l : PagerLockState) (e : Bool) :
    ∃ t, ({ onFiles d r with lockState := l, lockError := e } : Pager B).pagerRefreshIfModified = t ∧
      t.pages = keptCache d r ∧ t.disk = d ∧ t.filePages = d.main.length % fileLengthWrap ∧
      t.inTransaction = r.inTransaction ∧ t.isMemory = r.isMemory ∧ t.others = r.others := by
  have hkept := refresh_rollback (s := { onFiles d r with lockState := l, lockError := e }) h.notInTx h.file hw
  refine ⟨_, rfl, ?_⟩
  rw [hkept]
  unfold keptCache
  by_cases hk : KeepsCache (onFiles d r)
  · have hn : ¬ (r.walLsn < max (onFiles d r).walMaxLsn (onFiles d r).diskLsn ∨ d.main.length % fileLengthWrap ≠ r.filePages) := by
      rintro (hlt | hne)
      · exact absurd hk.1 (Nat.not_le.mpr hlt)
      · exact hne hk.2
    rw [if_pos hk, if_neg (by exact hn)]
    exact ⟨rfl, rfl, hk.2.symm, rfl, rfl, rfl⟩
  · have hn : r.walLsn < max (onFiles d r).walMaxLsn (onFiles d r).diskLsn ∨ d.main.length % fileLengthWrap ≠ r.filePages := by
      by_contra hn
      push Not at hn
      exact hk hn
    rw [if_neg hk, if_pos (by exact hn)]
    exact ⟨rfl, rfl, rfl, rfl, rfl, rfl⟩

theorem Reader.get (h : Reader n orig d r) (hw : d.wal = none) (hd : d.main.length < fileLengthWrap) (p : Nat) :
    Got d r p ((onFiles d r).getPage p) := by
  obtain ⟨e, hl⟩ := getPage_refreshed (s := onFiles d r) h.sharedWrite h.pending p
  obtain ⟨t, hr, hpages, hdisk, hlen, ht, hm, ho⟩ := h.refresh hw ((onFiles d r).lockedAt .shared) e
  rw [hr] at hl
  have hread : t.readPage p = BlockFile.read Page.zero d.main p := by
    have hframe : t.lastFrame p = none := by
      unfold lastFrame
      rw [hdisk, hw]
      rfl
    have hfile : (if p < t.filePages then t.mainPage p else Page.zero) = BlockFile.read Page.zero d.main p := by
      rw [hlen, Nat.mod_eq_of_lt hd]
      unfold mainPage
      rw [hdisk]
      split
      · rfl
      · exact (BlockFile.read_eq_filler _ _ (by omega)).symm
    unfold readPage
    rw [hframe, hfile]
    exact ite_self _
  have hbase : t.base p = readerPage d r p := by
    unfold Pager.base readerPage
    rw [hpages, hread]
  have hview : t.view p = t.base p := by
    unfold Pager.view
    rw [ht, h.notInTx]
    rfl
  have hslot : ∀ k, ((onFiles d r).getPage p).pages.slot k = if k = p then some (readerPage d r p) else (keptCache d r).slot k := by
    intro k
    rw [hl.slot, hbase, hpages]
  have hderef := hl.deref.trans (hview.trans hbase)
  obtain ⟨_, _, _, _, he⟩ := hl.same
  rw [he] at hslot hderef ⊢
  exact ⟨hderef, hslot, ht, hm, ho⟩

/-- A cache that is kept holds the last committed state. -/
theorem Reader.kept (h : Reader n orig d r) {x : Page B} (hp : p < n) (hx : (keptCache d r).slot p = some x) :
    SameBytes p x (orig p) := by
  unfold keptCache at hx
  split at hx
  · next hk =>
    rcases h.cache with hc | ⟨hlt, -⟩
    · exact hc p x hp hx
    · -- the refresh would have seen the newer LSN
      have hle : max (onFiles d r).walMaxLsn (fileLsn d) ≤ r.walLsn := hk.1
      have := le_max_right (onFiles d r).walMaxLsn (fileLsn d)
      omega
  · cases hx

/-- A read gives the old page exactly where it is settled. -/
theorem Crashed.readerPage_iff (h : Crashed n orig s) (hr : r ∈ s.readers) (hp : p < n) :
    SameBytes p (readerPage s.disk r p) (orig p) ↔ records s.disk = [] ∨
      SameBytes p (BlockFile.read Page.zero s.disk.main p) (orig p) ∨
      KeepsCache (onFiles s.disk r) ∧ (r.pages.slot p).isSome = true := by
  have hreader := h.readers r hr
  have hclean : records s.disk = [] → SameBytes p (BlockFile.read Page.zero s.disk.main p) (orig p) := by
    intro hj
    exact h.recoverable.clean p hp fun e he => by
      rw [hj] at he
      cases he
  unfold readerPage
  cases hslot : (keptCache s.disk r).slot p with
  | some x =>
    have hk : KeepsCache (onFiles s.disk r) ∧ (r.pages.slot p).isSome = true := by
      unfold keptCache at hslot
      split at hslot
      · next hk => exact ⟨hk, by rw [hslot]; rfl⟩
      · cases hslot
    exact ⟨fun _ => Or.inr (Or.inr hk), fun _ => hreader.kept hp hslot⟩
  | none =>
    rw [Option.getD_none]
    refine ⟨fun hs => Or.inr (Or.inl hs), ?_⟩
    rintro (hj | hs | ⟨hk, hx⟩)
    · exact hclean hj
    · exact hs
    · unfold keptCache at hslot
      rw [if_pos hk] at hslot
      rw [hslot] at hx
      cases hx

theorem Crashed.settled_iff (h : Crashed n orig s) (v : Visit) : OldPages n orig s v ↔ Settled n orig s v := by
  cases v with
  | connect clock => exact Iff.rfl
  | get i p =>
    refine forall_congr' fun r => imp_congr_right fun hr => imp_congr_right fun hp => ?_
    have hr : r ∈ s.readers := List.mem_of_getElem? hr
    rw [((h.readers r hr).get h.noWal h.fits.1 p).page]
    exact h.readerPage_iff hr hp

/-! ## What a visit keeps -/

/-- After a recovery there is nothing to recover. -/
theorem recovered_records (d : Disk B) : records (checkAndRecoverJournal d ByteLocks.none) = [] ∧
    (checkAndRecoverJournal d ByteLocks.none).wal = d.wal ∧
    fileLsn (checkAndRecoverJournal (checkAndRecoverJournal d ByteLocks.none) ByteLocks.none) =
      fileLsn (checkAndRecoverJournal d ByteLocks.none) := by
  have hrec : records (checkAndRecoverJournal d ByteLocks.none) = [] := by
    unfold checkAndRecoverJournal records
    split
    · rfl
    · next hj =>
      cases hd : d.journal with
      | none => rfl
      | some j =>
        cases j with
        | nil => rfl
        | cons e j => exact absurd hd (hj e j)
  refine ⟨hrec, ?_, ?_⟩
  · unfold checkAndRecoverJournal
    split
    · split <;> rfl
    · rfl
  · unfold fileLsn
    rw [checkAndRecover_main (checkAndRecoverJournal d ByteLocks.none), hrec]
    rfl

theorem FitsFiles.recovered (h : FitsFiles d) : FitsFiles (checkAndRecoverJournal d ByteLocks.none) := by
  have hle := BlockFile.length_writeAll_le Page.zero d.main (records d) (fileLengthWrap - 1) fun e he => by
    have := h.2 e he
    omega
  refine ⟨?_, fun e he => ?_⟩
  · have := h.1
    rw [checkAndRecover_main]
    unfold recoverMain
    omega
  · rw [(recovered_records d).1] at he
    cases he

theorem Crashed.connect (h : Crashed n orig s) (clock : Nat) : Crashed n orig (s.visit (.connect clock)) := by
  obtain ⟨hrec, hwal, hlsn⟩ := recovered_records s.disk
  refine ⟨⟨fun e he => ?_, fun p hp _ => h.recoverable.recovers hp clock⟩, hwal.trans h.noWal, h.fits.recovered, fun r hr => ?_⟩
  · rw [show records (s.visit (.connect clock)).disk = [] from hrec] at he
    cases he
  · rcases List.mem_append.mp hr with hr | hr
    · obtain ⟨ht, hm, hsw, hp, hc⟩ := h.readers r hr
      refine ⟨ht, hm, hsw, hp, hc.imp_right fun hlt => ⟨hlt.2, ?_⟩⟩
      show r.walLsn < fileLsn (checkAndRecoverJournal (checkAndRecoverJournal s.disk ByteLocks.none) ByteLocks.none)
      rw [hlsn]
      exact hlt.2
    · obtain rfl := List.mem_singleton.mp hr
      exact ⟨rfl, rfl, rfl, rfl, Or.inl nofun⟩

theorem Crashed.get (h : Crashed n orig s) {i p : Nat} (hok : OldPages n orig s (.get i p)) :
    Crashed n orig (s.visit (.get i p)) := by
  refine ⟨h.recoverable, h.noWal, h.fits, fun q hq => ?_⟩
  obtain ⟨j, hj⟩ := List.getElem?_of_mem hq
  have hj : (s.readers.modify i fun r => (onFiles s.disk r).getPage p)[j]? = some q := hj
  rw [List.getElem?_modify] at hj
  obtain ⟨r, hr, hq⟩ := Option.map_eq_some_iff.mp hj
  have hreader := h.readers r (List.mem_of_getElem? hr)
  split at hq
  · next hij =>
    subst hij hq
    obtain ⟨hpage, hslot, ht, hm, ho⟩ := hreader.get h.noWal h.fits.1 p
    refine ⟨ht.trans hreader.notInTx, hm.trans hreader.file, by rw [ho]; exact hreader.sharedWrite,
      by rw [ho]; exact hreader.pending, Or.inl fun k x hk hx => ?_⟩
    rw [hslot] at hx
    split at hx
    · next hkp =>
      subst hkp
      have hold := hok r hr hk
      rw [hpage] at hold
      rwa [← Option.some.inj hx]
    · exact hreader.kept hk hx
  · obtain rfl := hq
    exact hreader

/-- Every read gives the old page exactly when every read is settled. -/
theorem Crashed.run_iff (h : Crashed n orig s) (vs : List Visit) :
    Run.Meets AfterCrash.visit (OldPages n orig) s vs ↔ Run.Meets AfterCrash.visit (Settled n orig) s vs := by
  refine Run.meets_iff (Crashed n orig) (fun s v hs => hs.settled_iff v) (fun s v hs hok => ?_) h vs
  cases v with
  | connect clock => exact hs.connect clock
  | get i p => exact hs.get hok

/-- A database of three pages in rollback mode, nobody in a transaction. -/
def readPages : Pager Word := pagerOpen ⟨[⟨0, 0, 0⟩, ⟨1, 0, 0⟩, ⟨2, 0, 0⟩], none, none⟩ ByteLocks.none .free 1

/-- A transaction over it that journals and writes pages 1 and 2. -/
def twoWrites : Pager Word :=
  Run.run act readPages.pagerBeginTransaction.2 ([1, 2].flatMap fun p => [.journal p, .modify p (putBody 8)])

/-- The files when its commit stops before the last page. -/
def tornFiles : Disk Word := ⟨[⟨0, 1, 0⟩, ⟨8, 0, 0⟩, ⟨2, 0, 0⟩], some [(1, ⟨1, 0, 0⟩), (2, ⟨2, 0, 0⟩)], none⟩

theorem tornFiles_eq : crash readPages.disk (twoWrites.pagerCommit.getD twoWrites).io 5 = tornFiles := by
  have hmain : (crash readPages.disk (twoWrites.pagerCommit.getD twoWrites).io 5).main = tornFiles.main := by decide
  have hjournal : (crash readPages.disk (twoWrites.pagerCommit.getD twoWrites).io 5).journal = tornFiles.journal := by decide
  have hwal : (crash readPages.disk (twoWrites.pagerCommit.getD twoWrites).io 5).wal = tornFiles.wal := by decide
  generalize crash readPages.disk (twoWrites.pagerCommit.getD twoWrites).io 5 = d at hmain hjournal hwal
  cases d
  subst hmain hjournal hwal
  rfl

end Pager

end CustomDB
