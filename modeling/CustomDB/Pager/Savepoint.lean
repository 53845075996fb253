import CustomDB.Pager.Commit
import CustomDB.Pager.Rollback

/-!
# Savepoints as a stack of snapshots

The reference keeps, beside the pager, what every page showed when each open savepoint was created. The
invariant ties the two: the oldest journal record of a page past a savepoint's offset holds what the page
showed then, and a page without one shows it still.
-/

namespace CustomDB

open Lib

namespace Pager

variable {B : Type} [PageBody B] {s s' : Pager B}

/-! ## The effect of `ROLLBACK TO` -/

theorem foldl_replayEntryShadow (s : Pager B) (ws : List (JournalEntry B)) :
    ws.foldl replayEntryShadow s = { s with
      disk := { s.disk with main := recoverMain s.disk.main ws }
      io := s.io ++ ws.map fun e => .writeMain e.1 e.2
      pages := s.pages.overwriteAll ws
      shadowPages := s.shadowPages.overwriteAll ws } := by
  induction ws generalizing s with
  | nil => simp [recoverMain, Slots.overwriteAll]
  | cons e ws ih =>
    rw [List.foldl_cons, ih]
    simp only [replayEntryShadow, replayEntry, emit, Disk.apply, List.map_cons, List.append_assoc,
      List.singleton_append]
    rfl

/-- The records past `offset`, in the order they are replayed. -/
def replayed (s : Pager B) (offset : Nat) : List (JournalEntry B) := (s.journalRecords.drop offset).reverse

theorem replayTo_eq (s : Pager B) (offset : Nat) : ∃ io, s.replayTo offset = { s with
    disk := { s.disk with
      main := recoverMain s.disk.main (s.replayed offset), journal := s.disk.journal.map (List.take offset) }
    io := io
    pages := s.pages.overwriteAll (s.replayed offset)
    shadowPages := s.shadowPages.overwriteAll (s.replayed offset) } := by
  have hnil : s.replayed offset = [] → s.disk.journal.map (List.take offset) = s.disk.journal →
      s = { s with
        disk := { s.disk with
          main := recoverMain s.disk.main (s.replayed offset), journal := s.disk.journal.map (List.take offset) }
        io := s.io
        pages := s.pages.overwriteAll (s.replayed offset)
        shadowPages := s.shadowPages.overwriteAll (s.replayed offset) } := by
    intro h1 h2
    rw [h1, h2]
    rfl
  unfold replayTo
  cases hj : s.disk.journal with
  | none =>
    have h := hnil (by simp [replayed, journalRecords, hj]) (by rw [hj]; rfl)
    rw [hj] at h
    exact ⟨s.io, h⟩
  | some j =>
    simp only
    by_cases hlt : offset < j.length
    · rw [if_pos hlt, foldl_replayEntryShadow]
      have hr : (j.drop offset).reverse = s.replayed offset := by simp [replayed, journalRecords, hj]
      rw [hr]
      simp only [emit, Disk.apply, hj]
      exact ⟨_, rfl⟩
    · rw [if_neg hlt]
      have h := hnil (by simp [replayed, journalRecords, hj, List.drop_eq_nil_of_le (by omega : j.length ≤ offset)])
        (by rw [hj, Option.map_some, List.take_of_length_le (by omega)])
      rw [hj] at h
      exact ⟨s.io, h⟩

/-- `ROLLBACK TO` takes pages away. -/
def CutsTo (s : Pager B) (n : Nat) : Prop := 0 < n ∧ n < s.numPages

instance (s : Pager B) (n : Nat) : Decidable (s.CutsTo n) := inferInstanceAs (Decidable (_ ∧ _))

/-- `pager_rollback_to_savepoint` back to the open savepoint `sp`. -/
structure RolledTo (s s' : Pager B) (sp : Savepoint) (rest : List Savepoint) : Prop where
  same : ∃ m jn io c n fp sh, s' = { s with
    disk := { main := m, journal := jn, wal := s.disk.wal }, io := io, pages := c, numPages := n
    filePages := fp, shadowPages := sh, savepoints := sp :: rest }
  slot : ∀ q, s'.pages.slot q = if s.CutsTo sp.numPagesAtSavepoint ∧ sp.numPagesAtSavepoint ≤ q ∧ q < s.numPages
    then none else (s.pages.overwriteAll (s.replayed sp.journalOffset)).slot q
  shadow : ∀ q, s'.shadowPages.slot q =
    if s.CutsTo sp.numPagesAtSavepoint ∧ sp.numPagesAtSavepoint ≤ q ∧ q < s.numPages
    then none else (s.shadowPages.overwriteAll (s.replayed sp.journalOffset)).slot q
  main : s'.disk.main = if s.CutsTo sp.numPagesAtSavepoint ∧ s.isMemory = false then
      BlockFile.truncate Page.zero (recoverMain s.disk.main (s.replayed sp.journalOffset))
        (sp.numPagesAtSavepoint % fileLengthWrap)
    else recoverMain s.disk.main (s.replayed sp.journalOffset)
  journal : s'.disk.journal = s.disk.journal.map (List.take sp.journalOffset)
  numPages : s'.numPages = sp.numPagesAtSavepoint
  filePages : s'.filePages = if s.CutsTo sp.numPagesAtSavepoint then sp.numPagesAtSavepoint % fileLengthWrap
    else s.filePages

theorem rollbackTo_rolledTo (ht : s.inTransaction = true) {name : SavepointName} {sp : Savepoint}
    {rest : List Savepoint} (hf : s.findSavepoint name = sp :: rest) :
    RolledTo s (s.pagerRollbackToSavepoint name) sp rest := by
  obtain ⟨io, he⟩ := replayTo_eq s sp.journalOffset
  unfold pagerRollbackToSavepoint
  rw [if_neg (by simp [ht]), hf]
  simp only [he]
  by_cases hc : s.CutsTo sp.numPagesAtSavepoint
  · simp only [if_pos (show 0 < sp.numPagesAtSavepoint ∧ sp.numPagesAtSavepoint < s.numPages from hc)]
    unfold cutPages
    by_cases hm : s.isMemory = true
    · simp only [if_pos hm]
      refine ⟨⟨_, _, _, _, _, _, _, rfl⟩, fun q => ?_, fun q => ?_, ?_, rfl, rfl, ?_⟩
      · simp only [Slots.slot_clearRange, hc, true_and]
      · simp only [Slots.slot_clearRange, hc, true_and]
      · rw [if_neg fun hn => by simp [hm] at hn]
      · rw [if_pos hc]
    · simp only [if_neg hm]
      refine ⟨⟨_, _, _, _, _, _, _, rfl⟩, fun q => ?_, fun q => ?_, ?_, rfl, rfl, ?_⟩
      · change (Slots.clearRange _ _ _).slot q = _
        simp only [Slots.slot_clearRange, hc, true_and]
      · change (Slots.clearRange _ _ _).slot q = _
        simp only [Slots.slot_clearRange, hc, true_and]
      · rw [if_pos ⟨hc, by simpa using hm⟩]
        rfl
      · rw [if_pos hc]
        rfl
  · simp only [if_neg (show ¬ (0 < sp.numPagesAtSavepoint ∧ sp.numPagesAtSavepoint < s.numPages) from hc)]
    refine ⟨⟨_, _, _, _, _, _, _, rfl⟩, fun q => ?_, fun q => ?_, ?_, rfl, rfl, ?_⟩
    · rw [if_neg fun hn => hc hn.1]
    · rw [if_neg fun hn => hc hn.1]
    · rw [if_neg fun hn => hc hn.1]
    · rw [if_neg hc]

/-! ## Sessions -/

/-- What a client asks of one pager. -/
inductive Command (B : Type) where
  | begin
  | write (p : Nat) (f : Page B → Page B)
  | savepoint (name : SavepointName)
  | rollbackTo (name : SavepointName)
  | release (name : SavepointName)
  | commit
  | rollback

/-- The pages as they were when a savepoint was created. -/
structure Mark (B : Type) where
  name : SavepointName
  view : Nat → Page B
  numPages : Nat

/-- A pager beside the reference stack of its transaction, the newest mark first, and the page count the
transaction began with. -/
structure Session (B : Type) where
  pager : Pager B
  marks : List (Mark B)
  began : Nat

/-- The marks from the newest one called `name` on. -/
def findMark (marks : List (Mark B)) (name : SavepointName) : List (Mark B) :=
  marks.dropWhile fun m => m.name ≠ name

namespace Session

/-- A new transaction starts with an empty stack. -/
def started (σ : Session B) : Session B :=
  if σ.pager.inTransaction then σ
  else
    let r := σ.pager.pagerBeginTransaction
    if r.1 then ⟨r.2, [], r.2.numPages⟩ else { σ with pager := r.2 }

/-- One command; `none` when the pager exits. -/
def step (σ : Session B) : Command B → Option (Session B)
  | .begin => some σ.started
  | .write p f => some { σ with pager := (σ.pager.pagerJournalPage p).modify p f }
  | .savepoint name =>
    let b := σ.started
    some { b with
      pager := σ.pager.pagerSavepoint name
      marks := if 16 ≤ b.marks.length then b.marks else ⟨name, b.pager.view, b.pager.numPages⟩ :: b.marks }
  | .rollbackTo name =>
    some { σ with
      pager := σ.pager.pagerRollbackToSavepoint name
      marks := match findMark σ.marks name with
        | [] => σ.marks
        | ms => ms }
  | .release name =>
    some { σ with
      pager := σ.pager.pagerReleaseSavepoint name
      marks := match findMark σ.marks name with
        | [] => σ.marks
        | _ :: ms => ms }
  | .commit => σ.pager.pagerCommit.map fun s => { σ with pager := s, marks := [] }
  | .rollback => σ.pager.pagerRollback.map fun s => { σ with pager := s, marks := [] }

/-- A session that has exited stays so. -/
def next (o : Option (Session B)) (c : Command B) : Option (Session B) := o.bind fun σ => σ.step c

end Session

/-- The record `pager_journal_page` adds lands at the end of the journal, or the page it skips has one. -/
def InStep (s : Pager B) (p : Nat) : Prop :=
  if s.savepoints = [] ∧ p ∈ s.pageIsJournaled then ∃ e ∈ s.journalRecords, e.1 = p
  else s.journalPos = some s.journalLength

/-- Where `ROLLBACK TO sp` puts back only what the transaction wrote after `sp` and not before: no replayed
page has an older record, the file is current for it, and the file already ends where it is cut. -/
structure UndoesOnly (s : Pager B) (sp : Savepoint) : Prop where
  journaled : s.isMemory = true → s.isWriter = false
  count : sp.numPagesAtSavepoint = 0 → s.numPages = 0
  firstWrite : ∀ e ∈ s.replayed sp.journalOffset, ∀ e' ∈ s.journalRecords.take sp.journalOffset, e'.1 ≠ e.1
  current : s.useWal = true → ∀ e ∈ s.replayed sp.journalOffset, s.mainPage e.1 = s.base e.1
  length : s.isMemory = false → s.CutsTo sp.numPagesAtSavepoint → s.disk.main.length = sp.numPagesAtSavepoint
  inside : ¬ s.CutsTo sp.numPagesAtSavepoint → ∀ e ∈ s.replayed sp.journalOffset, e.1 < s.disk.main.length

/-- Where a command does not spoil the stack. -/
def StackSafe (σ : Session B) (c : Command B) : Prop :=
  Fits σ.pager ∧
    match c with
    | .write p _ => σ.pager.isMemory = false → σ.pager.isWriter = true → InStep σ.pager p
    | .rollbackTo name => σ.pager.inTransaction = true →
        ∀ sp rest, σ.pager.findSavepoint name = sp :: rest → UndoesOnly σ.pager sp
    | .commit => σ.pager.inTransaction = true → σ.pager.savepoints = []
    | _ => True

/-! ## The invariant -/

/-- The mark `m` is what the savepoint `sp` stands for, in a transaction whose journal is `j`. -/
structure Tracks (s : Pager B) (began : Nat) (j : List (JournalEntry B)) (sp : Savepoint) (m : Mark B) : Prop where
  name : sp.name = m.name
  pages : sp.numPagesAtSavepoint = m.numPages
  offset_le : sp.journalOffset ≤ j.length
  pages_le : m.numPages ≤ s.numPages
  began_le : began ≤ m.numPages
  older : ∀ e ∈ j.take sp.journalOffset, e.1 < m.numPages
  view : (s.isMemory = true → s.isWriter = false) → ∀ p < m.numPages,
    ((j.drop sp.journalOffset).lookup p).getD (s.view p) = m.view p

/-- Inside a transaction whose journal is `j`. -/
def Stage (s : Pager B) (j : List (JournalEntry B)) : Prop := Reading s ∧ j = [] ∨ Writing s j

/-- A session inside a transaction whose journal is `j`. -/
structure InTx (σ : Session B) (j : List (JournalEntry B)) : Prop where
  phase : Reading σ.pager ∧ j = [] ∨ Writing σ.pager j
  covers : Covers σ.pager
  memory : σ.pager.isMemory = true → σ.pager.disk.main = []
  began_le : σ.began ≤ σ.pager.numPages
  cached : ∀ q x, σ.pager.pages.slot q = some x → q < σ.pager.numPages
  backed : ∀ p, (σ.pager.shadowPages.slot p).isSome = true → (σ.pager.pages.slot p).isSome = true
  records_lt : ∀ e ∈ j, e.1 < σ.pager.numPages
  records_shadow : ∀ e ∈ j, (σ.pager.shadowPages.slot e.1).isSome = true
  image : σ.pager.isMemory = false → ∀ p, (j.lookup p).getD (σ.pager.view p) = σ.pager.base p
  main : σ.pager.isMemory = false → σ.pager.isWriter = true → σ.pager.useWal = false →
    ∀ p, σ.pager.mainPage p = σ.pager.base p
  stack : List.Forall₂ (Tracks σ.pager σ.began j) σ.pager.savepoints σ.marks
  ordered : σ.pager.savepoints.Pairwise fun a b =>
    b.journalOffset ≤ a.journalOffset ∧ b.numPagesAtSavepoint ≤ a.numPagesAtSavepoint

/-- The invariant of a session. -/
def StackInv (σ : Session B) : Prop :=
  Idle σ.pager ∧ σ.pager.savepoints = [] ∧ σ.marks = [] ∨ ∃ j, InTx σ j

variable {σ : Session B} {j : List (JournalEntry B)}

omit [PageBody B] in
theorem Stage.sole (h : Stage s j) : Sole s ∧ s.inTransaction = true := by
  rcases h with ⟨hr, -⟩ | hw
  · exact ⟨hr.toSole, hr.inTx⟩
  · exact ⟨hw.toSole, hw.inTx⟩

omit [PageBody B] in
/-- `ROLLBACK TO` and the measuring of the journal find `j`. -/
theorem Stage.records (h : Stage s j) : s.journalRecords = j := by
  unfold journalRecords
  rcases h with ⟨hr, rfl⟩ | hw
  · rw [hr.noFile]
    rfl
  · by_cases hm : s.isMemory = true
    · obtain ⟨hno, rfl⟩ := hw.inMemory hm
      rw [hno]
      rfl
    · rw [(hw.holds (by simpa using hm)).journal]
      rfl

theorem InTx.inTransaction (h : InTx σ j) : σ.pager.inTransaction = true := (Stage.sole h.phase).2

theorem InTx.sole (h : InTx σ j) : Sole σ.pager := (Stage.sole h.phase).1

theorem InTx.records (h : InTx σ j) : σ.pager.journalRecords = j := Stage.records h.phase

theorem InTx.length (h : InTx σ j) : σ.pager.journalLength = j.length := by
  rw [← h.records]
  rfl

/-- A transaction that has captured nothing shows the committed pages. -/
theorem Reading.view (h : Reading s) (p : Nat) : s.view p = s.base p :=
  view_unshadowed fun hs => by
    have := hs.1
    rw [h.notWriter] at this
    cases this

theorem InTx.upgrade (h : InTx σ []) (hr : Reading σ.pager) (hfit : Fits σ.pager)
    (hup : Upgraded σ.pager s') : InTx { σ with pager := s' } [] := by
  have hcov := hup.covers h.covers h.cached hfit
  have hbase := hup.base h.covers hcov
  have hmain := hup.main
  have hmemory := hup.memory
  have hview : ∀ p, s'.view p = σ.pager.view p := by
    intro p
    have hn : s'.shadowPages.slot p = none := by
      obtain ⟨_, _, _, _, _, _, _, _, _, _, rfl⟩ := hup.same
      exact hr.noShadow p
    have hns : ¬ s'.Shadowed p := fun hs => by
      rw [Shadowed, hn] at hs
      cases hs.2
    rw [view_unshadowed hns, hbase, hr.view]
  have hfields : s'.isMemory = σ.pager.isMemory ∧ s'.useWal = σ.pager.useWal ∧ s'.pages = σ.pager.pages ∧
      s'.shadowPages = σ.pager.shadowPages ∧ s'.numPages = σ.pager.numPages ∧ s'.savepoints = σ.pager.savepoints := by
    obtain ⟨_, _, _, _, _, _, _, _, _, _, rfl⟩ := hup.same
    exact ⟨rfl, rfl, rfl, rfl, rfl, rfl⟩
  obtain ⟨hm, hu, hpg, hsh, hn, hsp⟩ := hfields
  refine ⟨Or.inr hup.writing, hcov, fun hmem => ?_, hn ▸ h.began_le, fun q x hq => ?_, fun p hp => ?_, fun e he => ?_, fun e he => ?_,
    fun hmem p => ?_, fun hmem _ hw p => ?_, ?_, ?_⟩
  · change s'.disk.main = []
    rw [hmemory (hm.symm.trans hmem)]
    exact h.memory (hm.symm.trans hmem)
  · dsimp only at hq ⊢
    rw [hpg] at hq
    rw [hn]
    exact h.cached q x hq
  · dsimp only at hp ⊢
    rw [hsh] at hp
    rw [hpg]
    exact h.backed p hp
  · exact absurd he List.not_mem_nil
  · exact absurd he List.not_mem_nil
  · change s'.view p = s'.base p
    rw [hview, hbase, hr.view]
  · change s'.mainPage p = s'.base p
    rw [hmain, hbase, if_pos ⟨hm.symm.trans hmem, hu.symm.trans hw⟩, Pager.base, h.covers.readPage,
      if_neg (by simp [← hu, show s'.useWal = false from hw])]
  · dsimp only
    rw [hsp]
    refine h.stack.imp fun sp m ht => ⟨ht.name, ht.pages, ht.offset_le, ?_, ht.began_le, ht.older, fun _ p hp => ?_⟩
    · rw [hn]
      exact ht.pages_le
    · rw [hview]
      exact ht.view (fun _ => hr.notWriter) p hp
  · dsimp only
    rw [hsp]
    exact h.ordered

omit [PageBody B] in
theorem lookup_concat (j : List (JournalEntry B)) (p q : Nat) (x : Page B) :
    (j ++ [(p, x)]).lookup q = (j.lookup q).or (if q = p then some x else none) := by
  rw [List.lookup_append, List.lookup_cons]
  by_cases hq : q = p
  · simp [hq]
  · simp [hq, beq_eq_decide]

/-- The store after `pager_journal_page` keeps the stack, when the journal is in step. -/
theorem InTx.write (h : InTx σ j) (hw : Writing σ.pager j) (p : Nat) (f : Page B → Page B)
    (hok : σ.pager.isMemory = false → InStep σ.pager p) :
    InTx { σ with pager := (σ.pager.pagerJournalPage p).modify p f } (σ.pager.journalAfter p j) := by
  have hwr := write_written hw h.backed p f
  generalize (σ.pager.pagerJournalPage p).modify p f = s' at hwr
  have hlast : σ.pager.journalAfter p j = j ∧ (σ.pager.isMemory = false → σ.pager.savepoints = [] ∧ ∃ e ∈ j, e.1 = p) ∨
      σ.pager.isMemory = false ∧ σ.pager.journalAfter p j = j ++ [(p, σ.pager.view p)] := by
    unfold journalAfter
    by_cases hm : σ.pager.isMemory = true
    · left
      refine ⟨?_, fun hn => by rw [hm] at hn; cases hn⟩
      split
      · rfl
      · rw [if_pos (Or.inl hm)]
    · have hm : σ.pager.isMemory = false := by simpa using hm
      have hst := hok hm
      unfold InStep at hst
      obtain ⟨pos, hpos⟩ := Option.isSome_iff_exists.mp (hw.holds hm).pos
      rw [hpos]
      simp only
      split at hst
      · next hs =>
        rw [h.records] at hst
        rw [if_pos (Or.inr hs)]
        exact Or.inl ⟨rfl, fun _ => ⟨hs.1, hst⟩⟩
      · next hs =>
        right
        rw [hpos, h.length] at hst
        obtain rfl := Option.some.inj hst
        rw [if_neg (by simp [hm, hs]), BlockFile.write_length]
        exact ⟨hm, rfl⟩
  have hfields : s'.isMemory = σ.pager.isMemory ∧ s'.useWal = σ.pager.useWal ∧ s'.disk.main = σ.pager.disk.main ∧
      s'.filePages = σ.pager.filePages ∧ s'.savepoints = σ.pager.savepoints ∧ s'.isWriter = true := by
    obtain ⟨_, _, _, _, _, _, _, _, _, _, rfl⟩ := hwr.same
    exact ⟨rfl, rfl, rfl, rfl, rfl, hw.writer⟩
  obtain ⟨hm, hu, hmain, hfp, hsp, hwriter⟩ := hfields
  have hp' : p < s'.numPages := by
    obtain ⟨x, hx⟩ := Option.isSome_iff_exists.mp ((hwr.slot p).mpr (Or.inl rfl))
    exact hwr.bound h.cached p x hx
  have hmem : ∀ e ∈ σ.pager.journalAfter p j, e ∈ j ∨ e.1 = p := by
    intro e he
    rcases hlast with ⟨hj, -⟩ | ⟨-, hj⟩
    · rw [hj] at he
      exact Or.inl he
    · rw [hj] at he
      rcases List.mem_append.mp he with he | he
      · exact Or.inl he
      · rw [List.mem_singleton.mp he]
        exact Or.inr rfl
  refine ⟨Or.inr hwr.writing, ?_, fun hmem => ?_, le_trans h.began_le hwr.numPages_ge, hwr.bound h.cached, fun q hq => ?_, fun e he => ?_, fun e he => ?_,
    fun hmem q => ?_, fun hmem _ hwal q => ?_, ?_, ?_⟩
  · unfold Covers
    dsimp only
    rw [hmain, hfp]
    exact h.covers
  · exact hmain.trans (h.memory (hm.symm.trans hmem))
  · exact (hwr.slot q).mpr (((hwr.shadow q).mp hq).imp_right (h.backed q))
  · rcases hmem e he with he | he
    · exact lt_of_lt_of_le (h.records_lt e he) hwr.numPages_ge
    · rw [he]
      exact hp'
  · refine (hwr.shadow e.1).mpr ?_
    rcases hmem e he with he | he
    · exact Or.inr (h.records_shadow e he)
    · exact Or.inl he
  · dsimp only
    have himg := h.image (hm.symm.trans hmem) q
    rw [hwr.base, hwr.view, ← himg]
    rcases hlast with ⟨hj, hrec⟩ | ⟨-, hj⟩
    · rw [hj]
      by_cases hq : q = p
      · obtain ⟨-, e, he, hep⟩ := hrec (hm.symm.trans hmem)
        have hsome : (j.lookup q).isSome = true := by
          rw [List.lookup_isSome_iff]
          exact ⟨e, he, by simp [hep, hq]⟩
        obtain ⟨x, hx⟩ := Option.isSome_iff_exists.mp hsome
        rw [hx, Option.getD_some, Option.getD_some]
      · rw [if_neg hq]
    · rw [hj, lookup_concat]
      by_cases hq : q = p <;> cases j.lookup q <;> simp [hq]
  · change s'.mainPage q = s'.base q
    rw [hwr.base, ← h.main (hm.symm.trans hmem) hw.writer (hu.symm.trans hwal) q]
    unfold Pager.mainPage
    rw [hmain]
  · dsimp only
    rw [hsp]
    rcases hlast with ⟨hj, hrec⟩ | ⟨hmf, hj⟩
    · by_cases hmem : σ.pager.isMemory = true
      · rw [hj]
        refine h.stack.imp fun sp m ht => ⟨ht.name, ht.pages, ht.offset_le, le_trans ht.pages_le hwr.numPages_ge,
          ht.began_le, ht.older, fun hpre => ?_⟩
        have := hpre (hm.trans hmem)
        rw [hwriter] at this
        cases this
      · have hnil := (hrec (by simpa using hmem)).1
        have hst := h.stack
        rw [hnil] at hst ⊢
        rw [List.forall₂_nil_left_iff.mp hst]
        exact List.Forall₂.nil
    · rw [hj]
      refine h.stack.imp fun sp m ht => ⟨ht.name, ht.pages, ?_, le_trans ht.pages_le hwr.numPages_ge, ht.began_le,
        ?_, fun _ q hq => ?_⟩
      · rw [List.length_append]
        exact le_trans ht.offset_le (Nat.le_add_right _ _)
      · rw [List.take_append_of_le_length ht.offset_le]
        exact ht.older
      · have hv := ht.view (fun hn => by rw [hmf] at hn; cases hn) q hq
        rw [List.drop_append_of_le_length ht.offset_le, lookup_concat, hwr.view, ← hv]
        by_cases hqp : q = p <;> cases (j.drop sp.journalOffset).lookup q <;> simp [hqp]
  · dsimp only
    rw [hsp]
    exact h.ordered

/-- What `ROLLBACK TO` does to a transaction in which it undoes only later writes. -/
structure Rewound (σ : Session B) (s' : Pager B) (j : List (JournalEntry B)) (sp : Savepoint) (n : Nat) : Prop where
  main : s'.disk.main = σ.pager.disk.main
  slot : ∀ q < n, s'.pages.slot q = σ.pager.pages.slot q
  cleared : ∀ q, n ≤ q → s'.pages.slot q = none ∧ s'.shadowPages.slot q = none
  shadow : ∀ q < n, s'.shadowPages.slot q =
    (σ.pager.shadowPages.slot q).map fun y => ((j.drop sp.journalOffset).lookup q).getD y
  covers : Covers s'
  base : ∀ q < n, s'.base q = σ.pager.base q
  view : ∀ q < n, s'.view q = ((j.drop sp.journalOffset).lookup q).getD (σ.pager.view q)
  image : ∀ q x, (j.drop sp.journalOffset).lookup q = some x → x = σ.pager.base q ∧
    (j.take sp.journalOffset).lookup q = none

omit [PageBody B] in
theorem mem_of_lookup {q : Nat} {x : Page B} (h : j.lookup q = some x) : (q, x) ∈ j := by
  obtain ⟨l₁, l₂, hl, -⟩ := List.lookup_eq_some_iff.mp h
  rw [hl]
  exact List.mem_append_right _ (List.mem_cons_self ..)

section Rewound

variable {sp : Savepoint} {rest : List Savepoint} {m : Mark B} {q : Nat} {x : Page B}

theorem InTx.replayed_reverse (h : InTx σ j) (k : Nat) : (σ.pager.replayed k).reverse = j.drop k := by
  rw [replayed, List.reverse_reverse, h.records]

theorem InTx.mem_replayed (h : InTx σ j) {k : Nat} {e : JournalEntry B} : e ∈ σ.pager.replayed k ↔ e ∈ j.drop k := by
  rw [← h.replayed_reverse, List.mem_reverse]

/-- Only the writer of a database file has records to replay. -/
theorem InTx.undone_writing (h : InTx σ j) (hok : UndoesOnly σ.pager sp)
    (hx : (j.drop sp.journalOffset).lookup q = some x) : Writing σ.pager j ∧ σ.pager.isMemory = false := by
  rcases h.phase with ⟨-, rfl⟩ | hw
  · rw [List.drop_nil] at hx
    cases hx
  · refine ⟨hw, ?_⟩
    by_contra hm
    have := hok.journaled (by simpa using hm)
    rw [hw.writer] at this
    cases this

/-- What is replayed is what the page was read from, and no older record has the page. -/
theorem InTx.undone_image (h : InTx σ j) (hok : UndoesOnly σ.pager sp)
    (hx : (j.drop sp.journalOffset).lookup q = some x) :
    x = σ.pager.base q ∧ (j.take sp.journalOffset).lookup q = none := by
  have hno : (j.take sp.journalOffset).lookup q = none := by
    rw [List.lookup_eq_none_iff]
    intro e he
    have := hok.firstWrite (q, x) (h.mem_replayed.mpr (mem_of_lookup hx)) e (by rw [h.records]; exact he)
    simpa using fun heq : q = e.1 => this heq.symm
  have hj := h.image (h.undone_writing hok hx).2 q
  rw [← List.take_append_drop sp.journalOffset j, List.lookup_append, hno, hx] at hj
  exact ⟨hj, hno⟩

/-- The main file has it already. -/
theorem InTx.undone_main (h : InTx σ j) (hok : UndoesOnly σ.pager sp)
    (hx : (j.drop sp.journalOffset).lookup q = some x) : σ.pager.mainPage q = x := by
  obtain ⟨hw, hm⟩ := h.undone_writing hok hx
  rw [(h.undone_image hok hx).1]
  by_cases hu : σ.pager.useWal = true
  · exact hok.current hu (q, x) (h.mem_replayed.mpr (mem_of_lookup hx))
  · exact h.main hm hw.writer (by simpa using hu) q

theorem InTx.read_replayed (h : InTx σ j) (hok : UndoesOnly σ.pager sp) (q : Nat) :
    BlockFile.read Page.zero (recoverMain σ.pager.disk.main (σ.pager.replayed sp.journalOffset)) q =
      σ.pager.mainPage q := by
  rw [recoverMain, BlockFile.read_writeAll, h.replayed_reverse]
  cases hx : (j.drop sp.journalOffset).lookup q with
  | none => rfl
  | some x => exact (h.undone_main hok hx).symm

/-- Where nothing is cut off, the page count is the one of the savepoint. -/
theorem Tracks.cuts (ht : Tracks σ.pager σ.began j sp m) (hok : UndoesOnly σ.pager sp) :
    σ.pager.CutsTo sp.numPagesAtSavepoint ∨
      ¬ σ.pager.CutsTo sp.numPagesAtSavepoint ∧ m.numPages = σ.pager.numPages := by
  have hpages := ht.pages
  have hle := ht.pages_le
  have hcount := hok.count
  by_cases hc : σ.pager.CutsTo sp.numPagesAtSavepoint
  · exact Or.inl hc
  · refine Or.inr ⟨hc, ?_⟩
    unfold CutsTo at hc
    rw [hpages] at hc hcount
    by_cases h0 : m.numPages = 0
    · rw [h0, hcount h0]
    · omega

theorem Tracks.not_cut (ht : Tracks σ.pager σ.began j sp m) (hq : q < m.numPages) :
    ¬ (σ.pager.CutsTo sp.numPagesAtSavepoint ∧ sp.numPagesAtSavepoint ≤ q ∧ q < σ.pager.numPages) := by
  have hpages := ht.pages
  intro hn
  omega

theorem InTx.rewound_main (h : InTx σ j) (hfit : Fits σ.pager) (hr : RolledTo σ.pager s' sp rest)
    (hok : UndoesOnly σ.pager sp) (ht : Tracks σ.pager σ.began j sp m) : s'.disk.main = σ.pager.disk.main := by
  by_cases hm : σ.pager.isMemory = true
  · have hnil : σ.pager.replayed sp.journalOffset = [] := by
      rw [List.eq_nil_iff_forall_not_mem]
      intro e he
      have hsome : ((j.drop sp.journalOffset).lookup e.1).isSome = true := by
        rw [List.lookup_isSome_iff]
        exact ⟨e, h.mem_replayed.mp he, by simp⟩
      obtain ⟨x, hx⟩ := Option.isSome_iff_exists.mp hsome
      rw [(h.undone_writing hok hx).2] at hm
      cases hm
    rw [hr.main, if_neg fun hn => by simp [hm] at hn, hnil]
    rfl
  · have hm : σ.pager.isMemory = false := by simpa using hm
    rcases ht.cuts hok with hc | ⟨hc, -⟩
    · have hlen := hok.length hm hc
      have hmod : sp.numPagesAtSavepoint % fileLengthWrap = sp.numPagesAtSavepoint := by
        rw [Nat.mod_eq_of_lt]
        have := (hfit hm).1
        omega
      rw [hr.main, if_pos ⟨hc, hm⟩, hmod]
      refine BlockFile.ext_read Page.zero (by rw [BlockFile.length_truncate, hlen]) fun i hi => ?_
      rw [BlockFile.length_truncate] at hi
      rw [BlockFile.read_truncate, if_pos hi, h.read_replayed hok]
      rfl
    · rw [hr.main, if_neg fun hn => hc hn.1]
      refine BlockFile.ext_read Page.zero (le_antisymm ?_ (BlockFile.length_writeAll_ge _ _ _))
        fun i _ => h.read_replayed hok i
      have := BlockFile.length_writeAll_le Page.zero σ.pager.disk.main (σ.pager.replayed sp.journalOffset)
        σ.pager.disk.main.length (hok.inside hc)
      rwa [max_self] at this

theorem InTx.rewound_slot (h : InTx σ j) (hr : RolledTo σ.pager s' sp rest) (hok : UndoesOnly σ.pager sp)
    (ht : Tracks σ.pager σ.began j sp m) (hq : q < m.numPages) : s'.pages.slot q = σ.pager.pages.slot q := by
  rw [hr.slot, if_neg (ht.not_cut hq), Slots.slot_overwriteAll, h.replayed_reverse]
  cases hx : σ.pager.pages.slot q with
  | none => rfl
  | some y =>
    cases hl : (j.drop sp.journalOffset).lookup q with
    | none => rfl
    | some x =>
      rw [(h.undone_image hok hl).1, Pager.base, hx]
      rfl

theorem InTx.rewound_cleared (h : InTx σ j) (hr : RolledTo σ.pager s' sp rest) (hok : UndoesOnly σ.pager sp)
    (ht : Tracks σ.pager σ.began j sp m) (hq : m.numPages ≤ q) :
    s'.pages.slot q = none ∧ s'.shadowPages.slot q = none := by
  have hpages := ht.pages
  by_cases hn : σ.pager.CutsTo sp.numPagesAtSavepoint ∧ sp.numPagesAtSavepoint ≤ q ∧ q < σ.pager.numPages
  · rw [hr.slot, hr.shadow, if_pos hn, if_pos hn]
    exact ⟨rfl, rfl⟩
  · -- nothing is cached above the page count
    have hge : σ.pager.numPages ≤ q := by
      rcases ht.cuts hok with hc | ⟨-, hc⟩
      · by_contra hlt
        exact hn ⟨hc, by omega, by omega⟩
      · omega
    have hpn : σ.pager.pages.slot q = none := by
      by_contra hne
      obtain ⟨x, hx⟩ := Option.ne_none_iff_exists'.mp hne
      have := h.cached q x hx
      omega
    have hsn : σ.pager.shadowPages.slot q = none := by
      by_contra hne
      have := h.backed q (Option.isSome_iff_ne_none.mpr hne)
      rw [hpn] at this
      cases this
    rw [hr.slot, hr.shadow, if_neg hn, if_neg hn, Slots.slot_overwriteAll, Slots.slot_overwriteAll, hpn, hsn]
    exact ⟨rfl, rfl⟩

theorem InTx.rewound_covers (h : InTx σ j) (hfit : Fits σ.pager) (hr : RolledTo σ.pager s' sp rest)
    (hok : UndoesOnly σ.pager sp) (hmain : s'.disk.main = σ.pager.disk.main) : Covers s' := by
  unfold Covers
  rw [hmain, hr.filePages]
  split
  · next hc =>
    by_cases hm : σ.pager.isMemory = true
    · rw [h.memory hm]
      exact Nat.zero_le _
    · have hm : σ.pager.isMemory = false := by simpa using hm
      have hlen := hok.length hm hc
      have := (hfit hm).1
      rw [Nat.mod_eq_of_lt (by omega), hlen]
  · exact h.covers

theorem InTx.rewound (h : InTx σ j) (hfit : Fits σ.pager) (hr : RolledTo σ.pager s' sp rest)
    (hok : UndoesOnly σ.pager sp) (ht : Tracks σ.pager σ.began j sp m) : Rewound σ s' j sp m.numPages := by
  have hmain := h.rewound_main hfit hr hok ht
  have hcov := h.rewound_covers hfit hr hok hmain
  have hshadow : ∀ q < m.numPages, s'.shadowPages.slot q =
      (σ.pager.shadowPages.slot q).map fun y => ((j.drop sp.journalOffset).lookup q).getD y := by
    intro q hq
    rw [hr.shadow, if_neg (ht.not_cut hq), Slots.slot_overwriteAll, h.replayed_reverse]
  have hfields : s'.useWal = σ.pager.useWal ∧ s'.walOpen = σ.pager.walOpen ∧ s'.disk.wal = σ.pager.disk.wal ∧
      s'.isWriter = σ.pager.isWriter ∧ s'.inTransaction = σ.pager.inTransaction := by
    obtain ⟨_, _, _, _, _, _, _, rfl⟩ := hr.same
    exact ⟨rfl, rfl, rfl, rfl, rfl⟩
  obtain ⟨hu, ho, hwal, hwr, htx⟩ := hfields
  have hbase : ∀ q < m.numPages, s'.base q = σ.pager.base q := by
    intro q hq
    have hmp : s'.mainPage q = σ.pager.mainPage q := by
      unfold Pager.mainPage
      rw [hmain]
    unfold Pager.base
    rw [h.rewound_slot hr hok ht hq, hcov.readPage, h.covers.readPage, hmp, hu, ho]
    unfold lastFrame
    rw [hwal]
  refine ⟨hmain, fun q hq => h.rewound_slot hr hok ht hq, fun q hq => h.rewound_cleared hr hok ht hq, hshadow, hcov, hbase,
    fun q hq => ?_, fun q x hx => h.undone_image hok hx⟩
  have hin := h.inTransaction
  rw [view_eq (htx.trans hin), view_eq hin, hwr, hshadow q hq, hbase q hq]
  by_cases hw : σ.pager.isWriter = true
  · rw [if_pos hw, if_pos hw]
    cases hl : (j.drop sp.journalOffset).lookup q with
    | none => simp
    | some x =>
      have hsh := h.records_shadow (q, x) (List.mem_of_mem_drop (mem_of_lookup hl))
      obtain ⟨y, hy⟩ := Option.isSome_iff_exists.mp hsh
      rw [show σ.pager.shadowPages.slot q = some y from hy]
      rfl
  · rw [if_neg hw, if_neg hw]
    cases hl : (j.drop sp.journalOffset).lookup q with
    | none => rfl
    | some x => exact absurd (h.undone_writing hok hl).1.writer hw

end Rewound

theorem forall₂_imp_mem {α β : Type} {R S : α → β → Prop} {l : List α} {m : List β} (h : List.Forall₂ R l m)
    (hi : ∀ a ∈ l, ∀ b, R a b → S a b) : List.Forall₂ S l m := by
  induction h with
  | nil => exact List.Forall₂.nil
  | cons hab _ ih =>
    exact List.Forall₂.cons (hi _ (List.mem_cons_self ..) _ hab) (ih fun a ha => hi a (List.mem_cons_of_mem _ ha))

/-- A reader stays one, and the writer has the front of its journal. -/
theorem RolledTo.stage {sp : Savepoint} {rest : List Savepoint} (hr : RolledTo s s' sp rest) (h : Stage s j) :
    Stage s' (j.take sp.journalOffset) := by
  have hjournal := hr.journal
  have hshadow := hr.shadow
  obtain ⟨_, _, _, _, _, _, _, heq⟩ := hr.same
  rcases h with ⟨hrd, rfl⟩ | hwt
  · left
    have hnoFile : s'.disk.journal = none := by
      rw [hjournal, hrd.noFile]
      rfl
    have hnoShadow : ∀ p, s'.shadowPages.slot p = none := fun p => by
      rw [hshadow, Slots.slot_overwriteAll, hrd.noShadow]
      exact ite_self _
    subst heq
    exact ⟨⟨hrd.toSole.congr rfl rfl, hrd.inTx, hrd.notWriter, hrd.noJournal, hnoFile, hnoShadow, hrd.unmarked, hrd.lock⟩,
      List.take_nil⟩
  · right
    have hfile : s.isMemory = false → s'.disk.journal = some (j.take sp.journalOffset) := fun hm => by
      rw [hjournal, (hwt.holds hm).journal]
      rfl
    have hnone : s.isMemory = true → s'.disk.journal = none ∧ j.take sp.journalOffset = [] := fun hm => by
      obtain ⟨hno, rfl⟩ := hwt.inMemory hm
      rw [hjournal, hno]
      exact ⟨rfl, List.take_nil⟩
    subst heq
    refine ⟨hwt.toSole.congr rfl rfl, hwt.inTx, hwt.writer, fun hm => ?_, hnone⟩
    have hh := hwt.holds hm
    exact ⟨hh.self, hh.lock, hfile hm, hh.pos⟩

/-- A savepoint that is not newer keeps its mark. -/
theorem Rewound.tracks {sp sp' : Savepoint} {rest : List Savepoint} {m m' : Mark B}
    (hw : Rewound σ s' j sp m.numPages) (hr : RolledTo σ.pager s' sp rest) (ht : Tracks σ.pager σ.began j sp m)
    (ht' : Tracks σ.pager σ.began j sp' m') (hoff : sp'.journalOffset ≤ sp.journalOffset)
    (hpg : sp'.numPagesAtSavepoint ≤ sp.numPagesAtSavepoint) :
    Tracks s' σ.began (j.take sp.journalOffset) sp' m' := by
  rw [ht'.pages, ht.pages] at hpg
  have hsame : s'.isMemory = σ.pager.isMemory ∧ s'.isWriter = σ.pager.isWriter := by
    obtain ⟨_, _, _, _, _, _, _, rfl⟩ := hr.same
    exact ⟨rfl, rfl⟩
  refine ⟨ht'.name, ht'.pages, ?_, ?_, ht'.began_le, ?_, fun hpre q hq => ?_⟩
  · rw [List.length_take]
    have := ht'.offset_le
    omega
  · rw [hr.numPages, ht.pages]
    exact hpg
  · rw [List.take_take, min_eq_left hoff]
    exact ht'.older
  · have hv := ht'.view (fun hn => hsame.2.symm.trans (hpre (hsame.1.trans hn))) q hq
    have hdrop : j.drop sp'.journalOffset =
        (j.take sp.journalOffset).drop sp'.journalOffset ++ j.drop sp.journalOffset := by
      conv_lhs => rw [← List.take_append_drop sp.journalOffset j]
      rw [List.drop_append_of_le_length]
      rw [List.length_take]
      have := ht.offset_le
      omega
    rw [← hv, hdrop, List.lookup_append, hw.view q (by omega)]
    cases ((j.take sp.journalOffset).drop sp'.journalOffset).lookup q <;> rfl

theorem InTx.rollbackTo (h : InTx σ j) {sp : Savepoint} {rest : List Savepoint} {m : Mark B} {ms : List (Mark B)}
    (hr : RolledTo σ.pager s' sp rest) (hw : Rewound σ s' j sp m.numPages)
    (hstack : List.Forall₂ (Tracks σ.pager σ.began j) (sp :: rest) (m :: ms))
    (hord : (sp :: rest).Pairwise fun a b =>
      b.journalOffset ≤ a.journalOffset ∧ b.numPagesAtSavepoint ≤ a.numPagesAtSavepoint) :
    InTx { σ with pager := s', marks := m :: ms } (j.take sp.journalOffset) := by
  have ht : Tracks σ.pager σ.began j sp m := (List.forall₂_cons.mp hstack).1
  have hfields : s'.isMemory = σ.pager.isMemory ∧ s'.useWal = σ.pager.useWal ∧ s'.isWriter = σ.pager.isWriter ∧
      s'.savepoints = sp :: rest ∧ s'.inTransaction = σ.pager.inTransaction := by
    obtain ⟨_, _, _, _, _, _, _, rfl⟩ := hr.same
    exact ⟨rfl, rfl, rfl, rfl, rfl⟩
  obtain ⟨hm, hu, hwr, hsp, htx⟩ := hfields
  have hnum : s'.numPages = m.numPages := hr.numPages.trans ht.pages
  have hview_cleared : ∀ q, m.numPages ≤ q → s'.view q = s'.base q := fun q hq =>
    view_unshadowed fun hs => by
      rw [Shadowed, (hw.cleared q hq).2] at hs
      cases hs.2
  refine ⟨?_, hw.covers, fun hmem => ?_, ?_, fun q x hq => ?_, fun q hq => ?_, fun e he => ?_, fun e he => ?_,
    fun hmem q => ?_, fun hmem hwriter hwal q => ?_, ?_, ?_⟩
  · exact hr.stage h.phase
  · exact hw.main.trans (h.memory (hm.symm.trans hmem))
  · rw [hnum]
    exact ht.began_le
  · dsimp only at hq ⊢
    rw [hnum]
    by_contra hge
    rw [(hw.cleared q (by omega)).1] at hq
    cases hq
  · dsimp only at hq ⊢
    by_cases hlt : q < m.numPages
    · rw [hw.slot q hlt]
      rw [hw.shadow q hlt, Option.isSome_map] at hq
      exact h.backed q hq
    · rw [(hw.cleared q (by omega)).2] at hq
      cases hq
  · rw [hnum]
    exact ht.older e he
  · dsimp only
    rw [hw.shadow e.1 (ht.older e he), Option.isSome_map]
    exact h.records_shadow e (List.mem_of_mem_take he)
  · dsimp only
    by_cases hlt : q < m.numPages
    · rw [hw.base q hlt, hw.view q hlt, ← h.image (hm.symm.trans hmem) q]
      conv_rhs => rw [← List.take_append_drop sp.journalOffset j, List.lookup_append]
      cases hl : (j.drop sp.journalOffset).lookup q with
      | none => cases (j.take sp.journalOffset).lookup q <;> rfl
      | some x =>
        rw [(hw.image q x hl).2]
        rfl
    · have hno : (j.take sp.journalOffset).lookup q = none := by
        rw [List.lookup_eq_none_iff]
        intro e he
        have := ht.older e he
        simpa using fun heq : q = e.1 => hlt (heq ▸ this)
      rw [hno, Option.getD_none, hview_cleared q (by omega)]
  · dsimp only at hwriter hwal ⊢
    have hmp : s'.mainPage q = σ.pager.mainPage q := by
      unfold Pager.mainPage
      rw [hw.main]
    by_cases hlt : q < m.numPages
    · rw [hmp, hw.base q hlt]
      exact h.main (hm.symm.trans hmem) (hwr.symm.trans hwriter) (hu.symm.trans hwal) q
    · rw [Pager.base, (hw.cleared q (by omega)).1, Option.getD_none, hw.covers.readPage, if_neg (by simp [hwal])]
  · dsimp only
    rw [hsp]
    have hle : ∀ sp' ∈ sp :: rest, sp'.journalOffset ≤ sp.journalOffset ∧
        sp'.numPagesAtSavepoint ≤ sp.numPagesAtSavepoint := by
      intro sp' hmem
      rcases List.mem_cons.mp hmem with rfl | hmem
      · exact ⟨le_refl _, le_refl _⟩
      · exact (List.pairwise_cons.mp hord).1 sp' hmem
    refine forall₂_imp_mem hstack fun sp' hmem m' ht' => ?_
    obtain ⟨hoff, hpg⟩ := hle sp' hmem
    exact hw.tracks hr ht ht' hoff hpg
  · dsimp only
    rw [hsp]
    exact hord

omit [PageBody B] in
/-- The savepoints and the marks from the newest one called `name` on correspond. -/
theorem stack_find {R : Savepoint → Mark B → Prop} (hn : ∀ sp m, R sp m → sp.name = m.name) (name : SavepointName)
    {sps : List Savepoint} {ms : List (Mark B)} (h : List.Forall₂ R sps ms) :
    List.Forall₂ R (sps.dropWhile fun sp => sp.name ≠ name) (findMark ms name) := by
  induction h with
  | nil => exact List.Forall₂.nil
  | @cons sp m sps ms hab hrest ih =>
    unfold findMark at ih ⊢
    rw [List.dropWhile_cons, List.dropWhile_cons, hn sp m hab]
    split
    · exact ih
    · exact List.Forall₂.cons hab hrest

/-- Opening and releasing savepoints moves nothing but the stack and the descriptor. -/
theorem InTx.restack (h : InTx σ j) {jp : Option Nat} {sps : List Savepoint} {ms : List (Mark B)}
    (hpos : jp.isSome = σ.pager.journalPos.isSome) (hst : List.Forall₂ (Tracks σ.pager σ.began j) sps ms)
    (ho : sps.Pairwise fun a b =>
      b.journalOffset ≤ a.journalOffset ∧ b.numPagesAtSavepoint ≤ a.numPagesAtSavepoint) :
    InTx { σ with pager := { σ.pager with journalPos := jp, savepoints := sps }, marks := ms } j := by
  refine ⟨?_, h.covers, h.memory, h.began_le, h.cached, h.backed, h.records_lt, h.records_shadow, h.image, h.main,
    hst.imp fun sp m ht => ⟨ht.name, ht.pages, ht.offset_le, ht.pages_le, ht.began_le, ht.older, ht.view⟩, ho⟩
  rcases h.phase with ⟨hr, hj⟩ | hw
  · refine Or.inl ⟨⟨hr.toSole.congr rfl rfl, hr.inTx, hr.notWriter, fun hm => ?_, hr.noFile, hr.noShadow, hr.unmarked,
      hr.lock⟩, hj⟩
    rw [hr.noJournal hm] at hpos
    cases jp with
    | none => rfl
    | some pos => cases hpos
  · refine Or.inr ⟨hw.toSole.congr rfl rfl, hw.inTx, hw.writer, fun hm => ?_, hw.inMemory⟩
    have hh := hw.holds hm
    exact ⟨hh.self, hh.lock, hh.journal, hpos.trans hh.pos⟩

theorem InTx.release (h : InTx σ j) (name : SavepointName) :
    InTx { σ with
      pager := σ.pager.pagerReleaseSavepoint name
      marks := match findMark σ.marks name with
        | [] => σ.marks
        | _ :: ms => ms } j := by
  have hfind := stack_find (fun _ _ ht => ht.name) name h.stack
  unfold pagerReleaseSavepoint findSavepoint
  rw [if_neg (by simp [h.inTransaction])]
  cases hf : σ.pager.savepoints.dropWhile fun sp => sp.name ≠ name with
  | nil =>
    rw [hf, List.forall₂_nil_left_iff] at hfind
    rw [hfind]
    exact h
  | cons sp rest =>
    rw [hf] at hfind
    obtain ⟨m, ms, -, hrest, hm⟩ := List.forall₂_cons_left_iff.mp hfind
    rw [hm]
    have hsub := List.dropWhile_sublist (fun sp : Savepoint => decide (sp.name ≠ name)) (l := σ.pager.savepoints)
    rw [hf] at hsub
    exact h.restack rfl hrest (List.pairwise_cons.mp (h.ordered.sublist hsub)).2

omit [PageBody B] in
theorem tracks_of_mem {R : Savepoint → Mark B → Prop} {sps : List Savepoint} {ms : List (Mark B)}
    (h : List.Forall₂ R sps ms) {sp : Savepoint} (hs : sp ∈ sps) : ∃ m, R sp m := by
  induction h with
  | nil => exact absurd hs List.not_mem_nil
  | cons hab _ ih =>
    rcases List.mem_cons.mp hs with rfl | hs
    · exact ⟨_, hab⟩
    · exact ih hs

theorem InTx.savepoint (h : InTx σ j) (name : SavepointName) :
    InTx { σ with
      pager := σ.pager.pagerSavepoint name
      marks := if 16 ≤ σ.marks.length then σ.marks else ⟨name, σ.pager.view, σ.pager.numPages⟩ :: σ.marks } j := by
  have hlen : σ.pager.savepoints.length = σ.marks.length := h.stack.length_eq
  unfold pagerSavepoint
  rw [if_pos h.inTransaction]
  simp only [hlen]
  by_cases hfull : 16 ≤ σ.marks.length
  · rw [if_pos hfull, if_pos hfull]
    exact h
  · rw [if_neg hfull, if_neg hfull]
    have hnew : ∀ off ≤ j.length, j.length ≤ off → List.Forall₂ (Tracks σ.pager σ.began j)
        (⟨name, off, σ.pager.numPages⟩ :: σ.pager.savepoints) (⟨name, σ.pager.view, σ.pager.numPages⟩ :: σ.marks) := by
      intro off hle hge
      refine List.Forall₂.cons ⟨rfl, rfl, hle, le_refl _, h.began_le, fun e he => ?_, fun _ p _ => ?_⟩ h.stack
      · exact h.records_lt e (List.mem_of_mem_take he)
      · rw [List.drop_eq_nil_of_le hge]
        rfl
    have hord : ∀ off, j.length ≤ off → (⟨name, off, σ.pager.numPages⟩ :: σ.pager.savepoints).Pairwise fun a b =>
        b.journalOffset ≤ a.journalOffset ∧ b.numPagesAtSavepoint ≤ a.numPagesAtSavepoint := by
      intro off hge
      refine List.pairwise_cons.mpr ⟨fun sp hs => ?_, h.ordered⟩
      obtain ⟨m, ht⟩ := tracks_of_mem h.stack hs
      have hpg := ht.pages
      have hle := ht.pages_le
      have hoff := ht.offset_le
      exact ⟨by dsimp only; omega, by dsimp only; omega⟩
    cases hp : σ.pager.journalPos with
    | none =>
      have hj0 : j.length = 0 := by
        rcases h.phase with ⟨-, rfl⟩ | hw
        · rfl
        · by_cases hm : σ.pager.isMemory = true
          · rw [(hw.inMemory hm).2]
            rfl
          · have := (hw.holds (by simpa using hm)).pos
            rw [hp] at this
            cases this
      exact h.restack (by rw [hp]) (hnew 0 (by omega) (by omega)) (hord 0 (by omega))
    | some pos =>
      rw [h.length]
      exact h.restack (by rw [hp]; rfl) (hnew _ (le_refl _) (le_refl _)) (hord _ (le_refl _))

/-! ## The ends of a transaction -/

theorem begin_inTx (h : Idle s) (hsp : s.savepoints = []) (hfit : Fits s)
    (hb : s.pagerBeginTransaction = (true, s')) : InTx ⟨s', [], s'.numPages⟩ [] := by
  have hbeg := begin_begun h.notInTx hb
  have hfit' : Fits s' := by
    intro hm
    have hd : s'.disk = s.disk ∧ s'.isMemory = s.isMemory := by
      obtain ⟨_, _, _, _, _, _, _, rfl⟩ := hbeg.same
      exact ⟨rfl, rfl⟩
    have hf := hfit (hd.2.symm.trans hm)
    rw [hd.1]
    refine ⟨hf.1, ?_⟩
    rcases hbeg.cache with ⟨-, hn⟩ | ⟨-, hn⟩
    · rw [hn]
      exact hf.2
    · rw [hn]
      exact Nat.mod_lt _ (by decide)
  have hr := begin_readPhase h hb hfit'
  have hsp' : s'.savepoints = [] := by
    obtain ⟨_, _, _, _, _, _, _, rfl⟩ := hbeg.same
    exact hsp
  refine ⟨Or.inl ⟨hr.reading, rfl⟩, hr.covers, hr.memory, le_refl _, hr.cached, fun p hp => ?_, fun e he => ?_,
    fun e he => ?_, fun _ p => ?_, fun _ hw => ?_, ?_, ?_⟩
  · rw [hr.reading.noShadow] at hp
    cases hp
  · exact absurd he List.not_mem_nil
  · exact absurd he List.not_mem_nil
  · exact hr.reading.view p
  · have := hr.reading.notWriter
    dsimp only at hw
    rw [this] at hw
    cases hw
  · dsimp only
    rw [hsp']
    exact List.Forall₂.nil
  · dsimp only
    rw [hsp']
    exact List.Pairwise.nil

omit [PageBody B] in
theorem releaseWriter_sole (h : Sole s) (e : Bool) :
    (if s.writerSlot = .self then WriterSlot.free else s.writerSlot) ≠ .other e := by
  split
  · exact fun hn => by cases hn
  · exact h.slot e

/-- A commit ends in a pager between transactions; the savepoints stay. -/
theorem Stage.commit (h : Stage s j) (hcached : ∀ q x, s.pages.slot q = some x → q < s.numPages)
    (hbacked : ∀ p, (s.shadowPages.slot p).isSome = true → (s.pages.slot p).isSome = true)
    (hmemory : s.isMemory = true → s.disk.main = []) (hc : s.pagerCommit = some s') :
    Idle s' ∧ s'.savepoints = s.savepoints := by
  obtain ⟨hsole, htx⟩ := h.sole
  by_cases hw : s.hasWrites = true
  · obtain ⟨t, hst, hp⟩ := commit_committed hsole htx hw hc
    have hslot := hp.slot
    have hws := hp.writerSlot
    obtain ⟨t', hf, hmain, -⟩ := hp.flush
    have hfields : t.others = s.others ∧ t.writerSlot = s.writerSlot ∧ t.isMemory = s.isMemory ∧
        t.disk.main = s.disk.main ∧ t.savepoints = s.savepoints := by
      obtain ⟨_, _, _, _, _, rfl⟩ := hst.same
      exact ⟨rfl, rfl, rfl, rfl, rfl⟩
    obtain ⟨ho, hwr, hmem, hmn, hsp⟩ := hfields
    have hflushed : ∀ q x, t.flushBuf q = some x → q < t.numPages := by
      intro q x hq
      have hge : s.numPages ≤ t.numPages ∧ 0 < t.numPages := by
        rw [hst.numPages]
        split
        · next h0 =>
          obtain ⟨y, hy⟩ := Option.isSome_iff_exists.mp h0
          exact ⟨le_refl _, hcached 0 y hy⟩
        · omega
      by_cases h0 : q = 0
      · omega
      · have hpq : (s.pages.slot q).isSome = true := by
          have hts := hst.shadow q
          have htp := hst.slot q
          rw [if_neg fun hn => h0 hn.1] at hts
          rw [if_neg h0] at htp
          unfold flushBuf at hq
          rw [hts, htp] at hq
          cases hs : s.shadowPages.slot q with
          | some y => exact hbacked q (by rw [hs]; rfl)
          | none =>
            rw [hs] at hq
            change s.pages.slot q = some x at hq
            rw [hq]
            rfl
        obtain ⟨y, hy⟩ := Option.isSome_iff_exists.mp hpq
        exact lt_of_lt_of_le (hcached q y hy) hge.1
    have hs := hsole
    refine ⟨⟨⟨?_, ?_, ?_, ?_⟩, ?_, fun _ => ?_, ?_, fun p => ?_, ?_, fun _ => ?_, fun q x hq => ?_, fun hm => ?_⟩, ?_⟩
    · obtain ⟨_, _, _, _, _, _, _, rfl⟩ := hp.same
      exact (congrArg ByteLocks.sharedWrite ho).trans hs.sharedWrite
    · obtain ⟨_, _, _, _, _, _, _, rfl⟩ := hp.same
      exact (congrArg ByteLocks.reserved ho).trans hs.reserved
    · obtain ⟨_, _, _, _, _, _, _, rfl⟩ := hp.same
      exact (congrArg ByteLocks.pending ho).trans hs.pending
    · rw [hws, hwr]
      exact releaseWriter_sole hs
    · obtain ⟨_, _, _, _, _, _, _, rfl⟩ := hp.same
      rfl
    · obtain ⟨_, _, _, _, _, _, _, rfl⟩ := hp.same
      rfl
    · obtain ⟨_, _, _, _, _, _, _, rfl⟩ := hp.same
      rfl
    · obtain ⟨_, _, _, _, _, _, _, rfl⟩ := hp.same
      rfl
    · obtain ⟨_, _, _, _, _, _, _, rfl⟩ := hp.same
      rfl
    · obtain ⟨_, _, _, _, _, _, _, rfl⟩ := hp.same
      exact Nat.zero_lt_two
    · rw [hslot] at hq
      obtain ⟨_, _, _, _, _, _, _, rfl⟩ := hp.same
      exact hflushed q x hq
    · have hm' : s.isMemory = true := by
        obtain ⟨_, _, _, _, _, _, _, rfl⟩ := hp.same
        exact hmem.symm.trans hm
      rw [hmain, hf.main, if_neg fun hn => by simp [hmem, hm'] at hn, hmn]
      exact hmemory hm'
    · obtain ⟨_, _, _, _, _, _, _, rfl⟩ := hp.same
      exact hsp
  · have hw : s.hasWrites = false := by simpa using hw
    rw [commit_readOnly htx hw] at hc
    obtain rfl := Option.some.inj hc
    have hns : ∀ p, s.shadowPages.slot p = none := by
      unfold hasWrites at hw
      rw [Bool.or_eq_false_iff] at hw
      intro p
      by_contra hne
      obtain ⟨x, hx⟩ := Option.ne_none_iff_exists'.mp hne
      rw [(s.shadowPages.any_iff).mpr ⟨p, x, hx⟩] at hw
      cases hw.1
    have hs := hsole
    by_cases hp : s.journalPos.isSome = true
    · rw [if_pos hp]
      exact ⟨⟨⟨hs.sharedWrite, hs.reserved, hs.pending, releaseWriter_sole (s := s.dropJournal) (hs.congr rfl rfl)⟩,
        rfl, fun _ => rfl, rfl, hns, rfl, fun _ => Nat.zero_lt_two, hcached, hmemory⟩, rfl⟩
    · rw [if_neg hp]
      have hnone : s.journalPos = none := by simpa using hp
      have hno : s.disk.journal = none := by
        rcases h with ⟨hr, -⟩ | hwt
        · exact hr.noFile
        · by_cases hm : s.isMemory = true
          · exact (hwt.inMemory hm).1
          · exact absurd (hwt.holds (by simpa using hm)).pos hp
      exact ⟨⟨⟨hs.sharedWrite, hs.reserved, hs.pending, releaseWriter_sole hs⟩, rfl, fun _ => hnone, hno, hns, rfl,
        fun _ => Nat.zero_lt_two, hcached, hmemory⟩, rfl⟩

/-- A rollback ends in a pager between transactions. -/
theorem Stage.rollback (h : Stage s j) (hcached : ∀ q x, s.pages.slot q = some x → q < s.numPages)
    (hmemory : s.isMemory = true → s.disk.main = []) (hr : RolledBack s s') : Idle s' ∧ s'.savepoints = [] := by
  have hslot := hr.slot
  have hnum := hr.numPages
  have hmain := hr.main
  have hws := hr.writerSlot
  have hs := h.sole.1
  have hrec := h.records
  have hmem : s'.isMemory = s.isMemory := by
    obtain ⟨_, _, _, _, _, _, _, rfl⟩ := hr.same
    rfl
  refine ⟨⟨⟨?_, ?_, ?_, ?_⟩, ?_, fun _ => ?_, ?_, fun p => ?_, ?_, fun _ => ?_, fun q x hq => ?_, fun hm => ?_⟩, ?_⟩
  · obtain ⟨_, _, _, _, _, _, _, rfl⟩ := hr.same
    exact hs.sharedWrite
  · obtain ⟨_, _, _, _, _, _, _, rfl⟩ := hr.same
    exact hs.reserved
  · obtain ⟨_, _, _, _, _, _, _, rfl⟩ := hr.same
    exact hs.pending
  · rw [hws]
    exact releaseWriter_sole hs
  · obtain ⟨_, _, _, _, _, _, _, rfl⟩ := hr.same
    rfl
  · obtain ⟨_, _, _, _, _, _, _, rfl⟩ := hr.same
    rfl
  · obtain ⟨_, _, _, _, _, _, _, rfl⟩ := hr.same
    rfl
  · obtain ⟨_, _, _, _, _, _, _, rfl⟩ := hr.same
    rfl
  · obtain ⟨_, _, _, _, _, _, _, rfl⟩ := hr.same
    rfl
  · obtain ⟨_, _, _, _, _, _, _, rfl⟩ := hr.same
    exact Nat.zero_lt_two
  · rw [hslot] at hq
    split at hq
    · cases hq
    · next hn =>
      have hsome : (s.pages.slot q).isSome = true := by
        rw [← Slots.isSome_overwriteAll, hq]
        rfl
      obtain ⟨y, hy⟩ := Option.isSome_iff_exists.mp hsome
      have hlt := hcached q y hy
      rw [hnum]
      split
      · next hg =>
        by_contra hge
        exact hn ⟨hg, by omega, hlt⟩
      · exact hlt
  · have hm' := hmem.symm.trans hm
    have hj : j = [] := by
      rcases h with ⟨-, hj⟩ | hw
      · exact hj
      · exact (hw.inMemory hm').2
    rw [hmain, if_neg fun hn => by simp [hm'] at hn, hrec, hj]
    exact hmemory hm'
  · obtain ⟨_, _, _, _, _, _, _, rfl⟩ := hr.same
    rfl

theorem InTx.commit (h : InTx σ j) (hc : σ.pager.pagerCommit = some s') :
    Idle s' ∧ s'.savepoints = σ.pager.savepoints :=
  Stage.commit h.phase h.cached h.backed h.memory hc

theorem InTx.rollback (h : InTx σ j) (hc : σ.pager.pagerRollback = some s') : Idle s' ∧ s'.savepoints = [] :=
  Stage.rollback h.phase h.cached h.memory (rollback_rolledBack h.inTransaction hc)

/-! ## Every run -/

theorem StackInv.idle (h : StackInv σ) (ht : σ.pager.inTransaction = false) :
    Idle σ.pager ∧ σ.pager.savepoints = [] ∧ σ.marks = [] := by
  rcases h with h | ⟨j, h⟩
  · exact h
  · rw [h.inTransaction] at ht
    cases ht

theorem StackInv.inTx (h : StackInv σ) (ht : σ.pager.inTransaction = true) : ∃ j, InTx σ j := by
  rcases h with h | h
  · rw [h.1.notInTx] at ht
    cases ht
  · exact h

theorem journalPage_idle (h : Idle s) (p : Nat) : s.pagerJournalPage p = s := by
  have hs : s.pagerShadowPageWrite p = s := if_pos h.notInTx
  unfold pagerJournalPage
  rw [hs]
  exact if_pos h.notInTx

/-- SAVEPOINT outside a transaction begins one. -/
theorem savepoint_begin (ht : s.inTransaction = false) (hb : s.pagerBeginTransaction.2.inTransaction = true)
    (name : SavepointName) : s.pagerSavepoint name = s.pagerBeginTransaction.2.pagerSavepoint name := by
  unfold pagerSavepoint
  simp only [ht, hb, Bool.false_eq_true, if_true, if_false]

theorem Idle.started (h : Idle σ.pager) (hsp : σ.pager.savepoints = []) (hfit : Fits σ.pager) :
    InTx σ.started [] ∧ σ.started.pager = σ.pager.pagerBeginTransaction.2 := by
  have hb : σ.pager.pagerBeginTransaction = (true, σ.pager.pagerBeginTransaction.2) :=
    Prod.ext (begin_sole h.toSole) rfl
  have hst : σ.started = ⟨σ.pager.pagerBeginTransaction.2, [], σ.pager.pagerBeginTransaction.2.numPages⟩ := by
    unfold Session.started
    rw [if_neg (by simp [h.notInTx])]
    exact if_pos (begin_sole h.toSole)
  rw [hst]
  exact ⟨begin_inTx h hsp hfit hb, rfl⟩

theorem InTx.write_any (h : InTx σ j) (p : Nat) (f : Page B → Page B) (hok : StackSafe σ (.write p f)) :
    ∃ j', InTx { σ with pager := (σ.pager.pagerJournalPage p).modify p f } j' := by
  rcases h.phase with ⟨hr, rfl⟩ | hw
  · obtain ⟨s₁, he, hup⟩ := hr.upgrade
    have h₁ := h.upgrade hr hok.1 hup
    have hpos := hup.pos
    have hmark : s₁.pageIsJournaled = ∅ := by
      obtain ⟨_, _, _, _, _, _, _, _, _, _, rfl⟩ := hup.same
      exact hr.unmarked
    have hm : s₁.isMemory = σ.pager.isMemory := by
      obtain ⟨_, _, _, _, _, _, _, _, _, _, rfl⟩ := hup.same
      rfl
    rw [journal_upgrade hr.inTx he hup.writing]
    refine ⟨_, h₁.write hup.writing p f fun hn => ?_⟩
    have hlen := h₁.length
    dsimp only at hn hlen ⊢
    unfold InStep
    rw [if_neg (by simp [hmark]), hpos, if_neg (by simp [← hm, hn]), hlen]
    rfl
  · exact ⟨_, h.write hw p f fun hm => hok.2 hm hw.writer⟩

/-- A safe `ROLLBACK TO` of an open savepoint is a jump back to its mark. -/
theorem InTx.jump (h : InTx σ j) {name : SavepointName} (hok : StackSafe σ (.rollbackTo name)) {m : Mark B}
    {ms : List (Mark B)} (hm : findMark σ.marks name = m :: ms) :
    ∃ sp rest, RolledTo σ.pager (σ.pager.pagerRollbackToSavepoint name) sp rest ∧
      Rewound σ (σ.pager.pagerRollbackToSavepoint name) j sp m.numPages ∧
      InTx { σ with pager := σ.pager.pagerRollbackToSavepoint name, marks := m :: ms } (j.take sp.journalOffset) ∧
      (σ.pager.pagerRollbackToSavepoint name).numPages = m.numPages ∧
      ∀ p < m.numPages, (σ.pager.pagerRollbackToSavepoint name).view p = m.view p := by
  have hfind := stack_find (fun _ _ ht => ht.name) name h.stack
  rw [hm] at hfind
  obtain ⟨sp, rest, ht, hrest, hf⟩ := List.forall₂_cons_right_iff.mp hfind
  have hf' : σ.pager.findSavepoint name = sp :: rest := hf
  have hr := rollbackTo_rolledTo h.inTransaction hf'
  have hundo := hok.2 h.inTransaction sp rest hf'
  have hw := h.rewound hok.1 hr hundo ht
  have hsub := List.dropWhile_sublist (fun sp : Savepoint => decide (sp.name ≠ name)) (l := σ.pager.savepoints)
  rw [hf] at hsub
  refine ⟨sp, rest, hr, hw, h.rollbackTo hr hw (List.Forall₂.cons ht hrest) (h.ordered.sublist hsub),
    hr.numPages.trans ht.pages, fun p hp => ?_⟩
  rw [hw.view p hp]
  exact ht.view hundo.journaled p hp

theorem StackInv.step (h : StackInv σ) {c : Command B} {σ' : Session B} (hok : StackSafe σ c)
    (hs : σ.step c = some σ') : StackInv σ' := by
  by_cases ht : σ.pager.inTransaction = true
  · obtain ⟨j, h⟩ := h.inTx ht
    have hst : σ.started = σ := if_pos ht
    cases c with
    | begin =>
      obtain rfl := Option.some.inj hs
      rw [hst]
      exact Or.inr ⟨j, h⟩
    | write p f =>
      obtain rfl := Option.some.inj hs
      exact Or.inr (h.write_any p f hok)
    | savepoint name =>
      obtain rfl := Option.some.inj hs
      rw [hst]
      exact Or.inr ⟨j, h.savepoint name⟩
    | rollbackTo name =>
      obtain rfl := Option.some.inj hs
      cases hm : findMark σ.marks name with
      | nil =>
        have hfind := stack_find (fun _ _ ht => ht.name) name h.stack
        rw [hm, List.forall₂_nil_right_iff] at hfind
        have hsame : σ.pager.pagerRollbackToSavepoint name = σ.pager := by
          unfold pagerRollbackToSavepoint findSavepoint
          rw [if_neg (by simp [ht]), hfind]
        rw [hsame]
        exact Or.inr ⟨j, h⟩
      | cons m ms =>
        obtain ⟨sp, rest, -, -, h', -⟩ := h.jump hok hm
        exact Or.inr ⟨_, h'⟩
    | release name =>
      obtain rfl := Option.some.inj hs
      exact Or.inr ⟨j, h.release name⟩
    | commit =>
      obtain ⟨s', hc, rfl⟩ := Option.map_eq_some_iff.mp hs
      obtain ⟨hi, hsp⟩ := h.commit hc
      exact Or.inl ⟨hi, hsp.trans (hok.2 ht), rfl⟩
    | rollback =>
      obtain ⟨s', hc, rfl⟩ := Option.map_eq_some_iff.mp hs
      obtain ⟨hi, hsp⟩ := h.rollback hc
      exact Or.inl ⟨hi, hsp, rfl⟩
  · have ht : σ.pager.inTransaction = false := by simpa using ht
    obtain ⟨hi, hsp, hmk⟩ := h.idle ht
    obtain ⟨hstart, hpager⟩ := hi.started hsp hok.1
    cases c with
    | begin =>
      obtain rfl := Option.some.inj hs
      exact Or.inr ⟨[], hstart⟩
    | write p f =>
      obtain rfl := Option.some.inj hs
      rw [journalPage_idle hi]
      obtain ⟨hi', hsp'⟩ := hi.modify p f
      exact Or.inl ⟨hi', hsp'.trans hsp, hmk⟩
    | savepoint name =>
      obtain rfl := Option.some.inj hs
      have hsave : σ.pager.pagerSavepoint name = σ.started.pager.pagerSavepoint name := by
        rw [hpager]
        exact savepoint_begin ht (hpager ▸ hstart.inTransaction) name
      rw [hsave]
      exact Or.inr ⟨[], hstart.savepoint name⟩
    | rollbackTo name =>
      obtain rfl := Option.some.inj hs
      have hsame : σ.pager.pagerRollbackToSavepoint name = σ.pager := if_pos ht
      rw [hsame, hmk]
      exact Or.inl ⟨hi, hsp, rfl⟩
    | release name =>
      obtain rfl := Option.some.inj hs
      have hsame : σ.pager.pagerReleaseSavepoint name = σ.pager := if_pos ht
      rw [hsame, hmk]
      exact Or.inl ⟨hi, hsp, rfl⟩
    | commit =>
      obtain ⟨s', hc, rfl⟩ := Option.map_eq_some_iff.mp hs
      have hsame : σ.pager.pagerCommit = some σ.pager := if_pos ht
      rw [hsame] at hc
      obtain rfl := Option.some.inj hc
      exact Or.inl ⟨hi, hsp, rfl⟩
    | rollback =>
      obtain ⟨s', hc, rfl⟩ := Option.map_eq_some_iff.mp hs
      have hsame : σ.pager.pagerRollback = some σ.pager := if_pos ht
      rw [hsame] at hc
      obtain rfl := Option.some.inj hc
      exact Or.inl ⟨hi, hsp, rfl⟩

/-- What a savepoint is for: only the transaction's own savepoints are open, and going back to one gives
its pages and touches neither the committed pages nor the file. -/
structure SnapshotStack (σ : Session B) : Prop where
  names : σ.pager.savepoints.map Savepoint.name = σ.marks.map Mark.name
  closed : σ.pager.inTransaction = false → σ.pager.savepoints = []
  jump : ∀ name m ms σ', σ.pager.inTransaction = true → findMark σ.marks name = m :: ms →
    StackSafe σ (.rollbackTo name) → σ.step (.rollbackTo name) = some σ' →
    σ'.marks = m :: ms ∧ σ'.pager.numPages = m.numPages ∧
      (∀ p < m.numPages, (σ'.pager.getPage p).deref p = m.view p) ∧
      (∀ p < σ.began, σ'.pager.pages.slot p = σ.pager.pages.slot p) ∧
      σ'.pager.disk.main = σ.pager.disk.main

theorem StackInv.snapshotStack (h : StackInv σ) : SnapshotStack σ := by
  refine ⟨?_, fun ht => (h.idle ht).2.1, fun name m ms σ' ht hm hok hs => ?_⟩
  · rcases h with ⟨-, hsp, hmk⟩ | ⟨j, h⟩
    · rw [hsp, hmk]
      rfl
    · have hst := h.stack
      generalize σ.pager.savepoints = sps at hst
      generalize σ.marks = mks at hst
      induction hst with
      | nil => rfl
      | cons hab _ ih => rw [List.map_cons, List.map_cons, hab.name, ih]
  · obtain ⟨j, h⟩ := h.inTx ht
    obtain ⟨sp, rest, -, hw, h', hnum, hview⟩ := h.jump hok hm
    obtain rfl := Option.some.inj hs
    rw [hm]
    have hbegan : σ.began ≤ m.numPages := le_of_le_of_eq h'.began_le hnum
    refine ⟨rfl, hnum, fun p hp => ?_, fun p hp => hw.slot p (lt_of_lt_of_le hp hbegan), hw.main⟩
    rw [(getPage_loaded h'.sole h'.inTransaction p).deref]
    exact hview p hp

/-- Savepoints are a stack of snapshots, in every state that safe commands reach from an idle pager. -/
theorem savepoints_are_snapshots (hi : Idle s) (hsp : s.savepoints = []) (n : Nat) {cmds : List (Command B)}
    (hok : Run.Meets Session.next (fun o c => ∀ σ ∈ o, StackSafe σ c) (some ⟨s, [], n⟩) cmds)
    (hrun : Run.run Session.next (some ⟨s, [], n⟩) cmds = some σ) : SnapshotStack σ := by
  have hinv := hok.invariant (fun _ o => ∀ σ ∈ o, StackInv σ)
    (fun σ hσ => by
      obtain rfl := Option.some.inj hσ
      exact Or.inl ⟨hi, hsp, rfl⟩)
    (fun pre c post _ h hsafe σ' hσ' => by
      obtain ⟨σ₁, hσ₁, hstep⟩ := Option.bind_eq_some_iff.mp hσ'
      exact (h σ₁ hσ₁).step (hsafe σ₁ hσ₁) hstep)
  exact (hinv σ hrun).snapshotStack

/-- A fresh session on the one-page file. -/
def freshSession : Session Word := ⟨onePage, [], 0⟩

/-- `ROLLBACK TO` puts the transaction's own write into the cache and the file, and COMMIT leaves its
savepoint open for the next transaction. -/
theorem savepoints_leak :
    (∃ σ σ' : Session Word, Run.run Session.next (some freshSession)
        [.begin, .write 0 (putBody 8), .savepoint nameS, .write 0 (putBody 9)] = some σ ∧
      σ.step (.rollbackTo nameS) = some σ' ∧ 0 < σ.began ∧
      σ'.pager.pages.slot 0 ≠ σ.pager.pages.slot 0 ∧ σ'.pager.disk.main ≠ σ.pager.disk.main) ∧
    ∃ σ : Session Word, Run.run Session.next (some freshSession)
        [.begin, .savepoint nameS, .commit, .begin] = some σ ∧
      σ.pager.savepoints.map Savepoint.name ≠ σ.marks.map Mark.name := by
  refine ⟨⟨_, _, rfl, rfl, by decide, by decide, by decide⟩, _, rfl, by decide⟩

/-- A session with one savepoint and one write after it. -/
def savedSession : Session Word :=
  (Run.run Session.next (some freshSession) [.begin, .savepoint nameS, .write 0 (putBody 8)]).getD freshSession

theorem savepoints_are_snapshots_saved : SnapshotStack savedSession := by
  have hidle : Idle freshSession.pager := onePage_idle
  have hrun : Run.run Session.next (some freshSession) [.begin, .savepoint nameS, .write 0 (putBody 8)] =
      some savedSession := rfl
  refine savepoints_are_snapshots hidle rfl 0 ?_ hrun
  rw [Run.meets_cons, Run.meets_cons, Run.meets_cons]
  refine ⟨fun σ h => ?_, fun σ h => ?_, fun σ h => ?_, Run.meets_nil _ _ _⟩ <;> obtain rfl := Option.some.inj h
  · exact ⟨fun _ => by decide, trivial⟩
  · exact ⟨fun _ => by decide, trivial⟩
  · exact ⟨fun _ => by decide, fun _ h => by cases h⟩

end Pager

end CustomDB
