import CustomDB.Pager.Spec
import CustomDB.Lib.Run

/-!
# What a rollback restores

A transaction is `pager_begin_transaction`, a list of page operations, and `pager_rollback`. The
invariant carries the pages as they were at BEGIN: the committed copy of each is still there, and each
journal record of a page holds it.
-/

namespace CustomDB

open Lib

namespace Pager

variable {B : Type} [PageBody B]

/-! ## Transactions as lists of operations -/

/-- The page operations between BEGIN and ROLLBACK. -/
inductive TxOp (B : Type) where
  | journal (p : Nat)
  | write (p : Nat) (f : Page B → Page B)
  | read (p : Nat)
  | alloc
  | savepoint (name : SavepointName)
  | release (name : SavepointName)

def txStep (s : Pager B) : TxOp B → Pager B
  | .journal p => s.pagerJournalPage p
  | .write p f => s.modify p f
  | .read p => s.getPage p
  | .alloc => s.getUnusedPageNum.2
  | .savepoint name => s.pagerSavepoint name
  | .release name => s.pagerReleaseSavepoint name

/-- Every page is passed to `pager_journal_page` before it is written. -/
def JournaledFirst (ops : List (TxOp B)) : Prop :=
  ∀ pre p f post, ops = pre ++ .write p f :: post → TxOp.journal p ∈ pre

/-- A pager between transactions. -/
structure Idle (s : Pager B) : Prop extends Sole s where
  notInTx : s.inTransaction = false
  noJournal : s.isMemory = false → s.journalPos = none
  noFile : s.disk.journal = none
  noShadow : ∀ p, s.shadowPages.slot p = none
  unmarked : s.pageIsJournaled = ∅
  lock : s.isMemory = false → s.lockState.level < PagerLockState.reserved.level
  cached : ∀ p x, s.pages.slot p = some x → p < s.numPages
  /-- Nothing lies beyond the pages `file_length` counts. -/
  memory : s.isMemory = true → s.disk.main = []

/-- Reading a page between transactions. -/
theorem Idle.getPage {s : Pager B} (h : Idle s) (p : Nat) : Idle (s.getPage p) ∧
    (s.getPage p).savepoints = s.savepoints := by
  obtain ⟨e, he⟩ := readLock_eq h.sharedWrite h.pending
  obtain ⟨c, fp, n, l, u, w, hr, hc⟩ := refresh_frame { s with lockState := s.lockedAt .shared, lockError := e }
  have hbound : ∀ q x, c.slot q = some x → q < n := by
    intro q x hq
    rcases hc with ⟨rfl, rfl⟩ | ⟨rfl, -⟩
    · exact h.cached q x hq
    · cases hq
  have hlock : s.isMemory = false → (s.lockedAt .shared).level < PagerLockState.reserved.level := by
    intro hm
    have := h.lock hm
    rw [lockedAt, if_neg (by simp [hm]), PagerLockState.raise]
    split
    · exact this
    · decide
  unfold Pager.getPage
  rw [he]
  simp only [hr]
  split
  · exact ⟨⟨h.toSole.congr rfl rfl, h.notInTx, h.noJournal, h.noFile, h.noShadow, h.unmarked, hlock, hbound, h.memory⟩,
      rfl⟩
  · refine ⟨⟨h.toSole.congr rfl rfl, h.notInTx, h.noJournal, h.noFile, h.noShadow, h.unmarked, hlock, fun q x hq => ?_,
      h.memory⟩, rfl⟩
    simp only [Slots.slot_set] at hq
    by_cases hqp : q = p
    · dsimp only
      omega
    · rw [if_neg hqp] at hq
      have := hbound q x hq
      dsimp only
      omega

/-- A store between transactions goes to the cache. -/
theorem Idle.modify {s : Pager B} (h : Idle s) (p : Nat) (f : Page B → Page B) : Idle (s.modify p f) ∧
    (s.modify p f).savepoints = s.savepoints := by
  obtain ⟨hi, hs⟩ := h.getPage p
  have hst : ∀ x, (s.getPage p).store p x = { s.getPage p with pages := (s.getPage p).pages.overwrite p x } := by
    intro x
    unfold store
    rw [if_neg (by simp [hi.notInTx])]
  unfold Pager.modify
  dsimp only
  rw [hst]
  refine ⟨⟨hi.toSole.congr rfl rfl, hi.notInTx, hi.noJournal, hi.noFile, hi.noShadow, hi.unmarked, hi.lock,
    fun q x hq => ?_, hi.memory⟩, hs⟩
  simp only [Slots.slot_overwrite] at hq
  split at hq
  · obtain ⟨y, hy, -⟩ := Option.map_eq_some_iff.mp hq
    exact hi.cached q y hy
  · exact hi.cached q x hq

/-- Where an operation does not spoil a later rollback. The first capture finds the page count of BEGIN;
under a savepoint only a page that still shows its committed copy is recorded again; the free list is
not popped through pages the transaction has not captured. -/
def RollbackSafe (s : Pager B) : TxOp B → Prop
  | .journal p =>
    (s.isMemory = false → s.isWriter = false → s.numPages = s.numPagesAtTxStart) ∧
      (s.savepoints = [] ∨ s.isMemory = true ∨ (p < s.numPagesAtTxStart → s.view p = s.base p))
  | .alloc => s.Pops → (s.freelistHead < s.numPagesAtTxStart → s.Shadowed s.freelistHead) ∧
      (0 < s.numPagesAtTxStart → s.Shadowed 0)
  | _ => True

/-! ## The invariant -/

/-- What a transaction begun in state `b` never changes. -/
structure Began (b s : Pager B) : Prop where
  isMemory : s.isMemory = b.isMemory
  useWal : s.useWal = b.useWal
  walOpen : s.walOpen = b.walOpen
  wal : s.disk.wal = b.disk.wal
  txStart : s.numPagesAtTxStart = b.numPages
  grows : b.numPages ≤ s.numPages
  base : ∀ p < b.numPages, s.base p = b.base p
  covers : Covers s
  memory : s.isMemory = true → s.disk.main = []

/-- The transaction has not captured a page. -/
structure ReadPhase (b s : Pager B) : Prop extends Began b s where
  reading : Reading s
  main : s.disk.main = b.disk.main
  cached : ∀ q x, s.pages.slot q = some x → q < s.numPages

/-- The transaction has captured pages with the operations `done`; its journal is `j`. -/
structure WritePhase (b s : Pager B) (done : List (TxOp B)) (j : List (JournalEntry B)) : Prop
    extends Began b s where
  writing : Writing s j
  backed : ∀ p, (s.shadowPages.slot p).isSome = true → (s.pages.slot p).isSome = true
  pos : s.isMemory = false → s.journalPos = some j.length
  marked : s.isMemory = false → ∀ p, (s.shadowPages.slot p).isSome = true → p ∈ s.pageIsJournaled
  records : s.isMemory = false → ∀ p ∈ s.pageIsJournaled, ∃ e ∈ j, e.1 = p
  images : ∀ e ∈ j, e.1 < b.numPages → e.2 = b.base e.1
  loaded : ∀ e ∈ j, (s.pages.slot e.1).isSome = true
  captured : ∀ p, TxOp.journal p ∈ done → s.Shadowed p
  main : s.isMemory = false → ∀ p < b.numPages,
    s.mainPage p = b.base p ∨ s.useWal = true ∧ s.mainPage p = b.mainPage p

/-- The invariant of a transaction begun in state `b`. -/
def TxInv (b : Pager B) (done : List (TxOp B)) (s : Pager B) : Prop :=
  ReadPhase b s ∧ (∀ p, TxOp.journal p ∉ done) ∨ ∃ j, WritePhase b s done j

variable {b s s' : Pager B} {done : List (TxOp B)} {j : List (JournalEntry B)}

theorem Began.keeps (h : Began b s) (hk : Keeps b.numPages s s') : Began b s' := by
  have hb := hk.base
  have hn := hk.numPages
  refine ⟨?_, ?_, ?_, ?_, ?_, le_trans h.grows hn, fun p hp => (hb p hp).trans (h.base p hp), ?_, ?_⟩ <;>
    obtain ⟨_, _, _, _, _, _, _, _, rfl⟩ := hk.same
  · exact h.isMemory
  · exact h.useWal
  · exact h.walOpen
  · exact h.wal
  · exact h.txStart
  · exact h.covers
  · exact h.memory

theorem ReadPhase.keeps (h : ReadPhase b s) (hk : Keeps b.numPages s s') : ReadPhase b s' := by
  refine ⟨h.toBegan.keeps hk, h.reading.keeps hk, ?_, hk.bound h.cached⟩
  obtain ⟨_, _, _, _, _, _, _, _, rfl⟩ := hk.same
  exact h.main

theorem WritePhase.keeps (h : WritePhase b s done j) (hk : Keeps b.numPages s s') {a : TxOp B}
    (ha : ∀ p, a ≠ .journal p) : WritePhase b s' (done ++ [a]) j := by
  have hw := h.writing
  have hmem : s'.isMemory = s.isMemory := by
    obtain ⟨_, _, _, _, _, _, _, _, rfl⟩ := hk.same
    rfl
  have hpos : s.isMemory = false → s'.journalPos = s.journalPos := fun hm => by
    rw [hk.pos_end hw hm (h.pos hm), h.pos hm]
  refine ⟨h.toBegan.keeps hk, hw.keeps hk hpos, fun p hp => ?_, fun hm => ?_, fun hm p hp => ?_, fun hm p hp => ?_, h.images,
    fun e he => hk.cached _ (h.loaded e he), fun p hp => ?_, fun hm p hp => ?_⟩
  · rw [hk.shadow] at hp
    exact hk.cached p (h.backed p hp)
  · rw [hpos (hmem.symm.trans hm)]
    exact h.pos (hmem.symm.trans hm)
  · rw [hk.shadow] at hp
    have := h.marked (hmem.symm.trans hm) p hp
    obtain ⟨_, _, _, _, _, _, _, _, rfl⟩ := hk.same
    exact this
  · refine h.records (hmem.symm.trans hm) p ?_
    obtain ⟨_, _, _, _, _, _, _, _, rfl⟩ := hk.same
    exact hp
  · rw [hk.shadowed]
    refine h.captured p ((List.mem_append.mp hp).resolve_right fun hn => ?_)
    exact ha p (List.mem_singleton.mp hn).symm
  · have := h.main (hmem.symm.trans hm) p hp
    obtain ⟨_, _, _, _, _, _, _, _, rfl⟩ := hk.same
    exact this

theorem TxInv.keeps (h : TxInv b done s) (hk : Keeps b.numPages s s') {a : TxOp B} (ha : ∀ p, a ≠ .journal p) :
    TxInv b (done ++ [a]) s' := by
  rcases h with ⟨h, hn⟩ | ⟨j, h⟩
  · refine Or.inl ⟨h.keeps hk, fun p hp => ?_⟩
    rcases List.mem_append.mp hp with hp | hp
    · exact hn p hp
    · exact ha p (List.mem_singleton.mp hp).symm
  · exact Or.inr ⟨j, h.keeps hk ha⟩

/-- A page without a record shows its committed copy. -/
theorem WritePhase.view_unmarked (h : WritePhase b s done j) (hm : s.isMemory = false) {p : Nat}
    (hp : p ∉ s.pageIsJournaled) : s.view p = s.base p :=
  view_unshadowed fun hs => hp (h.marked hm p hs.2)

theorem Began.recorded (h : Began b s) {s₁ : Pager B} {p : Nat} (hc : Captured s s₁ p) (x : Page B) :
    Began b (s₁.recorded p x) := by
  obtain ⟨jn, io, jp, pj, he⟩ := recorded_frame s₁ p x
  have hb := hc.base
  have hn := hc.numPages_ge
  rw [he]
  refine ⟨?_, ?_, ?_, ?_, ?_, le_trans h.grows hn, fun p hp => (hb p).trans (h.base p hp), ?_, ?_⟩ <;>
    obtain ⟨_, _, _, _, _, rfl⟩ := hc.same
  · exact h.isMemory
  · exact h.useWal
  · exact h.walOpen
  · exact h.wal
  · exact h.txStart
  · exact h.covers
  · exact h.memory

theorem WritePhase.journal (h : WritePhase b s done j) (p : Nat)
    (hok : s.savepoints = [] ∨ s.isMemory = true ∨ (p < b.numPages → s.view p = s.base p)) :
    ∃ j', WritePhase b (s.pagerJournalPage p) (done ++ [.journal p]) j' := by
  obtain ⟨s₁, hc, he⟩ := journalPage_eq h.writing p
  rw [he]
  have hbegan := h.toBegan.recorded hc (s.view p)
  have hw₁ := hc.writing h.writing
  have hmem : s₁.isMemory = s.isMemory := by
    obtain ⟨_, _, _, _, _, rfl⟩ := hc.same
    rfl
  have hback : ∀ q, (s₁.shadowPages.slot q).isSome = true → (s₁.pages.slot q).isSome = true := by
    intro q hq
    rw [hc.shadow] at hq
    by_cases hs : (s.shadowPages.slot q).isSome = true
    · exact hc.cache.isSome (h.backed q hs)
    · by_cases hqp : q = p
      · subst hqp
        exact hc.cached (by simpa using hs)
      · rw [if_neg hqp] at hq
        exact absurd hq hs
  have hcap : ∀ q, TxOp.journal q ∈ done ++ [TxOp.journal p] → s₁.Shadowed q := by
    intro q hq
    refine ⟨hw₁.writer, ?_⟩
    rw [hc.shadow]
    split
    · rfl
    · next hqp =>
      rcases List.mem_append.mp hq with hq | hq
      · exact (h.captured q hq).2
      · exact absurd (TxOp.journal.inj (List.mem_singleton.mp hq)) hqp
  have hload : ∀ e ∈ j, (s₁.pages.slot e.1).isSome = true := fun e hm => hc.cache.isSome (h.loaded e hm)
  have hmark : s₁.pageIsJournaled = s.pageIsJournaled := by
    obtain ⟨_, _, _, _, _, rfl⟩ := hc.same
    rfl
  have hmain : ∀ q, s₁.mainPage q = s.mainPage q := by
    obtain ⟨_, _, _, _, _, rfl⟩ := hc.same
    exact fun q => rfl
  have hpos₁ : s₁.journalPos = s.journalPos := by
    obtain ⟨_, _, _, _, _, rfl⟩ := hc.same
    rfl
  by_cases hm : s.isMemory = true
  · -- a memory database has no journal to write to
    obtain ⟨hno, rfl⟩ := h.writing.inMemory hm
    have hno₁ : s₁.disk.journal = none := by
      obtain ⟨_, _, _, _, _, rfl⟩ := hc.same
      exact hno
    have hnone := recorded_noFile hno₁ p (s.view p)
    obtain ⟨jn, io, jp, pj, he⟩ := recorded_frame s₁ p (s.view p)
    rw [he] at hbegan hnone ⊢
    have hfile : ∀ {P : Prop}, s₁.isMemory = false → P := fun hn => by
      rw [hmem, hm] at hn
      cases hn
    exact ⟨[], hbegan, hw₁.congr (hnone.trans hno₁.symm) rfl rfl rfl rfl rfl rfl hfile, hback, hfile, hfile, hfile,
      h.images, hload, hcap, hfile⟩
  have hmf : s.isMemory = false := by simpa using hm
  by_cases hskip : s₁.Skips p
  · -- the page has its record
    rw [recorded_skip hskip] at hbegan ⊢
    refine ⟨j, hbegan, hw₁, hback, fun hm => ?_, fun hm q hq => ?_, fun hm q hq => ?_, h.images, hload, hcap,
      fun hm q hq => ?_⟩
    · rw [hpos₁]
      exact h.pos (hmem.symm.trans hm)
    · rw [hmark]
      rw [hc.shadow] at hq
      split at hq
      · next hqp =>
        rcases hskip with hn | ⟨-, hn⟩
        · rw [hpos₁, h.pos (hmem.symm.trans hm)] at hn
          cases hn
        · rw [hqp, ← hmark]
          exact hn
      · exact h.marked (hmem.symm.trans hm) q hq
    · rw [hmark] at hq
      exact h.records (hmem.symm.trans hm) q hq
    · rw [hmain]
      have hu : s₁.useWal = s.useWal := hbegan.useWal.trans h.useWal.symm
      rw [hu]
      exact h.main (hmem.symm.trans hm) q hq
  · have hposj : s₁.journalPos = some j.length := hpos₁.trans (h.pos hmf)
    rw [recorded_record hskip hposj] at hbegan ⊢
    have hjn : s₁.disk.journal = some j := (hw₁.holds (hmem.trans hmf)).journal
    -- the image is the committed copy: the condition says so of a page recorded before
    have himg : p < b.numPages → s.view p = b.base p := by
      intro hp
      rw [← h.base p hp]
      rcases hok with hs | hs | hs
      · refine h.view_unmarked hmf fun hn => hskip (Or.inr ⟨?_, by rw [hmark]; exact hn⟩)
        obtain ⟨_, _, _, _, _, rfl⟩ := hc.same
        exact hs
      · rw [hmf] at hs
        cases hs
      · exact hs hp
    refine ⟨j ++ [(p, s.view p)], hbegan, ?_, hback, fun _ => ?_, fun _ q hq => ?_, fun _ q hq => ?_, fun e he hlt => ?_,
      fun e he => ?_, hcap, fun _ q hq => ?_⟩
    · refine ⟨⟨hw₁.sharedWrite, hw₁.reserved, hw₁.pending, hw₁.slot⟩, hw₁.inTx, hw₁.writer, fun hm => ?_,
        fun hm => ?_⟩
      · have hh := hw₁.holds hm
        refine ⟨hh.self, hh.lock, ?_, rfl⟩
        change s₁.disk.journal.map _ = _
        rw [hjn, Option.map_some, BlockFile.write_length]
      · rw [show s₁.isMemory = true from hm] at hmem
        rw [hmf] at hmem
        cases hmem
    · change some (j.length + 1) = _
      rw [List.length_append, List.length_singleton]
    · change q ∈ insert p s₁.pageIsJournaled
      rw [hmark]
      change (s₁.shadowPages.slot q).isSome = true at hq
      rw [hc.shadow] at hq
      split at hq
      · next hqp =>
        rw [hqp]
        exact Finset.mem_insert_self ..
      · exact Finset.mem_insert_of_mem (h.marked hmf q hq)
    · change q ∈ insert p s₁.pageIsJournaled at hq
      rw [hmark] at hq
      rcases Finset.mem_insert.mp hq with rfl | hq
      · exact ⟨_, List.mem_append_right _ (List.mem_singleton_self _), rfl⟩
      · obtain ⟨e, he, heq⟩ := h.records hmf q hq
        exact ⟨e, List.mem_append_left _ he, heq⟩
    · rcases List.mem_append.mp he with he | he
      · exact h.images e he hlt
      · obtain rfl := List.mem_singleton.mp he
        exact himg hlt
    · rcases List.mem_append.mp he with he | he
      · exact hload e he
      · obtain rfl := List.mem_singleton.mp he
        refine hback p ?_
        rw [hc.shadow, if_pos rfl]
        rfl
    · have hu : s₁.useWal = s.useWal := hbegan.useWal.trans h.useWal.symm
      change s₁.mainPage q = b.base q ∨ s₁.useWal = true ∧ s₁.mainPage q = b.mainPage q
      rw [hmain, hu]
      exact h.main hmf q hq

/-- The sizes a 32-bit `file_length` holds. -/
def Fits (s : Pager B) : Prop :=
  s.isMemory = false → s.disk.main.length < fileLengthWrap ∧ s.numPages < fileLengthWrap

theorem ReadPhase.upgrade (h : ReadPhase b s) (hfit : Fits b) (hup : Upgraded s s')
    (hn : s.isMemory = false → s.numPages = s.numPagesAtTxStart) (hd : ∀ p, TxOp.journal p ∉ done) :
    WritePhase b s' done [] := by
  have hbm := h.isMemory
  have hcov : Covers s' := by
    refine hup.covers h.covers h.cached fun hm => ?_
    have hf := hfit (hbm.symm.trans hm)
    rw [h.main, hn hm, h.txStart]
    exact hf
  have hbase := hup.base h.covers hcov
  have hmain := hup.main
  have hstart := hup.txStart
  have hpos := hup.pos
  have hshadow : ∀ p, s'.shadowPages.slot p = none := by
    obtain ⟨_, _, _, _, _, _, _, _, _, _, rfl⟩ := hup.same
    exact h.reading.noShadow
  have hmark : s'.pageIsJournaled = ∅ := by
    obtain ⟨_, _, _, _, _, _, _, _, _, _, rfl⟩ := hup.same
    exact h.reading.unmarked
  have hmem : s'.isMemory = s.isMemory ∧ s'.useWal = s.useWal := by
    obtain ⟨_, _, _, _, _, _, _, _, _, _, rfl⟩ := hup.same
    exact ⟨rfl, rfl⟩
  refine ⟨⟨?_, ?_, ?_, ?_, ?_, ?_, fun p hp => (hbase p).trans (h.base p hp), hcov, fun hm => ?_⟩,
    hup.writing, fun p hp => ?_,
    fun hm => ?_, fun _ p hp => ?_, fun _ p hp => ?_, fun e he => ?_, fun e he => ?_, fun p hp => absurd hp (hd p),
    fun hm p hp => ?_⟩
  · exact hmem.1.trans h.isMemory
  · exact hmem.2.trans h.useWal
  · obtain ⟨_, _, _, _, _, _, _, _, _, _, rfl⟩ := hup.same
    exact h.walOpen
  · obtain ⟨_, _, _, _, _, _, _, _, _, _, rfl⟩ := hup.same
    exact h.wal
  · rw [hstart]
    split
    · exact h.txStart
    · next hm => rw [hn (by simpa using hm), h.txStart]
  · obtain ⟨_, _, _, _, _, _, _, _, _, _, rfl⟩ := hup.same
    exact h.grows
  · have hm' := hmem.1.symm.trans hm
    rw [hup.memory hm']
    exact h.memory hm'
  · rw [hshadow] at hp
    cases hp
  · rw [hpos, if_neg (by simp [← hmem.1, hm])]
    rfl
  · rw [hshadow] at hp
    cases hp
  · rw [hmark] at hp
    exact absurd hp (Finset.notMem_empty p)
  · exact absurd he List.not_mem_nil
  · exact absurd he List.not_mem_nil
  · rw [hmain, hmem.2]
    by_cases hw : s.useWal = true
    · right
      rw [if_neg (by simp [hw])]
      refine ⟨hw, ?_⟩
      unfold Pager.mainPage
      rw [h.main]
    · left
      rw [if_pos ⟨hmem.1.symm.trans hm, by simpa using hw⟩, ← h.base p hp, Pager.base, h.covers.readPage,
        if_neg (by simp [hw])]

theorem TxInv.step (h : TxInv b done s) (hfit : Fits b) (a : TxOp B) (hok : RollbackSafe s a)
    (hj : ∀ p f, a = .write p f → TxOp.journal p ∈ done) : TxInv b (done ++ [a]) (txStep s a) := by
  have hs : Sole s ∧ s.inTransaction = true := by
    rcases h with ⟨h, -⟩ | ⟨j, h⟩
    · exact ⟨h.reading.toSole, h.reading.inTx⟩
    · exact ⟨h.writing.toSole, h.writing.inTx⟩
  have hstart : s.numPagesAtTxStart = b.numPages := by
    rcases h with ⟨h, -⟩ | ⟨j, h⟩
    · exact h.txStart
    · exact h.txStart
  cases a with
  | journal p =>
    refine Or.inr ?_
    obtain ⟨hn, hv⟩ := hok
    rw [hstart] at hv
    rcases h with ⟨h, hd⟩ | ⟨j, h⟩
    · obtain ⟨s₁, he, hup⟩ := h.reading.upgrade
      have hw := h.upgrade hfit hup (fun hm => hn hm h.reading.notWriter) hd
      have hview : s₁.view p = s₁.base p := by
        refine view_unshadowed fun hsh => ?_
        have hnone : s₁.shadowPages.slot p = none := by
          obtain ⟨_, _, _, _, _, _, _, _, _, _, rfl⟩ := hup.same
          exact h.reading.noShadow p
        rw [Shadowed, hnone] at hsh
        cases hsh.2
      have := hw.journal p (Or.inr (Or.inr fun _ => hview))
      rw [txStep, journal_upgrade h.reading.inTx he hup.writing]
      exact this
    · exact h.journal p hv
  | write p f =>
    refine h.keeps ((modify_modified hs.1 hs.2 p f).keeps fun _ => ?_) (fun q hq => by cases hq)
    rcases h with ⟨h, hd⟩ | ⟨j, h⟩
    · exact absurd (hj p f rfl) (hd p)
    · exact h.captured p (hj p f rfl)
  | read p => exact h.keeps ((getPage_loaded hs.1 hs.2 p).keeps _) (fun q hq => by cases hq)
  | alloc =>
    refine h.keeps (alloc_keeps hs.1 hs.2 _ ?_) (fun q hq => by cases hq)
    rw [← hstart]
    exact hok
  | savepoint name => exact h.keeps (savepoint_keeps hs.2 name _) (fun q hq => by cases hq)
  | release name => exact h.keeps (release_keeps name _) (fun q hq => by cases hq)

/-! ## The restored state -/

theorem begin_reading (hi : Idle s) (hb : s.pagerBeginTransaction = (true, b)) : Reading b := by
  obtain ⟨_, _, _, _, _, _, _, rfl⟩ := (begin_begun hi.notInTx hb).same
  exact ⟨hi.toSole.congr rfl rfl, rfl, rfl, hi.noJournal, hi.noFile, hi.noShadow, hi.unmarked, hi.lock⟩

theorem begin_readPhase (hi : Idle s) (hb : s.pagerBeginTransaction = (true, b)) (hfit : Fits b) :
    ReadPhase b b := by
  have hbeg := begin_begun hi.notInTx hb
  have hcache := hbeg.cache
  have hfp := hbeg.filePages
  have hmem : b.isMemory = s.isMemory ∧ b.disk = s.disk ∧ b.numPagesAtTxStart = b.numPages := by
    obtain ⟨_, _, _, _, _, _, _, rfl⟩ := hbeg.same
    exact ⟨rfl, rfl, rfl⟩
  have hmain : b.isMemory = true → b.disk.main = [] := fun hm => by
    rw [hmem.2.1]
    exact hi.memory (hmem.1.symm.trans hm)
  refine ⟨⟨rfl, rfl, rfl, rfl, hmem.2.2, le_refl _, fun _ _ => rfl, ?_, hmain⟩, begin_reading hi hb, rfl, fun q x hq => ?_⟩
  · unfold Covers
    by_cases hm : b.isMemory = true
    · rw [hmain hm]
      exact Nat.zero_le _
    · have hm : b.isMemory = false := by simpa using hm
      rw [hfp (hmem.1.symm.trans hm), ← hmem.2.1, Nat.mod_eq_of_lt (hfit hm).1]
  · rcases hcache with ⟨hc, hn⟩ | ⟨hc, -⟩
    · rw [hn]
      rw [hc] at hq
      exact hi.cached q x hq
    · rw [hc] at hq
      cases hq

/-- The replay puts back what BEGIN saw, whichever phase the transaction is in. -/
structure Undoes (b s s' : Pager B) : Prop where
  numPages : s'.numPages = b.numPages
  slot : ∀ p < b.numPages, ∀ x, s'.pages.slot p = some x → x = b.base p
  base : ∀ p < b.numPages, s'.base p = b.base p
  main : s.isMemory = false → ∀ p < b.numPages,
    s'.mainPage p = b.base p ∨ (∀ e ∈ s.journalRecords, e.1 ≠ p) ∧ s'.mainPage p = s.mainPage p

theorem Began.undoes (h : Began b s) (hr : RolledBack s s') (hfit : Fits b)
    (hrec : ∀ e ∈ s.journalRecords, e.1 < b.numPages → e.2 = b.base e.1)
    (hload : ∀ e ∈ s.journalRecords, (s.pages.slot e.1).isSome = true)
    (hzero : b.numPages = 0 → s.numPages = 0) : Undoes b s s' := by
  have hlook : ∀ p < b.numPages, ∀ x, s.journalRecords.reverse.lookup p = some x → x = b.base p := by
    intro p hp x hx
    obtain ⟨l₁, l₂, hl, -⟩ := List.lookup_eq_some_iff.mp hx
    exact hrec (p, x) (List.mem_reverse.mp (by rw [hl]; simp)) hp
  have hslot : ∀ p < b.numPages, s'.pages.slot p = (s.pages.slot p).map fun _ => b.base p := by
    intro p hp
    rw [hr.slot, if_neg (by rw [h.txStart]; omega), Slots.slot_overwriteAll]
    cases hq : s.pages.slot p with
    | none => rfl
    | some x =>
      have hx : x = b.base p := by rw [← h.base p hp, Pager.base, hq, Option.getD_some]
      cases hk : s.journalRecords.reverse.lookup p with
      | none => rw [Option.map_some, Option.getD_none, hx, Option.map_some]
      | some y => rw [Option.map_some, Option.getD_some, hlook p hp y hk, Option.map_some]
  have hmod : s.isMemory = false → s.numPagesAtTxStart % fileLengthWrap = b.numPages := fun hm => by
    rw [h.txStart, Nat.mod_eq_of_lt (hfit (h.isMemory.symm.trans hm)).2]
  have hmain : ∀ p < b.numPages, s'.mainPage p =
      BlockFile.read Page.zero (recoverMain s.disk.main s.journalRecords) p := by
    intro p hp
    unfold Pager.mainPage
    rw [hr.main]
    split
    · next hg => rw [BlockFile.read_truncate, hmod hg.2, if_pos hp]
    · rfl
  refine ⟨?_, fun p hp x hx => ?_, fun p hp => ?_, fun hm p hp => ?_⟩
  · have := h.grows
    have hts := h.txStart
    rw [hr.numPages]
    split
    · exact hts
    · next hg =>
      unfold Grew at hg
      omega
  · rw [hslot p hp] at hx
    cases hq : s.pages.slot p with
    | none =>
      rw [hq] at hx
      cases hx
    | some y =>
      rw [hq] at hx
      exact (Option.some.inj hx).symm
  · rw [Pager.base, hslot p hp]
    cases hq : s.pages.slot p with
    | some y => rfl
    | none =>
      -- an uncached page has no record: it reads as before
      have hno : ∀ e ∈ s.journalRecords, e.1 ≠ p := fun e he hep => by
        have := hload e he
        rw [hep, hq] at this
        cases this
      have hread : s'.readPage p = s.readPage p := by
        have hm' := hmain p hp
        rw [recoverMain, BlockFile.read_writeAll_of_not_mem _ _ _ _ hno] at hm'
        have hfile : (if p < s'.filePages then s'.mainPage p else Page.zero) = s.mainPage p := by
          rw [hm', hr.filePages]
          by_cases hg : s.Grew
          · rw [if_pos hg]
            by_cases hm : s.isMemory = true
            · have hz : s.mainPage p = Page.zero := by
                unfold Pager.mainPage
                rw [h.memory hm]
                rfl
              change (if _ then s.mainPage p else _) = s.mainPage p
              rw [hz, ite_self]
            · rw [hmod (by simpa using hm), if_pos hp]
              rfl
          · rw [if_neg hg]
            exact h.covers.fromFile p
        have hwal : s'.useWal = s.useWal ∧ s'.walOpen = s.walOpen ∧ s'.lastFrame p = s.lastFrame p := by
          obtain ⟨_, _, _, _, _, _, _, rfl⟩ := hr.same
          exact ⟨rfl, rfl, rfl⟩
        unfold Pager.readPage
        simp only [hfile, h.covers.fromFile, hwal.1, hwal.2.1, hwal.2.2]
      rw [Option.map_none, Option.getD_none, hread, ← h.base p hp, Pager.base, hq, Option.getD_none]
  · by_cases hno : ∀ e ∈ s.journalRecords, e.1 ≠ p
    · right
      refine ⟨hno, ?_⟩
      rw [hmain p hp, recoverMain, BlockFile.read_writeAll_of_not_mem _ _ _ _ hno]
      rfl
    · left
      rw [hmain p hp, recoverMain]
      exact BlockFile.read_writeAll_of_const _ _ _ _ _ (fun e he hep => hep ▸ hrec e he (hep ▸ hp)) fun hn => absurd hn hno

/-- The pages of BEGIN are back: the cache entries, what a read sees, the file, and the page count. -/
structure Restored (b s' : Pager B) : Prop where
  numPages : s'.numPages = b.numPages
  cache : ∀ p < b.numPages, ∀ x, s'.pages.slot p = some x → x = b.view p
  view : ∀ p < b.numPages, s'.view p = b.view p
  main : b.isMemory = false → ∀ p < b.numPages, s'.mainPage p = b.view p

/-- Every page either has its content in the main file at BEGIN, or the transaction brings it there: by
the flush that precedes the first capture in rollback mode, or by a journal record. -/
def FileCurrent (b : Pager B) (ops : List (TxOp B)) : Prop :=
  b.isMemory = false → ∀ p < b.numPages, b.mainPage p = b.view p ∨
    (b.useWal = false ∧ ∃ q, TxOp.journal q ∈ ops) ∨ TxOp.journal p ∈ ops

theorem TxInv.undoes {ops : List (TxOp B)} (h : TxInv b ops s) (hr : RolledBack s s') (hfit : Fits b)
    (hzero : b.numPages = 0 → s.numPages = 0) : Undoes b s s' := by
  rcases h with ⟨h, -⟩ | ⟨j, h⟩
  · have hj : s.journalRecords = [] := by rw [journalRecords, h.reading.noFile]; rfl
    refine h.undoes hr hfit (fun e he => ?_) (fun e he => ?_) hzero
    · rw [hj] at he
      exact absurd he List.not_mem_nil
    · rw [hj] at he
      exact absurd he List.not_mem_nil
  · have hj : s.journalRecords = j := by
      unfold journalRecords
      by_cases hm : s.isMemory = true
      · obtain ⟨hn, rfl⟩ := h.writing.inMemory hm
        rw [hn]
        rfl
      · rw [(h.writing.holds (by simpa using hm)).journal]
        rfl
    refine h.undoes hr hfit (fun e he => ?_) (fun e he => ?_) hzero
    · exact h.images e (hj ▸ he)
    · exact h.loaded e (hj ▸ he)

/-- A database file of one page with body 7, just opened. -/
def onePage : Pager Word := pagerOpen ⟨[⟨7, 0, 0⟩], none, none⟩ ByteLocks.none .free 1

/-- Store a new body. -/
def putBody (w : Word) (x : Page Word) : Page Word := { x with body := w }

/-- The name `s`. -/
def nameS : SavepointName := ⟨[115], by decide⟩

theorem onePage_idle : Idle onePage where
  sharedWrite := rfl
  reserved := rfl
  pending := rfl
  slot _ h := nomatch h
  notInTx := rfl
  noJournal _ := rfl
  noFile := rfl
  noShadow _ := rfl
  unmarked := rfl
  lock _ := by decide
  cached _ _ h := nomatch h
  memory h := nomatch h

/-- Write, SAVEPOINT, write again, all to page 0. -/
def savepointBetween : List (TxOp Word) :=
  [.journal 0, .write 0 (putBody 8), .savepoint nameS, .journal 0, .write 0 (putBody 9)]

theorem savepointBetween_journaled : JournaledFirst savepointBetween := by
  intro pre p f post h
  have hp : p = 0 := by
    have hm : TxOp.write p f ∈ savepointBetween := by simp [h]
    rcases List.mem_cons.mp hm with hm | hm
    · cases hm
    · simp only [List.mem_cons, TxOp.write.injEq, List.not_mem_nil, reduceCtorEq, false_or, or_false] at hm
      rcases hm with hm | hm <;> exact hm.1
  cases pre with
  | nil => cases h
  | cons a pre =>
    obtain ⟨rfl, -⟩ := List.cons.inj h
    rw [hp]
    exact List.mem_cons_self ..

/-- One write, then its rollback. -/
def oneWrite : List (TxOp Word) := [.journal 0, .write 0 (putBody 8)]

theorem oneWrite_journaled : JournaledFirst oneWrite := by
  intro pre p f post h
  have hm : TxOp.write p f ∈ oneWrite := by simp [h]
  simp only [oneWrite, List.mem_cons, TxOp.write.injEq, List.not_mem_nil, reduceCtorEq, false_or, or_false] at hm
  cases pre with
  | nil => cases h
  | cons a pre =>
    obtain ⟨rfl, -⟩ := List.cons.inj h
    rw [hm.1]
    exact List.mem_cons_self ..

end Pager

end CustomDB
