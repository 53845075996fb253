import CustomDB.Pager.FreelistSpec
import CustomDB.Pager.Undo

/-!
# Memory databases and database files

A `Core` is what a pager holds apart from its files, its locks and its journal. Each operation of the pager
does to its core what the operation of the same name does here, in both modes alike, as long as an undo finds
in the journal what the core holds.
-/

namespace CustomDB

open Lib

/-- What a pager holds apart from its files, its locks and its journal. -/
@[ext] structure Core (B : Type) where
  base : Nat → Page B
  shadow : Nat → Option (Page B)
  numPages : Nat
  numPagesAtTxStart : Nat
  freelistHead : Nat
  reservedCatalogPages : Nat
  walLsn : Nat
  inTransaction : Bool
  isWriter : Bool
  /-- Each with the page count it was created at. -/
  savepoints : List (SavepointName × Nat)

/-- What the executor asks of its pager. -/
inductive Request (B : Type) where
  | begin
  | act (a : Pager.PageAct B)
  | savepoint (name : SavepointName)
  | rollbackTo (name : SavepointName)
  | release (name : SavepointName)
  | commit
  | rollback

namespace Core

variable {B : Type} [PageBody B]

def view (c : Core B) (p : Nat) : Page B :=
  if c.inTransaction && c.isWriter then (c.shadow p).getD (c.base p) else c.base p

def getPage (c : Core B) (p : Nat) : Core B := { c with numPages := max c.numPages (p + 1) }

def modify (c : Core B) (p : Nat) (f : Page B → Page B) : Core B :=
  if c.isWriter = true ∧ (c.shadow p).isSome = true then
    { c.getPage p with shadow := fun q => if q = p then some (f (c.view p)) else c.shadow q }
  else { c.getPage p with base := fun q => if q = p then f (c.view p) else c.base q }

def shadowPage (c : Core B) (p : Nat) : Core B :=
  if c.inTransaction = false then c
  else { c.getPage p with isWriter := true, shadow := fun q => if q = p then some (c.view p) else c.shadow q }

def setHead (c : Core B) (k : Nat) : Core B := { c with freelistHead := k }

def alloc (c : Core B) : Core B :=
  if c.freelistHead ≠ 0 ∧ c.freelistHead ≠ invalidPageNum ∧ c.reservedCatalogPages ≤ c.freelistHead then
    let next := PageBody.link (c.view c.freelistHead).body
    ((c.modify c.freelistHead fun _ => Page.zero).setHead next).modify 0 fun p0 => p0.setFreelistHead next
  else c

def free (c : Core B) (p : Nat) : Core B :=
  if p < c.reservedCatalogPages ∨ p = 0 ∨ p = invalidPageNum then c
  else
    ((c.modify p fun _ => { (Page.zero : Page B) with body := PageBody.ofLink c.freelistHead }).setHead p).modify 0
      fun p0 => p0.setFreelistHead p

def act (c : Core B) : Pager.PageAct B → Core B
  | .ensure => { c with isWriter := true }
  | .journal p | .shadow p => c.shadowPage p
  | .modify p f => c.modify p f
  | .read p => c.getPage p
  | .alloc => c.alloc
  | .free p => c.free p
  | .trailer => c.modify 0 fun x => { x with freelistHead := c.freelistHead, lsn := c.walLsn }
  | .reserve k => { c with reservedCatalogPages := k }
  | .flush => c

def begin (c : Core B) : Core B :=
  if c.inTransaction then c
  else { c with inTransaction := true, isWriter := false, numPagesAtTxStart := c.numPages }

/-- Between transactions nothing is captured. -/
def settle (c : Core B) : Core B := { c with shadow := fun _ => none, inTransaction := false, isWriter := false }

/-- The new LSN on page 0, as `pager_commit` puts it there. -/
def stamp (c : Core B) : Core B :=
  ({ c with walLsn := c.walLsn + 1 } : Core B).modify 0 fun p0 => p0.setLsn (c.walLsn + 1)

open Classical in
noncomputable def commit (c : Core B) : Core B :=
  if c.inTransaction = false then c
  else if ∃ p, (c.shadow p).isSome = true then
    { c.stamp.settle with base := fun p => (c.stamp.shadow p).getD (c.stamp.base p) }
  else c.settle

def rollback (c : Core B) : Core B :=
  if c.inTransaction = false then c
  else if 0 < c.numPagesAtTxStart ∧ c.numPagesAtTxStart < c.numPages then
    { c.settle with
      base := fun p => if c.numPagesAtTxStart ≤ p then Page.zero else c.base p
      numPages := c.numPagesAtTxStart
      savepoints := [] }
  else { c.settle with savepoints := [] }

def savepoint (c : Core B) (name : SavepointName) : Core B :=
  let c := c.begin
  if 16 ≤ c.savepoints.length then c else { c with savepoints := (name, c.numPages) :: c.savepoints }

/-- `ROLLBACK TO` with nothing to undo. -/
def rollbackTo (c : Core B) (name : SavepointName) : Core B :=
  if c.inTransaction = false then c
  else
    match c.savepoints.dropWhile fun sp => sp.1 ≠ name with
    | [] => c
    | sps => { c with savepoints := sps }

def release (c : Core B) (name : SavepointName) : Core B :=
  if c.inTransaction = false then c
  else
    match c.savepoints.dropWhile fun sp => sp.1 ≠ name with
    | [] => c
    | _ :: sps => { c with savepoints := sps }

noncomputable def step (c : Core B) : Request B → Core B
  | .begin => c.begin
  | .act a => c.act a
  | .savepoint name => c.savepoint name
  | .rollbackTo name => c.rollbackTo name
  | .release name => c.release name
  | .commit => c.commit
  | .rollback => c.rollback

end Core

namespace Pager

variable {B : Type} [PageBody B] {s s' s₁ : Pager B} {mode : Bool} {p : Nat} {f : Page B → Page B} {j : List (JournalEntry B)}

/-- The core of a pager. -/
def core (s : Pager B) : Core B where
  base := s.base
  shadow := s.shadowPages.slot
  numPages := s.numPages
  numPagesAtTxStart := s.numPagesAtTxStart
  freelistHead := s.freelistHead
  reservedCatalogPages := s.reservedCatalogPages
  walLsn := s.walLsn
  inTransaction := s.inTransaction
  isWriter := s.isWriter
  savepoints := s.savepoints.map fun sp => (sp.name, sp.numPagesAtSavepoint)

/-- One request; `none` when the pager exits. -/
def serve (s : Pager B) : Request B → Option (Pager B)
  | .begin => some s.pagerBeginTransaction.2
  | .act a => some (s.act a)
  | .savepoint name => some (s.pagerSavepoint name)
  | .rollbackTo name => some (s.pagerRollbackToSavepoint name)
  | .release name => some (s.pagerReleaseSavepoint name)
  | .commit => s.pagerCommit
  | .rollback => s.pagerRollback

/-- Where a request finds in the journal of a database file what the core holds: the transaction's first write
finds the page count of BEGIN, a rollback puts back the pages the cache holds anyway, and nothing was written
since the savepoint that `ROLLBACK TO` names. Stores to page 0 spare its LSN. -/
def NothingToUndo (s : Pager B) (r : Request B) : Prop :=
  Fits s ∧
    match r with
    | .act .ensure => s.inTransaction = true ∧ s.Unmoved
    | .act (.shadow _) | .act (.journal _) => s.inTransaction = true → s.Unmoved
    | .act (.modify p f) => p = 0 → ∀ x, (f x).lsn = x.lsn
    | .rollback => s.inTransaction = true → ∀ e ∈ s.journalRecords, 
        ¬ (s.Grew ∧ s.numPagesAtTxStart ≤ e.1) → e.1 < s.disk.main.length ∧ e.2 = s.base e.1
    | .rollbackTo name => s.inTransaction = true → ∀ sp rest, s.findSavepoint name = sp :: rest →
        s.replayed sp.journalOffset = [] ∧ s.numPages = sp.numPagesAtSavepoint
    | _ => True

/-! ## The invariant -/

/-- A pager of one connection: in memory if `mode` says so, else in rollback mode. -/
structure Solo (mode : Bool) (s : Pager B) : Prop where
  mode : s.isMemory = mode
  phase : (∃ j, Stage s j) ∨ Idle s
  readers : s.others.sharedRead = false
  plain : s.useWal = false ∧ s.walOpen = false ∧ s.disk.wal = none
  memory : s.isMemory = true → s.disk.main = []
  cached : ∀ q x, s.pages.slot q = some x → q < s.numPages
  backed : ∀ q, (s.shadowPages.slot q).isSome = true → (s.pages.slot q).isSome = true
  blank : ∀ q, s.pages.slot q = none → s.mainPage q = Page.zero
  length : s.isMemory = false → s.filePages = s.disk.main.length
  short : s.isMemory = false → s.disk.main.length < fileLengthWrap
  within : s.disk.main.length ≤ s.numPages
  slotLsn : ∀ x, s.pages.slot 0 = some x → x.lsn ≤ s.walLsn
  shadowLsn : ∀ x, s.shadowPages.slot 0 = some x → x.lsn ≤ s.walLsn
  fileLsn : (s.mainPage 0).lsn ≤ s.walLsn
  dirty : s.isDirty ≠ ∅ → ∃ q, (s.shadowPages.slot q).isSome = true

theorem Solo.asLeft (h : Solo mode s) : AsLeft s := by
  obtain ⟨-, -, hwal⟩ := h.plain
  refine ⟨?_, fun hn => by simp [hwal] at hn⟩
  by_cases hm : s.isMemory = true
  · exact Or.inl hm
  · have hm : s.isMemory = false := by simpa using hm
    have hlen := h.length hm
    have hlt := h.short hm
    refine Or.inr ⟨by rw [Nat.mod_eq_of_lt hlt, hlen], max_le ?_ ?_⟩
    · simp [walMaxLsn, hwal]
    · unfold diskLsn
      split
      · exact h.fileLsn
      · exact Nat.zero_le _

theorem Solo.ready (h : Solo mode s) : Ready s := h.phase.imp id fun hi => ⟨hi, h.asLeft⟩

theorem Solo.readPage (h : Solo mode s) {q : Nat} (hq : s.pages.slot q = none) : s.readPage q = Page.zero := by
  unfold Pager.readPage
  simp only [h.plain.1, Bool.false_and, Bool.false_eq_true, if_false]
  split
  · exact h.blank q hq
  · rfl

/-- An uncached page is zero. -/
theorem Solo.base (h : Solo mode s) (q : Nat) : s.base q = (s.pages.slot q).getD Page.zero := by
  unfold Pager.base
  cases hq : s.pages.slot q with
  | some x => rfl
  | none => rw [Option.getD_none, Option.getD_none, h.readPage hq]

/-- The cache decides what the pages are. -/
theorem Solo.base_eq (h : Solo mode s) (h' : Solo mode s') (hslot : ∀ q, s'.pages.slot q = s.pages.slot q) : s'.base = s.base :=
  funext fun q => by rw [h'.base, h.base, hslot]

theorem Solo.noShadow (h : Solo mode s) (hw : s.isWriter = false) (q : Nat) : s.shadowPages.slot q = none := by
  rcases h.phase with ⟨j, hst⟩ | hi
  · exact (hst.reading hw).1.noShadow q
  · exact hi.noShadow q

theorem Solo.notInTx (h : Solo mode s) (ht : s.inTransaction = false) : Idle s := by
  rcases h.phase with ⟨j, hst⟩ | hi
  · rw [hst.sole.2] at ht
    cases ht
  · exact hi

theorem Solo.stage (h : Solo mode s) (ht : s.inTransaction = true) : ∃ j, Stage s j := by
  rcases h.phase with hst | hi
  · exact hst
  · rw [hi.notInTx] at ht
    cases ht

theorem Solo.baseLsn (h : Solo mode s) : (s.base 0).lsn ≤ s.walLsn := by
  rw [h.base]
  cases hq : s.pages.slot 0 with
  | some x => exact h.slotLsn x hq
  | none => exact Nat.zero_le _

theorem Solo.viewLsn (h : Solo mode s) : (s.view 0).lsn ≤ s.walLsn := by
  unfold Pager.view
  split
  · cases hq : s.shadowPages.slot 0 with
    | some x => exact h.shadowLsn x hq
    | none => exact h.baseLsn
  · exact h.baseLsn

/-- An access that leaves the files alone. -/
theorem Solo.access (h : Solo mode s) (hw : Works s s')
    (hd : s'.disk = s.disk ∧ s'.filePages = s.filePages ∧ s'.isMemory = s.isMemory ∧ s'.walLsn = s.walLsn ∧ s'.others = s.others)
    (hwal : s'.useWal = s.useWal ∧ s'.walOpen = s.walOpen)
    (hslot : ∀ q, (s.pages.slot q).isSome = true → (s'.pages.slot q).isSome = true)
    (hslotLsn : ∀ x, s'.pages.slot 0 = some x → x.lsn ≤ s.walLsn)
    (hshadowLsn : ∀ x, s'.shadowPages.slot 0 = some x → x.lsn ≤ s.walLsn)
    (hdirty : s'.isDirty ≠ ∅ → ∃ q, (s'.shadowPages.slot q).isSome = true) : Solo mode s' := by
  obtain ⟨hdisk, hfp, hm, hl, ho⟩ := hd
  have hmain : ∀ q, s'.mainPage q = s.mainPage q := fun q => by rw [mainPage, hdisk, mainPage]
  refine ⟨hm.trans h.mode, h.phase.imp hw.stage fun hi => (hw.idle ⟨hi, h.asLeft⟩).1, by rw [ho]; exact h.readers, ?_, hw.memory h.memory, hw.cached h.cached,
    hw.backed h.backed, fun q hq => ?_, fun hn => ?_, fun hn => ?_, ?_, ?_, ?_, ?_, hdirty⟩
  · rw [hwal.1, hwal.2, hdisk]
    exact h.plain
  · rw [hmain]
    refine h.blank q ?_
    by_contra hn
    have := hslot q (Option.isSome_iff_ne_none.mpr hn)
    rw [hq] at this
    cases this
  · rw [hfp, hdisk]
    exact h.length (hm.symm.trans hn)
  · rw [hdisk]
    exact h.short (hm.symm.trans hn)
  · rw [hdisk]
    exact le_trans h.within hw.numPages
  · rw [hl]
    exact hslotLsn
  · rw [hl]
    exact hshadowLsn
  · rw [hmain, hl]
    exact h.fileLsn

/-! ## Reads and stores -/

/-- The pager has the core `c`. -/
structure Answers (mode : Bool) (t : Pager B) (c : Core B) : Prop where
  solo : Solo mode t
  core : t.core = c

theorem Solo.reach (h : Solo mode s) (p : Nat) :
    (if (s.pages.slot p).isSome = true then s.numPages else max s.numPages (p + 1)) = max s.numPages (p + 1) := by
  split
  · next hp =>
    obtain ⟨x, hx⟩ := Option.isSome_iff_exists.mp hp
    have := h.cached p x hx
    omega
  · rfl

theorem Solo.getPage (h : Solo mode s) (p : Nat) : Answers mode (s.getPage p) (s.core.getPage p) := by
  have hl := h.ready.loaded p
  have hw := hl.works
  have hbase := hl.base
  have hn := hl.numPages
  have hslot := hl.slot
  have hsome : ∀ q, (s.pages.slot q).isSome = true → ((s.getPage p).pages.slot q).isSome = true := fun q =>
    hl.cacheOrLoad.isSome
  rw [h.reach] at hn
  generalize s.getPage p = s' at hl hw hbase hn hslot hsome
  obtain ⟨l, e, c, n, rfl⟩ := hl.same
  refine ⟨h.access hw ⟨rfl, rfl, rfl, rfl, rfl⟩ ⟨rfl, rfl⟩ hsome (fun x hx => ?_) h.shadowLsn h.dirty, ?_⟩
  · rw [hslot] at hx
    split at hx
    · next hp =>
      obtain rfl := Option.some.inj hx
      rw [← hp]
      exact h.baseLsn
    · exact h.slotLsn x hx
  · unfold Pager.core Core.getPage
    simp only [funext hbase]
    rw [← hn]

theorem shadowed_iff : s.Shadowed p ↔ s.core.isWriter = true ∧ (s.core.shadow p).isSome = true := Iff.rfl

theorem Solo.modify (h : Solo mode s) (hf : p = 0 → (f (s.view 0)).lsn ≤ s.walLsn) :
    Answers mode (s.modify p f) (s.core.modify p f) := by
  have hl := h.ready.modified p f
  have hw := hl.works
  have hbase := hl.base
  have hn := hl.numPages
  have hslot := hl.slot
  have hshadow := hl.shadow
  have hsome : ∀ q, (s.pages.slot q).isSome = true → ((s.modify p f).pages.slot q).isSome = true := fun q hq =>
    hl.slot_isSome.mpr (Or.inr hq)
  rw [h.reach] at hn
  generalize s.modify p f = s' at hl hw hbase hn hslot hsome hshadow
  obtain ⟨l, e, c, n, sh, rfl⟩ := hl.same
  refine ⟨h.access hw ⟨rfl, rfl, rfl, rfl, rfl⟩ ⟨rfl, rfl⟩ hsome (fun x hx => ?_) (fun x hx => ?_) (fun hd => ?_), ?_⟩
  · rw [hslot] at hx
    split at hx
    · next hp =>
      obtain rfl := Option.some.inj hx
      split
      · rw [← hp]
        exact h.baseLsn
      · rw [← hp]
        exact hf hp.symm
    · exact h.slotLsn x hx
  · rw [hshadow] at hx
    split at hx
    · next hp =>
      obtain rfl := Option.some.inj hx
      rw [← hp.1]
      exact hf hp.1.symm
    · exact h.shadowLsn x hx
  · obtain ⟨q, hq⟩ := h.dirty hd
    refine ⟨q, ?_⟩
    rw [hshadow]
    split
    · rfl
    · exact hq
  · unfold Core.modify
    by_cases hs : s.Shadowed p
    · have hb : ∀ q, ({ s with lockState := l, lockError := e, pages := c, numPages := n, shadowPages := sh } : Pager B).base q =
          s.base q := fun q => by rw [hbase, if_neg fun hq => hq.2 hs]
      have hsh : sh.slot = fun q => if q = p then some (f (s.view p)) else s.shadowPages.slot q := funext fun q => by
        simpa [hs] using hshadow q
      rw [if_pos (shadowed_iff.mp hs)]
      unfold Pager.core Core.getPage
      simp only [funext hb, hsh]
      rw [← hn]
      rfl
    · have hb : ∀ q, ({ s with lockState := l, lockError := e, pages := c, numPages := n, shadowPages := sh } : Pager B).base q =
          if q = p then f (s.view p) else s.base q := fun q => by simpa [hs] using hbase q
      have hsh : sh.slot = s.shadowPages.slot := funext fun q => by simpa [hs] using hshadow q
      rw [if_neg fun hn => hs (shadowed_iff.mpr hn)]
      unfold Pager.core Core.getPage
      simp only [funext hb, hsh]
      rw [← hn]
      rfl

theorem Solo.setHead (h : Solo mode s) (k : Nat) :
    Answers mode { s with freelistHead := k } (s.core.setHead k) :=
  ⟨h.access (setHead_works s k) ⟨rfl, rfl, rfl, rfl, rfl⟩ ⟨rfl, rfl⟩ (fun _ hq => hq) h.slotLsn h.shadowLsn h.dirty, rfl⟩

/-! ## Captures -/

/-- The write lock, taken at the page count of BEGIN. -/
theorem Solo.upgraded (h : Solo mode s) (hfit : Fits s) (hr : Reading s) (hn : s.Unmoved) (hu : Upgraded s s')
    (hd : s'.isDirty ⊆ s.isDirty) : Answers mode s' { s.core with isWriter := true } := by
  have hw := hu.works hr
  have hwr := hu.writing
  have hmain := hu.main
  have hle := hu.length_le _ h.cached
  have hfp := hu.filePages
  have hts := hu.txStart
  have hmem := hu.memory
  obtain ⟨hwal, hopen, hnone⟩ := h.plain
  obtain ⟨m, jn, io, w, l, e, fp, k, d, jp, rfl⟩ := hu.same
  dsimp only at hle hfp hts hmem hd
  have hblank : ∀ q, s.pages.slot q = none → BlockFile.read Page.zero m q = Page.zero := by
    intro q hq
    have hm := hmain q
    rw [hq, Option.getD_none, ite_self, h.blank q hq] at hm
    exact hm
  have hlen : m.length ≤ s.numPages := le_trans hle (max_le h.within (le_refl _))
  have hshort : s.isMemory = false → m.length < fileLengthWrap := fun hm => lt_of_le_of_lt hlen (hfit hm).2
  have hsolo : Solo mode ({ s with
      disk := { main := m, journal := jn, wal := s.disk.wal }, io := io, writerSlot := w, lockState := l
      lockError := e, filePages := fp, numPagesAtTxStart := k, isDirty := d, journalPos := jp
      isWriter := true } : Pager B) := by
    refine ⟨h.mode, Or.inl ⟨[], Or.inr hwr⟩, h.readers, h.plain, hw.memory h.memory, h.cached, h.backed, hblank, fun hm => ?_, hshort, hlen,
      h.slotLsn, h.shadowLsn, ?_, fun hne => h.dirty fun he => hne (Finset.subset_empty.mp (he ▸ hd))⟩
    · have hm : s.isMemory = false := hm
      rw [hfp, if_neg (by simp [hm]), Nat.mod_eq_of_lt (hshort hm)]
    · rw [hmain]
      split
      · cases hq : s.pages.slot 0 with
        | some x => exact h.slotLsn x hq
        | none => exact h.fileLsn
      · exact h.fileLsn
  refine ⟨hsolo, ?_⟩
  have hk : k = s.numPagesAtTxStart := by
    rw [hts]
    split
    · rfl
    · next hm => exact hn (by simpa using hm) hr.notWriter
  unfold Pager.core
  rw [h.base_eq hsolo fun _ => rfl]
  simp only [hk]

theorem Solo.captured (h : Solo mode s) (hw : Writing s j) (hc : Captured s s' p) :
    Answers mode s' { s.core.getPage p with shadow := fun q => if q = p then some (s.view p) else s.shadowPages.slot q } := by
  have hwk := hc.works hw
  have hbase := hc.base
  have hsome := fun q => hc.slot_isSome (h.backed p) (q := q)
  have hbound := hc.bound h.cached
  have hle := hc.numPages_le
  have hge := hc.numPages_ge
  have hshadow := hc.shadow
  have hcache := hc.cache
  obtain ⟨e, c, n, sh, d, rfl⟩ := hc.same
  dsimp only at hbase hsome hbound hle hge hshadow
  refine ⟨h.access hwk ⟨rfl, rfl, rfl, rfl, rfl⟩ ⟨rfl, rfl⟩ (fun q hq => (hsome q).mpr (Or.inr hq)) (fun x hx => ?_)
    (fun x hx => ?_) (fun _ => ⟨p, ?_⟩), ?_⟩
  · rcases hcache 0 with hq | ⟨hp, hq⟩
    · exact h.slotLsn x (hq.symm.trans hx)
    · obtain rfl := Option.some.inj (hq.symm.trans hx)
      rw [← hp]
      exact h.baseLsn
  · rw [hshadow] at hx
    split at hx
    · next hp =>
      obtain rfl := Option.some.inj hx
      rw [← hp]
      exact h.viewLsn
    · exact h.shadowLsn x hx
  · rw [hshadow, if_pos rfl]
    rfl
  · have hn : n = max s.numPages (p + 1) := by
      obtain ⟨x, hx⟩ := Option.isSome_iff_exists.mp ((hsome p).mpr (Or.inl rfl))
      have := hbound p x hx
      omega
    have hsh : sh.slot = fun q => if q = p then some (s.view p) else s.shadowPages.slot q := funext hshadow
    unfold Pager.core Core.getPage
    simp only [funext hbase, hsh]
    rw [← hn]

theorem Solo.recorded (h₁ : Solo mode s₁) (hc : Captured s s₁ p) (hw : Writing s j) :
    Answers mode (s₁.recorded p (s.view p)) s₁.core := by
  have hwk := recorded_works hc hw
  obtain ⟨jn, io, jp, pj, he⟩ := recorded_frame s₁ p (s.view p)
  rw [he] at hwk ⊢
  exact ⟨⟨h₁.mode, Or.inl (hwk.stage ⟨j, Or.inr (hc.writing hw)⟩), h₁.readers, h₁.plain, h₁.memory, h₁.cached, h₁.backed, h₁.blank, h₁.length,
    h₁.short, h₁.within, h₁.slotLsn, h₁.shadowLsn, h₁.fileLsn, h₁.dirty⟩, rfl⟩

/-! The baseline flush cleans pages and dirties none. -/

theorem pagerFlush_dirty (s : Pager B) (i : Nat) : (s.pagerFlush i).isDirty ⊆ s.isDirty := by
  unfold pagerFlush
  split
  · exact Finset.Subset.refl _
  · split
    · exact Finset.Subset.refl _
    · split
      · exact Finset.Subset.refl _
      · exact Finset.erase_subset _ _

theorem foldl_flush_dirty (s : Pager B) (l : List Nat) : (l.foldl pagerFlush s).isDirty ⊆ s.isDirty := by
  induction l generalizing s with
  | nil => exact Finset.Subset.refl _
  | cons i l ih => exact (ih (s.pagerFlush i)).trans (pagerFlush_dirty s i)

theorem ensure_dirty (s : Pager B) : s.pagerEnsureWriteLock.2.isDirty ⊆ s.isDirty := by
  have hcache : ∀ s : Pager B, s.flushCached.isDirty ⊆ s.isDirty := fun s => by
    rw [flushCached_eq]
    exact foldl_flush_dirty s _
  have hacq : ∀ s : Pager B, s.acquireReserved.2.isDirty ⊆ s.isDirty := by
    intro s
    obtain ⟨l, hl⟩ := pagerLock_frame s .reserved
    unfold acquireReserved
    split
    · dsimp only
      split
      · rw [hl]
        dsimp only
        split
        · exact Finset.Subset.refl _
        · exact hcache _
      · rw [hl]
    · exact Finset.Subset.refl _
  have hclaim : ∀ t, s.claimWriter = some t → t.isDirty = s.isDirty := by
    intro t ht
    unfold claimWriter at ht
    split at ht
    · rw [Option.some.inj ht]
    · split at ht
      · cases ht
      · rw [← Option.some.inj ht]
  unfold pagerEnsureWriteLock
  split
  · exact Finset.Subset.refl _
  · next t ht =>
    have ha := hacq t
    rw [hclaim t ht] at ha
    split
    · next u hu =>
      rw [hu] at ha
      exact ha
    · next u hu =>
      rw [hu] at ha
      unfold openJournal
      split
      · exact ha
      · exact ha

theorem view_core (s : Pager B) (p : Nat) : s.view p = s.core.view p := rfl

/-- A capture by the writer. -/
theorem Solo.capture (h : Solo mode s) (hw : Writing s j) (p : Nat) :
    Answers mode (s.pagerShadowPageWrite p) (s.core.shadowPage p) ∧ Answers mode (s.pagerJournalPage p) (s.core.shadowPage p) := by
  have hcore : s.core.shadowPage p = { s.core.getPage p with
      shadow := fun q => if q = p then some (s.view p) else s.shadowPages.slot q } := by
    unfold Core.shadowPage
    rw [if_neg (by simp [Pager.core, hw.inTx]), ← show s.core.isWriter = true from hw.writer]
    rfl
  rw [hcore]
  refine ⟨h.captured hw (shadow_captured hw p), ?_⟩
  obtain ⟨s₁, hc, he⟩ := journalPage_eq hw p
  obtain ⟨h₁, hc₁⟩ := h.captured hw hc
  obtain ⟨h₂, hc₂⟩ := h₁.recorded hc hw
  rw [he]
  exact ⟨h₂, hc₂.trans hc₁⟩

/-- The first write of a transaction takes the write lock. -/
theorem Solo.ensure (h : Solo mode s) (hfit : Fits s) (ht : s.inTransaction = true) (hn : s.Unmoved) :
    ∃ s₁ j, s.pagerEnsureWriteLock = (true, s₁) ∧ Writing s₁ j ∧ Answers mode s₁ { s.core with isWriter := true } := by
  obtain ⟨j, hst⟩ := h.stage ht
  rcases hst with ⟨hr, -⟩ | hw
  · obtain ⟨s₁, he, hup⟩ := hr.upgrade
    have hd := ensure_dirty s
    rw [he] at hd
    exact ⟨s₁, [], he, hup.writing, h.upgraded hfit hr hn hup hd⟩
  · refine ⟨s, j, hw.ensure, hw, h, ?_⟩
    rw [← show s.core.isWriter = true from hw.writer]

/-- A capture, whether it has to take the write lock or not. -/
theorem Solo.shadow (h : Solo mode s) (hfit : Fits s) (hn : s.inTransaction = true → s.Unmoved) (p : Nat) :
    Answers mode (s.pagerShadowPageWrite p) (s.core.shadowPage p) ∧ Answers mode (s.pagerJournalPage p) (s.core.shadowPage p) := by
  by_cases ht : s.inTransaction = true
  · obtain ⟨s₁, j, he, hw, h₁, hc₁⟩ := h.ensure hfit ht (hn ht)
    have hview : ({ s.core with isWriter := true } : Core B).view p = s.core.view p := by
      by_cases hwr : s.isWriter = true
      · rw [← show s.core.isWriter = true from hwr]
      · have hnone : s.core.shadow p = none := h.noShadow (by simpa using hwr) p
        unfold Core.view
        rw [hnone]
        simp only [Option.getD_none, ite_self]
    have hshadow : s₁.core.shadowPage p = s.core.shadowPage p := by
      rw [hc₁]
      unfold Core.shadowPage
      rw [hview, if_neg (by simp [Pager.core, ht]), if_neg (by simp [Pager.core, ht])]
      rfl
    rw [shadow_upgrade ht he hw, journal_upgrade ht he hw, ← hshadow]
    exact h₁.capture hw p
  · have ht : s.inTransaction = false := by simpa using ht
    have hs : s.pagerShadowPageWrite p = s := if_pos ht
    have hj : s.pagerJournalPage p = s := by
      unfold pagerJournalPage
      rw [hs]
      exact if_pos ht
    have hc : s.core.shadowPage p = s.core := if_pos ht
    rw [hs, hj, hc]
    exact ⟨⟨h, rfl⟩, h, rfl⟩

/-! ## The allocator -/

theorem Answers.modify {t : Pager B} {c : Core B} (h : Answers mode t c) (hf : p = 0 → (f (c.view 0)).lsn ≤ c.walLsn) :
    Answers mode (t.modify p f) (c.modify p f) := by
  obtain ⟨hs, rfl⟩ := h
  exact hs.modify hf

theorem Answers.setHead {t : Pager B} {c : Core B} (h : Answers mode t c) (k : Nat) :
    Answers mode { t with freelistHead := k } (c.setHead k) := by
  obtain ⟨hs, rfl⟩ := h
  exact hs.setHead k

theorem Answers.viewLsn {t : Pager B} {c : Core B} (h : Answers mode t c) : (c.view 0).lsn ≤ c.walLsn := by
  obtain ⟨hs, rfl⟩ := h
  exact hs.viewLsn

/-- A new head of the free list, on page 0 too. -/
theorem Answers.head {t : Pager B} {c : Core B} (h : Answers mode t c) (k : Nat) :
    Answers mode (({ t with freelistHead := k } : Pager B).modify 0 fun p0 => p0.setFreelistHead k)
      ((c.setHead k).modify 0 fun p0 => p0.setFreelistHead k) :=
  (h.setHead k).modify fun _ => (h.setHead k).viewLsn

theorem Solo.alloc (h : Solo mode s) : Answers mode s.getUnusedPageNum.2 s.core.alloc := by
  by_cases hp : s.Pops
  · have hc : s.core.alloc = ((s.core.modify s.freelistHead fun _ => Page.zero).setHead (s.linkOf s.freelistHead)).modify 0
        fun p0 => p0.setFreelistHead (s.linkOf s.freelistHead) := if_pos hp
    rw [hc, getUnusedPageNum_link h.ready hp]
    exact Answers.head (h.modify fun _ => Nat.zero_le _) _
  · have hc : s.core.alloc = s.core := if_neg hp
    rw [hc, getUnusedPageNum_fresh hp]
    exact ⟨h, rfl⟩

theorem Solo.free (h : Solo mode s) (p : Nat) : Answers mode (s.pagerFreePage p) (s.core.free p) := by
  by_cases hp : p < s.reservedCatalogPages ∨ p = 0 ∨ p = invalidPageNum
  · have hs : s.pagerFreePage p = s := if_pos hp
    have hc : s.core.free p = s.core := if_pos hp
    rw [hs, hc]
    exact ⟨h, rfl⟩
  · have hs : s.pagerFreePage p = _ := if_neg hp
    have hc : s.core.free p = _ := if_neg hp
    rw [hs, hc]
    exact Answers.head (h.modify fun _ => Nat.zero_le _) _

/-! ## Flushing -/

/-- A flush moves `file_length` with the file. -/
theorem foldl_flush_length (hm : s.isMemory = false) (hu : s.useWal = false) (hs : s.filePages = s.disk.main.length)
    (l : List Nat) (hl : ∀ i ∈ l, i + 1 < fileLengthWrap) :
    (l.foldl pagerFlush s).filePages = (l.foldl pagerFlush s).disk.main.length := by
  induction l generalizing s with
  | nil => exact hs
  | cons i l ih =>
    rw [List.foldl_cons]
    have hi := hl i List.mem_cons_self
    have hrest : ∀ k ∈ l, k + 1 < fileLengthWrap := fun k hk => hl k (List.mem_cons_of_mem _ hk)
    cases hb : s.flushBuf i with
    | none =>
      have he : s.pagerFlush i = s := by
        unfold pagerFlush
        rw [if_neg (by simp [hm]), hb]
      rw [he]
      exact ih hm hu hs hrest
    | some buf =>
      have he : s.pagerFlush i = { (s.emit (.writeMain i buf)) with
          filePages := if s.filePages < (i + 1) % fileLengthWrap then (i + 1) % fileLengthWrap else s.filePages
          isDirty := s.isDirty.erase i } := by
        unfold pagerFlush
        rw [if_neg (by simp [hm]), hb]
        exact if_neg (by simp [hu])
      rw [he]
      refine ih hm hu ?_ hrest
      change (if s.filePages < (i + 1) % fileLengthWrap then (i + 1) % fileLengthWrap else s.filePages) =
        (BlockFile.write Page.zero s.disk.main i buf).length
      rw [BlockFile.length_write, Nat.mod_eq_of_lt hi, hs]
      split <;> omega

theorem Solo.bufLsn (h : Solo mode s) {x : Page B} (hx : s.flushBuf 0 = some x) : x.lsn ≤ s.walLsn := by
  unfold flushBuf at hx
  cases hq : s.shadowPages.slot 0 with
  | some y =>
    rw [hq] at hx
    obtain rfl := Option.some.inj hx
    exact h.shadowLsn _ hq
  | none =>
    rw [hq] at hx
    exact h.slotLsn x hx

theorem Solo.flush (h : Solo mode s) (hfit : Fits s) : Answers mode s.flushCached s.core := by
  by_cases hm : s.isMemory = true
  · rw [flushCached_memory hm]
    exact ⟨h, rfl⟩
  · have hm : s.isMemory = false := by simpa using hm
    have hu := h.plain.1
    have hfeq := flushCached_eq s
    generalize hl : (List.range s.pages.cap).filter (fun i => (s.pages.slot i).isSome) = l at hfeq
    have hsome : ∀ q ∈ l, (s.pages.slot q).isSome = true := by
      intro q hq
      rw [← hl] at hq
      exact (List.mem_filter.mp hq).2
    have hin : ∀ q ∈ l, q < s.numPages := by
      intro q hq
      obtain ⟨x, hx⟩ := Option.isSome_iff_exists.mp (hsome q hq)
      exact h.cached q x hx
    have hlen := foldl_flush_length hm hu (h.length hm) l fun q hq => by
      have hq := hin q hq
      have hn := (hfit hm).2
      omega
    have hdirty := foldl_flush_dirty s l
    have hread := read_flushed s l
    have hle : (BlockFile.writeAll Page.zero s.disk.main (s.flushed l)).length ≤ s.numPages :=
      le_trans (BlockFile.length_writeAll_le Page.zero s.disk.main (s.flushed l) s.numPages fun e he => by
        have := hin e.1 (mem_flushed he).1
        omega) (max_le h.within (le_refl _))
    obtain ⟨fp, d, hf⟩ := foldl_flush hm hu l
    rw [hfeq]
    rw [hf] at hlen hdirty ⊢
    have hsolo : Solo mode ({ s with
        disk := { s.disk with main := BlockFile.writeAll Page.zero s.disk.main (s.flushed l) }
        io := s.io ++ (s.flushed l).map fun e => .writeMain e.1 e.2
        filePages := fp
        isDirty := d } : Pager B) := by
      refine ⟨h.mode, ?_, h.readers, h.plain, fun hn => ?_, h.cached, h.backed, fun q hq => ?_, fun _ => hlen,
        fun _ => lt_of_le_of_lt hle (hfit hm).2, hle, h.slotLsn, h.shadowLsn, ?_,
        fun hne => h.dirty fun he => hne (Finset.subset_empty.mp (he ▸ hdirty))⟩
      · rcases h.phase with ⟨j, ⟨hr, rfl⟩ | hw⟩ | hi
        · exact Or.inl ⟨[], Or.inl ⟨⟨hr.toSole.congr rfl rfl, hr.inTx, hr.notWriter, hr.noJournal, hr.noFile, hr.noShadow,
            hr.unmarked, hr.lock⟩, rfl⟩⟩
        · exact Or.inl ⟨j, Or.inr (hw.congr rfl rfl rfl rfl rfl rfl rfl fun _ => rfl)⟩
        · exact Or.inr ⟨hi.toSole.congr rfl rfl, hi.notInTx, hi.noJournal, hi.noFile, hi.noShadow, hi.unmarked, hi.lock, hi.cached,
            fun hn => absurd (hn.symm.trans hm) (by simp)⟩
      · exact absurd (hn.symm.trans hm) (by simp)
      · have hq : s.pages.slot q = none := hq
        have hnot : q ∉ l := fun hql => by simpa [hq] using hsome q hql
        exact (hread q).trans ((if_neg hnot).trans (h.blank q hq))
      · change (BlockFile.read Page.zero (BlockFile.writeAll Page.zero s.disk.main (s.flushed l)) 0).lsn ≤ s.walLsn
        rw [hread]
        split
        · cases hb : s.flushBuf 0 with
          | some x => exact h.bufLsn hb
          | none => exact h.fileLsn
        · exact h.fileLsn
    refine ⟨hsolo, ?_⟩
    unfold Pager.core
    rw [h.base_eq hsolo fun _ => rfl]

/-! ## Beginning and savepoints -/

theorem Solo.begin (h : Solo mode s) : Answers mode s.pagerBeginTransaction.2 s.core.begin := by
  by_cases ht : s.inTransaction = true
  · have hb : s.pagerBeginTransaction = (true, s) := if_pos ht
    have hc : s.core.begin = s.core := if_pos ht
    rw [hb, hc]
    exact ⟨h, rfl⟩
  · have ht : s.inTransaction = false := by simpa using ht
    have hi := h.notInTx ht
    have hc : s.core.begin =
        { s.core with inTransaction := true, isWriter := false, numPagesAtTxStart := s.numPages } :=
      if_neg (by simp [Pager.core, ht])
    have hb : s.pagerBeginTransaction = (true, s.pagerBeginTransaction.2) := Prod.ext (begin_sole hi.toSole) rfl
    have hr := begin_reading hi hb
    rcases begin_cases (s := s) (by simp [ht]) with he | he
    · rw [he] at hb
      cases (Prod.mk.inj hb).1
    · rw [refresh_asLeft h.asLeft] at he
      rw [he] at hr
      rw [he, hc]
      dsimp only at hr ⊢
      have hfile : s.isMemory = false → (if s.isMemory = true then s.filePages else s.disk.main.length % fileLengthWrap) =
          s.disk.main.length := fun hm => by rw [if_neg (by simp [hm]), Nat.mod_eq_of_lt (h.short hm)]
      generalize (if s.isMemory = true then s.filePages else s.disk.main.length % fileLengthWrap) = fp at hr hfile ⊢
      have hsolo : Solo mode ({ s with
          inTransaction := true, isWriter := false, numPagesAtTxStart := s.numPages, filePages := fp
          txSnapshotXid := s.walLsn } : Pager B) :=
        ⟨h.mode, Or.inl ⟨[], Or.inl ⟨hr, rfl⟩⟩, h.readers, h.plain, h.memory, h.cached, h.backed, h.blank, hfile, h.short, h.within, h.slotLsn,
          h.shadowLsn, h.fileLsn, h.dirty⟩
      refine ⟨hsolo, ?_⟩
      unfold Pager.core
      rw [h.base_eq hsolo fun _ => rfl]

theorem core_find (s : Pager B) (name : SavepointName) : (s.core.savepoints.dropWhile fun sp => sp.1 ≠ name) =
    (s.findSavepoint name).map fun sp => (sp.name, sp.numPagesAtSavepoint) :=
  List.dropWhile_map

/-- The list of savepoints is a field of its own. -/
theorem Solo.restack (h : Solo mode s) (hst : Stage s j) {sps : List Savepoint} : Solo mode { s with savepoints := sps } := by
  refine ⟨h.mode, Or.inl ⟨j, ?_⟩, h.readers, h.plain, h.memory, h.cached, h.backed, h.blank, h.length, h.short, h.within, h.slotLsn, h.shadowLsn,
    h.fileLsn, h.dirty⟩
  rcases hst with ⟨hr, rfl⟩ | hw
  · exact Or.inl ⟨⟨hr.toSole.congr rfl rfl, hr.inTx, hr.notWriter, hr.noJournal, hr.noFile, hr.noShadow, hr.unmarked, hr.lock⟩, rfl⟩
  · exact Or.inr (hw.congr rfl rfl rfl rfl rfl rfl rfl fun _ => rfl)

theorem Solo.pushed (h : Solo mode s) (hst : Stage s j) (name : SavepointName) :
    Answers mode (s.pagerSavepoint name) (s.core.savepoint name) := by
  obtain ⟨hst', jp, sps, he, hfull, hroom⟩ := savepoint_works hst name
  have hb : s.core.begin = s.core := if_pos hst.sole.2
  have hlen : s.core.savepoints.length = s.savepoints.length := List.length_map _
  rw [he] at hst' ⊢
  unfold Core.savepoint
  dsimp only
  rw [hb, hlen]
  refine ⟨⟨h.mode, Or.inl ⟨j, hst'⟩, h.readers, h.plain, h.memory, h.cached, h.backed, h.blank, h.length, h.short, h.within, h.slotLsn,
    h.shadowLsn, h.fileLsn, h.dirty⟩, ?_⟩
  by_cases h16 : 16 ≤ s.savepoints.length
  · rw [if_pos h16, hfull h16]
    rfl
  · obtain ⟨off, hsps, -⟩ := hroom h16
    rw [if_neg h16, hsps]
    rfl

theorem Solo.savepoint (h : Solo mode s) (name : SavepointName) :
    Answers mode (s.pagerSavepoint name) (s.core.savepoint name) := by
  by_cases ht : s.inTransaction = true
  · obtain ⟨j, hst⟩ := h.stage ht
    exact h.pushed hst name
  · have ht : s.inTransaction = false := by simpa using ht
    obtain ⟨hb, hc⟩ := h.begin
    have htx : s.pagerBeginTransaction.2.inTransaction = true := by
      have hin : s.core.begin.inTransaction = true := by
        unfold Core.begin
        rw [if_neg (by simp [Pager.core, ht])]
      rw [← hc] at hin
      exact hin
    obtain ⟨j, hst⟩ := hb.stage htx
    have hp := hb.pushed hst name
    have hcore : s.core.begin.savepoint name = s.core.savepoint name := by
      have hbb : s.core.begin.begin = s.core.begin := if_pos (by rw [← hc]; exact htx)
      unfold Core.savepoint
      rw [hbb]
    rw [savepoint_begin ht htx, ← hcore, ← hc]
    exact hp

theorem Solo.release (h : Solo mode s) (name : SavepointName) :
    Answers mode (s.pagerReleaseSavepoint name) (s.core.release name) := by
  unfold pagerReleaseSavepoint Core.release
  by_cases ht : s.inTransaction = true
  · obtain ⟨j, hst⟩ := h.stage ht
    rw [if_neg (by simp [ht]), if_neg (by simp [Pager.core, ht]), core_find]
    cases hf : s.findSavepoint name with
    | nil => exact ⟨h, rfl⟩
    | cons sp rest => exact ⟨h.restack hst, rfl⟩
  · have ht : s.inTransaction = false := by simpa using ht
    rw [if_pos ht, if_pos (show s.core.inTransaction = false from ht)]
    exact ⟨h, rfl⟩

/-- With nothing to undo, `ROLLBACK TO` drops the newer savepoints. -/
theorem Solo.rollbackTo (h : Solo mode s) (name : SavepointName)
    (hn : s.inTransaction = true → ∀ sp rest, s.findSavepoint name = sp :: rest →
      s.replayed sp.journalOffset = [] ∧ s.numPages = sp.numPagesAtSavepoint) :
    Answers mode (s.pagerRollbackToSavepoint name) (s.core.rollbackTo name) := by
  unfold pagerRollbackToSavepoint Core.rollbackTo
  by_cases ht : s.inTransaction = true
  · obtain ⟨j, hst⟩ := h.stage ht
    rw [if_neg (by simp [ht]), if_neg (by simp [Pager.core, ht]), core_find]
    cases hf : s.findSavepoint name with
    | nil => exact ⟨h, rfl⟩
    | cons sp rest =>
      obtain ⟨hrec, hnum⟩ := hn ht sp rest hf
      have hreplay : s.replayTo sp.journalOffset = s := by
        unfold replayTo
        cases hj : s.disk.journal with
        | none => rfl
        | some js =>
          refine if_neg fun hlt => ?_
          have hlen := congrArg List.length hrec
          simp [replayed, journalRecords, hj] at hlen
          omega
      simp only [hreplay]
      rw [if_neg fun hc => by omega]
      have hs : ({ s with numPages := sp.numPagesAtSavepoint } : Pager B) = s := by rw [← hnum]
      rw [hs]
      exact ⟨h.restack hst, rfl⟩
  · have ht : s.inTransaction = false := by simpa using ht
    rw [if_pos ht, if_pos (show s.core.inTransaction = false from ht)]
    exact ⟨h, rfl⟩

/-! ## Committing -/

theorem Solo.hasWrites_iff (h : Solo mode s) : s.hasWrites = true ↔ ∃ p, (s.shadowPages.slot p).isSome = true := by
  unfold hasWrites
  rw [Bool.or_eq_true, Slots.any_iff, decide_eq_true_iff]
  simp only [← Option.isSome_iff_exists]
  exact ⟨fun hw => hw.elim id h.dirty, Or.inl⟩

/-- The stamp of the core. -/
theorem Solo.stamped (h : Solo mode s) {t : Pager B} (hst : Stamped s t) : s.core.stamp.shadow = t.shadowPages.slot ∧
    s.core.stamp.numPages = t.numPages ∧ ∀ q, s.core.stamp.base q = (t.pages.slot q).getD Page.zero := by
  have hreach := h.reach 0
  have hsh := hst.shadow
  have hsl := hst.slot
  have hn := hst.numPages
  rw [hreach] at hn
  unfold Core.stamp Core.modify
  by_cases hs : s.Shadowed 0
  · rw [if_pos (shadowed_iff.mp hs)]
    refine ⟨funext fun q => ?_, hn.symm, fun q => ?_⟩
    · rw [hsh]
      simp only [hs, and_true]
      rfl
    · rw [hsl, if_pos hs]
      by_cases hq : q = 0
      · rw [if_pos hq, hq]
        rfl
      · rw [if_neg hq]
        exact h.base q
  · rw [if_neg fun hn => hs (shadowed_iff.mpr hn)]
    refine ⟨funext fun q => ?_, hn.symm, fun q => ?_⟩
    · rw [hsh, if_neg fun hq => hs hq.2]
      rfl
    · rw [hsl, if_neg hs]
      by_cases hq : q = 0
      · rw [if_pos hq, hq]
        rfl
      · rw [if_neg hq, ← h.base q]
        exact if_neg hq

omit [PageBody B] in
theorem stamp_same (c : Core B) : ∃ b sh n, c.stamp = { c with
    base := b, shadow := sh, numPages := n, walLsn := c.walLsn + 1 } := by
  unfold Core.stamp Core.modify
  split
  · exact ⟨_, _, _, rfl⟩
  · exact ⟨_, _, _, rfl⟩

/-- What a commit without a log leaves of a page in the main file. -/
theorem Published.mainPage {t : Pager B} (h : Published t s') (hu : t.useWal = false) (q : Nat) :
    s'.mainPage q =
      if t.isMemory = false ∧ q ∈ t.dirtyPages then (t.flushBuf q).getD (t.mainPage q) else t.mainPage q := by
  obtain ⟨t', hf, hmain, -⟩ := h.flush
  have hq := read_flushed t t.dirtyPages q
  unfold Pager.mainPage at hq ⊢
  rw [hmain, hf.main]
  by_cases hm : t.isMemory = false
  · rw [if_pos ⟨hm, hu⟩]
    simp only [hm, true_and]
    exact hq
  · rw [if_neg fun hn => hm hn.1, if_neg fun hn => hm hn.1]

/-- A commit does not write past the pages there are. -/
theorem Published.length_le {t : Pager B} (h : Published t s') (hle : t.disk.main.length ≤ t.numPages) :
    s'.disk.main.length ≤ t.numPages := by
  obtain ⟨t', hf, hmain, -⟩ := h.flush
  rw [hmain, hf.main]
  split
  · exact le_trans (BlockFile.length_writeAll_le Page.zero t.disk.main (t.flushed t.dirtyPages) t.numPages fun e he =>
      (mem_dirtyPages.mp (mem_flushed he).1).1) (max_le hle le_rfl)
  · exact hle

/-- A commit moves `file_length` with the file. -/
theorem publish_length {t : Pager B} (hm : t.isMemory = false) (hu : t.useWal = false)
    (hs : t.filePages = t.disk.main.length) (hn : t.numPages < fileLengthWrap) :
    t.publish.filePages = t.publish.disk.main.length := by
  have hfl := foldl_flush_length hm hu hs t.dirtyPages fun q hq => by
    have hqn := (mem_dirtyPages.mp hq).1
    omega
  rw [← flushDirty_eq] at hfl
  exact hfl

/-- A transaction with writes. -/
theorem Solo.published (h : Solo mode s) (hfit : Fits s) (hst : Stage s j) (hw : s.hasWrites = true)
    (hc : s.pagerCommit = some s') : Answers mode s' s.core.commit := by
  obtain ⟨hsole, ht⟩ := hst.sole
  have hidle := (hst.commit h.cached h.backed h.memory hc).1
  obtain ⟨t, hstamp, rfl⟩ := commit_publish hsole ht hw hc
  obtain ⟨hcshadow, hcnum, hcbase⟩ := h.stamped hstamp
  have hbuf : ∀ q x, t.flushBuf q = some x → x = if q = 0 then (s.view 0).setLsn (s.walLsn + 1) else s.view q :=
    fun q x => hstamp.flushBuf ht h.noShadow
  have hsame : t.isMemory = s.isMemory ∧ t.useWal = s.useWal ∧ t.walOpen = s.walOpen ∧ t.disk = s.disk ∧
      t.filePages = s.filePages ∧ t.walLsn = s.walLsn + 1 ∧ t.currentCommitLsn = s.walLsn + 1 := by
    obtain ⟨_, _, _, _, _, rfl⟩ := hstamp.same
    exact ⟨rfl, rfl, rfl, rfl, rfl, rfl, rfl⟩
  obtain ⟨hm, hu, ho, hd, hfp, hl, hcl⟩ := hsame
  have hpub : Published t t.publish := publish_published (by omega)
  have hslot := hpub.slot
  obtain ⟨t', hf, -, hwal, -, hopen, -⟩ := hpub.flush
  have hplain := h.plain
  have hwalSame : t.publish.useWal = s.useWal ∧ t.publish.walOpen = s.walOpen ∧ t.publish.disk.wal = s.disk.wal := by
    refine ⟨?_, ?_, ?_⟩
    · obtain ⟨_, _, _, _, _, _, _, he⟩ := hpub.same
      rw [he]
      exact hu
    · rw [hopen, hf.walShut (hu.trans hplain.1), ho]
    · rw [hwal, hf.wal, if_neg fun hn => by simp [hu, hplain.1] at hn, hd]
  have hnum : s.numPages ≤ t.publish.numPages ∧ t.publish.numPages = t.numPages ∧ t.numPages = max s.numPages 1 := by
    have hn := hstamp.numPages
    rw [h.reach] at hn
    obtain ⟨_, _, _, _, _, _, _, he⟩ := hpub.same
    rw [he]
    exact ⟨by rw [hn]; exact le_max_left _ _, rfl, hn⟩
  have hmain : ∀ q, t.mainPage q = s.mainPage q := fun q => by
    unfold mainPage
    rw [hd]
  have hread : ∀ q, t.publish.mainPage q =
      if t.isMemory = false ∧ q ∈ t.dirtyPages then (t.flushBuf q).getD (s.mainPage q) else s.mainPage q := by
    intro q
    rw [hpub.mainPage (hu.trans hplain.1), hmain]
  have hlen : t.publish.isMemory = false → t.publish.filePages = t.publish.disk.main.length := by
    intro hpm
    have htm : t.isMemory = false := by
      obtain ⟨_, _, _, _, _, _, _, he⟩ := hpub.same
      rw [he] at hpm
      exact hpm
    have hn := (hfit (hm.symm.trans htm)).2
    have hone : 1 < fileLengthWrap := by decide
    exact publish_length htm (hu.trans hplain.1) (by rw [hfp, hd]; exact h.length (hm.symm.trans htm)) (by omega)
  have hle : t.publish.disk.main.length ≤ t.publish.numPages := by
    rw [hnum.2.1]
    refine hpub.length_le ?_
    rw [hd, ← hnum.2.1]
    exact le_trans h.within hnum.1
  have hwalLsn : t.publish.walLsn = s.walLsn + 1 := by
    obtain ⟨_, _, _, _, _, _, _, he⟩ := hpub.same
    rw [he]
    exact hl
  have hempty : ∀ q, t.publish.shadowPages.slot q = none := by
    obtain ⟨_, _, _, _, _, _, _, he⟩ := hpub.same
    rw [he]
    exact fun _ => rfl
  have hbuf0 : ∀ x, t.flushBuf 0 = some x → x.lsn = s.walLsn + 1 := by
    intro x hx
    rw [hbuf 0 x hx, if_pos rfl]
    rfl
  have hsolo : Solo mode t.publish := by
    refine ⟨?_, Or.inr hidle, ?_, ?_, hidle.memory, hidle.cached, fun q hq => ?_, fun q hq => ?_, hlen, fun hpm => ?_, hle,
      fun x hx => ?_, fun x hx => ?_, ?_, fun hne => ?_⟩
    · obtain ⟨_, _, _, _, _, _, _, he⟩ := hpub.same
      rw [he]
      exact hm.trans h.mode
    · obtain ⟨_, _, _, _, _, _, _, he⟩ := hpub.same
      obtain ⟨_, _, _, _, _, hte⟩ := hstamp.same
      rw [he, hte]
      exact h.readers
    · rw [hwalSame.1, hwalSame.2.1, hwalSame.2.2]
      exact hplain
    · rw [hempty] at hq
      cases hq
    · rw [hslot] at hq
      have hnone : t.pages.slot q = none := by
        unfold flushBuf at hq
        cases hsh : t.shadowPages.slot q with
        | some y =>
          rw [hsh] at hq
          cases hq
        | none =>
          rw [hsh] at hq
          exact hq
      rw [hstamp.slot] at hnone
      split at hnone
      · cases hnone
      · rw [hread, hq, Option.getD_none, ite_self]
        exact h.blank q hnone
    · have hsm : s.isMemory = false := by
        obtain ⟨_, _, _, _, _, _, _, he⟩ := hpub.same
        rw [he] at hpm
        exact hm.symm.trans hpm
      have hn := (hfit hsm).2
      have hone : 1 < fileLengthWrap := by decide
      omega
    · rw [hslot] at hx
      rw [hwalLsn, hbuf0 x hx]
    · rw [hempty] at hx
      cases hx
    · rw [hwalLsn, hread]
      have hfile := h.fileLsn
      split
      · cases hb : t.flushBuf 0 with
        | some x => exact le_of_eq (hbuf0 x hb)
        | none => exact le_trans hfile (Nat.le_succ _)
      · exact le_trans hfile (Nat.le_succ _)
    · obtain ⟨_, _, _, _, _, _, _, he⟩ := hpub.same
      rw [he] at hne
      exact absurd rfl hne
  refine ⟨hsolo, ?_⟩
  have hbase : t.publish.base = fun q => (s.core.stamp.shadow q).getD (s.core.stamp.base q) := by
    funext q
    rw [hsolo.base, hslot, hcshadow, hcbase, flushBuf]
    cases t.shadowPages.slot q with
    | some x => rfl
    | none => rfl
  have hcore : s.core.commit =
      { s.core.settle with base := t.publish.base, numPages := t.numPages, walLsn := s.walLsn + 1 } := by
    unfold Core.commit
    rw [if_neg (by simp [Pager.core, ht]), if_pos (show ∃ q, (s.core.shadow q).isSome = true from h.hasWrites_iff.mp hw), ← hbase]
    obtain ⟨b, sh, n, hsame⟩ := stamp_same s.core
    rw [hsame] at hcnum ⊢
    rw [← hcnum]
    rfl
  have hfields : t.publish.numPagesAtTxStart = s.numPagesAtTxStart ∧ t.publish.freelistHead = s.freelistHead ∧
      t.publish.reservedCatalogPages = s.reservedCatalogPages ∧ t.publish.inTransaction = false ∧
      t.publish.isWriter = false ∧ t.publish.savepoints = s.savepoints := by
    obtain ⟨_, _, _, _, _, _, _, he⟩ := hpub.same
    obtain ⟨_, _, _, _, _, hte⟩ := hstamp.same
    rw [he, hte]
    exact ⟨rfl, rfl, rfl, rfl, rfl, rfl⟩
  obtain ⟨hstart, hhead, hres, htx, hwr, hsps⟩ := hfields
  rw [hcore]
  exact Core.ext rfl (funext hempty) hnum.2.1 hstart hhead hres hwalLsn htx hwr
    (by simp only [Pager.core, Core.settle, hsps])

/-- A transaction without writes. -/
theorem Solo.closed (h : Solo mode s) (hst : Stage s j) (hw : s.hasWrites = false) (hc : s.pagerCommit = some s') :
    Answers mode s' s.core.commit := by
  obtain ⟨-, ht⟩ := hst.sole
  have hidle := (hst.commit h.cached h.backed h.memory hc).1
  have hnone : ∀ q, s.shadowPages.slot q = none := fun q => by
    by_contra hq
    have := h.hasWrites_iff.mpr ⟨q, Option.isSome_iff_ne_none.mpr hq⟩
    rw [hw] at this
    cases this
  rw [commit_readOnly ht hw] at hc
  have hcore : s.core.commit = s.core.settle := by
    unfold Core.commit
    rw [if_neg (by simp [Pager.core, ht]), if_neg]
    rintro ⟨q, hq⟩
    rw [show s.core.shadow q = none from hnone q] at hq
    cases hq
  have hshadow : s.shadowPages.slot = fun _ => none := funext hnone
  rw [hcore]
  by_cases hp : s.journalPos.isSome = true
  · rw [if_pos hp] at hc
    obtain rfl := Option.some.inj hc
    refine ⟨⟨h.mode, Or.inr hidle, h.readers, h.plain, h.memory, h.cached, h.backed, h.blank, h.length, h.short, h.within, h.slotLsn, h.shadowLsn,
      h.fileLsn, fun hne => absurd rfl hne⟩, ?_⟩
    unfold Core.settle
    rw [← hshadow]
    rfl
  · rw [if_neg hp] at hc
    obtain rfl := Option.some.inj hc
    refine ⟨⟨h.mode, Or.inr hidle, h.readers, h.plain, h.memory, h.cached, h.backed, h.blank, h.length, h.short, h.within, h.slotLsn, h.shadowLsn,
      h.fileLsn, fun hne => absurd rfl hne⟩, ?_⟩
    unfold Core.settle
    rw [← hshadow]
    rfl

theorem Solo.commit (h : Solo mode s) (hfit : Fits s) (hc : s.pagerCommit = some s') : Answers mode s' s.core.commit := by
  by_cases ht : s.inTransaction = true
  · obtain ⟨j, hst⟩ := h.stage ht
    by_cases hw : s.hasWrites = true
    · exact h.published hfit hst hw hc
    · exact h.closed hst (by simpa using hw) hc
  · have ht : s.inTransaction = false := by simpa using ht
    have he : s.pagerCommit = some s := if_pos ht
    have hcore : s.core.commit = s.core := if_pos ht
    obtain rfl := Option.some.inj (he.symm.trans hc)
    rw [hcore]
    exact ⟨h, rfl⟩

/-! ## Rolling back -/

/-- A page that stays is in the cache what it was, where the journal has what the transaction found. -/
theorem Solo.undone_kept (h : Solo mode s) (hr : RolledBack s s')
    (hwas : ∀ q y, s.journalRecords.reverse.lookup q = some y → ¬ (s.Grew ∧ s.numPagesAtTxStart ≤ q) → y = s.base q)
    {q : Nat} (hq : ¬ (s.Grew ∧ s.numPagesAtTxStart ≤ q)) : s'.pages.slot q = s.pages.slot q := by
  rw [hr.slot, if_neg fun hcut => hq ⟨hcut.1, hcut.2.1⟩, Slots.slot_overwriteAll]
  cases hs : s.pages.slot q with
  | none => rfl
  | some x =>
    cases hl : s.journalRecords.reverse.lookup q with
    | none => rfl
    | some y =>
      have hb := h.base q
      rw [hs] at hb
      exact congrArg some ((hwas q y hl hq).trans hb)

/-- A page the transaction added is not in the cache any more. -/
theorem Solo.undone_cut (h : Solo mode s) (hr : RolledBack s s') {q : Nat} (hg : s.Grew)
    (hq : s.numPagesAtTxStart ≤ q) : s'.pages.slot q = none := by
  rw [hr.slot]
  split
  · rfl
  · next hlt =>
    have hs : s.pages.slot q = none := by
      by_contra hs
      obtain ⟨x, hx⟩ := Option.ne_none_iff_exists'.mp hs
      exact hlt ⟨hg, hq, h.cached q x hx⟩
    rw [Slots.slot_overwriteAll, hs]
    rfl

/-- The main file after a rollback is what the journal restored, cut off where the transaction began. -/
theorem RolledBack.mainPage (hr : RolledBack s s')
    (hwrap : s.Grew → s.isMemory = false → s.numPagesAtTxStart % fileLengthWrap = s.numPagesAtTxStart) (q : Nat) :
    s'.mainPage q = if s.Grew ∧ s.isMemory = false ∧ ¬ q < s.numPagesAtTxStart then Page.zero else
      BlockFile.read Page.zero (recoverMain s.disk.main s.journalRecords) q := by
  unfold Pager.mainPage
  rw [hr.main]
  by_cases hg : s.Grew ∧ s.isMemory = false
  · rw [if_pos hg, BlockFile.read_truncate, hwrap hg.1 hg.2]
    by_cases hq : q < s.numPagesAtTxStart
    · rw [if_pos hq, if_neg fun hk => hk.2.2 hq]
    · rw [if_neg hq, if_pos ⟨hg.1, hg.2, hq⟩]
  · rw [if_neg hg, if_neg fun hk => hg ⟨hk.1, hk.2.1⟩]

theorem Solo.undone (h : Solo mode s) (hfit : Fits s) (hst : Stage s j) (hc : s.pagerRollback = some s')
    (hn : ∀ e ∈ s.journalRecords, ¬ (s.Grew ∧ s.numPagesAtTxStart ≤ e.1) → e.1 < s.disk.main.length ∧ e.2 = s.base e.1) :
    Answers mode s' s.core.rollback := by
  have ht := hst.sole.2
  have hr := rollback_rolledBack ht hc
  have hidle := (hst.rollback h.cached h.memory hr).1
  have hmain := hr.main
  have hnum := hr.numPages
  have hfp := hr.filePages
  have hwas : ∀ q y, s.journalRecords.reverse.lookup q = some y → ¬ (s.Grew ∧ s.numPagesAtTxStart ≤ q) → y = s.base q :=
    fun q y hl hq => (hn (q, y) (List.mem_reverse.mp (Lib.Overlay.mem_of_lookup hl)) hq).2
  have hkept : ∀ q, ¬ (s.Grew ∧ s.numPagesAtTxStart ≤ q) → s'.pages.slot q = s.pages.slot q :=
    fun q hq => h.undone_kept hr hwas hq
  have hfile : ∀ q, ¬ (s.Grew ∧ s.numPagesAtTxStart ≤ q) →
      BlockFile.read Page.zero (recoverMain s.disk.main s.journalRecords) q = s.base q ∨
      BlockFile.read Page.zero (recoverMain s.disk.main s.journalRecords) q = s.mainPage q := by
    intro q hq
    unfold recoverMain
    rw [BlockFile.read_writeAll]
    cases hl : s.journalRecords.reverse.lookup q with
    | none => exact Or.inr rfl
    | some y => exact Or.inl (hwas q y hl hq)
  have hgrown : s.isMemory = false → s.numPagesAtTxStart < s.numPages →
      s.numPagesAtTxStart % fileLengthWrap = s.numPagesAtTxStart := fun hm hlt =>
    Nat.mod_eq_of_lt (lt_trans hlt (hfit hm).2)
  have hlength : ¬ s.Grew → (recoverMain s.disk.main s.journalRecords).length = s.disk.main.length := by
    intro hg
    have hle := BlockFile.length_writeAll_le Page.zero s.disk.main s.journalRecords s.disk.main.length fun e he =>
      (hn e he fun hk => hg hk.1).1
    have hge := BlockFile.length_writeAll_ge Page.zero s.disk.main s.journalRecords
    unfold recoverMain
    omega
  have hread := fun q => hr.mainPage (fun hg hm => hgrown hm hg.2) q
  have hmem : s'.isMemory = s.isMemory := by
    obtain ⟨_, _, _, _, _, _, _, he⟩ := hr.same
    rw [he]
  have hlsn : s'.walLsn = s.walLsn := by
    obtain ⟨_, _, _, _, _, _, _, he⟩ := hr.same
    rw [he]
  have hempty : ∀ q, s'.shadowPages.slot q = none := by
    obtain ⟨_, _, _, _, _, _, _, he⟩ := hr.same
    rw [he]
    exact fun _ => rfl
  have hzero : ¬ (s.Grew ∧ s.numPagesAtTxStart ≤ 0) := fun hk => by
    have := hk.1.1
    omega
  have hle : s'.isMemory = false → s'.disk.main.length = s'.filePages ∧ s'.disk.main.length ≤ s'.numPages ∧
      s'.numPages ≤ s.numPages := by
    intro hm
    have hm : s.isMemory = false := hmem.symm.trans hm
    rw [hmain, hfp, hnum]
    by_cases hg : s.Grew
    · rw [if_pos ⟨hg, hm⟩, if_pos hg, if_pos hg, BlockFile.length_truncate, hgrown hm hg.2]
      exact ⟨rfl, le_refl _, le_of_lt hg.2⟩
    · rw [if_neg fun hk => hg hk.1, if_neg hg, if_neg hg, hlength hg]
      exact ⟨(h.length hm).symm, h.within, le_refl _⟩
  have hsolo : Solo mode s' := by
    refine ⟨hmem.trans h.mode, Or.inr hidle, ?_, ?_, hidle.memory, hidle.cached, fun q hq => ?_, fun q hq => ?_, fun hm => (hle hm).1.symm,
      fun hm => ?_, ?_, fun x hx => ?_, fun x hx => ?_, ?_, fun hne => ?_⟩
    · obtain ⟨_, _, _, _, _, _, _, he⟩ := hr.same
      rw [he]
      exact h.readers
    · obtain ⟨_, _, _, _, _, _, _, he⟩ := hr.same
      rw [he]
      exact h.plain
    · rw [hempty] at hq
      cases hq
    · by_cases hk : s.Grew ∧ s.numPagesAtTxStart ≤ q
      · by_cases hm : s'.isMemory = true
        · exact BlockFile.read_eq_filler _ _ (by rw [hidle.memory hm]; exact Nat.zero_le _)
        · have hm : s.isMemory = false := hmem.symm.trans (by simpa using hm)
          rw [hread, if_pos ⟨hk.1, hm, by omega⟩]
      · rw [hkept q hk] at hq
        rw [hread]
        split
        · rfl
        · rcases hfile q hk with he | he
          · rw [he, h.base, hq]
            rfl
          · rw [he]
            exact h.blank q hq
    · have hlt := (hle hm).2
      have hfits := (hfit (hmem.symm.trans hm)).2
      omega
    · by_cases hm : s'.isMemory = true
      · rw [hidle.memory hm]
        exact Nat.zero_le _
      · exact (hle (by simpa using hm)).2.1
    · rw [hkept 0 hzero] at hx
      rw [hlsn]
      exact h.slotLsn x hx
    · rw [hempty] at hx
      cases hx
    · rw [hlsn, hread]
      split
      · exact Nat.zero_le _
      · rcases hfile 0 hzero with he | he
        · rw [he]
          exact h.baseLsn
        · rw [he]
          exact h.fileLsn
    · obtain ⟨_, _, _, _, _, _, _, he⟩ := hr.same
      rw [he] at hne
      exact absurd rfl hne
  have hbase : ∀ q, s'.base q = if s.Grew ∧ s.numPagesAtTxStart ≤ q then Page.zero else s.base q := by
    intro q
    rw [hsolo.base]
    split
    · next hk => rw [h.undone_cut hr hk.1 hk.2, Option.getD_none]
    · next hk => rw [hkept q hk, ← h.base]
  have hfields : s'.numPagesAtTxStart = s.numPagesAtTxStart ∧ s'.freelistHead = s.freelistHead ∧
      s'.reservedCatalogPages = s.reservedCatalogPages ∧ s'.inTransaction = false ∧ s'.isWriter = false ∧ s'.savepoints = [] := by
    obtain ⟨_, _, _, _, _, _, _, he⟩ := hr.same
    rw [he]
    exact ⟨rfl, rfl, rfl, rfl, rfl, rfl⟩
  obtain ⟨hstart, hhead, hres, htx, hwr, hsps⟩ := hfields
  refine ⟨hsolo, ?_⟩
  unfold Core.rollback
  rw [if_neg (by simp [Pager.core, ht])]
  by_cases hg : s.Grew
  · rw [if_pos (show 0 < s.core.numPagesAtTxStart ∧ s.core.numPagesAtTxStart < s.core.numPages from hg)]
    rw [if_pos hg] at hnum
    refine Core.ext (funext fun q => ?_) (funext hempty) hnum hstart hhead hres hlsn htx hwr (by rw [Pager.core, hsps]; rfl)
    have hq := hbase q
    simp only [hg, true_and] at hq
    exact hq
  · rw [if_neg (show ¬ (0 < s.core.numPagesAtTxStart ∧ s.core.numPagesAtTxStart < s.core.numPages) from hg)]
    rw [if_neg hg] at hnum
    refine Core.ext (funext fun q => ?_) (funext hempty) hnum hstart hhead hres hlsn htx hwr (by rw [Pager.core, hsps]; rfl)
    exact (hbase q).trans (if_neg fun hk => hg hk.1)

theorem Solo.rollback (h : Solo mode s) (hfit : Fits s) (hc : s.pagerRollback = some s')
    (hn : s.inTransaction = true → ∀ e ∈ s.journalRecords,
      ¬ (s.Grew ∧ s.numPagesAtTxStart ≤ e.1) → e.1 < s.disk.main.length ∧ e.2 = s.base e.1) :
    Answers mode s' s.core.rollback := by
  by_cases ht : s.inTransaction = true
  · obtain ⟨j, hst⟩ := h.stage ht
    exact h.undone hfit hst hc (hn ht)
  · have ht : s.inTransaction = false := by simpa using ht
    have he : s.pagerRollback = some s := if_pos ht
    have hcore : s.core.rollback = s.core := if_pos ht
    obtain rfl := Option.some.inj (he.symm.trans hc)
    rw [hcore]
    exact ⟨h, rfl⟩

/-! ## Requests -/

/-- No reader is in the way of the exclusive lock. -/
theorem Solo.exclusive (h : Solo mode s) : (s.pagerLock .exclusive).1 = true := by
  have hsole : Sole s := by
    rcases h.phase with ⟨j, hst⟩ | hi
    · exact hst.sole.1
    · exact hi.toSole
  unfold pagerLock
  split
  · rfl
  · simp only [h.readers, hsole.sharedWrite, hsole.reserved, hsole.pending, Bool.or_false, climb_free]

theorem Solo.returns (h : Solo mode s) (r : Request B) : ∃ s', s.serve r = some s' := by
  cases r with
  | commit =>
    change ∃ s', s.pagerCommit = some s'
    unfold pagerCommit
    split
    · exact ⟨_, rfl⟩
    · split
      · exact ⟨_, rfl⟩
      · have hlock := h.exclusive
        rw [if_neg (by simp [h.plain.1])]
        generalize s.pagerLock .exclusive = r at hlock
        obtain ⟨b, t⟩ := r
        obtain rfl : b = true := hlock
        exact ⟨_, rfl⟩
  | rollback =>
    change ∃ s', s.pagerRollback = some s'
    unfold pagerRollback
    split
    · exact ⟨_, rfl⟩
    · dsimp only
      rw [if_neg (by simp [h.exclusive])]
      exact ⟨_, rfl⟩
  | _ => exact ⟨_, rfl⟩

theorem Solo.act (h : Solo mode s) {a : PageAct B} (hok : s.NothingToUndo (.act a)) : Answers mode (s.act a) (s.core.act a) := by
  obtain ⟨hfit, hok⟩ := hok
  cases a with
  | ensure =>
    obtain ⟨s₁, j, he, -, ha⟩ := h.ensure hfit hok.1 hok.2
    rw [Pager.act, he]
    exact ha
  | shadow p => exact (h.shadow hfit hok p).1
  | journal p => exact (h.shadow hfit hok p).2
  | modify p f =>
    refine h.modify fun hp => ?_
    rw [hok hp]
    exact h.viewLsn
  | read p => exact h.getPage p
  | alloc => exact h.alloc
  | free p => exact h.free p
  | trailer =>
    exact h.modify (p := 0) (f := fun x => { x with freelistHead := s.freelistHead, lsn := s.walLsn }) fun _ => le_refl s.walLsn
  | reserve k =>
    refine ⟨⟨h.mode, ?_, h.readers, h.plain, h.memory, h.cached, h.backed, h.blank, h.length, h.short, h.within, h.slotLsn,
      h.shadowLsn, h.fileLsn, h.dirty⟩, rfl⟩
    rcases h.phase with ⟨j, ⟨hr, rfl⟩ | hw⟩ | hi
    · exact Or.inl ⟨[], Or.inl ⟨⟨hr.toSole.congr rfl rfl, hr.inTx, hr.notWriter, hr.noJournal, hr.noFile, hr.noShadow,
        hr.unmarked, hr.lock⟩, rfl⟩⟩
    · exact Or.inl ⟨j, Or.inr (hw.congr rfl rfl rfl rfl rfl rfl rfl fun _ => rfl)⟩
    · exact Or.inr ⟨hi.toSole.congr rfl rfl, hi.notInTx, hi.noJournal, hi.noFile, hi.noShadow, hi.unmarked, hi.lock, hi.cached, hi.memory⟩
  | flush =>
    rw [Pager.act, if_neg (by simp [h.plain.1])]
    exact h.flush hfit

/-- With nothing to undo, a request does to the core what it does to the core alone, in both modes. -/
theorem Solo.serve (h : Solo mode s) {r : Request B} (hok : s.NothingToUndo r) :
    ∃ s', s.serve r = some s' ∧ Answers mode s' (s.core.step r) := by
  obtain ⟨s', hs⟩ := h.returns r
  refine ⟨s', hs, ?_⟩
  cases r with
  | begin =>
    obtain rfl := Option.some.inj hs
    exact h.begin
  | act a =>
    obtain rfl := Option.some.inj hs
    exact h.act hok
  | savepoint name =>
    obtain rfl := Option.some.inj hs
    exact h.savepoint name
  | rollbackTo name =>
    obtain rfl := Option.some.inj hs
    exact h.rollbackTo name hok.2
  | release name =>
    obtain rfl := Option.some.inj hs
    exact h.release name
  | commit => exact h.commit hok.1 hs
  | rollback => exact h.rollback hok.1 hs hok.2

/-- A memory database has no journal: what a database file allows, it allows. -/
theorem NothingToUndo.inMemory {m : Pager B} {r : Request B} (h : s.NothingToUndo r) (hs : Solo true m)
    (hc : m.core = s.core) : m.NothingToUndo r := by
  have hm := hs.mode
  have hfile : ∀ {P : Prop}, m.isMemory = false → P := fun hn => by simp [hm] at hn
  have htx : m.inTransaction = s.inTransaction := congrArg Core.inTransaction hc
  have hrec : m.inTransaction = true → m.journalRecords = [] := by
    intro ht
    obtain ⟨j, hst⟩ := hs.stage ht
    rw [hst.records]
    rcases hst with ⟨-, rfl⟩ | hw
    · rfl
    · exact (hw.inMemory hm).2
  refine ⟨fun hn => hfile hn, ?_⟩
  cases r with
  | act a =>
    cases a with
    | ensure => exact ⟨htx.trans h.2.1, fun hn => hfile hn⟩
    | shadow p => exact fun _ hn => hfile hn
    | journal p => exact fun _ hn => hfile hn
    | modify p f => exact h.2
    | _ => trivial
  | rollback =>
    intro ht e he
    rw [hrec ht] at he
    exact absurd he List.not_mem_nil
  | rollbackTo name =>
    intro ht sp rest hf
    refine ⟨by rw [replayed, hrec ht, List.drop_nil, List.reverse_nil], ?_⟩
    have hfind := (core_find m name).symm.trans ((congrArg _ (congrArg Core.savepoints hc)).trans (core_find s name))
    rw [hf] at hfind
    cases hfs : s.findSavepoint name with
    | nil =>
      rw [hfs] at hfind
      cases hfind
    | cons sp' rest' =>
      rw [hfs] at hfind
      have hnum := (h.2 (htx.symm.trans ht) sp' rest' hfs).2
      have hsp : sp.numPagesAtSavepoint = sp'.numPagesAtSavepoint := (Prod.mk.inj (List.cons.inj hfind).1).2
      have hn : m.numPages = s.numPages := congrArg Core.numPages hc
      omega
  | _ => trivial

/-! ## Sessions -/

/-- What the executor asks for next, from all it has seen of its pager, the latest first. -/
abbrev Executor (B : Type) := List (Core B) → Request B

/-- The pager after `n` requests, and what the executor saw before each; `none` when the pager exits. -/
def session (E : Executor B) (s : Pager B) : Nat → Option (Pager B × List (Core B))
  | 0 => some (s, [])
  | n + 1 => (session E s n).bind fun r => (r.1.serve (E (r.1.core :: r.2))).map fun u => (u, r.1.core :: r.2)

/-- The only connection to a new database file, with the pages that `catalog_load` reserves. -/
def openFresh (clock : Nat) : Pager B :=
  { (pagerOpen ⟨[], none, none⟩ ByteLocks.none .free clock : Pager B) with
    reservedCatalogPages := catalogGetReservedPages 0 }

/-- After `n` requests neither pager has exited, the executor has seen the same on both, and every page shows the
same. -/
def SameSession (E : Executor B) (s t : Pager B) (n : Nat) : Prop :=
  ∃ s' t' seen, session E s n = some (s', seen) ∧ session E t n = some (t', seen) ∧ s'.core = t'.core ∧
    ∀ p, s'.view p = t'.view p

theorem Solo.opened {d : Disk B} (hm : d.main = []) (hj : d.journal = none) (hwal : d.wal = none) {mode : Bool}
    {jp : Option Nat} (hjp : mode = false → jp = none) (clock k : Nat) :
    Solo mode ({ (pagerOpen d ByteLocks.none .free clock : Pager B) with
      isMemory := mode, journalPos := jp, reservedCatalogPages := k } : Pager B) := by
  obtain ⟨main, journal, wal⟩ := d
  obtain rfl : main = [] := hm
  obtain rfl : journal = none := hj
  obtain rfl : wal = none := hwal
  refine ⟨rfl, Or.inr ⟨⟨rfl, rfl, rfl, fun _ he => ?_⟩, rfl, hjp, rfl, fun _ => rfl, rfl, fun _ => Nat.zero_lt_two, fun q x hx => ?_,
    fun _ => rfl⟩, rfl, ⟨rfl, rfl, rfl⟩, fun _ => rfl, fun q x hx => ?_, fun q hq => ?_, fun q _ => ?_, fun _ => rfl, fun _ => ?_,
    Nat.zero_le _, fun x hx => ?_, fun x hx => ?_, Nat.zero_le _, fun hne => absurd rfl hne⟩
  · cases he
  · cases hx
  · cases hx
  · cases hq
  · exact BlockFile.read_eq_filler _ _ (Nat.zero_le _)
  · change 0 < fileLengthWrap
    decide
  · cases hx
  · cases hx

/-- In every session of one connection in which no undo finds anything to do, a memory database behaves like a
database file. -/
theorem memory_behaves_like_file (E : Executor B) (clock : Nat) (n : Nat)
    (hok : ∀ k < n, ∀ s seen, session E (openFresh clock) k = some (s, seen) → s.NothingToUndo (E (s.core :: seen))) :
    SameSession E (pagerOpenMemory clock) (openFresh clock) n := by
  have key : ∃ s t seen, session E (pagerOpenMemory clock) n = some (s, seen) ∧
      session E (openFresh clock) n = some (t, seen) ∧ Solo true s ∧ Solo false t ∧ s.core = t.core := by
    induction n with
    | zero =>
      refine ⟨_, _, [], rfl, rfl, Solo.opened rfl rfl rfl (fun hm => ?_) clock 33,
        Solo.opened rfl rfl rfl (fun _ => rfl) clock 33, rfl⟩
      cases hm
    | succ n ih =>
      obtain ⟨s, t, seen, hs, ht, hms, hft, hcore⟩ := ih fun k hk => hok k (Nat.lt_succ_of_lt hk)
      have hallow := hok n (Nat.lt_succ_self n) t seen ht
      obtain ⟨t', ht', hft', hct⟩ := hft.serve hallow
      obtain ⟨s', hs', hms', hcs⟩ := hms.serve (hallow.inMemory hms hcore)
      refine ⟨s', t', t.core :: seen, ?_, ?_, hms', hft', ?_⟩
      · unfold session
        rw [hs, Option.bind_some]
        dsimp only
        rw [hcore, hs']
        rfl
      · unfold session
        rw [ht, Option.bind_some]
        dsimp only
        rw [ht']
        rfl
      · rw [hcs, hct, hcore]
  obtain ⟨s, t, seen, hs, ht, -, -, hcore⟩ := key
  exact ⟨s, t, seen, hs, ht, hcore, fun p => by rw [view_core, hcore, view_core]⟩

/-! ## A write after a savepoint -/

/-- An executor that asks for `rs`, one after the other. -/
def script (rs : List (Request Word)) : Executor Word := fun seen => (rs[seen.length - 1]?).getD .begin

/-- `INSERT`, then `SAVEPOINT s`, another `INSERT` and `ROLLBACK TO s`, as the page they write. -/
def undoneWrite : List (Request Word) :=
  [.begin, .act (.journal 0), .act (.modify 0 (putBody 7)), .commit, .savepoint nameS, .act (.journal 0),
    .act (.modify 0 (putBody 8)), .rollbackTo nameS]

/-- The same with `ROLLBACK` of a whole transaction. -/
def rolledBackWrite : List (Request Word) :=
  [.begin, .act (.journal 0), .act (.modify 0 (putBody 7)), .commit, .begin, .act (.journal 0),
    .act (.modify 0 (putBody 8)), .rollback]

theorem memory_behaves_like_file_rolledBack :
    SameSession (script rolledBackWrite) (pagerOpenMemory 1) (openFresh 1) 8 := by
  refine memory_behaves_like_file (script rolledBackWrite) 1 8 fun k hk s seen hs => ?_
  interval_cases k
  all_goals obtain ⟨rfl, rfl⟩ := Prod.mk.inj (Option.some.inj hs)
  · exact ⟨fun _ => by decide, trivial⟩
  · exact ⟨fun _ => by decide, fun _ _ _ => rfl⟩
  · exact ⟨fun _ => by decide, fun _ _ => rfl⟩
  · exact ⟨fun _ => by decide, trivial⟩
  · exact ⟨fun _ => by decide, trivial⟩
  · exact ⟨fun _ => by decide, fun _ _ _ => rfl⟩
  · exact ⟨fun _ => by decide, fun _ _ => rfl⟩
  · exact ⟨fun _ => by decide, fun _ => by decide⟩

/-- A memory database keeps a write that `ROLLBACK TO` undoes in a database file. -/
theorem memory_keeps_undone_write :
    ¬ SameSession (script undoneWrite) (pagerOpenMemory 1) (openFresh 1) 8 := by
  rintro ⟨s, t, seen, hs, ht, -, hview⟩
  have hmemory : (session (script undoneWrite) (pagerOpenMemory 1) 8).map (fun r => r.1.view 0) = some ⟨8, 1, 0⟩ := by rfl
  have hfile : (session (script undoneWrite) (openFresh 1) 8).map (fun r => r.1.view 0) = some ⟨7, 1, 0⟩ := by rfl
  rw [hs] at hmemory
  rw [ht] at hfile
  have h := (Option.some.inj hmemory).symm.trans ((hview 0).trans (Option.some.inj hfile))
  exact absurd h (by decide)

end Pager

end CustomDB
