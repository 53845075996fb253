import CustomDB.Pager.Freelist
import CustomDB.Pager.Savepoint

/-!
# What an access leaves alone

A page that no operation touches keeps showing what it shows, whatever happens to the others. So it suffices to
say of each operation which pages it leaves undisturbed and what it keeps of the transaction.
-/

namespace CustomDB

open Lib

namespace Pager

variable {B : Type} [PageBody B] {s s' s₁ : Pager B} {q p : Nat} {j : List (JournalEntry B)}

/-! ## Undisturbed pages -/

/-- If page `q` is not cached, what is left of the file is what a read finds. -/
def Covered (s : Pager B) (q : Nat) : Prop :=
  (s.pages.slot q).isSome = true ∨ q < s.filePages ∨ s.mainPage q = Page.zero

theorem Covered.readPage (h : Covered s q) (hn : s.pages.slot q = none) : s.readPage q =
    if s.useWal && s.walOpen then ((s.lastFrame q).map Frame.data).getD (s.mainPage q) else s.mainPage q := by
  have hfile : (if q < s.filePages then s.mainPage q else Page.zero) = s.mainPage q := by
    rcases h with h | h | h
    · rw [hn] at h
      cases h
    · exact if_pos h
    · rw [h, ite_self]
  unfold Pager.readPage
  simp only [hfile]
  split
  · cases s.lastFrame q <;> rfl
  · rfl

/-- A covered page has the same base in two states that agree on it in the cache and in the files. -/
theorem Covered.base_eq (h : Covered s q) (h' : Covered s' q) (hslot : s'.pages.slot q = s.pages.slot q)
    (hmain : s.pages.slot q = none → s'.mainPage q = s.mainPage q)
    (hwal : s'.disk.wal = s.disk.wal ∧ s'.useWal = s.useWal ∧ s'.walOpen = s.walOpen) : s'.base q = s.base q := by
  have hframe : s'.lastFrame q = s.lastFrame q := by rw [lastFrame, hwal.1, lastFrame]
  unfold Pager.base
  rw [hslot]
  cases hq : s.pages.slot q with
  | some x => rfl
  | none => rw [Option.getD_none, Option.getD_none, h'.readPage (hslot.trans hq), h.readPage hq, hmain hq, hframe, hwal.2.1, hwal.2.2]

/-- A step that leaves page `q` alone: it shows what it showed, and is neither captured nor recorded. -/
structure Undisturbed (q : Nat) (s s' : Pager B) : Prop where
  view : Covered s q → s'.view q = s.view q
  covered : Covered s q → Covered s' q
  shadow : s.shadowPages.slot q = none → s'.shadowPages.slot q = none
  records : ∀ k, s.Unrecorded k q → s'.Unrecorded k q

theorem Undisturbed.trans (h : Undisturbed q s s₁) (h' : Undisturbed q s₁ s') : Undisturbed q s s' :=
  ⟨fun hc => (h'.view (h.covered hc)).trans (h.view hc), fun hc => h'.covered (h.covered hc),
    fun hs => h'.shadow (h.shadow hs), fun k hr => h'.records k (h.records k hr)⟩

/-- A pager whose cache the next access keeps. -/
def Ready (s : Pager B) : Prop := (∃ j, Stage s j) ∨ Idle s ∧ AsLeft s

/-- What an access to pages keeps of the transaction. -/
structure Works (s s' : Pager B) : Prop where
  stage : (∃ j, Stage s j) → ∃ j, Stage s' j
  idle : Idle s ∧ AsLeft s → Idle s' ∧ AsLeft s'
  numPages : s.numPages ≤ s'.numPages
  txStart : ∀ n, n ≤ s.numPagesAtTxStart → n ≤ s.numPages → n ≤ s'.numPagesAtTxStart
  cached : (∀ q x, s.pages.slot q = some x → q < s.numPages) → ∀ q x, s'.pages.slot q = some x → q < s'.numPages
  backed : (∀ p, (s.shadowPages.slot p).isSome = true → (s.pages.slot p).isSome = true) →
    ∀ p, (s'.shadowPages.slot p).isSome = true → (s'.pages.slot p).isSome = true
  memory : (s.isMemory = true → s.disk.main = []) → s'.isMemory = true → s'.disk.main = []
  walKnown : WalKnown s → WalKnown s'
  savepoints : s'.savepoints = s.savepoints
  reserved : s'.reservedCatalogPages = s.reservedCatalogPages

theorem Undisturbed.refl (q : Nat) (s : Pager B) : Undisturbed q s s :=
  ⟨fun _ => rfl, fun hc => hc, fun hs => hs, fun _ hr => hr⟩

theorem Works.refl (s : Pager B) : Works s s :=
  ⟨fun hj => hj, fun hi => hi, le_refl _, fun _ hn _ => hn, fun hc => hc, fun hb => hb, fun hm => hm, fun hk => hk, rfl, rfl⟩

theorem Works.trans (h : Works s s₁) (h' : Works s₁ s') : Works s s' where
  stage hj := h'.stage (h.stage hj)
  idle hi := h'.idle (h.idle hi)
  numPages := le_trans h.numPages h'.numPages
  txStart n hn hk := h'.txStart n (h.txStart n hn hk) (le_trans hk h.numPages)
  cached hc := h'.cached (h.cached hc)
  backed hb := h'.backed (h.backed hb)
  memory hm := h'.memory (h.memory hm)
  walKnown hw := h'.walKnown (h.walKnown hw)
  savepoints := h'.savepoints.trans h.savepoints
  reserved := h'.reserved.trans h.reserved

theorem Stage.same (h : Stage s j) (hk : Keeps 0 s s') (hpos : s'.journalPos = s.journalPos) : Stage s' j :=
  h.imp (fun hr => ⟨hr.1.keeps hk, hr.2⟩) fun hw => hw.keeps hk fun _ => hpos

/-- The free-list head is a field of its own. -/
theorem setHead_works (s : Pager B) (k : Nat) : Works s { s with freelistHead := k } where
  stage := fun ⟨j, hp⟩ => ⟨j, hp.same (keeps_freelist s 0 k) rfl⟩
  idle := fun ⟨hi, hl⟩ => ⟨⟨hi.toSole.congr rfl rfl, hi.notInTx, hi.noJournal, hi.noFile, hi.noShadow, hi.unmarked,
    hi.lock, hi.cached, hi.memory⟩, hl⟩
  numPages := le_refl _
  txStart _ hn _ := hn
  cached hc := hc
  backed hb := hb
  memory hm := hm
  walKnown hw := hw
  savepoints := rfl
  reserved := rfl

theorem setHead_undisturbed (s : Pager B) (k : Nat) : Undisturbed q s { s with freelistHead := k } :=
  ⟨fun _ => rfl, fun hc => hc, fun hs => hs, fun _ hr => hr⟩

theorem covered_of_sameRead (h : SameRead s s') (hs : (s.pages.slot q).isSome = true → (s'.pages.slot q).isSome = true)
    (hc : Covered s q) : Covered s' q := by
  rcases hc with hc | hc | hc
  · exact Or.inl (hs hc)
  · exact Or.inr (Or.inl (h.filePages ▸ hc))
  · refine Or.inr (Or.inr ?_)
    rw [← hc]
    unfold mainPage
    rw [h.main]

omit [PageBody B] in
theorem not_shadowed_of_slot (hs : s.shadowPages.slot p = none) : ¬ s.Shadowed p := by
  rintro ⟨-, hn⟩
  rw [hs] at hn
  cases hn

omit [PageBody B] in
/-- A pager between transactions has no page captured. -/
theorem not_shadowed (hs : ∀ p, s.shadowPages.slot p = none) (p : Nat) : ¬ s.Shadowed p := not_shadowed_of_slot (hs p)

omit [PageBody B] in
/-- What an access between transactions changes. -/
theorem Idle.access (h : Idle s) {l : PagerLockState} {e : Bool} {c w : Slots (Page B)} {n : Nat}
    (hl : l = s.lockedAt .shared) (hc : ∀ p x, c.slot p = some x → p < n) (hs : ∀ p, w.slot p = none) :
    Idle ({ s with lockState := l, lockError := e, pages := c, numPages := n, shadowPages := w } : Pager B) := by
  refine ⟨h.toSole.congr rfl rfl, h.notInTx, h.noJournal, h.noFile, hs, h.unmarked, fun hm => ?_, hc, h.memory⟩
  have hlt := h.lock hm
  show l.level < _
  have hm : s.isMemory = false := hm
  rw [hl, lockedAt, if_neg (by simp [hm]), PagerLockState.raise]
  split
  · exact hlt
  · decide

theorem Loaded.works (h : Loaded s s' p) : Works s s' where
  backed hb p hp := by
    refine h.cacheOrLoad.isSome (hb p ?_)
    obtain ⟨_, _, _, _, rfl⟩ := h.same
    exact hp
  stage := by
    rintro ⟨j, hp⟩
    refine ⟨j, hp.same (h.keeps 0) ?_⟩
    obtain ⟨_, _, _, _, rfl⟩ := h.same
    rfl
  idle := by
    rintro ⟨hi, hl⟩
    have hlock := h.lock
    have hb := h.bound hi.cached
    obtain ⟨l, e, c, n, rfl⟩ := h.same
    exact ⟨hi.access (w := s.shadowPages) hlock hb hi.noShadow, hl⟩
  numPages := h.numPages_ge
  txStart n hn _ := by
    obtain ⟨_, _, _, _, rfl⟩ := h.same
    exact hn
  cached := h.bound
  memory hm := by
    obtain ⟨_, _, _, _, rfl⟩ := h.same
    exact hm
  walKnown hw := by
    obtain ⟨_, _, _, _, rfl⟩ := h.same
    exact hw
  savepoints := by
    obtain ⟨_, _, _, _, rfl⟩ := h.same
    rfl
  reserved := by
    obtain ⟨_, _, _, _, rfl⟩ := h.same
    rfl

theorem Loaded.undisturbed (h : Loaded s s' p) : Undisturbed q s s' := by
  refine ⟨fun _ => h.view q, covered_of_sameRead h.sameRead h.cacheOrLoad.isSome, ?_, ?_⟩
  · obtain ⟨_, _, _, _, rfl⟩ := h.same
    exact fun hs => hs
  · obtain ⟨_, _, _, _, rfl⟩ := h.same
    exact fun _ hr => hr

theorem Modified.works {f : Page B → Page B} (h : Modified s s' p f) : Works s s' where
  backed hb q hq := by
    rw [h.slot_isSome]
    rw [h.shadow] at hq
    split at hq
    · next hn => exact Or.inl hn.1
    · exact Or.inr (hb q hq)
  stage := by
    rintro ⟨j, hp⟩
    refine ⟨j, hp.same (h.keeps fun hn => absurd hn (Nat.not_lt_zero _)) ?_⟩
    obtain ⟨_, _, _, _, _, rfl⟩ := h.same
    rfl
  idle := by
    rintro ⟨hi, hl⟩
    have hlock := h.lock
    have hb := h.bound hi.cached
    have hsh : ∀ q, s'.shadowPages.slot q = none := fun q => by
      rw [h.shadow, if_neg fun hn => not_shadowed hi.noShadow p hn.2]
      exact hi.noShadow q
    obtain ⟨l, e, c, n, sh, rfl⟩ := h.same
    exact ⟨hi.access hlock hb hsh, hl⟩
  numPages := h.numPages_ge
  txStart n hn _ := by
    obtain ⟨_, _, _, _, _, rfl⟩ := h.same
    exact hn
  cached := h.bound
  memory hm := by
    obtain ⟨_, _, _, _, _, rfl⟩ := h.same
    exact hm
  walKnown hw := by
    obtain ⟨_, _, _, _, _, rfl⟩ := h.same
    exact hw
  savepoints := by
    obtain ⟨_, _, _, _, _, rfl⟩ := h.same
    rfl
  reserved := by
    obtain ⟨_, _, _, _, _, rfl⟩ := h.same
    rfl

theorem Captured.works (h : Captured s s' p) (hw : Writing s j) : Works s s' where
  backed hb q hq := by
    rw [h.slot_isSome (hb p)]
    rw [h.shadow] at hq
    split at hq
    · next hn => exact Or.inl hn
    · exact Or.inr (hb q hq)
  stage _ := ⟨j, Or.inr (h.writing hw)⟩
  idle hn := absurd hn.1.notInTx (by simp [hw.inTx])
  numPages := h.numPages_ge
  txStart n hn _ := by
    obtain ⟨_, _, _, _, _, rfl⟩ := h.same
    exact hn
  cached := h.bound
  memory hm := by
    obtain ⟨_, _, _, _, _, rfl⟩ := h.same
    exact hm
  walKnown hw := by
    obtain ⟨_, _, _, _, _, rfl⟩ := h.same
    exact hw
  savepoints := by
    obtain ⟨_, _, _, _, _, rfl⟩ := h.same
    rfl
  reserved := by
    obtain ⟨_, _, _, _, _, rfl⟩ := h.same
    rfl

theorem Captured.undisturbed (h : Captured s s' p) (hw : Writing s j) (hq : q ≠ p) : Undisturbed q s s' := by
  refine ⟨fun _ => h.view hw q, covered_of_sameRead h.sameRead h.cache.isSome, fun hs => ?_, ?_⟩
  · rw [h.shadow, if_neg hq]
    exact hs
  · obtain ⟨_, _, _, _, _, rfl⟩ := h.same
    exact fun _ hr => hr

/-- A record added to a file of records, wherever it lands: what is new is the record, or a gap. -/
theorem mem_drop_write {j : List (JournalEntry B)} {pos k : Nat} {r e : JournalEntry B}
    (he : e ∈ (BlockFile.write (0, Page.zero) j pos r).drop k) : e ∈ j.drop k ∨ e = r ∨ e = (0, Page.zero) := by
  obtain ⟨i, hi, rfl⟩ := List.mem_iff_getElem.mp he
  have hget : ∀ (l : List (JournalEntry B)) m (hm : m < l.length), l[m] = BlockFile.read (0, Page.zero) l m :=
    fun l m hm => List.getElem_eq_getD _
  rw [List.length_drop] at hi
  rw [List.getElem_drop, hget, BlockFile.read_write]
  split
  · exact Or.inr (Or.inl rfl)
  · by_cases hlt : k + i < j.length
    · left
      have hmem := List.getElem_mem (l := j.drop k) (n := i) (by rw [List.length_drop]; omega)
      rw [List.getElem_drop, hget] at hmem
      exact hmem
    · exact Or.inr (Or.inr (BlockFile.read_eq_filler _ _ (by omega)))

theorem recorded_undisturbed (s : Pager B) (x : Page B) (hq : q ≠ p) (h0 : q ≠ 0) : Undisturbed q s (s.recorded p x) := by
  have hrec : ∀ k, (∀ e ∈ s.journalRecords.drop k, e.1 ≠ q) → ∀ e ∈ (s.recorded p x).journalRecords.drop k, e.1 ≠ q := by
    intro k hr e he
    unfold recorded at he
    split at he
    · exact hr e he
    · split at he
      · exact hr e he
      · next pos _ _ =>
        have he : e ∈ ((s.disk.journal.map fun j => BlockFile.write (0, Page.zero) j pos (p, x)).getD []).drop k := he
        unfold journalRecords at hr
        cases hj : s.disk.journal with
        | none =>
          rw [hj, Option.map_none, Option.getD_none, List.drop_nil] at he
          exact absurd he List.not_mem_nil
        | some j =>
          rw [hj] at he hr
          rcases mem_drop_write he with he | rfl | rfl
          · exact hr e he
          · exact hq.symm
          · exact h0.symm
  obtain ⟨-, hview, -⟩ := recorded_keeps s p x
  obtain ⟨_, _, _, _, he⟩ := recorded_frame s p x
  rw [he] at hview hrec ⊢
  exact ⟨fun _ => hview q, fun hc => hc, fun hs => hs, hrec⟩

theorem recorded_works (hc : Captured s s₁ p) (hw : Writing s j) : Works s₁ (s₁.recorded p (s.view p)) := by
  have hst := hc.recorded_writing hw
  have htx := (hc.writing hw).inTx
  obtain ⟨_, _, _, _, he⟩ := recorded_frame s₁ p (s.view p)
  rw [he] at hst ⊢
  exact ⟨fun _ => ⟨_, Or.inr hst⟩, fun hn => absurd hn.1.notInTx (by simp [htx]), le_refl _, fun _ hn _ => hn, fun hc => hc, fun hb => hb, fun hm => hm,
    fun hk => hk, rfl, rfl⟩

theorem Upgraded.undisturbed (h : Upgraded s s') (hr : Reading s) (hfit : Fits s)
    (hb : ∀ q x, s.pages.slot q = some x → q < s.numPages) : Undisturbed q s s' := by
  have hsame : s'.pages = s.pages ∧ s'.shadowPages = s.shadowPages ∧ s'.isMemory = s.isMemory ∧
      s'.disk.wal = s.disk.wal ∧ s'.useWal = s.useWal ∧ s'.walOpen = s.walOpen := by
    obtain ⟨_, _, _, _, _, _, _, _, _, _, rfl⟩ := h.same
    exact ⟨rfl, rfl, rfl, rfl, rfl, rfl⟩
  obtain ⟨hpages, hshadow, hmem, hwal⟩ := hsame
  have hmain : s.pages.slot q = none → s'.mainPage q = s.mainPage q := by
    intro hq
    rw [h.main, hq, Option.getD_none, ite_self]
  have hcov : Covered s q → Covered s' q := by
    intro hc
    by_cases hm : s.isMemory = true
    · rw [h.memory hm]
      exact hc
    · have hlt := hfit (by simpa using hm)
      have hle := h.length_le _ hb
      have hcovers : Covers s' := by
        unfold Covers
        rw [h.filePages, if_neg hm, Nat.mod_eq_of_lt]
        omega
      by_cases hq : q < s'.filePages
      · exact Or.inr (Or.inl hq)
      · exact Or.inr (Or.inr (BlockFile.read_eq_filler _ _ (le_trans hcovers (Nat.not_lt.mp hq))))
  refine ⟨fun hc => ?_, hcov, fun hs => ?_, fun k hrec e he => ?_⟩
  · have hns : ¬ s.Shadowed q ∧ ¬ s'.Shadowed q := by
      unfold Shadowed
      rw [hshadow, hr.noShadow]
      exact ⟨fun ⟨_, hn⟩ => (by cases hn), fun ⟨_, hn⟩ => (by cases hn)⟩
    rw [view_unshadowed hns.1, view_unshadowed hns.2]
    exact hc.base_eq (hcov hc) (by rw [hpages]) hmain hwal
  · rw [hshadow]
    exact hs
  · rw [Stage.records (Or.inr h.writing), List.drop_nil] at he
    exact absurd he List.not_mem_nil

theorem Upgraded.works (h : Upgraded s s') (hr : Reading s) : Works s s' where
  stage _ := ⟨[], Or.inr h.writing⟩
  idle hn := absurd hn.1.notInTx (by simp [hr.inTx])
  numPages := by
    obtain ⟨_, _, _, _, _, _, _, _, _, _, rfl⟩ := h.same
    exact le_refl _
  txStart n hn hk := by
    rw [h.txStart]
    split
    · exact hn
    · exact hk
  cached := by
    obtain ⟨_, _, _, _, _, _, _, _, _, _, rfl⟩ := h.same
    exact fun hc => hc
  backed := by
    obtain ⟨_, _, _, _, _, _, _, _, _, _, rfl⟩ := h.same
    exact fun hb => hb
  memory hm hmem := by
    have hmem : s.isMemory = true := by
      obtain ⟨_, _, _, _, _, _, _, _, _, _, rfl⟩ := h.same
      exact hmem
    rw [h.memory hmem]
    exact hm hmem
  walKnown hw := by
    obtain ⟨_, _, _, _, _, _, _, _, _, _, rfl⟩ := h.same
    exact hw
  savepoints := by
    obtain ⟨_, _, _, _, _, _, _, _, _, _, rfl⟩ := h.same
    rfl
  reserved := by
    obtain ⟨_, _, _, _, _, _, _, _, _, _, rfl⟩ := h.same
    rfl

/-- What an access does to the other pages and to the head of the list. -/
structure Touches (p : Nat) (s s' : Pager B) : Prop where
  works : Works s s'
  others : ∀ q, q ≠ p → q ≠ 0 → Undisturbed q s s'
  head : s'.freelistHead = s.freelistHead

theorem Captured.touches (h : Captured s s' p) (hw : Writing s j) : Touches p s s' := by
  refine ⟨h.works hw, fun q hq _ => h.undisturbed hw hq, ?_⟩
  obtain ⟨_, _, _, _, _, he⟩ := h.same
  rw [he]

theorem Upgraded.touches (h : Upgraded s s') (hr : Reading s) (hfit : Fits s)
    (hb : ∀ q x, s.pages.slot q = some x → q < s.numPages) : Touches p s s' := by
  refine ⟨h.works hr, fun q _ _ => h.undisturbed hr hfit hb, ?_⟩
  obtain ⟨_, _, _, _, _, _, _, _, _, _, he⟩ := h.same
  rw [he]

theorem recorded_touches (hc : Captured s s₁ p) (hw : Writing s j) : Touches p s₁ (s₁.recorded p (s.view p)) := by
  refine ⟨recorded_works hc hw, fun q hq h0 => recorded_undisturbed _ _ hq h0, ?_⟩
  obtain ⟨_, _, _, _, he⟩ := recorded_frame s₁ p (s.view p)
  rw [he]

theorem Touches.trans (h : Touches p s s₁) (h' : Touches p s₁ s') : Touches p s s' :=
  ⟨h.works.trans h'.works, fun q hq h0 => (h.others q hq h0).trans (h'.others q hq h0), h'.head.trans h.head⟩

/-- A capture leaves the other pages undisturbed, whether it has to take the write lock or not. -/
theorem shadow_step (h : Stage s j) (hfit : Fits s) (hb : ∀ q x, s.pages.slot q = some x → q < s.numPages) (p : Nat) :
    Touches p s (s.pagerShadowPageWrite p) := by
  rcases h with ⟨hr, -⟩ | hw
  · obtain ⟨s₁, he, hup⟩ := hr.upgrade
    rw [shadow_upgrade hr.inTx he hup.writing]
    exact (hup.touches hr hfit hb).trans ((shadow_captured hup.writing p).touches hup.writing)
  · exact (shadow_captured hw p).touches hw

theorem journal_step (h : Stage s j) (hfit : Fits s) (hb : ∀ q x, s.pages.slot q = some x → q < s.numPages) (p : Nat) :
    Touches p s (s.pagerJournalPage p) := by
  rcases h with ⟨hr, -⟩ | hw
  · obtain ⟨s₁, he, hup⟩ := hr.upgrade
    obtain ⟨s₂, hc, heq⟩ := journalPage_eq hup.writing p
    rw [journal_upgrade hr.inTx he hup.writing, heq]
    exact ((hup.touches hr hfit hb).trans (hc.touches hup.writing)).trans (recorded_touches hc hup.writing)
  · obtain ⟨s₂, hc, heq⟩ := journalPage_eq hw p
    rw [heq]
    exact (hc.touches hw).trans (recorded_touches hc hw)

theorem Works.ready (h : Works s s') (hr : Ready s) : Ready s' := hr.imp h.stage h.idle

theorem refresh_asLeft (h : AsLeft s) : s.pagerRefreshIfModified = s := by
  obtain ⟨hm | ⟨hlen, hlsn⟩, hwal⟩ := h
  · exact refresh_memory hm
  · have hopen := openWal_open hwal
    unfold pagerRefreshIfModified
    split
    · rfl
    · simp only [hopen]
      exact if_neg (by omega)

/-- In rollback mode the LSN on page 0 and the length of the file decide. -/
theorem refresh_rollback (ht : s.inTransaction = false) (hm : s.isMemory = false) (hw : s.disk.wal = none) :
    s.pagerRefreshIfModified =
      if s.walLsn < max s.walMaxLsn s.diskLsn ∨ s.disk.main.length % fileLengthWrap ≠ s.filePages then
        { s with
          pages := Slots.empty
          filePages := s.disk.main.length % fileLengthWrap
          numPages := s.disk.main.length % fileLengthWrap
          walLsn := max s.walLsn (max s.walMaxLsn s.diskLsn) }
      else s := by
  have hopen : s.openWal = s := if_neg (by simp [hw])
  unfold pagerRefreshIfModified
  rw [if_neg (by simp [ht, hm])]
  dsimp only
  rw [hopen]

theorem Ready.loaded (h : Ready s) (p : Nat) : Loaded s (s.getPage p) p := by
  rcases h with ⟨j, hst⟩ | ⟨hi, hl⟩
  · exact getPage_loaded hst.sole.1 hst.sole.2 p
  · obtain ⟨e, hload⟩ := getPage_refreshed hi.sharedWrite hi.pending p
    rw [refresh_asLeft (s := { s with lockState := s.lockedAt .shared, lockError := e }) hl] at hload
    exact hload.of_lock rfl

/-- Outside a transaction no page is captured. -/
theorem Ready.unshadowed (h : Ready s) (ht : s.inTransaction = false) (p : Nat) : ¬ s.Shadowed p := by
  rcases h with ⟨j, hst⟩ | ⟨hi, -⟩
  · rw [hst.sole.2] at ht
    cases ht
  · exact not_shadowed hi.noShadow p

theorem Ready.modified (h : Ready s) (p : Nat) (f : Page B → Page B) : Modified s (s.modify p f) p f :=
  (h.loaded p).modified (fun hs => by
    by_contra hn
    exact h.unshadowed (by simpa using hn) p hs) f

theorem Ready.view {f : Page B → Page B} (h : Ready s) (hm : Modified s s' p f) (q : Nat) :
    s'.view q = if q = p then f (s.view p) else s.view q := by
  by_cases ht : s.inTransaction = true
  · exact hm.view ht q
  · have ht : s.inTransaction = false := by simpa using ht
    have hns := h.unshadowed ht
    have ht' : s'.inTransaction = false := by
      obtain ⟨_, _, _, _, _, he⟩ := hm.same
      rw [he]
      exact ht
    have hv : s'.view q = s'.base q := by
      unfold Pager.view
      rw [ht']
      rfl
    rw [hv, hm.base, view_unshadowed (hns q)]
    split
    · next hn => rw [if_pos hn.1]
    · next hn => rw [if_neg fun hq => hn ⟨hq, hns p⟩]

theorem Modified.undisturbed {f : Page B → Page B} (h : Modified s s' p f) (hr : Ready s)
    (hq : q ≠ p) : Undisturbed q s s' := by
  refine ⟨fun _ => ?_, covered_of_sameRead h.sameRead fun hs => h.slot_isSome.mpr (Or.inr hs), fun hs => ?_, ?_⟩
  · rw [hr.view h, if_neg hq]
  · rw [h.shadow, if_neg fun hn => hq hn.1]
    exact hs
  · obtain ⟨_, _, _, _, _, rfl⟩ := h.same
    exact fun _ hr => hr

/-- A store to page `p`. -/
theorem modify_step (h : Ready s) (hb : ∀ q x, s.pages.slot q = some x → q < s.numPages) (p : Nat)
    (f : Page B → Page B) :
    Works s (s.modify p f) ∧ (∀ q, q ≠ p → Undisturbed q s (s.modify p f)) ∧ (s.modify p f).view p = f (s.view p) ∧
      p < (s.modify p f).numPages ∧ Covered (s.modify p f) p ∧ (s.modify p f).freelistHead = s.freelistHead := by
  have hm := h.modified p f
  refine ⟨hm.works, fun q hq => hm.undisturbed h hq, ?_, ?_, Or.inl (hm.slot_isSome.mpr (Or.inl rfl)), ?_⟩
  · rw [h.view hm, if_pos rfl]
  · exact hm.bound hb p _ ((hm.slot p).trans (if_pos rfl))
  · obtain ⟨_, _, _, _, _, he⟩ := hm.same
    rw [he]

theorem read_step (h : Ready s) (hb : ∀ q x, s.pages.slot q = some x → q < s.numPages) (p : Nat) :
    Works s (s.getPage p) ∧ (∀ q, Undisturbed q s (s.getPage p)) ∧ (s.getPage p).freelistHead = s.freelistHead ∧
      p < (s.getPage p).numPages := by
  have hl := h.loaded p
  refine ⟨hl.works, fun q => hl.undisturbed, ?_, hl.bound hb p _ ((hl.slot p).trans (if_pos rfl))⟩
  obtain ⟨_, _, _, _, he⟩ := hl.same
  rw [he]

end Pager

end CustomDB
