import CustomDB.Pager.FreelistSpec

/-!
# One access after another

What the callers of the pager rely on between two calls, and what a call keeps of it. The pages that show something
else afterwards are named, page 0 among them: the allocator stores the head of the free list there.
-/

namespace CustomDB

open Lib

namespace Pager

variable {B : Type} [PageBody B] {s s' s₁ : Pager B} {q p n : Nat} {l : List Nat} {j : List (JournalEntry B)}

/-- A pager between two calls: its cache stays, its sizes fit their 32 bits, and it knows the length of its file. -/
structure Steady (s : Pager B) : Prop where
  ready : Ready s
  fits : Fits s
  covers : Covers s
  cached : ∀ q x, s.pages.slot q = some x → q < s.numPages

/-- Page `p` has a place in the file. -/
def Placed (s : Pager B) (p : Nat) : Prop := s.isMemory = false → p + 1 < fileLengthWrap

/-- An access to page `p`, which shows the other pages as before. -/
structure Access (p : Nat) (s s' : Pager B) : Prop extends Touches p s s' where
  steady : Steady s'
  view : ∀ q, q ≠ p → s'.view q = s.view q
  le : s'.numPages ≤ max s.numPages (p + 1)
  isMemory : s'.isMemory = s.isMemory

theorem Steady.covered (h : Steady s) (q : Nat) : Covered s q := by
  by_cases hq : q < s.filePages
  · exact Or.inr (Or.inl hq)
  · exact Or.inr (Or.inr (BlockFile.read_eq_filler _ _ (le_trans h.covers (Nat.not_lt.mp hq))))

theorem Access.trans (h : Access p s s₁) (h' : Access p s₁ s') : Access p s s' where
  toTouches := h.toTouches.trans h'.toTouches
  steady := h'.steady
  view q hq := (h'.view q hq).trans (h.view q hq)
  le := le_trans h'.le (max_le h.le (le_max_right ..))
  isMemory := h'.isMemory.trans h.isMemory

/-- What reads and stores keep of the files. -/
theorem Steady.next (h : Steady s) (hw : Works s s') (hr : SameRead s s') (hm : s'.isMemory = s.isMemory)
    (hle : s'.numPages ≤ max s.numPages (p + 1)) (hp : s.Placed p) : Steady s' where
  ready := hw.ready h.ready
  fits hmem := by
    rw [hm] at hmem
    have hfits := h.fits hmem
    have hplace := hp hmem
    rw [hr.main]
    omega
  covers := by
    rw [Covers, hr.main, hr.filePages]
    exact h.covers
  cached := hw.cached h.cached

/-- `get_page`. -/
theorem Steady.read (h : Steady s) (hp : s.Placed p) : Access p s (s.getPage p) ∧ (∀ q, (s.getPage p).view q = s.view q) ∧
    (s.getPage p).deref p = s.view p := by
  have hl := h.ready.loaded p
  obtain ⟨hw, hu, hh, -⟩ := read_step h.ready h.cached p
  have hm : (s.getPage p).isMemory = s.isMemory := by
    obtain ⟨_, _, _, _, he⟩ := hl.same
    rw [he]
  exact ⟨⟨⟨hw, fun q _ _ => hu q, hh⟩, h.next hw hl.sameRead hm hl.numPages_le hp, fun q _ => hl.view q, hl.numPages_le, hm⟩,
    hl.view, hl.deref⟩

/-- A store through the pointer of `get_page`. -/
theorem Steady.write (h : Steady s) (hp : s.Placed p) (f : Page B → Page B) : Access p s (s.modify p f) ∧
    (s.modify p f).view p = f (s.view p) ∧ p < (s.modify p f).numPages := by
  have hmod := h.ready.modified p f
  obtain ⟨hw, hu, hv, hlt, -, hh⟩ := modify_step h.ready h.cached p f
  have hm : (s.modify p f).isMemory = s.isMemory := by
    obtain ⟨_, _, _, _, _, he⟩ := hmod.same
    rw [he]
  have hle : (s.modify p f).numPages ≤ max s.numPages (p + 1) := by
    rw [hmod.numPages]
    split <;> omega
  exact ⟨⟨⟨hw, fun q hq _ => hu q hq, hh⟩, h.next hw hmod.sameRead hm hle hp, fun q hq => by rw [h.ready.view hmod, if_neg hq],
    hle, hm⟩, hv, hlt⟩

/-- A capture takes the write lock first, which brings the file up to date. -/
theorem Steady.upgraded (h : Steady s) (hr : Reading s) (hup : Upgraded s s') (p : Nat) :
    Access p s s' ∧ ∀ q, s'.view q = s.view q := by
  have ht : Touches p s s' := hup.touches hr h.fits h.cached
  have hv : ∀ q, s'.view q = s.view q := fun q => (hup.undisturbed hr h.fits h.cached).view (h.covered q)
  have hsame : s'.isMemory = s.isMemory ∧ s'.numPages = s.numPages := by
    obtain ⟨_, _, _, _, _, _, _, _, _, _, he⟩ := hup.same
    rw [he]
    exact ⟨rfl, rfl⟩
  have hfits : Fits s' := fun hm => by
    have hlt := h.fits (hsame.1 ▸ hm)
    have hle := hup.length_le _ h.cached
    rw [hsame.2]
    omega
  exact ⟨⟨ht, ⟨ht.works.ready h.ready, hfits, hup.covers h.covers h.cached h.fits, ht.works.cached h.cached⟩, fun q _ => hv q,
    by rw [hsame.2]; exact le_max_left _ _, hsame.1⟩, hv⟩

theorem Steady.captured (h : Steady s) (hw : Writing s j) (hp : s.Placed p) : Access p s (s.pagerJournalPage p) ∧
    ∀ q, (s.pagerJournalPage p).view q = s.view q := by
  obtain ⟨s₁, hc, heq⟩ := journalPage_eq hw p
  obtain ⟨-, hview, -, -, hnum⟩ := recorded_keeps s₁ p (s.view p)
  have ht := (hc.touches hw).trans (recorded_touches hc hw)
  have hv : ∀ q, (s₁.recorded p (s.view p)).view q = s.view q := fun q => (hview q).trans (hc.view hw q)
  have hsame : SameRead s (s₁.recorded p (s.view p)) ∧ (s₁.recorded p (s.view p)).isMemory = s.isMemory := by
    obtain ⟨_, _, _, _, he⟩ := recorded_frame s₁ p (s.view p)
    rw [he]
    obtain ⟨_, _, _, _, _, rfl⟩ := hc.same
    exact ⟨⟨rfl, rfl, rfl, rfl, rfl⟩, rfl⟩
  have hle : (s₁.recorded p (s.view p)).numPages ≤ max s.numPages (p + 1) := by
    rw [hnum]
    exact hc.numPages_le
  rw [heq]
  exact ⟨⟨ht, h.next ht.works hsame.1 hsame.2 hle hp, fun q _ => hv q, hle, hsame.2⟩, hv⟩

/-- `pager_journal_page`. -/
theorem Steady.journal (h : Steady s) (hp : s.Placed p) : Access p s (s.pagerJournalPage p) ∧
    ∀ q, (s.pagerJournalPage p).view q = s.view q := by
  rcases h.ready with ⟨j, ⟨hr, -⟩ | hw⟩ | ⟨hi, -⟩
  · obtain ⟨s₁, he, hup⟩ := hr.upgrade
    obtain ⟨ha, hv⟩ := h.upgraded hr hup p
    obtain ⟨ha', hv'⟩ := ha.steady.captured hup.writing (p := p) fun hm => hp (ha.isMemory ▸ hm)
    rw [journal_upgrade hr.inTx he hup.writing]
    exact ⟨ha.trans ha', fun q => (hv' q).trans (hv q)⟩
  · exact h.captured hw hp
  · rw [journalPage_idle hi]
    exact ⟨⟨⟨Works.refl s, fun q _ _ => Undisturbed.refl q s, rfl⟩, h, fun _ _ => rfl, le_max_left _ _, rfl⟩, fun _ => rfl⟩

/-- The new head goes to page 0. -/
theorem Steady.setHead (h : Steady s) (k : Nat) : Works s { s with freelistHead := k } ∧
    Steady ({ s with freelistHead := k } : Pager B) :=
  ⟨setHead_works s k, (setHead_works s k).ready h.ready, h.fits, h.covers, h.cached⟩

/-- Page 0 stays as it is but for the head of the list, which is stored there when it moves. -/
def HeadStored (s s' : Pager B) : Prop :=
  s'.view 0 = s.view 0 ∧ s'.freelistHead = s.freelistHead ∨ s'.view 0 = (s.view 0).setFreelistHead s'.freelistHead

theorem HeadStored.trans (h : HeadStored s s₁) (h' : HeadStored s₁ s') : HeadStored s s' := by
  rcases h' with ⟨hv, hh⟩ | hv
  · unfold HeadStored
    rw [hv, hh]
    exact h
  · rcases h with ⟨hv', -⟩ | hv'
    · exact Or.inr (hv.trans (by rw [hv']))
    · exact Or.inr (hv.trans (by rw [hv']; rfl))

/-- An access that moves the head of the list: the allocator's. -/
structure Allots (p : Nat) (s s' : Pager B) : Prop where
  works : Works s s'
  steady : Steady s'
  others : ∀ q, q ≠ p → q ≠ 0 → Undisturbed q s s'
  view : ∀ q, q ≠ p → q ≠ 0 → s'.view q = s.view q
  zero : p ≠ 0 → HeadStored s s'
  le : s'.numPages ≤ max s.numPages (p + 1)
  isMemory : s'.isMemory = s.isMemory

/-- A page gets new content, the free list a new head. -/
theorem Steady.allots (h : Steady s) (hp : s.Placed p) (f : Page B → Page B) (k : Nat) :
    let s' := ({ s.modify p f with freelistHead := k } : Pager B).modify 0 fun p0 => p0.setFreelistHead k
    Allots p s s' ∧ s'.freelistHead = k ∧ p < s'.numPages ∧ (p ≠ 0 → s'.view p = f (s.view p)) := by
  intro s'
  obtain ⟨ha, hv, hlt⟩ := h.write hp f
  obtain ⟨hw, hs⟩ := ha.steady.setHead k
  have h0 : ({ s.modify p f with freelistHead := k } : Pager B).Placed 0 := fun hm => by
    have := hp (ha.isMemory ▸ hm)
    omega
  obtain ⟨hb, hv0, -⟩ := hs.write h0 fun p0 => p0.setFreelistHead k
  have hview : ∀ q, q ≠ 0 → s'.view q = (s.modify p f).view q := fun q hq => hb.view q hq
  have hge := hb.works.numPages
  refine ⟨⟨(ha.works.trans hw).trans hb.works, hb.steady, fun q hq h0 => ?_, fun q hq h0 => ?_, fun hp0 => ?_, ?_, ?_⟩, hb.head,
    lt_of_lt_of_le hlt hge, fun hp0 => (hview p hp0).trans hv⟩
  · exact ((ha.others q hq h0).trans (setHead_undisturbed _ k)).trans (hb.others q h0 h0)
  · exact (hview q h0).trans (ha.view q hq)
  · have hhead : s'.freelistHead = k := hb.head
    have hv0 : s'.view 0 = ((s.modify p f).view 0).setFreelistHead k := hv0
    exact Or.inr (by rw [hhead, hv0, ha.view 0 hp0.symm])
  · have hle : s'.numPages ≤ max (s.modify p f).numPages (0 + 1) := hb.le
    exact le_trans hle (max_le ha.le (le_trans (Nat.succ_le_succ (Nat.zero_le p)) (le_max_right ..)))
  · exact hb.isMemory.trans ha.isMemory

theorem FreeList.next (hl : s.FreeList l) (hr : s'.reservedCatalogPages = s.reservedCatalogPages)
    (hh : s'.freelistHead = s.freelistHead) (hlink : ∀ q ∈ l, s'.linkOf q = s.linkOf q) : s'.FreeList l := by
  have hends : s'.EndsList = s.EndsList := by
    funext a
    unfold EndsList
    rw [hr]
  unfold FreeList
  rw [hends, hh]
  exact Linked.Chain.congr hl hlink

/-- `get_unused_page_num`: the first page of the list, or the one behind the last of the file. -/
theorem Steady.unused (h : Steady s) (hl : s.FreeList l) (hnd : l.Nodup) (hlt : ∀ q ∈ l, q < s.numPages)
    (hplaced : ∀ q, q < s.numPages → s.Placed q) : Allots s.getUnusedPageNum.1 s s.getUnusedPageNum.2 ∧
      s.getUnusedPageNum.2.FreeList (l.drop 1) ∧ (l = s.getUnusedPageNum.1 :: l.drop 1 ∨
        l = [] ∧ s.getUnusedPageNum = (max s.numPages s.reservedCatalogPages, s)) := by
  by_cases hpop : s.Pops
  · obtain ⟨m, rfl, hm⟩ := Linked.Chain.head hl ((pops_iff s).mp hpop)
    have hhead := hlt s.freelistHead List.mem_cons_self
    have hnot := (List.nodup_cons.mp hnd).1
    obtain ⟨ha, hh, -, -⟩ := h.allots (hplaced _ hhead) (fun _ => Page.zero) (s.linkOf s.freelistHead)
    rw [getUnusedPageNum_link h.ready hpop]
    refine ⟨ha, ?_, Or.inl rfl⟩
    have hm' : ({ s with freelistHead := s.linkOf s.freelistHead } : Pager B).FreeList m := hm
    refine FreeList.next hm' ha.works.reserved hh fun q hq => ?_
    have hq0 : q ≠ 0 := fun h0 => Linked.Chain.mem_not_ends hm hq (Or.inl h0)
    exact congrArg (fun x : Page B => PageBody.link x.body) (ha.view q (fun he => hnot (he ▸ hq)) hq0)
  · obtain rfl : l = [] := by
      cases l with
      | nil => rfl
      | cons q m => exact absurd ((pops_iff s).mpr hl.2.1) hpop
    rw [getUnusedPageNum_fresh hpop]
    exact ⟨⟨Works.refl s, h, fun q _ _ => Undisturbed.refl q s, fun _ _ _ => rfl, fun _ => Or.inl ⟨rfl, rfl⟩, le_max_left _ _,
      rfl⟩, hl, Or.inr ⟨rfl, rfl⟩⟩

/-- `pager_free_page`: the page goes to the front of the list. -/
theorem Steady.free (h : Steady s) (hl : s.FreeList l) (hf : s.Frees p) (hp : s.Placed p) (hnot : p ∉ l) :
    Allots p s (s.pagerFreePage p) ∧ (s.pagerFreePage p).FreeList (p :: l) ∧ p < (s.pagerFreePage p).numPages := by
  have hp0 : p ≠ 0 := fun h0 => hf (Or.inr (Or.inl h0))
  have hends : ¬ s.EndsList p := by
    intro he
    unfold Frees at hf
    unfold EndsList at he
    omega
  obtain ⟨ha, hh, hlt, hv⟩ := h.allots hp (fun _ => { (Page.zero : Page B) with body := PageBody.ofLink s.freelistHead }) p
  have hfree : s.pagerFreePage p = ({ (s.modify p fun _ =>
      { (Page.zero : Page B) with body := PageBody.ofLink s.freelistHead }) with freelistHead := p } : Pager B).modify 0
        fun p0 => p0.setFreelistHead p := if_neg hf
  rw [hfree]
  refine ⟨ha, ?_, hlt⟩
  generalize (Pager.modify _ 0 fun p0 : Page B => p0.setFreelistHead p) = s' at ha hh hv
  have hsame : s'.EndsList = s.EndsList := by
    funext a
    unfold EndsList
    rw [ha.works.reserved]
  unfold FreeList
  rw [hsame, hh]
  refine Linked.Chain.push hl hends ?_ fun q hq => ?_
  · rw [linkOf, hv hp0]
    exact PageBody.link_ofLink _
  · have hq0 : q ≠ 0 := fun h0 => Linked.Chain.mem_not_ends hl hq (Or.inl h0)
    rw [linkOf, ha.view q (fun he => hnot (he ▸ hq)) hq0, linkOf]

/-! ## A heap at rest -/

/-- A heap between two calls, with its free list. The catalog has its pages. -/
structure AtRest (h : Heap B) (l : List Nat) : Prop where
  inv : HeapInv h l
  steady : Steady h.pager
  catalog : 0 < h.pager.reservedCatalogPages

theorem AtRest.placed {h : Heap B} (hr : AtRest h l) (hp : p < h.pager.numPages) : h.pager.Placed p := fun hm => by
  have := hr.steady.fits hm
  omega

/-- An access to a page that is not free. -/
theorem AtRest.access {h : Heap B} (hr : AtRest h l) (ha : Access p h.pager s') (hp : p ∈ h.inUse) :
    AtRest { h with pager := s' } l :=
  ⟨hr.inv.touch hr.steady.ready ha.toTouches (Or.inl hp), ha.steady, lt_of_lt_of_eq hr.catalog ha.works.reserved.symm⟩

end Pager

end CustomDB
