import CustomDB.Pager.Touch

/-!
# Who owns which page

No operation touches a page on the free list but the allocator's own. The invariant carries, for every point a
rollback can go back to, that the pages of the list not freed since belong to nobody there and are not in the
journal since.
-/

namespace CustomDB

open Lib

namespace Pager

variable {B : Type} [PageBody B] {s s' s₁ : Pager B} {q p : Nat} {j : List (JournalEntry B)}

/-! ## The invariant -/

/-- What holds of a point the transaction can go back to: the pages of the list not freed since are nobody's at
that point, lie within its page count, and are `clean` since. -/
structure Kept (l : List Nat) (pt : Point) (clean : Nat → Prop) : Prop where
  used : ∀ p ∈ pt.inUse, p < pt.count
  list : ∀ p ∈ l, p ∉ pt.freed → p ∉ pt.inUse ∧ p < pt.count ∧ clean p

theorem Kept.all {l : List Nat} {pt : Point} {clean : Nat → Prop} (h : Kept l pt clean) (hf : pt.FreeBefore clean) :
    ∀ p ∈ l, p ∉ pt.inUse ∧ p < pt.count ∧ clean p := by
  intro p hp
  by_cases hfreed : p ∈ pt.freed
  · exact hf p hfreed
  · exact h.list p hp hfreed

/-- The points of the transaction, each with its savepoint. -/
structure Points (s : Pager B) (atBegin : Point) (points : List Point) (l : List Nat) : Prop where
  txStart : atBegin.count ≤ s.numPagesAtTxStart
  began_le : atBegin.count ≤ s.numPages
  began : Kept l atBegin fun q => s.shadowPages.slot q = none ∧ s.Unrecorded 0 q
  saved : ∀ (i : Nat) (pt : Point), points[i]? = some pt → ∃ sp : Savepoint, s.savepoints[i]? = some sp ∧ sp.numPagesAtSavepoint = pt.count ∧
    atBegin.count ≤ pt.count ∧ Kept l pt (s.Unrecorded sp.journalOffset)

/-- The invariant, with the free list `l`. -/
structure HeapInv (h : Heap B) (l : List Nat) : Prop where
  chain : h.pager.FreeList l
  nodup : l.Nodup
  free : ∀ p ∈ l, p < h.pager.numPages ∧ p ∉ h.inUse ∧ Covered h.pager p
  used : ∀ p ∈ h.inUse, p < h.pager.numPages
  cached : ∀ q x, h.pager.pages.slot q = some x → q < h.pager.numPages
  backed : ∀ p, (h.pager.shadowPages.slot p).isSome = true → (h.pager.pages.slot p).isSome = true
  memory : h.pager.isMemory = true → h.pager.disk.main = []
  state : Idle h.pager ∧ h.points = [] ∨
    (∃ j, Stage h.pager j) ∧ WalKnown h.pager ∧ Points h.pager h.atBegin h.points l

variable {h : Heap B} {l l' : List Nat}

omit [PageBody B] in
theorem pops_iff (s : Pager B) : s.Pops ↔ ¬ s.EndsList s.freelistHead := by
  unfold Pops EndsList
  omega

theorem HeapInv.owned (hi : HeapInv h l) : Owned h := by
  refine ⟨⟨l, hi.chain, hi.nodup, fun p hp => ?_⟩, ?_⟩
  · have hends := Linked.Chain.mem_not_ends hi.chain hp
    unfold EndsList at hends
    exact ⟨by omega, (hi.free p hp).1, (hi.free p hp).2.1⟩
  · by_cases hp : h.pager.Pops
    · obtain ⟨next, he⟩ := getUnusedPageNum_pop hp
      obtain ⟨m, hl, -⟩ := Linked.Chain.head hi.chain ((pops_iff _).mp hp)
      rw [he]
      exact (hi.free _ (hl ▸ List.mem_cons_self ..)).2.1
    · rw [getUnusedPageNum_fresh hp]
      intro hn
      have := hi.used _ hn
      omega

theorem Kept.transfer {pt pt' : Point} {clean clean' : Nat → Prop} (hk : Kept l pt clean)
    (hpt : pt'.inUse = pt.inUse ∧ pt'.count = pt.count) (hl : ∀ q ∈ l', q ∉ pt'.freed → q ∈ l ∧ q ∉ pt.freed)
    (hc : ∀ q ∈ l', q ∈ l → clean q → clean' q) : Kept l' pt' clean' := by
  refine ⟨fun p hp => ?_, fun p hp hf => ?_⟩
  · rw [hpt.2]
    exact hk.used p (hpt.1 ▸ hp)
  · obtain ⟨hold, hnf⟩ := hl p hp hf
    obtain ⟨hin, hlt, hcl⟩ := hk.list p hold hnf
    rw [hpt.1, hpt.2]
    exact ⟨hin, hlt, hc p hp hold hcl⟩

/-- Accesses to other pages keep the points; `g` counts what was freed and handed out again. -/
theorem Points.transfer {b : Point} {pts : List Point} (hp : Points s b pts l) (hw : Works s s') {g : Point → Point}
    (hg : ∀ pt, (g pt).inUse = pt.inUse ∧ (g pt).count = pt.count)
    (hl : ∀ pt, ∀ q ∈ l', q ∉ (g pt).freed → q ∈ l ∧ q ∉ pt.freed)
    (hu : ∀ q ∈ l', q ∈ l → Undisturbed q s s') : Points s' (g b) (pts.map g) l' := by
  refine ⟨?_, ?_, ?_, fun i pt' hi => ?_⟩
  · rw [(hg b).2]
    exact hw.txStart _ hp.txStart hp.began_le
  · rw [(hg b).2]
    exact le_trans hp.began_le hw.numPages
  · exact hp.began.transfer (hg b) (hl b) fun q hq hold hc =>
      ⟨(hu q hq hold).shadow hc.1, (hu q hq hold).records 0 hc.2⟩
  · rw [List.getElem?_map] at hi
    obtain ⟨pt, hpt, rfl⟩ := Option.map_eq_some_iff.mp hi
    obtain ⟨sp, hsp, hcount, hle, hk⟩ := hp.saved i pt hpt
    refine ⟨sp, by rw [hw.savepoints]; exact hsp, hcount.trans (hg pt).2.symm, ?_, ?_⟩
    · rw [(hg b).2, (hg pt).2]
      exact hle
    · exact hk.transfer (hg pt) (hl pt) fun q hq hold hc => (hu q hq hold).records _ hc

theorem linkOf_undisturbed (hu : Undisturbed q s s') (hc : Covered s q) : s'.linkOf q = s.linkOf q := by
  unfold linkOf
  rw [hu.view hc]

/-- The heap after accesses to pages, with the list `l'` and the pages `u` in use. -/
theorem HeapInv.advance (hi : HeapInv h l) (hr : Ready h.pager) (hw : Works h.pager s') {u : Finset Nat} {g : Point → Point}
    (hg : ∀ pt, (g pt).inUse = pt.inUse ∧ (g pt).count = pt.count)
    (hl : ∀ pt, ∀ q ∈ l', q ∉ (g pt).freed → q ∈ l ∧ q ∉ pt.freed)
    (hu : ∀ q ∈ l', q ∈ l → Undisturbed q h.pager s') (hchain : s'.FreeList l') (hnd : l'.Nodup)
    (hnew : ∀ q ∈ l', q ∈ l ∨ q < s'.numPages ∧ Covered s' q) (hout : ∀ q ∈ l', q ∉ u)
    (hused : ∀ q ∈ u, q < s'.numPages) : HeapInv ⟨s', u, g h.atBegin, h.points.map g⟩ l' where
  chain := hchain
  nodup := hnd
  free q hq := by
    rcases hnew q hq with hold | ⟨hlt, hc⟩
    · exact ⟨lt_of_lt_of_le (hi.free q hold).1 hw.numPages, hout q hq, (hu q hq hold).covered (hi.free q hold).2.2⟩
    · exact ⟨hlt, hout q hq, hc⟩
  used := hused
  cached := hw.cached hi.cached
  backed := hw.backed hi.backed
  memory := hw.memory hi.memory
  state := by
    rcases hi.state with ⟨hidle, hpts⟩ | ⟨hst, hk, hp⟩
    · have hleft : AsLeft h.pager := by
        rcases hr with ⟨j, hst⟩ | ⟨-, hl⟩
        · exact absurd hidle.notInTx (by simp [hst.sole.2])
        · exact hl
      exact Or.inl ⟨(hw.idle ⟨hidle, hleft⟩).1, by rw [hpts]; rfl⟩
    · exact Or.inr ⟨hw.stage hst, hw.walKnown hk, hp.transfer hw hg hl hu⟩

/-- The list where no page of it is touched. -/
theorem HeapInv.chain_same (hi : HeapInv h l) (hu : ∀ q ∈ l, Undisturbed q h.pager s')
    (hr : s'.reservedCatalogPages = h.pager.reservedCatalogPages) (hh : s'.freelistHead = h.pager.freelistHead) :
    s'.FreeList l := by
  have hends : s'.EndsList = h.pager.EndsList := by
    funext a
    unfold EndsList
    rw [hr]
  unfold FreeList
  rw [hends, hh]
  exact Linked.Chain.congr hi.chain fun q hq => linkOf_undisturbed (hu q hq) (hi.free q hq).2.2

/-- An access that touches no page of the list. -/
theorem HeapInv.access (hi : HeapInv h l) (hr : Ready h.pager) (hw : Works h.pager s') (hu : ∀ q ∈ l, Undisturbed q h.pager s')
    (hh : s'.freelistHead = h.pager.freelistHead) : HeapInv { h with pager := s' } l := by
  have hadv := hi.advance hr hw (u := h.inUse) (g := id) (fun _ => ⟨rfl, rfl⟩) (fun _ q hq hf => ⟨hq, hf⟩)
    (fun q hq _ => hu q hq) (hi.chain_same hu hw.reserved hh) hi.nodup (fun q hq => Or.inl hq)
    (fun q hq => (hi.free q hq).2.1) fun q hq => lt_of_lt_of_le (hi.used q hq) hw.numPages
  rw [List.map_id] at hadv
  exact hadv

/-- The pages of the list are none of the catalog's. -/
theorem HeapInv.beyond (hi : HeapInv h l) (hq : q ∈ l) : q ≠ 0 ∧ h.pager.reservedCatalogPages ≤ q := by
  have hends := Linked.Chain.mem_not_ends hi.chain hq
  unfold EndsList at hends
  exact ⟨fun hn => hends (Or.inl hn), by omega⟩

/-- Storing the head on page 0 comes after every change of the list. -/
theorem head_step (hr : Ready s) (hb : ∀ q x, s.pages.slot q = some x → q < s.numPages) (k : Nat) (f : Page B → Page B) :
    Works s (({ s with freelistHead := k } : Pager B).modify 0 f) ∧
      (∀ q, q ≠ 0 → Undisturbed q s (({ s with freelistHead := k } : Pager B).modify 0 f)) ∧
      (({ s with freelistHead := k } : Pager B).modify 0 f).freelistHead = k := by
  have hw := setHead_works s k
  obtain ⟨hw', hu', -, -, -, hh⟩ := modify_step (hw.ready hr) (hw.cached hb) 0 f
  exact ⟨hw.trans hw', fun q hq => (setHead_undisturbed s k).trans (hu' q hq), hh⟩

/-! ## Handing out and freeing -/

/-- Popping the list follows the link of its head. -/
theorem getUnusedPageNum_link (hr : Ready s) (h : s.Pops) : s.getUnusedPageNum = (s.freelistHead,
    ({ (s.modify s.freelistHead fun _ => Page.zero) with
      freelistHead := s.linkOf s.freelistHead } : Pager B).modify 0
      fun p0 => p0.setFreelistHead (s.linkOf s.freelistHead)) := by
  have hd := (hr.loaded s.freelistHead).deref
  unfold getUnusedPageNum linkOf
  rw [if_pos h, ← hd]
  simp only [modify, store]
  split <;> rfl

theorem HeapInv.alloc (hi : HeapInv h l) (hr : Ready h.pager) {h' : Heap B} (hs : h.step .alloc = some h') :
    ∃ l', HeapInv h' l' := by
  obtain rfl := Option.some.inj hs
  by_cases hpop : h.pager.Pops
  · obtain ⟨m, rfl, hm⟩ := Linked.Chain.head hi.chain ((pops_iff _).mp hpop)
    have hnd := List.nodup_cons.mp hi.nodup
    have hin := fun q (hq : q ∈ m) => hi.free q (List.mem_cons_of_mem _ hq)
    obtain ⟨hw₁, hu₁, -⟩ := modify_step hr hi.cached h.pager.freelistHead fun _ => Page.zero
    have hr₁ := hw₁.ready hr
    obtain ⟨hw₂, hu₂, hh₂⟩ := head_step hr₁ (hw₁.cached hi.cached) (h.pager.linkOf h.pager.freelistHead)
      fun p0 => p0.setFreelistHead (h.pager.linkOf h.pager.freelistHead)
    obtain ⟨hw₃, hu₃, hh₃, hlt⟩ := read_step (hw₂.ready hr₁) (hw₂.cached (hw₁.cached hi.cached)) h.pager.freelistHead
    rw [if_pos hpop, getUnusedPageNum_link hr hpop]
    dsimp only
    generalize (Pager.modify _ 0 fun p0 : Page B => p0.setFreelistHead (h.pager.linkOf h.pager.freelistHead)).getPage
      h.pager.freelistHead = s₃ at hw₃ hu₃ hh₃ hlt
    have hw := (hw₁.trans hw₂).trans hw₃
    have hu : ∀ q ∈ m, Undisturbed q h.pager s₃ := fun q hq =>
      ((hu₁ q fun hn => hnd.1 (hn ▸ hq)).trans (hu₂ q (hi.beyond (List.mem_cons_of_mem _ hq)).1)).trans (hu₃ q)
    have hends : s₃.EndsList = h.pager.EndsList := by
      funext a
      unfold EndsList
      rw [hw.reserved]
    refine ⟨m, hi.advance hr hw (fun _ => ⟨rfl, rfl⟩) (fun pt q hq hf => ?_) (fun q hq _ => hu q hq) ?_ hnd.2
      (fun q hq => Or.inl (List.mem_cons_of_mem _ hq)) (fun q hq => ?_) fun q hq => ?_⟩
    · refine ⟨List.mem_cons_of_mem _ hq, fun hn => hf (Finset.mem_erase.mpr ⟨?_, hn⟩)⟩
      rintro rfl
      exact hnd.1 hq
    · unfold FreeList
      rw [hends, hh₃, hh₂]
      exact Linked.Chain.congr hm fun q hq => linkOf_undisturbed (hu q hq) (hin q hq).2.2
    · rw [Finset.mem_insert]
      rintro (rfl | hq')
      · exact hnd.1 hq
      · exact (hin q hq).2.1 hq'
    · rcases Finset.mem_insert.mp hq with rfl | hq
      · exact hlt
      · exact lt_of_lt_of_le (hi.used q hq) hw.numPages
  · rw [if_neg hpop, getUnusedPageNum_fresh hpop]
    dsimp only
    obtain ⟨hw, hu, hh, hlt⟩ := read_step hr hi.cached (max h.pager.numPages h.pager.reservedCatalogPages)
    refine ⟨l, hi.advance hr hw (fun _ => ⟨rfl, rfl⟩) (fun _ q hq hf => ⟨hq, hf⟩) (fun q _ _ => hu q)
      (hi.chain_same (fun q _ => hu q) hw.reserved hh) hi.nodup (fun q hq => Or.inl hq) (fun q hq => ?_) fun q hq => ?_⟩
    · rw [Finset.mem_insert]
      rintro (rfl | hq')
      · have := (hi.free _ hq).1
        omega
      · exact (hi.free q hq).2.1 hq'
    · rcases Finset.mem_insert.mp hq with rfl | hq
      · exact hlt
      · exact lt_of_lt_of_le (hi.used q hq) hw.numPages

theorem HeapInv.release (hi : HeapInv h l) (hr : Ready h.pager) {p : Nat} (hin : p ∈ h.inUse) {h' : Heap B}
    (hs : h.step (.free p) = some h') : ∃ l', HeapInv h' l' := by
  obtain rfl := Option.some.inj hs
  have hpl : p ∉ l := fun hn => (hi.free p hn).2.1 hin
  by_cases hf : h.pager.Frees p
  · have hf' := hf
    unfold Frees at hf'
    have hfree : h.pager.pagerFreePage p = ({ (h.pager.modify p fun _ =>
        { (Page.zero : Page B) with body := PageBody.ofLink h.pager.freelistHead }) with freelistHead := p } :
          Pager B).modify 0 fun p0 => p0.setFreelistHead p := by
      unfold pagerFreePage
      rw [if_neg hf]
    obtain ⟨hw₁, hu₁, hv₁, hlt₁, hc₁, -⟩ := modify_step hr hi.cached p fun _ =>
      { (Page.zero : Page B) with body := PageBody.ofLink h.pager.freelistHead }
    obtain ⟨hw₂, hu₂, hh₂⟩ := head_step (hw₁.ready hr) (hw₁.cached hi.cached) p fun p0 => p0.setFreelistHead p
    rw [if_pos hf, hfree]
    have hp0 : p ≠ 0 := fun hn => hf' (Or.inr (Or.inl hn))
    have hlink : (({ (h.pager.modify p fun _ =>
        { (Page.zero : Page B) with body := PageBody.ofLink h.pager.freelistHead }) with freelistHead := p } :
          Pager B).modify 0 fun p0 => p0.setFreelistHead p).linkOf p = h.pager.freelistHead := by
      rw [linkOf_undisturbed (hu₂ p hp0) hc₁, linkOf, hv₁]
      exact PageBody.link_ofLink _
    have hlt := lt_of_lt_of_le hlt₁ hw₂.numPages
    have hc := (hu₂ p hp0).covered hc₁
    generalize (Pager.modify _ 0 fun p0 : Page B => p0.setFreelistHead p) = s₂ at hw₂ hu₂ hh₂ hlink hlt hc
    have hw := hw₁.trans hw₂
    have hu : ∀ q ∈ l, Undisturbed q h.pager s₂ := fun q hq =>
      (hu₁ q fun hn => hpl (hn ▸ hq)).trans (hu₂ q (hi.beyond hq).1)
    have hends : s₂.EndsList = h.pager.EndsList := by
      funext a
      unfold EndsList
      rw [hw.reserved]
    have hpe : ¬ h.pager.EndsList p := fun hn => hf' (by unfold EndsList at hn; omega)
    refine ⟨p :: l, hi.advance hr hw (fun _ => ⟨rfl, rfl⟩) (fun pt q hq hf => ?_) (fun q _ hq => hu q hq) ?_
      (List.nodup_cons.mpr ⟨hpl, hi.nodup⟩) (fun q hq => ?_) (fun q hq => ?_) fun q hq => ?_⟩
    · have hf := fun hn => hf (Finset.mem_insert.mpr hn)
      exact ⟨(List.mem_cons.mp hq).resolve_left fun hn => hf (Or.inl hn), fun hn => hf (Or.inr hn)⟩
    · unfold FreeList
      rw [hends, hh₂]
      exact Linked.Chain.push hi.chain hpe hlink fun q hq => linkOf_undisturbed (hu q hq) (hi.free q hq).2.2
    · rcases List.mem_cons.mp hq with rfl | hq
      · exact Or.inr ⟨hlt, hc⟩
      · exact Or.inl hq
    · rcases List.mem_cons.mp hq with rfl | hq
      · exact Finset.notMem_erase q h.inUse
      · exact fun hn => (hi.free q hq).2.1 (Finset.mem_of_mem_erase hn)
    · exact lt_of_lt_of_le (hi.used q (Finset.mem_of_mem_erase hq)) hw.numPages
  · have hsame : h.pager.pagerFreePage p = h.pager := if_pos (not_not.mp hf)
    rw [if_neg hf, hsame]
    exact ⟨l, hi.advance hr (Works.refl _) (fun _ => ⟨rfl, rfl⟩) (fun _ q hq hf => ⟨hq, hf⟩)
      (fun q _ _ => Undisturbed.refl q _) hi.chain hi.nodup (fun q hq => Or.inl hq)
      (fun q hq hn => (hi.free q hq).2.1 (Finset.mem_of_mem_erase hn)) fun q hq => hi.used q (Finset.mem_of_mem_erase hq)⟩

/-! ## Beginning -/

/-- A transaction begins with the list it finds. -/
theorem HeapInv.begin (hi : HeapInv h l) (ht : h.pager.inTransaction = false) (hidle : Idle h.pager)
    (hleft : AsLeft h.pager) : ∃ j, HeapInv h.started l ∧ h.started.pager = h.pager.pagerBeginTransaction.2 ∧
      Stage h.started.pager j ∧ WalKnown h.started.pager ∧
      Points h.started.pager h.started.atBegin h.started.points l := by
  have hb : h.pager.pagerBeginTransaction = (true, { h.pager with
      inTransaction := true
      isWriter := false
      numPagesAtTxStart := h.pager.numPages
      txSnapshotXid := h.pager.walLsn }) := by
    rcases begin_cases (s := h.pager) (by simp [ht]) with he | he
    · have hg := begin_sole hidle.toSole
      rw [he] at hg
      cases hg
    · rw [he, refresh_asLeft hleft]
      have hfp : (if h.pager.isMemory then h.pager.filePages else h.pager.disk.main.length % fileLengthWrap) =
          h.pager.filePages := by
        rcases hleft.1 with hm | ⟨hlen, -⟩
        · rw [if_pos hm]
        · rw [hlen, ite_self]
      rw [hfp]
  have hstart : h.started = ⟨{ h.pager with
      inTransaction := true
      isWriter := false
      numPagesAtTxStart := h.pager.numPages
      txSnapshotXid := h.pager.walLsn }, h.inUse, ⟨h.inUse, h.pager.numPages, ∅⟩, []⟩ := by
    unfold Heap.started
    rw [if_neg (by simp [ht]), hb]
    rfl
  have hreading := begin_reading hidle hb
  have hknown : WalKnown h.pager := hleft.2
  have hview : ∀ q, ({ h.pager with
      inTransaction := true
      isWriter := false
      numPagesAtTxStart := h.pager.numPages
      txSnapshotXid := h.pager.walLsn } : Pager B).view q = h.pager.view q := by
    intro q
    unfold Pager.view
    rw [ht]
    rfl
  have hpoints : Points ({ h.pager with
      inTransaction := true
      isWriter := false
      numPagesAtTxStart := h.pager.numPages
      txSnapshotXid := h.pager.walLsn } : Pager B) ⟨h.inUse, h.pager.numPages, ∅⟩ [] l := by
    refine ⟨le_refl _, le_refl _, ⟨hi.used, fun q hq _ => ?_⟩, fun i pt hpt => by simp at hpt⟩
    refine ⟨(hi.free q hq).2.1, (hi.free q hq).1, hidle.noShadow q, fun e he => ?_⟩
    have hnil : h.pager.journalRecords = [] := by rw [journalRecords, hidle.noFile]; rfl
    have he : e ∈ h.pager.journalRecords.drop 0 := he
    rw [hnil] at he
    exact absurd he List.not_mem_nil
  rw [hstart, hb]
  refine ⟨[], ⟨?_, hi.nodup, hi.free, hi.used, hi.cached, hi.backed, hi.memory,
    Or.inr ⟨⟨[], Or.inl ⟨hreading, rfl⟩⟩, hknown, hpoints⟩⟩, rfl, Or.inl ⟨hreading, rfl⟩, hknown, hpoints⟩
  exact Linked.Chain.congr hi.chain fun q _ => by rw [linkOf, hview, linkOf]

/-! ## Savepoints -/

/-- Savepoints are a field of their own. -/
theorem savepoint_works (hst : Stage s j) (name : SavepointName) : Stage (s.pagerSavepoint name) j ∧
    ∃ jp sps, s.pagerSavepoint name = { s with journalPos := jp, savepoints := sps } ∧
      (16 ≤ s.savepoints.length → sps = s.savepoints) ∧
      (¬ 16 ≤ s.savepoints.length → ∃ off, sps = ⟨name, off, s.numPages⟩ :: s.savepoints ∧ s.journalRecords.length ≤ off) := by
  have hrec := hst.records
  have hstage : ∀ jp sps, (s.journalPos = none → jp = none) → (s.journalPos.isSome = true → jp.isSome = true) →
      Stage ({ s with journalPos := jp, savepoints := sps } : Pager B) j := by
    intro jp sps hnone hsome
    rcases hst with ⟨hr, rfl⟩ | hw
    · refine Or.inl ⟨⟨hr.toSole.congr rfl rfl, hr.inTx, hr.notWriter, fun hm => hnone (hr.noJournal hm), hr.noFile,
        hr.noShadow, hr.unmarked, hr.lock⟩, rfl⟩
    · refine Or.inr ⟨hw.toSole.congr rfl rfl, hw.inTx, hw.writer, fun hm => ?_, hw.inMemory⟩
      have hh := hw.holds hm
      exact ⟨hh.self, hh.lock, hh.journal, hsome hh.pos⟩
  unfold pagerSavepoint
  rw [if_pos hst.sole.2]
  simp only
  by_cases hfull : 16 ≤ s.savepoints.length
  · rw [if_pos hfull]
    exact ⟨hst, _, _, rfl, fun _ => rfl, fun hn => absurd hfull hn⟩
  · rw [if_neg hfull]
    cases hp : s.journalPos with
    | none =>
      have hnil : s.journalRecords = [] := by
        rw [hrec]
        rcases hst with ⟨-, rfl⟩ | hw
        · rfl
        · by_cases hm : s.isMemory = true
          · exact (hw.inMemory hm).2
          · have := (hw.holds (by simpa using hm)).pos
            rw [hp] at this
            cases this
      have hs := hstage none (⟨name, 0, s.numPages⟩ :: s.savepoints) (fun _ => rfl) fun hn => by simp [hp] at hn
      exact ⟨hs, none, _, rfl, fun hn => absurd hn hfull,
        fun _ => ⟨0, rfl, by rw [hnil]; exact le_refl _⟩⟩
    | some pos =>
      exact ⟨hstage _ _ (fun hn => by simp [hp] at hn) fun _ => rfl, _, _, rfl, fun hn => absurd hn hfull,
        fun _ => ⟨_, rfl, le_refl _⟩⟩

theorem HeapInv.savepoint (hi : HeapInv h l) (hst : Stage h.pager j) (hk : WalKnown h.pager)
    (hp : Points h.pager h.atBegin h.points l) (name : SavepointName) :
    HeapInv { h with
      pager := h.pager.pagerSavepoint name
      points := if 16 ≤ h.pager.savepoints.length then h.points else ⟨h.inUse, h.pager.numPages, ∅⟩ :: h.points } l := by
  obtain ⟨hst', jp, sps, he, hfull, hroom⟩ := savepoint_works hst name
  rw [he] at hst' ⊢
  refine ⟨hi.chain, hi.nodup, hi.free, hi.used, hi.cached, hi.backed, hi.memory, Or.inr ⟨⟨j, hst'⟩, hk, ?_⟩⟩
  refine ⟨hp.txStart, hp.began_le, hp.began, fun i pt hpt => ?_⟩
  dsimp only at hpt ⊢
  by_cases h16 : 16 ≤ h.pager.savepoints.length
  · rw [if_pos h16] at hpt
    rw [hfull h16]
    exact hp.saved i pt hpt
  · obtain ⟨off, hsps, hoff⟩ := hroom h16
    rw [if_neg h16] at hpt
    rw [hsps]
    cases i with
    | zero =>
      obtain rfl := Option.some.inj hpt
      refine ⟨_, rfl, rfl, hp.began_le, hi.used, fun q hq _ => ⟨(hi.free q hq).2.1, (hi.free q hq).1, fun e he => ?_⟩⟩
      have he : e ∈ h.pager.journalRecords.drop off := he
      rw [List.drop_eq_nil_of_le hoff] at he
      exact absurd he List.not_mem_nil
    | succ i => exact hp.saved i pt hpt

omit [PageBody B] in
/-- The savepoints from a name on are what is left behind the newer ones. -/
theorem findSavepoint_eq (h : Heap B) (name : SavepointName) :
    h.pager.findSavepoint name = h.pager.savepoints.drop (h.newer name) :=
  List.suffix_iff_eq_drop.mp (List.dropWhile_suffix _)

omit [PageBody B] in
/-- Forgetting the newest points. -/
theorem Points.drop {b : Point} {pts : List Point} (hp : Points s b pts l) (k : Nat)
    (hsps : s'.savepoints = s.savepoints.drop k) (htx : s'.numPagesAtTxStart = s.numPagesAtTxStart)
    (hle : b.count ≤ s'.numPages)
    (hshadow : ∀ q, s.shadowPages.slot q = none → s'.shadowPages.slot q = none)
    (hrec : ∀ off q, s.Unrecorded off q → s'.Unrecorded off q) : Points s' b (pts.drop k) l := by
  refine ⟨by rw [htx]; exact hp.txStart, hle, ?_, fun i pt hpt => ?_⟩
  · exact hp.began.transfer ⟨rfl, rfl⟩ (fun _ hq hf => ⟨hq, hf⟩) fun q _ _ hc => ⟨hshadow q hc.1, hrec 0 q hc.2⟩
  · rw [List.getElem?_drop] at hpt
    obtain ⟨sp, hsp, hcount, hb, hk⟩ := hp.saved _ pt hpt
    refine ⟨sp, ?_, hcount, hb, hk.transfer ⟨rfl, rfl⟩ (fun _ hq hf => ⟨hq, hf⟩) fun q _ _ hc => hrec _ q hc⟩
    rw [hsps, List.getElem?_drop]
    exact hsp

theorem HeapInv.releaseSavepoint (hi : HeapInv h l) (hst : Stage h.pager j) (hk : WalKnown h.pager)
    (hp : Points h.pager h.atBegin h.points l) (name : SavepointName) :
    HeapInv { h with
      pager := h.pager.pagerReleaseSavepoint name
      points := if h.pager.findSavepoint name = [] then h.points else h.points.drop (h.newer name + 1) } l := by
  have hfind := findSavepoint_eq h name
  unfold pagerReleaseSavepoint
  rw [if_neg (by simp [hst.sole.2])]
  cases hf : h.pager.findSavepoint name with
  | nil =>
    rw [if_pos rfl]
    exact hi
  | cons sp rest =>
    rw [if_neg (by simp)]
    have hrest : rest = h.pager.savepoints.drop (h.newer name + 1) := by
      rw [← List.drop_drop, ← hfind, hf]
      rfl
    have hst' : Stage ({ h.pager with savepoints := rest } : Pager B) j := by
      rcases hst with ⟨hr, rfl⟩ | hw
      · exact Or.inl ⟨⟨hr.toSole.congr rfl rfl, hr.inTx, hr.notWriter, hr.noJournal, hr.noFile, hr.noShadow,
          hr.unmarked, hr.lock⟩, rfl⟩
      · exact Or.inr (hw.congr rfl rfl rfl rfl rfl rfl rfl fun _ => rfl)
    refine ⟨hi.chain, hi.nodup, hi.free, hi.used, hi.cached, hi.backed, hi.memory, Or.inr ⟨⟨j, hst'⟩, hk, ?_⟩⟩
    exact hp.drop _ hrest rfl hp.began_le (fun _ hs => hs) fun _ _ hr => hr

/-! ## Going back -/

omit [PageBody B] in
theorem slot_replayed (c : Slots (Page B)) {rs : List (JournalEntry B)} (hrs : ∀ e ∈ rs, e.1 ≠ q) :
    (c.overwriteAll rs).slot q = c.slot q := by
  have hnone : rs.reverse.lookup q = none := by
    rw [List.lookup_eq_none_iff]
    intro e he
    have := hrs e (List.mem_reverse.mp he)
    simpa using this.symm
  rw [Slots.slot_overwriteAll, hnone]
  cases c.slot q <;> rfl

theorem mainPage_replayed {rs : List (JournalEntry B)} (hrs : ∀ e ∈ rs, e.1 ≠ q) {cut : Prop} [Decidable cut] {n : Nat}
    (hmain : s'.disk.main = if cut then BlockFile.truncate Page.zero (recoverMain s.disk.main rs) n
      else recoverMain s.disk.main rs) (hn : cut → q < n) : s'.mainPage q = s.mainPage q := by
  have hread : BlockFile.read Page.zero (recoverMain s.disk.main rs) q = s.mainPage q :=
    BlockFile.read_writeAll_of_not_mem _ _ _ _ hrs
  unfold mainPage at hread ⊢
  rw [hmain]
  split
  · next hc => rw [BlockFile.read_truncate, if_pos (hn hc), hread]
  · exact hread

theorem Covered.replayed (hc : Covered s q) (hslot : s'.pages.slot q = s.pages.slot q)
    (hmain : s'.mainPage q = s.mainPage q)
    (hfp : s'.filePages = s.filePages ∨ q < s'.filePages ∨ s.mainPage q = Page.zero) : Covered s' q := by
  rcases hc with hc | hc | hc
  · exact Or.inl (hslot ▸ hc)
  · rcases hfp with hfp | hfp | hfp
    · exact Or.inr (Or.inl (hfp ▸ hc))
    · exact Or.inr (Or.inl hfp)
    · exact Or.inr (Or.inr (hmain.trans hfp))
  · exact Or.inr (Or.inr (hmain.trans hc))

theorem RolledTo.unrecorded {sp : Savepoint} {rest : List Savepoint} (h : RolledTo s s' sp rest) {off : Nat}
    (hr : s.Unrecorded off q) : s'.Unrecorded off q := by
  intro e he
  have htake : s'.journalRecords = s.journalRecords.take sp.journalOffset := by
    unfold journalRecords
    rw [h.journal]
    cases s.disk.journal with
    | none => rw [Option.map_none, Option.getD_none, List.take_nil]
    | some j => rfl
  rw [htake, List.drop_take] at he
  exact hr e (List.mem_of_mem_take he)

/-- `ROLLBACK TO` leaves the pages it does not replay or cut off undisturbed. -/
theorem RolledTo.undisturbed {sp : Savepoint} {rest : List Savepoint} (h : RolledTo s s' sp rest) (hfit : Fits s)
    (hmem : s.isMemory = true → s.disk.main = []) (hq : q < sp.numPagesAtSavepoint)
    (hrec : s.Unrecorded sp.journalOffset q) : Undisturbed q s s' := by
  have hrs : ∀ e ∈ s.replayed sp.journalOffset, e.1 ≠ q := fun e he => hrec e (List.mem_reverse.mp he)
  have hkeep : ¬ (s.CutsTo sp.numPagesAtSavepoint ∧ sp.numPagesAtSavepoint ≤ q ∧ q < s.numPages) := by omega
  have hslot : s'.pages.slot q = s.pages.slot q := by rw [h.slot, if_neg hkeep, slot_replayed _ hrs]
  have hshadow : s'.shadowPages.slot q = s.shadowPages.slot q := by rw [h.shadow, if_neg hkeep, slot_replayed _ hrs]
  have hwrap : s.CutsTo sp.numPagesAtSavepoint → s.isMemory = false →
      sp.numPagesAtSavepoint % fileLengthWrap = sp.numPagesAtSavepoint := by
    intro hc hm
    have := (hfit hm).2
    have := hc.2
    exact Nat.mod_eq_of_lt (by omega)
  have hmain : s'.mainPage q = s.mainPage q :=
    mainPage_replayed hrs h.main fun hc => by rw [hwrap hc.1 hc.2]; exact hq
  have hfp : s'.filePages = s.filePages ∨ q < s'.filePages ∨ s.mainPage q = Page.zero := by
    by_cases hm : s.isMemory = true
    · refine Or.inr (Or.inr ?_)
      rw [mainPage, hmem hm]
      exact BlockFile.read_eq_filler _ _ (Nat.zero_le _)
    · rw [h.filePages]
      split
      · next hc =>
        rw [hwrap hc (by simpa using hm)]
        exact Or.inr (Or.inl hq)
      · exact Or.inl rfl
  have hsame : s'.isWriter = s.isWriter ∧ s'.inTransaction = s.inTransaction ∧ s'.disk.wal = s.disk.wal ∧
      s'.useWal = s.useWal ∧ s'.walOpen = s.walOpen := by
    obtain ⟨_, _, _, _, _, _, _, rfl⟩ := h.same
    exact ⟨rfl, rfl, rfl, rfl, rfl⟩
  obtain ⟨hw, ht, hwal⟩ := hsame
  have hcov : Covered s q → Covered s' q := fun hc => hc.replayed hslot hmain hfp
  refine ⟨fun hc => ?_, hcov, fun hs => hshadow.trans hs, fun k hr => h.unrecorded hr⟩
  unfold Pager.view
  rw [hw, ht, hshadow, hc.base_eq (hcov hc) hslot (fun _ => hmain) hwal]

theorem HeapInv.rollbackTo (hi : HeapInv h l) (hst : Stage h.pager j) (hk : WalKnown h.pager)
    (hp : Points h.pager h.atBegin h.points l) (hfit : Fits h.pager) {name : SavepointName} {pt : Point}
    {sp : Savepoint} {rest : List Savepoint} (hf : h.pager.findSavepoint name = sp :: rest)
    (hpt : h.points[h.newer name]? = some pt) (hpos : 0 < pt.count)
    (hfreed : pt.FreeBefore (h.pager.Unrecorded sp.journalOffset)) :
    HeapInv ⟨h.pager.pagerRollbackToSavepoint name, pt.inUse, h.atBegin, h.points.drop (h.newer name)⟩ l := by
  obtain ⟨sp', hsp, hcount, hle, hkept⟩ := hp.saved _ pt hpt
  have hdrop : sp :: rest = h.pager.savepoints.drop (h.newer name) := by rw [← findSavepoint_eq, hf]
  obtain rfl : sp' = sp := by
    have hget : (h.pager.savepoints.drop (h.newer name))[0]? = some sp' := by
      rw [List.getElem?_drop, Nat.add_zero]
      exact hsp
    rw [← hdrop] at hget
    exact (Option.some.inj hget).symm
  have hr := rollbackTo_rolledTo hst.sole.2 hf
  have hlist : ∀ q ∈ l, q ∉ pt.inUse ∧ q < sp'.numPagesAtSavepoint ∧ h.pager.Unrecorded sp'.journalOffset q := by
    intro q hq
    rw [hcount]
    exact hkept.all hfreed q hq
  generalize h.pager.pagerRollbackToSavepoint name = s' at hr
  have hund : ∀ q ∈ l, Undisturbed q h.pager s' := fun q hq =>
    hr.undisturbed hfit hi.memory (hlist q hq).2.1 (hlist q hq).2.2
  have hst' := hr.stage hst
  have hsame : s'.reservedCatalogPages = h.pager.reservedCatalogPages ∧ s'.freelistHead = h.pager.freelistHead ∧
      s'.isMemory = h.pager.isMemory ∧ (WalKnown h.pager → WalKnown s') ∧
      s'.numPagesAtTxStart = h.pager.numPagesAtTxStart ∧ s'.savepoints = sp' :: rest := by
    obtain ⟨_, _, _, _, _, _, _, rfl⟩ := hr.same
    exact ⟨rfl, rfl, rfl, fun hw => hw, rfl, rfl⟩
  obtain ⟨hres, hhead, hm, hwk, htx, hsps⟩ := hsame
  have hnum := hr.numPages
  -- a slot that is filled afterwards was filled before, and lies below the new count
  have hcache : ∀ q, (s'.pages.slot q).isSome = true → (h.pager.pages.slot q).isSome = true ∧ q < s'.numPages := by
    intro q hq
    rw [hr.slot] at hq
    split at hq
    · cases hq
    · next hn =>
      rw [Slots.isSome_overwriteAll] at hq
      obtain ⟨x, hx⟩ := Option.isSome_iff_exists.mp hq
      have hlt := hi.cached q x hx
      refine ⟨hq, ?_⟩
      by_contra hge
      exact hn ⟨⟨by omega, by omega⟩, by omega, hlt⟩
  refine ⟨hi.chain_same hund hres hhead, hi.nodup, fun q hq => ?_, fun q hq => ?_, fun q x hq => ?_, fun q hq => ?_,
    fun hmem => ?_, Or.inr ⟨⟨_, hst'⟩, hwk hk, ?_⟩⟩
  · dsimp only
    rw [hnum]
    exact ⟨(hlist q hq).2.1, (hlist q hq).1, (hund q hq).covered (hi.free q hq).2.2⟩
  · dsimp only at hq ⊢
    rw [hnum, hcount]
    exact hkept.used q hq
  · exact (hcache q (by rw [show s'.pages.slot q = some x from hq]; rfl)).2
  · dsimp only at hq ⊢
    rw [hr.shadow] at hq
    rw [hr.slot]
    split at hq
    · cases hq
    · next hn =>
      rw [if_neg hn, Slots.isSome_overwriteAll]
      rw [Slots.isSome_overwriteAll] at hq
      exact hi.backed q hq
  · have hmem' : h.pager.isMemory = true := hm.symm.trans hmem
    have hnil : h.pager.replayed sp'.journalOffset = [] := by
      have hno : h.pager.journalRecords = [] := by
        rw [hst.records]
        rcases hst with ⟨-, rfl⟩ | hw
        · rfl
        · exact (hw.inMemory hmem').2
      rw [replayed, hno, List.drop_nil, List.reverse_nil]
    show s'.disk.main = []
    rw [hr.main, if_neg (by simp [hmem']), hnil]
    exact hi.memory hmem'
  · refine hp.drop _ (hsps.trans hdrop) htx ?_ ?_ ?_
    · dsimp only
      rw [hnum, hcount]
      exact hle
    · intro q hq
      rw [hr.shadow, Slots.slot_overwriteAll, hq]
      split <;> rfl
    · exact fun off q hrec => hr.unrecorded hrec

/-- The list after a rollback is the list before it. -/
theorem HeapInv.rollback (hi : HeapInv h l) (hst : Stage h.pager j) (hp : Points h.pager h.atBegin h.points l)
    (hfit : Fits h.pager)
    (hfreed : h.atBegin.FreeBefore fun q => h.pager.shadowPages.slot q = none ∧ h.pager.Unrecorded 0 q) (hc : h.pager.pagerRollback = some s') :
    HeapInv { h with pager := s', inUse := h.atBegin.inUse, points := [] } l := by
  have hr := rollback_rolledBack hst.sole.2 hc
  obtain ⟨hidle, -⟩ := hst.rollback hi.cached hi.memory hr
  have hlist : ∀ q ∈ l, q ∉ h.atBegin.inUse ∧ q < h.atBegin.count ∧ h.pager.shadowPages.slot q = none ∧
      h.pager.Unrecorded 0 q := hp.began.all hfreed
  have hcut : ∀ q, q < h.atBegin.count → q < s'.numPages ∧ (h.pager.Grew → q < h.pager.numPagesAtTxStart) := by
    intro q hq
    have h1 := hp.txStart
    have h2 := hp.began_le
    rw [hr.numPages]
    split <;> exact ⟨by omega, fun _ => by omega⟩
  have hsame : s'.reservedCatalogPages = h.pager.reservedCatalogPages ∧ s'.freelistHead = h.pager.freelistHead ∧
      s'.disk.wal = h.pager.disk.wal ∧ s'.useWal = h.pager.useWal ∧ s'.walOpen = h.pager.walOpen ∧
      s'.inTransaction = false := by
    obtain ⟨_, _, _, _, _, _, _, rfl⟩ := hr.same
    exact ⟨rfl, rfl, rfl, rfl, rfl, rfl⟩
  obtain ⟨hres, hhead, hwal, hu, ho, ht⟩ := hsame
  have hpage : ∀ q ∈ l, s'.view q = h.pager.view q ∧ Covered s' q := by
    intro q hq
    obtain ⟨-, hlt, hns, hrec⟩ := hlist q hq
    have hrs : ∀ e ∈ h.pager.journalRecords, e.1 ≠ q := hrec
    have hkeep : ¬ (h.pager.Grew ∧ h.pager.numPagesAtTxStart ≤ q ∧ q < h.pager.numPages) := by
      rintro ⟨hg, hge, -⟩
      have := (hcut q hlt).2 hg
      omega
    have hwrap : h.pager.Grew → h.pager.isMemory = false →
        h.pager.numPagesAtTxStart % fileLengthWrap = h.pager.numPagesAtTxStart := by
      intro hg hm
      have := (hfit hm).2
      have := hg.2
      exact Nat.mod_eq_of_lt (by omega)
    have hslot : s'.pages.slot q = h.pager.pages.slot q := by rw [hr.slot, if_neg hkeep, slot_replayed _ hrs]
    have hmain : s'.mainPage q = h.pager.mainPage q :=
      mainPage_replayed hrs hr.main fun hg => by rw [hwrap hg.1 hg.2]; exact (hcut q hlt).2 hg.1
    have hfp : s'.filePages = h.pager.filePages ∨ q < s'.filePages ∨ h.pager.mainPage q = Page.zero := by
      by_cases hm : h.pager.isMemory = true
      · refine Or.inr (Or.inr ?_)
        rw [mainPage, hi.memory hm]
        exact BlockFile.read_eq_filler _ _ (Nat.zero_le _)
      · rw [hr.filePages]
        split
        · next hg =>
          rw [hwrap hg (by simpa using hm)]
          exact Or.inr (Or.inl ((hcut q hlt).2 hg))
        · exact Or.inl rfl
    have hcov := (hi.free q hq).2.2
    have hcov' : Covered s' q := hcov.replayed hslot hmain hfp
    have hnot : ¬ h.pager.Shadowed q := not_shadowed_of_slot hns
    refine ⟨?_, hcov'⟩
    rw [view_unshadowed hnot, ← hcov.base_eq hcov' hslot (fun _ => hmain) ⟨hwal, hu, ho⟩]
    unfold Pager.view
    rw [ht]
    rfl
  have hends : s'.EndsList = h.pager.EndsList := by
    funext a
    unfold EndsList
    rw [hres]
  refine ⟨?_, hi.nodup, fun q hq => ⟨(hcut q (hlist q hq).2.1).1, (hlist q hq).1, (hpage q hq).2⟩,
    fun q hq => (hcut q (hp.began.used q hq)).1, hidle.cached, fun q hq => ?_, hidle.memory, Or.inl ⟨hidle, rfl⟩⟩
  · unfold FreeList
    rw [hends, hhead]
    exact Linked.Chain.congr hi.chain fun q hq => by rw [linkOf, (hpage q hq).1, linkOf]
  · dsimp only at hq
    rw [hidle.noShadow] at hq
    cases hq

/-! ## Committing -/

omit [PageBody B] in
/-- The frames of a commit are those of the pages it flushes. -/
theorem lastFrame_walAfter {t : Pager B} {w : Option (List (Frame B))} {ws : List (JournalEntry B)}
    (hw : w.getD [] = t.disk.wal.getD [] ++ ws.map t.commitFrame) (hq : ∀ e ∈ ws, e.1 ≠ q) :
    ((w.getD []).reverse.find? fun f => f.pageNum == q && f.crcOk) = t.lastFrame q := by
  have hnone : ((ws.map t.commitFrame).reverse.find? fun f => f.pageNum == q && f.crcOk) = none := by
    rw [List.find?_eq_none]
    intro f hf
    obtain ⟨e, he, rfl⟩ := List.mem_map.mp (List.mem_reverse.mp hf)
    simpa [commitFrame] using hq e he
  rw [hw, List.reverse_append, List.find?_append, hnone]
  rfl

/-- A page that the commit does not flush reads as before. -/
theorem FlushedDirty.readPage {t t' : Pager B} (h : FlushedDirty t t') (hk : WalKnown t) (hc : Covered t q)
    (hslot : t.pages.slot q = none) (hbuf : t.flushBuf q = none) :
    Covered t' q ∧ t'.readPage q = t.readPage q := by
  have hflushed : ∀ e ∈ t.flushed t.dirtyPages, e.1 ≠ q := by
    rintro e he rfl
    have := (mem_flushed he).2
    rw [hbuf] at this
    cases this
  have hmain : t'.mainPage q = t.mainPage q := by
    unfold mainPage
    rw [h.main]
    split
    · exact BlockFile.read_writeAll_of_not_mem _ _ _ _ hflushed
    · rfl
  have hframe : t'.lastFrame q = t.lastFrame q := by
    unfold lastFrame
    rw [h.wal]
    split
    · exact lastFrame_walAfter (walAfter_getD t _) hflushed
    · rfl
  have hsame : t'.pages = t.pages ∧ t'.useWal = t.useWal := by
    obtain ⟨_, _, _, _, _, _, rfl⟩ := h.same
    exact ⟨rfl, rfl⟩
  have hc' : Covered t' q := by
    rcases hc with hc | hc | hc
    · rw [hslot] at hc
      cases hc
    · exact Or.inr (Or.inl (lt_of_lt_of_le hc h.filePages_le))
    · exact Or.inr (Or.inr (hmain.trans hc))
  refine ⟨hc', ?_⟩
  rw [hc'.readPage (by rw [hsame.1, hslot]), hc.readPage hslot, hmain, hframe, hsame.2]
  -- either no WAL has a frame of the page, or the WAL was open and stays so
  by_cases hw : t.disk.wal.isSome = true
  · obtain ⟨hu, ho⟩ := hk hw
    rw [h.staysOpen ho, ho]
  · have hnone : t.lastFrame q = none := by
      rw [lastFrame, show t.disk.wal = none by simpa using hw]
      rfl
    rw [hnone, Option.map_none, Option.getD_none, ite_self, ite_self]

/-- A commit keeps the list. -/
theorem HeapInv.commit (hi : HeapInv h l) (hst : Stage h.pager j) (hk : WalKnown h.pager)
    (hc : h.pager.pagerCommit = some s') : HeapInv { h with pager := s', points := [] } l := by
  obtain ⟨hidle, -⟩ := hst.commit hi.cached hi.backed hi.memory hc
  obtain ⟨hsole, htx⟩ := hst.sole
  have hpage : s'.reservedCatalogPages = h.pager.reservedCatalogPages ∧ s'.freelistHead = h.pager.freelistHead ∧
      h.pager.numPages ≤ s'.numPages ∧ ∀ q ∈ l, s'.view q = h.pager.view q ∧ Covered s' q := by
    by_cases hw : h.pager.hasWrites = true
    · obtain ⟨t, hs, hpub⟩ := commit_committed hsole htx hw hc
      obtain ⟨t', hfl, hmain, hwal, hfp, ho, -⟩ := hpub.flush
      have hno : h.pager.isWriter = false → ∀ p, h.pager.shadowPages.slot p = none := fun hn => by
        rcases hst with ⟨hr, -⟩ | hwr
        · exact hr.noShadow
        · rw [hwr.writer] at hn
          cases hn
      have hsame : t.reservedCatalogPages = h.pager.reservedCatalogPages ∧ t.freelistHead = h.pager.freelistHead ∧
          WalKnown t ∧ SameRead h.pager t := by
        obtain ⟨_, _, _, _, _, rfl⟩ := hs.same
        exact ⟨rfl, rfl, hk, ⟨rfl, rfl, rfl, rfl, rfl⟩⟩
      obtain ⟨hres, hhead, hkt, hread⟩ := hsame
      have hend : s'.reservedCatalogPages = t.reservedCatalogPages ∧ s'.freelistHead = t.freelistHead ∧
          s'.numPages = t.numPages ∧ s'.inTransaction = false ∧ s'.useWal = t.useWal := by
        obtain ⟨_, _, _, _, _, _, _, rfl⟩ := hpub.same
        exact ⟨rfl, rfl, rfl, rfl, rfl⟩
      obtain ⟨hres', hhead', hnum, ht', hu'⟩ := hend
      have hslot := hpub.slot
      have hview' : ∀ q, s'.view q = s'.base q := fun q => by
        unfold Pager.view
        rw [ht']
        rfl
      refine ⟨hres'.trans hres, hhead'.trans hhead, ?_, fun q hq => ?_⟩
      · rw [hnum, hs.numPages]
        split <;> omega
      · have h0 := (hi.beyond hq).1
        have hcov := (hi.free q hq).2.2
        have htslot : t.pages.slot q = h.pager.pages.slot q := by rw [hs.slot, if_neg h0]
        have htshadow : t.shadowPages.slot q = h.pager.shadowPages.slot q := by rw [hs.shadow, if_neg fun hn => h0 hn.1]
        rw [hview']
        unfold Pager.base
        rw [hslot]
        cases hb : t.flushBuf q with
        | some x =>
          have hx := hs.flushBuf htx hno hb
          rw [if_neg h0] at hx
          exact ⟨hx, Or.inl (by rw [hslot, hb]; rfl)⟩
        | none =>
          have hnone : h.pager.shadowPages.slot q = none ∧ h.pager.pages.slot q = none := by
            unfold flushBuf at hb
            rw [htshadow, htslot] at hb
            cases hsh : h.pager.shadowPages.slot q with
            | some x =>
              rw [hsh] at hb
              cases hb
            | none =>
              rw [hsh] at hb
              exact ⟨rfl, hb⟩
          have hct : Covered t q := covered_of_sameRead hread (fun hn => by rw [htslot]; exact hn) hcov
          obtain ⟨hc', hr'⟩ := hfl.readPage hkt hct (htslot.trans hnone.2) hb
          have hlast : SameRead t' s' := by
            refine ⟨hmain, hwal, hfp, ?_, ho⟩
            rw [hu']
            obtain ⟨_, _, _, _, _, _, rfl⟩ := hfl.same
            rfl
          have hslot' : t'.pages = t.pages := by
            obtain ⟨_, _, _, _, _, _, rfl⟩ := hfl.same
            rfl
          refine ⟨?_, covered_of_sameRead hlast (fun hn => ?_) hc'⟩
          · rw [Option.getD_none, hlast.readPage, hr', hread.readPage]
            have hns : ¬ h.pager.Shadowed q := not_shadowed_of_slot hnone.1
            rw [view_unshadowed hns, Pager.base, hnone.2, Option.getD_none]
          · rw [hslot', htslot, hnone.2] at hn
            cases hn
    · have hw : h.pager.hasWrites = false := by simpa using hw
      rw [commit_readOnly htx hw] at hc
      obtain rfl := Option.some.inj hc
      have hns : ∀ q, h.pager.view q = h.pager.base q := fun q => view_unshadowed fun hn => by
        unfold hasWrites at hw
        rw [Bool.or_eq_false_iff] at hw
        obtain ⟨x, hx⟩ := Option.isSome_iff_exists.mp hn.2
        rw [(h.pager.shadowPages.any_iff).mpr ⟨q, x, hx⟩] at hw
        cases hw.1
      by_cases hp : h.pager.journalPos.isSome = true
      · rw [if_pos hp]
        exact ⟨rfl, rfl, le_refl _, fun q hq => ⟨(hns q).symm, (hi.free q hq).2.2⟩⟩
      · rw [if_neg hp]
        exact ⟨rfl, rfl, le_refl _, fun q hq => ⟨(hns q).symm, (hi.free q hq).2.2⟩⟩
  obtain ⟨hres, hhead, hnum, hview⟩ := hpage
  have hends : s'.EndsList = h.pager.EndsList := by
    funext a
    unfold EndsList
    rw [hres]
  refine ⟨?_, hi.nodup, fun q hq => ⟨lt_of_lt_of_le (hi.free q hq).1 hnum, (hi.free q hq).2.1, (hview q hq).2⟩,
    fun q hq => lt_of_lt_of_le (hi.used q hq) hnum, hidle.cached, fun q hq => ?_, hidle.memory, Or.inl ⟨hidle, rfl⟩⟩
  · unfold FreeList
    rw [hends, hhead]
    exact Linked.Chain.congr hi.chain fun q hq => by rw [linkOf, (hview q hq).1, linkOf]
  · dsimp only at hq
    rw [hidle.noShadow] at hq
    cases hq

/-! ## Runs -/

theorem HeapInv.outside (hi : HeapInv h l) (ht : h.pager.inTransaction = false) : Idle h.pager ∧ h.points = [] := by
  rcases hi.state with hidle | ⟨⟨j, hst⟩, -⟩
  · exact hidle
  · exact absurd ht (by simp [hst.sole.2])

theorem HeapInv.inside (hi : HeapInv h l) (ht : h.pager.inTransaction = true) :
    (∃ j, Stage h.pager j) ∧ WalKnown h.pager ∧ Points h.pager h.atBegin h.points l := by
  rcases hi.state with ⟨hidle, -⟩ | hin
  · exact absurd ht (by simp [hidle.notInTx])
  · exact hin

theorem HeapInv.ready (hi : HeapInv h l) (hl : h.pager.inTransaction = false → AsLeft h.pager) : Ready h.pager := by
  cases ht : h.pager.inTransaction with
  | true => exact Or.inl (hi.inside ht).1
  | false => exact Or.inr ⟨(hi.outside ht).1, hl ht⟩

/-- No page of the list is anybody's. -/
theorem HeapInv.unowned (hi : HeapInv h l) (hp : p ∈ h.inUse ∨ p < h.pager.reservedCatalogPages) (hq : q ∈ l) :
    q ≠ p := by
  rintro rfl
  rcases hp with hp | hp
  · exact (hi.free q hq).2.1 hp
  · have := (hi.beyond hq).2
    omega

/-- An access to a page that is not free. -/
theorem HeapInv.touch (hi : HeapInv h l) (hr : Ready h.pager) (ht : Touches p h.pager s')
    (hp : p ∈ h.inUse ∨ p < h.pager.reservedCatalogPages) : HeapInv { h with pager := s' } l :=
  hi.access hr ht.works (fun q hq => ht.others q (hi.unowned hp hq) (hi.beyond hq).1) ht.head

/-- One step lemma for each kind of operation, put together. -/
theorem HeapInv.step (hi : HeapInv h l) {op : HeapOp B} (hd : Disciplined h op) {h' : Heap B}
    (hs : h.step op = some h') : ∃ l', HeapInv h' l' := by
  obtain ⟨hfit, hd⟩ := hd
  -- outside a transaction an operation of one leaves the heap as it is
  have hsame : ∀ s₁ : Pager B, s₁ = h.pager → HeapInv { h with pager := s₁ } l := by
    rintro _ rfl
    exact hi
  have hstarted : h.pager.inTransaction = true → h.started = h := fun ht => if_pos ht
  cases op with
  | begin =>
    obtain rfl := Option.some.inj hs
    cases ht : h.pager.inTransaction with
    | true =>
      rw [hstarted ht]
      exact ⟨l, hi⟩
    | false =>
      obtain ⟨_, hi', -⟩ := hi.begin ht (hi.outside ht).1 (hd ht)
      exact ⟨l, hi'⟩
  | alloc => exact hi.alloc (hi.ready hd) hs
  | free p => exact hi.release (hi.ready hd.1) hd.2 hs
  | read p =>
    obtain rfl := Option.some.inj hs
    obtain ⟨hw, hu, hh, -⟩ := read_step (hi.ready hd) hi.cached p
    exact ⟨l, hi.access (hi.ready hd) hw (fun q _ => hu q) hh⟩
  | write p f =>
    obtain rfl := Option.some.inj hs
    obtain ⟨hw, hu, -, -, -, hh⟩ := modify_step (hi.ready hd.1) hi.cached p f
    exact ⟨l, hi.touch (hi.ready hd.1) ⟨hw, fun q hq _ => hu q hq, hh⟩ hd.2⟩
  | shadow p =>
    obtain rfl := Option.some.inj hs
    cases ht : h.pager.inTransaction with
    | true =>
      obtain ⟨⟨j, hst⟩, -, -⟩ := hi.inside ht
      exact ⟨l, hi.touch (Or.inl ⟨j, hst⟩) (shadow_step hst hfit hi.cached p) hd⟩
    | false => exact ⟨l, hsame _ (if_pos ht)⟩
  | journal p =>
    obtain rfl := Option.some.inj hs
    cases ht : h.pager.inTransaction with
    | true =>
      obtain ⟨⟨j, hst⟩, -, -⟩ := hi.inside ht
      exact ⟨l, hi.touch (Or.inl ⟨j, hst⟩) (journal_step hst hfit hi.cached p) hd⟩
    | false => exact ⟨l, hsame _ (journalPage_idle (hi.outside ht).1 p)⟩
  | savepoint name =>
    obtain rfl := Option.some.inj hs
    cases ht : h.pager.inTransaction with
    | true =>
      obtain ⟨⟨j, hst⟩, hk, hp⟩ := hi.inside ht
      rw [hstarted ht]
      exact ⟨l, hi.savepoint hst hk hp name⟩
    | false =>
      obtain ⟨_, hi', hpager, hst, hk, hp⟩ := hi.begin ht (hi.outside ht).1 (hd ht)
      have hsave : h.pager.pagerSavepoint name = h.started.pager.pagerSavepoint name := by
        rw [hpager]
        exact savepoint_begin ht (hpager ▸ hst.sole.2) name
      rw [hsave]
      exact ⟨l, hi'.savepoint hst hk hp name⟩
  | rollbackTo name =>
    obtain rfl := Option.some.inj hs
    cases ht : h.pager.inTransaction with
    | true =>
      obtain ⟨⟨j, hst⟩, hk, hp⟩ := hi.inside ht
      rw [if_pos rfl]
      cases hf : h.pager.findSavepoint name with
      | nil =>
        have hno : h.pager.pagerRollbackToSavepoint name = h.pager := by
          unfold pagerRollbackToSavepoint
          rw [if_neg (by simp [ht]), hf]
        rw [if_pos rfl, if_pos rfl, hno]
        exact ⟨l, hi⟩
      | cons sp rest =>
        obtain ⟨pt, hpt, hpos, hfreed⟩ := hd ht sp (by rw [hf]; rfl)
        rw [if_neg (by simp), if_neg (by simp), List.head?_drop, show h.points[h.newer name]? = some pt from hpt]
        exact ⟨l, hi.rollbackTo hst hk hp hfit hf hpt hpos hfreed⟩
    | false =>
      rw [if_neg (by simp)]
      exact ⟨l, hi⟩
  | release name =>
    obtain rfl := Option.some.inj hs
    cases ht : h.pager.inTransaction with
    | true =>
      obtain ⟨⟨j, hst⟩, hk, hp⟩ := hi.inside ht
      rw [if_pos rfl]
      exact ⟨l, hi.releaseSavepoint hst hk hp name⟩
    | false =>
      rw [if_neg (by simp)]
      exact ⟨l, hi⟩
  | commit =>
    obtain ⟨s', hc, rfl⟩ := Option.map_eq_some_iff.mp hs
    cases ht : h.pager.inTransaction with
    | true =>
      obtain ⟨⟨j, hst⟩, hk, -⟩ := hi.inside ht
      exact ⟨l, hi.commit hst hk hc⟩
    | false =>
      rw [pagerCommit, if_pos ht] at hc
      rw [← (hi.outside ht).2]
      exact ⟨l, hsame _ (Option.some.inj hc).symm⟩
  | rollback =>
    obtain ⟨s', hc, rfl⟩ := Option.map_eq_some_iff.mp hs
    cases ht : h.pager.inTransaction with
    | true =>
      obtain ⟨⟨j, hst⟩, -, hp⟩ := hi.inside ht
      rw [if_pos rfl]
      exact ⟨l, hi.rollback hst hp hfit (hd ht) hc⟩
    | false =>
      rw [if_neg (by simp)]
      exact ⟨l, hi⟩

/-- A pager between transactions whose list and pages in use are apart. -/
structure Starts (s : Pager B) (u : Finset Nat) : Prop where
  idle : Idle s
  list : ∃ l, s.FreeList l ∧ l.Nodup ∧ ∀ p ∈ l, p < s.numPages ∧ p ∉ u ∧ Covered s p
  used : ∀ p ∈ u, p < s.numPages

/-- Between transactions the invariant is what is said of the list and the pages in use. -/
theorem HeapInv.start {u : Finset Nat} (hi : Idle s) (hl : s.FreeList l) (hnd : l.Nodup)
    (hfree : ∀ p ∈ l, p < s.numPages ∧ p ∉ u ∧ Covered s p) (hu : ∀ p ∈ u, p < s.numPages) (b : Point) :
    HeapInv ⟨s, u, b, []⟩ l := by
  have hbacked : ∀ p, (s.shadowPages.slot p).isSome = true → (s.pages.slot p).isSome = true := fun p hp => by
    rw [hi.noShadow] at hp
    cases hp
  exact ⟨hl, hnd, hfree, hu, hi.cached, hbacked, hi.memory, Or.inl ⟨hi, rfl⟩⟩

/-- The free list of a run whose operations do not spoil it. -/
theorem freelist_owned {u : Finset Nat} (hs : Starts s u) (b : Point) {ops : List (HeapOp B)}
    (hok : Run.Meets Heap.next (fun o op => ∀ h ∈ o, Disciplined h op) (some ⟨s, u, b, []⟩) ops)
    (hrun : Run.run Heap.next (some ⟨s, u, b, []⟩) ops = some h) : Owned h := by
  have hinv := hok.invariant (fun _ o => ∀ h ∈ o, ∃ l, HeapInv h l)
    (fun h hh => by
      obtain rfl := Option.some.inj hh
      obtain ⟨l, hchain, hnd, hfree⟩ := hs.list
      exact ⟨l, HeapInv.start hs.idle hchain hnd hfree hs.used b⟩)
    (fun pre op post _ hI hd h' hh' => by
      obtain ⟨h₁, hh₁, hstep⟩ := Option.bind_eq_some_iff.mp hh'
      obtain ⟨l, hi⟩ := hI h₁ hh₁
      exact hi.step (hd h₁ hh₁) hstep)
  obtain ⟨l, hi⟩ := hinv h hrun
  exact hi.owned

/-- A database of two pages, the second of them in use. -/
def twoPages : Pager Word := pagerOpen ⟨[⟨0, 0, 0⟩, ⟨5, 0, 0⟩], none, none⟩ ByteLocks.none .free 1

def usesOne : Heap Word := ⟨twoPages, {1}, ⟨{1}, 2, ∅⟩, []⟩

theorem twoPages_idle : Idle twoPages where
  sharedWrite := rfl
  reserved := rfl
  pending := rfl
  slot _ h := nomatch h
  notInTx := rfl
  noJournal _ := rfl
  noFile := rfl
  noShadow _ := rfl
  unmarked := rfl
  lock _ := by decide
  cached _ _ h := nomatch h
  memory h := nomatch h

theorem twoPages_starts : Starts twoPages {1} :=
  ⟨twoPages_idle, ⟨[], Or.inl rfl, List.nodup_nil, fun _ h => nomatch h⟩, by decide⟩

/-- Page 1 freed and handed out again before a rollback. -/
def reusesOne : Heap Word := (Run.run Heap.next (some usesOne) [.begin, .free 1, .alloc, .rollback]).getD usesOne

theorem freelist_owned_reused : Owned reusesOne := by
  have hs : Starts usesOne.pager {1} := twoPages_starts
  have hrun : Run.run Heap.next (some usesOne) [.begin, .free 1, .alloc, .rollback] = some reusesOne := rfl
  refine freelist_owned hs usesOne.atBegin ?_ hrun
  rw [Run.meets_cons, Run.meets_cons, Run.meets_cons, Run.meets_cons]
  refine ⟨fun h hh => ?_, fun h hh => ?_, fun h hh => ?_, fun h hh => ?_, Run.meets_nil _ _ _⟩ <;>
    obtain rfl := Option.some.inj hh
  · exact ⟨fun _ => by decide, fun _ => ⟨Or.inr (by decide), fun h => nomatch h⟩⟩
  · exact ⟨fun _ => by decide, And.intro (fun h => nomatch h) (by decide)⟩
  · exact ⟨fun _ => by decide, fun h => nomatch h⟩
  · refine ⟨fun _ => by decide, fun _ p hp => ?_⟩
    have hp : p ∈ (∅ : Finset Nat) := hp
    exact absurd hp (Finset.notMem_empty p)

/-- ROLLBACK takes back that page 1 was freed, but not the list it was put on. -/
theorem freelist_survives_rollback : Starts usesOne.pager usesOne.inUse ∧
    ∃ h, Run.run Heap.next (some usesOne) [.begin, .free 1, .rollback] = some h ∧ 1 ∈ h.inUse ∧ ¬ Owned h := by
  refine ⟨twoPages_starts, _, rfl, by decide, fun h => h.handedOut (by decide)⟩

end Pager

end CustomDB
