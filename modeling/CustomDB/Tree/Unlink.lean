import CustomDB.Tree.Successor
import CustomDB.Tree.Spared

/-!
# Taking a child out of its parent

`internal_remove_child` on the parent of two leaves, with what follows it: the root that is left with one child takes
its place, an inner node that is left with too few keys gets one of its sibling's or has to be merged, and a merge of
inner nodes does not come back.
-/

namespace CustomDB

open Lib

namespace Tree

variable {C : Type} [Cell C] {n n' m : Node C} {s s' u v : Store C} {h p q i j : Nat} {t k a b : Part C} {f g : Frame C}
  {fs gs : List (Frame C)} {uf : Store C → Nat → Option (Store C)}

open Store

/-- The cells, the type and the root flag are the same. -/
structure SameBody (n n' : Node C) : Prop where
  cells : n'.cells = n.cells
  nodeType : n'.nodeType = n.nodeType
  isRoot : n'.isRoot = n.isRoot

omit [Cell C] in
theorem SameBody.trans (h : SameBody n n') (h' : SameBody n' m) : SameBody n m :=
  ⟨h'.cells.trans h.cells, h'.nodeType.trans h.nodeType, h'.isRoot.trans h.isRoot⟩

omit [Cell C] in
/-- What the written node shares with the old one, every node does. -/
theorem modify_related {R : Node C → Node C → Prop} (hrefl : ∀ n, R n n) {w : Node C → Node C}
    (hw : R (s.node p) (w (s.node p))) (q : Nat) : R (s.node q) ((s.modify p w).node q) := by
  by_cases hq : q = p
  · rw [hq, node_modify_self]
    exact hw
  · rw [node_modify_of_ne hq]
    exact hrefl _

omit [Cell C] in
theorem sameBody_modify {w : Node C → Node C} (hw : SameBody (s.node p) (w (s.node p))) (q : Nat) :
    SameBody (s.node q) ((s.modify p w).node q) := modify_related (fun _ => ⟨rfl, rfl, rfl⟩) hw q

omit [Cell C] in
theorem sameKids_modify {w : Node C → Node C} (hw : SameKids (s.node p) (w (s.node p))) (q : Nat) :
    SameKids (s.node q) ((s.modify p w).node q) := modify_related SameKids.refl hw q

omit [Cell C] in
theorem sameKids_setParent (s : Store C) (p parent q : Nat) : SameKids (s.node q) ((s.setParent p parent).node q) :=
  sameKids_modify ⟨rfl, rfl, rfl, fun _ => rfl⟩ q

omit [Cell C] in
theorem sameBody_setParent (s : Store C) (p parent q : Nat) : SameBody (s.node q) ((s.setParent p parent).node q) :=
  sameBody_modify ⟨rfl, rfl, rfl⟩ q

/-! ## Keys from a sibling -/

/-- The node has got a child of its sibling's: no other node has other children, and its first child is one still. -/
structure Borrowed (s s' : Store C) (p sib : Nat) : Prop where
  root : s'.rootPageNum = s.rootPageNum
  body : ∀ q, SameBody (s.node q) (s'.node q)
  kids : ∀ q, q ≠ p → q ≠ sib → SameKids (s.node q) (s'.node q)
  first : ∃ i, (s'.node p).internalNodeChild i = (s.node p).internalNodeChild 0

section Borrow

variable {self left right parent idx : Nat}

omit [Cell C] in
/-- The child becomes the first one. -/
theorem internalNodeChild_shift (hkeys : 0 < n.numKeys) (x : Nat × Int) :
    Node.internalNodeChild
        { n with slots := Function.update (shiftSlots n.slots 0 n.numKeys) 0 x, numKeys := n.numKeys + 1 } 1 =
      n.internalNodeChild 0 := by
  unfold Node.internalNodeChild
  dsimp only
  rw [if_neg (by omega), if_neg (by omega), if_neg (by omega), if_neg (by omega), Function.update_of_ne (by decide)]
  unfold shiftSlots
  rw [if_pos (by omega)]

omit [Cell C] in
/-- The child becomes the last one. -/
theorem internalNodeChild_push (hkeys : 0 < n.numKeys) (x : Nat × Int) (r : Nat) :
    Node.internalNodeChild
        { n with slots := Function.update n.slots n.numKeys x, numKeys := n.numKeys + 1, rightChild := r } 0 =
      n.internalNodeChild 0 := by
  unfold Node.internalNodeChild
  dsimp only
  rw [if_neg (by omega), if_neg (by omega), if_neg (by omega), if_neg (by omega), Function.update_of_ne (by omega)]

omit [Cell C] in
theorem internalBorrowFromLeft_spec (s : Store C) (hleft : self ≠ left) (hkeys : 0 < (s.node self).numKeys) :
    Borrowed s (s.internalBorrowFromLeft self left parent idx) self left := by
  unfold internalBorrowFromLeft
  dsimp only
  generalize (s.node left).rightChild = mcp
  generalize (s.node left).slots ((s.node left).numKeys - 1) = last
  generalize ((s.node parent).slots (idx - 1)).2 = key
  refine ⟨rfl, fun q => ?_, fun q hq hql => ?_, 1, ?_⟩
  · refine SameBody.trans ?_ (sameBody_modify ⟨rfl, rfl, rfl⟩ q)
    refine SameBody.trans ?_ (sameBody_modify ⟨rfl, rfl, rfl⟩ q)
    refine SameBody.trans ?_ (sameBody_setParent _ _ _ q)
    exact sameBody_modify ⟨rfl, rfl, rfl⟩ q
  · refine SameKids.trans ?_ (sameKids_modify (sameKids_setKey ..).toSameKids q)
    rw [node_modify_of_ne hql]
    refine SameKids.trans ?_ (sameKids_setParent _ _ _ q)
    rw [node_modify_of_ne hq]
    exact .refl _
  · rw [(sameKids_modify (sameKids_setKey ..).toSameKids self).child, node_modify_of_ne hleft,
      (sameKids_setParent _ _ _ self).child, node_modify_self]
    exact internalNodeChild_shift hkeys (mcp, key)

omit [Cell C] in
theorem internalBorrowFromRight_spec (s : Store C) (hright : self ≠ right) (hkeys : 0 < (s.node self).numKeys) :
    ∃ s', s.internalBorrowFromRight self right parent idx = some s' ∧ Borrowed s s' self right := by
  obtain ⟨mcp, hmcp⟩ : ∃ mcp, (s.node right).internalNodeChild 0 = some mcp := by
    unfold Node.internalNodeChild
    rw [if_neg (Nat.not_lt_zero _)]
    split
    · exact ⟨_, rfl⟩
    · exact ⟨_, rfl⟩
  unfold internalBorrowFromRight
  rw [hmcp]
  refine ⟨_, rfl, ?_⟩
  generalize ((s.node parent).slots idx).2 = key
  refine ⟨rfl, fun q => ?_, fun q hq hql => ?_, 0, ?_⟩
  · refine SameBody.trans ?_ (sameBody_modify ⟨rfl, rfl, rfl⟩ q)
    refine SameBody.trans ?_ (sameBody_modify ⟨rfl, rfl, rfl⟩ q)
    refine SameBody.trans ?_ (sameBody_setParent _ _ _ q)
    exact sameBody_modify ⟨rfl, rfl, rfl⟩ q
  · refine SameKids.trans ?_ (sameKids_modify (sameKids_setKey ..).toSameKids q)
    rw [node_modify_of_ne hql]
    refine SameKids.trans ?_ (sameKids_setParent _ _ _ q)
    rw [node_modify_of_ne hq]
    exact .refl _
  · rw [(sameKids_modify (sameKids_setKey ..).toSameKids self).child, node_modify_of_ne hright,
      (sameKids_setParent _ _ _ self).child, node_modify_self]
    exact internalNodeChild_push hkeys _ _

omit [Cell C] in
/-- A merge that has a key to move exits. -/
theorem internalMergeNodes_none (s : Store C) (hkeys : 0 < (s.node right).numKeys) :
    s.internalMergeNodes uf left right parent idx = none := by
  obtain ⟨r, hr⟩ := Nat.exists_eq_succ_of_ne_zero (Nat.ne_of_gt hkeys)
  unfold internalMergeNodes
  dsimp only
  rw [hr, List.range_succ_eq_map, List.foldlM_cons]
  obtain ⟨u, hu⟩ : ∃ u, u = s.modify left fun n => n.setKey (s.node left).numKeys ((s.node parent).slots (idx - 1)).2 := ⟨_, rfl⟩
  have hleft : (u.node left).internalNodeChild ((s.node left).numKeys + 1 + 0) = none := by
    rw [hu, node_modify_self, (sameKids_setKey ..).child]
    exact if_pos (by omega)
  rw [← hu, hleft]
  cases (u.node right).internalNodeChild 0 <;> rfl

end Borrow

/-! ## An inner node with too few keys -/

/-- The node gets a key of its sibling's where that has keys to spare, and else the merge does not come back. -/
theorem handleInternalUnderflow_spec (ha : Above s h t (g :: gs)) (hs : Sub s h t) (hnd : Apart t (g :: gs))
    (hv : ∀ q, q ≠ t.page → SamePlace (s.node q) (v.node q)) (hroot : (v.node t.page).isRoot = false)
    (hpar : (v.node t.page).parent = g.page) (hkeys : 0 < (v.node t.page).numKeys)
    (hlow : (v.node t.page).numKeys < internalNodeMinKeys)
    (hsib : ∀ k ∈ g.left ++ g.right, 0 < (s.node k.page).numKeys) (fuel : Nat) :
    ((∀ n, s.neighbour t.page = some n → internalNodeMinKeys < (s.node n).numKeys) →
      ∃ s', handleInternalUnderflow (fuel + 1) v t.page = some s' ∧
        (s' = v ∨ ∃ k ∈ g.left ++ g.right, Borrowed v s' t.page k.page)) ∧
    ((¬ ∀ n, s.neighbour t.page = some n → internalNodeMinKeys < (s.node n).numKeys) →
      handleInternalUnderflow (fuel + 1) v t.page = none) := by
  have hindex := ha.childIndex hs hnd
  have hsibling := ha.sibling hs hnd
  obtain ⟨hl, -, hk, hpar', -, -⟩ := ha
  have hpage := hs.page_mem
  have hown : t.page ≠ g.page := hnd.own hpage
  have hup : SamePlace (s.node g.page) (v.node g.page) := hv _ hown.symm
  have hkid : ∀ k ∈ g.left ++ g.right, k.page ≠ t.page ∧ (v.node k.page).numKeys = (s.node k.page).numKeys := fun k hm => by
    have hne := (hnd.kid hpage hm (hk k hm).1.page_mem).symm
    exact ⟨hne, (hv _ hne).numKeys⟩
  have hfind : (v.node g.page).findChildIndex t.page = some g.left.length := by
    rw [hup.findChild]
    unfold Store.childIndex at hindex
    rwa [hpar'] at hindex
  unfold handleInternalUnderflow
  rw [hroot, if_neg Bool.false_ne_true, if_neg (not_le.mpr hlow), hpar]
  simp only [hfind, Option.bind_eq_bind, Option.bind_some, hup.child, hup.numKeys]
  rcases hsibling with ⟨hnil, hnum, hn⟩ | ⟨hnil, hnum, b, hb, hchild, hn⟩ | ⟨hpos, a, ha, hchild, hn⟩
  · rw [hn, hnil, List.length_nil, if_neg (Nat.lt_irrefl 0), if_neg (by omega)]
    exact ⟨fun _ => ⟨v, rfl, Or.inl rfl⟩, fun hno => absurd (fun n hn => by cases hn) hno⟩
  · have hm : b ∈ g.left ++ g.right := List.mem_append_right _ hb
    obtain ⟨hne, hnumb⟩ := hkid b hm
    rw [hn, hnil, List.length_nil, if_neg (Nat.lt_irrefl 0), if_pos hnum, hchild, Option.bind_some, hnumb]
    by_cases hspare : internalNodeMinKeys < (s.node b.page).numKeys
    · rw [if_pos hspare]
      have hborrows : ∃ s', v.internalBorrowFromRight t.page b.page g.page 0 = some s' ∧ Borrowed v s' t.page b.page :=
        internalBorrowFromRight_spec v hne.symm hkeys
      obtain ⟨s', hs', hborrow⟩ := hborrows
      exact ⟨fun _ => ⟨s', hs', Or.inr ⟨b, List.mem_append_right _ hb, hborrow⟩⟩,
        fun hno => absurd (fun n hn => by obtain rfl := Option.some.inj hn; exact hspare) hno⟩
    · rw [if_neg hspare]
      exact ⟨fun hall => absurd (hall b.page rfl) hspare,
        fun _ => internalMergeNodes_none v (by rw [hnumb]; exact hsib b hm)⟩
  · have hm : a ∈ g.left ++ g.right := List.mem_append_left _ ha
    obtain ⟨hne, hnuma⟩ := hkid a hm
    rw [hn, if_pos hpos, hchild, Option.bind_some, hnuma]
    by_cases hspare : internalNodeMinKeys < (s.node a.page).numKeys
    · rw [if_pos hspare]
      exact ⟨fun _ => ⟨_, rfl, Or.inr ⟨a, hm, internalBorrowFromLeft_spec v hne.symm hkeys⟩⟩,
        fun hno => absurd (fun n hn => by obtain rfl := Option.some.inj hn; exact hspare) hno⟩
    · rw [if_neg hspare]
      exact ⟨fun hall => absurd (hall a.page rfl) hspare, fun _ => internalMergeNodes_none v hkeys⟩

/-! ## The parent without the child -/

/-- The first part of `internal_remove_child`. -/
def removeAt (n : Node C) (i : Nat) : Node C :=
  if i = n.numKeys then { n with rightChild := (n.slots (n.numKeys - 1)).1, numKeys := n.numKeys - 1 }
  else (if 0 < i then n.setKey (i - 1) (n.slots i).2 else n).dropSlot i n.numKeys

/-- The second part. -/
def settleParent (uf : Store C → Nat → Option (Store C)) (s : Store C) (p : Nat) : Option (Store C) :=
  if (s.node p).isRoot ∧ (s.node p).numKeys = 0 then
    let u := s.modify p fun n => { s.node n.rightChild with isRoot := true }
    if (u.node p).nodeType = .internal then
      (List.range ((u.node p).numKeys + 1)).foldlM (fun s i => do
        let child ← (s.node p).internalNodeChild i
        return s.setParent child s.rootPageNum) u
    else some u
  else if (s.node p).isRoot = false ∧ (s.node p).numKeys < internalNodeMinKeys then uf s p
  else some s

omit [Cell C] in
theorem modify_congr {w w' : Node C → Node C} (hw : w (s.node p) = w' (s.node p)) : s.modify p w = s.modify p w' := by
  unfold Store.modify
  rw [hw]

omit [Cell C] in
theorem internalRemoveChild_eq (hkeys : 0 < (s.node p).numKeys) (i : Nat) :
    s.internalRemoveChild uf p i = settleParent uf (s.modify p fun n => removeAt n i) p := by
  unfold internalRemoveChild settleParent
  by_cases hi : i = (s.node p).numKeys
  · have hlast : (s.node p).internalNodeChild ((s.node p).numKeys - 1) =
        some ((s.node p).slots ((s.node p).numKeys - 1)).1 := by
      unfold Node.internalNodeChild
      rw [if_neg (by omega), if_neg (by omega)]
    have hat : (s.modify p fun n => removeAt n i) =
        s.modify p fun n =>
          { n with rightChild := ((s.node p).slots ((s.node p).numKeys - 1)).1, numKeys := n.numKeys - 1 } :=
      modify_congr (if_pos hi)
    rw [hat]
    dsimp only
    rw [if_pos hi, if_neg (Nat.ne_of_gt hkeys), hlast]
    rfl
  · have hat : (s.modify p fun n => removeAt n i) = s.modify p fun n =>
        (if 0 < i then n.setKey (i - 1) (n.slots i).2 else n).dropSlot i (s.node p).numKeys := modify_congr (if_neg hi)
    rw [hat]
    dsimp only
    rw [if_neg hi]
    rfl

omit [Cell C] in
theorem removeAt_numKeys (n : Node C) (i : Nat) : (removeAt n i).numKeys = n.numKeys - 1 := by
  unfold removeAt
  split
  · rfl
  · split <;> rfl

omit [Cell C] in
theorem removeAt_body (n : Node C) (i : Nat) : SameBody n (removeAt n i) ∧ (removeAt n i).parent = n.parent := by
  unfold removeAt
  split
  · exact ⟨⟨rfl, rfl, rfl⟩, rfl⟩
  · split <;> exact ⟨⟨rfl, rfl, rfl⟩, rfl⟩

omit [Cell C] in
/-- The children in front of the one that goes. -/
theorem removeAt_child (hj : j < i) (hi : i ≤ n.numKeys) : (removeAt n i).internalNodeChild j = n.internalNodeChild j := by
  have hnum := removeAt_numKeys n i
  unfold Node.internalNodeChild
  rw [hnum, if_neg (by omega), if_neg (show ¬ n.numKeys < j by omega), if_neg (show ¬ j = n.numKeys by omega)]
  unfold removeAt
  by_cases hin : i = n.numKeys
  · rw [if_pos hin]
    dsimp only
    by_cases hlast : j = n.numKeys - 1
    · rw [if_pos hlast, hlast]
    · rw [if_neg hlast]
  · rw [if_neg hin, if_neg (by omega)]
    unfold Node.dropSlot
    dsimp only
    rw [if_neg (by omega)]
    by_cases hpos : 0 < i
    · rw [if_pos hpos]
      exact congrArg some ((sameKids_setKey n _ _).slots j)
    · rw [if_neg hpos]

omit [Cell C] in
/-- Where the parent has one key, the child that stays is the one in front. -/
theorem removeAt_rightChild (hone : n.numKeys = 1) : (removeAt n 1).rightChild = (n.slots 0).1 := by
  unfold removeAt
  rw [if_pos hone.symm, hone]

/-- What is left of the tree without the child: the first child of its parent is a leaf of the tree still, unless the
root took its place. -/
structure Detached (s u s' : Store C) (p first : Nat) : Prop where
  body : ∀ q, q ≠ p → SameBody (u.node q) (s'.node q)
  stays : ¬ ((s.node p).isRoot = true ∧ (s.node p).numKeys = 1) → s'.Reaches first
  collapses : (s.node p).isRoot = true → (s.node p).numKeys = 1 → ∀ q, s'.Reaches q → q = p

/-- No inner node of the frames has one key only, nor have its siblings, the root apart. -/
def Stocked (s : Store C) : List (Frame C) → Prop
  | f :: g :: _ => 2 ≤ (s.node f.page).numKeys ∧ ∀ k ∈ g.left ++ g.right, 2 ≤ (s.node k.page).numKeys
  | _ => True

section Remove

variable {first : Nat}

omit [Cell C] in
variable (uf) in
/-- The root with one key. -/
theorem settleParent_collapse (hroot : (v.node p).isRoot = true) (hkeys : (v.node p).numKeys = 0)
    (hleaf : (v.node (v.node p).rightChild).nodeType = .leaf) (hp : v.rootPageNum = p) :
    ∃ s', settleParent uf v p = some s' ∧ (∀ q, q ≠ p → s'.node q = v.node q) ∧ ∀ q, s'.Reaches q → q = p := by
  have htype : ((v.modify p fun n => { v.node n.rightChild with isRoot := true }).node p).nodeType = .leaf := by
    rw [node_modify_self]
    exact hleaf
  unfold settleParent
  rw [if_pos ⟨hroot, hkeys⟩]
  dsimp only
  rw [htype, if_neg (by decide)]
  refine ⟨_, rfl, fun q hq => node_modify_of_ne hq, fun q hreach => ?_⟩
  induction hreach with
  | root => exact hp
  | child hr hinner _ ih =>
    rw [ih, htype] at hinner
    cases hinner

/-- The first child of the parent is a leaf. -/
theorem Above.firstLeaf (ha : Above s 0 k (f :: fs)) (hs : Sub s 0 k) (hnd : Apart k (f :: fs))
    (hfirst : (s.node f.page).internalNodeChild 0 = some first) : (s.node first).nodeType = .leaf ∧ first ≠ f.page := by
  obtain ⟨hl, -, hk, -, -, -⟩ := ha
  have hlen : 0 < (f.left ++ k :: f.right).length := by rw [hl.count]; omega
  obtain ⟨b, hb⟩ : ∃ b, (f.left ++ k :: f.right)[0]? = some b := ⟨_, List.getElem?_eq_getElem hlen⟩
  obtain rfl : b.page = first := Option.some.inj ((hl.child hb).symm.trans hfirst)
  rcases mem_append_cons (List.mem_of_getElem? hb) with hm | rfl
  · exact ⟨(hk b hm).1.1, hnd.kid_own hm (hk b hm).1.page_mem⟩
  · exact ⟨hs.1, hnd.own hs.page_mem⟩

/-- `internal_remove_child` behind the first child, on the parent of leaves. -/
theorem internalRemoveChild_spec (ha : Above s 0 k (f :: fs)) (hs : Sub s 0 k) (hnd : Apart k (f :: fs))
    (hu : ∀ q, SamePlace (s.node q) (u.node q)) (hur : u.rootPageNum = s.rootPageNum) (hi : 0 < i)
    (hin : i ≤ (s.node f.page).numKeys) (hfill : Stocked s (f :: fs))
    (hfirst : (s.node f.page).internalNodeChild 0 = some first) (fuel : Nat) :
    (s.CanLose f.page → ∃ s', u.internalRemoveChild (handleInternalUnderflow (fuel + 1)) f.page i = some s' ∧
      Detached s u s' f.page first) ∧
    (¬ s.CanLose f.page → u.internalRemoveChild (handleInternalUnderflow (fuel + 1)) f.page i = none) := by
  have hup := hu f.page
  have hkeys : 0 < (u.node f.page).numKeys := by rw [hup.numKeys]; omega
  rw [internalRemoveChild_eq hkeys]
  obtain ⟨v, hv⟩ : ∃ v, v = u.modify f.page fun n => removeAt n i := ⟨_, rfl⟩
  have hself : v.node f.page = removeAt (u.node f.page) i := by rw [hv, node_modify_self]
  have hoff : ∀ q, q ≠ f.page → v.node q = u.node q := fun q hq => by rw [hv, node_modify_of_ne hq]
  have hvroot : v.rootPageNum = s.rootPageNum := by rw [hv]; exact hur
  have hnum : (v.node f.page).numKeys = (s.node f.page).numKeys - 1 := by rw [hself, removeAt_numKeys, hup.numKeys]
  have hbody := removeAt_body (u.node f.page) i
  have hisRoot : (v.node f.page).isRoot = (s.node f.page).isRoot := by rw [hself, hbody.1.isRoot, hup.isRoot]
  have htype : (v.node f.page).nodeType = (s.node f.page).nodeType := by rw [hself, hbody.1.nodeType, hup.nodeType]
  have hchild : (v.node f.page).internalNodeChild 0 = some first := by
    rw [hself, removeAt_child hi (by rw [hup.numKeys]; exact hin), hup.child, hfirst]
  have hvu : ∀ q, q ≠ f.page → SameBody (u.node q) (v.node q) := fun q hq => by
    rw [hoff q hq]
    exact ⟨rfl, rfl, rfl⟩
  rw [← hv]
  have hl := ha.1
  have hfillEq : (f.fill k).page = f.page := rfl
  have hup' : Above s 1 (f.fill k) fs := ha.2.2.2.2.2
  have hapart := hnd.up
  -- the path to the parent, where only the parent and one of its siblings have other children
  have hreach : ∀ s' : Store C, s'.rootPageNum = v.rootPageNum → (s'.node f.page).nodeType = (v.node f.page).nodeType →
      (∀ g ∈ fs, SameKids (v.node g.page) (s'.node g.page)) → (∃ j, (s'.node f.page).internalNodeChild j = some first) →
      s'.Reaches first := by
    rintro s' hr ht hg ⟨j, hj⟩
    refine .child (hup'.reaches (hr.trans hvroot) fun g hm => ?_) (ht.trans (htype.trans hl.nodeType)) hj
    have hne : g.page ≠ f.page := (hapart.ne (page_mem_fill f k) (mem_outer hm)).symm
    have hgv := hg g hm
    rw [hoff _ hne] at hgv
    exact (hu g.page).toSameKids.trans hgv
  have hsame : Detached s u v f.page first ∨ (s.node f.page).isRoot = true ∧ (s.node f.page).numKeys = 1 := by
    by_cases hone : (s.node f.page).isRoot = true ∧ (s.node f.page).numKeys = 1
    · exact Or.inr hone
    · exact Or.inl ⟨hvu, fun _ => hreach v rfl rfl (fun g _ => .refl _) ⟨0, hchild⟩, fun h h' => absurd ⟨h, h'⟩ hone⟩
  cases fs with
  | nil =>
    obtain ⟨hpage, hroot⟩ := hup'
    have hroot' : (s.node f.page).isRoot = true := hroot
    refine ⟨fun _ => ?_, fun hno => absurd (Or.inl hroot') hno⟩
    by_cases hone : (s.node f.page).numKeys = 1
    · obtain rfl : i = 1 := by omega
      have hright : (v.node f.page).rightChild = first := by
        have h0 : (s.node f.page).internalNodeChild 0 = some ((s.node f.page).slots 0).1 := by
          unfold Node.internalNodeChild
          rw [if_neg (by omega), if_neg (by omega)]
        rw [hself, removeAt_rightChild (by rw [hup.numKeys]; exact hone), hup.slots]
        exact Option.some.inj (h0.symm.trans hfirst)
      obtain ⟨hleaf, hne⟩ := ha.firstLeaf hs hnd hfirst
      have hvleaf : (v.node (v.node f.page).rightChild).nodeType = .leaf := by
        rw [hright, hoff _ hne, (hu first).nodeType]
        exact hleaf
      obtain ⟨s', hs', hnode, hall⟩ := settleParent_collapse (handleInternalUnderflow (fuel + 1)) (hisRoot.trans hroot')
        (by rw [hnum, hone]) hvleaf (hvroot.trans hpage.symm)
      refine ⟨s', hs', fun q hq => ?_, fun hno => absurd ⟨hroot', hone⟩ hno, fun _ _ => hall⟩
      rw [hnode q hq]
      exact hvu q hq
    · refine ⟨v, ?_, hsame.resolve_right fun h => hone h.2⟩
      unfold settleParent
      rw [if_neg (by omega), if_neg (by rw [hisRoot, hroot']; exact fun h => absurd h.1 (by decide))]
  | cons g gs =>
    have hnot : (s.node f.page).isRoot = false := hup'.2.2.2.2.1
    have hpar : (s.node f.page).parent = g.page := hup'.2.2.2.1
    obtain ⟨htwo, hsibs⟩ := hfill
    have hkids := hup'.2.2.1
    have hdet := hsame.resolve_right fun h => by rw [hnot] at h; exact absurd h.1 (by decide)
    have hvnot := hisRoot.trans hnot
    have hset : settleParent (handleInternalUnderflow (fuel + 1)) v f.page =
        if (v.node f.page).numKeys < internalNodeMinKeys then handleInternalUnderflow (fuel + 1) v f.page else some v := by
      unfold settleParent
      rw [if_neg (by rw [hvnot]; exact fun h => absurd h.1 (by decide)), hvnot]
      simp only [true_and]
    rw [hset]
    by_cases hmany : internalNodeMinKeys < (s.node f.page).numKeys
    · rw [if_neg (by omega)]
      exact ⟨fun _ => ⟨v, rfl, hdet⟩, fun hno => absurd (Or.inr (Or.inl hmany)) hno⟩
    · rw [if_pos (by omega)]
      have hsub : Sub s 1 (f.fill k) := ha.fill hs
      have hvpar : (v.node f.page).parent = g.page := by rw [hself, hbody.2, hup.parent, hpar]
      obtain ⟨hyes, hno⟩ := handleInternalUnderflow_spec (v := v) hup' hsub hapart
        (fun q hq => by rw [hoff q hq]; exact hu q) hvnot
        hvpar (by show 0 < (v.node f.page).numKeys; omega) (by show (v.node f.page).numKeys < _; omega)
        (fun k hk => by have := hsibs k hk; omega) fuel
      have hcan : s.CanLose f.page ↔
          ∀ n, s.neighbour (f.fill k).page = some n → internalNodeMinKeys < (s.node n).numKeys := by
        refine ⟨fun h => ?_, fun h => Or.inr (Or.inr h)⟩
        rcases h with h | h | h
        · rw [hnot] at h
          cases h
        · exact absurd h hmany
        · exact h
      refine ⟨fun h => ?_, fun h => hno fun h' => h (hcan.mpr h')⟩
      obtain ⟨s', hs', rfl | ⟨b, hb, hborrow⟩⟩ := hyes (hcan.mp h)
      · exact ⟨s', hs', hdet⟩
      · refine ⟨s', hs', fun q hq => (hvu q hq).trans (hborrow.body q), fun _ => ?_, fun h => by rw [hnot] at h; cases h⟩
        obtain ⟨j, hj⟩ := hborrow.first
        refine hreach s' hborrow.root (hborrow.body _).nodeType (fun x hx => hborrow.kids _ ?_ ?_) ⟨j, hj.trans hchild⟩
        · exact (hapart.ne (page_mem_fill f k) (mem_outer hx)).symm
        · have hbp : b.page ∈ b.pages := (hkids b hb).1.page_mem
          rcases List.mem_cons.mp hx with rfl | hx
          · exact (hapart.kid_own hb hbp).symm
          · exact (hapart.up.ne (mem_fill ((sublist_append_cons ..).mem hb) hbp) (mem_outer hx)).symm

end Remove

end Tree

end CustomDB
