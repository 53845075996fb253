import CustomDB.Tree.Unlink
import CustomDB.Tree.InsertSpec

/-!
# When the cursor is on the successor

The underflow that `btree_delete` settles on the page its cursor has come to leaves the cursor on the row behind the
deleted one where that page has cells enough, or gets its sibling's cells behind its own and stays in the tree.
-/

namespace CustomDB

open Lib

namespace Tree

variable {C : Type} [Cell C] {n n' : Node C} {s s' e u : Store C} {h p q i c : Nat} {t k : Part C} {f : Frame C}
  {fs gs : List (Frame C)} {cur : Cursor} {x y : C} {cs : List C}

open Store

/-! ## The cell is taken out -/

/-- The cell of the cursor is not there any more; a separator apart, the rest is as it was. -/
structure Erased (s e : Store C) (cur : Cursor) : Prop where
  place : ∀ q, SamePlace (s.node q) (e.node q)
  root : e.rootPageNum = s.rootPageNum
  next : ∀ q, (e.node q).nextLeaf = (s.node q).nextLeaf
  cells : ∀ q, (e.node q).cells = if q = cur.pageNum then (s.node q).cells.eraseIdx cur.cellNum else (s.node q).cells

omit [Cell C] in
theorem samePlace_modify {w : Node C → Node C} (hw : SamePlace (s.node p) (w (s.node p))) (q : Nat) :
    SamePlace (s.node q) ((s.modify p w).node q) := modify_related SamePlace.refl hw q

theorem eraseCell_erased (s : Store C) (cur : Cursor) : Erased s (s.eraseCell cur) cur := by
  have hfirst : Erased s (s.modify cur.pageNum fun n => { n with cells := n.cells.eraseIdx cur.cellNum }) cur := by
    refine ⟨fun q => samePlace_modify ⟨⟨rfl, rfl, rfl, fun _ => rfl⟩, rfl, rfl⟩ q, rfl, fun q => ?_, fun q => ?_⟩
    · by_cases hq : q = cur.pageNum
      · rw [hq, node_modify_self]
      · rw [node_modify_of_ne hq]
    · by_cases hq : q = cur.pageNum
      · rw [if_pos hq, hq, node_modify_self]
      · rw [if_neg hq, node_modify_of_ne hq]
  unfold eraseCell
  dsimp only
  split
  · refine ⟨fun q => (hfirst.place q).trans (samePlace_modify (samePlace_updateKey ..) q), rfl, fun q => ?_, fun q => ?_⟩
    · rw [← hfirst.next q]
      generalize (s.modify cur.pageNum fun n => { n with cells := n.cells.eraseIdx cur.cellNum }) = u
      by_cases hq : q = (u.node cur.pageNum).parent
      · rw [hq, node_modify_self]
        rfl
      · rw [node_modify_of_ne hq]
    · rw [← hfirst.cells q]
      generalize (s.modify cur.pageNum fun n => { n with cells := n.cells.eraseIdx cur.cellNum }) = u
      by_cases hq : q = (u.node cur.pageNum).parent
      · rw [hq, node_modify_self]
        rfl
      · rw [node_modify_of_ne hq]
  · exact hfirst

theorem eraseCell_cells (s : Store C) (cur : Cursor) :
    ((s.eraseCell cur).node cur.pageNum).cells = (s.node cur.pageNum).cells.eraseIdx cur.cellNum := by
  rw [(eraseCell_erased s cur).cells, if_pos rfl]

omit [Cell C] in
theorem Erased.length (he : Erased s e cur) (hlt : cur.cellNum < (s.node cur.pageNum).cells.length) (q : Nat) :
    (e.node q).cells.length = s.cellsLeft cur q := by
  rw [he.cells]
  unfold cellsLeft
  by_cases hq : q = cur.pageNum
  · rw [if_pos hq, if_pos hq, hq, List.length_eraseIdx_of_lt hlt]
  · rw [if_neg hq, if_neg hq]

/-! ## Cells from a sibling -/

theorem takeCell_same (n : Node C) (i : Nat) (cell : C) : SamePlace n (n.takeCell i cell) := by
  unfold Node.takeCell
  split <;> exact ⟨⟨rfl, rfl, rfl, fun _ => rfl⟩, rfl, rfl⟩

theorem takeCell_cells (n : Node C) (i : Nat) (cell : C) : (n.takeCell i cell).cells = n.cells.insertIdx i cell := by
  unfold Node.takeCell
  split <;> rfl

/-- Page `q` has the cells `cs`, and no place in the tree is another. -/
structure Lent (e s' : Store C) (q : Nat) (cs : List C) : Prop where
  place : ∀ p, SamePlace (e.node p) (s'.node p)
  root : s'.rootPageNum = e.rootPageNum
  cells : (s'.node q).cells = cs

section Leaves

variable {left right parent : Nat}

theorem leafBorrowFromLeft_spec (hx : (e.node left).cells.getLast? = some x) (hleft : q ≠ left) (hpar : q ≠ parent)
    (i : Nat) : Lent e (e.leafBorrowFromLeft q left parent i) q (x :: (e.node q).cells) := by
  unfold leafBorrowFromLeft
  rw [hx]
  dsimp only
  have hset : ∀ key : Int, Lent e (((e.modify q fun n => n.takeCell 0 x).modify left
      fun n => { n with cells := n.cells.dropLast }).modify parent fun n => n.setKey (i - 1) key)
      q (x :: (e.node q).cells) := by
    intro key
    refine ⟨fun p => ?_, rfl, ?_⟩
    · refine SamePlace.trans ?_ (samePlace_modify (sameKids_setKey ..) p)
      refine SamePlace.trans ?_ (samePlace_modify ⟨⟨rfl, rfl, rfl, fun _ => rfl⟩, rfl, rfl⟩ p)
      exact samePlace_modify (takeCell_same ..) p
    · rw [node_modify_of_ne hpar, node_modify_of_ne hleft, node_modify_self, takeCell_cells, List.insertIdx_zero]
  split
  · refine ⟨fun p => ((hset _).place p).trans (samePlace_modify (sameKids_setKey ..) p), rfl, ?_⟩
    rw [node_modify_of_ne hpar]
    exact (hset _).cells
  · exact hset _

theorem leafBorrowFromRight_spec (hx : (e.node right).cells.head? = some x) (hright : q ≠ right) (hpar : q ≠ parent)
    (i : Nat) : Lent e (e.leafBorrowFromRight q right parent i) q ((e.node q).cells ++ [x]) := by
  unfold leafBorrowFromRight
  rw [hx]
  dsimp only
  refine ⟨fun p => ?_, rfl, ?_⟩
  · refine SamePlace.trans ?_ (samePlace_modify (sameKids_setKey ..) p)
    refine SamePlace.trans ?_ (samePlace_modify ⟨⟨rfl, rfl, rfl, fun _ => rfl⟩, rfl, rfl⟩ p)
    exact samePlace_modify (takeCell_same ..) p
  · rw [node_modify_of_ne hpar, node_modify_of_ne hright, node_modify_self, takeCell_cells, List.insertIdx_length_self]

theorem foldl_takeCell (cells : List C) (n : Node C) :
    SamePlace n (cells.foldl (fun n cell => n.takeCell n.cells.length cell) n) ∧
      (cells.foldl (fun n cell => n.takeCell n.cells.length cell) n).cells = n.cells ++ cells := by
  induction cells generalizing n with
  | nil => exact ⟨.refl n, (List.append_nil _).symm⟩
  | cons cell cells ih =>
    obtain ⟨hplace, hcells⟩ := ih (n.takeCell n.cells.length cell)
    refine ⟨(takeCell_same ..).trans hplace, hcells.trans ?_⟩
    rw [takeCell_cells, List.insertIdx_length_self, List.append_assoc]
    rfl

/-- `leaf_merge` up to the parent. -/
structure Merged (e u : Store C) (left right : Nat) : Prop where
  place : ∀ p, SamePlace (e.node p) (u.node p)
  root : u.rootPageNum = e.rootPageNum
  left : (u.node left).cells = (e.node left).cells ++ (e.node right).cells
  right : (u.node right).cells = []

theorem leafMerge_eq (e : Store C) (hne : left ≠ right) (fuel parent i : Nat) :
    ∃ u, Merged e u left right ∧
      e.leafMerge fuel left right parent i = u.internalRemoveChild (handleInternalUnderflow fuel) parent i := by
  refine ⟨_, ?_, rfl⟩
  refine ⟨fun p => ?_, rfl, ?_, ?_⟩
  · refine SamePlace.trans ?_ (samePlace_modify ⟨⟨rfl, rfl, rfl, fun _ => rfl⟩, rfl, rfl⟩ p)
    refine SamePlace.trans ?_ (samePlace_modify ⟨⟨rfl, rfl, rfl, fun _ => rfl⟩, rfl, rfl⟩ p)
    exact samePlace_modify (foldl_takeCell ..).1 p
  · rw [node_modify_of_ne hne, node_modify_self, node_modify_self]
    exact (foldl_takeCell ..).2
  · rw [node_modify_self]

end Leaves

/-! ## The underflow of a leaf -/

section Underflow

variable {cells : List C} {l₁ l₂ : List (Nat × List C)}

/-- The ways it goes. -/
theorem leafUnderflow_cases (ha : Above s 0 (Part.leaf q cells) (f :: fs)) (hs : Sub s 0 (Part.leaf q cells))
    (hnd : Apart (Part.leaf q cells) (f :: fs)) (hplace : ∀ p, SamePlace (s.node p) (e.node p))
    (hlow : (e.node q).cells.length < leafNodeMinCells) (fuel : Nat) :
    (f.left = [] ∧ s.neighbour q = none ∧ e.leafNodeHandleUnderflow fuel q = some e) ∨
    (f.left = [] ∧ 0 < (s.node f.page).numKeys ∧ ∃ b ∈ f.right, s.neighbour q = some b.page ∧
      e.leafNodeHandleUnderflow fuel q =
        if leafNodeMinCells < (e.node b.page).cells.length then some (e.leafBorrowFromRight q b.page f.page 0)
        else e.leafMerge fuel q b.page f.page 1) ∨
    (0 < f.left.length ∧ ∃ a ∈ f.left, s.neighbour q = some a.page ∧
      e.leafNodeHandleUnderflow fuel q =
        if leafNodeMinCells < (e.node a.page).cells.length then some (e.leafBorrowFromLeft q a.page f.page f.left.length)
        else e.leafMerge fuel a.page q f.page f.left.length) := by
  have hindex := ha.childIndex hs hnd
  have hsibling := ha.sibling hs hnd
  have hpar : (s.node q).parent = f.page := ha.2.2.2.1
  have hroot : (e.node q).isRoot = false := (hplace q).isRoot.trans ha.2.2.2.2.1
  have hpage : (Part.leaf q cells).page = q := rfl
  rw [hpage] at hindex hsibling
  have hfind : (e.node f.page).findChildIndex q = some f.left.length := by
    rw [(hplace f.page).findChild]
    unfold Store.childIndex at hindex
    rwa [hpar] at hindex
  unfold leafNodeHandleUnderflow
  rw [hroot, if_neg Bool.false_ne_true, if_neg (not_le.mpr hlow), (hplace q).parent, hpar]
  simp only [hfind, Option.bind_eq_bind, Option.bind_some, (hplace f.page).child, (hplace f.page).numKeys]
  rcases hsibling with ⟨hnil, hnum, hn⟩ | ⟨hnil, hnum, b, hb, hchild, hn⟩ | ⟨hpos, a, ha, hchild, hn⟩
  · left
    rw [hnil, List.length_nil, if_neg (Nat.lt_irrefl 0), if_neg (by omega)]
    exact ⟨rfl, hn, rfl⟩
  · right
    left
    refine ⟨hnil, hnum, b, hb, hn, ?_⟩
    rw [hnil, List.length_nil, if_neg (Nat.lt_irrefl 0), if_pos hnum, hchild, Option.bind_some]
    rfl
  · right
    right
    refine ⟨hpos, a, ha, hn, ?_⟩
    rw [if_pos hpos, hchild, Option.bind_some]
    rfl

/-- The row `y` is where the cursor is. -/
def Kept (s' : Store C) (q c : Nat) (y : C) : Prop :=
  s'.Reaches q ∧ (s'.node q).nodeType = .leaf ∧ (s'.node q).cells[c]? = some y

theorem kept_of_place (ha : Above s 0 (Part.leaf q cells) fs) (hs : Sub s 0 (Part.leaf q cells))
    (hplace : ∀ p, SamePlace (s.node p) (s'.node p)) (hroot : s'.rootPageNum = s.rootPageNum)
    (hc : (s'.node q).cells[c]? = some y) : Kept s' q c y :=
  ⟨ha.reaches hroot fun f _ => (hplace f.page).toSameKids, (hplace q).nodeType.trans hs.1, hc⟩

/-- A row in front moves the others on. -/
theorem Sorted.getElem?_cons_ne (hs : Sorted (x :: cs)) (hc : cs[c]? = some y) : (x :: cs)[c]? ≠ some y := by
  intro hat
  obtain ⟨h₁, hy₁⟩ := List.getElem?_eq_some_iff.mp hat
  have hnext : (x :: cs)[c + 1]? = some y := hc
  obtain ⟨h₂, hy₂⟩ := List.getElem?_eq_some_iff.mp hnext
  have hlt := List.pairwise_iff_getElem.mp hs c (c + 1) h₁ h₂ (Nat.lt_succ_self c)
  rw [hy₁, hy₂] at hlt
  exact lt_irrefl _ hlt

theorem leafUnderflow_calm (hcalm : (e.node q).isRoot = true ∨ leafNodeMinCells ≤ (e.node q).cells.length) (fuel : Nat) :
    e.leafNodeHandleUnderflow fuel q = some e := by
  unfold leafNodeHandleUnderflow
  rcases hcalm with hroot | henough
  · rw [if_pos hroot]
  · by_cases hroot : (e.node q).isRoot = true
    · rw [if_pos hroot]
    · rw [if_neg hroot, if_pos henough]

omit [Cell C] in
/-- A call that returns under a condition, and then as it should. -/
theorem settled_iff {o : Option (Store C)} {P : Prop} {Q : Store C → Prop}
    (h : (P → ∃ s', o = some s' ∧ Q s') ∧ (¬ P → o = none)) : ((∃ s', o = some s') ↔ P) ∧ ∀ s', o = some s' → P ∧ Q s' := by
  obtain ⟨hyes, hno⟩ := h
  have hspec : ∀ s', o = some s' → P ∧ Q s' := by
    intro s' hs'
    have hP : P := by
      by_contra hn
      rw [hno hn] at hs'
      cases hs'
    obtain ⟨t, ht, hQ⟩ := hyes hP
    obtain rfl := Option.some.inj (ht.symm.trans hs')
    exact ⟨hP, hQ⟩
  exact ⟨⟨fun ⟨s', hs'⟩ => (hspec s' hs').1, fun hP => (hyes hP).imp fun _ hs' => hs'.1⟩, hspec⟩

omit [Cell C] in
/-- With the sibling to the left the page is no first child. -/
theorem not_staysFirst (hroot : (s.node q).isRoot = false) (hlow : s.cellsLeft cur q < leafNodeMinCells)
    (hindex : s.childIndex q = some i) (hpos : 0 < i) : ¬ s.StaysFirst cur q := by
  rintro (h | h | ⟨h, -⟩)
  · rw [hroot] at h
    cases h
  · omega
  · have := Option.some.inj (hindex.symm.trans h)
    omega

section Sibling

variable {o : Option (Store C)} {a b : Part C} (ha : Above s 0 (Part.leaf q cells) (f :: fs))
  (hs : Sub s 0 (Part.leaf q cells)) (hnd : Apart (Part.leaf q cells) (f :: fs)) (hstock : Stocked s (f :: fs))
  (hplace : ∀ p, SamePlace (s.node p) (e.node p)) (hroot : e.rootPageNum = s.rootPageNum)
include ha hs hnd hstock hplace hroot

/-- The right sibling lends its first cell, or its cells go behind those of the page. -/
theorem leafUnderflow_right (hnil : f.left = []) (hnum : 0 < (s.node f.page).numKeys) (hb : b ∈ f.right) (fuel : Nat)
    (ho : o = if leafNodeMinCells < (e.node b.page).cells.length then some (e.leafBorrowFromRight q b.page f.page 0)
      else e.leafMerge (fuel + 1) q b.page f.page 1) :
    ((∃ s', o = some s') ↔ leafNodeMinCells < (e.node b.page).cells.length ∨ s.CanLose f.page) ∧
    ∀ c y, (e.node q).cells[c]? = some y → ((∃ s', o = some s' ∧ Kept s' q c y) ↔
      leafNodeMinCells < (e.node b.page).cells.length ∨
        s.CanLose f.page ∧ ¬ ((s.node f.page).isRoot = true ∧ (s.node f.page).numKeys = 1)) := by
  have hqp : q ≠ f.page := hnd.own hs.page_mem
  have hmem := List.mem_append_right f.left hb
  have hqb : q ≠ b.page := hnd.kid hs.page_mem hmem (ha.2.2.1 b hmem).1.page_mem
  by_cases hlend : leafNodeMinCells < (e.node b.page).cells.length
  · have hne : (e.node b.page).cells ≠ [] := List.ne_nil_of_length_pos (by omega)
    have hl := leafBorrowFromRight_spec (List.head?_eq_some_head hne) hqb hqp 0
    rw [if_pos hlend] at ho
    refine ⟨⟨fun _ => Or.inl hlend, fun _ => ⟨_, ho⟩⟩, fun c y hc => ⟨fun _ => Or.inl hlend, fun _ => ⟨_, ho, ?_⟩⟩⟩
    refine kept_of_place ha hs (fun p => (hplace p).trans (hl.place p)) (hl.root.trans hroot) ?_
    rw [hl.cells, List.getElem?_append_left (List.getElem?_eq_some_iff.mp hc).1, hc]
  · obtain ⟨u, hu, hmerge⟩ := leafMerge_eq e hqb (fuel + 1) f.page 1
    rw [if_neg hlend, hmerge] at ho
    have hchild : (s.node f.page).internalNodeChild 0 = some q := by
      have hat := ha.1.child (hole f (Part.leaf q cells))
      rwa [hnil] at hat
    obtain ⟨hreturns, hspec⟩ := settled_iff (internalRemoveChild_spec ha hs hnd (fun p => (hplace p).trans (hu.place p))
      (hu.root.trans hroot) Nat.one_pos hnum hstock hchild fuel)
    rw [ho]
    refine ⟨hreturns.trans ⟨Or.inr, fun h => h.resolve_left hlend⟩, fun c y hc => ⟨?_, fun h => ?_⟩⟩
    · rintro ⟨s', hs', hreach, -, -⟩
      obtain ⟨hcan, hdet⟩ := hspec s' hs'
      exact Or.inr ⟨hcan, fun h => hqp (hdet.collapses h.1 h.2 q hreach)⟩
    · obtain ⟨hcan, hkeep⟩ := h.resolve_left hlend
      obtain ⟨s', hs'⟩ := hreturns.mpr hcan
      obtain ⟨-, hdet⟩ := hspec s' hs'
      have hbody := hdet.body q hqp
      have htype := hbody.nodeType.trans (((hplace q).trans (hu.place q)).nodeType.trans hs.1)
      refine ⟨s', hs', hdet.stays hkeep, htype, ?_⟩
      rw [hbody.cells, hu.left, List.getElem?_append_left (List.getElem?_eq_some_iff.mp hc).1, hc]

/-- The left sibling lends its last cell, which goes in front of the others, or the page goes into it. -/
theorem leafUnderflow_left (hpos : 0 < f.left.length) (hal : a ∈ f.left) (fuel : Nat)
    (ho : o = if leafNodeMinCells < (e.node a.page).cells.length
      then some (e.leafBorrowFromLeft q a.page f.page f.left.length)
      else e.leafMerge (fuel + 1) a.page q f.page f.left.length) :
    ((∃ s', o = some s') ↔ leafNodeMinCells < (e.node a.page).cells.length ∨ s.CanLose f.page) ∧
    ∀ c y, (e.node q).cells[c]? = some y → (∀ x ∈ (e.node a.page).cells, Sorted (x :: (e.node q).cells)) →
      ¬ ∃ s', o = some s' ∧ Kept s' q c y := by
  have hqp : q ≠ f.page := hnd.own hs.page_mem
  have hmem := List.mem_append_left f.right hal
  have hqa : q ≠ a.page := hnd.kid hs.page_mem hmem (ha.2.2.1 a hmem).1.page_mem
  by_cases hlend : leafNodeMinCells < (e.node a.page).cells.length
  · have hne : (e.node a.page).cells ≠ [] := List.ne_nil_of_length_pos (by omega)
    have hl := leafBorrowFromLeft_spec (List.getLast?_eq_some_getLast hne) hqa hqp f.left.length
    rw [if_pos hlend] at ho
    refine ⟨⟨fun _ => Or.inl hlend, fun _ => ⟨_, ho⟩⟩, fun c y hc hord => ?_⟩
    rintro ⟨s', hs', -, -, hat⟩
    obtain rfl := Option.some.inj (ho.symm.trans hs')
    rw [hl.cells] at hat
    exact (hord _ (List.getLast_mem hne)).getElem?_cons_ne hc hat
  · obtain ⟨u, hu, hmerge⟩ := leafMerge_eq e hqa.symm (fuel + 1) f.page f.left.length
    rw [if_neg hlend, hmerge] at ho
    have hcount := ha.1.count
    rw [List.length_append, List.length_cons] at hcount
    have hlt : 0 < (f.left ++ Part.leaf q cells :: f.right).length := by rw [List.length_append]; omega
    have hchild := ha.1.child (List.getElem?_eq_getElem hlt)
    obtain ⟨hreturns, hspec⟩ := settled_iff (internalRemoveChild_spec ha hs hnd (fun p => (hplace p).trans (hu.place p))
      (hu.root.trans hroot) hpos (by omega) hstock hchild fuel)
    rw [ho]
    refine ⟨hreturns.trans ⟨Or.inr, fun h => h.resolve_left hlend⟩, fun c y hc hord => ?_⟩
    rintro ⟨s', hs', -, -, hat⟩
    obtain ⟨-, hdet⟩ := hspec s' hs'
    rw [(hdet.body q hqp).cells, hu.right] at hat
    cases hat

end Sibling

theorem leafUnderflow_iff (ha : Above s 0 (Part.leaf q cells) fs) (hs : Sub s 0 (Part.leaf q cells))
    (hnd : Apart (Part.leaf q cells) fs) (hstock : Stocked s fs) (hplace : ∀ p, SamePlace (s.node p) (e.node p))
    (hroot : e.rootPageNum = s.rootPageNum) (hlen : ∀ p, (e.node p).cells.length = s.cellsLeft cur p) (fuel : Nat) :
    ((∃ s', e.leafNodeHandleUnderflow (fuel + 1) q = some s') ↔ s.Settles cur q) ∧
    ∀ c y, (e.node q).cells[c]? = some y →
      (∀ f gs, fs = f :: gs → ∀ a ∈ f.left, ∀ x ∈ (e.node a.page).cells, Sorted (x :: (e.node q).cells)) →
      ((∃ s', e.leafNodeHandleUnderflow (fuel + 1) q = some s' ∧ Kept s' q c y) ↔ s.StaysFirst cur q) := by
  by_cases hcalm : (s.node q).isRoot = true ∨ leafNodeMinCells ≤ s.cellsLeft cur q
  · have hH : e.leafNodeHandleUnderflow (fuel + 1) q = some e :=
      leafUnderflow_calm (by rw [(hplace q).isRoot, hlen]; exact hcalm) _
    refine ⟨⟨fun _ => ?_, fun _ => ⟨e, hH⟩⟩,
      fun c y hc _ => ⟨fun _ => ?_, fun _ => ⟨e, hH, kept_of_place ha hs hplace hroot hc⟩⟩⟩
    · exact hcalm.imp id Or.inl
    · exact hcalm.imp id Or.inl
  obtain ⟨hnot, hlow⟩ := not_or.mp hcalm
  have hnot' : (s.node q).isRoot = false := by simpa using hnot
  cases fs with
  | nil => exact absurd ha.2 hnot
  | cons f fs =>
    have hpar : (s.node q).parent = f.page := ha.2.2.2.1
    have hindex : s.childIndex q = some f.left.length := ha.childIndex hs hnd
    have hsettles : s.Settles cur q ↔
        ∀ n, s.neighbour q = some n → leafNodeMinCells < s.cellsLeft cur n ∨ s.CanLose f.page := by
      unfold Settles
      rw [hpar]
      exact ⟨fun h => (h.resolve_left hnot).resolve_left hlow, fun h => Or.inr (Or.inr h)⟩
    have hfirst : s.StaysFirst cur q ↔ f.left.length = 0 ∧ ∀ n, s.neighbour q = some n →
        leafNodeMinCells < s.cellsLeft cur n ∨ s.CanLose f.page ∧ ¬ ((s.node f.page).isRoot = true ∧ (s.node f.page).numKeys = 1) := by
      unfold StaysFirst
      rw [hpar, hindex]
      exact ⟨fun h => ((h.resolve_left hnot).resolve_left hlow).imp Option.some.inj id,
        fun h => Or.inr (Or.inr (h.imp (congrArg some) id))⟩
    rw [hsettles]
    simp only [hfirst]
    have hlow' : (e.node q).cells.length < leafNodeMinCells := by
      rw [hlen]
      omega
    rcases leafUnderflow_cases ha hs hnd hplace hlow' (fuel + 1) with
      ⟨hnil, hn, hH⟩ | ⟨hnil, hnum, b, hb, hn, hH⟩ | ⟨hpos, a, hal, hn, hH⟩
    · simp only [hn, reduceCtorEq, false_implies, implies_true, and_true]
      exact ⟨⟨fun _ => trivial, fun _ => ⟨e, hH⟩⟩, fun c y hc _ => ⟨fun _ => by rw [hnil]; rfl,
        fun _ => ⟨e, hH, kept_of_place ha hs hplace hroot hc⟩⟩⟩
    · have hzero : f.left.length = 0 := by rw [hnil]; rfl
      obtain ⟨hreturns, hkept⟩ := leafUnderflow_right ha hs hnd hstock hplace hroot hnil hnum hb fuel hH
      simp only [hlen] at hreturns hkept
      simp only [hn, Option.some.injEq, forall_eq']
      exact ⟨hreturns, fun c y hc _ => (hkept c y hc).trans ⟨fun h => ⟨hzero, h⟩, fun h => h.2⟩⟩
    · obtain ⟨hreturns, hlost⟩ := leafUnderflow_left ha hs hnd hstock hplace hroot hpos hal fuel hH
      simp only [hlen] at hreturns
      simp only [hn, Option.some.injEq, forall_eq']
      exact ⟨hreturns, fun c y hc hord =>
        iff_of_false (hlost c y hc (hord f fs rfl a hal)) fun h => absurd h.1 (Nat.ne_of_gt hpos)⟩

/-! ## The leaf in the tree -/

theorem Store.Occupied.stocked (ho : s.Occupied) (ha : Above s 0 t fs) : Stocked s fs := by
  cases fs with
  | nil => trivial
  | cons f fs =>
    cases fs with
    | nil => trivial
    | cons g gs =>
      obtain ⟨hl, -, -, -, -, hup⟩ := ha
      have hf : s.Reaches f.page := hup.reaches rfl fun x _ => .refl _
      have hg : s.Reaches g.page := hup.2.2.2.2.2.reaches rfl fun x _ => .refl _
      refine ⟨ho f.page hf hl.nodeType hup.2.2.2.2.1, fun k hk => ?_⟩
      obtain ⟨hsub, -, hnot⟩ := hup.2.2.1 k hk
      obtain ⟨j, hj⟩ := List.getElem?_of_mem ((sublist_append_cons g.left g.right (f.fill t)).mem hk)
      exact ho k.page (.child hg hup.1.nodeType (hup.1.child hj)) hsub.internal hnot

/-- The path to a leaf. -/
theorem WellFormed.locate (hw : WellFormed s h t) (hleaves : t.leaves = l₁ ++ (q, cells) :: l₂) :
    ∃ fs, Above s 0 (Part.leaf q cells) fs ∧ Sub s 0 (Part.leaf q cells) ∧ Apart (Part.leaf q cells) fs ∧ before fs = l₁ ∧
      after fs = l₂ := by
  have htop : Above s h t [] := ⟨hw.root, hw.isRoot⟩
  obtain ⟨fs, hplug, ha, hs, hb, haf⟩ := hw.sub.locate htop hleaves
  refine ⟨fs, ha, hs, ?_, hb, haf.trans (List.append_nil _)⟩
  have hperm := plug_pages (Part.leaf q cells) fs
  rw [hplug] at hperm
  exact hperm.nodup_iff.mp hw.nodup

theorem leaf_cells (hs : Sub s 0 (Part.leaf q cells)) : (s.node q).cells = cells := by
  have hrows := congrArg Part.rows hs.2
  rw [rows_leaf, rows_leaf] at hrows
  exact hrows.symm

/-- The rows in front of a leaf, those on it, and those behind. -/
theorem WellFormed.sorted_split (hw : WellFormed s h t) (hleaves : t.leaves = l₁ ++ (q, cells) :: l₂) :
    Sorted (l₁.flatMap Prod.snd ++ (cells ++ l₂.flatMap Prod.snd)) := by
  have hrows : t.rows = l₁.flatMap Prod.snd ++ (cells ++ l₂.flatMap Prod.snd) := by
    unfold Part.rows
    rw [hleaves, List.flatMap_append, List.flatMap_cons]
  rw [← hrows]
  exact hw.sorted

/-- The rows of the leaves in front are smaller. -/
theorem WellFormed.before_lt (hw : WellFormed s h t) (hleaves : t.leaves = l₁ ++ (q, cells) :: l₂)
    (hx : x ∈ l₁.flatMap Prod.snd) (hy : y ∈ cells) : Cell.key x < Cell.key y :=
  (List.pairwise_append.mp (hw.sorted_split hleaves)).2.2 x hx y (List.mem_append_left _ hy)

theorem WellFormed.leaf_sorted (hw : WellFormed s h t) (hleaves : t.leaves = l₁ ++ (q, cells) :: l₂) : Sorted cells :=
  (List.pairwise_append.mp (List.pairwise_append.mp (hw.sorted_split hleaves)).2.1).1

omit [Cell C] in
theorem Erased.subset (he : Erased s e cur) (q : Nat) : (e.node q).cells.Sublist (s.node q).cells := by
  rw [he.cells]
  split
  · exact List.eraseIdx_sublist ..
  · exact List.Sublist.refl _

/-- The underflow of a leaf of a well-formed tree. -/
theorem WellFormed.underflow_iff (hw : WellFormed s h t) (ho : s.Occupied) (hleaves : t.leaves = l₁ ++ (q, cells) :: l₂)
    (hlt : cur.cellNum < (s.node cur.pageNum).cells.length) (fuel : Nat) :
    ((∃ s', (s.eraseCell cur).leafNodeHandleUnderflow (fuel + 1) q = some s') ↔ s.Settles cur q) ∧
    ∀ c y, ((s.eraseCell cur).node q).cells[c]? = some y →
      ((∃ s', (s.eraseCell cur).leafNodeHandleUnderflow (fuel + 1) q = some s' ∧ Kept s' q c y) ↔ s.StaysFirst cur q) := by
  obtain ⟨fs, ha, hs, hnd, hb, -⟩ := hw.locate hleaves
  have he := eraseCell_erased s cur
  obtain ⟨hreturns, hkept⟩ := leafUnderflow_iff ha hs hnd (ho.stocked ha) he.place he.root (he.length hlt) fuel
  refine ⟨hreturns, fun c y hc => hkept c y hc ?_⟩
  rintro f gs rfl a hal x hx
  have hcells := leaf_cells hs
  have hleaf : (a.page, (s.node a.page).cells) ∈ a.leaves := by
    rw [(ha.2.2.1 a (List.mem_append_left _ hal)).1.2]
    exact List.mem_singleton_self _
  have hfront : x ∈ l₁.flatMap Prod.snd := by
    rw [← hb]
    exact List.mem_flatMap.mpr
      ⟨_, List.mem_append_right _ (List.mem_flatMap.mpr ⟨a, hal, hleaf⟩), (he.subset a.page).subset hx⟩
  have hsub : ((s.eraseCell cur).node q).cells.Sublist cells := hcells ▸ he.subset q
  exact List.pairwise_cons.mpr ⟨fun y hy => hw.before_lt hleaves hfront (hsub.subset hy),
    (hw.leaf_sorted hleaves).sublist hsub⟩

/-! ## The cursor -/

/-- Where the cursor goes, and what it is on there. -/
theorem btreeDelete_eq (hlt : cur.cellNum < (s.node cur.pageNum).cells.length) (fuel : Nat) :
    s.btreeDelete fuel cur = ((s.eraseCell cur).leafNodeHandleUnderflow fuel ((s.eraseCell cur).afterDelete cur).pageNum).map
      fun s' => (s', (s.eraseCell cur).afterDelete cur) := by
  unfold btreeDelete
  rw [if_neg (not_le.mpr hlt)]

/-- `btree_delete` comes back with the cursor moved to page `q`. -/
theorem btreeDelete_returns {d : Cursor} (hlt : cur.cellNum < (s.node cur.pageNum).cells.length) (fuel : Nat)
    (hd : (s.eraseCell cur).afterDelete cur = d) (P : Store C → Cursor → Prop) :
    (∃ s' c', s.btreeDelete fuel cur = some (s', c') ∧ P s' c') ↔
      ∃ s', (s.eraseCell cur).leafNodeHandleUnderflow fuel d.pageNum = some s' ∧ P s' d := by
  rw [btreeDelete_eq hlt, hd]
  constructor
  · rintro ⟨s', c', hs', hP⟩
    obtain ⟨u, hu, huc⟩ := Option.map_eq_some_iff.mp hs'
    obtain ⟨rfl, rfl⟩ := Prod.mk.inj huc
    exact ⟨u, hu, hP⟩
  · rintro ⟨s', hs', hP⟩
    exact ⟨s', d, by rw [hs']; rfl, hP⟩

/-- A row of the same leaf is behind. -/
theorem afterDelete_stays (hmore : cur.cellNum + 1 < (s.node cur.pageNum).cells.length) :
    (s.eraseCell cur).afterDelete cur = cur ∧ s.movedTo cur = cur.pageNum ∧
      ((s.eraseCell cur).node cur.pageNum).cells[cur.cellNum]? = (s.node cur.pageNum).cells[cur.cellNum + 1]? := by
  refine ⟨?_, if_pos (Or.inl hmore), ?_⟩
  · unfold Store.afterDelete
    rw [eraseCell_cells, List.length_eraseIdx_of_lt (by omega), if_neg (by omega)]
  · rw [eraseCell_cells, List.getElem?_eraseIdx_of_ge (le_refl _)]

/-- The last row of its leaf. -/
theorem afterDelete_leaves (hlast : cur.cellNum + 1 = (s.node cur.pageNum).cells.length) :
    (s.eraseCell cur).afterDelete cur = if (s.node cur.pageNum).nextLeaf = 0 then { cur with endOfTable := true }
      else ⟨(s.node cur.pageNum).nextLeaf, 0,
        cur.endOfTable || ((s.eraseCell cur).node (s.node cur.pageNum).nextLeaf).cells.isEmpty⟩ := by
  unfold Store.afterDelete
  rw [eraseCell_cells, List.length_eraseIdx_of_lt (by omega), if_pos (by omega), (eraseCell_erased s cur).next]

omit [Cell C] in
/-- The leaf behind another one is the one it is linked to. -/
theorem Chained.next_leaf {l₁ l₂ : List Nat} (hc : Chained s (l₁ ++ q :: l₂)) :
    l₂ = [] ∧ (s.node q).nextLeaf = 0 ∨ ∃ l, l₂ = (s.node q).nextLeaf :: l ∧ (s.node q).nextLeaf ≠ 0 := by
  obtain ⟨a, ha⟩ := hc
  induction l₁ generalizing a with
  | nil =>
    obtain ⟨rfl, -, hrest⟩ := ha
    cases l₂ with
    | nil => exact Or.inl ⟨rfl, hrest⟩
    | cons r l =>
      obtain ⟨rfl, hne, -⟩ := hrest
      exact Or.inr ⟨l, rfl, hne⟩
  | cons p l₁ ih => exact ih _ ha.2.2

/-- The cursor comes to the row `y` of page `q`. -/
theorem onSuccessor_row {d : Cursor} {rest : List C} (hw : WellFormed s h t) (ho : s.Occupied)
    (hleaves : t.leaves = l₁ ++ (q, cells) :: l₂) (hlt : cur.cellNum < (s.node cur.pageNum).cells.length)
    (hd : (s.eraseCell cur).afterDelete cur = d) (hpage : d.pageNum = q) (hend : d.endOfTable = false)
    (hmoved : s.movedTo cur = q) (hy : ((s.eraseCell cur).node q).cells[d.cellNum]? = some y)
    (hmore : cur.cellNum + 1 < (s.node cur.pageNum).cells.length ∨ (s.node (s.node cur.pageNum).nextLeaf).cells ≠ [])
    (fuel : Nat) : (∃ s' c', s.btreeDelete (fuel + 1) cur = some (s', c') ∧ s'.OnSuccessor c' (y :: rest)) ↔
      s.KeepsSuccessor cur (y :: rest) := by
  have hkept := (hw.underflow_iff ho hleaves hlt fuel).2 d.cellNum y hy
  rw [btreeDelete_returns hlt _ hd fun s' c' => s'.OnSuccessor c' (y :: rest), hpage]
  show _ ↔ _ ∧ s.StaysFirst cur (s.movedTo cur)
  rw [hmoved, ← hkept]
  constructor
  · rintro ⟨s', hs', -, hrow⟩
    rw [hpage] at hrow
    exact ⟨hmore, s', hs', hrow⟩
  · rintro ⟨-, s', hs', hrow⟩
    refine ⟨s', hs', hend, ?_⟩
    rw [hpage]
    exact hrow

/-- The cursor comes to the end, behind the last row. -/
theorem onSuccessor_end {d : Cursor} (hw : WellFormed s h t) (ho : s.Occupied)
    (hleaves : t.leaves = l₁ ++ (q, cells) :: l₂) (hlt : cur.cellNum < (s.node cur.pageNum).cells.length)
    (hd : (s.eraseCell cur).afterDelete cur = d) (hpage : d.pageNum = q) (hend : d.endOfTable = true)
    (hmoved : s.movedTo cur = q) (fuel : Nat) :
    (∃ s' c', s.btreeDelete (fuel + 1) cur = some (s', c') ∧ s'.OnSuccessor c' []) ↔ s.KeepsSuccessor cur [] := by
  rw [btreeDelete_returns hlt _ hd fun s' c' => s'.OnSuccessor c' [], hpage]
  show _ ↔ s.Settles cur (s.movedTo cur)
  rw [hmoved, ← (hw.underflow_iff ho hleaves hlt fuel).1]
  exact ⟨fun ⟨s', hs', _⟩ => ⟨s', hs'⟩, fun ⟨s', hs'⟩ => ⟨s', hs', hend⟩⟩

/-- The cursor comes to a leaf without rows, and takes it for the end of the table. -/
theorem not_onSuccessor {d : Cursor} {rest : List C} (hlt : cur.cellNum < (s.node cur.pageNum).cells.length)
    (hd : (s.eraseCell cur).afterDelete cur = d) (hend : d.endOfTable = true) (fuel : Nat) :
    ¬ ∃ s' c', s.btreeDelete fuel cur = some (s', c') ∧ s'.OnSuccessor c' (y :: rest) := by
  rw [btreeDelete_returns hlt _ hd fun s' c' => s'.OnSuccessor c' (y :: rest)]
  rintro ⟨s', -, hfalse, -⟩
  rw [hend] at hfalse
  cases hfalse

/-- `btree_delete` leaves its cursor on the row behind the deleted one if and only if `KeepsSuccessor` holds. -/
theorem cursor_on_successor_iff (hw : WellFormed s h t) (ho : s.Occupied)
    (hleaves : t.leaves = l₁ ++ (cur.pageNum, cells) :: l₂) (hcell : cur.cellNum < cells.length)
    (hend : cur.endOfTable = false) (fuel : Nat) :
    (∃ s' c', s.btreeDelete (fuel + 1) cur = some (s', c') ∧
      s'.OnSuccessor c' (cells.drop (cur.cellNum + 1) ++ l₂.flatMap Prod.snd)) ↔
    s.KeepsSuccessor cur (cells.drop (cur.cellNum + 1) ++ l₂.flatMap Prod.snd) := by
  obtain ⟨fs, ha, hs, hnd, -, hafter⟩ := hw.locate hleaves
  have hcells := leaf_cells hs
  have hlt : cur.cellNum < (s.node cur.pageNum).cells.length := by
    rw [hcells]
    exact hcell
  rcases Nat.lt_or_eq_of_le (Nat.succ_le_of_lt hcell) with hmore | hlast
  · -- the row behind is on the same leaf
    rw [← hcells] at hmore
    obtain ⟨hd, hmoved, hat⟩ := afterDelete_stays hmore
    rw [hcells] at hmore
    rw [List.drop_eq_getElem_cons hmore, List.cons_append]
    refine onSuccessor_row hw ho hleaves hlt hd rfl hend hmoved ?_ (Or.inl (by rw [hcells]; exact hmore)) fuel
    rw [hat, hcells]
    exact List.getElem?_eq_getElem hmore
  have hlast' : cur.cellNum + 1 = (s.node cur.pageNum).cells.length := by
    rw [hcells]
    exact hlast
  have hd := afterDelete_leaves hlast'
  have hno : ¬ cur.cellNum + 1 < (s.node cur.pageNum).cells.length := by omega
  rw [List.drop_eq_nil_of_le (Nat.le_of_eq hlast.symm), List.nil_append]
  have hchain := hw.chained
  rw [hleaves, List.map_append, List.map_cons] at hchain
  rcases Chained.next_leaf hchain with ⟨hnil, hzero⟩ | ⟨l, hl, hne⟩
  · -- there is no leaf behind
    obtain rfl := List.map_eq_nil_iff.mp hnil
    rw [if_pos hzero] at hd
    exact onSuccessor_end hw ho hleaves hlt hd rfl rfl (if_pos (Or.inr hzero)) fuel
  · rw [if_neg hne] at hd
    have hmoved : s.movedTo cur = (s.node cur.pageNum).nextLeaf := if_neg (not_or.mpr ⟨hno, hne⟩)
    obtain ⟨⟨r, cs⟩, l₃, rfl, rfl, rfl⟩ := List.map_eq_cons_iff.mp hl
    have hleaves' : t.leaves = (l₁ ++ [(cur.pageNum, cells)]) ++ ((s.node cur.pageNum).nextLeaf, cs) :: l₃ := by
      rw [hleaves, List.append_assoc]
      rfl
    obtain ⟨-, -, hs', -⟩ := hw.locate hleaves'
    have hcs := leaf_cells hs'
    have hout := ha.leaf_pages ((s.node cur.pageNum).nextLeaf, cs)
      (List.mem_append_right _ (by rw [hafter]; exact List.mem_cons_self))
    have hother : (s.node cur.pageNum).nextLeaf ≠ cur.pageNum := (hnd.ne (List.mem_singleton_self cur.pageNum) hout).symm
    have hecs : ((s.eraseCell cur).node (s.node cur.pageNum).nextLeaf).cells = cs := by
      rw [(eraseCell_erased s cur).cells, if_neg hother, hcs]
    rw [List.flatMap_cons]
    cases cs with
    | nil =>
      rw [hecs, hend] at hd
      cases hpost : l₃.flatMap Prod.snd with
      | nil => exact onSuccessor_end hw ho hleaves' hlt hd rfl rfl hmoved fuel
      | cons y rest =>
        exact ⟨fun h => absurd h (not_onSuccessor hlt hd rfl _),
          fun h => h.1.elim (fun h => absurd h hno) (fun h => absurd hcs h)⟩
    | cons y cs =>
      rw [hecs, hend] at hd
      refine onSuccessor_row hw ho hleaves' hlt hd rfl rfl hmoved ?_ (Or.inr ?_) fuel
      · rw [hecs]
        rfl
      · rw [hcs]
        exact List.cons_ne_nil _ _

end Underflow

/-! ## Two leaves -/

theorem twoLeaves_occupied (b : List (PackedRecord zeroOps)) : (twoLeaves b).Occupied := by
  have hpages : ∀ q, (twoLeaves b).Reaches q → q = 33 ∨ q = 34 ∨ q = 35 := by
    intro q hq
    induction hq with
    | root => exact Or.inl rfl
    | @child p q i _ htype hc ih =>
      rcases ih with rfl | rfl | rfl
      · cases i with
        | zero => exact Or.inr (Or.inl (Option.some.inj hc).symm)
        | succ i =>
          cases i with
          | zero => exact Or.inr (Or.inr (Option.some.inj hc).symm)
          | succ i =>
            have hnone : ((twoLeaves b).node 33).internalNodeChild (i + 1 + 1) = none := if_pos (show 1 < i + 1 + 1 by omega)
            rw [hnone] at hc
            cases hc
      · cases htype
      · cases htype
  intro q hq htype hroot
  rcases hpages q hq with rfl | rfl | rfl
  · cases hroot
  · cases htype
  · cases htype

/-- The first row of the left leaf, with enough others beside it. -/
theorem cursor_on_successor_left : ∃ s' c',
    (twoLeaves [wideRow 50, wideRow 60]).btreeDelete 1 ⟨34, 0, false⟩ = some (s', c') ∧
    s'.OnSuccessor c' (fullLeaf.drop 1 ++ [(35, [wideRow 50, wideRow 60])].flatMap Prod.snd) := by
  have hleaves : (twoLeavesTree [wideRow 50, wideRow 60]).leaves =
      [] ++ ((⟨34, 0, false⟩ : Cursor).pageNum, fullLeaf) :: [(35, [wideRow 50, wideRow 60])] := rfl
  exact (cursor_on_successor_iff (twoLeaves_wellFormed (by decide +kernel)) (twoLeaves_occupied _) hleaves
    (by decide +kernel) rfl 0).mpr ⟨Or.inl (by decide +kernel), Or.inr (Or.inl (by decide +kernel))⟩

/-- The first of the two rows of the right leaf: the leaf borrows the last row of its sibling. -/
theorem btreeDelete_borrows (fuel : Nat) : (twoLeaves [wideRow 50, wideRow 60]).btreeDelete fuel ⟨35, 0, false⟩ =
    some (((twoLeaves [wideRow 50, wideRow 60]).eraseCell ⟨35, 0, false⟩).leafBorrowFromLeft 35 34 33 1,
      ⟨35, 0, false⟩) := by
  have hcursor : ((twoLeaves [wideRow 50, wideRow 60]).eraseCell ⟨35, 0, false⟩).afterDelete ⟨35, 0, false⟩ =
      ⟨35, 0, false⟩ := by
    decide +kernel
  obtain ⟨e, he⟩ : ∃ e, e = (twoLeaves [wideRow 50, wideRow 60]).eraseCell ⟨35, 0, false⟩ := ⟨_, rfl⟩
  have hroot : ¬ (e.node 35).isRoot = true := by
    rw [he]
    decide +kernel
  have hlow : ¬ leafNodeMinCells ≤ (e.node 35).cells.length := by
    rw [he]
    decide +kernel
  have hpar : (e.node 35).parent = 33 := by
    rw [he]
    decide +kernel
  have hindex : (e.node 33).findChildIndex 35 = some 1 := by
    rw [he]
    decide +kernel
  have hchild : (e.node 33).internalNodeChild (1 - 1) = some 34 := by
    rw [he]
    decide +kernel
  have hlend : leafNodeMinCells < (e.node 34).cells.length := by
    rw [he]
    decide +kernel
  rw [btreeDelete_eq (by decide +kernel), hcursor, ← he]
  unfold leafNodeHandleUnderflow
  rw [if_neg hroot, if_neg hlow, hpar]
  dsimp only
  rw [hindex, Option.bind_eq_bind, Option.bind_some, if_pos Nat.one_pos, hchild, Option.bind_some, if_pos hlend]
  rfl

/-- The cursor is on the borrowed row, which is in front of the deleted one. -/
theorem cursor_on_borrowed_row : ¬ ∀ (s : Store (PackedRecord zeroOps)) (h : Nat) (t : Part (PackedRecord zeroOps))
    (cur : Cursor) (l₁ l₂ : List (Nat × List (PackedRecord zeroOps))) (cells : List (PackedRecord zeroOps)), WellFormed s h t → s.Occupied →
    t.leaves = l₁ ++ (cur.pageNum, cells) :: l₂ → cur.cellNum < cells.length → cur.endOfTable = false →
    ∃ fuel s' c', s.btreeDelete fuel cur = some (s', c') ∧
      s'.OnSuccessor c' (cells.drop (cur.cellNum + 1) ++ l₂.flatMap Prod.snd) := by
  intro hall
  obtain ⟨fuel, s', c', hs', -, -, -, hat⟩ := hall (twoLeaves [wideRow 50, wideRow 60]) 1 _ ⟨35, 0, false⟩
    [(34, fullLeaf)] [] [wideRow 50, wideRow 60] (twoLeaves_wellFormed (by decide +kernel)) (twoLeaves_occupied _) rfl (by decide) rfl
  rw [btreeDelete_borrows] at hs'
  obtain ⟨rfl, rfl⟩ := Prod.mk.inj (Option.some.inj hs')
  have hkey := congrArg (Option.map Cell.key) hat
  exact absurd hkey (by decide +kernel)

end Tree

end CustomDB
