import CustomDB.Tree.Grow

/-!
# The keys that an insertion reads

`get_node_max_key` returns 0 for an empty leaf. The conditions here say of a store, before the insertion, that it
never does so for a node whose key is read on the way up.
-/

namespace CustomDB

open Lib

namespace Tree

variable {C : Type}

namespace Store

/-- The last leaf below page `p`, at most `depth` levels down, has a cell. -/
def lastLeafFilled (s : Store C) : Nat → Nat → Bool
  | 0, _ => false
  | depth + 1, p =>
    match (s.node p).nodeType with
    | .leaf => !(s.node p).cells.isEmpty
    | .internal => lastLeafFilled s depth (s.node p).rightChild

/-- On the path of `key` from page `p` up, at most `fuel` nodes: in a node with room the right child, in a full node
the children of the upper half, except for the one on the path itself. -/
def readsFilled (s : Store C) (depth : Nat) (key : Int) : Nat → Nat → Bool
  | 0, _ => false
  | fuel + 1, p =>
    let n := s.node p
    let i := n.internalNodeFindChild key
    if n.numKeys < internalNodeMaxKeys then i == n.numKeys || s.lastLeafFilled depth n.rightChild
    else (List.range (n.numKeys + 1)).all (fun j => j < internalNodeMaxKeys / 2 || j == i ||
        ((n.internalNodeChild j).map (s.lastLeafFilled depth)).getD false) &&
      (n.isRoot || readsFilled s depth key fuel n.parent)

variable [Cell C]

/-- The row fits into the leaf of the cursor. -/
def FitsLeaf (s : Store C) (cursor : Cursor) (row : C) : Prop :=
  (s.node cursor.pageNum).HasRoom (Cell.size row) ∨ (s.node cursor.pageNum).leafNodeDefragment.HasRoom (Cell.size row)

instance (s : Store C) (cursor : Cursor) (row : C) : Decidable (s.FitsLeaf cursor row) := inferInstanceAs (Decidable (_ ∨ _))

/-- The halves of a split of the leaf fit on their pages. -/
def SplitFits (s : Store C) (cursor : Cursor) (row : C) : Prop :=
  let cells := (s.node cursor.pageNum).cells.insertIdx cursor.cellNum row
  HalfFits (cells.take (cells.length / 2)) ∧ HalfFits (cells.drop (cells.length / 2))

instance (s : Store C) (cursor : Cursor) (row : C) : Decidable (s.SplitFits cursor row) :=
  inferInstanceAs (Decidable (_ ∧ _))

/-- No largest key is read off an empty leaf. -/
def ReadsFilled (s : Store C) (depth : Nat) (cursor : Cursor) (row : C) : Prop :=
  s.FitsLeaf cursor row ∨ (s.node cursor.pageNum).isRoot = true ∨
    s.readsFilled depth (Cell.key row) depth (s.node cursor.pageNum).parent = true

instance (s : Store C) (depth : Nat) (cursor : Cursor) (row : C) : Decidable (s.ReadsFilled depth cursor row) :=
  inferInstanceAs (Decidable (_ ∨ _))

end Store

variable [Cell C] {s : Store C} {h d m : Nat} {key : Int} {t k : Part C} {f : Frame C} {fs : List (Frame C)}

open Store

theorem Sub.ends_of_filled (hs : Sub s h t) (hf : s.lastLeafFilled d t.page = true) : t.Ends := by
  induction h generalizing t d with
  | zero =>
    cases d with
    | zero => exact absurd hf Bool.false_ne_true
    | succ d =>
      rw [lastLeafFilled, hs.1] at hf
      rw [hs.2]
      refine ends_leaf (fun hn => ?_) _
      rw [hn] at hf
      exact absurd hf Bool.false_ne_true
  | succ h ih =>
    cases d with
    | zero => exact absurd hf Bool.false_ne_true
    | succ d =>
      obtain ⟨kids, hl, -, ht, hk⟩ := hs
      obtain ⟨k, hlast, hrc, hmem⟩ := hl.getLast
      rw [lastLeafFilled, hl.nodeType] at hf
      dsimp only at hf
      rw [hrc] at hf
      have hends := ih (hk k hmem).1 hf
      rw [ht, Part.Ends, lastCells_join hlast (hk k hmem).1.leaves_ne]
      exact hends

/-- In a full node: the children from the middle on, except for the one at `i`. -/
theorem ends_of_all {n : Node C} {kids : List (Part C)} {i : Nat} (hl : Links n kids)
    (hk : ∀ j k, j ≠ i → kids[j]? = some k → Sub s h k)
    (hall : (List.range (n.numKeys + 1)).all (fun j => j < internalNodeMaxKeys / 2 || j == i ||
      ((n.internalNodeChild j).map (s.lastLeafFilled d)).getD false) = true) {j : Nat} (hj : internalNodeMaxKeys / 2 ≤ j)
    (hji : j ≠ i) (hget : kids[j]? = some k) : k.Ends := by
  obtain ⟨hlt, -⟩ := List.getElem?_eq_some_iff.mp hget
  rw [hl.count] at hlt
  have hat := List.all_eq_true.mp hall j (List.mem_range.mpr hlt)
  rw [hl.child hget] at hat
  simp only [Bool.or_eq_true, decide_eq_true_eq, beq_iff_eq, Option.map_some, Option.getD_some] at hat
  rcases hat with (hat | hat) | hat
  · omega
  · exact absurd hat hji
  · exact (hk j k hji hget).ends_of_filled hat

omit [Cell C] in
theorem mem_of_getElem?_ne {l r : List (Part C)} {j : Nat} (hj : j ≠ l.length) (hget : (l ++ t :: r)[j]? = some k) :
    k ∈ l ++ r := by
  rcases Nat.lt_or_gt_of_ne hj with hlt | hgt
  · rw [List.getElem?_append_left hlt] at hget
    exact List.mem_append_left _ (List.mem_of_getElem? hget)
  · rw [List.getElem?_append_right (le_of_lt hgt)] at hget
    obtain ⟨e, he⟩ := Nat.exists_eq_succ_of_ne_zero (Nat.sub_ne_zero_of_lt hgt)
    rw [he, List.getElem?_cons_succ] at hget
    exact List.mem_append_right _ (List.mem_of_getElem? hget)

/-- What the condition says about one frame. -/
theorem filled_step (ha : Above s h t (f :: fs)) (hf : Found s key (f :: fs))
    (hr : s.readsFilled d key (m + 1) f.page = true) :
    if f.left.length + f.right.length < internalNodeMaxKeys then ∀ k, f.right.getLast? = some k → k.Ends
    else (∀ k ∈ f.left.drop (internalNodeMaxKeys / 2), k.Ends) ∧
      (∀ k ∈ f.right.drop (internalNodeMaxKeys / 2 - (f.left.length + 1)), k.Ends) ∧
      ((s.node f.page).isRoot = true ∨ s.readsFilled d key m (s.node f.page).parent = true) := by
  obtain ⟨hl, -, hk, -, -, -⟩ := ha
  have hfind := hf f (List.mem_cons_self ..)
  have hcount := hl.count
  rw [List.length_append, List.length_cons] at hcount
  have hnum : (s.node f.page).numKeys = f.left.length + f.right.length := by omega
  rw [readsFilled, hfind] at hr
  rw [← hnum]
  by_cases hroom : (s.node f.page).numKeys < internalNodeMaxKeys
  · rw [if_pos hroom] at hr ⊢
    intro k hkl
    have hne : f.right ≠ [] := fun hn => by
      rw [hn] at hkl
      exact absurd hkl (by simp)
    have hpos := List.length_pos_iff.mpr hne
    obtain ⟨x, hx, hrc, -⟩ := hl.getLast
    rw [List.getLast?_append_of_ne_nil _ (List.cons_ne_nil _ _)] at hx
    have hxk : x = k := by
      have : (t :: f.right).getLast? = f.right.getLast? := List.getLast?_append_of_ne_nil [t] hne
      rw [this, hkl] at hx
      exact (Option.some.inj hx).symm
    rw [Bool.or_eq_true, hrc, hxk] at hr
    rcases hr with hr | hr
    · have := beq_iff_eq.mp hr
      omega
    · exact (hk k (List.mem_append_right _ (List.mem_of_getLast? hkl))).1.ends_of_filled hr
  · rw [if_neg hroom] at hr ⊢
    rw [Bool.and_eq_true, Bool.or_eq_true] at hr
    obtain ⟨hall, hup⟩ := hr
    have hends : ∀ {j : Nat} {k : Part C}, internalNodeMaxKeys / 2 ≤ j → j ≠ f.left.length →
        (f.left ++ t :: f.right)[j]? = some k → k.Ends := fun hj hji hget =>
      ends_of_all hl (fun j k hji hget => (hk k (mem_of_getElem?_ne hji hget)).1) hall hj hji hget
    refine ⟨fun k hm => ?_, fun k hm => ?_, hup⟩
    · obtain ⟨e, he⟩ := List.mem_iff_getElem?.mp hm
      rw [List.getElem?_drop] at he
      obtain ⟨hlt, -⟩ := List.getElem?_eq_some_iff.mp he
      refine hends (Nat.le_add_right ..) (Nat.ne_of_lt hlt) ?_
      rw [List.getElem?_append_left hlt]
      exact he
    · obtain ⟨e, he⟩ := List.mem_iff_getElem?.mp hm
      rw [List.getElem?_drop] at he
      refine hends (j := f.left.length + 1 + (internalNodeMaxKeys / 2 - (f.left.length + 1) + e)) (by omega) (by omega) ?_
      rw [← append_singleton_append, List.getElem?_append_right (by simp only [List.length_append, List.length_singleton]; omega)]
      simp only [List.length_append, List.length_singleton, Nat.add_sub_cancel_left]
      exact he

/-- What the search for the path says about the frames. -/
theorem filled_of_reads (ha : Above s h t (f :: fs)) (hf : Found s key (f :: fs))
    (hr : s.readsFilled d key m f.page = true) : Filled (f :: fs) := by
  induction fs generalizing h t f m with
  | nil =>
    cases m with
    | zero => exact absurd hr Bool.false_ne_true
    | succ m =>
      have hstep := filled_step ha hf hr
      rw [Filled]
      split_ifs at hstep ⊢
      · exact hstep
      · exact ⟨hstep.1, hstep.2.1, trivial⟩
  | cons g fs ih =>
    cases m with
    | zero => exact absurd hr Bool.false_ne_true
    | succ m =>
      have hstep := filled_step ha hf hr
      obtain ⟨-, -, -, -, -, hag⟩ := ha
      rw [Filled]
      split_ifs at hstep ⊢
      · exact hstep
      · refine ⟨hstep.1, hstep.2.1, ih (m := m) hag (fun e he => hf e (List.mem_cons_of_mem _ he)) ?_⟩
        have hparent : (s.node f.page).parent = g.page := hag.2.2.2.1
        have hflag : (s.node f.page).isRoot = false := hag.2.2.2.2.1
        rcases hstep.2.2 with hroot | hup
        · rw [hflag] at hroot
          exact absurd hroot Bool.false_ne_true
        · rw [hparent] at hup
          exact hup

end Tree

end CustomDB
