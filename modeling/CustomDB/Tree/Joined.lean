import CustomDB.Tree.Rebalance

/-!
# Two leaves become one

`leaf_merge` and `internal_remove_child` up to what follows in the parent: the cells of the right leaf go behind those
of the left one, and the parent loses the right leaf together with the separator in front of it.
-/

namespace CustomDB

open Lib Lib.Fences

namespace Tree

variable {C : Type} [Cell C] {s e u : Store C} {h p q i j left right : Nat} {t k l r l' : Part C}
  {cells lcells rcells : List C} {n : Node C} {f : Frame C} {fs : List (Frame C)} {seps xs ys : List Int} {x : Int}
  {a b : List (Part C)} {uf : Store C → Nat → Option (Store C)}

open Store

/-! ## A node without one of its children -/

omit [Cell C] in
/-- The children behind the one that goes. -/
theorem removeAt_child_behind (hpos : 0 < i) (hi : i ≤ j) (hj : j < n.numKeys) :
    (removeAt n i).internalNodeChild j = n.internalNodeChild (j + 1) := by
  have hnum := removeAt_numKeys n i
  unfold removeAt at hnum ⊢
  rw [if_neg (show ¬ i = n.numKeys by omega), if_pos hpos] at hnum ⊢
  unfold Node.internalNodeChild
  rw [hnum, if_neg (by omega), if_neg (show ¬ n.numKeys < j + 1 by omega)]
  by_cases hlast : j = n.numKeys - 1
  · rw [if_pos hlast, if_pos (by omega)]
    rfl
  · rw [if_neg hlast, if_neg (by omega)]
    unfold Node.dropSlot
    dsimp only
    rw [if_pos ⟨hi, by omega⟩, (sameKids_setKey n _ _).slots]

omit [Cell C] in
/-- The keys: the one in front of the child that goes is lost, the others move up. -/
theorem removeAt_key (hpos : 0 < i) (hj : j < n.numKeys - 1) :
    ((removeAt n i).slots j).2 = if j < i - 1 then (n.slots j).2 else (n.slots (j + 1)).2 := by
  unfold removeAt
  by_cases hlast : i = n.numKeys
  · rw [if_pos hlast, if_pos (by omega)]
  · rw [if_neg hlast, if_pos hpos]
    unfold Node.dropSlot Node.setKey
    dsimp only
    by_cases hij : i ≤ j
    · rw [if_pos ⟨hij, hj⟩, if_neg (show ¬ j < i - 1 by omega), Function.update_of_ne (by omega)]
    · rw [if_neg (fun hn => hij hn.1)]
      by_cases hbefore : j < i - 1
      · rw [if_pos hbefore, Function.update_of_ne (by omega)]
      · have hji : j = i - 1 := by omega
        rw [if_neg hbefore, hji, Function.update_self, Nat.sub_add_cancel hpos]

/-- The node with one child in the place of two neighbours, without the separator between them. -/
theorem Forks.remove (hf : Forks n (a ++ l :: r :: b) (xs ++ x :: ys)) (hlen : xs.length = a.length)
    (hpage : l'.page = l.page) (hfences : Fenced Cell.key ((a ++ l' :: b).map Part.rows) (xs ++ ys)) :
    Forks (removeAt n (a.length + 1)) (a ++ l' :: b) (xs ++ ys) := by
  have hcount := hf.count
  have hnum := hf.numKeys
  simp only [List.length_append, List.length_cons] at hcount hnum
  refine ⟨?_, ?_, fun j k hget => ?_, fun j y hget => ?_, hfences⟩
  · rw [(removeAt_body ..).1.nodeType]
    exact hf.nodeType
  · rw [removeAt_numKeys, hnum, List.length_append]
    omega
  · rcases Nat.lt_trichotomy j a.length with hj | rfl | hj
    · rw [List.getElem?_append_left hj] at hget
      rw [removeAt_child (by omega) (by omega)]
      exact hf.child j k (by rw [List.getElem?_append_left hj]; exact hget)
    · rw [List.getElem?_append_right (le_refl _), Nat.sub_self] at hget
      obtain rfl := Option.some.inj hget
      rw [removeAt_child (by omega) (by omega), hpage]
      exact hf.child _ l (by rw [List.getElem?_append_right (le_refl _), Nat.sub_self]; rfl)
    · obtain ⟨m, hm⟩ := Nat.exists_eq_add_of_lt hj
      have hsub : j - a.length = m + 1 := by omega
      rw [List.getElem?_append_right (Nat.le_of_lt hj), hsub, List.getElem?_cons_succ] at hget
      have hmb := (List.getElem?_eq_some_iff.mp hget).1
      rw [removeAt_child_behind (by omega) (by omega) (by omega)]
      refine hf.child (j + 1) k ?_
      rw [List.getElem?_append_right (by omega), show j + 1 - a.length = m + 1 + 1 by omega, List.getElem?_cons_succ,
        List.getElem?_cons_succ]
      exact hget
  · have hj := (List.getElem?_eq_some_iff.mp hget).1
    rw [List.length_append] at hj
    rw [removeAt_key (by omega) (by omega), Nat.add_sub_cancel]
    by_cases hlt : j < a.length
    · rw [if_pos hlt]
      rw [List.getElem?_append_left (by omega)] at hget
      exact hf.sep j y (by rw [List.getElem?_append_left (by omega)]; exact hget)
    · rw [if_neg hlt]
      rw [List.getElem?_append_right (by omega)] at hget
      refine hf.sep (j + 1) y ?_
      rw [List.getElem?_append_right (by omega), show j + 1 - xs.length = j - xs.length + 1 by omega,
        List.getElem?_cons_succ]
      exact hget

/-! ## The leaf with the cells of both -/

/-- The first part of `leaf_merge`. -/
def mergeLeaves (s : Store C) (left right : Nat) : Store C :=
  let s := s.modify left fun n => (s.node right).cells.foldl (fun n cell => n.takeCell n.cells.length cell) n
  let s := s.modify left fun n => { n with nextLeaf := (s.node right).nextLeaf }
  s.modify right fun n => { n with cells := [] }

theorem leafMerge_split (s : Store C) (fuel left right parent i : Nat) : s.leafMerge fuel left right parent i =
    (mergeLeaves s left right).internalRemoveChild (handleInternalUnderflow fuel) parent i := rfl

/-- The left leaf has got other cells and another next leaf. -/
theorem mergeLeaves_node (s : Store C) (hne : left ≠ right) :
    SamePlace (s.node left) ((mergeLeaves s left right).node left) ∧
    ((mergeLeaves s left right).node left).cells = (s.node left).cells ++ (s.node right).cells ∧
    ((mergeLeaves s left right).node left).nextLeaf = (s.node right).nextLeaf ∧
    ∀ q, q ≠ left → q ≠ right → (mergeLeaves s left right).node q = s.node q := by
  obtain ⟨hplace, hcells⟩ := foldl_takeCell (s.node right).cells (s.node left)
  unfold mergeLeaves
  dsimp only
  refine ⟨?_, ?_, ?_, fun q hl hr => ?_⟩
  · rw [node_modify_of_ne hne, node_modify_self, node_modify_self]
    exact ⟨⟨hplace.nodeType, hplace.numKeys, hplace.rightChild, hplace.slots⟩, hplace.isRoot, hplace.parent⟩
  · rw [node_modify_of_ne hne, node_modify_self, node_modify_self]
    exact hcells
  · rw [node_modify_of_ne hne, node_modify_self, node_modify_of_ne hne.symm]
  · rw [node_modify_of_ne hr, node_modify_of_ne hl, node_modify_of_ne hl]

/-- The store with the right leaf taken out of its parent. -/
def joinLeaves (s : Store C) (left right p i : Nat) : Store C :=
  (mergeLeaves s left right).modify p fun n => removeAt n i

/-- The parent has a key between the two. -/
theorem Pair.keys (hp : Pair e h p a l r b fs) : a.length + 1 ≤ (e.node p).numKeys := by
  obtain ⟨seps, hf⟩ := hp.forks
  have hcount := hf.count
  rw [hf.numKeys]
  simp only [List.length_append, List.length_cons] at hcount
  omega

theorem joinLeaves_parent (hne : left ≠ right) (hl : p ≠ left) (hr : p ≠ right) (i : Nat) :
    (joinLeaves e left right p i).node p = removeAt (e.node p) i := by
  unfold joinLeaves
  rw [node_modify_self, (mergeLeaves_node e hne).2.2.2 p hl hr]

theorem Pair.joined (hp : Pair e 0 p a (Part.leaf left lcells) (Part.leaf right rcells) b fs) :
    Rewritten e (joinLeaves e left right p (a.length + 1)) 1
      (Part.join p (a ++ Part.leaf left lcells :: Part.leaf right rcells :: b))
      (Part.join p (a ++ Part.leaf left (lcells ++ rcells) :: b)) fs := by
  have hlr : left ≠ right := hp.page_ne
  have hlp : left ≠ p := hp.left_ne
  have hrp : right ≠ p := hp.right_ne
  have hlc : (e.node left).cells = lcells := ((hp.wards _ hp.left_mem).1.leaf_cells _ List.mem_cons_self).2
  have hrc : (e.node right).cells = rcells := ((hp.wards _ hp.right_mem).1.leaf_cells _ List.mem_cons_self).2
  obtain ⟨hplace, hcells, -, hrest⟩ := mergeLeaves_node e hlr
  rw [hlc, hrc] at hcells
  have hself := joinLeaves_parent (e := e) hlr hlp.symm hrp.symm (a.length + 1)
  have hoff : ∀ q, q ≠ p → (joinLeaves e left right p (a.length + 1)).node q = (mergeLeaves e left right).node q :=
    fun q hq => node_modify_of_ne hq
  have hbody := removeAt_body (e.node p) (a.length + 1)
  obtain ⟨seps, hf⟩ := hp.forks
  obtain ⟨xs, x, ys, rfl, hlen⟩ := hf.split (List.cons_ne_nil _ _)
  have hfences := hf.fences
  rw [List.map_append, List.map_cons, List.map_cons, rows_leaf, rows_leaf] at hfences
  have hmerged := hfences.merge (by rw [List.length_map, hlen])
  have hsub : ∀ k ∈ a ++ b, k ∈ a ++ Part.leaf left lcells :: Part.leaf right rcells :: b := fun k hk => pair_mem hk _ _
  have hpages : (Part.join p (a ++ Part.leaf left (lcells ++ rcells) :: b)).pages.Sublist
      (Part.join p (a ++ Part.leaf left lcells :: Part.leaf right rcells :: b)).pages := by
    simp only [Part.join, Part.leaf, List.flatMap_append, List.flatMap_cons, List.singleton_append]
    exact ((List.Sublist.cons_cons left (List.sublist_cons_self right _)).append_left _).cons_cons p
  have hwl := hp.wards _ hp.left_mem
  refine ⟨⟨_, xs ++ ys, ?_, rfl, fun k hk => ?_⟩, rfl, hpages.subset, (List.nodup_append.mp hp.apart).1.sublist hpages, ?_,
    fun q hq => ?_, rfl, ?_, ?_⟩
  · rw [page_join, hself]
    refine hf.remove hlen rfl ?_
    rw [List.map_append, List.map_cons, rows_leaf]
    exact hmerged
  · rcases mem_append_cons hk with hab | rfl
    · refine (hp.wards k (hsub k hab)).congr (hp.kid_nodup (hsub k hab)) fun q hq => ?_
      rw [hoff q (hp.own (hsub k hab) hq)]
      refine hrest q ?_ ?_
      · exact fun he => (hp.other hab hq).1 (he ▸ List.mem_singleton_self _)
      · exact fun he => (hp.other hab hq).2 (he ▸ List.mem_singleton_self _)
    · refine ⟨⟨?_, ?_⟩, ?_, ?_⟩
      · rw [leaf_page, hoff left hlp, hplace.nodeType]
        exact hwl.1.1
      · rw [leaf_page, hoff left hlp, hcells]
      · rw [leaf_page, hoff left hlp, hplace.parent]
        exact hwl.2.1
      · rw [leaf_page, hoff left hlp, hplace.isRoot]
        exact hwl.2.2
  · have heq : (Part.join p (a ++ Part.leaf left (lcells ++ rcells) :: b)).rows =
        (Part.join p (a ++ Part.leaf left lcells :: Part.leaf right rcells :: b)).rows := by
      rw [rows_join, rows_join]
      simp only [List.flatMap_append, List.flatMap_cons, rows_leaf, List.append_assoc]
    rw [heq]
  · have hpq : q ≠ p := (hp.apart.ne List.mem_cons_self hq).symm
    rw [hoff q hpq]
    refine hrest q ?_ ?_
    · exact (hp.apart.ne (List.mem_cons_of_mem _ (List.mem_flatMap.mpr ⟨_, hp.left_mem, List.mem_singleton_self left⟩)) hq).symm
    · exact (hp.apart.ne (List.mem_cons_of_mem _ (List.mem_flatMap.mpr ⟨_, hp.right_mem, List.mem_singleton_self right⟩)) hq).symm
  · rw [page_join, hself]
    exact hbody.2
  · rw [page_join, hself]
    exact hbody.1.isRoot

theorem joinLeaves_nextLeaf (s : Store C) (hne : left ≠ right) (p i : Nat) :
    ((joinLeaves s left right p i).node left).nextLeaf = (s.node right).nextLeaf ∧
    ∀ q, q ≠ left → q ≠ right → ((joinLeaves s left right p i).node q).nextLeaf = (s.node q).nextLeaf := by
  obtain ⟨-, -, hnext, hrest⟩ := mergeLeaves_node s hne
  have hsame : ∀ q, ((joinLeaves s left right p i).node q).nextLeaf = ((mergeLeaves s left right).node q).nextLeaf := by
    intro q
    unfold joinLeaves
    by_cases hq : q = p
    · subst hq
      rw [node_modify_self]
      unfold removeAt
      split
      · rfl
      · split <;> rfl
    · rw [node_modify_of_ne hq]
  exact ⟨(hsame left).trans hnext, fun q hl hr => by rw [hsame, hrest q hl hr]⟩

/-- The tree with the two leaves as one. -/
theorem SearchTree.joined (hp : Pair e 0 p a (Part.leaf left lcells) (Part.leaf right rcells) b fs)
    (hw : SearchTree e h (plug (Part.join p (a ++ Part.leaf left lcells :: Part.leaf right rcells :: b)) fs)) :
    SearchTree (joinLeaves e left right p (a.length + 1)) (1 + fs.length)
        (plug (Part.join p (a ++ Part.leaf left (lcells ++ rcells) :: b)) fs) ∧
      (plug (Part.join p (a ++ Part.leaf left (lcells ++ rcells) :: b)) fs).rows =
        (plug (Part.join p (a ++ Part.leaf left lcells :: Part.leaf right rcells :: b)) fs).rows ∧
      (plug (Part.join p (a ++ Part.leaf left (lcells ++ rcells) :: b)) fs).pages ⊆
        (plug (Part.join p (a ++ Part.leaf left lcells :: Part.leaf right rcells :: b)) fs).pages := by
  have hleaves : ∀ m : List (Part C), (plug (Part.join p (a ++ m ++ b)) fs).leaves =
      before fs ++ a.flatMap Part.leaves ++ m.flatMap Part.leaves ++ b.flatMap Part.leaves ++ after fs := by
    intro m
    rw [plug_leaves]
    simp [Part.join]
  have hold := hleaves [Part.leaf left lcells, Part.leaf right rcells]
  have hnew := hleaves [Part.leaf left (lcells ++ rcells)]
  have hsplit : ∀ m : List (Part C), a ++ m ++ b = a ++ (m ++ b) := fun m => List.append_assoc ..
  rw [hsplit] at hold hnew
  simp only [List.cons_append, List.nil_append] at hold hnew
  refine ⟨hp.joined.searchTree hp.around hp.apart hw ?_, ?_, hp.joined.plug_subset⟩
  · obtain ⟨c, hc⟩ := hw.chained
    have hmap : ∀ m : List (Nat × List C), (before fs ++ a.flatMap Part.leaves ++ m ++ b.flatMap Part.leaves ++ after fs).map
        Prod.fst = (before fs ++ a.flatMap Part.leaves).map Prod.fst ++ (m.map Prod.fst ++
          (b.flatMap Part.leaves ++ after fs).map Prod.fst) := by
      intro m
      simp only [List.map_append, List.append_assoc]
    obtain ⟨hleft, hrest⟩ := joinLeaves_nextLeaf e hp.page_ne p (a.length + 1)
    refine ⟨c, ?_⟩
    rw [hold, hmap] at hc
    rw [hnew, hmap]
    have hother : ∀ q ∈ (before fs ++ a.flatMap Part.leaves).map Prod.fst ++ (b.flatMap Part.leaves ++ after fs).map Prod.fst,
        q ≠ left ∧ q ≠ right := by
      have hperm := (List.perm_middle.trans (List.perm_middle.cons left)).nodup_iff.mp hc.nodup
      obtain ⟨hl, hnd⟩ := List.nodup_cons.mp hperm
      obtain ⟨hr, -⟩ := List.nodup_cons.mp hnd
      exact fun q hq => ⟨fun he => hl (he ▸ List.mem_cons_of_mem _ hq), fun he => hr (he ▸ hq)⟩
    exact Linked.Chain.remove hc hleft fun q hq => hrest q (hother q hq).1 (hother q hq).2
  · rw [Part.rows, Part.rows, hold, hnew]
    simp [Part.leaf]

end Tree

end CustomDB
