import CustomDB.Tree.Erased

/-!
# Leaves that share their cells

What an underflow does to two neighbouring leaves and their parent: one of them gets a cell of the other's, with the
separator between them set to the key that is the largest to its left then, or the right one goes into the left one.
The rows stay, and the separators of the parent are fences still.
-/

namespace CustomDB

open Lib Lib.Fences

namespace Tree

variable {C : Type} [Cell C] {s e e' u : Store C} {h p q i left right parent : Nat} {t t' k l r : Part C}
  {cells lcells rcells : List C} {n : Node C} {f : Frame C} {fs : List (Frame C)} {x : C}
  {l₁ l₂ : List (Nat × List C)} {seps : List Int} {k₁ k₂ a b : List (Part C)}

open Store

/-! ## The neighbours of a leaf -/

/-- `find_child_index` finds the child a frame is around. -/
theorem Around.childIndex (ha : Around s h t (f :: fs)) (hs : Guided s h t) (hnd : Apart t (f :: fs)) :
    s.childIndex t.page = some f.left.length := by
  obtain ⟨⟨seps, hf⟩, hk, hpar, -, -⟩ := ha
  have hcount := hf.count
  rw [List.length_append, List.length_cons, ← hf.numKeys] at hcount
  unfold Store.childIndex Node.findChildIndex
  rw [hpar, List.find?_range_eq_some]
  refine ⟨decide_eq_true (hf.child _ _ (hole f t)), List.mem_range.mpr (by omega), fun j hj => ?_⟩
  have hmem : f.left[j] ∈ f.left ++ f.right := List.mem_append_left _ (List.getElem_mem hj)
  have hget : (f.left ++ t :: f.right)[j]? = some f.left[j] := by
    rw [List.getElem?_append_left hj]
    exact List.getElem?_eq_getElem hj
  have hne := hnd.kid hs.page_mem hmem (hk _ hmem).1.page_mem
  rw [hf.child j _ hget]
  simpa using hne.symm

/-- The sibling an underflow is settled with: none, the one to the right of a first child, or the one to the left. -/
theorem Around.sibling (ha : Around s h t (f :: fs)) :
    (f.left = [] ∧ f.right = [] ∧ (s.node f.page).numKeys = 0) ∨
    (f.left = [] ∧ ∃ r b, f.right = r :: b ∧ 0 < (s.node f.page).numKeys ∧
      (s.node f.page).internalNodeChild 1 = some r.page) ∨
    ∃ a l, f.left = a ++ [l] ∧ (s.node f.page).internalNodeChild (f.left.length - 1) = some l.page := by
  obtain ⟨⟨seps, hf⟩, -⟩ := ha
  have hcount := hf.count
  rw [List.length_append, List.length_cons, ← hf.numKeys] at hcount
  rcases List.eq_nil_or_concat f.left with hnil | ⟨a, l, hl⟩
  · cases hr : f.right with
    | nil =>
      rw [hnil, hr] at hcount
      exact Or.inl ⟨hnil, rfl, by simpa using hcount.symm⟩
    | cons r b =>
      rw [hnil, hr, List.length_nil, List.length_cons] at hcount
      refine Or.inr (Or.inl ⟨hnil, r, b, rfl, by omega, hf.child 1 r ?_⟩)
      rw [hnil, hr]
      rfl
  · rw [List.concat_eq_append] at hl
    refine Or.inr (Or.inr ⟨a, l, hl, hf.child _ l ?_⟩)
    rw [hl, List.length_append, List.length_singleton, Nat.add_sub_cancel, List.append_assoc,
      List.getElem?_append_right (le_refl _), Nat.sub_self]
    rfl

/-! ## The nodes after a borrow -/

section Nodes

/-- A leaf with other cells. -/
structure Recelled (n n' : Node C) (cells : List C) : Prop where
  nodeType : n'.nodeType = n.nodeType
  isRoot : n'.isRoot = n.isRoot
  parent : n'.parent = n.parent
  nextLeaf : n'.nextLeaf = n.nextLeaf
  cells : n'.cells = cells

theorem takeCell_recelled (n : Node C) (i : Nat) (cell : C) : Recelled n (n.takeCell i cell) (n.cells.insertIdx i cell) := by
  have hsame := takeCell_same n i cell
  refine ⟨hsame.nodeType, hsame.isRoot, hsame.parent, ?_, takeCell_cells ..⟩
  unfold Node.takeCell
  split <;> rfl

/-- Two leaves have other cells, their parent other separators, and the rest is as it was. -/
structure Shared (e e' : Store C) (q left parent : Nat) (qcells lcells : List C) (n' : Node C) : Prop where
  own : Recelled (e.node q) (e'.node q) qcells
  sibling : Recelled (e.node left) (e'.node left) lcells
  up : e'.node parent = n'
  rest : ∀ p, p ≠ q → p ≠ left → p ≠ parent → e'.node p = e.node p
  root : e'.rootPageNum = e.rootPageNum

omit [Cell C] in
theorem Shared.nextLeaf {qcells lcells : List C} {n' : Node C} (h : Shared e e' q left parent qcells lcells n')
    (hn : n'.nextLeaf = (e.node parent).nextLeaf) (p : Nat) : (e'.node p).nextLeaf = (e.node p).nextLeaf := by
  by_cases hq : p = q
  · rw [hq, h.own.nextLeaf]
  by_cases hl : p = left
  · rw [hl, h.sibling.nextLeaf]
  by_cases hp : p = parent
  · rw [hp, h.up, hn]
  · rw [h.rest p hq hl hp]

theorem leafBorrowFromLeft_shared (hx : (e.node left).cells.getLast? = some x) (hql : q ≠ left) (hqp : q ≠ parent)
    (hlp : left ≠ parent) (i : Nat) : Shared e (e.leafBorrowFromLeft q left parent i) q left parent
      (x :: (e.node q).cells) (e.node left).cells.dropLast
      (if i < (e.node parent).numKeys then
        ((e.node parent).setKey (i - 1) (Node.lastKey (e.node left).cells.dropLast)).setKey i
          (Node.lastKey (x :: (e.node q).cells))
      else (e.node parent).setKey (i - 1) (Node.lastKey (e.node left).cells.dropLast)) := by
  have htake := takeCell_recelled (e.node q) 0 x
  rw [List.insertIdx_zero] at htake
  unfold leafBorrowFromLeft
  rw [hx]
  dsimp only
  obtain ⟨v, hv⟩ : ∃ v, v = (((e.modify q fun n => n.takeCell 0 x).modify left
      fun n => { n with cells := n.cells.dropLast }).modify parent fun n =>
        n.setKey (i - 1) (Node.lastKey (e.node left).cells.dropLast)) := ⟨_, rfl⟩
  have hleft : (((e.modify q fun n => n.takeCell 0 x).modify left
      fun n => { n with cells := n.cells.dropLast }).node left).cells = (e.node left).cells.dropLast := by
    rw [node_modify_self, node_modify_of_ne hql.symm]
  rw [hleft, ← hv]
  have hvq : v.node q = (e.node q).takeCell 0 x := by
    rw [hv, node_modify_of_ne hqp, node_modify_of_ne hql, node_modify_self]
  have hvl : v.node left = { e.node left with cells := (e.node left).cells.dropLast } := by
    rw [hv, node_modify_of_ne hlp, node_modify_self, node_modify_of_ne hql.symm]
  have hvp : v.node parent = (e.node parent).setKey (i - 1) (Node.lastKey (e.node left).cells.dropLast) := by
    rw [hv, node_modify_self, node_modify_of_ne hlp.symm, node_modify_of_ne hqp.symm]
  have hvr : ∀ p, p ≠ q → p ≠ left → p ≠ parent → v.node p = e.node p := fun p hq hl hp => by
    rw [hv, node_modify_of_ne hp, node_modify_of_ne hl, node_modify_of_ne hq]
  have hroot : v.rootPageNum = e.rootPageNum := by
    rw [hv]
    rfl
  split
  · refine ⟨?_, ?_, ?_, fun p hq hl hp => ?_, hroot⟩
    · rw [node_modify_of_ne hqp, hvq]
      exact htake
    · rw [node_modify_of_ne hlp, hvl]
      exact ⟨rfl, rfl, rfl, rfl, rfl⟩
    · rw [node_modify_self, hvp, hvq, htake.cells]
    · rw [node_modify_of_ne hp, hvr p hq hl hp]
  · refine ⟨?_, ?_, hvp, hvr, hroot⟩
    · rw [hvq]
      exact htake
    · rw [hvl]
      exact ⟨rfl, rfl, rfl, rfl, rfl⟩

theorem leafBorrowFromRight_shared (hx : (e.node right).cells.head? = some x) (hqr : q ≠ right) (hqp : q ≠ parent)
    (hrp : right ≠ parent) (i : Nat) : Shared e (e.leafBorrowFromRight q right parent i) q right parent
      ((e.node q).cells ++ [x]) (e.node right).cells.tail
      ((e.node parent).setKey i (Node.lastKey ((e.node q).cells ++ [x]))) := by
  have htake := takeCell_recelled (e.node q) (e.node q).cells.length x
  rw [List.insertIdx_length_self] at htake
  unfold leafBorrowFromRight
  rw [hx]
  dsimp only
  refine ⟨?_, ?_, ?_, fun p hq hr hp => ?_, rfl⟩
  · rw [node_modify_of_ne hqp, node_modify_of_ne hqr, node_modify_self]
    exact htake
  · rw [node_modify_of_ne hrp, node_modify_self, node_modify_of_ne hqr.symm]
    exact ⟨rfl, rfl, rfl, rfl, rfl⟩
  · rw [node_modify_self, node_modify_of_ne hrp.symm, node_modify_of_ne hqp.symm, node_modify_of_ne hqr,
      node_modify_self, htake.cells]
  · rw [node_modify_of_ne hp, node_modify_of_ne hr, node_modify_of_ne hq]

end Nodes

/-! ## Two neighbours under a node -/

/-- Page `p` is an inner node of the tree, with `l` and `r` next to each other among its children. -/
structure Pair (s : Store C) (h p : Nat) (a : List (Part C)) (l r : Part C) (b : List (Part C)) (fs : List (Frame C)) :
    Prop where
  forks : ∃ seps, Forks (s.node p) (a ++ l :: r :: b) seps
  wards : ∀ k ∈ a ++ l :: r :: b, Ward s h p k
  apart : Apart (Part.join p (a ++ l :: r :: b)) fs
  around : Around s (h + 1) (Part.join p (a ++ l :: r :: b)) fs

theorem Around.pair (ha : Around s h t (f :: fs)) (hs : Guided s h t) (hnd : Apart t (f :: fs)) {l r : Part C}
    (hkids : f.left ++ t :: f.right = a ++ l :: r :: b) : Pair s h f.page a l r b fs := by
  have hup := hnd.up
  obtain ⟨hf, hk, hpar, hroot, ha⟩ := ha
  have hfill : f.fill t = Part.join f.page (a ++ l :: r :: b) := by rw [Frame.fill, hkids]
  rw [hkids] at hf
  rw [hfill] at ha hup
  refine ⟨hf, fun k hm => ?_, hup, ha⟩
  rw [← hkids] at hm
  rcases mem_append_cons hm with hm | rfl
  · exact hk k hm
  · exact ⟨hs, hpar, hroot⟩

omit [Cell C] in
/-- The two and the other children. -/
theorem mem_pair (hk : k ∈ a ++ l :: r :: b) : k ∈ a ++ b ∨ k = l ∨ k = r := by
  simp only [List.mem_append, List.mem_cons] at hk ⊢
  tauto

omit [Cell C] in
theorem pair_mem (hk : k ∈ a ++ b) (l r : Part C) : k ∈ a ++ l :: r :: b := by
  simp only [List.mem_append, List.mem_cons] at hk ⊢
  tauto

namespace Pair

theorem left_mem (_ : Pair s h p a l r b fs) : l ∈ a ++ l :: r :: b := List.mem_append_right _ List.mem_cons_self

theorem right_mem (_ : Pair s h p a l r b fs) : r ∈ a ++ l :: r :: b :=
  List.mem_append_right _ (List.mem_cons_of_mem _ List.mem_cons_self)

theorem kids_nodup (hp : Pair s h p a l r b fs) : ((a ++ l :: r :: b).flatMap Part.pages).Nodup :=
  (List.nodup_cons.mp (List.nodup_append.mp hp.apart).1).2

theorem own (hp : Pair s h p a l r b fs) (hk : k ∈ a ++ l :: r :: b) (hq : q ∈ k.pages) : q ≠ p := by
  rintro rfl
  exact (List.nodup_cons.mp (List.nodup_append.mp hp.apart).1).1 (List.mem_flatMap.mpr ⟨k, hk, hq⟩)

theorem kid_nodup (hp : Pair s h p a l r b fs) (hk : k ∈ a ++ l :: r :: b) : k.pages.Nodup :=
  (List.nodup_flatMap.mp hp.kids_nodup).1 k hk

/-- The pages of the two are not those of the other children. -/
theorem other (hp : Pair s h p a l r b fs) (hk : k ∈ a ++ b) (hq : q ∈ k.pages) : q ∉ l.pages ∧ q ∉ r.pages := by
  have hnd := hp.kids_nodup
  have hperm : (a ++ l :: r :: b).Perm (l :: r :: (a ++ b)) := by
    refine List.perm_middle.trans (List.Perm.cons _ ?_)
    exact List.perm_middle
  have hnd' := (hperm.flatMap_right Part.pages).nodup_iff.mp hnd
  rw [List.flatMap_cons, List.flatMap_cons] at hnd'
  obtain ⟨-, hrest, hl⟩ := List.nodup_append.mp hnd'
  obtain ⟨-, -, hr⟩ := List.nodup_append.mp hrest
  have hmem : q ∈ (a ++ b).flatMap Part.pages := List.mem_flatMap.mpr ⟨k, hk, hq⟩
  exact ⟨fun hm => hl q hm q (List.mem_append_right _ hmem) rfl, fun hm => hr q hm q hmem rfl⟩

/-- The two share no page. -/
theorem disjoint (hp : Pair s h p a l r b fs) (hq : q ∈ l.pages) : q ∉ r.pages := by
  have hnd := hp.kids_nodup
  rw [List.flatMap_append, List.flatMap_cons, List.flatMap_cons] at hnd
  have hlr := (List.nodup_append.mp hnd).2.1
  intro hm
  exact (List.nodup_append.mp hlr).2.2 q hq q (List.mem_append_left _ hm) rfl

theorem page_ne (hp : Pair s h p a l r b fs) : l.page ≠ r.page := fun he =>
  hp.disjoint (hp.wards l hp.left_mem).1.page_mem (he ▸ (hp.wards r hp.right_mem).1.page_mem)

theorem left_ne (hp : Pair s h p a l r b fs) : l.page ≠ p := hp.own hp.left_mem (hp.wards l hp.left_mem).1.page_mem

theorem right_ne (hp : Pair s h p a l r b fs) : r.page ≠ p := hp.own hp.right_mem (hp.wards r hp.right_mem).1.page_mem

end Pair

omit [Cell C] in
theorem rows_pair {lcells' rcells' : List C} (hrows : lcells' ++ rcells' = lcells ++ rcells) :
    (Part.join p (a ++ Part.leaf left lcells' :: Part.leaf right rcells' :: b)).rows =
      (Part.join p (a ++ Part.leaf left lcells :: Part.leaf right rcells :: b)).rows := by
  rw [rows_join, rows_join]
  simp only [List.flatMap_append, List.flatMap_cons, rows_leaf]
  rw [← List.append_assoc lcells', hrows, List.append_assoc lcells]

omit [Cell C] in
theorem leaves_pair (p left right : Nat) (a b : List (Part C)) (lcells rcells lcells' rcells' : List C) :
    (Part.join p (a ++ Part.leaf left lcells' :: Part.leaf right rcells' :: b)).leaves.map Prod.fst =
      (Part.join p (a ++ Part.leaf left lcells :: Part.leaf right rcells :: b)).leaves.map Prod.fst := by
  simp [Part.join, Part.leaf]

/-- Two leaves next to each other divide their cells in another way. -/
theorem Pair.reshared {lcells' rcells' : List C} (hp : Pair e 0 p a (Part.leaf left lcells) (Part.leaf right rcells) b fs)
    (hl : Recelled (e.node left) (e'.node left) lcells') (hr : Recelled (e.node right) (e'.node right) rcells')
    (hrest : ∀ q, q ≠ left → q ≠ right → q ≠ p → e'.node q = e.node q) (hroot : e'.rootPageNum = e.rootPageNum)
    (hf : ∃ seps, Forks (e'.node p) (a ++ Part.leaf left lcells' :: Part.leaf right rcells' :: b) seps)
    (hpar : (e'.node p).parent = (e.node p).parent) (hflag : (e'.node p).isRoot = (e.node p).isRoot)
    (hrows : lcells' ++ rcells' = lcells ++ rcells) :
    Rewritten e e' 1 (Part.join p (a ++ Part.leaf left lcells :: Part.leaf right rcells :: b))
      (Part.join p (a ++ Part.leaf left lcells' :: Part.leaf right rcells' :: b)) fs := by
  obtain ⟨seps, hf⟩ := hf
  have hpages : (Part.join p (a ++ Part.leaf left lcells' :: Part.leaf right rcells' :: b)).pages =
      (Part.join p (a ++ Part.leaf left lcells :: Part.leaf right rcells :: b)).pages := by
    simp [Part.join, Part.leaf]
  have hwl := hp.wards _ hp.left_mem
  have hwr := hp.wards _ hp.right_mem
  refine ⟨⟨_, seps, hf, rfl, fun k hk => ?_⟩, rfl, ?_, ?_, ?_, fun q hq => ?_, hroot, hpar, hflag⟩
  · rcases mem_pair hk with hab | rfl | rfl
    · have hkm := pair_mem hab (Part.leaf left lcells) (Part.leaf right rcells)
      refine (hp.wards k hkm).congr (hp.kid_nodup hkm) fun q hq => hrest q ?_ ?_ (hp.own hkm hq)
      · exact fun he => (hp.other hab hq).1 (he ▸ List.mem_singleton_self _)
      · exact fun he => (hp.other hab hq).2 (he ▸ List.mem_singleton_self _)
    · exact ⟨⟨hl.nodeType.trans hwl.1.1, by rw [leaf_page, hl.cells]⟩, hl.parent.trans hwl.2.1, hl.isRoot.trans hwl.2.2⟩
    · exact ⟨⟨hr.nodeType.trans hwr.1.1, by rw [leaf_page, hr.cells]⟩, hr.parent.trans hwr.2.1, hr.isRoot.trans hwr.2.2⟩
  · rw [hpages]
    exact fun q hq => hq
  · rw [hpages]
    exact (List.nodup_append.mp hp.apart).1
  · rw [rows_pair hrows]
  · refine hrest q ?_ ?_ ?_
    · exact (hp.apart.ne (List.mem_cons_of_mem _ (List.mem_flatMap.mpr ⟨_, hp.left_mem, List.mem_singleton_self left⟩)) hq).symm
    · exact (hp.apart.ne (List.mem_cons_of_mem _ (List.mem_flatMap.mpr ⟨_, hp.right_mem, List.mem_singleton_self right⟩)) hq).symm
    · exact (hp.apart.ne List.mem_cons_self hq).symm

/-! ## Borrowing -/

omit [Cell C] in
theorem pages_pair (l r l' r' : Part C) (hl : l'.page = l.page) (hr : r'.page = r.page) :
    (a ++ l' :: r' :: b).map Part.page = (a ++ l :: r :: b).map Part.page := by
  simp only [List.map_append, List.map_cons, hl, hr]

theorem Sorted.le_max {rows : List C} (h : Sorted rows) (hne : rows ≠ []) :
    ∃ e ∈ rows, Node.lastKey rows = Cell.key e ∧ ∀ c ∈ rows, Cell.key c ≤ Cell.key e := by
  obtain ⟨e, he, hkey⟩ := lastKey_mem hne
  exact ⟨e, he, hkey, fun c hc => hkey ▸ Sorted.le_lastKey h hc⟩

/-- The node over the two leaves with the cells divided in another way, and the separator between them at the largest
key of the left one. -/
theorem Forks.regroup {lcells' rcells' : List C}
    (hf : Forks n (a ++ Part.leaf left lcells :: Part.leaf right rcells :: b) seps)
    (hrows : lcells' ++ rcells' = lcells ++ rcells) (hs : Sorted (lcells ++ rcells)) (hne : lcells' ≠ []) :
    ∃ xs ys, xs.length = a.length ∧ Forks (n.setKey a.length (Node.lastKey lcells'))
      (a ++ Part.leaf left lcells' :: Part.leaf right rcells' :: b) (xs ++ Node.lastKey lcells' :: ys) := by
  obtain ⟨xs, x, ys, rfl, hlen⟩ := hf.split (List.cons_ne_nil _ _)
  rw [← hrows] at hs
  obtain ⟨hl, -, hlt⟩ := List.pairwise_append.mp hs
  obtain ⟨e, he, hkey, hmax⟩ := Sorted.le_max hl hne
  have hfences := hf.fences
  rw [List.map_append, List.map_cons, List.map_cons, rows_leaf, rows_leaf] at hfences
  have hnew := hfences.regroup (by rw [List.length_map, hlen]) hrows he hmax fun c hc => hlt e he c hc
  rw [← hkey] at hnew
  refine ⟨xs, ys, hlen, ?_⟩
  rw [← set_middle xs ys x, hlen]
  refine hf.setKey (pages_pair _ _ _ _ rfl rfl) ?_
  rw [← hlen, set_middle, List.map_append, List.map_cons, List.map_cons, rows_leaf, rows_leaf]
  exact hnew

/-- A separator behind a leaf comes down to the largest key of that leaf. -/
theorem Forks.tighten {xs ys : List Int} {y : Int} (hf : Forks n (a ++ Part.leaf left lcells :: b) (xs ++ y :: ys))
    (hlen : xs.length = a.length) (hs : Sorted lcells) (hne : lcells ≠ []) :
    Forks (n.setKey a.length (Node.lastKey lcells)) (a ++ Part.leaf left lcells :: b)
      (xs ++ Node.lastKey lcells :: ys) := by
  obtain ⟨e, he, hkey, hmax⟩ := Sorted.le_max hs hne
  have hfences := hf.fences
  rw [List.map_append, List.map_cons, rows_leaf] at hfences
  have hnew := hfences.lower (by rw [List.length_map, hlen]) (fun c hc => hc) he hmax
  rw [← hkey] at hnew
  rw [← set_middle xs ys y, hlen]
  refine hf.setKey rfl ?_
  rw [← hlen, set_middle, List.map_append, List.map_cons, rows_leaf]
  exact hnew

/-- The tree around a rewritten subtree with the same rows, in the same chain. -/
theorem Rewritten.keeps (hr : Rewritten e e' i t t' fs) (ha : Around e i t fs) (hnd : Apart t fs)
    (hw : SearchTree e h (plug t fs)) (hrows : t'.rows = t.rows)
    (hleaves : t'.leaves.map Prod.fst = t.leaves.map Prod.fst)
    (hnext : ∀ q, (e'.node q).nextLeaf = (e.node q).nextLeaf) :
    SearchTree e' (i + fs.length) (plug t' fs) ∧ (plug t' fs).rows = (plug t fs).rows ∧
      (plug t' fs).pages ⊆ (plug t fs).pages := by
  refine ⟨hr.searchTree ha hnd hw ?_, by rw [plug_rows, plug_rows, hrows], hr.plug_subset⟩
  obtain ⟨a, hc⟩ := hw.chained
  refine ⟨a, ?_⟩
  rw [plug_leaves, List.map_append, List.map_append] at hc ⊢
  rw [hleaves]
  exact hc.congr fun q _ => hnext q

/-- The left leaf lends its last cell. -/
theorem Pair.borrowLeft (hp : Pair e 0 p a (Part.leaf left lcells) (Part.leaf q cells) b fs)
    (hw : SearchTree e h (plug (Part.join p (a ++ Part.leaf left lcells :: Part.leaf q cells :: b)) fs))
    (hs : Sorted (lcells ++ cells)) (hlend : 1 < lcells.length) :
    ∃ t', SearchTree (e.leafBorrowFromLeft q left p (a.length + 1)) (1 + fs.length) t' ∧
      t'.rows = (plug (Part.join p (a ++ Part.leaf left lcells :: Part.leaf q cells :: b)) fs).rows ∧
      t'.pages ⊆ (plug (Part.join p (a ++ Part.leaf left lcells :: Part.leaf q cells :: b)) fs).pages := by
  obtain ⟨lcells', x, rfl⟩ := List.eq_nil_or_concat lcells |>.resolve_left (List.ne_nil_of_length_pos (by omega))
  rw [List.concat_eq_append] at hp hw hs hlend ⊢
  rw [List.length_append, List.length_singleton] at hlend
  have hne : lcells' ≠ [] := List.ne_nil_of_length_pos (by omega)
  have hlc : (e.node left).cells = lcells' ++ [x] := ((hp.wards _ hp.left_mem).1.leaf_cells _ List.mem_cons_self).2
  have hqc : (e.node q).cells = cells := ((hp.wards _ hp.right_mem).1.leaf_cells _ List.mem_cons_self).2
  have hlast : (e.node left).cells.getLast? = some x := by rw [hlc, List.getLast?_concat]
  have hql : q ≠ left := hp.page_ne.symm
  have hsh := leafBorrowFromLeft_shared hlast hql hp.right_ne hp.left_ne (a.length + 1)
  rw [hlc, hqc, List.dropLast_concat, Nat.add_sub_cancel] at hsh
  have hrows : lcells' ++ x :: cells = lcells' ++ [x] ++ cells := by rw [List.append_assoc, List.singleton_append]
  obtain ⟨seps, hf⟩ := hp.forks
  obtain ⟨xs, ys, hlen, hf'⟩ := hf.regroup hrows hs hne
  have hr := hp.reshared hsh.sibling hsh.own (fun r hl hq => hsh.rest r hq hl) hsh.root ?_ ?_ ?_ hrows
  · refine ⟨_, hr.keeps hp.around hp.apart hw (rows_pair hrows) (leaves_pair ..) (hsh.nextLeaf ?_)⟩
    split <;> rfl
  · rw [hsh.up]
    split
    next hlt =>
      -- there is a separator behind the leaf
      have hnum := hf'.numKeys
      rw [(sameKids_setKey ..).numKeys, List.length_append, List.length_cons, hlen] at hnum
      cases ys with
      | nil =>
        rw [hnum] at hlt
        exact absurd hlt (Nat.lt_irrefl _)
      | cons y ys =>
        have hsplit : ∀ l r : Part C, a ++ l :: r :: b = (a ++ [l]) ++ r :: b := fun l r => by
          rw [List.append_assoc, List.singleton_append]
        have hfences : xs ++ Node.lastKey lcells' :: y :: ys = (xs ++ [Node.lastKey lcells']) ++ y :: ys := by
          rw [List.append_assoc, List.singleton_append]
        rw [hsplit, hfences] at hf'
        have hqs : Sorted (x :: cells) := hs.sublist (hrows ▸ List.sublist_append_right ..)
        have hlast := hf'.tighten (by rw [List.length_append, List.length_append, hlen]; rfl) hqs (List.cons_ne_nil _ _)
        rw [List.length_append, List.length_singleton] at hlast
        rw [hsplit]
        exact ⟨_, hlast⟩
    · exact ⟨_, hf'⟩
  · rw [hsh.up]
    split <;> rfl
  · rw [hsh.up]
    split <;> rfl

/-- The right leaf lends its first cell. -/
theorem Pair.borrowRight (hp : Pair e 0 p a (Part.leaf q cells) (Part.leaf right rcells) b fs)
    (hw : SearchTree e h (plug (Part.join p (a ++ Part.leaf q cells :: Part.leaf right rcells :: b)) fs))
    (hs : Sorted (cells ++ rcells)) (hlend : rcells ≠ []) :
    ∃ t', SearchTree (e.leafBorrowFromRight q right p a.length) (1 + fs.length) t' ∧
      t'.rows = (plug (Part.join p (a ++ Part.leaf q cells :: Part.leaf right rcells :: b)) fs).rows ∧
      t'.pages ⊆ (plug (Part.join p (a ++ Part.leaf q cells :: Part.leaf right rcells :: b)) fs).pages := by
  obtain ⟨x, rcells, rfl⟩ := List.exists_cons_of_ne_nil hlend
  have hqc : (e.node q).cells = cells := ((hp.wards _ hp.left_mem).1.leaf_cells _ List.mem_cons_self).2
  have hrc : (e.node right).cells = x :: rcells := ((hp.wards _ hp.right_mem).1.leaf_cells _ List.mem_cons_self).2
  have hhead : (e.node right).cells.head? = some x := by rw [hrc, List.head?_cons]
  have hqr : q ≠ right := hp.page_ne
  have hsh := leafBorrowFromRight_shared hhead hqr hp.left_ne hp.right_ne a.length
  rw [hrc, hqc, List.tail_cons] at hsh
  have hrows : cells ++ [x] ++ rcells = cells ++ x :: rcells := by rw [List.append_assoc, List.singleton_append]
  obtain ⟨seps, hf⟩ := hp.forks
  obtain ⟨xs, ys, -, hf'⟩ := hf.regroup hrows hs (List.append_ne_nil_of_right_ne_nil _ (List.cons_ne_nil _ _))
  have hr := hp.reshared hsh.own hsh.sibling hsh.rest hsh.root ?_ ?_ ?_ hrows
  · exact ⟨_, hr.keeps hp.around hp.apart hw (rows_pair hrows) (leaves_pair ..) (hsh.nextLeaf rfl)⟩
  · rw [hsh.up]
    exact ⟨_, hf'⟩
  · rw [hsh.up]
    rfl
  · rw [hsh.up]
    rfl

end Tree

end CustomDB
