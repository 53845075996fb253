import CustomDB.Tree.Joined
import CustomDB.Tree.Lookup

/-!
# Deletions keep the search tree

`btree_delete` of any cell of a search tree, with the borrowing, the merging and the collapse of the root that follow
on the page its cursor has come to, as long as no inner node is left with too few keys: the tree is a search tree
without the row, and so it is after any number of such deletions. Lookups find what the deletions have left.
-/

namespace CustomDB

open Lib Lib.Fences

namespace Tree

variable {C : Type} [Cell C] {s e s' u v : Store C} {h p q i d : Nat} {t k : Part C} {cells : List C} {n : Node C}
  {f : Frame C} {fs : List (Frame C)} {cur : Cursor} {l₁ l₂ : List (Nat × List C)}
  {uf : Store C → Nat → Option (Store C)} {a b : List (Part C)} {l r : Part C} {c : C}

namespace Store

/-- Inner page `p` may lose a child: it is the root, or keeps keys enough. -/
def Spares (s : Store C) (p : Nat) : Prop := (s.node p).isRoot = true ∨ internalNodeMinKeys < (s.node p).numKeys

instance (s : Store C) (p : Nat) : Decidable (s.Spares p) := inferInstanceAs (Decidable (_ ∨ _))

/-- On the page the cursor comes to there is no underflow, or its sibling lends a cell, or the two are merged without
an underflow of their parent. -/
def DeletesCalmly (s : Store C) (cur : Cursor) : Prop :=
  let q := s.movedTo cur
  (s.node q).isRoot = true ∨ leafNodeMinCells ≤ s.cellsLeft cur q ∨
    ∀ n ∈ s.neighbour q, leafNodeMinCells < s.cellsLeft cur n ∨ s.Spares (s.node q).parent

instance (s : Store C) (cur : Cursor) : Decidable (s.DeletesCalmly cur) :=
  inferInstanceAs (Decidable (_ ∨ _ ∨ ∀ n ∈ s.neighbour _, _))

end Store

open Store

/-! ## The root with one child -/

/-- A root without keys has one child, a leaf. -/
theorem SearchTree.onlyChild (hw : SearchTree v 1 t) (hnum : (v.node t.page).numKeys = 0) :
    ∃ k, t = Part.join t.page [k] ∧ k = Part.leaf k.page (v.node k.page).cells ∧ (v.node t.page).rightChild = k.page ∧
      (v.node k.page).nodeType = .leaf := by
  obtain ⟨kids, seps, hf, ht, hk⟩ := hw.guided
  have hseps : seps = [] := List.length_eq_zero_iff.mp (hf.numKeys.symm.trans hnum)
  have hcount := hf.count
  rw [hseps, List.length_nil] at hcount
  obtain ⟨k, rfl⟩ := List.length_eq_one_iff.mp hcount
  obtain ⟨⟨htype, hleaf⟩, -, -⟩ := hk k List.mem_cons_self
  have hsingle : Forks (v.node t.page) ([] ++ [k]) seps := hf
  exact ⟨k, ht, hleaf, hsingle.right, htype⟩

variable (uf) in
/-- The only leaf takes the place of the root. -/
theorem SearchTree.collapse (hw : SearchTree v 1 t) (hnum : (v.node t.page).numKeys = 0) :
    ∃ s' t', settleParent uf v t.page = some s' ∧ SearchTree s' 0 t' ∧ t'.rows = t.rows ∧
      t'.pages ⊆ t.pages := by
  obtain ⟨k, ht, hleaf, hright, htype⟩ := hw.onlyChild hnum
  have hself : (v.modify t.page fun n => { v.node n.rightChild with isRoot := true }).node t.page =
      { v.node k.page with isRoot := true } := by
    rw [node_modify_self, hright]
  have hrows : t.rows = (v.node k.page).cells := by
    rw [ht, rows_join, List.flatMap_singleton]
    exact (congrArg Part.rows hleaf).trans (rows_leaf ..)
  have hnext : (v.node k.page).nextLeaf = 0 := by
    have hc := hw.chained
    have hpages : t.leaves.map Prod.fst = [] ++ [k.page] := by
      rw [ht, hleaf]
      rfl
    rw [hpages] at hc
    exact hc.last
  refine ⟨v.modify t.page fun n => { v.node n.rightChild with isRoot := true },
    Part.leaf t.page (v.node k.page).cells, ?_, ⟨⟨?_, ?_⟩, hw.root, hw.page_ne, ?_, ?_, ?_, List.nodup_singleton _⟩, ?_,
    fun q hq => List.mem_singleton.mp hq ▸ hw.guided.page_mem⟩
  · unfold settleParent
    rw [if_pos ⟨hw.isRoot, hnum⟩]
    dsimp only
    rw [hself, htype, if_neg (by decide)]
  · rw [leaf_page, hself]
    exact htype
  · rw [leaf_page, hself]
  · rw [leaf_page, hself]
  · rw [rows_leaf, ← hrows]
    exact hw.sorted
  · exact ⟨t.page, rfl, hw.page_ne, (congrArg Node.nextLeaf hself).trans hnext⟩
  · rw [rows_leaf, hrows]

variable (uf) in
/-- What follows in the parent, where it may lose a child. -/
theorem SearchTree.settle (ha : Around v 1 t fs) (hw : SearchTree v (1 + fs.length) (plug t fs))
    (hspares : (v.node t.page).isRoot = true ∨ internalNodeMinKeys ≤ (v.node t.page).numKeys) :
    ∃ s' h' t', settleParent uf v t.page = some s' ∧ h' ≤ 1 + fs.length ∧ SearchTree s' h' t' ∧
      t'.rows = (plug t fs).rows ∧ t'.pages ⊆ (plug t fs).pages := by
  cases fs with
  | nil =>
    by_cases hnum : (v.node t.page).numKeys = 0
    · obtain ⟨s', t', hs', hw', hrows⟩ := SearchTree.collapse uf hw hnum
      exact ⟨s', 0, t', hs', Nat.zero_le _, hw', hrows⟩
    · refine ⟨v, _, _, ?_, le_refl _, hw, rfl, List.Subset.refl _⟩
      have hroot : (v.node t.page).isRoot = true := ha.2
      unfold settleParent
      rw [if_neg (fun hn => hnum hn.2), if_neg (fun hn => by rw [hroot] at hn; cases hn.1)]
  | cons g gs =>
    have hroot : (v.node t.page).isRoot = false := ha.2.2.2.1
    have henough : internalNodeMinKeys ≤ (v.node t.page).numKeys := hspares.resolve_left (by rw [hroot]; decide)
    refine ⟨v, _, _, ?_, le_refl _, hw, rfl, List.Subset.refl _⟩
    unfold settleParent
    rw [if_neg (fun hn => by rw [hroot] at hn; cases hn.1), if_neg (fun hn => absurd hn.2 (not_lt.mpr henough))]

/-- A merge of two leaves whose parent may lose one of them. -/
theorem SearchTree.merge {left right : Nat} {lcells rcells : List C}
    (hp : Pair e 0 p a (Part.leaf left lcells) (Part.leaf right rcells) b fs)
    (hw : SearchTree e h (plug (Part.join p (a ++ Part.leaf left lcells :: Part.leaf right rcells :: b)) fs))
    (hspares : e.Spares p) (fuel : Nat) :
    ∃ s' h' t', e.leafMerge fuel left right p (a.length + 1) = some s' ∧ h' ≤ 1 + fs.length ∧ SearchTree s' h' t' ∧
      t'.rows = (plug (Part.join p (a ++ Part.leaf left lcells :: Part.leaf right rcells :: b)) fs).rows ∧
      t'.pages ⊆ (plug (Part.join p (a ++ Part.leaf left lcells :: Part.leaf right rcells :: b)) fs).pages := by
  obtain ⟨hw', hrows, hpages⟩ := hw.joined hp
  have hr := hp.joined
  have hsame : (mergeLeaves e left right).node p = e.node p :=
    (mergeLeaves_node e hp.page_ne).2.2.2 p hp.left_ne.symm hp.right_ne.symm
  have hself : (joinLeaves e left right p (a.length + 1)).node p = removeAt (e.node p) (a.length + 1) :=
    joinLeaves_parent hp.page_ne hp.left_ne.symm hp.right_ne.symm _
  have hkeys := hp.keys
  obtain ⟨s', h', t', hs', hle, hw'', hrows', hpages'⟩ := SearchTree.settle (handleInternalUnderflow fuel)
    (hr.around hp.around hp.apart) hw' (by
      rw [page_join, hself, (removeAt_body ..).1.isRoot, removeAt_numKeys]
      exact hspares.imp_right fun hlt => by omega)
  refine ⟨s', h', t', ?_, hle, hw'', hrows'.trans hrows, List.Subset.trans hpages' hpages⟩
  rw [leafMerge_split, internalRemoveChild_eq (by rw [hsame]; omega)]
  exact hs'

/-! ## The underflow of a leaf -/

/-- The rows of two neighbouring leaves ascend. -/
theorem SearchTree.pair_sorted {left right : Nat} {lcells rcells : List C}
    (hw : SearchTree e h (plug (Part.join p (a ++ Part.leaf left lcells :: Part.leaf right rcells :: b)) fs)) :
    Sorted (lcells ++ rcells) := by
  have hs := hw.sorted
  rw [plug_rows, rows_join] at hs
  simp only [List.flatMap_append, List.flatMap_cons, rows_leaf] at hs
  refine hs.sublist ?_
  refine List.Sublist.trans ?_ (List.sublist_append_left ..)
  refine List.Sublist.trans ?_ (List.sublist_append_right ..)
  refine List.Sublist.trans ?_ (List.sublist_append_right ..)
  rw [← List.append_assoc]
  exact List.sublist_append_left ..

/-- What the search for a sibling finds at a leaf below the root: its parent and its place there, and the sibling. -/
theorem SearchTree.siblings (hw : SearchTree e h t) (hleaves : t.leaves = l₁ ++ (q, cells) :: l₂)
    (hroot : ¬ (e.node q).isRoot = true) :
    ∃ p i fs, h = 1 + fs.length ∧ p ∈ t.pages ∧ (e.node p).nodeType = .internal ∧ (e.node q).parent = p ∧
      (e.node p).findChildIndex q = some i ∧
      ((i = 0 ∧ (e.node p).numKeys = 0) ∨
      (i = 0 ∧ 0 < (e.node p).numKeys ∧ ∃ r b, (e.node p).internalNodeChild 1 = some r ∧
        Pair e 0 p [] (Part.leaf q cells) (Part.leaf r (e.node r).cells) b fs ∧
        plug (Part.join p ([] ++ Part.leaf q cells :: Part.leaf r (e.node r).cells :: b)) fs = t) ∨
      ∃ l a b, i = a.length + 1 ∧ (e.node p).internalNodeChild a.length = some l ∧
        Pair e 0 p a (Part.leaf l (e.node l).cells) (Part.leaf q cells) b fs ∧
        plug (Part.join p (a ++ Part.leaf l (e.node l).cells :: Part.leaf q cells :: b)) fs = t) := by
  obtain ⟨fs, hplug, ha, hs, hnd, hlen, -, -⟩ := hw.locate hleaves
  cases fs with
  | nil => exact absurd ha.2 hroot
  | cons f fs =>
    have hindex := ha.childIndex hs hnd
    have hpar : (e.node q).parent = f.page := ha.2.2.1
    have hfind : (e.node f.page).findChildIndex q = some f.left.length := by
      unfold Store.childIndex at hindex
      rwa [leaf_page, hpar] at hindex
    have hfill : plug (f.fill (Part.leaf q cells)) fs = t := hplug
    have hmem : f.page ∈ t.pages := by
      rw [← hplug]
      exact (plug_pages _ _).mem_iff.mpr (List.mem_append_right _ List.mem_cons_self)
    obtain ⟨seps, hf⟩ := ha.1
    refine ⟨f.page, f.left.length, fs, by rw [← hlen, List.length_cons, Nat.add_comm], hmem, hf.nodeType, hpar, hfind, ?_⟩
    rcases ha.sibling with ⟨hnil, -, hnum⟩ | ⟨hnil, r, b, hr, hnum, hchild⟩ | ⟨a, l, hl, hchild⟩
    · exact Or.inl ⟨by rw [hnil]; rfl, hnum⟩
    · have hleaf : r = Part.leaf r.page (e.node r.page).cells :=
        (ha.2.1 r (List.mem_append_right _ (by rw [hr]; exact List.mem_cons_self))).1.2
      have hkids : f.left ++ Part.leaf q cells :: f.right =
          [] ++ Part.leaf q cells :: Part.leaf r.page (e.node r.page).cells :: b := by
        rw [hnil, hr, ← hleaf]
      rw [Frame.fill, hkids] at hfill
      exact Or.inr (Or.inl ⟨by rw [hnil]; rfl, hnum, r.page, b, hchild, ha.pair hs hnd hkids, hfill⟩)
    · have hleaf : l = Part.leaf l.page (e.node l.page).cells :=
        (ha.2.1 l (List.mem_append_left _ (by rw [hl]; exact List.mem_append_right _ List.mem_cons_self))).1.2
      have hkids : f.left ++ Part.leaf q cells :: f.right =
          a ++ Part.leaf l.page (e.node l.page).cells :: Part.leaf q cells :: f.right := by
        rw [hl, ← hleaf, List.append_assoc]
        rfl
      have hlen : f.left.length = a.length + 1 := by rw [hl, List.length_append, List.length_singleton]
      rw [hlen, Nat.add_sub_cancel] at hchild
      rw [Frame.fill, hkids] at hfill
      exact Or.inr (Or.inr ⟨l.page, a, f.right, hlen, hchild, ha.pair hs hnd hkids, hfill⟩)

omit [Cell C] in
/-- The sibling that `leaf_node_handle_underflow` turns to. -/
theorem neighbour_eq (hpar : (e.node q).parent = p) (hfind : (e.node p).findChildIndex q = some i) :
    e.neighbour q = if 0 < i then (e.node p).internalNodeChild (i - 1)
      else if i < (e.node p).numKeys then (e.node p).internalNodeChild (i + 1) else none := by
  unfold Store.neighbour Store.childIndex
  dsimp only
  rw [hpar, hfind, Option.bind_some]

theorem SearchTree.underflow (hw : SearchTree e h t) (hleaves : t.leaves = l₁ ++ (q, cells) :: l₂)
    (hcalm : (e.node q).isRoot = true ∨ leafNodeMinCells ≤ (e.node q).cells.length ∨
      ∀ n ∈ e.neighbour q, leafNodeMinCells < (e.node n).cells.length ∨ e.Spares (e.node q).parent) (fuel : Nat) :
    ∃ s' h' t', e.leafNodeHandleUnderflow fuel q = some s' ∧ h' ≤ h ∧ SearchTree s' h' t' ∧ t'.rows = t.rows ∧
      t'.pages ⊆ t.pages := by
  by_cases hquiet : (e.node q).isRoot = true ∨ leafNodeMinCells ≤ (e.node q).cells.length
  · exact ⟨e, h, t, leafUnderflow_calm hquiet fuel, le_refl _, hw, rfl, List.Subset.refl _⟩
  obtain ⟨hroot, hlow⟩ := not_or.mp hquiet
  have hsib := (hcalm.resolve_left hroot).resolve_left hlow
  obtain ⟨p, i, fs, rfl, -, -, hpar, hfind, hsibling⟩ := hw.siblings hleaves hroot
  rw [hpar, neighbour_eq hpar hfind] at hsib
  unfold leafNodeHandleUnderflow
  rw [if_neg hroot, if_neg hlow, hpar]
  simp only [hfind, Option.bind_eq_bind, Option.bind_some]
  rcases hsibling with ⟨rfl, hnum⟩ | ⟨rfl, hnum, r, b, hchild, hp, rfl⟩ | ⟨l, a, b, rfl, hchild, hp, rfl⟩
  · -- the only child
    rw [if_neg (Nat.lt_irrefl 0), if_neg (by omega)]
    exact ⟨e, _, t, rfl, le_refl _, hw, rfl, List.Subset.refl _⟩
  · -- the first child: its sibling is to the right
    rw [if_neg (Nat.lt_irrefl 0), if_pos hnum, hchild] at hsib ⊢
    rw [Option.bind_some]
    by_cases hlend : leafNodeMinCells < (e.node r).cells.length
    · rw [if_pos hlend]
      obtain ⟨t', hw', hrows⟩ := hp.borrowRight hw hw.pair_sorted (List.ne_nil_of_length_pos (by omega))
      exact ⟨_, _, t', rfl, le_refl _, hw', hrows⟩
    · rw [if_neg hlend]
      exact hw.merge hp ((hsib r rfl).resolve_left hlend) fuel
  · -- the sibling to the left
    rw [if_pos (Nat.succ_pos _), Nat.add_sub_cancel, hchild] at hsib ⊢
    rw [Option.bind_some]
    by_cases hlend : leafNodeMinCells < (e.node l).cells.length
    · rw [if_pos hlend]
      obtain ⟨t', hw', hrows⟩ := hp.borrowLeft hw hw.pair_sorted (lt_trans (by decide) hlend)
      exact ⟨_, _, t', rfl, le_refl _, hw', hrows⟩
    · rw [if_neg hlend]
      exact hw.merge hp ((hsib l rfl).resolve_left hlend) fuel

/-! ## One deletion -/

omit [Cell C] in
theorem Erased.neighbour (he : Erased s e cur) (q : Nat) : e.neighbour q = s.neighbour q := by
  have hup := he.place (s.node q).parent
  unfold Store.neighbour Store.childIndex
  dsimp only
  rw [(he.place q).parent, hup.findChild, hup.numKeys]
  simp only [hup.child]

omit [Cell C] in
/-- What `DeletesCalmly` says of the tree without the cell. -/
theorem Erased.calm (he : Erased s e cur) (hlt : cur.cellNum < (s.node cur.pageNum).cells.length)
    (hcalm : s.DeletesCalmly cur) : (e.node (s.movedTo cur)).isRoot = true ∨
      leafNodeMinCells ≤ (e.node (s.movedTo cur)).cells.length ∨
      ∀ n ∈ e.neighbour (s.movedTo cur), leafNodeMinCells < (e.node n).cells.length ∨
        e.Spares (e.node (s.movedTo cur)).parent := by
  rw [(he.place _).isRoot, he.length hlt, he.neighbour, (he.place _).parent]
  refine hcalm.imp_right fun hc => hc.imp_right fun hsib n hn => ?_
  rw [he.length hlt]
  unfold Store.Spares
  rw [(he.place _).isRoot, (he.place _).numKeys]
  exact hsib n hn

/-- The page the cursor comes to is a leaf still. -/
theorem SearchTree.moved (hw : SearchTree s h t) (hleaves : t.leaves = l₁ ++ (cur.pageNum, cells) :: l₂)
    (hlt : cur.cellNum < (s.node cur.pageNum).cells.length) :
    ((s.eraseCell cur).afterDelete cur).pageNum = s.movedTo cur ∧ ∃ m₁ m₂ cs,
      l₁ ++ (cur.pageNum, cells.eraseIdx cur.cellNum) :: l₂ = m₁ ++ (s.movedTo cur, cs) :: m₂ := by
  have hstay : ∃ m₁ m₂ cs, l₁ ++ (cur.pageNum, cells.eraseIdx cur.cellNum) :: l₂ = m₁ ++ (cur.pageNum, cs) :: m₂ :=
    ⟨l₁, l₂, _, rfl⟩
  by_cases hmore : cur.cellNum + 1 < (s.node cur.pageNum).cells.length
  · obtain ⟨hd, hmoved, -⟩ := afterDelete_stays hmore
    rw [hd, hmoved]
    exact ⟨rfl, hstay⟩
  have hd := afterDelete_leaves (s := s) (by omega : cur.cellNum + 1 = (s.node cur.pageNum).cells.length)
  have hchain := hw.chained
  rw [hleaves, List.map_append, List.map_cons] at hchain
  rcases Chained.next_leaf hchain with ⟨-, hzero⟩ | ⟨l, hl, hne⟩
  · have hmoved : s.movedTo cur = cur.pageNum := if_pos (Or.inr hzero)
    rw [hd, if_pos hzero, hmoved]
    exact ⟨rfl, hstay⟩
  · have hmoved : s.movedTo cur = (s.node cur.pageNum).nextLeaf := if_neg (not_or.mpr ⟨hmore, hne⟩)
    obtain ⟨⟨r, cs⟩, l₃, rfl, hr, -⟩ := List.map_eq_cons_iff.mp hl
    have hr' : r = (s.node cur.pageNum).nextLeaf := hr
    rw [hd, if_neg hne, hmoved, ← hr']
    refine ⟨rfl, l₁ ++ [(cur.pageNum, cells.eraseIdx cur.cellNum)], l₃, cs, ?_⟩
    rw [List.append_assoc]
    rfl

/-- `btree_delete` of any cell: the tree is a search tree without the row. -/
theorem SearchTree.delete (hw : SearchTree s h t) (hleaves : t.leaves = l₁ ++ (cur.pageNum, cells) :: l₂)
    (hcell : cur.cellNum < cells.length) (hcalm : s.DeletesCalmly cur) (fuel : Nat) :
    ∃ s' c' h' t', s.btreeDelete fuel cur = some (s', c') ∧ h' ≤ h ∧ SearchTree s' h' t' ∧
      t'.rows = l₁.flatMap Prod.snd ++ cells.eraseIdx cur.cellNum ++ l₂.flatMap Prod.snd ∧ t'.pages ⊆ t.pages := by
  have hmem : (cur.pageNum, cells) ∈ t.leaves := by
    rw [hleaves]
    exact List.mem_append_right _ List.mem_cons_self
  have hlt : cur.cellNum < (s.node cur.pageNum).cells.length := by
    have hcells : (s.node cur.pageNum).cells = cells := (hw.guided.leaf_cells _ hmem).2
    rw [hcells]
    exact hcell
  have he := eraseCell_erased s cur
  obtain ⟨t₁, hw₁, hleaves₁, hpages₁⟩ := hw.erase hleaves
  obtain ⟨hmoved, m₁, m₂, cs, hm⟩ := hw.moved hleaves hlt
  rw [hm] at hleaves₁
  obtain ⟨s', h', t', hs', hle, hw', hrows, hpages⟩ := hw₁.underflow hleaves₁ (he.calm hlt hcalm) fuel
  refine ⟨s', (s.eraseCell cur).afterDelete cur, h', t', ?_, hle, hw', ?_, List.Subset.trans hpages hpages₁⟩
  · rw [btreeDelete_eq hlt, hmoved, hs']
    rfl
  · rw [hrows, Part.rows, hleaves₁, ← hm, List.flatMap_append, List.flatMap_cons, List.append_assoc]

/-! ## A run of deletions -/

namespace Store

/-- The row with the key goes, as the callers of `btree_delete` have it: `btree_find`, and the key compared. -/
def deleteKey (fuel d : Nat) (s : Store C) (key : Int) : Option (Store C) := do
  let cur ← s.btreeFind d key
  match s.rowAt cur with
  | some c => if Cell.key c = key then (s.btreeDelete fuel cur).map Prod.fst else some s
  | none => some s

def deleteKeys (fuel d : Nat) (s : Store C) (keys : List Int) : Option (Store C) := keys.foldlM (deleteKey fuel d) s

/-- Each of the deletions is calm. -/
def CalmRun (fuel d : Nat) : Store C → List Int → Prop
  | _, [] => True
  | s, key :: keys => (∀ cur ∈ s.btreeFind d key, s.DeletesCalmly cur) ∧
      ∀ s' ∈ s.deleteKey fuel d key, CalmRun fuel d s' keys

instance decidableCalmRun (fuel d : Nat) : (s : Store C) → (keys : List Int) → Decidable (s.CalmRun fuel d keys)
  | _, [] => inferInstanceAs (Decidable True)
  | s, key :: keys =>
    have : DecidablePred fun s' : Store C => CalmRun fuel d s' keys := fun s' => decidableCalmRun fuel d s' keys
    inferInstanceAs (Decidable ((∀ cur ∈ s.btreeFind d key, s.DeletesCalmly cur) ∧
      ∀ s' ∈ s.deleteKey fuel d key, CalmRun fuel d s' keys))

end Store

/-- Among ascending rows the key is on one at most. -/
theorem Sorted.filter_ne {r₁ r₂ : List C} (hs : Sorted (r₁ ++ c :: r₂)) :
    (r₁ ++ c :: r₂).filter (fun x => decide (Cell.key x ≠ Cell.key c)) = r₁ ++ r₂ := by
  obtain ⟨-, htail, hfront⟩ := List.pairwise_append.mp hs
  have hbehind := (List.pairwise_cons.mp htail).1
  rw [List.filter_append, List.filter_cons_of_neg (by simp), List.filter_eq_self.mpr, List.filter_eq_self.mpr]
  · exact fun x hx => decide_eq_true (ne_of_gt (hbehind x hx))
  · exact fun x hx => decide_eq_true (ne_of_lt (hfront x hx _ List.mem_cons_self))

/-- The rows left are those with another key. -/
theorem SearchTree.delete_row (hw : SearchTree s h t) (hleaves : t.leaves = l₁ ++ (cur.pageNum, cells) :: l₂)
    (hcell : cells[cur.cellNum]? = some c) (hcalm : s.DeletesCalmly cur) (fuel : Nat) :
    ∃ s' c' h' t', s.btreeDelete fuel cur = some (s', c') ∧ h' ≤ h ∧ SearchTree s' h' t' ∧
      t'.rows = t.rows.filter (fun x => decide (Cell.key x ≠ Cell.key c)) ∧ t'.pages ⊆ t.pages := by
  obtain ⟨hlt, hget⟩ := List.getElem?_eq_some_iff.mp hcell
  obtain ⟨s', c', h', t', hs', hle, hw', hrows, hpages⟩ := hw.delete hleaves hlt hcalm fuel
  refine ⟨s', c', h', t', hs', hle, hw', ?_, hpages⟩
  have hcells : cells = cells.take cur.cellNum ++ c :: cells.drop (cur.cellNum + 1) := by
    rw [← hget, ← List.drop_eq_getElem_cons hlt, List.take_append_drop]
  have hall : t.rows = l₁.flatMap Prod.snd ++ cells.take cur.cellNum ++
      c :: (cells.drop (cur.cellNum + 1) ++ l₂.flatMap Prod.snd) := by
    rw [Part.rows, hleaves, List.flatMap_append, List.flatMap_cons]
    conv_lhs => rw [hcells]
    simp only [List.append_assoc, List.cons_append]
  have hsorted := hw.sorted
  rw [hall] at hsorted ⊢
  rw [hsorted.filter_ne, hrows, List.eraseIdx_eq_take_drop_succ]
  simp only [List.append_assoc]

/-- The row with the key is not in the tree any more. -/
theorem SearchTree.deleteKey (hw : SearchTree s h t) (hd : h < d) (key : Int)
    (hcalm : ∀ cur ∈ s.btreeFind d key, s.DeletesCalmly cur) (fuel : Nat) :
    ∃ s' h' t', s.deleteKey fuel d key = some s' ∧ h' ≤ h ∧ SearchTree s' h' t' ∧
      t'.rows = t.rows.filter (fun x => decide (Cell.key x ≠ key)) ∧ t'.pages ⊆ t.pages := by
  obtain ⟨x, hx, hfind, -⟩ := hw.descend hd key
  have hother : (∀ c ∈ s.rowAt (s.leafNodeNavigate x.1 key), Cell.key c ≠ key) →
      t.rows = t.rows.filter fun x => decide (Cell.key x ≠ key) := by
    intro hn
    have hlookup := hw.lookup_eq hd key
    have hnone : s.lookup d key = none := by
      unfold Store.lookup
      rw [hfind, Option.bind_some, Option.filter_eq_none_iff]
      exact fun c hc => by simpa using hn c hc
    rw [hnone] at hlookup
    refine (List.filter_eq_self.mpr fun c hc => ?_).symm
    simpa using List.find?_eq_none.mp hlookup.symm c hc
  unfold Store.deleteKey
  rw [hfind]
  dsimp only [Option.bind_eq_bind, Option.bind_some]
  cases hrow : s.rowAt (s.leafNodeNavigate x.1 key) with
  | none =>
    exact ⟨s, h, t, rfl, le_refl _, hw, hother fun c hc => (by rw [hrow] at hc; cases hc), List.Subset.refl _⟩
  | some c =>
    dsimp only
    by_cases hkey : Cell.key c = key
    · subst hkey
      obtain ⟨l₁, cs, l₂, hl, hi⟩ := hw.navigate_row hx hrow
      obtain ⟨s', c', h', t', hs', hle, hw', hrows, hpages⟩ := hw.delete_row hl hi (hcalm _ hfind) fuel
      refine ⟨s', h', t', ?_, hle, hw', hrows, hpages⟩
      rw [if_pos rfl, hs']
      rfl
    · refine ⟨s, h, t, if_neg hkey, le_refl _, hw, hother fun e he => ?_, List.Subset.refl _⟩
      rw [hrow] at he
      obtain rfl := Option.some.inj he
      exact hkey

/-- After any number of calm deletions the tree is a search tree of the rows with none of the keys. -/
theorem SearchTree.deleteKeys (fuel : Nat) {keys : List Int} (hw : SearchTree s h t) (hd : h < d)
    (hrun : s.CalmRun fuel d keys) :
    ∃ s' h' t', s.deleteKeys fuel d keys = some s' ∧ h' ≤ h ∧ SearchTree s' h' t' ∧
      t'.rows = t.rows.filter fun x => decide (Cell.key x ∉ keys) := by
  induction keys generalizing s h t with
  | nil => exact ⟨s, h, t, rfl, le_refl _, hw, (List.filter_eq_self.mpr fun x _ => by simp).symm⟩
  | cons key keys ih =>
    obtain ⟨hcalm, hrest⟩ := hrun
    obtain ⟨u, k, r, hu, hle, hw', hrows, -⟩ := hw.deleteKey hd key hcalm fuel
    obtain ⟨s', h', t', hs', hle', hw'', hrows'⟩ := ih hw' (lt_of_le_of_lt hle hd) (hrest u hu)
    refine ⟨s', h', t', ?_, le_trans hle' hle, hw'', ?_⟩
    · unfold Store.deleteKeys
      rw [List.foldlM_cons, hu]
      exact hs'
    · rw [hrows', hrows, List.filter_filter]
      refine List.filter_congr fun x _ => ?_
      rw [← Bool.decide_and, decide_eq_decide, List.mem_cons, not_or]
      exact and_comm

/-- Lookups find what the deletions have left. -/
theorem SearchTree.lookup_after {keys : List Int} {s' : Store C} {h' : Nat} {t' : Part C} (hw : SearchTree s h t)
    (hd : h < d) (hw' : SearchTree s' h' t') (hle : h' ≤ h)
    (hrows : t'.rows = t.rows.filter fun x => decide (Cell.key x ∉ keys)) (key : Int) :
    s'.lookup d key = if key ∈ keys then none else s.lookup d key := by
  rw [hw'.lookup_eq (lt_of_le_of_lt hle hd), hrows, hw.lookup_eq hd, List.find?_filter]
  by_cases hkey : key ∈ keys
  · rw [if_pos hkey, List.find?_eq_none]
    intro c _
    simp only [decide_eq_true_eq, not_and]
    rintro hc rfl
    exact hc hkey
  · rw [if_neg hkey]
    congr 1
    funext c
    rw [decide_eq_decide, decide_eq_true_eq, decide_eq_true_eq]
    refine ⟨And.right, fun hc => ⟨?_, hc⟩⟩
    rwa [hc]

/-- One calm deletion, at any row. -/
theorem calm_delete (s : Store C) (h fuel : Nat) (t : Part C) (cur : Cursor) (c : C) (cells : List C)
    (l₁ l₂ : List (Nat × List C)) (hw : SearchTree s h t) (hleaves : t.leaves = l₁ ++ (cur.pageNum, cells) :: l₂)
    (hcell : cells[cur.cellNum]? = some c) (hcalm : s.DeletesCalmly cur) :
    ∃ s' c' h' t', s.btreeDelete fuel cur = some (s', c') ∧ h' ≤ h ∧ SearchTree s' h' t' ∧
      t'.rows = t.rows.filter fun x => decide (Cell.key x ≠ Cell.key c) := by
  obtain ⟨s', c', h', t', hs', hle, hw', hrows, -⟩ := hw.delete_row hleaves hcell hcalm fuel
  exact ⟨s', c', h', t', hs', hle, hw', hrows⟩

/-- The last row of a leaf goes, and the leaf borrows one from its sibling. -/
theorem calm_delete_borrows : ∃ s' c' h' t', (twoLeaves [wideRow 50]).btreeDelete 1 ⟨35, 0, false⟩ = some (s', c') ∧
    h' ≤ 1 ∧ SearchTree s' h' t' ∧
    t'.rows = (twoLeavesTree [wideRow 50]).rows.filter fun x => decide (Cell.key x ≠ Cell.key (wideRow 50)) :=
  calm_delete (twoLeaves [wideRow 50]) 1 1 (twoLeavesTree [wideRow 50]) ⟨35, 0, false⟩ (wideRow 50) [wideRow 50]
    [(34, fullLeaf)] [] ((twoLeaves_wellFormed (by decide +kernel)).searchTree (by decide)) rfl rfl (by decide +kernel)

/-- Any number of calm deletions by key from a well-formed tree, and the lookups behind them. -/
theorem lookup_deleteKeys (s : Store C) (h d fuel : Nat) (t : Part C) (keys : List Int) (hw : WellFormed s h t)
    (hroot : s.rootPageNum ≠ 0) (hd : h < d) (hrun : s.CalmRun fuel d keys) :
    ∃ s' h' t', s.deleteKeys fuel d keys = some s' ∧ SearchTree s' h' t' ∧
      t'.rows = t.rows.filter (fun x => decide (Cell.key x ∉ keys)) ∧
      ∀ key, s'.lookup d key = if key ∈ keys then none else s.lookup d key := by
  have hs := hw.searchTree hroot
  obtain ⟨s', h', t', hs', hle, hw', hrows⟩ := hs.deleteKeys fuel hd hrun
  exact ⟨s', h', t', hs', hw', hrows, hs.lookup_after hd hw' hle hrows⟩

/-- The last leaf borrows for 50, is merged later, and its sibling becomes the root; there is no 45. -/
theorem lookup_deleteKeys_collapse : ∃ s' h' t',
    (twoLeaves [wideRow 50]).deleteKeys 3 3 [50, 20, 45, 10, 30] = some s' ∧ SearchTree s' h' t' ∧
    t'.rows = (twoLeavesTree [wideRow 50]).rows.filter (fun x => decide (Cell.key x ∉ [50, 20, 45, 10, 30])) ∧
    ∀ key, s'.lookup 3 key = if key ∈ [50, 20, 45, 10, 30] then none else (twoLeaves [wideRow 50]).lookup 3 key :=
  lookup_deleteKeys (twoLeaves [wideRow 50]) 1 3 3 (twoLeavesTree [wideRow 50]) [50, 20, 45, 10, 30]
    (twoLeaves_wellFormed (by decide +kernel)) (by decide) (by decide) (by decide +kernel)

end Tree

end CustomDB
