import CustomDB.Tree.Lookup

/-!
# A search tree without a cell

What `btree_delete` does before it looks for an underflow: the cell goes, and if it was the last of its leaf, the
separator behind the leaf comes down to the row before it. That the separators further up stay as they are is right
for the search.
-/

namespace CustomDB

open Lib Lib.Fences

namespace Tree

variable {C : Type} [Cell C] {s : Store C} {h p q i : Nat} {t k : Part C} {cells : List C} {n : Node C} {f : Frame C}
  {fs : List (Frame C)} {cur : Cursor} {l₁ l₂ : List (Nat × List C)} {seps : List Int} {k₁ k₂ : List (Part C)}

open Store

/-! ## A separator is lowered -/

/-- The separators in front of a child, the one behind it, and the others. -/
theorem Forks.split (hf : Forks n (k₁ ++ k :: k₂) seps) (hne : k₂ ≠ []) :
    ∃ xs x ys, seps = xs ++ x :: ys ∧ xs.length = k₁.length := by
  have hcount := hf.count
  have hpos := List.length_pos_iff.mpr hne
  rw [List.length_append, List.length_cons] at hcount
  have hlt : k₁.length < seps.length := by omega
  refine ⟨seps.take k₁.length, seps[k₁.length], seps.drop (k₁.length + 1), ?_, ?_⟩
  · rw [← List.drop_eq_getElem_cons hlt, List.take_append_drop]
  · rw [List.length_take]
    omega

/-- The last child is the right child. -/
theorem Forks.right (hf : Forks n (k₁ ++ [k]) seps) : n.rightChild = k.page := by
  have hcount := hf.count
  rw [List.length_append, List.length_singleton] at hcount
  have hchild := hf.child k₁.length k (by rw [List.getElem?_append_right (le_refl _), Nat.sub_self]; rfl)
  unfold Node.internalNodeChild at hchild
  rw [hf.numKeys, if_neg (by omega), if_pos (by omega)] at hchild
  exact Option.some.inj hchild

/-! ## The store without the cell -/

/-- Only the leaf and its parent are written. -/
theorem eraseCell_node (s : Store C) (cur : Cursor) (hq : q ≠ cur.pageNum) (hpar : q ≠ (s.node cur.pageNum).parent) :
    (s.eraseCell cur).node q = s.node q := by
  unfold eraseCell
  dsimp only
  split
  · rw [node_modify_of_ne, node_modify_of_ne hq]
    rw [node_modify_self]
    exact hpar
  · exact node_modify_of_ne hq

/-- The parent's separator is lowered, or the parent is as it was. -/
theorem eraseCell_parent (s : Store C) (cur : Cursor) (hpar : (s.node cur.pageNum).parent = p) (hp : p ≠ cur.pageNum) :
    (s.eraseCell cur).node p = s.node p ∨
    ((s.node cur.pageNum).cells.eraseIdx cur.cellNum ≠ [] ∧ cur.pageNum ≠ (s.node p).rightChild ∧
      (s.eraseCell cur).node p = (s.node p).updateInternalNodeKey (Node.lastKey (s.node cur.pageNum).cells)
        (Node.lastKey ((s.node cur.pageNum).cells.eraseIdx cur.cellNum))) := by
  unfold eraseCell
  dsimp only
  rw [node_modify_self]
  dsimp only
  rw [hpar, node_modify_of_ne hp]
  split
  next hc =>
    obtain ⟨-, -, hne, hright⟩ := hc
    refine Or.inr ⟨hne, hright, ?_⟩
    rw [node_modify_self, node_modify_of_ne hp]
  · exact Or.inl (node_modify_of_ne hp)

theorem leaf_guided (he : Erased s (s.eraseCell cur) cur) (hs : Guided s 0 (Part.leaf cur.pageNum cells)) :
    Guided (s.eraseCell cur) 0 (Part.leaf cur.pageNum (cells.eraseIdx cur.cellNum)) := by
  obtain ⟨htype, hleaf⟩ := hs
  have hcells : (s.node cur.pageNum).cells = cells := by
    have hrows := congrArg Part.rows hleaf
    rw [rows_leaf, rows_leaf] at hrows
    exact hrows.symm
  refine ⟨(he.place _).nodeType.trans htype, ?_⟩
  show _ = Part.leaf cur.pageNum ((s.eraseCell cur).node cur.pageNum).cells
  rw [he.cells, if_pos rfl, hcells]

/-- The parent over the leaf without the cell. -/
theorem Around.erase (ha : Around s 0 (Part.leaf cur.pageNum cells) (f :: fs))
    (hs : Guided s 0 (Part.leaf cur.pageNum cells)) (hnd : Apart (Part.leaf cur.pageNum cells) (f :: fs))
    (hsorted : Sorted cells) : Rewritten s (s.eraseCell cur) 1 (f.fill (Part.leaf cur.pageNum cells))
      (f.fill (Part.leaf cur.pageNum (cells.eraseIdx cur.cellNum))) fs := by
  have he := eraseCell_erased s cur
  have hup := hnd.up
  have hpage : (Part.leaf cur.pageNum cells).page = cur.pageNum := rfl
  have hown : f.page ≠ cur.pageNum := (hnd.own hs.page_mem).symm
  have hcells : (s.node cur.pageNum).cells = cells := (hs.leaf_cells (cur.pageNum, cells) List.mem_cons_self).2
  obtain ⟨⟨seps, hf⟩, hk, hpar, hroot, ha'⟩ := ha
  have hpar' : (s.node cur.pageNum).parent = f.page := hpar
  have hother : ∀ q, q ≠ cur.pageNum → q ≠ f.page → (s.eraseCell cur).node q = s.node q := fun q hq hqf =>
    eraseCell_node s cur hq (by rw [hpar']; exact hqf)
  have hleaf := leaf_guided he hs
  have hsub : (cells.eraseIdx cur.cellNum).Sublist cells := List.eraseIdx_sublist ..
  have hrows : (Part.leaf cur.pageNum (cells.eraseIdx cur.cellNum)).rows ⊆ (Part.leaf cur.pageNum cells).rows := by
    rw [rows_leaf, rows_leaf]
    exact hsub.subset
  have hpages : ∀ c : List C, (f.fill (Part.leaf cur.pageNum c)).pages = (f.fill (Part.leaf cur.pageNum cells)).pages :=
    fun c => by simp [Frame.fill, Part.join, Part.leaf]
  have hnode : ∃ seps', Forks ((s.eraseCell cur).node f.page)
      (f.left ++ Part.leaf cur.pageNum (cells.eraseIdx cur.cellNum) :: f.right) seps' := by
    have hfe := hf.fences
    rw [List.map_append, List.map_cons] at hfe
    rcases eraseCell_parent s cur hpar' hown with hsame | ⟨hne, hright, hlower⟩
    · refine ⟨seps, ?_⟩
      rw [hsame]
      exact hf.shrink rfl hrows
    · -- the leaf is not the last child, so that there is a separator behind it
      have hrne : f.right ≠ [] := by
        intro hn
        rw [hn] at hf
        exact hright hf.right.symm
      rw [hcells] at hne hlower
      obtain ⟨xs, x, ys, rfl, hlen⟩ := hf.split hrne
      obtain ⟨c, hc, hkey⟩ := lastKey_mem (fun hn => hne (by rw [hn]; rfl) : cells ≠ [])
      obtain ⟨e, hem, hmax⟩ := lastKey_mem hne
      have hfind : (s.node f.page).internalNodeFindChild (Node.lastKey cells) = f.left.length := by
        rw [hkey]
        exact hf.route (by rw [rows_leaf]; exact hc)
      refine ⟨xs ++ Cell.key e :: ys, ?_⟩
      rw [hlower]
      unfold Node.updateInternalNodeKey
      dsimp only
      rw [hfind, hmax]
      have hset : xs ++ Cell.key e :: ys = (xs ++ x :: ys).set f.left.length (Cell.key e) := by
        rw [← hlen, set_middle]
      rw [hset]
      refine hf.setKey (by rw [List.map_append, List.map_append, List.map_cons, List.map_cons]; rfl) ?_
      rw [← hset, List.map_append, List.map_cons]
      refine hfe.lower (by rw [List.length_map, hlen]) hrows (by rw [rows_leaf]; exact hem) fun d hd => ?_
      rw [rows_leaf] at hd
      rw [← hmax]
      exact Sorted.le_lastKey (hsorted.sublist hsub) hd
  obtain ⟨seps', hnode⟩ := hnode
  have hplace := fun q => he.place q
  refine ⟨⟨_, seps', hnode, rfl, fun k hm => ?_⟩, rfl, ?_, ?_, ?_, fun q hq => ?_, he.root, (hplace _).parent, (hplace _).isRoot⟩
  · rcases mem_append_cons hm with hm | rfl
    · have hkm := hk k hm
      exact hkm.congr (hnd.kid_nodup hm) fun q hq => hother q (hnd.kid hs.page_mem hm hq).symm (hnd.kid_own hm hq)
    · exact ⟨hleaf, (hplace _).parent.trans hpar, (hplace _).isRoot.trans hroot⟩
  · rw [hpages]
    exact fun q hq => hq
  · rw [hpages]
    exact (List.nodup_append.mp hup).1
  · rw [rows_fill, rows_fill, rows_leaf, rows_leaf]
    exact (hsub.append_left _).append_right _
  · refine hother q ?_ ?_
    · exact (hup.ne (mem_fill (List.mem_append_right _ List.mem_cons_self) List.mem_cons_self) hq).symm
    · exact (hup.ne (page_mem_fill f _) hq).symm

/-- The search tree without the cell. -/
theorem SearchTree.erase (hw : SearchTree s h t) (hleaves : t.leaves = l₁ ++ (cur.pageNum, cells) :: l₂) :
    ∃ t', SearchTree (s.eraseCell cur) h t' ∧
      t'.leaves = l₁ ++ (cur.pageNum, cells.eraseIdx cur.cellNum) :: l₂ ∧ t'.pages ⊆ t.pages := by
  obtain ⟨fs, hplug, ha, hs, hnd, hlen, hb, haf⟩ := hw.locate hleaves
  have he := eraseCell_erased s cur
  have hmem : (cur.pageNum, cells) ∈ t.leaves := by
    rw [hleaves]
    exact List.mem_append_right _ List.mem_cons_self
  have hsorted : Sorted cells := hw.leaf_sorted hmem
  have hleaves' : (plug (Part.leaf cur.pageNum (cells.eraseIdx cur.cellNum)) fs).leaves =
      l₁ ++ (cur.pageNum, cells.eraseIdx cur.cellNum) :: l₂ := by
    rw [plug_leaves, hb, haf, List.append_assoc]
    rfl
  have hchain : Chained (s.eraseCell cur)
      ((plug (Part.leaf cur.pageNum (cells.eraseIdx cur.cellNum)) fs).leaves.map Prod.fst) := by
    obtain ⟨a, hc⟩ := hw.chained
    refine ⟨a, ?_⟩
    rw [hleaves', List.map_append, List.map_cons]
    rw [hleaves, List.map_append, List.map_cons] at hc
    exact hc.congr fun q _ => he.next q
  have hpages : (plug (Part.leaf cur.pageNum (cells.eraseIdx cur.cellNum)) fs).pages ⊆ t.pages := by
    rw [← hplug]
    exact fun q hq => (plug_pages (Part.leaf cur.pageNum cells) fs).mem_iff.mpr
      ((plug_pages (Part.leaf cur.pageNum (cells.eraseIdx cur.cellNum)) fs).mem_iff.mp hq)
  refine ⟨plug (Part.leaf cur.pageNum (cells.eraseIdx cur.cellNum)) fs, ?_, hleaves', hpages⟩
  rw [← hplug] at hw
  cases fs with
  | nil =>
    have hr : Rewritten s (s.eraseCell cur) 0 (Part.leaf cur.pageNum cells)
        (Part.leaf cur.pageNum (cells.eraseIdx cur.cellNum)) [] := by
      refine ⟨leaf_guided he hs, rfl, fun q hq => hq, List.nodup_singleton _, ?_, fun q hq => absurd hq List.not_mem_nil,
        he.root, (he.place _).parent, (he.place _).isRoot⟩
      rw [rows_leaf, rows_leaf]
      exact List.eraseIdx_sublist ..
    rw [← hlen, ← Nat.zero_add (List.length [])]
    exact hr.searchTree ha hnd hw hchain
  | cons f fs =>
    have hr := ha.erase hs hnd hsorted
    have hstep := hr.searchTree ha.2.2.2.2 hnd.up hw hchain
    rw [List.length_cons] at hlen
    rw [← hlen, Nat.add_comm]
    exact hstep

end Tree

end CustomDB
