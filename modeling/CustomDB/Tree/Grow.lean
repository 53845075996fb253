import CustomDB.Tree.Pending
import CustomDB.Tree.Search

/-!
# Insertion keeps the tree

A row goes into the leaf of its cursor; a leaf without room is split and the climb begins.
-/

namespace CustomDB

open Lib

namespace Tree

variable {C : Type} [Cell C] {s s' : Store C} {h d j p w : Nat} {row : C} {t : Part C} {cells c₁ c₂ : List C}
  {n n' : Node C} {f : Frame C} {fs : List (Frame C)}

open Store

/-- `BTREE_MAX_LOCAL_PAYLOAD`: smaller cells are inline. -/
def btreeMaxLocalPayload : Nat := 1024

/-- The leaf of the row's cursor, with the tree around it. -/
structure Place (s : Store C) (row : C) (p : Nat) (c₁ c₂ : List C) (fs : List (Frame C)) : Prop where
  nodeType : (s.node p).nodeType = .leaf
  cells : (s.node p).cells = c₁ ++ c₂
  left : ∀ c ∈ c₁, Cell.key c < Cell.key row
  right : ∀ c ∈ c₂, Cell.key row < Cell.key c
  around : Above s 0 (Part.leaf p (c₁ ++ c₂)) fs
  belongs : Belongs (Cell.key row) (Part.leaf p (c₁ ++ c₂)) fs
  nodup : (p :: outer fs).Nodup
  taken : ∀ q ∈ p :: outer fs, Taken s q
  sorted : Sorted (plug (Part.leaf p (c₁ ++ c₂)) fs).rows
  chained : Chained s ((plug (Part.leaf p (c₁ ++ c₂)) fs).leaves.map Prod.fst)

/-! ## The new row among the others -/

/-- The rows in front of the new one. -/
def rowsBefore (c₁ : List C) (fs : List (Frame C)) : List C := (before fs).flatMap Prod.snd ++ c₁

/-- The rows behind it. -/
def rowsAfter (c₂ : List C) (fs : List (Frame C)) : List C := c₂ ++ (after fs).flatMap Prod.snd

omit [Cell C] in
theorem plug_leaf_rows (p : Nat) (c₁ c₂ : List C) (fs : List (Frame C)) :
    (plug (Part.leaf p (c₁ ++ c₂)) fs).rows = rowsBefore c₁ fs ++ rowsAfter c₂ fs := by
  rw [plug_rows, rows_leaf, rowsBefore, rowsAfter]
  simp only [List.append_assoc]

omit [Cell C] in
theorem rowsAfter_cons (row : C) (c₂ : List C) (fs : List (Frame C)) :
    rowsAfter (row :: c₂) fs = row :: rowsAfter c₂ fs := rfl

theorem Place.sorted_insert (hp : Place s row p c₁ c₂ fs) : Sorted (rowsBefore c₁ fs ++ row :: rowsAfter c₂ fs) := by
  have hs := hp.sorted
  rw [plug_leaf_rows] at hs
  obtain ⟨h₁, h₂, h₁₂⟩ := List.pairwise_append.mp hs
  have hbefore : ∀ c ∈ rowsBefore c₁ fs, Cell.key c < Cell.key row := fun c hc => by
    rcases List.mem_append.mp hc with hc | hc
    · obtain ⟨x, hx, hc⟩ := List.mem_flatMap.mp hc
      exact hp.belongs.below x hx c hc
    · exact hp.left c hc
  have hafter : ∀ c ∈ rowsAfter c₂ fs, Cell.key row < Cell.key c := fun c hc => by
    rcases List.mem_append.mp hc with hc | hc
    · exact hp.right c hc
    · obtain ⟨x, hx, hc⟩ := List.mem_flatMap.mp hc
      exact hp.belongs.above x hx c hc
  refine List.pairwise_append.mpr ⟨h₁, List.pairwise_cons.mpr ⟨hafter, h₂⟩, fun a ha b hb => ?_⟩
  rcases List.mem_cons.mp hb with rfl | hb
  · exact hbefore a ha
  · exact h₁₂ a ha b hb

/-- Unless the leaf is the last one, a cell stands behind the new one. -/
theorem Place.sameEnd (hp : Place s row p c₁ c₂ fs) (hr : ¬ Rightmost fs) : SameEnd (c₁ ++ c₂) (c₁ ++ row :: c₂) := by
  obtain ⟨hne, hle⟩ := hp.belongs.last.resolve_left hr
  rw [Part.maxKey, rows_leaf] at hle
  rw [rows_leaf] at hne
  have hc₂ : c₂ ≠ [] := by
    rintro rfl
    obtain ⟨c, hc, hck⟩ := lastKey_mem hne
    rw [List.append_nil] at hc
    have := hp.left c hc
    omega
  refine ⟨hne, List.append_ne_nil_of_right_ne_nil _ (List.cons_ne_nil _ _), ?_⟩
  rw [lastKey_append _ (List.cons_ne_nil _ _), lastKey_append _ hc₂]
  exact lastKey_append [row] hc₂

/-! ## A leaf with room -/

theorem Place.apart (hp : Place s row p c₁ c₂ fs) : ∀ q ∈ outer fs, q ≠ p := fun _ hq hn =>
  (List.nodup_cons.mp hp.nodup).1 (hn ▸ hq)

/-- The tree with the row in the leaf. -/
theorem Place.put (hp : Place s row p c₁ c₂ fs) (hn : SameHead (s.node p) n) (htype : n.nodeType = .leaf)
    (hc : n.cells = c₁ ++ row :: c₂) : WellFormed (s.put p n) fs.length (plug (Part.leaf p (c₁ ++ row :: c₂)) fs) := by
  have hout : ∀ q ∈ outer fs, (s.put p n).node q = s.node q := fun q hq => put_node_of_ne (hp.apart q hq)
  have habove : Above s 0 (Part.leaf p (c₁ ++ row :: c₂)) fs := hp.around.replace rfl fun hr => by
    rw [rows_leaf, rows_leaf]
    exact hp.sameEnd hr
  have ha : Above (s.put p n) 0 (Part.leaf p (c₁ ++ row :: c₂)) fs := by
    refine habove.congr (List.nodup_cons.mp hp.nodup).2 hout rfl ?_ ?_
    · show ((s.put p n).node p).parent = (s.node p).parent
      rw [put_node_same, hn.parent]
    · show ((s.put p n).node p).isRoot = (s.node p).isRoot
      rw [put_node_same, hn.isRoot]
  have hsub : Sub (s.put p n) 0 (Part.leaf p (c₁ ++ row :: c₂)) := by
    refine ⟨?_, ?_⟩
    · show ((s.put p n).node p).nodeType = .leaf
      rw [put_node_same, htype]
    · show _ = Part.leaf p ((s.put p n).node p).cells
      rw [put_node_same, hc]
  obtain ⟨hs, hpage, hflag⟩ := ha.plug hsub
  rw [Nat.zero_add] at hs
  refine ⟨hs, hpage, hflag, ?_, ?_, (plug_pages _ fs).nodup_iff.mpr hp.nodup⟩
  · rw [plug_leaf_rows]
    exact hp.sorted_insert
  · have hleaves : (plug (Part.leaf p (c₁ ++ row :: c₂)) fs).leaves.map Prod.fst =
        (plug (Part.leaf p (c₁ ++ c₂)) fs).leaves.map Prod.fst := by
      rw [plug_leaves, plug_leaves]
      simp only [List.map_append, Part.leaf, List.map_cons]
    rw [hleaves]
    obtain ⟨a, hch⟩ := hp.chained
    refine ⟨a, hch.congr fun q _ => ?_⟩
    by_cases hq : q = p
    · rw [hq, put_node_same, hn.nextLeaf]
    · rw [put_node_of_ne hq]

/-! ## A leaf without room -/

omit [Cell C] in
theorem insertIdx_append (c₁ c₂ : List C) (row : C) : (c₁ ++ c₂).insertIdx c₁.length row = c₁ ++ row :: c₂ := by
  induction c₁ with
  | nil => rfl
  | cons c c₁ ih =>
    rw [List.cons_append, List.length_cons, List.insertIdx_succ_cons, ih]
    rfl

/-- The two halves of a leaf, seen from the store before. -/
structure LeafSplit (s u : Store C) (p w : Nat) (l r : List C) (j : Nat) : Prop where
  new : ¬ Taken s w ∧ Taken u w
  taken : ∀ q, Taken s q → Taken u q
  allocates : Allocates u j
  root : u.rootPageNum = s.rootPageNum
  left : (u.node p).nodeType = .leaf ∧ (u.node p).cells = l
  leftHead : (u.node p).parent = (s.node p).parent ∧ (u.node p).isRoot = (s.node p).isRoot ∧ (u.node p).nextLeaf = w
  right : (u.node w).nodeType = .leaf ∧ (u.node w).cells = r
  rightHead : (u.node w).isRoot = false ∧ (u.node w).nextLeaf = (s.node p).nextLeaf
  rest : ∀ q, Taken s q → q ≠ p → u.node q = s.node q

/-- The old page with its half. -/
def leftHalf (n : Node C) (l : List C) (w : Nat) : Node C :=
  { n.initializeLeafNode with isRoot := n.isRoot, nextLeaf := w, cells := l, freeSpace := Node.packed l }

/-- The new page, on which `n'` was, with its half. -/
def rightHalf (n n' : Node C) (r : List C) : Node C :=
  { n'.initializeLeafNode with parent := n.parent, nextLeaf := n.nextLeaf, cells := r, freeSpace := Node.packed r }

theorem divideCells_eq {s₁ : Store C} (hfresh : Fresh s w s₁ j) (hc : (s.node p).cells = c₁ ++ c₂) (ht : Taken s p)
    {i : Nat} (hi : i = (c₁ ++ row :: c₂).length / 2) (hl : HalfFits ((c₁ ++ row :: c₂).take i))
    (hr : HalfFits ((c₁ ++ row :: c₂).drop i)) :
    ∃ u, s₁.divideCells p w c₁.length row = some u ∧
      LeafSplit s u p w ((c₁ ++ row :: c₂).take i) ((c₁ ++ row :: c₂).drop i) j := by
  have hwp : w ≠ p := fun hn => hfresh.new (hn ▸ ht)
  have hp₁ : s₁.node p = s.node p := hfresh.node p hwp.symm
  have hpt : Taken (s₁.getPage w) p := hfresh.keeps p ht
  refine ⟨(((s₁.getPage w).put w { (s₁.node w).initializeLeafNode with
    parent := (s.node p).parent, nextLeaf := (s.node p).nextLeaf }).put p
      (leftHalf (s.node p) ((c₁ ++ row :: c₂).take i) w)).put w
        (rightHalf (s.node p) (s₁.node w) ((c₁ ++ row :: c₂).drop i)), ?_, ?_⟩
  · rw [divideCells]
    dsimp only
    rw [modify_getPage, put_node_of_ne hwp.symm, getPage_node, hp₁, hc, insertIdx_append, ← hi,
      if_neg (not_or.mpr ⟨not_not.mpr hl, not_not.mpr hr⟩), modify_of_taken (taken_put.mpr hpt),
      modify_of_taken (taken_put.mpr (taken_put.mpr hfresh.taken)), put_node_of_ne hwp.symm, getPage_node, hp₁,
      put_node_of_ne hwp, put_node_same]
    rfl
  · refine ⟨⟨hfresh.new, hfresh.taken⟩, hfresh.keeps, hfresh.allocates.put.put.put, hfresh.root, ?_, ?_, ?_, ?_,
      fun q hq hqp => ?_⟩
    · rw [put_node_of_ne hwp.symm, put_node_same]
      exact ⟨rfl, rfl⟩
    · rw [put_node_of_ne hwp.symm, put_node_same]
      exact ⟨rfl, rfl, rfl⟩
    · rw [put_node_same]
      exact ⟨rfl, rfl⟩
    · rw [put_node_same]
      exact ⟨rfl, rfl⟩
    · have hqw : q ≠ w := fun hn => hfresh.new (hn ▸ hq)
      rw [put_node_of_ne hqw, put_node_of_ne hqp, put_node_of_ne hqw, getPage_node, hfresh.node q hqw]

theorem leafNodeSplitAndInsert_eq (htype : (s.node p).nodeType = .leaf) (hc : (s.node p).cells = c₁ ++ c₂)
    (ht : Taken s p) (ha : Allocates s (j + 1)) (hd : 0 < d) {i : Nat} (hi : i = (c₁ ++ row :: c₂).length / 2)
    (hl : HalfFits ((c₁ ++ row :: c₂).take i)) (hr : HalfFits ((c₁ ++ row :: c₂).drop i)) (e : Bool) :
    ∃ u w, LeafSplit s u p w ((c₁ ++ row :: c₂).take i) ((c₁ ++ row :: c₂).drop i) j ∧
      s.leafNodeSplitAndInsert d ⟨p, c₁.length, e⟩ row =
        if (s.node p).isRoot then u.createNewRoot d w
        else internalNodeInsert d d (u.modify (s.node p).parent fun n =>
          n.updateInternalNodeKey (Node.lastKey (c₁ ++ c₂)) (Node.lastKey ((c₁ ++ row :: c₂).take i)))
          (s.node p).parent w := by
  have hfresh := getUnusedPageNum_fresh ha
  obtain ⟨w, s₁, hget⟩ : ∃ w s₁, s.getUnusedPageNum = (w, s₁) := ⟨_, _, rfl⟩
  rw [hget] at hfresh
  dsimp only at hfresh
  obtain ⟨u, hu, hsp⟩ := divideCells_eq hfresh hc ht hi hl hr
  obtain ⟨d, rfl⟩ := Nat.exists_eq_succ_of_ne_zero (Nat.ne_of_gt hd)
  have hold : s.getNodeMaxKey (d + 1) p = some (Node.lastKey (c₁ ++ c₂)) := by
    rw [Store.getNodeMaxKey, htype, hc]
  have hnew : u.getNodeMaxKey (d + 1) p = some (Node.lastKey ((c₁ ++ row :: c₂).take i)) := by
    rw [Store.getNodeMaxKey, hsp.left.1, hsp.left.2]
  refine ⟨u, w, hsp, ?_⟩
  rw [leafNodeSplitAndInsert]
  dsimp only
  rw [hold, hget]
  simp only [Option.bind_eq_bind, Option.bind_some]
  rw [hu]
  simp only [Option.bind_some]
  rw [hsp.leftHead.1, hsp.leftHead.2.1, hnew]
  rfl

omit [Cell C] in
theorem ends_leaf {l : List C} (hl : l ≠ []) (p : Nat) : (Part.leaf p l).Ends := hl

omit [Cell C] in
theorem leaf_page (p : Nat) (l : List C) : (Part.leaf p l).page = p := rfl

/-- The old pages, and the new page among them, in the chain. -/
theorem LeafSplit.chained {u v : Store C} {l r : List C} (hsp : LeafSplit s u p w l r j) (hp : Place s row p c₁ c₂ fs)
    (hv : ∀ q, Taken u q → (v.node q).nextLeaf = (u.node q).nextLeaf) :
    Chained v ((before fs).map Prod.fst ++ p :: w :: (after fs).map Prod.fst) := by
  obtain ⟨a, hch⟩ := hp.chained
  have hone : (Part.leaf p (c₁ ++ c₂)).leaves.map Prod.fst = [p] := rfl
  rw [plug_leaves, List.map_append, List.map_append, hone, List.append_assoc, List.singleton_append] at hch
  have hpt : Taken s p := hp.taken p (List.mem_cons_self ..)
  refine ⟨a, hch.insert hsp.new.2.1 ?_ ?_ fun q hq => ?_⟩
  · rw [hv p (hsp.taken p hpt), hsp.leftHead.2.2]
  · rw [hv w hsp.new.2, hsp.rightHead.2]
  · have hq : q ∈ outer fs := by
      rw [← List.map_append] at hq
      obtain ⟨x, hx, rfl⟩ := List.mem_map.mp hq
      exact hp.around.leaf_pages x hx
    have hqt := hp.taken q (List.mem_cons_of_mem _ hq)
    rw [hv q (hsp.taken q hqt), hsp.rest q hqt (hp.apart q hq)]

/-- The leaf is the root. -/
theorem Place.split_root {u : Store C} {l r : List C} (hp : Place s row p c₁ c₂ []) (hsp : LeafSplit s u p w l r (j + 1))
    (hlr : l ++ r = c₁ ++ row :: c₂) (hl : l ≠ []) (hd : 0 < d) :
    ∃ v t, u.createNewRoot d w = some v ∧ WellFormed v 1 t ∧ t.rows = c₁ ++ row :: c₂ := by
  have hpt : Taken s p := hp.taken p (List.mem_cons_self ..)
  have hpr : p = u.rootPageNum := hp.around.1.trans hsp.root.symm
  have hwp : w ≠ p := fun hn => hsp.new.1 (hn ▸ hpt)
  have hchain : Chained s ([] ++ [p]) := hp.chained
  have hnext : (s.node p).nextLeaf = 0 := hchain.last
  subst hpr
  obtain ⟨o, v, hv, hrd⟩ := createNewRoot_leaf hsp.left.1 (hsp.taken _ hpt) hsp.new.2 hwp hsp.allocates hd
  rw [hsp.left.2] at hrd
  have hoT : ¬ Taken u o := hrd.new
  have how : o ≠ w := fun hn => hoT (hn ▸ hsp.new.2)
  have hop : o ≠ u.rootPageNum := fun hn => hoT (hn ▸ hsp.taken _ hpt)
  have hrows : (Part.join u.rootPageNum [Part.leaf o l, Part.leaf w r]).rows = c₁ ++ row :: c₂ := by
    rw [rows_join, List.flatMap_cons, List.flatMap_singleton, rows_leaf, rows_leaf, hlr]
  refine ⟨v, Part.join u.rootPageNum [Part.leaf o l, Part.leaf w r], hv, ⟨?_, hrd.root.symm, hrd.head.1, ?_, ?_, ?_⟩,
    hrows⟩
  · refine ⟨[Part.leaf o l, Part.leaf w r], hrd.links _ _ rfl ?_ ?_ rfl, ?_, rfl, fun k hk => ?_⟩
    · rw [Part.maxKey, rows_leaf]
    · rw [rows_leaf]
      exact hl
    · rw [page_join, hrd.head.2.1]
      decide
    · rcases List.mem_cons.mp hk with rfl | hk
      · refine ⟨⟨?_, ?_⟩, ?_, ?_⟩ <;> rw [leaf_page, hrd.left]
        · exact hsp.left.1
        · rw [hsp.left.2]
        · rfl
      · obtain rfl := List.mem_singleton.mp hk
        refine ⟨⟨?_, ?_⟩, ?_, ?_⟩ <;> rw [leaf_page, hrd.right]
        · exact hsp.right.1
        · exact congrArg (Part.leaf w) hsp.right.2.symm
        · rfl
        · exact hsp.rightHead.1
  · rw [hrows]
    simpa only [rowsBefore, rowsAfter, before, after, List.flatMap_nil, List.nil_append, List.append_nil] using
      hp.sorted_insert
  · refine ⟨o, rfl, (hrd.taken o (Or.inr rfl)).1, ?_⟩
    dsimp only
    rw [hrd.left, hsp.leftHead.2.2]
    refine ⟨rfl, hsp.new.2.1, ?_⟩
    show (v.node w).nextLeaf = 0
    rw [hrd.right]
    exact hsp.rightHead.2.trans hnext
  · refine List.nodup_cons.mpr ⟨fun hn => ?_, List.nodup_cons.mpr ⟨fun hn => ?_, List.nodup_singleton w⟩⟩
    · rcases List.mem_cons.mp hn with hn | hn
      · exact hop hn.symm
      · exact hwp (List.mem_singleton.mp hn).symm
    · exact how (List.mem_singleton.mp hn)

/-- The leaf is below the frame `f`. -/
theorem Place.split_below {u : Store C} {l r : List C} (hp : Place s row p c₁ c₂ (f :: fs))
    (hsp : LeafSplit s u p w l r (fs.length + 2)) (hlr : l ++ r = c₁ ++ row :: c₂) (hl : l ≠ []) (hr : r ≠ [])
    (hne : c₁ ++ c₂ ≠ []) (hf : Filled (f :: fs)) (hd : fs.length + 1 < d) :
    ∃ v h t, internalNodeInsert d d (u.modify f.page fun n =>
        n.updateInternalNodeKey (Node.lastKey (c₁ ++ c₂)) (Node.lastKey l)) f.page w = some v ∧ WellFormed v h t ∧
      t.rows = rowsBefore c₁ (f :: fs) ++ row :: rowsAfter c₂ (f :: fs) := by
  have hpt : Taken s p := hp.taken p (List.mem_cons_self ..)
  have hrows : (Part.join f.page (f.left ++ Part.leaf p l :: Part.leaf w r :: f.right)).rows =
      (f.fill (Part.leaf p (c₁ ++ row :: c₂))).rows := by
    rw [rows_fill, rows_leaf, ← hlr, rows_join]
    simp only [List.flatMap_append, List.flatMap_cons, rows_leaf, List.append_assoc]
  have hsorted : Sorted (plug (Part.join f.page (f.left ++ Part.leaf p l :: Part.leaf w r :: f.right)) fs).rows := by
    have hs := hp.sorted_insert
    rw [← rowsAfter_cons, ← plug_leaf_rows p, plug, plug_rows] at hs
    rw [plug_rows, hrows]
    exact hs
  have hsep : Separated s u 0 (Part.leaf p (c₁ ++ c₂)) (Part.leaf p l) (Part.leaf w r) f fs
      (Node.lastKey (c₁ ++ c₂)) := by
    refine ⟨hp.around, rfl, ⟨⟨hsp.left.1, ?_⟩, ⟨hsp.right.1, ?_⟩⟩, ⟨ends_leaf hl p, ends_leaf hr w⟩,
      ⟨hsp.leftHead.1, hsp.leftHead.2.1⟩, hsp.rightHead.1, fun q hq => ?_, hsp.root, ?_, fun q hq => ?_, hsorted,
      fun hr => ?_, ?_⟩
    · rw [leaf_page, hsp.left.2]
    · rw [leaf_page, hsp.right.2]
    · exact hsp.rest q (hp.taken q (List.mem_cons_of_mem _ hq)) (hp.apart q hq)
    · have hperm : ((Part.leaf p l).pages ++ (Part.leaf w r).pages ++ outer (f :: fs)).Perm
          (w :: p :: outer (f :: fs)) := List.Perm.swap ..
      exact hperm.nodup_iff.mpr (List.nodup_cons.mpr ⟨fun hn => hsp.new.1 (hp.taken w hn), hp.nodup⟩)
    · rcases List.mem_cons.mp hq with rfl | hq
      · exact hsp.taken q hpt
      · rcases List.mem_cons.mp hq with rfl | hq
        · exact hsp.new.2
        · exact hsp.taken q (hp.taken q (List.mem_cons_of_mem _ hq))
    · rw [hrows, rows_fill, rows_fill, rows_leaf, rows_leaf]
      refine (hp.sameEnd fun hn => hr fun g hg => hn g (List.mem_cons_of_mem _ hg)).append _ _
    · obtain ⟨c, hc, hck⟩ := lastKey_mem hne
      rw [hck]
      refine find_above hp.around hp.sorted ?_
      rwa [rows_leaf]
  have hft : Taken u f.page := hsp.taken _ (hp.taken _ (List.mem_cons_of_mem _ (List.mem_cons_self ..)))
  have hpend := hsep.pending
  rw [Part.maxKey, rows_leaf] at hpend
  have hd₀ : 0 + fs.length + 1 < d := by omega
  obtain ⟨v, h', t, hins, hg⟩ := hpend.insert hf hsp.allocates.put hd₀ (show fs.length + 2 ≤ d by omega)
  have hleaves : t.leaves = before (f :: fs) ++ (p, l) :: (w, r) :: after (f :: fs) := by
    rw [hg.leaves, plug_leaves, before, after]
    simp only [Part.join, Part.leaf, List.flatMap_append, List.flatMap_cons, List.append_assoc, List.cons_append,
      List.nil_append]
  have hrowst : t.rows = rowsBefore c₁ (f :: fs) ++ row :: rowsAfter c₂ (f :: fs) := by
    rw [Part.rows, hleaves, rowsBefore, rowsAfter, List.flatMap_append, List.flatMap_cons, List.flatMap_cons,
      ← List.append_assoc l, hlr]
    simp only [List.append_assoc, List.cons_append]
  refine ⟨v, h', t, ?_, ⟨hg.sub, hg.root, hg.isRoot, ?_, ?_, hg.nodup⟩, hrowst⟩
  · rw [modify_of_taken hft]
    exact hins
  · rw [hrowst]
    exact hp.sorted_insert
  · rw [hleaves]
    simp only [List.map_append, List.map_cons]
    refine hsp.chained hp fun q hq => (hg.keeps.nextLeaf q hq).trans ?_
    by_cases hqf : q = f.page
    · rw [hqf, put_node_same]
      rfl
    · rw [put_node_of_ne hqf]

end Tree

end CustomDB
