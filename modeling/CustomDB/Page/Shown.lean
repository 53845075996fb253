import CustomDB.Page.Search
import CustomDB.Page.SlottedSpec
import CustomDB.Tree.Lookup

/-!
# The pages of a tree

The tree of `CustomDB.Tree` keeps the cells of a node as a list; `btree.c` keeps them in the bytes of a page. `Shows`
says when a page has the bytes of a node, for a column 0 of type INT. Where every page of a search tree shows its node,
the descent over the bytes takes the path that the tree has, and a lookup finds the bytes of the row.
-/

namespace CustomDB

namespace Page

open Lib.Bisect Lib.Bytes Lib.Memory

variable {ops : WhereOps} {m m' : Mem} {pages : Nat → Mem} {i : Nat} {v : Value}

/-- A cell of a table whose column 0 is an INT: its bytes, and the number that is read off them wherever they lie. -/
structure PageCell (ops : WhereOps) where
  bytes : List UInt8
  col0 : BitVec 32
  reads : ∀ m a, read m a bytes.length = bytes →
    (extractCol0FromPackedRecord ops.toFloatOps .int m a bytes.length).1.intVal = col0

instance : Tree.Cell (PageCell ops) := ⟨fun c => c.col0.toInt, fun c => c.bytes.length⟩

/-- The page of a leaf. -/
structure ShowsLeaf (m : Mem) (n : Tree.Node (PageCell ops)) : Prop where
  type : IsLeaf m
  layout : Layout m
  cells : cells m = n.cells.map PageCell.bytes
  nextLeaf : leafNodeNextLeaf m = n.nextLeaf
  freeSpace : leafNodeFreeSpace m = n.freeSpace

/-- The page of an inner node. What lies behind its keys does not matter. -/
structure ShowsInner (m : Mem) (n : Tree.Node (PageCell ops)) : Prop where
  type : IsInternal m
  numKeys : internalNodeNumKeys m = n.numKeys
  rightChild : internalNodeRightChild m = n.rightChild
  slot : ∀ i < n.numKeys, u32 m (internalNodeCell i) = (n.slots i).1 ∧
    (rawInt (internalNodeKey m i)).toInt = (n.slots i).2

/-- The page of a node. -/
structure Shows (m : Mem) (n : Tree.Node (PageCell ops)) : Prop where
  isRoot : isNodeRoot m = n.isRoot
  parent : nodeParent m = n.parent
  leaf : n.nodeType = .leaf → ShowsLeaf m n
  inner : n.nodeType = .internal → ShowsInner m n

variable {n : Tree.Node (PageCell ops)} {s : Tree.Store (PageCell ops)} {h d : Nat} {t : Tree.Part (PageCell ops)}

/-! ## Inner nodes -/

theorem ShowsInner.child (hm : ShowsInner m n) (i : Nat) : internalNodeChild m i = n.internalNodeChild i := by
  rw [internalNodeChild, Tree.Node.internalNodeChild, hm.numKeys]
  split
  · rfl
  · split
    · rw [hm.rightChild]
    · rw [(hm.slot i (by omega)).1]

/-- The bytes of a key, and its number. -/
structure KeyOf (raw : List UInt8) (key : Int) : Prop where
  length : raw.length = internalNodeKeySize
  number : (rawInt raw).toInt = key

theorem keyOf_col0 (v : Value) : KeyOf (rawCol0Key .int v) v.intVal.toInt := by
  refine ⟨?_, congrArg BitVec.toInt (rawInt_keyBuf v.intVal)⟩
  rw [rawCol0Key, keyBuf, List.length_append, List.length_replicate, length_leBytes]
  rfl

theorem ShowsInner.findChild (hm : ShowsInner m n) {raw : List UInt8} {key : Int} (hk : KeyOf raw key) :
    internalNodeFindChild ops .int m raw = n.internalNodeFindChild key := by
  rw [internalNodeFindChild, if_pos rfl, internalNodeFindChildInt, Tree.Node.internalNodeFindChild, hm.numKeys]
  refine lowerBound_congr fun i hi => ?_
  rw [← (hm.slot i hi).2, ← hk.number]
  rfl

/-! ## Leaves -/

theorem ShowsLeaf.numCells (hm : ShowsLeaf m n) : leafNodeNumCells m = n.cells.length := by
  rw [← length_cells, hm.cells, List.length_map]

/-- The bytes of a cell. -/
theorem ShowsLeaf.cellOf_eq (hm : ShowsLeaf m n) {c : PageCell ops} (hc : n.cells[i]? = some c) :
    cellOf m (leafNodeSlot m i) = c.bytes := by
  have hi : i < leafNodeNumCells m := by
    rw [hm.numCells]
    exact (List.getElem?_eq_some_iff.mp hc).1
  have hcell := getElem?_cells hi
  rw [hm.cells, List.getElem?_map, hc] at hcell
  exact (Option.some.inj hcell).symm

/-- The number of a cell. -/
theorem ShowsLeaf.col0 (hm : ShowsLeaf m n) {c : PageCell ops} (hc : n.cells[i]? = some c) :
    (cellCol0 ops .int m i).intVal = c.col0 := by
  have hbytes := hm.cellOf_eq hc
  have hsize : (leafNodeSlot m i).size = c.bytes.length := by rw [← hbytes, length_cellOf]
  rw [cellCol0, hsize]
  refine c.reads m _ ?_
  rw [← hsize]
  exact hbytes

theorem ShowsLeaf.find (hm : ShowsLeaf m n) (v : Value) :
    leafNodeFind ops .int m (rawCol0Key .int v) = n.leafNodeFind v.intVal.toInt := by
  rw [leafNodeFind, if_pos rfl, leafNodeFindInt, Tree.Node.leafNodeFind, hm.numCells]
  refine lowerBound_congr fun i hi => ?_
  have hc := List.getElem?_eq_getElem hi
  rw [hm.col0 hc, List.getD_eq_getElem?_getD, List.getElem?_map, hc]
  exact congrArg (BitVec.slt _) (rawInt_keyBuf v.intVal)

/-- The leaf behind a leaf, where there is one, is shown too. -/
def NextShown (pages : Nat → Mem) (s : Tree.Store (PageCell ops)) (p : Nat) : Prop :=
  (s.node p).nextLeaf = 0 ∨ ShowsLeaf (pages (s.node p).nextLeaf) (s.node (s.node p).nextLeaf)

theorem navigate_shown {p : Nat} (hm : ShowsLeaf (pages p) (s.node p)) (hnext : NextShown pages s p) (v : Value) :
    leafNodeNavigate ops .int pages p (rawCol0Key .int v) = s.leafNodeNavigate p v.intVal.toInt := by
  rw [leafNodeNavigate, Tree.Store.leafNodeNavigate]
  dsimp only
  rw [hm.find v, hm.numCells, hm.nextLeaf]
  split
  · split
    · rfl
    · next hne =>
      have hshown := hnext.resolve_left hne
      rw [hshown.numCells]
      cases (s.node (s.node p).nextLeaf).cells <;> rfl
  · rfl

/-- The page a search ends on is shown. -/
theorem navigate_page {p : Nat} (hm : ShowsLeaf (pages p) (s.node p)) (hnext : NextShown pages s p) (key : Int) :
    ShowsLeaf (pages (s.leafNodeNavigate p key).pageNum) (s.node (s.leafNodeNavigate p key).pageNum) := by
  rw [Tree.Store.leafNodeNavigate]
  dsimp only
  split
  · split
    · exact hm
    · next hne => exact hnext.resolve_left hne
  · exact hm

/-! ## The descent -/

/-- Every page of the subtree shows its node. -/
def AllShown (pages : Nat → Mem) (s : Tree.Store (PageCell ops)) (t : Tree.Part (PageCell ops)) : Prop :=
  ∀ p ∈ t.pages, Shows (pages p) (s.node p)

theorem AllShown.kid {p : Nat} {kids : List (Tree.Part (PageCell ops))} {k : Tree.Part (PageCell ops)}
    (hp : AllShown pages s (Tree.Part.join p kids)) (hk : k ∈ kids) : AllShown pages s k :=
  fun q hq => hp q (List.mem_cons_of_mem _ (List.mem_flatMap.mpr ⟨k, hk, hq⟩))

theorem AllShown.leaf (hp : AllShown pages s t) (hs : Tree.Guided s h t) {x : Nat × List (PageCell ops)}
    (hx : x ∈ t.leaves) : ShowsLeaf (pages x.1) (s.node x.1) :=
  (hp x.1 (hs.leaf_pages x hx)).leaf (hs.leaf_cells x hx).1

theorem find_shown (hs : Tree.Guided s (h + 1) t) (hd : h < d) (hp : AllShown pages s t)
    (hnext : ∀ x ∈ t.leaves, NextShown pages s x.1) (v : Value) :
    internalNodeFind ops .int pages d t.page (rawCol0Key .int v) = s.internalNodeFind d t.page v.intVal.toInt := by
  induction h generalizing t d with
  | zero =>
    obtain ⟨d, rfl⟩ := Nat.exists_eq_succ_of_ne_zero (Nat.ne_of_gt hd)
    obtain ⟨kids, seps, hf, ht, hk⟩ := hs
    obtain ⟨k, hm, hchild, -⟩ := hf.step v.intVal.toInt
    have hinner := (hp t.page (by rw [ht]; exact List.mem_cons_self)).inner hf.nodeType
    obtain ⟨htype, hleaf⟩ := (hk k hm).1
    rw [ht] at hp hnext
    have hx : (k.page, (s.node k.page).cells) ∈ k.leaves := by
      rw [hleaf]
      exact List.mem_singleton_self _
    have hshown := (hp.kid hm).leaf (hk k hm).1 hx
    rw [internalNodeFind, Tree.Store.internalNodeFind, hinner.findChild (keyOf_col0 v), hinner.child, hchild]
    simp only [Option.bind_eq_bind, Option.bind_some]
    rw [if_pos hshown.type, htype]
    exact congrArg some (navigate_shown hshown (hnext _ (List.mem_flatMap.mpr ⟨k, hm, hx⟩)) v)
  | succ h ih =>
    obtain ⟨d, rfl⟩ := Nat.exists_eq_succ_of_ne_zero (Nat.ne_of_gt (lt_of_le_of_lt (Nat.zero_le _) hd))
    obtain ⟨kids, seps, hf, ht, hk⟩ := hs
    obtain ⟨k, hm, hchild, -⟩ := hf.step v.intVal.toInt
    have hinner := (hp t.page (by rw [ht]; exact List.mem_cons_self)).inner hf.nodeType
    rw [ht] at hp hnext
    have htype : (s.node k.page).nodeType = .internal := by
      obtain ⟨_, _, hfk, _⟩ := (hk k hm).1
      exact hfk.nodeType
    have hkid := (hp.kid hm k.page (hk k hm).1.page_mem).inner htype
    have hrest := ih (hk k hm).1 (Nat.lt_of_succ_lt_succ hd) (hp.kid hm)
      fun x hx => hnext x (List.mem_flatMap.mpr ⟨k, hm, hx⟩)
    rw [internalNodeFind, Tree.Store.internalNodeFind, hinner.findChild (keyOf_col0 v), hinner.child, hchild]
    simp only [Option.bind_eq_bind, Option.bind_some]
    rw [if_neg fun hl => not_isInternal hl hkid.type, if_pos hkid.type, htype]
    exact hrest

/-- The leaves of a search tree are chained, so the next leaf is shown too. -/
theorem AllShown.next (hw : Tree.SearchTree s h t) (hp : AllShown pages s t) {x : Nat × List (PageCell ops)}
    (hx : x ∈ t.leaves) : NextShown pages s x.1 := by
  obtain ⟨l₁, l₂, hl⟩ := List.append_of_mem hx
  have hchain := hw.chained
  rw [hl, List.map_append, List.map_cons] at hchain
  rcases Tree.Chained.next_leaf hchain with ⟨-, hzero⟩ | ⟨l, hnext, -⟩
  · exact Or.inl hzero
  obtain ⟨y, l₃, rfl, hy, -⟩ := List.map_eq_cons_iff.mp hnext
  refine Or.inr ?_
  rw [← hy]
  exact hp.leaf hw.guided (by rw [hl]; exact List.mem_append_right _ (List.mem_cons_of_mem _ List.mem_cons_self))

/-- `btree_find` over the bytes is `btree_find` over the nodes. -/
theorem btreeFind_shown (hw : Tree.SearchTree s h t) (hd : h < d) (hp : AllShown pages s t) (v : Value) :
    btreeFind ops .int pages d s.rootPageNum v = s.btreeFind d v.intVal.toInt := by
  have hs := hw.guided
  cases h with
  | zero =>
    have hx : (t.page, (s.node t.page).cells) ∈ t.leaves := by
      rw [hs.2]
      exact List.mem_singleton_self _
    have hshown := hp.leaf hs hx
    rw [btreeFind, Tree.Store.btreeFind, ← hw.root, hs.1]
    dsimp only
    rw [if_pos hshown.type, navigate_shown hshown (hp.next hw hx) v]
  | succ h =>
    obtain ⟨_, _, hf, _⟩ := id hs
    have hinner := (hp t.page hs.page_mem).inner hf.nodeType
    rw [btreeFind, Tree.Store.btreeFind, ← hw.root, hf.nodeType]
    dsimp only
    rw [if_neg fun hl => not_isInternal hl hinner.type]
    exact find_shown hs (lt_trans (Nat.lt_succ_self h) hd) hp (fun x hx => hp.next hw hx) v

/-! ## Lookups -/

/-- The bytes of the cell that `btree_find` comes to, where its column 0 is the key. -/
def lookup (ops : WhereOps) (pages : Nat → Mem) (depth root : Nat) (keyValue : Value) : Option (List UInt8) := do
  let cur ← btreeFind ops .int pages depth root keyValue
  let node := pages cur.pageNum
  if cur.endOfTable || leafNodeNumCells node ≤ cur.cellNum then none
  else if (cellCol0 ops .int node cur.cellNum).intVal = keyValue.intVal then some (cellOf node (leafNodeSlot node cur.cellNum))
  else none

/-- A lookup over the bytes is one over the nodes. -/
theorem lookup_shown (hw : Tree.SearchTree s h t) (hd : h < d) (hp : AllShown pages s t) (v : Value) :
    lookup ops pages d s.rootPageNum v = (s.lookup d v.intVal.toInt).map PageCell.bytes := by
  obtain ⟨x, hx, hfind, -⟩ := hw.descend hd v.intVal.toInt
  have hpage := navigate_page (hp.leaf hw.guided hx) (hp.next hw hx) v.intVal.toInt
  rw [lookup, btreeFind_shown hw hd hp v, Tree.Store.lookup, hfind]
  generalize s.leafNodeNavigate x.1 v.intVal.toInt = cur at hpage
  simp only [Option.bind_eq_bind, Option.bind_some]
  rw [Tree.Store.rowAt, hpage.numCells]
  by_cases hend : cur.endOfTable = true
  · rw [hend]
    rfl
  · rw [if_neg hend]
    simp only [Bool.eq_false_of_not_eq_true hend, Bool.false_or, decide_eq_true_eq]
    by_cases hlen : (s.node cur.pageNum).cells.length ≤ cur.cellNum
    · rw [if_pos hlen, List.getElem?_eq_none hlen]
      rfl
    · have hc := List.getElem?_eq_getElem (not_le.mp hlen)
      rw [if_neg hlen, hpage.col0 hc, hpage.cellOf_eq hc, hc, Option.filter_some]
      generalize (s.node cur.pageNum).cells[cur.cellNum] = c
      have hkey : (decide (Tree.Cell.key c = v.intVal.toInt)) = decide (c.col0 = v.intVal) :=
        decide_eq_decide.mpr BitVec.toInt_inj
      rw [hkey]
      by_cases he : c.col0 = v.intVal
      · rw [if_pos he, decide_eq_true he]
        rfl
      · rw [if_neg he, decide_eq_false he]
        rfl

end Page

end CustomDB
