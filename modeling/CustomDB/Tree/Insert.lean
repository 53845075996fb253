import CustomDB.Tree.Store

/-!
# Inserting a cell

`btree_insert` from the cursor on, for a row that stays inline. The recursion of `internal_node_insert` and
`internal_node_split_and_insert` climbs the parent pointers; `depth` bounds it and every descent. `none` is an
`exit`, or a level too many.
-/

namespace CustomDB

namespace Tree

variable {C : Type} [Cell C]

namespace Store

/-! ## A new root -/

/-- The loop that makes page `p` the parent of its children. -/
def adoptChildren (s : Store C) (p : Nat) : Option (Store C) :=
  (List.range ((s.node p).numKeys + 1)).foldlM (fun s i => do
    let child ← (s.node p).internalNodeChild i
    return s.setParent child p) s

/-- The first part of `create_new_root`: the root's content moves to page `left`. -/
def copyRoot (s : Store C) (left right : Nat) : Option (Store C) :=
  let root := s.rootPageNum
  let s := if (s.node root).nodeType = .internal then
    (s.modify right Node.initializeInternalNode).modify left Node.initializeInternalNode else s
  let s := s.modify left fun _ => { s.node root with isRoot := false }
  if (s.node left).nodeType = .internal then s.adoptChildren left else some s

/-- The second part: the root becomes an inner node over the two pages. -/
def rootOver (s : Store C) (depth left right : Nat) : Option (Store C) := do
  let root := s.rootPageNum
  let s := s.modify root fun n =>
    let n := n.initializeInternalNode
    { n with isRoot := true, numKeys := 1, slots := Function.update n.slots 0 (left, (n.slots 0).2) }
  let lmax ← s.getNodeMaxKey depth left
  let s := s.modify root fun n =>
    { n with slots := Function.update n.slots 0 ((n.slots 0).1, lmax), rightChild := right }
  return (s.setParent left root).setParent right root

/-- `create_new_root`. -/
def createNewRoot (s : Store C) (depth rightChildPage : Nat) : Option (Store C) := do
  let s := s.getPage rightChildPage
  let (leftPage, s) := s.getUnusedPageNum
  let s ← (s.getPage leftPage).copyRoot leftPage rightChildPage
  s.rootOver depth leftPage rightChildPage

end Store

/-! ## Inner nodes -/

/-- The cells from `idx` on, up to the cell `nk`, move one place to the right. -/
def shiftSlots (slots : Nat → Nat × Int) (idx nk : Nat) : Nat → Nat × Int :=
  fun i => if idx < i ∧ i ≤ nk then slots (i - 1) else slots i

namespace Store

/-- The loop of `internal_node_split_and_insert` over the cells `INTERNAL_NODE_MAX_KEYS / 2 + k`, the last first. -/
def moveCells (insert : Store C → Nat → Nat → Option (Store C)) (oldPage newPage : Nat) :
    Nat → Store C → Option (Store C)
  | 0, s => some s
  | k + 1, s => do
    let cur ← (s.node oldPage).internalNodeChild (internalNodeMaxKeys / 2 + (k + 1))
    let s ← insert s newPage cur
    let s := s.setParent cur newPage
    moveCells insert oldPage newPage k (s.modify oldPage fun n => { n with numKeys := n.numKeys - 1 })

/-- The first part of `internal_node_split_and_insert`: where the left half and the parent of both halves are. -/
def splitPages (s : Store C) (depth oldPage newPage : Nat) : Option (Store C × Nat × Nat) :=
  if (s.node oldPage).isRoot then do
    let s ← s.createNewRoot depth newPage
    let oldPage ← (s.node s.rootPageNum).internalNodeChild 0
    return (s, s.rootPageNum, oldPage)
  else
    return (s.modify newPage Node.initializeInternalNode, (s.node oldPage).parent, oldPage)

/-- The second part: the upper children move to the new node. -/
def moveHalf (insert : Store C → Nat → Nat → Option (Store C)) (s : Store C) (oldPage newPage : Nat) :
    Option (Store C) := do
  let curPage := (s.node oldPage).rightChild
  let s ← insert s newPage curPage
  let s := s.setParent curPage newPage
  let s := s.modify oldPage fun n => { n with rightChild := invalidPageNum }
  let s ← s.moveCells insert oldPage newPage (internalNodeMaxKeys - 1 - internalNodeMaxKeys / 2)
  let last ← (s.node oldPage).internalNodeChild ((s.node oldPage).numKeys - 1)
  return s.modify oldPage fun n => { n with rightChild := last, numKeys := n.numKeys - 1 }

/-- `internal_node_split_and_insert`, with `insert` for `internal_node_insert`. -/
def internalNodeSplitAndInsert (insert : Store C → Nat → Nat → Option (Store C)) (s : Store C)
    (depth parentPage childPage : Nat) : Option (Store C) := do
  let oldMax ← s.getNodeMaxKey depth parentPage
  let cmax ← s.getNodeMaxKey depth childPage
  let (newPage, s) := s.getUnusedPageNum
  let splittingRoot := (s.node parentPage).isRoot
  let (s, parent, oldPage) ← s.splitPages depth parentPage newPage
  let s ← s.moveHalf insert oldPage newPage
  let maxAfter ← s.getNodeMaxKey depth oldPage
  let s ← insert s (if cmax < maxAfter then oldPage else newPage) childPage
  let newOldMax ← s.getNodeMaxKey depth oldPage
  let s := s.modify parent fun n => n.updateInternalNodeKey oldMax newOldMax
  if splittingRoot then some s else insert s (s.node oldPage).parent newPage

/-- `internal_node_insert`, at most `fuel` levels up. -/
def internalNodeInsert (depth : Nat) : Nat → Store C → Nat → Nat → Option (Store C)
  | 0, _, _, _ => none
  | fuel + 1, s, parentPage, childPage => do
    let cmax ← s.getNodeMaxKey depth childPage
    let idx := (s.node parentPage).internalNodeFindChild cmax
    let nk := (s.node parentPage).numKeys
    let s := s.setParent childPage parentPage
    if internalNodeMaxKeys ≤ nk then
      internalNodeSplitAndInsert (internalNodeInsert depth fuel) s depth parentPage childPage
    else
      let rcp := (s.node parentPage).rightChild
      if rcp = invalidPageNum then
        return s.modify parentPage fun n => { n with rightChild := childPage }
      let s := s.modify parentPage fun n => { n with numKeys := n.numKeys + 1 }
      let rcmax ← s.getNodeMaxKey depth rcp
      if rcmax < cmax then
        return s.modify parentPage fun n =>
          { n with slots := Function.update n.slots nk (rcp, rcmax), rightChild := childPage }
      else
        return s.modify parentPage fun n =>
          { n with slots := Function.update (shiftSlots n.slots idx nk) idx (childPage, cmax) }

/-! ## Leaves -/

/-- The slots and cells of half a leaf stay apart on its page. -/
def HalfFits (cells : List C) : Prop :=
  leafNodeHeaderSize + cells.length * pageSlotSize + (cells.map Cell.size).sum ≤ pageSize

instance (cells : List C) : Decidable (HalfFits cells) := inferInstanceAs (Decidable (_ ≤ _))

/-- The first part of `leaf_node_split_and_insert`: the cells and the new one are divided between the two pages. A
half that does not fit would be written over its slots: that is left out. -/
def divideCells (s : Store C) (oldPage newPage cellNum : Nat) (newCell : C) : Option (Store C) :=
  let s := s.modify newPage fun n =>
    { n.initializeLeafNode with parent := (s.node oldPage).parent, nextLeaf := (s.node oldPage).nextLeaf }
  let tempCells := (s.node oldPage).cells.insertIdx cellNum newCell
  let lsplit := tempCells.length / 2
  if ¬ HalfFits (tempCells.take lsplit) ∨ ¬ HalfFits (tempCells.drop lsplit) then none
  else
    let s := s.modify oldPage fun n =>
      { n.initializeLeafNode with
        isRoot := n.isRoot
        nextLeaf := newPage
        cells := tempCells.take lsplit
        freeSpace := Node.packed (tempCells.take lsplit) }
    some (s.modify newPage fun n =>
      { n with cells := tempCells.drop lsplit, freeSpace := Node.packed (tempCells.drop lsplit) })

/-- `leaf_node_split_and_insert`. -/
def leafNodeSplitAndInsert (s : Store C) (depth : Nat) (cursor : Cursor) (newCell : C) : Option (Store C) := do
  let oldPage := cursor.pageNum
  let oldMax ← s.getNodeMaxKey depth oldPage
  let (newPage, s) := s.getUnusedPageNum
  let s ← s.divideCells oldPage newPage cursor.cellNum newCell
  if (s.node oldPage).isRoot then s.createNewRoot depth newPage
  else
    let pp := (s.node oldPage).parent
    let newOldMax ← s.getNodeMaxKey depth oldPage
    let s := s.modify pp fun n => n.updateInternalNodeKey oldMax newOldMax
    internalNodeInsert depth depth s pp newPage

/-- The cell goes into the leaf. -/
def putCell (n : Node C) (i : Nat) (cell : C) : Node C :=
  { n with cells := n.cells.insertIdx i cell, freeSpace := n.freeSpace - Cell.size cell }

/-- `leaf_node_insert` of a serialized row. -/
def leafNodeInsert (s : Store C) (depth : Nat) (cursor : Cursor) (cell : C) : Option (Store C) :=
  let p := cursor.pageNum
  if (s.node p).HasRoom (Cell.size cell) then some (s.modify p fun n => putCell n cursor.cellNum cell)
  else
    let s := s.modify p Node.leafNodeDefragment
    if (s.node p).HasRoom (Cell.size cell) then some (s.modify p fun n => putCell n cursor.cellNum cell)
    else s.leafNodeSplitAndInsert depth cursor cell

end Store

end Tree

end CustomDB
