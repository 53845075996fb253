import CustomDB.Tree.Insert

/-!
# Deleting a cell

`btree_delete` of an inline row, with the borrowing and merging that follow an underflow. The recursion of
`internal_remove_child` and `handle_internal_underflow` climbs the parent pointers, at most `fuel` levels; `none`
is an `exit`, or a level too many.
-/

namespace CustomDB

namespace Tree

/-- `LEAF_NODE_MIN_CELLS`. -/
def leafNodeMinCells : Nat := 2

/-- `INTERNAL_NODE_MIN_KEYS`. -/
def internalNodeMinKeys : Nat := internalNodeMaxKeys / 2

variable {C : Type}

namespace Node

/-- `find_child_index`; `none` is its `exit`. -/
def findChildIndex (n : Node C) (childPage : Nat) : Option Nat :=
  (List.range (n.numKeys + 1)).find? fun i => n.internalNodeChild i = some childPage

/-- Write to `internal_node_key`. -/
def setKey (n : Node C) (i : Nat) (key : Int) : Node C :=
  { n with slots := Function.update n.slots i ((n.slots i).1, key) }

/-- The cells from `i` on, up to the cell `nk`, move one place to the left. -/
def dropSlot (n : Node C) (i nk : Nat) : Node C :=
  { n with slots := fun k => if i ≤ k ∧ k < nk - 1 then n.slots (k + 1) else n.slots k, numKeys := n.numKeys - 1 }

variable [Cell C]

/-- A leaf that takes a cell is defragmented if it has to be. -/
def takeCell (n : Node C) (i : Nat) (cell : C) : Node C :=
  Store.putCell (if n.HasRoom (Cell.size cell) then n else n.leafNodeDefragment) i cell

end Node

namespace Store

/-! ## Inner nodes -/

/-- `internal_remove_child`, with `underflow` for `handle_internal_underflow`. -/
def internalRemoveChild (underflow : Store C → Nat → Option (Store C)) (s : Store C) (parentPage childIdx : Nat) :
    Option (Store C) := do
  let nk := (s.node parentPage).numKeys
  let s ← if childIdx = nk then
      -- `internal_node_child(parent, nk - 1)` wraps and exits without keys
      if nk = 0 then none
      else ((s.node parentPage).internalNodeChild (nk - 1)).map fun last =>
        s.modify parentPage fun n => { n with rightChild := last, numKeys := n.numKeys - 1 }
    else
      some (s.modify parentPage fun n =>
        (if 0 < childIdx then n.setKey (childIdx - 1) (n.slots childIdx).2 else n).dropSlot childIdx nk)
  let parent := s.node parentPage
  if parent.isRoot ∧ parent.numKeys = 0 then
    -- the root's only child becomes the root
    let s := s.modify parentPage fun n => { s.node n.rightChild with isRoot := true }
    if (s.node parentPage).nodeType = .internal then
      (List.range ((s.node parentPage).numKeys + 1)).foldlM (fun s i => do
        let child ← (s.node parentPage).internalNodeChild i
        return s.setParent child s.rootPageNum) s
    else some s
  else if parent.isRoot = false ∧ parent.numKeys < internalNodeMinKeys then underflow s parentPage
  else some s

/-- `internal_borrow_from_left`. -/
def internalBorrowFromLeft (s : Store C) (selfPage leftPage parentPage selfIdx : Nat) : Store C :=
  let left := s.node leftPage
  let mcp := left.rightChild
  let key := ((s.node parentPage).slots (selfIdx - 1)).2
  let s := s.modify selfPage fun n =>
    { n with slots := Function.update (shiftSlots n.slots 0 n.numKeys) 0 (mcp, key), numKeys := n.numKeys + 1 }
  let s := s.setParent mcp selfPage
  let last := left.slots (left.numKeys - 1)
  let s := s.modify leftPage fun n => { n with rightChild := last.1, numKeys := n.numKeys - 1 }
  s.modify parentPage fun n => n.setKey (selfIdx - 1) last.2

/-- `internal_borrow_from_right`. -/
def internalBorrowFromRight (s : Store C) (selfPage rightPage parentPage selfIdx : Nat) : Option (Store C) := do
  let rn := (s.node rightPage).numKeys
  let mcp ← (s.node rightPage).internalNodeChild 0
  let key := ((s.node parentPage).slots selfIdx).2
  let s := s.modify selfPage fun n =>
    { n with slots := Function.update n.slots n.numKeys (n.rightChild, key), numKeys := n.numKeys + 1, rightChild := mcp }
  let s := s.setParent mcp selfPage
  let s := s.modify rightPage fun n => n.dropSlot 0 rn
  return s.modify parentPage fun n => n.setKey selfIdx ((s.node rightPage).slots 0).2

/-- `internal_merge_nodes`. The children of `right` are stored through `internal_node_child` beyond the keys that
`left` has. -/
def internalMergeNodes (underflow : Store C → Nat → Option (Store C)) (s : Store C)
    (leftPage rightPage parentPage rightIdx : Nat) : Option (Store C) := do
  let ln := (s.node leftPage).numKeys
  let rn := (s.node rightPage).numKeys
  let key := ((s.node parentPage).slots (rightIdx - 1)).2
  -- the slot of child `ln` is `right_child`, which gets its own value
  let s := s.modify leftPage fun n => n.setKey ln key
  let s ← (List.range rn).foldlM (fun s i => do
    let cp ← (s.node rightPage).internalNodeChild i
    let _ ← (s.node leftPage).internalNodeChild (ln + 1 + i)
    let s := s.modify leftPage fun n =>
      { n with slots := Function.update n.slots (ln + 1 + i) (cp, ((s.node rightPage).slots i).2) }
    return s.setParent cp leftPage) s
  let rrc := (s.node rightPage).rightChild
  let s := s.modify leftPage fun n => { n with rightChild := rrc }
  let s := s.setParent rrc leftPage
  let s := s.modify leftPage fun n => { n with numKeys := ln + 1 + rn }
  let s := s.modify rightPage fun n => { n with numKeys := 0 }
  internalRemoveChild underflow s parentPage rightIdx

/-- `handle_internal_underflow`. -/
def handleInternalUnderflow : Nat → Store C → Nat → Option (Store C)
  | 0, _, _ => none
  | fuel + 1, s, page =>
    if (s.node page).isRoot then some s
    else if internalNodeMinKeys ≤ (s.node page).numKeys then some s
    else do
      let pp := (s.node page).parent
      let si ← (s.node pp).findChildIndex page
      if 0 < si then
        let lp ← (s.node pp).internalNodeChild (si - 1)
        if internalNodeMinKeys < (s.node lp).numKeys then return s.internalBorrowFromLeft page lp pp si
        else internalMergeNodes (handleInternalUnderflow fuel) s lp page pp si
      else if si < (s.node pp).numKeys then
        let rp ← (s.node pp).internalNodeChild (si + 1)
        if internalNodeMinKeys < (s.node rp).numKeys then s.internalBorrowFromRight page rp pp si
        else internalMergeNodes (handleInternalUnderflow fuel) s page rp pp (si + 1)
      else some s

/-! ## Leaves -/

variable [Cell C]

/-- `leaf_borrow_from_left`. -/
def leafBorrowFromLeft (s : Store C) (selfPage leftPage parentPage selfIdx : Nat) : Store C :=
  match (s.node leftPage).cells.getLast? with
  | none => s
  | some cell =>
    let npk := (s.node parentPage).numKeys
    let s := s.modify selfPage fun n => n.takeCell 0 cell
    let s := s.modify leftPage fun n => { n with cells := n.cells.dropLast }
    let s := s.modify parentPage fun n => n.setKey (selfIdx - 1) (Node.lastKey (s.node leftPage).cells)
    if selfIdx < npk then s.modify parentPage fun n => n.setKey selfIdx (Node.lastKey (s.node selfPage).cells)
    else s

/-- `leaf_borrow_from_right`. -/
def leafBorrowFromRight (s : Store C) (selfPage rightPage parentPage selfIdx : Nat) : Store C :=
  match (s.node rightPage).cells.head? with
  | none => s
  | some cell =>
    let s := s.modify selfPage fun n => n.takeCell n.cells.length cell
    let s := s.modify rightPage fun n => { n with cells := n.cells.tail }
    s.modify parentPage fun n => n.setKey selfIdx (Node.lastKey (s.node selfPage).cells)

/-- `leaf_merge`. -/
def leafMerge (fuel : Nat) (s : Store C) (leftPage rightPage parentPage rightIdx : Nat) : Option (Store C) :=
  let s := s.modify leftPage fun n => (s.node rightPage).cells.foldl (fun n cell => n.takeCell n.cells.length cell) n
  let s := s.modify leftPage fun n => { n with nextLeaf := (s.node rightPage).nextLeaf }
  let s := s.modify rightPage fun n => { n with cells := [] }
  internalRemoveChild (handleInternalUnderflow fuel) s parentPage rightIdx

/-- `leaf_node_handle_underflow`. -/
def leafNodeHandleUnderflow (fuel : Nat) (s : Store C) (page : Nat) : Option (Store C) :=
  if (s.node page).isRoot then some s
  else if leafNodeMinCells ≤ (s.node page).cells.length then some s
  else do
    let pp := (s.node page).parent
    let si ← (s.node pp).findChildIndex page
    if 0 < si then
      let lp ← (s.node pp).internalNodeChild (si - 1)
      if leafNodeMinCells < (s.node lp).cells.length then return s.leafBorrowFromLeft page lp pp si
      else s.leafMerge fuel lp page pp si
    else if si < (s.node pp).numKeys then
      let rp ← (s.node pp).internalNodeChild (si + 1)
      if leafNodeMinCells < (s.node rp).cells.length then return s.leafBorrowFromRight page rp pp si
      else s.leafMerge fuel page rp pp (si + 1)
    else some s

/-- The first part of `btree_delete`: the slot is taken out, and the parent gets the new largest key. -/
def eraseCell (s : Store C) (cursor : Cursor) : Store C :=
  let p := cursor.pageNum
  let cells := (s.node p).cells
  let s := s.modify p fun n => { n with cells := n.cells.eraseIdx cursor.cellNum }
  let node := s.node p
  if cursor.cellNum + 1 = cells.length ∧ node.isRoot = false ∧ node.cells ≠ [] ∧
      p ≠ (s.node node.parent).rightChild then
    s.modify node.parent fun n => n.updateInternalNodeKey (Node.lastKey cells) (Node.lastKey node.cells)
  else s

/-- Where `btree_delete` leaves its cursor. -/
def afterDelete (s : Store C) (cursor : Cursor) : Cursor :=
  if (s.node cursor.pageNum).cells.length ≤ cursor.cellNum then
    let next := (s.node cursor.pageNum).nextLeaf
    if next = 0 then { cursor with endOfTable := true }
    else ⟨next, 0, cursor.endOfTable || (s.node next).cells.isEmpty⟩
  else cursor

/-- `btree_delete`. The underflow is looked for on the page the cursor has moved to. -/
def btreeDelete (fuel : Nat) (s : Store C) (cursor : Cursor) : Option (Store C × Cursor) :=
  if (s.node cursor.pageNum).cells.length ≤ cursor.cellNum then some (s, { cursor with endOfTable := true })
  else
    let s := s.eraseCell cursor
    let cursor := s.afterDelete cursor
    (s.leafNodeHandleUnderflow fuel cursor.pageNum).map fun s => (s, cursor)

end Store

end Tree

end CustomDB
