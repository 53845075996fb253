import CustomDB.Lib.Items
import CustomDB.Page.Node

/-!
# Slotted pages

The operations of `btree.c` on the cells of a leaf, on the bytes of its page: `leaf_node_insert`,
`leaf_node_defragment`, the slot removal of `btree_delete`, `leaf_borrow_from_left`, `leaf_borrow_from_right` and
`leaf_merge`. The free-space offset falls with every cell that is copied in; what is taken out leaves a hole.
-/

namespace CustomDB

namespace Page

open Lib.Bytes Lib.Memory Lib.Items

/-- `PAGE_SIZE`. -/
def pageSize : Nat := 4096

/-- `LEAF_NODE_MIN_CELLS`. -/
def leafNodeMinCells : Nat := 2

/-! ## The cells of a leaf -/

/-- The slots in use. -/
def slots (m : Mem) : List Slot := (List.range (leafNodeNumCells m)).map (leafNodeSlot m)

/-- The contents of the cells, in slot order. -/
def cells (m : Mem) : List (List UInt8) := (slots m).map (cellOf m)

/-- `slots_end`. -/
def slotsEnd (m : Mem) : Nat := slotAt (leafNodeNumCells m)

/-- Two slots whose cells do not overlap. -/
def Slot.Apart (s t : Slot) : Prop := s.offset + s.size ≤ t.offset ∨ t.offset + t.size ≤ s.offset

/-- The layout of a leaf: the slots end before the free-space offset, the cells lie behind it in the page, apart from
each other, and each has a size that a cell can have. -/
structure Layout (m : Mem) : Prop where
  ends : slotsEnd m ≤ leafNodeFreeSpace m
  free : leafNodeFreeSpace m ≤ pageSize
  inside : ∀ s ∈ slots m, leafNodeFreeSpace m ≤ s.offset ∧ s.offset + s.size ≤ pageSize
  apart : (slots m).Pairwise Slot.Apart
  sizes : ∀ s ∈ slots m, 1 ≤ s.size ∧ s.size ≤ maxLocalPayload

/-! ## The operations -/

/-- `x - size` in an `uint16_t`. -/
def sub16 (x size : Nat) : Nat := (x + (2 ^ 16 - size % 2 ^ 16)) % 2 ^ 16

/-- A turn of the loop of `leaf_node_defragment`: `temp` and `free_offset`. -/
def defragmentStep (node : Mem) (t : Mem × Nat) (i : Nat) : Mem × Nat :=
  let oldSlot := leafNodeSlot node i
  let freeOffset := sub16 t.2 oldSlot.size
  (setU16 (write t.1 freeOffset (cellOf node oldSlot)) (slotAt i) freeOffset, freeOffset)

/-- `leaf_node_defragment`. -/
def leafNodeDefragment (node : Mem) : Mem :=
  let numCells := leafNodeNumCells node
  if numCells = 0 then setU16 node 16 pageSize
  else
    let temp := write (fun _ => 0) 0 (read node 0 (slotAt numCells))
    let t := (List.range numCells).foldl (defragmentStep node) (temp, pageSize)
    write node 0 (read (setU16 t.1 16 t.2) 0 pageSize)

/-- The test of the contiguous space for a cell of `size` bytes. -/
def HasRoom (node : Mem) (size : Nat) : Prop :=
  ¬ (leafNodeFreeSpace node < slotsEnd node ∨ leafNodeFreeSpace node - slotsEnd node < 4 + size)

instance (node : Mem) (size : Nat) : Decidable (HasRoom node size) := inferInstanceAs (Decidable (¬ _))

/-- Defragment if needed. -/
def makeRoom (node : Mem) (size : Nat) : Mem := if HasRoom node size then node else leafNodeDefragment node

/-- The cell is copied below the free-space offset, which falls; `new_offset` is where. -/
def copyIn (node : Mem) (cell : List UInt8) : Mem × Nat :=
  let newOffset := sub16 (leafNodeFreeSpace node) cell.length
  (write (setU16 node 16 newOffset) newOffset cell, newOffset)

/-- Both fields of a slot. -/
def setSlot (node : Mem) (i : Nat) (s : Slot) : Mem := setU16 (setU16 node (slotAt i) s.offset) (slotAt i + 2) s.size

/-- `(*leaf_node_num_cells(node))++`. -/
def addCell (node : Mem) : Mem := setU32 node 8 (leafNodeNumCells node + 1)

/-- `(*leaf_node_num_cells(node))--`. -/
def dropCell (node : Mem) : Mem := setU32 node 8 (leafNodeNumCells node - 1)

/-- The part of `leaf_node_insert` behind the test: the slots make room at `cellNum`, the cell is copied in. -/
def putCell (node : Mem) (cellNum : Nat) (cell : List UInt8) : Mem :=
  let node := shiftUp leafNodeHeaderSize 4 cellNum (leafNodeNumCells node) node
  let t := copyIn node cell
  addCell (setSlot t.1 cellNum ⟨t.2, cell.length⟩)

/-- `leaf_node_insert` of a serialized cell; `none` where the leaf is split. -/
def leafNodeInsert (node : Mem) (cellNum : Nat) (cell : List UInt8) : Option Mem :=
  if HasRoom node cell.length then some (putCell node cellNum cell)
  else
    let node := leafNodeDefragment node
    if HasRoom node cell.length then some (putCell node cellNum cell) else none

/-- The part of `btree_delete` that takes the slot out. -/
def removeSlot (node : Mem) (cellNum : Nat) : Mem :=
  dropCell (shiftDown leafNodeHeaderSize 4 (leafNodeNumCells node - 1 - cellNum) cellNum node)

/-- `get_node_max_key` of a leaf. -/
def leafMaxKey (ops : WhereOps) (c : ColumnType) (node : Mem) : List UInt8 :=
  let nc := leafNodeNumCells node
  if nc = 0 then List.replicate internalNodeKeySize 0
  else
    let slot := leafNodeSlot node (nc - 1)
    rawCol0Key c (extractCol0FromPackedRecord ops.toFloatOps c node slot.offset slot.size).1

/-- `memcpy` to `internal_node_key(node, i)`. -/
def setInternalNodeKey (node : Mem) (i : Nat) (key : List UInt8) : Mem := write node (internalNodeCell i + 4) key

/-- The pages of a borrow or a merge: the leaf itself, its sibling, and their parent. -/
structure Pages3 where
  self : Mem
  sibling : Mem
  parent : Mem

/-- `leaf_borrow_from_left`. -/
def leafBorrowFromLeft (ops : WhereOps) (c : ColumnType) (p : Pages3) (selfIdx : Nat) : Pages3 :=
  let lc := leafNodeNumCells p.sibling
  let sc := leafNodeNumCells p.self
  let npk := internalNodeNumKeys p.parent
  let leftLast := leafNodeSlot p.sibling (lc - 1)
  let data := cellOf p.sibling leftLast
  let self := shiftUp leafNodeHeaderSize 4 0 sc (makeRoom p.self leftLast.size)
  let t := copyIn self data
  let self := setSlot t.1 0 ⟨t.2, leftLast.size⟩
  let left := dropCell p.sibling
  let self := addCell self
  let parent := setInternalNodeKey p.parent (selfIdx - 1) (leafMaxKey ops c left)
  ⟨self, left, if selfIdx < npk then setInternalNodeKey parent selfIdx (leafMaxKey ops c self) else parent⟩

/-- `leaf_borrow_from_right`. -/
def leafBorrowFromRight (ops : WhereOps) (c : ColumnType) (p : Pages3) (selfIdx : Nat) : Pages3 :=
  let rc := leafNodeNumCells p.sibling
  let sc := leafNodeNumCells p.self
  let rightFirst := leafNodeSlot p.sibling 0
  let data := cellOf p.sibling rightFirst
  let t := copyIn (makeRoom p.self rightFirst.size) data
  let self := setSlot t.1 sc ⟨t.2, rightFirst.size⟩
  let right := shiftDown leafNodeHeaderSize 4 (rc - 1) 0 p.sibling
  let self := addCell self
  let right := dropCell right
  ⟨self, right, setInternalNodeKey p.parent selfIdx (leafMaxKey ops c self)⟩

/-- A turn of the loop of `leaf_merge`. -/
def mergeStep (right left : Mem) (i : Nat) : Mem :=
  let lc := leafNodeNumCells left
  let rslot := leafNodeSlot right i
  let t := copyIn (makeRoom left rslot.size) (cellOf right rslot)
  addCell (setSlot t.1 lc ⟨t.2, rslot.size⟩)

/-- `leaf_merge` up to its call of `internal_remove_child`: the left and the right page. -/
def leafMerge (left right : Mem) : Mem × Mem :=
  let merged := (List.range (leafNodeNumCells right)).foldl (mergeStep right) left
  (setU32 merged 12 (leafNodeNextLeaf right), setU32 right 8 0)

/-- `leaf_node_handle_underflow` of a page that is no root, up to the call of `internal_remove_child`; the sibling is the
left one where there is one, else the right one. -/
def leafNodeHandleUnderflow (ops : WhereOps) (c : ColumnType) (p : Pages3) (si : Nat) : Pages3 :=
  if leafNodeMinCells ≤ leafNodeNumCells p.self then p
  else if 0 < si then
    if leafNodeMinCells < leafNodeNumCells p.sibling then leafBorrowFromLeft ops c p si
    else
      let t := leafMerge p.sibling p.self
      ⟨t.2, t.1, p.parent⟩
  else if si < internalNodeNumKeys p.parent then
    if leafNodeMinCells < leafNodeNumCells p.sibling then leafBorrowFromRight ops c p si
    else
      let t := leafMerge p.self p.sibling
      ⟨t.1, t.2, p.parent⟩
  else p

/-- `initialize_leaf_node`. -/
def initializeLeafNode (node : Mem) : Mem := setU16 (setU32 (setU32 (write node 0 [1, 0]) 8 0) 12 0) 16 pageSize

/-- What `internal_remove_child` makes of the root when one child is left: a copy of the child. -/
def copyToRoot (root child : Mem) : Mem := write (write root 0 (read child 0 pageSize)) 1 [1]

end Page

end CustomDB
