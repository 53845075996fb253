import CustomDB.Page.Key

/-!
# A node in its page

The accessors of `btree.c` on the memory of a page: the header, the slots of a leaf and the cells of an inner node.
-/

namespace CustomDB

namespace Page

open Lib.Bytes Lib.Memory

/-- `*(uint16_t*)(m + off)`. -/
def u16 (m : Mem) (off : Nat) : Nat := leNat (read m off 2)

/-- `*(uint32_t*)(m + off)`. -/
def u32 (m : Mem) (off : Nat) : Nat := leNat (read m off 4)

def setU16 (m : Mem) (off x : Nat) : Mem := write m off (leBytes 2 x)

def setU32 (m : Mem) (off x : Nat) : Mem := write m off (leBytes 4 x)

/-! ## The header -/

/-- `get_node_type(node) == NODE_INTERNAL`. -/
def IsInternal (m : Mem) : Prop := m 0 = 0

/-- `get_node_type(node) == NODE_LEAF`. -/
def IsLeaf (m : Mem) : Prop := m 0 = 1

instance (m : Mem) : Decidable (IsInternal m) := inferInstanceAs (Decidable (_ = _))

instance (m : Mem) : Decidable (IsLeaf m) := inferInstanceAs (Decidable (_ = _))

/-- `is_node_root`. -/
def isNodeRoot (m : Mem) : Bool := m 1 ≠ 0

/-- `*node_parent(node)`. -/
def nodeParent (m : Mem) : Nat := u32 m 4

/-! ## Leaves -/

/-- `*leaf_node_num_cells(node)`. -/
def leafNodeNumCells (m : Mem) : Nat := u32 m 8

/-- `*leaf_node_next_leaf(node)`. -/
def leafNodeNextLeaf (m : Mem) : Nat := u32 m 12

/-- `*leaf_node_free_space(node)`. -/
def leafNodeFreeSpace (m : Mem) : Nat := u16 m 16

/-- `LEAF_NODE_HEADER_SIZE`. -/
def leafNodeHeaderSize : Nat := 20

/-- `PageSlot`. -/
structure Slot where
  offset : Nat
  size : Nat
  deriving DecidableEq, Repr

/-- Where the slot `i` lies. -/
def slotAt (i : Nat) : Nat := leafNodeHeaderSize + 4 * i

/-- `*leaf_node_slot(node, i)`. -/
def leafNodeSlot (m : Mem) (i : Nat) : Slot := ⟨u16 m (slotAt i), u16 m (slotAt i + 2)⟩

/-- The bytes of the cell that a slot names. -/
def cellOf (m : Mem) (s : Slot) : List UInt8 := read m s.offset s.size

/-! ## Inner nodes -/

/-- `*internal_node_num_keys(node)`. -/
def internalNodeNumKeys (m : Mem) : Nat := u32 m 8

/-- `*internal_node_right_child(node)`. -/
def internalNodeRightChild (m : Mem) : Nat := u32 m 12

/-- `internal_node_cell(node, i)`. -/
def internalNodeCell (i : Nat) : Nat := 16 + 36 * i

/-- `*internal_node_child(node, i)`; `none` is its `exit(1)`. -/
def internalNodeChild (m : Mem) (i : Nat) : Option Nat :=
  if internalNodeNumKeys m < i then none
  else if i = internalNodeNumKeys m then some (internalNodeRightChild m)
  else some (u32 m (internalNodeCell i))

/-- The 32 bytes at `internal_node_key(node, i)`. -/
def internalNodeKey (m : Mem) (i : Nat) : List UInt8 := read m (internalNodeCell i + 4) internalNodeKeySize

end Page

end CustomDB
