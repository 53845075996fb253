import CustomDB.Lib.Bisect
import CustomDB.Pager.State

/-!
# Pages of a tree

The pages of `btree.c` as `get_page` shows them. A page is read under its own node type, so the leaf's fields and
the inner node's are kept apart; the cells of a leaf are kept in slot order, without their places on the page.
Captures change nothing that `get_page` shows and are left out.
-/

namespace CustomDB

open Lib.Bisect

namespace Tree

/-- What the tree reads of a leaf cell: column 0 and the size in its slot. -/
class Cell (C : Type) where
  key : C → Int
  size : C → Nat

inductive NodeType where
  | internal | leaf
  deriving DecidableEq, Repr

/-- `INTERNAL_NODE_MAX_KEYS`. -/
def internalNodeMaxKeys : Nat := 32

/-- `LEAF_NODE_HEADER_SIZE`. -/
def leafNodeHeaderSize : Nat := 20

/-- `sizeof(PageSlot)`. -/
def pageSlotSize : Nat := 4

/-- `PAGE_SIZE`. -/
def pageSize : Nat := 4096

/-- A page of the tree. `slots` are the cells of an inner node, child and key, also those past `num_keys`. -/
structure Node (C : Type) where
  nodeType : NodeType
  isRoot : Bool
  parent : Nat
  cells : List C
  nextLeaf : Nat
  freeSpace : Nat
  numKeys : Nat
  rightChild : Nat
  slots : Nat → Nat × Int

variable {C : Type}

namespace Node

/-- A page of zeros. -/
def zero : Node C := ⟨.internal, false, 0, [], 0, 0, 0, 0, fun _ => (0, 0)⟩

/-- `initialize_leaf_node`. -/
def initializeLeafNode (n : Node C) : Node C :=
  { n with nodeType := .leaf, isRoot := false, cells := [], nextLeaf := 0, freeSpace := pageSize }

/-- `initialize_internal_node`. -/
def initializeInternalNode (n : Node C) : Node C :=
  { n with nodeType := .internal, isRoot := false, numKeys := 0, rightChild := invalidPageNum }

/-- `internal_node_child`; `none` is its `exit(1)`. -/
def internalNodeChild (n : Node C) (i : Nat) : Option Nat :=
  if n.numKeys < i then none else if i = n.numKeys then some n.rightChild else some (n.slots i).1

/-- `internal_node_find_child` for a column of type INT. -/
def internalNodeFindChild (n : Node C) (key : Int) : Nat :=
  lowerBound (fun i => (n.slots i).2 < key) n.numKeys 0 n.numKeys

/-- `update_internal_node_key`. -/
def updateInternalNodeKey (n : Node C) (oldKey newKey : Int) : Node C :=
  let idx := n.internalNodeFindChild oldKey
  { n with slots := Function.update n.slots idx ((n.slots idx).1, newKey) }

variable [Cell C]

/-- The key of the last cell, 0 without cells. -/
def lastKey (cells : List C) : Int := (cells.getLast?.map Cell.key).getD 0

/-- `leaf_node_find` for a column of type INT. -/
def leafNodeFind (n : Node C) (key : Int) : Nat :=
  lowerBound (fun i => (n.cells.map Cell.key).getD i 0 < key) n.cells.length 0 n.cells.length

/-- Where the cells end that are packed from the end of the page on, in 16 bits. -/
def packed (cells : List C) : Nat := (pageSize + (2 ^ 16 - (cells.map Cell.size).sum % 2 ^ 16)) % 2 ^ 16

/-- `leaf_node_defragment`. -/
def leafNodeDefragment (n : Node C) : Node C := { n with freeSpace := packed n.cells }

/-- Where the slots end. -/
def slotsEnd (n : Node C) : Nat := leafNodeHeaderSize + n.cells.length * pageSlotSize

/-- There is room for a cell of `size` bytes between the slots and the cells. -/
def HasRoom (n : Node C) (size : Nat) : Prop :=
  ¬ (n.freeSpace < n.slotsEnd ∨ n.freeSpace - n.slotsEnd < pageSlotSize + size)

instance (n : Node C) (size : Nat) : Decidable (n.HasRoom size) := inferInstanceAs (Decidable (¬ _))

end Node

/-! ## The pager's side -/

/-- The pages, the allocator and the root of the table. The free list is kept as a list. -/
structure Store (C : Type) where
  node : Nat → Node C
  numPages : Nat
  freelist : List Nat
  reservedCatalogPages : Nat
  rootPageNum : Nat

namespace Store

/-- `get_page` of a page that may be new. -/
def getPage (s : Store C) (p : Nat) : Store C := { s with numPages := max s.numPages (p + 1) }

/-- A store through the pointer `get_page(p)` returns. -/
def modify (s : Store C) (p : Nat) (f : Node C → Node C) : Store C :=
  { s.getPage p with node := Function.update s.node p (f (s.node p)) }

/-- `get_unused_page_num`. -/
def getUnusedPageNum (s : Store C) : Nat × Store C :=
  match s.freelist with
  | [] => (max s.numPages s.reservedCatalogPages, s)
  | p :: rest => (p, { s with freelist := rest, node := Function.update s.node p Node.zero })

/-- `*node_parent(get_page(p)) = parent`. -/
def setParent (s : Store C) (p parent : Nat) : Store C := s.modify p fun n => { n with parent := parent }

variable [Cell C]

/-- `get_node_max_key` of the node on page `p`, in at most `depth` levels. -/
def getNodeMaxKey (s : Store C) : Nat → Nat → Option Int
  | 0, _ => none
  | depth + 1, p =>
    match (s.node p).nodeType with
    | .leaf => some (Node.lastKey (s.node p).cells)
    | .internal =>
      let rc := (s.node p).rightChild
      if rc = invalidPageNum ∨ rc = 0 then some 0 else getNodeMaxKey s depth rc

end Store

/-! ## Search -/

/-- A cursor. -/
structure Cursor where
  pageNum : Nat
  cellNum : Nat
  endOfTable : Bool
  deriving DecidableEq, Repr

namespace Store

variable [Cell C]

/-- `leaf_node_navigate`. -/
def leafNodeNavigate (s : Store C) (p : Nat) (key : Int) : Cursor :=
  let cell := (s.node p).leafNodeFind key
  if (s.node p).cells.length ≤ cell then
    let next := (s.node p).nextLeaf
    if next = 0 then ⟨p, cell, true⟩ else ⟨next, 0, (s.node next).cells.isEmpty⟩
  else ⟨p, cell, false⟩

/-- `internal_node_find`, in at most `depth` levels. -/
def internalNodeFind (s : Store C) : Nat → Nat → Int → Option Cursor
  | 0, _, _ => none
  | depth + 1, p, key => do
    let child ← (s.node p).internalNodeChild ((s.node p).internalNodeFindChild key)
    match (s.node child).nodeType with
    | .leaf => return s.leafNodeNavigate child key
    | .internal => internalNodeFind s depth child key

/-- `btree_find`. -/
def btreeFind (s : Store C) (depth : Nat) (key : Int) : Option Cursor :=
  match (s.node s.rootPageNum).nodeType with
  | .leaf => some (s.leafNodeNavigate s.rootPageNum key)
  | .internal => s.internalNodeFind depth s.rootPageNum key

end Store

end Tree

end CustomDB
