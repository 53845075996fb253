import CustomDB.Page.Slotted
import CustomDB.Lib.Separators

/-!
# Rebalancing inner nodes

`internal_borrow_from_left`, `internal_borrow_from_right` and `internal_remove_child` on the bytes of the pages. A node
is the list of its children, each with the separator behind it; its right child lies apart from the cells.
-/

namespace CustomDB

namespace Page

open Lib.Bytes Lib.Memory Lib.Items Lib.Separators

/-- The pages of a file, as `get_page` shows them. -/
abbrev Pages := Nat → Mem

/-- `INTERNAL_NODE_MAX_KEYS`. -/
def internalNodeMaxKeys : Nat := 32

/-- `INTERNAL_NODE_MIN_KEYS`. -/
def internalNodeMinKeys : Nat := internalNodeMaxKeys / 2

/-- `INTERNAL_NODE_HEADER_SIZE`. -/
def internalNodeHeaderSize : Nat := 16

/-- `INTERNAL_NODE_CELL_SIZE`. -/
def internalNodeCellSize : Nat := 36

/-! ## The operations -/

/-- `*node_parent(get_page(p)) = parent`. -/
def setNodeParent (s : Pages) (p parent : Nat) : Pages := Function.update s p (setU32 (s p) 4 parent)

/-- `*internal_node_num_keys(node) = n`. -/
def setNumKeys (node : Mem) (n : Nat) : Mem := setU32 node 8 n

/-- `*internal_node_right_child(node) = child`. -/
def setRightChild (node : Mem) (child : Nat) : Mem := setU32 node 12 child

/-- Child and key of the cell `i`, where there is such a cell. -/
def putInnerCell (node : Mem) (i child : Nat) (key : List UInt8) : Mem :=
  setInternalNodeKey (setU32 node (internalNodeCell i) child) i key

/-- `internal_borrow_from_left`; `none` is the exit of `internal_node_child(left, ln - 1)` without keys. -/
def internalBorrowFromLeft (s : Pages) (selfPage leftPage parentPage selfIdx : Nat) : Option Pages :=
  let ln := internalNodeNumKeys (s leftPage)
  let mcp := internalNodeRightChild (s leftPage)
  let sn := internalNodeNumKeys (s selfPage)
  let self := setNumKeys (shiftUp internalNodeHeaderSize internalNodeCellSize 0 sn (s selfPage)) (sn + 1)
  let s := Function.update s selfPage (putInnerCell self 0 mcp (internalNodeKey (s parentPage) (selfIdx - 1)))
  let s := setNodeParent s mcp selfPage
  if ln = 0 then none
  else (internalNodeChild (s leftPage) (ln - 1)).map fun last =>
    let left := setNumKeys (setRightChild (s leftPage) last) (ln - 1)
    let s := Function.update s leftPage left
    Function.update s parentPage (setInternalNodeKey (s parentPage) (selfIdx - 1) (internalNodeKey left (ln - 1)))

/-- `internal_borrow_from_right`; without keys, where the loop's bound `rn - 1` wraps, it is left out (`none`). -/
def internalBorrowFromRight (s : Pages) (selfPage rightPage parentPage selfIdx : Nat) : Option Pages :=
  let rn := internalNodeNumKeys (s rightPage)
  let sn := internalNodeNumKeys (s selfPage)
  let curR := internalNodeRightChild (s selfPage)
  if rn = 0 then none
  else (internalNodeChild (s rightPage) 0).map fun mcp =>
    let self := putInnerCell (setNumKeys (s selfPage) (sn + 1)) sn curR (internalNodeKey (s parentPage) selfIdx)
    let s := Function.update s selfPage (setRightChild self mcp)
    let s := setNodeParent s mcp selfPage
    let right := setNumKeys (shiftDown internalNodeHeaderSize internalNodeCellSize (rn - 1) 0 (s rightPage)) (rn - 1)
    let s := Function.update s rightPage right
    -- the key is read after the shift
    Function.update s parentPage (setInternalNodeKey (s parentPage) selfIdx (internalNodeKey right 0))

/-- The first part of `internal_remove_child`: the child is taken out of the parent. -/
def removeChildCell (parent : Mem) (childIdx : Nat) : Mem :=
  let nk := internalNodeNumKeys parent
  if childIdx = nk then
    setNumKeys (setRightChild parent (u32 parent (internalNodeCell (nk - 1)))) (nk - 1)
  else
    let parent := if 0 < childIdx then setInternalNodeKey parent (childIdx - 1) (internalNodeKey parent childIdx) else parent
    setNumKeys (shiftDown internalNodeHeaderSize internalNodeCellSize (nk - 1 - childIdx) childIdx parent) (nk - 1)

/-- The loop that gives the root's new children their parent. -/
def adoptChildren (s : Pages) (page rootPageNum : Nat) : Option Pages :=
  (List.range (internalNodeNumKeys (s page) + 1)).foldlM (fun t i =>
    (internalNodeChild (t page) i).map fun child => setNodeParent t child rootPageNum) s

/-- `internal_remove_child`, with `underflow` for `handle_internal_underflow`. -/
def internalRemoveChild (underflow : Pages → Nat → Option Pages) (s : Pages) (rootPageNum parentPage childIdx : Nat) :
    Option Pages :=
  let nk := internalNodeNumKeys (s parentPage)
  if childIdx = nk ∧ nk = 0 then none
  else
    let s := Function.update s parentPage (removeChildCell (s parentPage) childIdx)
    let parent := s parentPage
    if isNodeRoot parent ∧ internalNodeNumKeys parent = 0 then
      let s := Function.update s parentPage (copyToRoot parent (s (internalNodeRightChild parent)))
      if IsInternal (s parentPage) then adoptChildren s parentPage rootPageNum else some s
    else if isNodeRoot parent = false ∧ internalNodeNumKeys parent < internalNodeMinKeys then underflow s parentPage
    else some s

/-! ## What lies below a page -/

/-- The key of the cell `i` of a leaf, as `get_node_max_key` makes it. -/
def leafKey (ops : WhereOps) (c : ColumnType) (m : Mem) (i : Nat) : List UInt8 :=
  rawCol0Key c (extractCol0FromPackedRecord ops.toFloatOps c m (leafNodeSlot m i).offset (leafNodeSlot m i).size).1

/-- The key stands in a leaf of the subtree at the page. -/
inductive KeyBelow (ops : WhereOps) (c : ColumnType) (s : Pages) : Nat → List UInt8 → Prop
  | leaf {p i : Nat} : IsLeaf (s p) → i < leafNodeNumCells (s p) → KeyBelow ops c s p (leafKey ops c (s p) i)
  | inner {p i q : Nat} {k : List UInt8} : IsInternal (s p) → internalNodeChild (s p) i = some q →
      KeyBelow ops c s q k → KeyBelow ops c s p k

/-- The page belongs to the subtree. -/
inductive Reach (s : Pages) : Nat → Nat → Prop
  | refl (p : Nat) : Reach s p p
  | step {p i q r : Nat} : IsInternal (s p) → internalNodeChild (s p) i = some q → Reach s q r → Reach s p r

/-- The cells of an inner node: child and separator. -/
def innerCells (m : Mem) : List (Nat × List UInt8) :=
  (List.range (internalNodeNumKeys m)).map fun i => (u32 m (internalNodeCell i), internalNodeKey m i)

/-- The children, from left to right. -/
def children (m : Mem) : List Nat := (innerCells m).map Prod.fst ++ [internalNodeRightChild m]

section Bounds

variable {β : Type*} [LinearOrder β] (rank : List UInt8 → β)

/-- The children of a node with these cells and this right child, each with the bound behind it. -/
def spansOf (cells : List (Nat × List UInt8)) (right : Nat) (hi : β) : List (Nat × β) :=
  cells.map (fun e => (e.1, rank e.2)) ++ [(right, hi)]

/-- The children with the bounds behind them, `hi` behind the last one. -/
def childSpans (m : Mem) (hi : β) : List (Nat × β) := spansOf rank (innerCells m) (internalNodeRightChild m) hi

/-- The bound before the child `i`: `lo`, a separator, or `hi` behind the last child. -/
def boundAt (m : Mem) (lo hi : β) (i : Nat) : β := (lo :: (childSpans rank m hi).map Prod.snd).getD i hi

/-- The separator invariant of the node at the page, all of which lies behind `lo` and not behind `hi`: every key below
a child is at most the child's separator, and greater than the one before. -/
def Separates (ops : WhereOps) (c : ColumnType) (s : Pages) (lo hi : β) (p : Nat) : Prop :=
  Covers (KeyBelow ops c s) rank lo (childSpans rank (s p) hi) hi

/-- Two adjacent inner children of an inner node, in a tree: no subtree beside or below them reaches the three pages. -/
structure Siblings (s : Pages) (parent i left right : Nat) : Prop where
  inner : IsInternal (s parent) ∧ IsInternal (s left) ∧ IsInternal (s right)
  leftAt : internalNodeChild (s parent) i = some left
  rightAt : internalNodeChild (s parent) (i + 1) = some right
  counts : internalNodeNumKeys (s left) ≤ internalNodeMaxKeys ∧ internalNodeNumKeys (s right) ≤ internalNodeMaxKeys
  nodup : (children (s parent)).Nodup
  top : left ≠ parent ∧ right ≠ parent
  apart : ∀ q r, q ∈ children (s left) ∨ q ∈ children (s right) ∨ (q ∈ children (s parent) ∧ q ≠ left ∧ q ≠ right) →
    Reach s q r → r ≠ parent ∧ r ≠ left ∧ r ≠ right

/-- The invariant at the parent and at both children. -/
structure Separated (ops : WhereOps) (c : ColumnType) (s : Pages) (lo hi : β) (parent i left right : Nat) : Prop where
  atParent : Separates rank ops c s lo hi parent
  atLeft : Separates rank ops c s (boundAt rank (s parent) lo hi i) (boundAt rank (s parent) lo hi (i + 1)) left
  atRight : Separates rank ops c s (boundAt rank (s parent) lo hi (i + 1)) (boundAt rank (s parent) lo hi (i + 2)) right

/-- Nothing but the three pages changes, and parent pointers. -/
def Elsewhere (s s' : Pages) (parent left right : Nat) : Prop :=
  ∀ r, r ≠ parent → r ≠ left → r ≠ right → ∀ a, a < 4 ∨ 8 ≤ a → s' r a = s r a

/-- What a rotation has to leave: the invariant, the grandchildren in their order, and the moved child below its new
parent. -/
structure Rotated (ops : WhereOps) (c : ColumnType) (s s' : Pages) (lo hi : β) (parent i left right moved owner : Nat) :
    Prop where
  separated : Separated rank ops c s' lo hi parent i left right
  siblings : children (s' parent) = children (s parent)
  grandchildren : children (s' left) ++ children (s' right) = children (s left) ++ children (s right)
  elsewhere : Elsewhere s s' parent left right
  adopted : nodeParent (s' moved) = owner

/-- What the removal of a child has to leave: the invariant and the other children. -/
structure Removed (ops : WhereOps) (c : ColumnType) (s s' : Pages) (lo hi : β) (parent idx : Nat) : Prop where
  separated : Separates rank ops c s' lo hi parent
  children : children (s' parent) = (children (s parent)).eraseIdx idx
  elsewhere : ∀ r, r ≠ parent → s' r = s r

/-- What the removal has to leave at a root that keeps one child: the child's children below the root. -/
structure Collapsed (ops : WhereOps) (c : ColumnType) (s s' : Pages) (lo hi : β) (root idx rootPageNum : Nat) : Prop where
  separated : Separates rank ops c s' lo hi root
  children : children (s' root) = ((children (s root)).eraseIdx idx).flatMap fun child => children (s child)
  adopted : ∀ q ∈ Page.children (s' root), nodeParent (s' q) = rootPageNum

/-- The three functions keep the invariant, the order of the grandchildren and the parent pointers. -/
structure Rebalances (ops : WhereOps) (c : ColumnType) (s : Pages) (lo hi : β) (parent i left right : Nat) : Prop where
  fromLeft : ∃ s', internalBorrowFromLeft s right left parent (i + 1) = some s' ∧
    Rotated rank ops c s s' lo hi parent i left right (internalNodeRightChild (s left)) right
  fromRight : ∃ s' q, internalBorrowFromRight s left right parent i = some s' ∧ internalNodeChild (s right) 0 = some q ∧
    Rotated rank ops c s s' lo hi parent i left right q left
  remove : ∀ idx rootPageNum underflow, idx ≤ internalNodeNumKeys (s parent) → rootPageNum < 2 ^ 32 →
    ∃ s', (internalRemoveChild underflow s rootPageNum parent idx = some s' ∨
        internalRemoveChild underflow s rootPageNum parent idx = underflow s' parent) ∧
      if isNodeRoot (s parent) ∧ internalNodeNumKeys (s parent) = 1 then
        Collapsed rank ops c s s' lo hi parent idx rootPageNum
      else Removed rank ops c s s' lo hi parent idx

end Bounds

end Page

end CustomDB
