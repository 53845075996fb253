import CustomDB.Page.Inner
import CustomDB.Page.SlottedSpec

/-!
# Inner nodes are lists

What the writes of the rebalancing make of a node's list of children and separators, what lies below a page as long as
the pages below it stay, and the separator invariant at two siblings and their parent on their lists.
-/

namespace CustomDB

namespace Page

open Lib.Bytes Lib.Memory Lib.Items Lib.Separators

variable {m m' : Mem} {i j n x : Nat} {key : List UInt8}

/-! ## Cells -/

theorem internalNodeCell_eq (i : Nat) : internalNodeCell i = internalNodeHeaderSize + internalNodeCellSize * i := rfl

theorem internalNodeCell_lt (h : i < j) : internalNodeCell i + 36 ≤ internalNodeCell j := by
  unfold internalNodeCell
  omega

/-- The cell `i`: child and separator. -/
def innerCell (m : Mem) (i : Nat) : Nat × List UInt8 := (u32 m (internalNodeCell i), internalNodeKey m i)

theorem innerCell_congr (h : ∀ a, internalNodeCell i ≤ a → a < internalNodeCell i + 36 → m' a = m a) :
    innerCell m' i = innerCell m i := by
  rw [innerCell, u32_congr fun a h1 h2 => h a h1 (by omega), internalNodeKey,
    read_congr fun a h1 h2 => h a (by omega) (by unfold internalNodeKeySize at h2; omega)]
  rfl

/-- A cell is what its bytes say. -/
theorem innerCell_of_item (h : item internalNodeHeaderSize internalNodeCellSize m' i =
    item internalNodeHeaderSize internalNodeCellSize m j) : innerCell m' i = innerCell m j := by
  have hsplit : ∀ (m : Mem) (i : Nat), item internalNodeHeaderSize internalNodeCellSize m i =
      read m (internalNodeCell i) 4 ++ read m (internalNodeCell i + 4) internalNodeKeySize :=
    fun m i => read_add m (internalNodeCell i) 4 internalNodeKeySize
  rw [hsplit, hsplit] at h
  obtain ⟨h1, h2⟩ := List.append_inj h (by rw [length_read, length_read])
  rw [innerCell, u32, h1, internalNodeKey, h2]
  rfl

theorem u32_lt (m : Mem) (off : Nat) : u32 m off < 2 ^ 32 := by
  have := leNat_lt (read m off 4)
  rwa [length_read] at this

theorem length_innerCells (m : Mem) : (innerCells m).length = internalNodeNumKeys m := by
  rw [innerCells, List.length_map, List.length_range]

theorem getElem?_innerCells (h : i < internalNodeNumKeys m) : (innerCells m)[i]? = some (innerCell m i) := by
  rw [innerCells, List.getElem?_map, List.getElem?_range h]
  rfl

/-- The cells of a node are a list, if each of them is. -/
theorem innerCells_eq {l : List (Nat × List UInt8)} (hn : internalNodeNumKeys m = l.length)
    (h : ∀ i e, l[i]? = some e → innerCell m i = e) : innerCells m = l := by
  apply List.ext_getElem?
  intro i
  by_cases hi : i < l.length
  · rw [getElem?_innerCells (hn ▸ hi), List.getElem?_eq_getElem hi, h i _ (List.getElem?_eq_getElem hi)]
  · rw [List.getElem?_eq_none (by rw [length_innerCells, hn]; omega), List.getElem?_eq_none (by omega)]

theorem innerCell_of_getElem? {e : Nat × List UInt8} (h : (innerCells m)[i]? = some e) :
    i < internalNodeNumKeys m ∧ innerCell m i = e := by
  have hi := (List.getElem?_eq_some_iff.mp h).1
  rw [length_innerCells] at hi
  rw [getElem?_innerCells hi] at h
  exact ⟨hi, Option.some.inj h⟩

/-! ## Writing a cell -/

theorem putInnerCell_self (hx : x < 2 ^ 32) (hkey : key.length = internalNodeKeySize) :
    innerCell (putInnerCell m i x key) i = (x, key) := by
  have hread := read_write_self (setU32 m (internalNodeCell i) x) (internalNodeCell i + 4) key
  rw [hkey] at hread
  rw [innerCell, putInnerCell, internalNodeKey, setInternalNodeKey, hread, u32_congr fun a h1 h2 => write_off (by omega),
    u32_setU32 _ _ hx]

theorem setInternalNodeKey_self (hkey : key.length = internalNodeKeySize) :
    innerCell (setInternalNodeKey m i key) i = ((innerCell m i).1, key) := by
  have hread := read_write_self m (internalNodeCell i + 4) key
  rw [hkey] at hread
  rw [innerCell, internalNodeKey, setInternalNodeKey, hread, u32_congr fun a h1 h2 => write_off (by omega)]
  rfl

theorem setInternalNodeKey_off {a : Nat} (hkey : key.length = internalNodeKeySize)
    (h : a < internalNodeCell i + 4 ∨ internalNodeCell i + 36 ≤ a) : setInternalNodeKey m i key a = m a :=
  write_off (by unfold internalNodeKeySize at hkey; omega)

theorem putInnerCell_off {a : Nat} (hkey : key.length = internalNodeKeySize)
    (h : a < internalNodeCell i ∨ internalNodeCell i + 36 ≤ a) : putInnerCell m i x key a = m a := by
  rw [putInnerCell, setInternalNodeKey_off hkey (by omega), setU32_off (by omega)]

/-- A cell is not touched by what happens outside it. -/
theorem innerCell_of_ne (hoff : ∀ a, a < internalNodeCell i ∨ internalNodeCell i + 36 ≤ a → m' a = m a) (h : j ≠ i) :
    innerCell m' j = innerCell m j := by
  apply innerCell_congr
  intro a h1 h2
  apply hoff
  rcases Nat.lt_or_gt_of_ne h with h | h
  · have := internalNodeCell_lt h
    omega
  · have := internalNodeCell_lt h
    omega

@[simp] theorem length_internalNodeKey (m : Mem) (i : Nat) : (internalNodeKey m i).length = internalNodeKeySize :=
  length_read ..

/-- What stands in the header of an inner node. -/
structure Header (m : Mem) (n right : Nat) : Prop where
  inner : IsInternal m
  count : internalNodeNumKeys m = n
  right : internalNodeRightChild m = right

theorem header_of (h : IsInternal m) : Header m (internalNodeNumKeys m) (internalNodeRightChild m) := ⟨h, rfl, rfl⟩

theorem Header.congr {right : Nat} (h : Header m n right) (hoff : ∀ a < internalNodeHeaderSize, m' a = m a) :
    Header m' n right := by
  unfold internalNodeHeaderSize at hoff
  refine ⟨?_, ?_, ?_⟩
  · rw [IsInternal, hoff 0 (by decide)]
    exact h.inner
  · rw [← h.count]
    exact u32_congr fun a h1 h2 => hoff a (by omega)
  · rw [← h.right]
    exact u32_congr fun a h1 h2 => hoff a (by omega)

theorem Header.setNumKeys {right : Nat} (h : Header m n right) (hx : x < 2 ^ 32) : Header (setNumKeys m x) x right := by
  refine ⟨?_, u32_setU32 _ _ hx, ?_⟩
  · rw [IsInternal, Page.setNumKeys, setU32_off (by omega)]
    exact h.inner
  · rw [← h.right]
    exact u32_congr fun a h1 h2 => setU32_off (by omega)

theorem Header.setRightChild {right : Nat} (h : Header m n right) (hx : x < 2 ^ 32) : Header (setRightChild m x) n x := by
  refine ⟨?_, ?_, u32_setU32 _ _ hx⟩
  · rw [IsInternal, Page.setRightChild, setU32_off (by omega)]
    exact h.inner
  · rw [← h.count]
    exact u32_congr fun a h1 h2 => setU32_off (by omega)

theorem innerCell_setNumKeys (m : Mem) (x i : Nat) : innerCell (setNumKeys m x) i = innerCell m i :=
  innerCell_congr fun a h1 _ => setU32_off (by unfold internalNodeCell at h1; omega)

theorem innerCell_setRightChild (m : Mem) (x i : Nat) : innerCell (setRightChild m x) i = innerCell m i :=
  innerCell_congr fun a h1 _ => setU32_off (by unfold internalNodeCell at h1; omega)

theorem header_lt_cell (i : Nat) : internalNodeHeaderSize ≤ internalNodeCell i := Nat.le_add_right ..

theorem innerCell_shiftUp (m : Mem) (k n i : Nat) :
    innerCell (shiftUp internalNodeHeaderSize internalNodeCellSize k n m) i =
      if k < i ∧ i ≤ n then innerCell m (i - 1) else innerCell m i := by
  have hitem := item_shiftUp internalNodeHeaderSize internalNodeCellSize k n m i
  split
  · next hi =>
    rw [if_pos hi] at hitem
    exact innerCell_of_item hitem
  · next hi =>
    rw [if_neg hi] at hitem
    exact innerCell_of_item hitem

theorem innerCell_shiftDown (m : Mem) (turns k i : Nat) :
    innerCell (shiftDown internalNodeHeaderSize internalNodeCellSize turns k m) i =
      if k ≤ i ∧ i < k + turns then innerCell m (i + 1) else innerCell m i := by
  have hitem := item_shiftDown internalNodeHeaderSize internalNodeCellSize turns k m i
  split
  · next hi =>
    rw [if_pos hi] at hitem
    exact innerCell_of_item hitem
  · next hi =>
    rw [if_neg hi] at hitem
    exact innerCell_of_item hitem

/-! ## What each write makes of a node -/

/-- The node has these cells and this right child. -/
structure IsInner (m : Mem) (cells : List (Nat × List UInt8)) (right : Nat) : Prop where
  header : Header m cells.length right
  cells : innerCells m = cells

theorem isInner_of (h : IsInternal m) : IsInner m (innerCells m) (internalNodeRightChild m) :=
  ⟨by rw [length_innerCells]; exact header_of h, rfl⟩

variable {cells : List (Nat × List UInt8)} {right : Nat}

/-- `internal_borrow_from_left` in the node that gains a child. -/
theorem IsInner.gainFirst (h : IsInner m cells right) (hn : cells.length + 1 < 2 ^ 32) (hx : x < 2 ^ 32)
    (hkey : key.length = internalNodeKeySize) :
    IsInner (putInnerCell (setNumKeys (shiftUp internalNodeHeaderSize internalNodeCellSize 0 cells.length m)
      (cells.length + 1)) 0 x key) ((x, key) :: cells) right := by
  have hshift : Header (shiftUp internalNodeHeaderSize internalNodeCellSize 0 cells.length m) cells.length right :=
    h.header.congr fun a ha => shiftUp_off (Or.inl (by omega))
  have hheader : Header (putInnerCell (setNumKeys (shiftUp internalNodeHeaderSize internalNodeCellSize 0 cells.length m)
      (cells.length + 1)) 0 x key) (cells.length + 1) right :=
    (hshift.setNumKeys hn).congr fun a ha => putInnerCell_off hkey (Or.inl (lt_of_lt_of_le ha (header_lt_cell 0)))
  refine ⟨hheader, innerCells_eq hheader.count fun i e he => ?_⟩
  cases i with
  | zero =>
    rw [putInnerCell_self hx hkey]
    exact Option.some.inj he
  | succ i =>
    rw [List.getElem?_cons_succ, ← h.cells] at he
    obtain ⟨hi, rfl⟩ := innerCell_of_getElem? he
    rw [h.header.count] at hi
    rw [innerCell_of_ne (fun a ha => putInnerCell_off hkey ha) (Nat.succ_ne_zero i), innerCell_setNumKeys,
      innerCell_shiftUp, if_pos (by omega), Nat.succ_sub_one]

/-- `internal_borrow_from_right` in the node that gains a child. -/
theorem IsInner.gainLast (h : IsInner m cells right) (hn : cells.length + 1 < 2 ^ 32) (hr : right < 2 ^ 32) (hx : x < 2 ^ 32)
    (hkey : key.length = internalNodeKeySize) :
    IsInner (setRightChild (putInnerCell (setNumKeys m (cells.length + 1)) cells.length right key) x)
      (cells ++ [(right, key)]) x := by
  have hput : Header (putInnerCell (setNumKeys m (cells.length + 1)) cells.length right key) (cells.length + 1) right :=
    (h.header.setNumKeys hn).congr fun a ha => putInnerCell_off hkey (Or.inl (lt_of_lt_of_le ha (header_lt_cell _)))
  have hheader := hput.setRightChild hx
  have hlen : (cells ++ [(right, key)]).length = cells.length + 1 := List.length_append
  refine ⟨by rw [hlen]; exact hheader, innerCells_eq (by rw [hlen]; exact hheader.count) fun i e he => ?_⟩
  rw [innerCell_setRightChild]
  by_cases hi : i < cells.length
  · rw [List.getElem?_append_left hi, ← h.cells] at he
    obtain ⟨-, rfl⟩ := innerCell_of_getElem? he
    rw [innerCell_of_ne (fun a ha => putInnerCell_off hkey ha) (by omega), innerCell_setNumKeys]
  · have hlt := (List.getElem?_eq_some_iff.mp he).1
    rw [hlen] at hlt
    obtain rfl : i = cells.length := by omega
    rw [List.getElem?_append_right (le_refl _), Nat.sub_self] at he
    rw [putInnerCell_self hr hkey]
    exact Option.some.inj he

/-- A separator is replaced. -/
theorem IsInner.setKey {pre post : List (Nat × List UInt8)} {c : Nat} {k : List UInt8}
    (h : IsInner m (pre ++ (c, k) :: post) right) (hkey : key.length = internalNodeKeySize) :
    IsInner (setInternalNodeKey m pre.length key) (pre ++ (c, key) :: post) right := by
  have hlen : (pre ++ (c, key) :: post).length = (pre ++ (c, k) :: post).length := by simp
  have hheader : Header (setInternalNodeKey m pre.length key) _ right := h.header.congr fun a ha =>
    setInternalNodeKey_off hkey (Or.inl (lt_of_lt_of_le ha (le_trans (header_lt_cell pre.length) (Nat.le_add_right _ 4))))
  refine ⟨by rw [hlen]; exact hheader, innerCells_eq (by rw [hlen]; exact hheader.count) fun i e he => ?_⟩
  have hcell : ∀ e, (pre ++ (c, k) :: post)[i]? = some e → innerCell m i = e := fun e he => by
    rw [← h.cells] at he
    exact (innerCell_of_getElem? he).2
  by_cases hi : i = pre.length
  · subst hi
    rw [setInternalNodeKey_self hkey, hcell (c, k) (by simp)]
    simpa using he
  · rw [innerCell_of_ne (fun a ha => setInternalNodeKey_off hkey (by omega)) hi]
    apply hcell
    rw [← he]
    by_cases hlt : i < pre.length
    · rw [List.getElem?_append_left hlt, List.getElem?_append_left hlt]
    · obtain ⟨d, hd⟩ := Nat.exists_eq_add_of_lt (by omega : pre.length < i)
      rw [List.getElem?_append_right (by omega), List.getElem?_append_right (by omega),
        show i - pre.length = d + 1 by omega, List.getElem?_cons_succ, List.getElem?_cons_succ]

/-- A cell is taken out, those behind it move down. -/
theorem IsInner.erase {pre post : List (Nat × List UInt8)} {e : Nat × List UInt8} (h : IsInner m (pre ++ e :: post) right)
    (hn : pre.length + post.length < 2 ^ 32) :
    IsInner (setNumKeys (shiftDown internalNodeHeaderSize internalNodeCellSize post.length pre.length m)
      (pre.length + post.length)) (pre ++ post) right := by
  have hshift : Header (shiftDown internalNodeHeaderSize internalNodeCellSize post.length pre.length m) _ right :=
    h.header.congr fun a ha => shiftDown_off (Or.inl (by omega))
  have hheader := hshift.setNumKeys hn
  have hlen : (pre ++ post).length = pre.length + post.length := List.length_append
  refine ⟨by rw [hlen]; exact hheader, innerCells_eq (by rw [hlen]; exact hheader.count) fun i d hd => ?_⟩
  have hcell : ∀ j d, (pre ++ e :: post)[j]? = some d → innerCell m j = d := fun j d hd => by
    rw [← h.cells] at hd
    exact (innerCell_of_getElem? hd).2
  rw [innerCell_setNumKeys, innerCell_shiftDown]
  by_cases hi : i < pre.length
  · rw [if_neg (by omega)]
    rw [List.getElem?_append_left hi] at hd
    exact hcell i d (by rw [List.getElem?_append_left hi, hd])
  · have hlt := (List.getElem?_eq_some_iff.mp hd).1
    rw [hlen] at hlt
    rw [List.getElem?_append_right (by omega)] at hd
    rw [if_pos (by omega)]
    apply hcell
    rw [List.getElem?_append_right (by omega), show i + 1 - pre.length = i - pre.length + 1 by omega,
      List.getElem?_cons_succ, hd]

/-- The last child goes: its neighbour becomes the right child. -/
theorem IsInner.dropLast {init : List (Nat × List UInt8)} {c : Nat} {k : List UInt8}
    (h : IsInner m (init ++ [(c, k)]) right) (hc : c < 2 ^ 32) (hn : init.length < 2 ^ 32) :
    IsInner (setNumKeys (setRightChild m c) init.length) init c := by
  have hheader := (h.header.setRightChild hc).setNumKeys hn
  refine ⟨hheader, innerCells_eq hheader.count fun i e he => ?_⟩
  have hi := (List.getElem?_eq_some_iff.mp he).1
  rw [innerCell_setNumKeys, innerCell_setRightChild]
  have hold : (innerCells m)[i]? = some e := by rw [h.cells, List.getElem?_append_left hi, he]
  exact (innerCell_of_getElem? hold).2

/-- What a node's list says of its cells. -/
theorem IsInner.cell {e : Nat × List UInt8} (h : IsInner m cells right) (he : cells[i]? = some e) :
    u32 m (internalNodeCell i) = e.1 ∧ internalNodeKey m i = e.2 ∧ e.1 < 2 ^ 32 ∧ e.2.length = internalNodeKeySize := by
  rw [← h.cells] at he
  obtain ⟨-, rfl⟩ := innerCell_of_getElem? he
  exact ⟨rfl, rfl, u32_lt _ _, length_internalNodeKey _ _⟩

theorem IsInner.right_lt (h : IsInner m cells right) : right < 2 ^ 32 := by
  rw [← h.header.right]
  exact u32_lt _ _

theorem IsInner.children_eq (h : IsInner m cells right) : children m = cells.map Prod.fst ++ [right] := by
  rw [children, h.cells, h.header.right]

/-- The children are what `internal_node_child` gives. -/
theorem getElem?_children (m : Mem) (i : Nat) : (children m)[i]? = internalNodeChild m i := by
  unfold internalNodeChild
  have hlen : ((innerCells m).map Prod.fst).length = internalNodeNumKeys m := by rw [List.length_map, length_innerCells]
  split
  · exact List.getElem?_eq_none (by rw [children, List.length_append, hlen]; simpa using by omega)
  · split
    · next hi =>
      rw [children, List.getElem?_append_right (by omega), hlen, hi, Nat.sub_self]
      rfl
    · rw [children, List.getElem?_append_left (by omega), List.getElem?_map, getElem?_innerCells (by omega)]
      rfl

theorem mem_children {q : Nat} : q ∈ children m ↔ ∃ i, internalNodeChild m i = some q := by
  rw [List.mem_iff_getElem?]
  simp only [getElem?_children]

/-! ## What lies below a page -/

/-- The pages agree but for the parent pointer. -/
def SameNode (m m' : Mem) : Prop := ∀ a, a < 4 ∨ 8 ≤ a → m' a = m a

theorem SameNode.refl (m : Mem) : SameNode m m := fun _ _ => rfl

theorem sameNode_setU32 (m : Mem) (x : Nat) : SameNode m (setU32 m 4 x) := fun _ ha => setU32_off (by omega)

theorem SameNode.isInner (h : SameNode m m') (hm : IsInner m cells right) : IsInner m' cells right := by
  have hheader : Header m' cells.length right := by
    refine ⟨?_, ?_, ?_⟩
    · rw [IsInternal, h 0 (by omega)]
      exact hm.header.inner
    · rw [← hm.header.count]
      exact u32_congr fun a h1 _ => h a (by omega)
    · rw [← hm.header.right]
      exact u32_congr fun a h1 _ => h a (by omega)
  refine ⟨hheader, innerCells_eq hheader.count fun i e he => ?_⟩
  rw [← hm.cells] at he
  obtain ⟨-, rfl⟩ := innerCell_of_getElem? he
  exact innerCell_congr fun a h1 _ => h a (by unfold internalNodeCell at h1; omega)

theorem SameNode.internalNodeChild_eq (h : SameNode m m') (i : Nat) : internalNodeChild m' i = internalNodeChild m i := by
  have hn : internalNodeNumKeys m' = internalNodeNumKeys m := u32_congr fun a h1 _ => h a (by omega)
  have hr : internalNodeRightChild m' = internalNodeRightChild m := u32_congr fun a h1 _ => h a (by omega)
  have hc : u32 m' (internalNodeCell i) = u32 m (internalNodeCell i) :=
    u32_congr fun a h1 _ => h a (by unfold internalNodeCell at h1; omega)
  rw [internalNodeChild, hn, hr, hc]
  rfl

variable {ops : WhereOps} {c : ColumnType} {s s' : Pages} {p q : Nat} {k : List UInt8}

/-- A key is read from its cell on. -/
theorem extractCol0_congr {off size : Nat} (h : ∀ a, off ≤ a → m' a = m a) :
    extractCol0FromPackedRecord ops.toFloatOps c m' off size = extractCol0FromPackedRecord ops.toFloatOps c m off size := by
  have hread : ∀ a n, off ≤ a → read m' a n = read m a n := fun a n ha => read_congr fun i h1 _ => h i (le_trans ha h1)
  unfold extractCol0FromPackedRecord
  dsimp only
  have hinput : off ≤ if CellIsOverflowStub size then off + overflowStubHeader else off := by split <;> omega
  generalize (if CellIsOverflowStub size then off + overflowStubHeader else off) = input at hinput
  rw [hread input 10 hinput, hread _ 10 (by omega), hread _ _ (by omega)]

/-- The keys of a leaf do not depend on its parent pointer. -/
theorem SameNode.leaf (ops : WhereOps) (c : ColumnType) (h : SameNode m m') (hl : Layout m) : leafNodeNumCells m' = leafNodeNumCells m ∧
    ∀ i < leafNodeNumCells m, leafKey ops c m' i = leafKey ops c m i := by
  refine ⟨u32_congr fun a h1 _ => h a (by omega), fun i hi => ?_⟩
  have hslot : leafNodeSlot m' i = leafNodeSlot m i :=
    leafNodeSlot_congr fun a h1 _ => h a (Or.inr (le_trans (by decide) (le_trans (header_lt_slotAt i) h1)))
  have hin := (hl.inside _ (mem_slots.mpr ⟨i, hi, rfl⟩)).1
  have hends := hl.ends
  unfold slotsEnd slotAt leafNodeHeaderSize at hends
  rw [leafKey, hslot, extractCol0_congr fun a ha => h a (by omega)]
  rfl

/-- Every leaf of the file has the layout. -/
def LeavesLaidOut (s : Pages) : Prop := ∀ p, IsLeaf (s p) → Layout (s p)

theorem not_isLeaf (h : IsInternal m) : ¬ IsLeaf m := by
  intro hl
  rw [IsLeaf, show m 0 = 0 from h] at hl
  cases hl

/-- A subtree whose pages stay, but for parent pointers, keeps its keys. -/
theorem keyBelow_iff (hleaves : LeavesLaidOut s) (hsame : ∀ r, Reach s q r → SameNode (s r) (s' r)) :
    KeyBelow ops c s' q k ↔ KeyBelow ops c s q k := by
  constructor
  · intro h
    induction h with
    | @leaf p i hl hi =>
      have hp := hsame p (.refl p)
      have hl' : IsLeaf (s p) := by
        rw [IsLeaf, hp 0 (by omega)] at hl
        exact hl
      obtain ⟨hn, hkey⟩ := hp.leaf ops c (hleaves p hl')
      rw [hn] at hi
      rw [hkey i hi]
      exact .leaf hl' hi
    | @inner p i r k hn hc _ ih =>
      have hp := hsame p (.refl p)
      have hn' : IsInternal (s p) := by
        rw [IsInternal, hp 0 (by omega)] at hn
        exact hn
      rw [hp.internalNodeChild_eq] at hc
      exact .inner hn' hc (ih fun t ht => hsame t (.step hn' hc ht))
  · intro h
    induction h with
    | @leaf p i hl hi =>
      have hp := hsame p (.refl p)
      obtain ⟨hn, hkey⟩ := hp.leaf ops c (hleaves p hl)
      rw [← hkey i hi]
      refine .leaf ?_ (hn ▸ hi)
      rw [IsLeaf, hp 0 (by omega)]
      exact hl
    | @inner p i r k hn hc _ ih =>
      have hp := hsame p (.refl p)
      refine .inner ?_ ((hp.internalNodeChild_eq i).trans hc) (ih fun t ht => hsame t (.step hn hc ht))
      rw [IsInternal, hp 0 (by omega)]
      exact hn

/-- What is below an inner node is below one of its children. -/
theorem keyBelow_inner_iff (h : IsInternal (s p)) :
    KeyBelow ops c s p k ↔ ∃ q ∈ children (s p), KeyBelow ops c s q k := by
  constructor
  · intro hk
    cases hk with
    | leaf hl hi => exact absurd hl (not_isLeaf h)
    | @inner _ i q _ hn hc hk => exact ⟨q, mem_children.mpr ⟨i, hc⟩, hk⟩
  · rintro ⟨q, hq, hk⟩
    obtain ⟨i, hc⟩ := mem_children.mp hq
    exact .inner h hc hk

/-! ## The lists of siblings -/

section Spans

variable {β : Type*} {rank : List UInt8 → β} {lo hi a b : β} {parent left : Nat}

theorem IsInner.childSpans_eq (h : IsInner m cells right) (hi : β) : childSpans rank m hi = spansOf rank cells right hi := by
  rw [childSpans, h.cells, h.header.right]

theorem spansOf_cons {q : Nat} :
    spansOf rank ((q, k) :: cells) right hi = (q, rank k) :: spansOf rank cells right hi := rfl

theorem spansOf_append {pre post : List (Nat × List UInt8)} {q : Nat} :
    spansOf rank (pre ++ (q, k) :: post) right hi = spansOf rank pre q (rank k) ++ spansOf rank post right hi := by
  simp [spansOf]

theorem map_fst_spansOf (rank : List UInt8 → β) (cells : List (Nat × List UInt8)) (right : Nat) (hi : β) :
    (spansOf rank cells right hi).map Prod.fst = cells.map Prod.fst ++ [right] := by
  simp [spansOf, Function.comp_def]

variable [LinearOrder β]

/-- The bounds before, between and behind two children. -/
theorem boundAt_eq {pre post : List (Nat × β)} {below : Nat → List UInt8 → Prop} {q r : Nat}
    (h : childSpans rank m hi = pre ++ (q, a) :: (r, b) :: post) {x : β} (hpre : Covers below rank lo pre x) :
    boundAt rank m lo hi pre.length = x ∧ boundAt rank m lo hi (pre.length + 1) = a ∧
      boundAt rank m lo hi (pre.length + 2) = b := by
  unfold boundAt
  rw [h]
  clear h
  induction pre generalizing lo with
  | nil => exact ⟨hpre, rfl, rfl⟩
  | cons e pre ih => exact ih hpre.2

/-- The cells of the parent, cut at the left child. -/
theorem Siblings.cut (h : Siblings s parent i left right) : ∃ pre k post last, IsInner (s parent) (pre ++ (left, k) :: post) last ∧
    pre.length = i ∧ (post.map Prod.fst ++ [last]).head? = some right := by
  have hinner := isInner_of h.inner.1
  have hlt : i < (innerCells (s parent)).length := by
    rw [length_innerCells]
    by_contra hge
    have hnone := h.rightAt
    rw [internalNodeChild, if_pos (by omega)] at hnone
    cases hnone
  have hcut := (List.take_append_drop i (innerCells (s parent))).symm
  rw [List.drop_eq_getElem_cons hlt] at hcut
  have hleft := h.leftAt
  have hright := h.rightAt
  rw [← getElem?_children, children, List.getElem?_append_left (by rwa [List.length_map]), List.getElem?_map,
    List.getElem?_eq_getElem hlt] at hleft
  have hfst : (innerCells (s parent))[i].1 = left := Option.some.inj hleft
  refine ⟨(innerCells (s parent)).take i, (innerCells (s parent))[i].2, (innerCells (s parent)).drop (i + 1),
    internalNodeRightChild (s parent), ?_, by rw [List.length_take, min_eq_left (le_of_lt hlt)], ?_⟩
  · rw [← hfst]
    exact hcut ▸ hinner
  · rw [← getElem?_children, children] at hright
    rw [← hright, List.map_drop, ← List.drop_append_of_le_length (by rw [List.length_map]; omega), List.head?_drop]

/-- What the children of an inner node cover, the node spans. -/
theorem spans_of_covers (h : IsInner (s p) cells right) (hc : Covers (KeyBelow ops c s) rank a (spansOf rank cells right b) b) :
    Spans (KeyBelow ops c s) rank a b p := by
  refine hc.node fun k hk => ?_
  obtain ⟨q, hq, hkq⟩ := (keyBelow_inner_iff h.header.inner).mp hk
  rw [h.children_eq, ← map_fst_spansOf rank _ _ b] at hq
  obtain ⟨e, he, rfl⟩ := List.mem_map.mp hq
  exact ⟨e, he, hkq⟩

variable {pre post cellsL cellsR : List (Nat × List UInt8)} {last rightL rightR : Nat} {postS : List (Nat × β)}

/-- The invariant at a parent and two of its children, on their lists. -/
theorem separated_iff (hP : IsInner (s parent) (pre ++ (left, k) :: post) last) (hL : IsInner (s left) cellsL rightL)
    (hR : IsInner (s right) cellsR rightR) (htail : spansOf rank post last hi = (right, b) :: postS) :
    Separated rank ops c s lo hi parent pre.length left right ↔ ∃ x,
      Covers (KeyBelow ops c s) rank lo (pre.map fun e => (e.1, rank e.2)) x ∧ Covers (KeyBelow ops c s) rank b postS hi ∧
      Covers (KeyBelow ops c s) rank x (spansOf rank cellsL rightL (rank k)) (rank k) ∧
      Covers (KeyBelow ops c s) rank (rank k) (spansOf rank cellsR rightR b) b := by
  have hspans : childSpans rank (s parent) hi =
      (pre.map fun e => (e.1, rank e.2)) ++ (left, rank k) :: (right, b) :: postS := by
    rw [hP.childSpans_eq, ← htail]
    simp [spansOf]
  have hlen : pre.length = (pre.map fun e => (e.1, rank e.2)).length := by rw [List.length_map]
  constructor
  · rintro ⟨h1, h2, h3⟩
    rw [Separates, hspans, covers_append] at h1
    obtain ⟨x, hpre, hleft, hright, hpost⟩ := h1
    obtain ⟨hx, hk, hb⟩ := boundAt_eq hspans hpre
    rw [hlen, hx, hk, Separates, hL.childSpans_eq] at h2
    rw [hlen, hk, hb, Separates, hR.childSpans_eq] at h3
    exact ⟨x, hpre, hpost, h2, h3⟩
  · rintro ⟨x, hpre, hpost, h2, h3⟩
    obtain ⟨hx, hk, hb⟩ := boundAt_eq hspans hpre
    refine ⟨?_, ?_, ?_⟩
    · rw [Separates, hspans, covers_append]
      exact ⟨x, hpre, spans_of_covers hL h2, spans_of_covers hR h3, hpost⟩
    · rw [hlen, hx, hk, Separates, hL.childSpans_eq]
      exact h2
    · rw [hlen, hk, hb, Separates, hR.childSpans_eq]
      exact h3

/-- The subtrees beside and below the three pages keep their keys. -/
theorem Siblings.keyBelow_iff (h : Siblings s parent i left right) (hleaves : LeavesLaidOut s)
    (helse : Elsewhere s s' parent left right) (hq : q ∈ children (s left) ∨ q ∈ children (s right) ∨
      (q ∈ children (s parent) ∧ q ≠ left ∧ q ≠ right)) : KeyBelow ops c s' q k ↔ KeyBelow ops c s q k := by
  refine Page.keyBelow_iff hleaves fun r hr => ?_
  obtain ⟨h1, h2, h3⟩ := h.apart q r hq hr
  exact helse r h1 h2 h3

omit [LinearOrder β] in
/-- The other children of the parent are none of the two. -/
theorem Siblings.others (h : Siblings s parent pre.length left right) (hP : IsInner (s parent) (pre ++ (left, k) :: post) last)
    (htail : spansOf rank post last hi = (right, b) :: postS) {e : Nat × β}
    (he : e ∈ (pre.map fun e => (e.1, rank e.2)) ∨ e ∈ postS) :
    e.1 ∈ children (s parent) ∧ e.1 ≠ left ∧ e.1 ≠ right := by
  have hchildren : children (s parent) = pre.map Prod.fst ++ left :: right :: postS.map Prod.fst := by
    have hpost := congrArg (List.map Prod.fst) htail
    rw [map_fst_spansOf, List.map_cons] at hpost
    rw [hP.children_eq, List.map_append, List.map_cons, List.append_assoc, List.cons_append, hpost]
  have hnodup := h.nodup
  rw [hchildren] at hnodup ⊢
  have hmem : e.1 ∈ pre.map Prod.fst ∨ e.1 ∈ postS.map Prod.fst := by
    rcases he with he | he
    · obtain ⟨d, hd, rfl⟩ := List.mem_map.mp he
      exact Or.inl (List.mem_map_of_mem hd)
    · exact Or.inr (List.mem_map_of_mem he)
  simp only [List.nodup_append, List.nodup_cons, List.mem_cons, not_or] at hnodup
  obtain ⟨-, ⟨⟨hlr, hl⟩, hr, -⟩, hdis⟩ := hnodup
  rcases hmem with hmem | hmem
  · exact ⟨List.mem_append_left _ hmem, hdis _ hmem left (Or.inl rfl), hdis _ hmem right (Or.inr (Or.inl rfl))⟩
  · refine ⟨List.mem_append_right _ (List.mem_cons_of_mem _ (List.mem_cons_of_mem _ hmem)), ?_, ?_⟩
    · rintro rfl
      exact hl hmem
    · rintro rfl
      exact hr hmem

variable {k' : List UInt8} {x : β}

/-- The invariant after a rotation is what the new lists of the two nodes say, about the keys there were before. -/
theorem Siblings.separated_after (h : Siblings s parent pre.length left right) (hleaves : LeavesLaidOut s)
    (hP : IsInner (s parent) (pre ++ (left, k) :: post) last) (htail : spansOf rank post last hi = (right, b) :: postS)
    (hpre : Covers (KeyBelow ops c s) rank lo (pre.map fun e => (e.1, rank e.2)) x)
    (hpost : Covers (KeyBelow ops c s) rank b postS hi) (helse : Elsewhere s s' parent left right)
    (hP' : IsInner (s' parent) (pre ++ (left, k') :: post) last) (hL : IsInner (s' left) cellsL rightL)
    (hR : IsInner (s' right) cellsR rightR)
    (hkids : children (s' left) ++ children (s' right) = children (s left) ++ children (s right)) :
    Separated rank ops c s' lo hi parent pre.length left right ↔
      Covers (KeyBelow ops c s) rank x (spansOf rank cellsL rightL (rank k')) (rank k') ∧
        Covers (KeyBelow ops c s) rank (rank k') (spansOf rank cellsR rightR b) b := by
  have hbeside : ∀ e : Nat × β, e ∈ (pre.map fun e => (e.1, rank e.2)) ∨ e ∈ postS → ∀ k,
      KeyBelow ops c s' e.1 k ↔ KeyBelow ops c s e.1 k := fun e he k =>
    h.keyBelow_iff hleaves helse (Or.inr (Or.inr (h.others hP htail he)))
  have hbelow : ∀ {cells : List (Nat × List UInt8)} {right' : Nat} {y : β} {p : Nat}, p = left ∨ p = right →
      IsInner (s' p) cells right' → ∀ e ∈ spansOf rank cells right' y, ∀ k,
      KeyBelow ops c s' e.1 k ↔ KeyBelow ops c s e.1 k := by
    intro cells right' y p hp hn e he k
    have hmem : e.1 ∈ children (s' p) := by
      rw [hn.children_eq, ← map_fst_spansOf rank _ _ y]
      exact List.mem_map_of_mem he
    have hold : e.1 ∈ children (s left) ++ children (s right) := by
      rw [← hkids, List.mem_append]
      rcases hp with rfl | rfl
      · exact Or.inl hmem
      · exact Or.inr hmem
    rw [List.mem_append] at hold
    exact h.keyBelow_iff hleaves helse (hold.imp_right Or.inl)
  rw [separated_iff hP' hL hR htail]
  constructor
  · rintro ⟨x', hpre', -, h2, h3⟩
    obtain rfl : x' = x := hpre'.end_eq hpre
    exact ⟨h2.congr fun e he k => (hbelow (Or.inl rfl) hL e he k).mpr, h3.congr fun e he k => (hbelow (Or.inr rfl) hR e he k).mpr⟩
  · rintro ⟨h2, h3⟩
    exact ⟨x, hpre.congr fun e he k => (hbeside e (Or.inl he) k).mp, hpost.congr fun e he k => (hbeside e (Or.inr he) k).mp,
      h2.congr fun e he k => (hbelow (Or.inl rfl) hL e he k).mp, h3.congr fun e he k => (hbelow (Or.inr rfl) hR e he k).mp⟩

end Spans

end Page

end CustomDB
