import CustomDB.Page.Slotted

/-!
# Slotted pages are lists

Each operation on the bytes of a leaf keeps the layout and acts on the list of cell contents: what a page of the
operation holds is described first, slot by slot, and the layout and the list follow from the description.
-/

namespace CustomDB

namespace Page

open Lib.Bytes Lib.Memory Lib.Items

variable {m m' : Mem} {i j k n off x size : Nat} {bs cell : List UInt8} {s : Slot}

/-! ## Fields -/

theorem u16_setU16 (m : Mem) (off : Nat) (h : x < 2 ^ 16) : u16 (setU16 m off x) off = x := by
  have hread := read_write_self m off (leBytes 2 x)
  rw [length_leBytes] at hread
  rw [u16, setU16, hread, leNat_leBytes]
  exact Nat.mod_eq_of_lt h

theorem u32_setU32 (m : Mem) (off : Nat) (h : x < 2 ^ 32) : u32 (setU32 m off x) off = x := by
  have hread := read_write_self m off (leBytes 4 x)
  rw [length_leBytes] at hread
  rw [u32, setU32, hread, leNat_leBytes]
  exact Nat.mod_eq_of_lt h

theorem setU16_off {a : Nat} (h : a < off ∨ off + 2 ≤ a) : setU16 m off x a = m a :=
  if_neg (by rw [length_leBytes]; omega)

theorem setU32_off {a : Nat} (h : a < off ∨ off + 4 ≤ a) : setU32 m off x a = m a :=
  if_neg (by rw [length_leBytes]; omega)

theorem write_off {a : Nat} (h : a < off ∨ off + bs.length ≤ a) : write m off bs a = m a := if_neg (by omega)

theorem u16_congr (h : ∀ a, off ≤ a → a < off + 2 → m' a = m a) : u16 m' off = u16 m off := by
  rw [u16, read_congr h, u16]

theorem u32_congr (h : ∀ a, off ≤ a → a < off + 4 → m' a = m a) : u32 m' off = u32 m off := by
  rw [u32, read_congr h, u32]

theorem leafNodeSlot_congr (h : ∀ a, slotAt i ≤ a → a < slotAt i + 4 → m' a = m a) : leafNodeSlot m' i = leafNodeSlot m i := by
  rw [leafNodeSlot, u16_congr fun a h1 h2 => h a h1 (by omega), u16_congr fun a h1 h2 => h a (by omega) (by omega)]
  rfl

/-- A slot is what its four bytes say. -/
theorem leafNodeSlot_of_item (h : item leafNodeHeaderSize 4 m' i = item leafNodeHeaderSize 4 m j) :
    leafNodeSlot m' i = leafNodeSlot m j := by
  have hsplit : ∀ (m : Mem) (i : Nat), item leafNodeHeaderSize 4 m i = read m (slotAt i) 2 ++ read m (slotAt i + 2) 2 :=
    fun m i => read_add m (slotAt i) 2 2
  rw [hsplit, hsplit] at h
  obtain ⟨h1, h2⟩ := List.append_inj h (by rw [length_read, length_read])
  rw [leafNodeSlot, u16, u16, h1, h2]
  rfl

theorem leafNodeSlot_lt (m : Mem) (i : Nat) : (leafNodeSlot m i).offset < 2 ^ 16 ∧ (leafNodeSlot m i).size < 2 ^ 16 := by
  have h : ∀ off, u16 m off < 2 ^ 16 := fun off => by
    have := leNat_lt (read m off 2)
    rwa [length_read] at this
  exact ⟨h _, h _⟩

theorem leafNodeSlot_setSlot_self (m : Mem) (i : Nat) (ho : s.offset < 2 ^ 16) (hs : s.size < 2 ^ 16) :
    leafNodeSlot (setSlot m i s) i = s := by
  rw [leafNodeSlot, setSlot, u16_setU16 _ _ hs, u16_congr fun a h1 h2 => setU16_off (by omega), u16_setU16 _ _ ho]

theorem setSlot_off {a : Nat} (h : a < slotAt i ∨ slotAt i + 4 ≤ a) : setSlot m i s a = m a := by
  rw [setSlot, setU16_off (by omega), setU16_off (by omega)]

theorem slotAt_lt (h : i < j) : slotAt i + 4 ≤ slotAt j := by
  unfold slotAt
  omega

theorem leafNodeSlot_setSlot_of_ne (h : j ≠ i) : leafNodeSlot (setSlot m i s) j = leafNodeSlot m j := by
  apply leafNodeSlot_congr
  intro a h1 h2
  rcases Nat.lt_or_gt_of_ne h with h | h
  · exact setSlot_off (by have := slotAt_lt h; omega)
  · exact setSlot_off (by have := slotAt_lt h; omega)

theorem cellOf_congr (h : ∀ a, s.offset ≤ a → a < s.offset + s.size → m' a = m a) : cellOf m' s = cellOf m s :=
  read_congr h

theorem header_lt_slotAt (i : Nat) : leafNodeHeaderSize ≤ slotAt i := Nat.le_add_right ..

/-! ## What a description of a page says -/

theorem length_slots (m : Mem) : (slots m).length = leafNodeNumCells m := by
  rw [slots, List.length_map, List.length_range]

@[simp] theorem length_cells (m : Mem) : (cells m).length = leafNodeNumCells m := by
  rw [cells, List.length_map, length_slots]

theorem getElem?_slots (h : i < leafNodeNumCells m) : (slots m)[i]? = some (leafNodeSlot m i) := by
  rw [slots, List.getElem?_map, List.getElem?_range h]
  rfl

theorem mem_slots : s ∈ slots m ↔ ∃ i < leafNodeNumCells m, leafNodeSlot m i = s := by
  rw [slots, List.mem_map]
  simp only [List.mem_range]

/-- The slots of a page are a list, if each of them is. -/
theorem slots_eq {l : List Slot} (hn : leafNodeNumCells m = l.length) (h : ∀ i s, l[i]? = some s → leafNodeSlot m i = s) :
    slots m = l := by
  apply List.ext_getElem?
  intro i
  by_cases hi : i < l.length
  · rw [getElem?_slots (hn ▸ hi), List.getElem?_eq_getElem hi, h i _ (List.getElem?_eq_getElem hi)]
  · rw [List.getElem?_eq_none (by rw [length_slots, hn]; omega), List.getElem?_eq_none (by omega)]

theorem Layout.count (h : Layout m) : leafNodeNumCells m ≤ 1019 := by
  have h1 := h.ends
  have h2 := h.free
  unfold slotsEnd slotAt leafNodeHeaderSize at h1
  unfold pageSize at h2
  omega

/-- The cells do not take more than what the slots leave. -/
theorem Layout.sum_le (h : Layout m) : ((slots m).map Slot.size).sum ≤ pageSize - leafNodeFreeSpace m := by
  have hin : ∀ t ∈ (slots m).map fun s => (s.offset, s.size), leafNodeFreeSpace m ≤ t.1 ∧ t.1 + t.2 ≤ pageSize := by
    intro t ht
    obtain ⟨s, hs, rfl⟩ := List.mem_map.mp ht
    exact h.inside s hs
  have hspans := sum_le_of_apart hin (by
    rw [List.pairwise_map]
    exact h.apart)
  rwa [List.map_map] at hspans

/-! ## Copying a cell in -/

theorem sub16_eq (h : size ≤ x) (hx : x < 2 ^ 16) : sub16 x size = x - size := by
  unfold sub16
  omega

/-- What `copy_in` of a cell that fits leaves: the offset, the cell, and all other bytes. -/
theorem copyIn_spec (hfit : cell.length + leafNodeHeaderSize ≤ leafNodeFreeSpace m) (hfree : leafNodeFreeSpace m ≤ pageSize) :
    (copyIn m cell).2 = leafNodeFreeSpace m - cell.length ∧
      leafNodeFreeSpace (copyIn m cell).1 = leafNodeFreeSpace m - cell.length ∧
      read (copyIn m cell).1 (leafNodeFreeSpace m - cell.length) cell.length = cell ∧
      ∀ a, a < 16 ∨ 18 ≤ a → a < leafNodeFreeSpace m - cell.length ∨ leafNodeFreeSpace m ≤ a → (copyIn m cell).1 a = m a := by
  unfold leafNodeHeaderSize at hfit
  unfold pageSize at hfree
  have hoff : sub16 (leafNodeFreeSpace m) cell.length = leafNodeFreeSpace m - cell.length := sub16_eq (by omega) (by omega)
  unfold copyIn
  dsimp only
  rw [hoff]
  refine ⟨rfl, ?_, read_write_self .., fun a h1 h2 => ?_⟩
  · rw [leafNodeFreeSpace, u16_congr fun a h1 h2 => write_off (by omega), u16_setU16 _ _ (by omega)]
  · rw [write_off (by omega), setU16_off (by omega)]

/-- The contents of a page are those of another, if its slots and the bytes they name are. -/
theorem cells_eq {l : List Slot} (hslots : slots m' = l) (hcells : ∀ s ∈ l, cellOf m' s = cellOf m s) :
    cells m' = l.map (cellOf m) := by
  rw [cells, hslots]
  exact List.map_congr_left hcells

/-- A page that has a cell more, below the others, at the place `k`. -/
structure Added (m m' : Mem) (k : Nat) (cell : List UInt8) : Prop where
  count : leafNodeNumCells m' = leafNodeNumCells m + 1
  free : leafNodeFreeSpace m' = leafNodeFreeSpace m - cell.length
  slot : slots m' = (slots m).insertIdx k ⟨leafNodeFreeSpace m - cell.length, cell.length⟩
  cell : read m' (leafNodeFreeSpace m - cell.length) cell.length = cell
  above : ∀ a, leafNodeFreeSpace m ≤ a → m' a = m a

/-- A cell more, where there is room, is an insertion into the list. -/
theorem Added.spec (ha : Added m m' k cell) (h : Layout m) (hk : k ≤ leafNodeNumCells m)
    (hsize : 1 ≤ cell.length ∧ cell.length ≤ maxLocalPayload) (hroom : HasRoom m cell.length) :
    Layout m' ∧ cells m' = (cells m).insertIdx k cell := by
  have hfree := h.free
  unfold HasRoom slotsEnd slotAt leafNodeHeaderSize at hroom
  have hmem : ∀ s ∈ slots m', s = ⟨leafNodeFreeSpace m - cell.length, cell.length⟩ ∨ s ∈ slots m := by
    intro s hs
    rw [ha.slot] at hs
    exact List.eq_or_mem_of_mem_insertIdx hs
  refine ⟨⟨?_, ?_, ?_, ?_, ?_⟩, ?_⟩
  · rw [slotsEnd, ha.count, ha.free]
    unfold slotAt leafNodeHeaderSize
    omega
  · rw [ha.free]
    omega
  · intro s hs
    rw [ha.free]
    rcases hmem s hs with rfl | hs
    · dsimp only
      omega
    · have := h.inside s hs
      omega
  · have hbelow : ∀ s ∈ slots m, Slot.Apart ⟨leafNodeFreeSpace m - cell.length, cell.length⟩ s := by
      intro s hs
      have := h.inside s hs
      exact Or.inl (by dsimp only; omega)
    rw [ha.slot]
    have hperm : ((slots m).insertIdx k ⟨leafNodeFreeSpace m - cell.length, cell.length⟩).Perm
        (⟨leafNodeFreeSpace m - cell.length, cell.length⟩ :: slots m) :=
      List.perm_insertIdx _ _ (by rw [length_slots]; exact hk)
    have hsymm : ∀ {s t : Slot}, s.Apart t → t.Apart s := fun hst => hst.symm
    exact (hperm.pairwise_iff hsymm).mpr (List.pairwise_cons.mpr ⟨hbelow, h.apart⟩)
  · intro s hs
    rcases hmem s hs with rfl | hs
    · exact hsize
    · exact h.sizes s hs
  · have hnew : cellOf m' ⟨leafNodeFreeSpace m - cell.length, cell.length⟩ = cell := ha.cell
    have hold : (slots m).map (cellOf m') = cells m := by
      apply List.map_congr_left
      intro s hs
      have hin := (h.inside s hs).1
      exact cellOf_congr fun a h1 _ => ha.above a (by omega)
    rw [cells, ha.slot, List.map_insertIdx, hnew, hold]

/-- The slots with a new one at the place `k`, those behind it shifted. -/
theorem slots_insertIdx (hn : leafNodeNumCells m' = leafNodeNumCells m + 1) (hk : k ≤ leafNodeNumCells m)
    (hself : leafNodeSlot m' k = s) (hbefore : ∀ i < k, leafNodeSlot m' i = leafNodeSlot m i)
    (hbehind : ∀ i, k ≤ i → i < leafNodeNumCells m → leafNodeSlot m' (i + 1) = leafNodeSlot m i) :
    slots m' = (slots m).insertIdx k s := by
  apply slots_eq
  · rw [hn, List.length_insertIdx_of_le_length (by rw [length_slots]; exact hk), length_slots]
  · intro i t ht
    rw [List.getElem?_insertIdx] at ht
    split at ht
    · next hlt =>
      rw [getElem?_slots (by omega)] at ht
      rw [hbefore i hlt]
      exact Option.some.inj ht
    · split at ht
      · next hi =>
        rw [hi, hself]
        split at ht
        · exact Option.some.inj ht
        · cases ht
      · next hlt hne =>
        have hlt' : i - 1 < leafNodeNumCells m := by
          by_contra hge
          rw [List.getElem?_eq_none (by rw [length_slots]; omega)] at ht
          cases ht
        rw [getElem?_slots hlt'] at ht
        rw [← Option.some.inj ht, ← hbehind (i - 1) (by omega) hlt', show i - 1 + 1 = i by omega]

theorem leafNodeSlot_shiftUp (m : Mem) (k n i : Nat) : leafNodeSlot (shiftUp leafNodeHeaderSize 4 k n m) i =
    if k < i ∧ i ≤ n then leafNodeSlot m (i - 1) else leafNodeSlot m i := by
  have hitem := item_shiftUp leafNodeHeaderSize 4 k n m i
  split
  · next hi =>
    rw [if_pos hi] at hitem
    exact leafNodeSlot_of_item hitem
  · next hi =>
    rw [if_neg hi] at hitem
    exact leafNodeSlot_of_item hitem

/-- A slot is set and counted. -/
theorem addCell_setSlot (hn : leafNodeNumCells m < 1020) (i : Nat) (ho : s.offset < 2 ^ 16) (hs : s.size < 2 ^ 16) :
    leafNodeNumCells (addCell (setSlot m i s)) = leafNodeNumCells m + 1 ∧
      leafNodeSlot (addCell (setSlot m i s)) i = s ∧
      (∀ j, j ≠ i → leafNodeSlot (addCell (setSlot m i s)) j = leafNodeSlot m j) ∧
      ∀ a, a < 8 ∨ 12 ≤ a → a < slotAt i ∨ slotAt i + 4 ≤ a → addCell (setSlot m i s) a = m a := by
  have hpos : ∀ i, slotAt i = 20 + 4 * i := fun i => rfl
  have hnum : leafNodeNumCells (setSlot m i s) = leafNodeNumCells m := u32_congr fun a h1 h2 =>
    setSlot_off (by rw [hpos]; omega)
  have hslot : ∀ j, leafNodeSlot (addCell (setSlot m i s)) j = leafNodeSlot (setSlot m i s) j := fun j =>
    leafNodeSlot_congr fun a h1 h2 => setU32_off (by rw [hpos] at h1; omega)
  refine ⟨?_, ?_, fun j hj => ?_, fun a h1 h2 => ?_⟩
  · have hget := u32_setU32 (setSlot m i s) 8 (x := leafNodeNumCells m + 1) (by omega)
    rwa [← hnum] at hget ⊢
  · rw [hslot, leafNodeSlot_setSlot_self _ _ ho hs]
  · rw [hslot, leafNodeSlot_setSlot_of_ne hj]
  · rw [addCell, setU32_off (by omega), setSlot_off h2]

/-- The slots are shifted, the cell is copied in and its slot set. -/
theorem added_putCell (h : Layout m) (hk : k ≤ leafNodeNumCells m) (hroom : HasRoom m cell.length) :
    Added m (putCell m k cell) k cell := by
  have hcount := h.count
  have hfree := h.free
  have hpos : ∀ i, slotAt i = 20 + 4 * i := fun i => rfl
  unfold HasRoom slotsEnd at hroom
  unfold pageSize at hfree
  rw [hpos] at hroom
  obtain ⟨sh, hsh⟩ : ∃ sh, sh = shiftUp leafNodeHeaderSize 4 k (leafNodeNumCells m) m := ⟨_, rfl⟩
  have hshoff : ∀ a, a < 24 ∨ 24 + 4 * leafNodeNumCells m ≤ a → sh a = m a := fun a ha => by
    rw [hsh]
    refine shiftUp_off ?_
    unfold leafNodeHeaderSize
    omega
  have hshslot : ∀ i, leafNodeSlot sh i = if k < i ∧ i ≤ leafNodeNumCells m then leafNodeSlot m (i - 1) else leafNodeSlot m i :=
    fun i => by rw [hsh, leafNodeSlot_shiftUp]
  have hshfree : leafNodeFreeSpace sh = leafNodeFreeSpace m := u16_congr fun a h1 h2 => hshoff a (by omega)
  obtain ⟨hat, hfr, hcell, hoff⟩ := @copyIn_spec sh cell (by rw [hshfree]; unfold leafNodeHeaderSize; omega)
    (by rw [hshfree]; exact hfree)
  rw [hshfree] at hat hfr hcell hoff
  have hnum : leafNodeNumCells (copyIn sh cell).1 = leafNodeNumCells m := by
    rw [leafNodeNumCells, u32_congr fun a h1 h2 => hoff a (by omega) (by omega)]
    exact u32_congr fun a h1 h2 => hshoff a (by omega)
  have hput : putCell m k cell =
      addCell (setSlot (copyIn sh cell).1 k ⟨leafNodeFreeSpace m - cell.length, cell.length⟩) := by
    unfold putCell
    rw [← hsh, ← hat]
  obtain ⟨hadd, hself, hother, hrest⟩ := @addCell_setSlot (copyIn sh cell).1
    ⟨leafNodeFreeSpace m - cell.length, cell.length⟩ (by omega) k (by dsimp only; omega) (by dsimp only; omega)
  rw [hnum] at hadd
  rw [← hput] at hadd hself hother hrest
  rw [hpos] at hrest
  have hsame : ∀ i, i ≠ k → i ≤ leafNodeNumCells m → leafNodeSlot (putCell m k cell) i = leafNodeSlot sh i := by
    intro i hi hle
    rw [hother i hi]
    exact leafNodeSlot_congr fun a h1 h2 => hoff a (by rw [hpos] at h1; omega) (by rw [hpos] at h2; omega)
  refine ⟨hadd, ?_, ?_, ?_, fun a ha => ?_⟩
  · rw [← hfr]
    exact u16_congr fun a h1 h2 => hrest a (by omega) (by omega)
  · refine slots_insertIdx hadd hk hself (fun i hi => ?_) fun i hki hi => ?_
    · rw [hsame i (by omega) (by omega), hshslot, if_neg (by omega)]
    · rw [hsame (i + 1) (by omega) (by omega), hshslot, if_pos (by omega), Nat.add_sub_cancel]
  · refine Eq.trans (read_congr fun a h1 h2 => ?_) hcell
    exact hrest a (by omega) (by omega)
  · rw [hrest a (by omega) (by omega), hoff a (by omega) (by omega), hshoff a (by omega)]

/-! ## Taking a slot out -/

theorem leafNodeSlot_shiftDown (m : Mem) (turns k i : Nat) : leafNodeSlot (shiftDown leafNodeHeaderSize 4 turns k m) i =
    if k ≤ i ∧ i < k + turns then leafNodeSlot m (i + 1) else leafNodeSlot m i := by
  have hitem := item_shiftDown leafNodeHeaderSize 4 turns k m i
  split
  · next hi =>
    rw [if_pos hi] at hitem
    exact leafNodeSlot_of_item hitem
  · next hi =>
    rw [if_neg hi] at hitem
    exact leafNodeSlot_of_item hitem

/-- The slot is gone, and nothing else on the page changes but the slots and their number. -/
theorem slots_removeSlot (h : Layout m) (hk : k < leafNodeNumCells m) :
    slots (removeSlot m k) = (slots m).eraseIdx k ∧ leafNodeFreeSpace (removeSlot m k) = leafNodeFreeSpace m ∧
      ∀ a, slotsEnd m ≤ a → removeSlot m k a = m a := by
  have hcount := h.count
  have hpos : ∀ i, slotAt i = 20 + 4 * i := fun i => rfl
  obtain ⟨sh, hsh⟩ : ∃ sh, sh = shiftDown leafNodeHeaderSize 4 (leafNodeNumCells m - 1 - k) k m := ⟨_, rfl⟩
  have hshoff : ∀ a, a < 20 ∨ slotsEnd m ≤ a → sh a = m a := fun a ha => by
    rw [hsh]
    unfold slotsEnd at ha
    rw [hpos] at ha
    refine shiftDown_off ?_
    unfold leafNodeHeaderSize
    omega
  have hremove : removeSlot m k = setU32 sh 8 (leafNodeNumCells sh - 1) := by
    rw [removeSlot, ← hsh, dropCell]
  have hnum : leafNodeNumCells sh = leafNodeNumCells m := u32_congr fun a h1 h2 => hshoff a (by omega)
  rw [hnum] at hremove
  refine ⟨?_, ?_, fun a ha => ?_⟩
  · apply slots_eq
    · rw [hremove, leafNodeNumCells, u32_setU32 _ _ (by omega), List.length_eraseIdx_of_lt (by rw [length_slots]; exact hk),
        length_slots]
    · intro i s hs
      have hslot : leafNodeSlot (removeSlot m k) i = leafNodeSlot sh i := by
        rw [hremove]
        exact leafNodeSlot_congr fun a h1 h2 => setU32_off (by rw [hpos] at h1; omega)
      rw [List.getElem?_eraseIdx] at hs
      rw [hslot, hsh, leafNodeSlot_shiftDown]
      have hlt : ∀ j t, (slots m)[j]? = some t → j < leafNodeNumCells m ∧ leafNodeSlot m j = t := by
        intro j t ht
        have hj := (List.getElem?_eq_some_iff.mp ht).1
        rw [length_slots] at hj
        rw [getElem?_slots hj] at ht
        exact ⟨hj, Option.some.inj ht⟩
      split at hs
      · rw [if_neg (by omega)]
        exact (hlt i s hs).2
      · obtain ⟨hj, hs⟩ := hlt (i + 1) s hs
        rw [if_pos (by omega)]
        exact hs
  · rw [hremove]
    exact u16_congr fun a h1 h2 => by rw [setU32_off (by omega), hshoff a (by omega)]
  · unfold slotsEnd at ha
    rw [hpos] at ha
    rw [hremove, setU32_off (by omega), hshoff a (Or.inr (by unfold slotsEnd; rw [hpos]; exact ha))]

/-- Taking a slot out is an erasure. -/
theorem removeSlot_spec (h : Layout m) (hk : k < leafNodeNumCells m) :
    Layout (removeSlot m k) ∧ cells (removeSlot m k) = (cells m).eraseIdx k ∧
      leafNodeNumCells (removeSlot m k) = leafNodeNumCells m - 1 := by
  obtain ⟨hslots, hfree, hoff⟩ := slots_removeSlot h hk
  have hnum : leafNodeNumCells (removeSlot m k) = leafNodeNumCells m - 1 := by
    rw [← length_slots, hslots, List.length_eraseIdx_of_lt (by rw [length_slots]; exact hk), length_slots]
  have hsub : (slots (removeSlot m k)).Sublist (slots m) := hslots ▸ List.eraseIdx_sublist ..
  have hends := h.ends
  refine ⟨⟨?_, ?_, ?_, ?_, ?_⟩, ?_, hnum⟩
  · rw [hfree, slotsEnd, hnum]
    unfold slotsEnd slotAt at hends
    unfold slotAt
    omega
  · rw [hfree]
    exact h.free
  · intro s hs
    rw [hfree]
    exact h.inside s (hsub.subset hs)
  · exact h.apart.sublist hsub
  · exact fun s hs => h.sizes s (hsub.subset hs)
  · rw [cells_eq rfl fun s hs => cellOf_congr fun a h1 _ => hoff a (le_trans hends (le_trans (h.inside s (hsub.subset hs)).1 h1)),
      hslots, ← List.eraseIdx_map]
    rfl

/-! ## Packing cells from the end of the page on -/

/-- Where the cell `j - 1` of a packed page starts. -/
def packedAt (cs : List (List UInt8)) (j : Nat) : Nat := pageSize - ((cs.take j).map List.length).sum

/-- The first `i` cells of the list are packed, each with its slot. -/
structure Packed (m : Mem) (cs : List (List UInt8)) (i : Nat) : Prop where
  slot : ∀ j c, j < i → cs[j]? = some c → leafNodeSlot m j = ⟨packedAt cs (j + 1), c.length⟩
  cell : ∀ j c, j < i → cs[j]? = some c → read m (packedAt cs (j + 1)) c.length = c

variable {cs : List (List UInt8)} {c : List UInt8}

theorem packedAt_zero (cs : List (List UInt8)) : packedAt cs 0 = pageSize := by
  rw [packedAt, List.take_zero, List.map_nil, List.sum_nil, Nat.sub_zero]

theorem Packed.zero (m : Mem) (cs : List (List UInt8)) : Packed m cs 0 :=
  ⟨fun _ _ h => absurd h (Nat.not_lt_zero _), fun _ _ h => absurd h (Nat.not_lt_zero _)⟩

/-- The cells fit the page. -/
def Fits (cs : List (List UInt8)) : Prop := slotAt cs.length + (cs.map List.length).sum ≤ pageSize

instance (cs : List (List UInt8)) : Decidable (Fits cs) := inferInstanceAs (Decidable (_ ≤ _))

theorem sum_take_le (cs : List (List UInt8)) (j : Nat) : ((cs.take j).map List.length).sum ≤ (cs.map List.length).sum := by
  conv_rhs => rw [← List.take_append_drop j cs, List.map_append, List.sum_append]
  exact Nat.le_add_right ..

theorem sum_take_succ (hc : cs[i]? = some c) :
    ((cs.take (i + 1)).map List.length).sum = ((cs.take i).map List.length).sum + c.length := by
  rw [List.take_add_one, hc, List.map_append, List.sum_append]
  simp

/-- The next cell goes right below the one before. -/
theorem packedAt_succ (hfits : Fits cs) (hc : cs[i]? = some c) :
    packedAt cs (i + 1) + c.length = packedAt cs i ∧ slotAt cs.length ≤ packedAt cs (i + 1) ∧ packedAt cs i ≤ pageSize := by
  have hle := sum_take_le cs (i + 1)
  have hsum := sum_take_succ hc
  unfold Fits at hfits
  unfold packedAt
  omega

theorem packedAt_le (cs : List (List UInt8)) (h : i ≤ j) : packedAt cs j ≤ packedAt cs i := by
  have hle : ((cs.take i).map List.length).sum ≤ ((cs.take j).map List.length).sum := by
    have := sum_take_le (cs.take j) i
    rwa [List.take_take, min_eq_left h] at this
  unfold packedAt
  omega

/-- One cell more. -/
theorem Packed.step (hp : Packed m cs i) (hc : cs[i]? = some c)
    (hslots : ∀ j, j < i → leafNodeSlot m' j = leafNodeSlot m j)
    (hslot : leafNodeSlot m' i = ⟨packedAt cs (i + 1), c.length⟩) (hcell : read m' (packedAt cs (i + 1)) c.length = c)
    (habove : ∀ a, packedAt cs i ≤ a → m' a = m a) : Packed m' cs (i + 1) := by
  refine ⟨fun j d hj hd => ?_, fun j d hj hd => ?_⟩
  · by_cases hji : j = i
    · subst hji
      obtain rfl := Option.some.inj (hc.symm.trans hd)
      exact hslot
    · rw [hslots j (by omega)]
      exact hp.slot j d (by omega) hd
  · by_cases hji : j = i
    · subst hji
      obtain rfl := Option.some.inj (hc.symm.trans hd)
      exact hcell
    · have hat := packedAt_le cs (show j + 1 ≤ i by omega)
      rw [read_congr fun a h1 _ => habove a (le_trans hat h1)]
      exact hp.cell j d (by omega) hd

/-- A packed page is the list of its cells. -/
theorem Packed.spec (hp : Packed m cs cs.length) (hfits : Fits cs) (hn : leafNodeNumCells m = cs.length)
    (hfree : leafNodeFreeSpace m = packedAt cs cs.length)
    (hsizes : ∀ c ∈ cs, 1 ≤ c.length ∧ c.length ≤ maxLocalPayload) : Layout m ∧ cells m = cs := by
  have hget : ∀ j (hj : j < cs.length), leafNodeSlot m j = ⟨packedAt cs (j + 1), cs[j].length⟩ ∧
      read m (packedAt cs (j + 1)) cs[j].length = cs[j] := fun j hj =>
    ⟨hp.slot j _ hj (List.getElem?_eq_getElem hj), hp.cell j _ hj (List.getElem?_eq_getElem hj)⟩
  have hmem : ∀ s ∈ slots m, ∃ j, ∃ hj : j < cs.length, s = ⟨packedAt cs (j + 1), cs[j].length⟩ := by
    intro s hs
    obtain ⟨j, hj, rfl⟩ := mem_slots.mp hs
    rw [hn] at hj
    exact ⟨j, hj, (hget j hj).1⟩
  have hends : slotAt cs.length ≤ packedAt cs cs.length := by
    unfold Fits at hfits
    unfold packedAt
    rw [List.take_length]
    omega
  refine ⟨⟨?_, ?_, fun s hs => ?_, ?_, fun s hs => ?_⟩, ?_⟩
  · rw [slotsEnd, hn, hfree]
    exact hends
  · rw [hfree]
    exact Nat.sub_le ..
  · obtain ⟨j, hj, rfl⟩ := hmem s hs
    have hat := packedAt_succ hfits (List.getElem?_eq_getElem hj)
    have hle := packedAt_le cs (show j + 1 ≤ cs.length from hj)
    rw [hfree]
    dsimp only
    omega
  · rw [slots, List.pairwise_map, hn]
    refine List.pairwise_lt_range.imp_of_mem fun {i j} hi hj hlt => ?_
    rw [List.mem_range] at hi hj
    rw [(hget i hi).1, (hget j hj).1]
    have hat := packedAt_succ hfits (List.getElem?_eq_getElem hj)
    have hle := packedAt_le cs (show i + 1 ≤ j from hlt)
    exact Or.inr (by dsimp only; omega)
  · obtain ⟨j, hj, rfl⟩ := hmem s hs
    exact hsizes _ (List.getElem_mem hj)
  · apply List.ext_getElem
    · rw [length_cells, hn]
    · intro j h1 h2
      have hcellj : (cells m)[j] = cellOf m (leafNodeSlot m j) := by simp [cells, slots]
      rw [hcellj, (hget j h2).1]
      exact (hget j h2).2

theorem getElem?_cells (h : i < leafNodeNumCells m) : (cells m)[i]? = some (cellOf m (leafNodeSlot m i)) := by
  rw [cells, List.getElem?_map, getElem?_slots h]
  rfl

theorem length_cellOf (m : Mem) (s : Slot) : (cellOf m s).length = s.size := length_read ..

theorem Layout.fits (h : Layout m) : Fits (cells m) := by
  have hlen : (cells m).map List.length = (slots m).map Slot.size := by
    rw [cells, List.map_map]
    exact List.map_congr_left fun s _ => length_cellOf m s
  have hsum := h.sum_le
  have hends := h.ends
  have hfree := h.free
  unfold slotsEnd at hends
  unfold Fits
  rw [length_cells, hlen]
  omega

theorem Layout.cell_size (h : Layout m) : ∀ c ∈ cells m, 1 ≤ c.length ∧ c.length ≤ maxLocalPayload := by
  intro c hc
  obtain ⟨s, hs, rfl⟩ := List.mem_map.mp hc
  rw [length_cellOf]
  exact h.sizes s hs

/-- The page under construction when `i` cells have been moved. -/
structure Defragmenting (node temp : Mem) (freeOffset i : Nat) : Prop where
  packed : Packed temp (cells node) i
  free : freeOffset = packedAt (cells node) i
  header : ∀ a, a < leafNodeHeaderSize → temp a = node a
  slot : ∀ j, i ≤ j → j < leafNodeNumCells node → leafNodeSlot temp j = leafNodeSlot node j

theorem Defragmenting.step {t : Mem × Nat} (hd : Defragmenting m t.1 t.2 i) (h : Layout m) (hi : i < leafNodeNumCells m) :
    Defragmenting m (defragmentStep m t i).1 (defragmentStep m t i).2 (i + 1) := by
  have hpos : ∀ i, slotAt i = 20 + 4 * i := fun i => rfl
  have hfits := h.fits
  have hc := getElem?_cells hi
  obtain ⟨hnext, hends, hpage⟩ := packedAt_succ hfits hc
  rw [length_cells, hpos] at hends
  rw [length_cellOf] at hnext
  have hsub : sub16 t.2 (leafNodeSlot m i).size = packedAt (cells m) (i + 1) := by
    rw [hd.free, sub16_eq (by omega) (by unfold pageSize at hpage; omega)]
    omega
  unfold defragmentStep
  dsimp only
  rw [hsub]
  obtain ⟨w, hw⟩ : ∃ w, w = write t.1 (packedAt (cells m) (i + 1)) (cellOf m (leafNodeSlot m i)) := ⟨_, rfl⟩
  have hwoff : ∀ a, a < packedAt (cells m) (i + 1) ∨ packedAt (cells m) i ≤ a → w a = t.1 a := fun a ha => by
    rw [hw, write_off (by rw [length_cellOf]; omega)]
  have hwslot : ∀ j, j < leafNodeNumCells m → leafNodeSlot w j = leafNodeSlot t.1 j := fun j hj =>
    leafNodeSlot_congr fun a h1 h2 => hwoff a (by rw [hpos] at h2; omega)
  have hslot : ∀ j, j ≠ i → leafNodeSlot (setU16 w (slotAt i) (packedAt (cells m) (i + 1))) j = leafNodeSlot w j := fun j hj =>
    leafNodeSlot_congr fun a h1 h2 => setU16_off (by rw [hpos] at h1 h2; rw [hpos]; omega)
  rw [← hw]
  refine ⟨?_, rfl, fun a ha => ?_, fun j h1 h2 => ?_⟩
  · refine hd.packed.step hc (fun j hj => ?_) ?_ ?_ fun a ha => ?_
    · rw [hslot j (by omega), hwslot j (by omega)]
    · have hold := hd.slot i (le_refl i) hi
      rw [← hwslot i hi] at hold
      have hsize : u16 (setU16 w (slotAt i) (packedAt (cells m) (i + 1))) (slotAt i + 2) = (leafNodeSlot m i).size := by
        rw [u16_congr fun a h1 h2 => setU16_off (by omega), ← hold]
        rfl
      rw [leafNodeSlot, u16_setU16 _ _ (by unfold pageSize at hpage; omega), hsize, length_cellOf]
    · have hread := read_write_self t.1 (packedAt (cells m) (i + 1)) (cellOf m (leafNodeSlot m i))
      rw [← hw] at hread
      refine Eq.trans (read_congr fun a h1 _ => setU16_off ?_) hread
      rw [hpos]
      omega
    · show setU16 w (slotAt i) _ a = t.1 a
      rw [hpos, setU16_off (by omega), hwoff a (Or.inr ha)]
  · unfold leafNodeHeaderSize at ha
    show setU16 w (slotAt i) _ a = m a
    rw [hpos, setU16_off (by omega), hwoff a (by omega)]
    exact hd.header a ha
  · rw [hslot j (by omega), hwslot j h2]
    exact hd.slot j (by omega) h2

/-- The header and the slots are copied. -/
theorem headerCopy_off (m : Mem) {a : Nat} (h : a < slotsEnd m) :
    write (fun _ => 0) 0 (read m 0 (slotsEnd m)) a = m a := by
  rw [write_read, if_pos (by omega)]

theorem Defragmenting.start (m : Mem) :
    Defragmenting m (write (fun _ => 0) 0 (read m 0 (slotsEnd m))) pageSize 0 where
  packed := Packed.zero _ _
  free := (packedAt_zero _).symm
  header _ ha := headerCopy_off m (lt_of_lt_of_le ha (header_lt_slotAt _))
  slot _ _ hj := leafNodeSlot_congr fun _ _ h2 => headerCopy_off m (lt_of_lt_of_le h2 (slotAt_lt hj))

/-- The loop of `leaf_node_defragment` over the first `i` cells. -/
def defragmentLoop (node : Mem) (i : Nat) : Mem × Nat :=
  (List.range i).foldl (defragmentStep node) (write (fun _ => 0) 0 (read node 0 (slotsEnd node)), pageSize)

theorem defragmentLoop_succ (node : Mem) (i : Nat) :
    defragmentLoop node (i + 1) = defragmentStep node (defragmentLoop node i) i := by
  rw [defragmentLoop, List.range_succ, List.foldl_append, List.foldl_cons, List.foldl_nil, defragmentLoop]

theorem Defragmenting.loop (h : Layout m) (hi : i ≤ leafNodeNumCells m) :
    Defragmenting m (defragmentLoop m i).1 (defragmentLoop m i).2 i := by
  induction i with
  | zero =>
    rw [defragmentLoop, List.range_zero, List.foldl_nil]
    dsimp only
    exact Defragmenting.start m
  | succ i ih =>
    rw [defragmentLoop_succ]
    exact (ih (by omega)).step h (by omega)

theorem leafNodeDefragment_eq (m : Mem) : leafNodeDefragment m =
    if leafNodeNumCells m = 0 then setU16 m 16 pageSize
    else write m 0 (read (setU16 (defragmentLoop m (leafNodeNumCells m)).1 16 (defragmentLoop m (leafNodeNumCells m)).2) 0
      pageSize) := rfl

/-- What a page holds from its free-space offset on, and how many cells it has, is read inside the page. -/
theorem Packed.congr (hp : Packed m cs n) (hn : n = cs.length) (hfits : Fits cs)
    (h : ∀ a, leafNodeHeaderSize ≤ a → a < pageSize → m' a = m a) : Packed m' cs n := by
  subst hn
  have hat : ∀ j d, cs[j]? = some d → slotAt cs.length ≤ packedAt cs (j + 1) ∧ packedAt cs (j + 1) + d.length ≤ pageSize := by
    intro j d hd
    have := packedAt_succ hfits hd
    omega
  refine ⟨fun j d hj hd => ?_, fun j d hj hd => ?_⟩
  · rw [leafNodeSlot_congr fun a h1 h2 => h a (le_trans (header_lt_slotAt j) h1) ?_]
    · exact hp.slot j d hj hd
    · have := hat j d hd
      have := slotAt_lt hj
      omega
  · rw [read_congr fun a h1 h2 => h a ?_ ?_]
    · exact hp.cell j d hj hd
    · exact le_trans (header_lt_slotAt _) (le_trans (hat j d hd).1 h1)
    · exact lt_of_lt_of_le h2 (hat j d hd).2

/-- Defragmenting keeps the list and moves all the room there is to the middle. -/
theorem leafNodeDefragment_spec (h : Layout m) : Layout (leafNodeDefragment m) ∧ cells (leafNodeDefragment m) = cells m ∧
    leafNodeNumCells (leafNodeDefragment m) = leafNodeNumCells m ∧
    leafNodeFreeSpace (leafNodeDefragment m) + ((cells m).map List.length).sum = pageSize := by
  have hfits := h.fits
  have hsum : packedAt (cells m) (leafNodeNumCells m) + ((cells m).map List.length).sum = pageSize := by
    rw [← length_cells, packedAt, List.take_length]
    unfold Fits at hfits
    omega
  obtain ⟨d, hd⟩ : ∃ d, d = leafNodeDefragment m := ⟨_, rfl⟩
  have hpacked : Packed d (cells m) (cells m).length ∧ leafNodeNumCells d = leafNodeNumCells m ∧
      leafNodeFreeSpace d = packedAt (cells m) (leafNodeNumCells m) := by
    rw [leafNodeDefragment_eq] at hd
    rw [length_cells]
    by_cases h0 : leafNodeNumCells m = 0
    · rw [if_pos h0] at hd
      rw [hd, leafNodeFreeSpace, u16_setU16 _ _ (by decide), h0, packedAt_zero]
      exact ⟨Packed.zero _ _, (u32_congr fun a h1 h2 => setU16_off (by omega)).trans h0, rfl⟩
    · have hloop := Defragmenting.loop h (le_refl (leafNodeNumCells m))
      rw [if_neg h0] at hd
      generalize defragmentLoop m (leafNodeNumCells m) = t at hd hloop
      have hcopy : ∀ a, a < pageSize → d a = setU16 t.1 16 t.2 a := fun a ha => by
        rw [hd, write_read, if_pos (by omega)]
      have hlt : t.2 < 2 ^ 16 := by
        rw [hloop.free]
        unfold pageSize at hsum
        omega
      refine ⟨hloop.packed.congr (length_cells m).symm hfits fun a h1 h2 => ?_, u32_congr fun a h1 h2 => ?_, ?_⟩
      · unfold leafNodeHeaderSize at h1
        rw [hcopy a h2, setU16_off (by omega)]
      · rw [hcopy a (by unfold pageSize; omega), setU16_off (by omega)]
        exact hloop.header a (by unfold leafNodeHeaderSize; omega)
      · rw [leafNodeFreeSpace, u16_congr fun a h1 h2 => hcopy a (by unfold pageSize; omega), u16_setU16 _ _ hlt, hloop.free]
  obtain ⟨hp, hn, hf⟩ := hpacked
  rw [← hd]
  obtain ⟨hl, hc⟩ := hp.spec hfits (by rw [hn, length_cells]) (by rw [hf, length_cells]) h.cell_size
  exact ⟨hl, hc, hn, by rw [hf]; exact hsum⟩

/-! ## Making room -/

/-- Two leaves with the same number of cells, free-space offset and bytes behind the header. -/
structure SameBody (m m' : Mem) : Prop where
  count : ∀ a, 8 ≤ a → a < 12 → m' a = m a
  free : ∀ a, 16 ≤ a → a < 18 → m' a = m a
  body : ∀ a, leafNodeHeaderSize ≤ a → a < pageSize → m' a = m a

/-- Leaves with the same body have the same slots. -/
theorem SameBody.slots (hb : SameBody m m') (hends : slotsEnd m ≤ pageSize) : leafNodeNumCells m' = leafNodeNumCells m ∧
    leafNodeFreeSpace m' = leafNodeFreeSpace m ∧ slots m' = slots m := by
  have hn : leafNodeNumCells m' = leafNodeNumCells m := u32_congr fun a h1 h2 => hb.count a h1 h2
  refine ⟨hn, u16_congr fun a h1 h2 => hb.free a h1 h2, slots_eq (by rw [hn, length_slots]) fun i s hs => ?_⟩
  have hi := (List.getElem?_eq_some_iff.mp hs).1
  rw [length_slots] at hi
  rw [getElem?_slots hi] at hs
  rw [← Option.some.inj hs]
  refine leafNodeSlot_congr fun a h1 h2 => hb.body a (le_trans (header_lt_slotAt i) h1) ?_
  have := slotAt_lt hi
  unfold slotsEnd at hends
  omega

/-- The header's other fields do not matter to the list. -/
theorem SameBody.spec (hb : SameBody m m') (h : Layout m) : Layout m' ∧ cells m' = cells m := by
  have hends := h.ends
  have hfree := h.free
  obtain ⟨hn, hf, hslots⟩ := hb.slots (le_trans hends hfree)
  refine ⟨⟨?_, ?_, ?_, ?_, ?_⟩, ?_⟩
  · rw [slotsEnd, hn, hf]
    exact hends
  · rw [hf]
    exact hfree
  · rw [hslots, hf]
    exact h.inside
  · rw [hslots]
    exact h.apart
  · rw [hslots]
    exact h.sizes
  · refine cells_eq hslots fun s hs => cellOf_congr fun a h1 h2 => ?_
    have hin := h.inside s hs
    exact hb.body a (le_trans (header_lt_slotAt _) (le_trans hends (le_trans hin.1 h1))) (lt_of_lt_of_le h2 hin.2)

/-- A defragmented leaf has room for what its slots and cells leave. -/
theorem hasRoom_defragment (h : Layout m) (hfit : slotsEnd m + 4 + ((cells m).map List.length).sum + size ≤ pageSize) :
    HasRoom (leafNodeDefragment m) size := by
  obtain ⟨-, -, hn, hsum⟩ := leafNodeDefragment_spec h
  have hends : slotsEnd (leafNodeDefragment m) = slotsEnd m := by rw [slotsEnd, hn, slotsEnd]
  unfold HasRoom
  omega

/-- A leaf of at most two cells has room for one more, after a defragmentation at most. -/
theorem makeRoom_spec (h : Layout m) (hcount : leafNodeNumCells m ≤ leafNodeMinCells) (hsize : size ≤ maxLocalPayload) :
    Layout (makeRoom m size) ∧ cells (makeRoom m size) = cells m ∧
      leafNodeNumCells (makeRoom m size) = leafNodeNumCells m ∧ HasRoom (makeRoom m size) size := by
  unfold makeRoom
  split
  · next hroom => exact ⟨h, rfl, rfl, hroom⟩
  · obtain ⟨hl, hc, hn, -⟩ := leafNodeDefragment_spec h
    refine ⟨hl, hc, hn, hasRoom_defragment h ?_⟩
    have hsum := List.sum_le_card_nsmul ((cells m).map List.length) maxLocalPayload fun x hx => by
      obtain ⟨c, hc, rfl⟩ := List.mem_map.mp hx
      exact (h.cell_size c hc).2
    rw [List.length_map, length_cells, smul_eq_mul] at hsum
    have hle := Nat.mul_le_mul_right maxLocalPayload hcount
    unfold slotsEnd slotAt leafNodeHeaderSize pageSize
    unfold leafNodeMinCells maxLocalPayload at *
    omega

/-- A cell is put behind the others. -/
theorem putCell_last (m : Mem) (cell : List UInt8) : putCell m (leafNodeNumCells m) cell =
    addCell (setSlot (copyIn m cell).1 (leafNodeNumCells m) ⟨(copyIn m cell).2, cell.length⟩) := by
  rw [putCell, shiftUp_of_le _ _ _ (le_refl _)]

/-- What `leaf_node_insert` does without a split is an insertion. -/
theorem leafNodeInsert_spec (h : Layout m) (hk : k ≤ leafNodeNumCells m)
    (hsize : 1 ≤ cell.length ∧ cell.length ≤ maxLocalPayload) (hm : leafNodeInsert m k cell = some m') :
    Layout m' ∧ cells m' = (cells m).insertIdx k cell := by
  unfold leafNodeInsert at hm
  split at hm
  · next hroom =>
    rw [← Option.some.inj hm]
    exact (added_putCell h hk hroom).spec h hk hsize hroom
  · obtain ⟨hl, hc, hn, -⟩ := leafNodeDefragment_spec h
    dsimp only at hm
    split at hm
    · next hroom =>
      rw [← Option.some.inj hm, ← hc]
      rw [← hn] at hk
      exact (added_putCell hl hk hroom).spec hl hk hsize hroom
    · cases hm

/-- A leaf is split only where the cell does not fit it. -/
theorem leafNodeInsert_eq_none (h : Layout m) (hk : k ≤ leafNodeNumCells m)
    (hsize : 1 ≤ cell.length ∧ cell.length ≤ maxLocalPayload) :
    leafNodeInsert m k cell = none ↔ ¬ Fits ((cells m).insertIdx k cell) := by
  have hle : k ≤ (cells m).length := by rwa [length_cells]
  constructor
  · intro hnone hfits
    have hsum := ((List.perm_insertIdx cell (cells m) hle).map List.length).sum_eq
    rw [List.map_cons, List.sum_cons] at hsum
    unfold Fits at hfits
    rw [hsum, List.length_insertIdx_of_le_length hle, length_cells] at hfits
    have hroom : HasRoom (leafNodeDefragment m) cell.length :=
      hasRoom_defragment h (by unfold slotsEnd; unfold slotAt at *; omega)
    unfold leafNodeInsert at hnone
    split at hnone
    · cases hnone
    · dsimp only at hnone
      rw [if_pos hroom] at hnone
      cases hnone
  · intro hfits
    cases hm : leafNodeInsert m k cell with
    | none => rfl
    | some m' =>
      obtain ⟨hl, hc⟩ := leafNodeInsert_spec h hk hsize hm
      exact absurd (hc ▸ hl.fits) hfits

/-! ## Borrowing and merging -/

/-- A leaf of at most two cells takes a cell at the place `k`. -/
theorem takeCell_spec (h : Layout m) (hcount : leafNodeNumCells m ≤ leafNodeMinCells) (hk : k ≤ leafNodeNumCells m)
    (hsize : 1 ≤ cell.length ∧ cell.length ≤ maxLocalPayload) :
    Layout (putCell (makeRoom m cell.length) k cell) ∧
      cells (putCell (makeRoom m cell.length) k cell) = (cells m).insertIdx k cell := by
  obtain ⟨hl, hc, hn, hroom⟩ := makeRoom_spec h hcount hsize.2
  rw [← hc]
  rw [← hn] at hk
  exact (added_putCell hl hk hroom).spec hl hk hsize hroom

theorem leafBorrowFromLeft_self (ops : WhereOps) (c : ColumnType) (p : Pages3) (selfIdx : Nat) (h : Layout p.self)
    (hcount : leafNodeNumCells p.self ≤ leafNodeMinCells)
    (hsize : (cellOf p.sibling (leafNodeSlot p.sibling (leafNodeNumCells p.sibling - 1))).length ≤ maxLocalPayload) :
    (leafBorrowFromLeft ops c p selfIdx).self =
      putCell (makeRoom p.self (cellOf p.sibling (leafNodeSlot p.sibling (leafNodeNumCells p.sibling - 1))).length) 0
        (cellOf p.sibling (leafNodeSlot p.sibling (leafNodeNumCells p.sibling - 1))) := by
  obtain ⟨-, -, hn, -⟩ := makeRoom_spec h hcount hsize
  rw [length_cellOf] at hn ⊢
  unfold leafBorrowFromLeft putCell
  dsimp only
  rw [hn, length_cellOf]

/-- The last cell of the left leaf becomes the first cell of the leaf. -/
theorem leafBorrowFromLeft_spec (ops : WhereOps) (c : ColumnType) (p : Pages3) (selfIdx : Nat) (h : Layout p.self)
    (hl : Layout p.sibling) (hcount : leafNodeNumCells p.self ≤ leafNodeMinCells) (hleft : 0 < leafNodeNumCells p.sibling) :
    Layout (leafBorrowFromLeft ops c p selfIdx).self ∧ Layout (leafBorrowFromLeft ops c p selfIdx).sibling ∧
      ∃ cell, cells p.sibling = cells (leafBorrowFromLeft ops c p selfIdx).sibling ++ [cell] ∧
        cells (leafBorrowFromLeft ops c p selfIdx).self = cell :: cells p.self := by
  have hlast : leafNodeNumCells p.sibling - 1 < leafNodeNumCells p.sibling := by omega
  have hget := getElem?_cells hlast
  obtain ⟨cell, hcell⟩ : ∃ cell, cell = cellOf p.sibling (leafNodeSlot p.sibling (leafNodeNumCells p.sibling - 1)) := ⟨_, rfl⟩
  rw [← hcell] at hget
  have hsize := hl.cell_size cell (List.mem_of_getElem? hget)
  have hself := leafBorrowFromLeft_self ops c p selfIdx h hcount (by rw [← hcell]; exact hsize.2)
  rw [← hcell] at hself
  have hsib : (leafBorrowFromLeft ops c p selfIdx).sibling = removeSlot p.sibling (leafNodeNumCells p.sibling - 1) := by
    unfold removeSlot
    rw [Nat.sub_self]
    rfl
  obtain ⟨h1, h2⟩ := takeCell_spec h hcount (Nat.zero_le _) hsize
  obtain ⟨h3, h4, -⟩ := removeSlot_spec hl hlast
  rw [hself, hsib]
  refine ⟨h1, h3, cell, ?_, ?_⟩
  · have hne : cells p.sibling ≠ [] := fun hn => by
      have := length_cells p.sibling
      rw [hn, List.length_nil] at this
      omega
    have hlastc : (cells p.sibling).getLast hne = cell := by
      rw [List.getLast_eq_getElem]
      have := List.getElem?_eq_some_iff.mp hget
      obtain ⟨_, hv⟩ := this
      simp only [length_cells]
      exact hv
    rw [h4, ← length_cells, List.eraseIdx_length_sub_one, ← hlastc, List.dropLast_append_getLast]
  · rw [h2, List.insertIdx_zero]

/-- A turn of `leaf_merge` puts a cell behind the others. -/
theorem mergeStep_eq {left right : Mem} (h : Layout left) (hcount : leafNodeNumCells left ≤ leafNodeMinCells)
    (hsize : (cellOf right (leafNodeSlot right i)).length ≤ maxLocalPayload) :
    mergeStep right left i = putCell (makeRoom left (cellOf right (leafNodeSlot right i)).length) (leafNodeNumCells left)
      (cellOf right (leafNodeSlot right i)) := by
  obtain ⟨-, -, hn, -⟩ := makeRoom_spec h hcount hsize
  rw [length_cellOf] at hn ⊢
  rw [← hn, putCell_last, length_cellOf, hn]
  rfl

/-- The borrow from the right puts its cell where a turn of the merge does. -/
theorem leafBorrowFromRight_self (ops : WhereOps) (c : ColumnType) (p : Pages3) (selfIdx : Nat) (h : Layout p.self)
    (hcount : leafNodeNumCells p.self ≤ leafNodeMinCells)
    (hsize : (cellOf p.sibling (leafNodeSlot p.sibling 0)).length ≤ maxLocalPayload) :
    (leafBorrowFromRight ops c p selfIdx).self =
      putCell (makeRoom p.self (cellOf p.sibling (leafNodeSlot p.sibling 0)).length) (leafNodeNumCells p.self)
        (cellOf p.sibling (leafNodeSlot p.sibling 0)) :=
  mergeStep_eq h hcount hsize

/-- The first cell of the right leaf becomes the last cell of the leaf. -/
theorem leafBorrowFromRight_spec (ops : WhereOps) (c : ColumnType) (p : Pages3) (selfIdx : Nat) (h : Layout p.self)
    (hr : Layout p.sibling) (hcount : leafNodeNumCells p.self ≤ leafNodeMinCells) (hright : 0 < leafNodeNumCells p.sibling) :
    Layout (leafBorrowFromRight ops c p selfIdx).self ∧ Layout (leafBorrowFromRight ops c p selfIdx).sibling ∧
      ∃ cell, cells p.sibling = cell :: cells (leafBorrowFromRight ops c p selfIdx).sibling ∧
        cells (leafBorrowFromRight ops c p selfIdx).self = cells p.self ++ [cell] := by
  have hget := getElem?_cells hright
  obtain ⟨cell, hcell⟩ : ∃ cell, cell = cellOf p.sibling (leafNodeSlot p.sibling 0) := ⟨_, rfl⟩
  rw [← hcell] at hget
  have hsize := hr.cell_size cell (List.mem_of_getElem? hget)
  have hself := leafBorrowFromRight_self ops c p selfIdx h hcount (by rw [← hcell]; exact hsize.2)
  rw [← hcell] at hself
  have hsib : (leafBorrowFromRight ops c p selfIdx).sibling = removeSlot p.sibling 0 := rfl
  obtain ⟨h1, h2⟩ := takeCell_spec h hcount (le_refl _) hsize
  obtain ⟨h3, h4, -⟩ := removeSlot_spec hr hright
  rw [hself, hsib]
  refine ⟨h1, h3, cell, ?_, ?_⟩
  · rw [h4]
    cases hcs : cells p.sibling with
    | nil =>
      rw [hcs] at hget
      cases hget
    | cons first rest =>
      rw [hcs] at hget
      rw [← Option.some.inj hget, List.eraseIdx_cons_zero]
  · rw [h2, ← length_cells, List.insertIdx_length_self]

/-- The loop of `leaf_merge`, after `i` turns. -/
theorem mergeLoop_spec {left right : Mem} (h : Layout left) (hr : Layout right)
    (hcount : leafNodeNumCells left + leafNodeNumCells right ≤ leafNodeMinCells + 1) (hi : i ≤ leafNodeNumCells right) :
    Layout ((List.range i).foldl (mergeStep right) left) ∧
      cells ((List.range i).foldl (mergeStep right) left) = cells left ++ (cells right).take i := by
  induction i with
  | zero =>
    rw [List.range_zero, List.foldl_nil, List.take_zero, List.append_nil]
    exact ⟨h, rfl⟩
  | succ i ih =>
    obtain ⟨hl, hc⟩ := ih (by omega)
    rw [List.range_succ, List.foldl_append, List.foldl_cons, List.foldl_nil]
    generalize (List.range i).foldl (mergeStep right) left = merged at hl hc
    have hn : leafNodeNumCells merged = leafNodeNumCells left + i := by
      rw [← length_cells, hc, List.length_append, List.length_take, length_cells, length_cells, min_eq_left (by omega)]
    have hget := getElem?_cells hi
    have hsize := hr.cell_size _ (List.mem_of_getElem? hget)
    rw [mergeStep_eq hl (by omega) hsize.2]
    obtain ⟨h1, h2⟩ := takeCell_spec hl (by omega) (le_refl _) hsize
    refine ⟨h1, ?_⟩
    rw [h2, ← length_cells, List.insertIdx_length_self, hc, List.append_assoc, List.take_add_one, hget]
    rfl

/-- `leaf_merge` concatenates, and the right leaf is empty. -/
theorem leafMerge_spec {left right : Mem} (h : Layout left) (hr : Layout right)
    (hcount : leafNodeNumCells left + leafNodeNumCells right ≤ leafNodeMinCells + 1) :
    Layout (leafMerge left right).1 ∧ Layout (leafMerge left right).2 ∧
      cells (leafMerge left right).1 = cells left ++ cells right ∧ cells (leafMerge left right).2 = [] := by
  obtain ⟨hl, hc⟩ := mergeLoop_spec h hr hcount (le_refl _)
  rw [← length_cells right, List.take_length, length_cells] at hc
  have hbody : SameBody ((List.range (leafNodeNumCells right)).foldl (mergeStep right) left) (leafMerge left right).1 :=
    ⟨fun a _ h2 => setU32_off (by omega), fun a h1 _ => setU32_off (by omega),
      fun a h1 _ => setU32_off (by unfold leafNodeHeaderSize at h1; omega)⟩
  obtain ⟨h1, h2⟩ := hbody.spec hl
  have hempty : leafNodeNumCells (leafMerge left right).2 = 0 := u32_setU32 _ _ (by decide)
  have hfree : leafNodeFreeSpace (leafMerge left right).2 = leafNodeFreeSpace right :=
    u16_congr fun a h1 _ => setU32_off (by omega)
  have hslots : slots (leafMerge left right).2 = [] := by rw [slots, hempty]; rfl
  refine ⟨h1, ⟨?_, ?_, ?_, ?_, ?_⟩, h2.trans hc, by rw [cells, hslots, List.map_nil]⟩
  · have hends := hr.ends
    unfold slotsEnd slotAt at hends ⊢
    rw [hempty, hfree]
    omega
  · rw [hfree]
    exact hr.free
  all_goals simp [hslots]

/-- The root that takes its only child's place is the child. -/
theorem copyToRoot_spec (root : Mem) {child : Mem} (h : Layout child) :
    Layout (copyToRoot root child) ∧ cells (copyToRoot root child) = cells child := by
  have hcopy : ∀ a, 2 ≤ a → a < pageSize → copyToRoot root child a = child a := by
    intro a h1 h2
    rw [copyToRoot, write_off (by simp; omega), write_read, if_pos (by omega)]
  refine SameBody.spec ⟨fun a h1 h2 => hcopy a (by omega) ?_, fun a h1 h2 => hcopy a (by omega) ?_, fun a h1 h2 => hcopy a ?_ h2⟩ h
  · unfold pageSize
    omega
  · unfold pageSize
    omega
  · unfold leafNodeHeaderSize at h1
    omega

/-! ## The operations together -/

/-- What becomes of the cells of a leaf and of its sibling, `left` where the sibling is the left one. -/
def rebalance (left : Bool) (self sibling : List (List UInt8)) : List (List UInt8) × List (List UInt8) :=
  if leafNodeMinCells ≤ self.length then (self, sibling)
  else if leafNodeMinCells < sibling.length then
    if left then (sibling.getLast?.toList ++ self, sibling.dropLast) else (self ++ sibling.head?.toList, sibling.tail)
  else if left then ([], sibling ++ self) else (self ++ sibling, [])

/-- `leaf_node_handle_underflow` moves a cell, or all of them. -/
theorem leafNodeHandleUnderflow_spec (ops : WhereOps) (c : ColumnType) (p : Pages3) (si : Nat) (h : Layout p.self)
    (hs : Layout p.sibling) (hsi : 0 < si ∨ si < internalNodeNumKeys p.parent) :
    Layout (leafNodeHandleUnderflow ops c p si).self ∧ Layout (leafNodeHandleUnderflow ops c p si).sibling ∧
      (cells (leafNodeHandleUnderflow ops c p si).self, cells (leafNodeHandleUnderflow ops c p si).sibling) =
        rebalance (decide (0 < si)) (cells p.self) (cells p.sibling) := by
  unfold leafNodeHandleUnderflow rebalance
  simp only [length_cells]
  split
  · exact ⟨h, hs, rfl⟩
  · next hself =>
    by_cases hleft : 0 < si
    · simp only [hleft, decide_true, if_true]
      split
      · obtain ⟨h1, h2, cell, h3, h4⟩ := leafBorrowFromLeft_spec ops c p si h hs (by omega) (by omega)
        refine ⟨h1, h2, ?_⟩
        rw [h4, h3, List.getLast?_concat, List.dropLast_concat]
        rfl
      · obtain ⟨h1, h2, h3, h4⟩ := leafMerge_spec hs h (by unfold leafNodeMinCells at *; omega)
        exact ⟨h2, h1, by dsimp only; rw [h3, h4]⟩
    · simp only [hleft, decide_false, if_pos (hsi.resolve_left hleft), Bool.false_eq_true, if_false]
      split
      · obtain ⟨h1, h2, cell, h3, h4⟩ := leafBorrowFromRight_spec ops c p si h hs (by omega) (by omega)
        refine ⟨h1, h2, ?_⟩
        rw [h4, h3]
        rfl
      · obtain ⟨h1, h2, h3, h4⟩ := leafMerge_spec h hs (by unfold leafNodeMinCells at *; omega)
        exact ⟨h1, h2, by dsimp only; rw [h3, h4]⟩

/-- The operations on a page implement those on the list of its cells. -/
theorem slotted_pages_are_lists (ops : WhereOps) (c : ColumnType) {m : Mem} (h : Layout m) :
    (∀ k cell m', k ≤ leafNodeNumCells m → 1 ≤ cell.length ∧ cell.length ≤ maxLocalPayload →
      leafNodeInsert m k cell = some m' → Layout m' ∧ cells m' = (cells m).insertIdx k cell) ∧
    (∀ k < leafNodeNumCells m, Layout (removeSlot m k) ∧ cells (removeSlot m k) = (cells m).eraseIdx k) ∧
    (Layout (leafNodeDefragment m) ∧ cells (leafNodeDefragment m) = cells m) ∧
    (∀ sibling parent si p', Layout sibling → (0 < si ∨ si < internalNodeNumKeys parent) →
      leafNodeHandleUnderflow ops c ⟨m, sibling, parent⟩ si = p' →
      Layout p'.self ∧ Layout p'.sibling ∧
        (cells p'.self, cells p'.sibling) = rebalance (decide (0 < si)) (cells m) (cells sibling)) ∧
    ∀ root, Layout (copyToRoot root m) ∧ cells (copyToRoot root m) = cells m := by
  refine ⟨fun k cell m' hk hsize hm => leafNodeInsert_spec h hk hsize hm, fun k hk => ?_, ?_, ?_, fun root => copyToRoot_spec root h⟩
  · obtain ⟨hl, hc, -⟩ := removeSlot_spec h hk
    exact ⟨hl, hc⟩
  · obtain ⟨hl, hc, -⟩ := leafNodeDefragment_spec h
    exact ⟨hl, hc⟩
  · rintro sibling parent si p' hs hsi rfl
    exact leafNodeHandleUnderflow_spec ops c ⟨m, sibling, parent⟩ si h hs hsi

/-- A new leaf has no cells. -/
theorem initializeLeafNode_spec (m : Mem) : leafNodeNumCells (initializeLeafNode m) = 0 ∧
    leafNodeFreeSpace (initializeLeafNode m) = pageSize := by
  refine ⟨?_, u16_setU16 _ _ (by decide)⟩
  have h := u32_setU32 (write m 0 [1, 0]) 8 (x := 0) (by decide)
  refine Eq.trans (u32_congr fun a h1 h2 => ?_) h
  rw [initializeLeafNode, setU16_off (by omega), setU32_off (by omega)]

theorem cells_eq_nil (h : leafNodeNumCells m = 0) : cells m = [] :=
  List.eq_nil_of_length_eq_zero ((length_cells m).trans h)

theorem layout_initializeLeafNode (m : Mem) : Layout (initializeLeafNode m) := by
  obtain ⟨hn, hf⟩ := initializeLeafNode_spec m
  have hslots : slots (initializeLeafNode m) = [] := by rw [slots, hn]; rfl
  refine ⟨?_, le_of_eq hf, ?_, ?_, ?_⟩
  · rw [slotsEnd, hn, hf]
    decide
  all_goals simp [hslots]

/-- A cell goes into a new leaf. -/
theorem slotted_pages_are_lists_small : ∃ m, leafNodeInsert (initializeLeafNode fun _ => 0) 0 [7, 7, 7] = some m ∧
    Layout m ∧ cells m = [[7, 7, 7]] := by
  obtain ⟨hn, hf⟩ := initializeLeafNode_spec fun _ => 0
  have hroom : HasRoom (initializeLeafNode fun _ => 0) 3 := by
    rw [HasRoom, slotsEnd, hn, hf]
    decide
  have hinsert : leafNodeInsert (initializeLeafNode fun _ => 0) 0 [7, 7, 7] = some _ := if_pos hroom
  obtain ⟨hl, hc⟩ := (slotted_pages_are_lists ieeeOps .text (layout_initializeLeafNode fun _ => 0)).1 0 [7, 7, 7] _
    (Nat.zero_le _) (by decide) hinsert
  rw [cells_eq_nil hn] at hc
  exact ⟨_, hinsert, hl, hc⟩

end Page

end CustomDB
