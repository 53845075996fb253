import CustomDB.Page.SlottedSpec

/-!
# Splitting a leaf

`leaf_node_split_and_insert` on the bytes of the two pages. The cells are divided by their number, and each half is
packed from the end of its page on without a test of the room: the halves are sound leaves exactly where their cells
fit a page.
-/

namespace CustomDB

namespace Page

open Lib.Bytes Lib.Memory Lib.Items

variable {m m' : Mem} {i j k n : Nat} {cell : List UInt8} {cs : List (List UInt8)}

/-! ## The split -/

/-- `temp_cells`. -/
def tempCells (node : Mem) (cellNum : Nat) (cell : List UInt8) : List (List UInt8) :=
  (List.range (leafNodeNumCells node + 1)).map fun i =>
    if i = cellNum then cell else cellOf node (leafNodeSlot node (if i < cellNum then i else i - 1))

/-- A turn of the loop that populates a page: the page and its offset. -/
def populateStep (temp : List (List UInt8)) (t : Mem × Nat) (i : Nat) : Mem × Nat :=
  let cell := temp.getD i []
  let offset := sub16 t.2 cell.length
  (setSlot (write t.1 offset cell) i ⟨offset, cell.length⟩, offset)

/-- The page with the cells, their number and the free-space offset. -/
def populate (node : Mem) (temp : List (List UInt8)) : Mem :=
  let t := (List.range temp.length).foldl (populateStep temp) (node, pageSize)
  setU16 (setU32 t.1 8 temp.length) 16 t.2

/-- The two halves: the old page and the new one. -/
def splitHalves (oldNode newNode : Mem) (newPage cellNum : Nat) (cell : List UInt8) : Mem × Mem :=
  let new := setU32 (setU32 (initializeLeafNode newNode) 4 (nodeParent oldNode)) 12 (leafNodeNextLeaf oldNode)
  let temp := tempCells oldNode cellNum cell
  let lsplit := temp.length / 2
  let wasRoot := isNodeRoot oldNode
  let old := initializeLeafNode oldNode
  let old := setU32 (if wasRoot then write old 1 [1] else old) 12 newPage
  (populate old (temp.take lsplit), populate new (temp.drop lsplit))

/-- `initialize_internal_node`. -/
def initializeInternalNode (node : Mem) : Mem := setU32 (setU32 (write node 0 [0, 0]) 8 0) 12 invalidPageNum

/-- `create_new_root` of a leaf: the left child on the fresh page `leftChild`, and the right child. -/
def createNewRoot (root rightChild leftChild : Mem) (rootPageNum : Nat) : Mem × Mem :=
  let rightChild := if IsInternal root then initializeInternalNode rightChild else rightChild
  let leftChild := write (write leftChild 0 (read root 0 pageSize)) 1 [0]
  (setU32 leftChild 4 rootPageNum, setU32 rightChild 4 rootPageNum)

/-- `leaf_node_split_and_insert`: the leaves that hold the halves in the end. -/
def leafNodeSplitAndInsert (oldNode newNode leftChild : Mem) (newPage rootPageNum cellNum : Nat) (cell : List UInt8) :
    Mem × Mem :=
  let t := splitHalves oldNode newNode newPage cellNum cell
  if isNodeRoot t.1 then createNewRoot t.1 t.2 leftChild rootPageNum else t

/-- What a leaf keeps: the slots end before the free space, the cells are in the page and apart. -/
structure Sound (m : Mem) : Prop where
  ends : slotsEnd m ≤ leafNodeFreeSpace m
  inside : ∀ s ∈ slots m, s.offset + s.size ≤ pageSize
  apart : (slots m).Pairwise Slot.Apart

theorem Layout.sound (h : Layout m) : Sound m := ⟨h.ends, fun s hs => (h.inside s hs).2, h.apart⟩

/-! ## The list of cells -/

theorem tempCells_eq (hk : k ≤ leafNodeNumCells m) : tempCells m k cell = (cells m).insertIdx k cell := by
  apply List.ext_getElem?
  intro i
  rw [tempCells, List.getElem?_map, List.getElem?_insertIdx, length_cells]
  by_cases hi : i < leafNodeNumCells m + 1
  · rw [List.getElem?_range hi, Option.map_some]
    by_cases hlt : i < k
    · rw [if_neg (by omega), if_pos hlt, if_pos hlt, getElem?_cells (by omega)]
    · by_cases heq : i = k
      · rw [if_pos heq, if_neg hlt, if_pos heq, if_pos (by omega)]
      · rw [if_neg heq, if_neg hlt, if_neg hlt, if_neg heq, getElem?_cells (by omega)]
  · rw [List.getElem?_eq_none (by rw [List.length_range]; omega), if_neg (by omega), if_neg (by omega),
      List.getElem?_eq_none (by rw [length_cells]; omega)]
    rfl

/-- What the cells of a full leaf and one more take stays far below the end of the offsets. -/
theorem sum_insertIdx_lt (h : Layout m) (hk : k ≤ leafNodeNumCells m) (hsize : cell.length ≤ maxLocalPayload) :
    (((cells m).insertIdx k cell).map List.length).sum + 4 * leafNodeNumCells m + 20 ≤ 2 * pageSize := by
  have hfits := h.fits
  have hle : k ≤ (cells m).length := by rwa [length_cells]
  have hperm := ((List.perm_insertIdx cell (cells m) hle).map List.length).sum_eq
  rw [hperm, List.map_cons, List.sum_cons]
  unfold Fits slotAt leafNodeHeaderSize at hfits
  rw [length_cells] at hfits
  unfold pageSize maxLocalPayload at *
  omega

/-! ## Populating a page -/

/-- The loop over the first `i` cells. -/
def populateLoop (node : Mem) (temp : List (List UInt8)) (i : Nat) : Mem × Nat :=
  (List.range i).foldl (populateStep temp) (node, pageSize)

theorem populateLoop_succ (node : Mem) (temp : List (List UInt8)) (i : Nat) :
    populateLoop node temp (i + 1) = populateStep temp (populateLoop node temp i) i := by
  rw [populateLoop, List.range_succ, List.foldl_append, List.foldl_cons, List.foldl_nil, populateLoop]

/-- The offset falls by the sizes, in 16 bits. -/
theorem populateLoop_offset (node : Mem) (hsum : (cs.map List.length).sum ≤ 2 * pageSize) (hi : i ≤ cs.length) :
    (populateLoop node cs i).2 = (pageSize + (2 ^ 16 - ((cs.take i).map List.length).sum)) % 2 ^ 16 := by
  induction i with
  | zero =>
    rw [List.take_zero]
    rfl
  | succ i ih =>
    have hget : cs[i]? = some cs[i] := List.getElem?_eq_getElem hi
    have hle := sum_take_le cs (i + 1)
    have hnext := sum_take_succ hget
    rw [populateLoop_succ, populateStep]
    dsimp only
    rw [ih (by omega), List.getD_eq_getElem?_getD, hget, Option.getD_some]
    unfold sub16
    unfold pageSize at *
    omega

/-- Cells that fit are packed, and the header stays. -/
theorem populateLoop_packed (node : Mem) (hfits : Fits cs) (hi : i ≤ cs.length) :
    Packed (populateLoop node cs i).1 cs i ∧ (populateLoop node cs i).2 = packedAt cs i ∧
      ∀ a < leafNodeHeaderSize, (populateLoop node cs i).1 a = node a := by
  have hpos : ∀ i, slotAt i = 20 + 4 * i := fun i => rfl
  induction i with
  | zero => exact ⟨Packed.zero _ _, (packedAt_zero cs).symm, fun _ _ => rfl⟩
  | succ i ih =>
    obtain ⟨hp, hoff, hheader⟩ := ih (by omega)
    have hget : cs[i]? = some cs[i] := List.getElem?_eq_getElem hi
    obtain ⟨hnext, hends, hpage⟩ := packedAt_succ hfits hget
    rw [hpos] at hends
    rw [populateLoop_succ, populateStep]
    generalize populateLoop node cs i = t at hp hoff hheader
    dsimp only
    rw [List.getD_eq_getElem?_getD, hget, Option.getD_some, hoff, sub16_eq (by omega) (by unfold pageSize at hpage; omega),
      show packedAt cs i - cs[i].length = packedAt cs (i + 1) by omega]
    refine ⟨hp.step hget (fun j hj => ?_) ?_ ?_ fun a ha => ?_, rfl, fun a ha => ?_⟩
    · rw [leafNodeSlot_setSlot_of_ne (by omega)]
      exact leafNodeSlot_congr fun a h1 h2 => write_off (by rw [hpos] at h2; omega)
    · have hlt : cs[i].length < 2 ^ 16 := by
        unfold pageSize at hpage
        omega
      exact leafNodeSlot_setSlot_self _ _ (by unfold pageSize at hpage; dsimp only; omega) hlt
    · have hread := read_write_self t.1 (packedAt cs (i + 1)) cs[i]
      refine Eq.trans (read_congr fun a h1 _ => setSlot_off ?_) hread
      rw [hpos]
      omega
    · rw [setSlot_off (by rw [hpos]; omega), write_off (by omega)]
    · unfold leafNodeHeaderSize at ha
      rw [setSlot_off (by rw [hpos]; omega), write_off (by omega), hheader a ha]

/-- The header of a populated page. -/
theorem populate_header (node : Mem) (hlen : cs.length < 2 ^ 32) (hoff : (populateLoop node cs cs.length).2 < 2 ^ 16) :
    leafNodeNumCells (populate node cs) = cs.length ∧
      leafNodeFreeSpace (populate node cs) = (populateLoop node cs cs.length).2 ∧
      ∀ a, 18 ≤ a → populate node cs a = (populateLoop node cs cs.length).1 a := by
  refine ⟨?_, u16_setU16 _ _ hoff, fun a ha => ?_⟩
  · rw [leafNodeNumCells, populate, u32_congr fun a h1 h2 => setU16_off (by omega)]
    exact u32_setU32 _ _ hlen
  · rw [populate, setU16_off (by omega), setU32_off (by omega)]
    rfl

/-- Where the cells fit, the page holds them. -/
theorem populate_spec (node : Mem) (hfits : Fits cs) (hsizes : ∀ c ∈ cs, 1 ≤ c.length ∧ c.length ≤ maxLocalPayload) :
    Layout (populate node cs) ∧ cells (populate node cs) = cs ∧ populate node cs 0 = node 0 := by
  obtain ⟨hp, hoff, hheader⟩ := populateLoop_packed node hfits (le_refl cs.length)
  have hle : packedAt cs cs.length < 2 ^ 16 := lt_of_le_of_lt (Nat.sub_le ..) (by decide)
  have hlen : cs.length < 2 ^ 32 := by
    unfold Fits slotAt pageSize at hfits
    omega
  obtain ⟨hn, hf, hrest⟩ := populate_header node hlen (by rw [hoff]; exact hle)
  have hpacked := hp.congr rfl hfits fun a h1 _ => hrest a (by unfold leafNodeHeaderSize at h1; omega)
  obtain ⟨hl, hc⟩ := hpacked.spec hfits hn (hf.trans hoff) hsizes
  refine ⟨hl, hc, ?_⟩
  rw [populate, setU16_off (by omega), setU32_off (by omega)]
  exact hheader 0 (by decide)

/-- Where they do not fit, it is no sound leaf. -/
theorem not_sound_populate (node : Mem) (hsum : (cs.map List.length).sum + 4 * cs.length ≤ 2 * pageSize)
    (hfits : ¬ Fits cs) : ¬ Sound (populate node cs) := by
  intro h
  have hoff := populateLoop_offset node (by omega) (le_refl cs.length)
  rw [List.take_length] at hoff
  unfold pageSize at hsum hoff
  have hlt : (populateLoop node cs cs.length).2 < 2 ^ 16 := by
    rw [hoff]
    exact Nat.mod_lt _ (by decide)
  obtain ⟨hn, hf, hrest⟩ := populate_header node (by omega) hlt
  have hends := h.ends
  rw [slotsEnd, hn, hf, hoff] at hends
  unfold Fits slotAt leafNodeHeaderSize pageSize at hfits
  unfold slotAt leafNodeHeaderSize at hends
  -- the offset has passed zero, and the last slot has it
  have hwrapped : 4096 < (cs.map List.length).sum := by omega
  obtain ⟨n, hlast⟩ : ∃ n, cs.length = n + 1 := by
    cases cs with
    | nil => exact absurd hwrapped (by decide)
    | cons c cs => exact ⟨cs.length, rfl⟩
  have hslot : (leafNodeSlot (populate node cs) n).offset = (populateLoop node cs cs.length).2 := by
    rw [leafNodeSlot_congr fun a h1 _ => hrest a (by have := header_lt_slotAt n; unfold leafNodeHeaderSize at this; omega)]
    rw [hlast, populateLoop_succ, populateStep] at hlt ⊢
    dsimp only at hlt ⊢
    rw [leafNodeSlot, setSlot]
    dsimp only
    rw [u16_congr fun a h1 h2 => setU16_off (by omega), u16_setU16 _ _ hlt]
  have hin := h.inside _ (mem_slots.mpr ⟨n, by omega, rfl⟩)
  rw [hslot, hoff] at hin
  unfold pageSize at hin
  omega

/-! ## The two leaves -/

/-- A leaf with the same body is sound where the other is. -/
theorem SameBody.sound (hb : SameBody m m') (hends : slotsEnd m ≤ pageSize) (h : Sound m') : Sound m := by
  obtain ⟨hn, hf, hslots⟩ := hb.slots hends
  obtain ⟨h1, h2, h3⟩ := h
  rw [slotsEnd, hn, hf] at h1
  rw [hslots] at h2 h3
  exact ⟨h1, h2, h3⟩

theorem sameBody_setU32 (m : Mem) (x : Nat) : SameBody m (setU32 m 4 x) :=
  ⟨fun a h1 _ => setU32_off (by omega), fun a h1 _ => setU32_off (by omega),
    fun a h1 _ => setU32_off (by unfold leafNodeHeaderSize at h1; omega)⟩

/-- The left child of the new root has the body of the old root. -/
theorem sameBody_leftChild (root rightChild leftChild : Mem) (rootPageNum : Nat) :
    SameBody root (createNewRoot root rightChild leftChild rootPageNum).1 := by
  have hcopy : ∀ a, 8 ≤ a → a < pageSize → (createNewRoot root rightChild leftChild rootPageNum).1 a = root a := by
    intro a h1 h2
    unfold createNewRoot
    dsimp only
    rw [setU32_off (by omega), write_off (by simp; omega), write_read, if_pos (by omega)]
  exact ⟨fun a h1 h2 => hcopy a h1 (by unfold pageSize; omega), fun a h1 h2 => hcopy a (by omega) (by unfold pageSize; omega),
    fun a h1 h2 => hcopy a (by unfold leafNodeHeaderSize at h1; omega) h2⟩

/-- The leaves in the end have the bodies of the halves, the right one if the left one is a leaf still. -/
theorem sameBody_split (old new leftChild : Mem) (newPage rootPageNum k : Nat) (cell : List UInt8) :
    SameBody (splitHalves old new newPage k cell).1
        (leafNodeSplitAndInsert old new leftChild newPage rootPageNum k cell).1 ∧
      ((splitHalves old new newPage k cell).1 0 = 1 → SameBody (splitHalves old new newPage k cell).2
        (leafNodeSplitAndInsert old new leftChild newPage rootPageNum k cell).2) := by
  unfold leafNodeSplitAndInsert
  dsimp only
  split
  · refine ⟨sameBody_leftChild .., fun hleaf => ?_⟩
    have hnot : ¬ IsInternal (splitHalves old new newPage k cell).1 := by
      rw [IsInternal, hleaf]
      decide
    unfold createNewRoot
    dsimp only
    rw [if_neg hnot]
    exact sameBody_setU32 ..
  · exact ⟨⟨fun _ _ _ => rfl, fun _ _ _ => rfl, fun _ _ _ => rfl⟩, fun _ => ⟨fun _ _ _ => rfl, fun _ _ _ => rfl, fun _ _ _ => rfl⟩⟩

/-- A populated page has its slots in it, however the cells lie. -/
theorem slotsEnd_populate (node : Mem) (hsum : (cs.map List.length).sum ≤ 2 * pageSize) (hlen : cs.length ≤ 1019) :
    slotsEnd (populate node cs) ≤ pageSize := by
  have hoff := populateLoop_offset node hsum (le_refl cs.length)
  have hlt : (populateLoop node cs cs.length).2 < 2 ^ 16 := by
    rw [hoff]
    exact Nat.mod_lt _ (by decide)
  rw [slotsEnd, (populate_header node (by omega) hlt).1]
  unfold slotAt leafNodeHeaderSize pageSize
  omega

/-- The halves are populated with the two parts of the list, the left one on a page that is a leaf. -/
theorem splitHalves_eq (new : Mem) (newPage : Nat) (cell : List UInt8) (hk : k ≤ leafNodeNumCells m) :
    ∃ old new' : Mem, old 0 = 1 ∧ splitHalves m new newPage k cell =
      (populate old (((cells m).insertIdx k cell).take ((leafNodeNumCells m + 1) / 2)),
        populate new' (((cells m).insertIdx k cell).drop ((leafNodeNumCells m + 1) / 2))) := by
  have hlen : (tempCells m k cell).length = leafNodeNumCells m + 1 := by rw [tempCells, List.length_map, List.length_range]
  unfold splitHalves
  dsimp only
  rw [hlen, tempCells_eq hk]
  refine ⟨_, _, ?_, rfl⟩
  rw [setU32_off (by omega)]
  split <;> rfl

/-- What both parts of the list keep. -/
theorem parts_bounds (h : Layout m) (hk : k ≤ leafNodeNumCells m) (hsize : 1 ≤ cell.length ∧ cell.length ≤ maxLocalPayload)
    {part : List (List UInt8)} (hpart : part.Sublist ((cells m).insertIdx k cell)) :
    (part.map List.length).sum + 4 * leafNodeNumCells m + 20 ≤ 2 * pageSize ∧ part.length ≤ leafNodeNumCells m + 1 ∧
      ∀ c ∈ part, 1 ≤ c.length ∧ c.length ≤ maxLocalPayload := by
  have hsum := sum_insertIdx_lt h hk hsize.2
  have hle := (hpart.map List.length).sum_le_sum fun _ _ => Nat.zero_le _
  refine ⟨by omega, ?_, fun c hc => ?_⟩
  · have hlen := hpart.length_le
    rwa [List.length_insertIdx_of_le_length (by rwa [length_cells]), length_cells] at hlen
  · rcases List.eq_or_mem_of_mem_insertIdx (hpart.subset hc) with rfl | hc
    · exact hsize
    · exact h.cell_size c hc

/-- The left leaf is sound only if the first half of the cells fits a page. -/
theorem fits_of_sound_left (h : Layout m) (new leftChild : Mem) (newPage rootPageNum : Nat) (hk : k ≤ leafNodeNumCells m)
    (hsize : 1 ≤ cell.length ∧ cell.length ≤ maxLocalPayload)
    (hl : Sound (leafNodeSplitAndInsert m new leftChild newPage rootPageNum k cell).1) :
    Fits (((cells m).insertIdx k cell).take ((leafNodeNumCells m + 1) / 2)) := by
  by_contra hleft
  have hcount := h.count
  obtain ⟨hsum, -, -⟩ := parts_bounds h hk hsize (List.take_sublist ((leafNodeNumCells m + 1) / 2) _)
  have hlen := List.length_take_le ((leafNodeNumCells m + 1) / 2) ((cells m).insertIdx k cell)
  obtain ⟨old, new', -, hhalves⟩ := splitHalves_eq new newPage cell hk
  have hbody := (sameBody_split m new leftChild newPage rootPageNum k cell).1
  rw [hhalves] at hbody
  exact not_sound_populate old (by omega) hleft (hbody.sound (slotsEnd_populate old (by omega) (by omega)) hl)

/-- The halves are sound and hold all cells exactly where the first half of the cells fits a page, and so does the
second. -/
theorem split_sound_iff {m : Mem} (h : Layout m) (new leftChild : Mem) (newPage rootPageNum : Nat)
    (hk : k ≤ leafNodeNumCells m) (hsize : 1 ≤ cell.length ∧ cell.length ≤ maxLocalPayload) {t : Mem × Mem}
    (ht : leafNodeSplitAndInsert m new leftChild newPage rootPageNum k cell = t) :
    (Sound t.1 ∧ Sound t.2 ∧ cells t.1 ++ cells t.2 = (cells m).insertIdx k cell) ↔
      Fits (((cells m).insertIdx k cell).take ((leafNodeNumCells m + 1) / 2)) ∧
        Fits (((cells m).insertIdx k cell).drop ((leafNodeNumCells m + 1) / 2)) := by
  have hleftFits := fits_of_sound_left h new leftChild newPage rootPageNum hk hsize
  obtain ⟨hbl, hbr⟩ := sameBody_split m new leftChild newPage rootPageNum k cell
  obtain ⟨-, -, hls⟩ := parts_bounds h hk hsize (List.take_sublist ((leafNodeNumCells m + 1) / 2) _)
  obtain ⟨hsum, -, hrs⟩ := parts_bounds h hk hsize (List.drop_sublist ((leafNodeNumCells m + 1) / 2) _)
  obtain ⟨old, new', hold0, hhalves⟩ := splitHalves_eq new newPage cell hk
  rw [hhalves] at hbl hbr
  rw [ht] at hleftFits hbl hbr
  dsimp only at hbl hbr
  constructor
  · rintro ⟨hl, hr, -⟩
    have hleft := hleftFits hl
    refine ⟨hleft, ?_⟩
    by_contra hright
    have hcount := h.count
    have hlen : (((cells m).insertIdx k cell).drop ((leafNodeNumCells m + 1) / 2)).length =
        leafNodeNumCells m + 1 - (leafNodeNumCells m + 1) / 2 := by
      rw [List.length_drop, List.length_insertIdx_of_le_length (by rwa [length_cells]), length_cells]
    have hbody := hbr ((populate_spec old hleft hls).2.2.trans hold0)
    exact not_sound_populate new' (by omega) hright (hbody.sound (slotsEnd_populate new' (by omega) (by omega)) hr)
  · rintro ⟨hleft, hright⟩
    obtain ⟨hl, hlc, hl0⟩ := populate_spec old hleft hls
    obtain ⟨hr, hrc, -⟩ := populate_spec new' hright hrs
    obtain ⟨h1, h2⟩ := hbl.spec hl
    obtain ⟨h3, h4⟩ := (hbr (hl0.trans hold0)).spec hr
    exact ⟨h1.sound, h3.sound, by rw [h2, h4, hlc, hrc, List.take_append_drop]⟩

/-- A cell of `n` zeros. -/
def blank (n : Nat) : List UInt8 := List.replicate n 0

@[simp] theorem length_blank (n : Nat) : (blank n).length = n := List.length_replicate

/-- A leaf with given cells. -/
def leafOf (cs : List (List UInt8)) : Mem := populate (initializeLeafNode fun _ => 0) cs

theorem leafOf_spec (hfits : Fits cs) (hsizes : ∀ c ∈ cs, 1 ≤ c.length ∧ c.length ≤ maxLocalPayload) :
    Layout (leafOf cs) ∧ cells (leafOf cs) = cs ∧ leafNodeNumCells (leafOf cs) = cs.length := by
  obtain ⟨hl, hc, -⟩ := populate_spec (initializeLeafNode fun _ => 0) hfits hsizes
  exact ⟨hl, hc, by rw [← length_cells, leafOf, hc]⟩

/-- Four cells of the same size, and a fifth between them. -/
def evenCells : List (List UInt8) := [blank 1000, blank 1000, blank 1000, blank 1000]

theorem split_sound_even : ∃ m t, leafNodeInsert m 2 (blank 1000) = none ∧
    leafNodeSplitAndInsert m (fun _ => 0) (fun _ => 0) 2 1 2 (blank 1000) = t ∧ Sound t.1 ∧ Sound t.2 ∧
    cells t.1 ++ cells t.2 = [blank 1000, blank 1000, blank 1000, blank 1000, blank 1000] := by
  obtain ⟨hl, hc, hn⟩ := @leafOf_spec evenCells (by simp [evenCells, Fits, slotAt, leafNodeHeaderSize, pageSize])
    (by simp [evenCells, maxLocalPayload])
  have hk : 2 ≤ leafNodeNumCells (leafOf evenCells) := by
    rw [hn]
    decide
  have hsize : 1 ≤ (blank 1000).length ∧ (blank 1000).length ≤ maxLocalPayload := by simp [maxLocalPayload]
  obtain ⟨h1, h2, h3⟩ := (split_sound_iff hl (fun _ => 0) (fun _ => 0) 2 1 hk hsize rfl).mpr (by
    rw [hn, hc]
    simp [evenCells, Fits, slotAt, leafNodeHeaderSize, pageSize])
  refine ⟨leafOf evenCells, _, ?_, rfl, h1, h2, ?_⟩
  · rw [leafNodeInsert_eq_none hl hk hsize, hc]
    simp [evenCells, Fits, slotAt, leafNodeHeaderSize, pageSize]
  · rw [h3, hc]
    simp [evenCells]

/-- Three wide cells before four small ones. -/
def unevenCells : List (List UInt8) :=
  [blank 1023, blank 1023, blank 1023, blank 10, blank 10, blank 10, blank 10]

/-- A fourth wide cell before the others: the leaf is full, and the left half does not fit its page. -/
theorem uneven_split_overflows : ∃ m k cell, Layout m ∧ k ≤ leafNodeNumCells m ∧
    (1 ≤ cell.length ∧ cell.length ≤ maxLocalPayload) ∧ leafNodeInsert m k cell = none ∧
    ¬ Sound (leafNodeSplitAndInsert m (fun _ => 0) (fun _ => 0) 2 1 k cell).1 := by
  obtain ⟨hl, hc, hn⟩ := @leafOf_spec unevenCells (by simp [unevenCells, Fits, slotAt, leafNodeHeaderSize, pageSize])
    (by simp [unevenCells, maxLocalPayload])
  have hsize : 1 ≤ (blank 1023).length ∧ (blank 1023).length ≤ maxLocalPayload := by simp [maxLocalPayload]
  refine ⟨leafOf unevenCells, 0, blank 1023, hl, Nat.zero_le _, hsize, ?_, fun h => ?_⟩
  · rw [leafNodeInsert_eq_none hl (Nat.zero_le _) hsize, hc]
    simp [unevenCells, Fits, slotAt, leafNodeHeaderSize, pageSize]
  · have hfits := fits_of_sound_left hl _ _ _ _ (Nat.zero_le _) hsize h
    rw [hn, hc] at hfits
    simp [unevenCells, Fits, slotAt, leafNodeHeaderSize, pageSize] at hfits

end Page

end CustomDB
