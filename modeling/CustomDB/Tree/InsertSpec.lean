import CustomDB.Tree.Reads
import CustomDB.Catalog.RecordSpec

/-!
# Insertion keeps a tree well formed

Where no largest key is read off an empty leaf, `btree_insert` at the cursor of `btree_find` puts the row between
the rows it belongs between, and the tree is well formed again, whatever splits on the way.
-/

namespace CustomDB

open Lib

namespace Tree

variable {C : Type} [Cell C] {s : Store C} {h d p : Nat} {row : C} {t : Part C} {c₁ c₂ : List C} {n : Node C}
  {f : Frame C} {fs : List (Frame C)}

open Store

/-! ## The place of a new row -/

theorem WellFormed.place (hw : WellFormed s h t) (ht : ∀ q ∈ t.pages, Taken s q)
    (hnew : ∀ c ∈ t.rows, Cell.key c ≠ Cell.key row) (hd : h < d) :
    ∃ fs p c₁ c₂, fs.length = h ∧ plug (Part.leaf p (c₁ ++ c₂)) fs = t ∧ Place s row p c₁ c₂ fs ∧
      Found s (Cell.key row) fs ∧ s.btreeFind d (Cell.key row) = some ⟨p, c₁.length, c₂.isEmpty⟩ := by
  obtain ⟨fs, p, c₁, c₂, hcells, h₁, h₂, hlen, hplug, ha, hs, hb, hf, hfind⟩ := hw.find hnew hd
  rw [hcells] at hplug ha hs hb
  have hperm := plug_pages (Part.leaf p (c₁ ++ c₂)) fs
  rw [hplug] at hperm
  refine ⟨fs, p, c₁, c₂, hlen, hplug, ⟨hs.1, hcells, h₁, h₂, ha, hb, hperm.nodup_iff.mp hw.nodup,
    fun q hq => ht q (hperm.mem_iff.mpr hq), ?_, ?_⟩, hf, hfind⟩
  · rw [hplug]
    exact hw.sorted
  · rw [hplug]
    exact hw.chained

/-- `leaf_node_defragment` moves nothing in the tree. -/
theorem Place.defragment (hp : Place s row p c₁ c₂ fs) :
    Place (s.put p (s.node p).leafNodeDefragment) row p c₁ c₂ fs := by
  have hout : ∀ q ∈ outer fs, (s.put p (s.node p).leafNodeDefragment).node q = s.node q := fun q hq =>
    put_node_of_ne (hp.apart q hq)
  refine ⟨?_, ?_, hp.left, hp.right, ?_, hp.belongs, hp.nodup, hp.taken, hp.sorted, ?_⟩
  · rw [put_node_same]
    exact hp.nodeType
  · rw [put_node_same]
    exact hp.cells
  · refine hp.around.congr (List.nodup_cons.mp hp.nodup).2 hout rfl ?_ ?_
    · rw [leaf_page, put_node_same]
      rfl
    · rw [leaf_page, put_node_same]
      rfl
  · obtain ⟨a, hch⟩ := hp.chained
    refine ⟨a, hch.congr fun q _ => ?_⟩
    by_cases hq : q = p
    · rw [hq, put_node_same]
      rfl
    · rw [put_node_of_ne hq]

/-- An empty leaf has room for an inline row. -/
theorem hasRoom_of_nil (hn : n.cells = []) (hsize : Cell.size row < btreeMaxLocalPayload) :
    n.leafNodeDefragment.HasRoom (Cell.size row) := by
  have hfree : n.leafNodeDefragment.freeSpace = pageSize := by
    show Node.packed n.cells = pageSize
    rw [hn, Node.packed, List.map_nil, List.sum_nil]
    rfl
  have hend : n.leafNodeDefragment.slotsEnd = leafNodeHeaderSize := by
    show leafNodeHeaderSize + n.cells.length * pageSlotSize = leafNodeHeaderSize
    rw [hn]
    rfl
  rw [Node.HasRoom, hfree, hend]
  unfold btreeMaxLocalPayload at hsize
  unfold pageSize leafNodeHeaderSize pageSlotSize
  omega

/-! ## The insertion -/

theorem sameHead_putCell (n : Node C) (i : Nat) (row : C) : SameHead n (putCell n i row) := ⟨rfl, rfl, rfl⟩

theorem putCell_cells (hc : n.cells = c₁ ++ c₂) : (putCell n c₁.length row).cells = c₁ ++ row :: c₂ := by
  show n.cells.insertIdx c₁.length row = c₁ ++ row :: c₂
  rw [hc, insertIdx_append]

/-- A new inline row, for rows of any kind. -/
theorem WellFormed.insert (hw : WellFormed s h t) (ht : ∀ q ∈ t.pages, Taken s q) (ha : Allocates s (h + 2))
    (hd : h + 1 < d) (hnew : ∀ c ∈ t.rows, Cell.key c ≠ Cell.key row) (hsize : Cell.size row < btreeMaxLocalPayload)
    {cursor : Cursor} (hc : s.btreeFind d (Cell.key row) = some cursor)
    (hfit : ¬ s.FitsLeaf cursor row → s.SplitFits cursor row) (hr : s.ReadsFilled d cursor row) :
    ∃ s' h' t' l r, s.leafNodeInsert d cursor row = some s' ∧ WellFormed s' h' t' ∧ t.rows = l ++ r ∧
      t'.rows = l ++ row :: r := by
  obtain ⟨fs, p, c₁, c₂, hlen, hplug, hp, hf, hfind⟩ := hw.place ht hnew (lt_trans (Nat.lt_succ_self h) hd)
  obtain rfl := Option.some.inj (hfind.symm.trans hc)
  have hpt : Taken s p := hp.taken p (List.mem_cons_self ..)
  have hrows : t.rows = rowsBefore c₁ fs ++ rowsAfter c₂ fs := by rw [← hplug, plug_leaf_rows]
  have hrows' : (plug (Part.leaf p (c₁ ++ row :: c₂)) fs).rows = rowsBefore c₁ fs ++ row :: rowsAfter c₂ fs := by
    rw [plug_leaf_rows, rowsAfter_cons]
  by_cases hroom : (s.node p).HasRoom (Cell.size row)
  · refine ⟨_, _, _, _, _, ?_, hp.put (sameHead_putCell ..) ?_ (putCell_cells hp.cells), hrows, hrows'⟩
    · rw [leafNodeInsert, if_pos hroom, modify_of_taken hpt]
    · exact hp.nodeType
  have hp' := hp.defragment
  have hnode : (s.put p (s.node p).leafNodeDefragment).node p = (s.node p).leafNodeDefragment := put_node_same
  have hstart : s.leafNodeInsert d ⟨p, c₁.length, c₂.isEmpty⟩ row =
      if (s.node p).leafNodeDefragment.HasRoom (Cell.size row) then
        some ((s.put p (s.node p).leafNodeDefragment).put p (putCell (s.node p).leafNodeDefragment c₁.length row))
      else (s.put p (s.node p).leafNodeDefragment).leafNodeSplitAndInsert d ⟨p, c₁.length, c₂.isEmpty⟩ row := by
    rw [leafNodeInsert, if_neg hroom]
    dsimp only
    rw [modify_of_taken hpt, hnode, modify_of_taken (taken_put.mpr hpt), hnode]
  rw [hstart]
  by_cases hroom' : (s.node p).leafNodeDefragment.HasRoom (Cell.size row)
  · rw [if_pos hroom']
    refine ⟨_, _, _, _, _, rfl, hp'.put ?_ ?_ (putCell_cells hp.cells), hrows, hrows'⟩
    · rw [hnode]
      exact sameHead_putCell ..
    · exact hp.nodeType
  rw [if_neg hroom']
  -- the leaf is split
  have hnofit : ¬ s.FitsLeaf ⟨p, c₁.length, c₂.isEmpty⟩ row := not_or.mpr ⟨hroom, hroom'⟩
  obtain ⟨hl, hr'⟩ := hfit hnofit
  dsimp only at hl hr'
  rw [hp.cells, insertIdx_append] at hl hr'
  have hne : c₁ ++ c₂ ≠ [] := fun hn => hroom' (hasRoom_of_nil (hp.cells.trans hn) hsize)
  have hlen₂ : 2 ≤ (c₁ ++ row :: c₂).length := by
    have := List.length_pos_iff.mpr hne
    rw [List.length_append] at this
    rw [List.length_append, List.length_cons]
    omega
  obtain ⟨u, w, hsp, hins⟩ := leafNodeSplitAndInsert_eq hp'.nodeType hp'.cells (taken_put.mpr hpt) ha.put
    (lt_of_le_of_lt (Nat.zero_le _) hd) rfl hl hr' c₂.isEmpty
  have htake : (c₁ ++ row :: c₂).take ((c₁ ++ row :: c₂).length / 2) ≠ [] := List.length_pos_iff.mp (by
    rw [List.length_take]
    omega)
  have hdrop : (c₁ ++ row :: c₂).drop ((c₁ ++ row :: c₂).length / 2) ≠ [] := List.length_pos_iff.mp (by
    rw [List.length_drop]
    omega)
  rw [hins, hnode]
  cases fs with
  | nil =>
    have hroot : (s.node p).isRoot = true := hp.around.2
    obtain ⟨v, t', hv, hw', hrows'⟩ := hp'.split_root hsp (List.take_append_drop ..) htake
      (lt_of_le_of_lt (Nat.zero_le _) hd)
    have hflag : (s.node p).leafNodeDefragment.isRoot = true := hroot
    rw [if_pos hflag]
    refine ⟨v, 1, t', c₁, c₂, hv, hw', ?_, hrows'⟩
    rw [hrows]
    simp only [rowsBefore, rowsAfter, before, after, List.flatMap_nil, List.nil_append, List.append_nil]
  | cons f fs =>
    have hparent : (s.node p).parent = f.page := hp.around.2.2.2.1
    have hroot : (s.node p).isRoot = false := hp.around.2.2.2.2.1
    have hfilled : Filled (f :: fs) := by
      rcases hr with hr | hr | hr
      · exact absurd hr hnofit
      · exact absurd (hroot.symm.trans hr) Bool.false_ne_true
      · dsimp only at hr
        rw [hparent] at hr
        exact filled_of_reads hp.around hf hr
    rw [List.length_cons] at hlen
    have hflag : ¬ (s.node p).leafNodeDefragment.isRoot = true := by
      show ¬ (s.node p).isRoot = true
      rw [hroot]
      decide
    have hpar : (s.node p).leafNodeDefragment.parent = f.page := hparent
    rw [if_neg hflag, hpar]
    rw [← hlen] at hsp hd
    obtain ⟨v, h', t', hv, hw', hrows'⟩ := hp'.split_below hsp (List.take_append_drop ..) htake hdrop hne hfilled
      (lt_trans (Nat.lt_succ_self _) hd)
    exact ⟨v, h', t', _, _, hv, hw', hrows, hrows'⟩

/-! ## Rows of a table -/

/-- `OVERFLOW_STUB_HEADER`. -/
def overflowStubHeader : Nat := 8

/-- `int_val` after `extract_col0_from_packed_record`, for a column 0 of type INT. -/
def extractCol0FromPackedRecord (ops : FloatOps) (recordBytes : List UInt8) : BitVec 32 :=
  let input := if btreeMaxLocalPayload ≤ recordBytes.length then recordBytes.drop overflowStubHeader else recordBytes
  let hdr := getVarint input
  let serialType := (getVarint (input.drop hdr.2)).1
  (readValue ops .int serialType (input.drop (hdr.1 % 2 ^ 32))).1.intVal

/-- A cell as it is in a leaf, of a table whose column 0 is an INT. -/
structure PackedRecord (ops : FloatOps) where
  bytes : List UInt8

instance (ops : FloatOps) : Cell (PackedRecord ops) :=
  ⟨fun r => (extractCol0FromPackedRecord ops r.bytes).toInt, fun r => r.bytes.length⟩

/-- The key of an inline row is what `deserialize_row` reads into column 0. -/
theorem extractCol0_eq (ops : FloatOps) (cols : List ColumnType) {src : List UInt8}
    (hsize : src.length < btreeMaxLocalPayload) :
    (deserializeRowWithMvcc ops (.int :: cols) src).1.head?.map Value.intVal =
      some (extractCol0FromPackedRecord ops src) := by
  rw [extractCol0FromPackedRecord, if_neg (not_le.mpr hsize)]
  rfl

/-- At the cursor of a new key, an inline row whose leaf is not split, or whose split reads no largest key off an
empty leaf. -/
theorem insert_keeps_tree (ops : FloatOps) (s : Store (PackedRecord ops)) (h d : Nat) (t : Part (PackedRecord ops))
    (row : PackedRecord ops) (cursor : Cursor) (hw : WellFormed s h t) (ht : ∀ q ∈ t.pages, Taken s q)
    (ha : Allocates s (h + 2)) (hd : h + 1 < d) (hnew : ∀ c ∈ t.rows, Cell.key c ≠ Cell.key row)
    (hsize : Cell.size row < btreeMaxLocalPayload) (hc : s.btreeFind d (Cell.key row) = some cursor)
    (hfit : ¬ s.FitsLeaf cursor row → s.SplitFits cursor row) (hr : s.ReadsFilled d cursor row) :
    ∃ s' h' t' l r, s.leafNodeInsert d cursor row = some s' ∧ WellFormed s' h' t' ∧ t.rows = l ++ r ∧
      t'.rows = l ++ row :: r :=
  hw.insert ht ha hd hnew hsize hc hfit hr

/-! ## An empty leaf -/

/-- A row with the key `k` and a TEXT of 940 bytes. -/
def wideRow (k : UInt8) : PackedRecord zeroOps := ⟨[4, 1, 0xe5, 0x0e, k] ++ List.replicate 940 97⟩

/-- A full leaf on page 34. -/
def fullLeaf : List (PackedRecord zeroOps) := [wideRow 10, wideRow 20, wideRow 30, wideRow 40]

/-- A leaf under page 33. -/
def leafNode (cells : List (PackedRecord zeroOps)) (next : Nat) : Node (PackedRecord zeroOps) :=
  ⟨.leaf, false, 33, cells, next, Node.packed cells, 0, 0, fun _ => (0, 0)⟩

/-- The pages of `twoLeaves`. -/
def twoLeavesNode (b : List (PackedRecord zeroOps)) (p : Nat) : Node (PackedRecord zeroOps) :=
  if p = 33 then ⟨.internal, true, 0, [], 0, 0, 1, 35, fun _ => (34, 40)⟩
  else if p = 34 then leafNode fullLeaf 35
  else if p = 35 then leafNode b 0
  else Node.zero

/-- A root over the full leaf and one with the cells `b`. -/
def twoLeaves (b : List (PackedRecord zeroOps)) : Store (PackedRecord zeroOps) := ⟨twoLeavesNode b, 36, [], 33, 33⟩

def twoLeavesTree (b : List (PackedRecord zeroOps)) : Part (PackedRecord zeroOps) :=
  Part.join 33 [Part.leaf 34 fullLeaf, Part.leaf 35 b]

theorem twoLeaves_wellFormed {b : List (PackedRecord zeroOps)} (hb : Sorted (fullLeaf ++ b)) :
    WellFormed (twoLeaves b) 1 (twoLeavesTree b) := by
  have hmax : (Part.leaf 34 fullLeaf).maxKey = 40 := by
    rw [Part.maxKey, rows_leaf]
    decide +kernel
  refine ⟨⟨[Part.leaf 34 fullLeaf, Part.leaf 35 b], ⟨rfl, rfl, fun i k hi hk => ?_, fun k hk => ?_⟩, ?_, rfl,
    fun k hk => ?_⟩, rfl, rfl, ?_, ⟨34, ?_⟩, ?_⟩
  · obtain rfl : i = 0 := Nat.lt_one_iff.mp hi
    obtain rfl := Option.some.inj hk
    refine ⟨by rw [hmax]; rfl, ?_⟩
    rw [rows_leaf]
    exact List.cons_ne_nil _ _
  · obtain rfl := Option.some.inj hk
    rfl
  · show 1 ≤ internalNodeMaxKeys
    decide
  · rcases List.mem_cons.mp hk with rfl | hk
    · exact ⟨⟨rfl, rfl⟩, rfl, rfl⟩
    · obtain rfl := List.mem_singleton.mp hk
      exact ⟨⟨rfl, rfl⟩, rfl, rfl⟩
  · rw [twoLeavesTree, rows_join, List.flatMap_cons, List.flatMap_singleton, rows_leaf, rows_leaf]
    exact hb
  · exact ⟨rfl, (by decide : ¬ 34 = 0), rfl, (by decide : ¬ 35 = 0), rfl⟩
  · show [33, 34, 35].Nodup
    decide

theorem twoLeaves_taken (b : List (PackedRecord zeroOps)) : ∀ q ∈ (twoLeavesTree b).pages, Taken (twoLeaves b) q := by
  intro q hq
  have hq' : q ∈ [33, 34, 35] := hq
  simp only [List.mem_cons, List.not_mem_nil, or_false] at hq'
  refine ⟨by omega, ?_, List.not_mem_nil⟩
  show q < 36
  omega

theorem twoLeaves_allocates (b : List (PackedRecord zeroOps)) : Allocates (twoLeaves b) 3 :=
  ⟨List.nodup_nil, fun q hq => absurd hq List.not_mem_nil, (by decide : 0 < 33), (by decide : 36 + 3 ≤ invalidPageNum)⟩

instance (rows : List (PackedRecord zeroOps)) : Decidable (Sorted rows) := inferInstanceAs (Decidable (List.Pairwise _ _))

/-- The key 25 splits the full leaf, and the other leaf has a row. -/
theorem insert_keeps_tree_split : ¬ (twoLeaves [wideRow 50]).FitsLeaf ⟨34, 2, false⟩ (wideRow 25) ∧
    ∃ s' h' t' l r, (twoLeaves [wideRow 50]).leafNodeInsert 3 ⟨34, 2, false⟩ (wideRow 25) = some s' ∧
      WellFormed s' h' t' ∧ (twoLeavesTree [wideRow 50]).rows = l ++ r ∧ t'.rows = l ++ wideRow 25 :: r :=
  ⟨by decide +kernel, insert_keeps_tree zeroOps (twoLeaves [wideRow 50]) 1 3 (twoLeavesTree [wideRow 50]) (wideRow 25)
    ⟨34, 2, false⟩ (twoLeaves_wellFormed (by decide +kernel)) (twoLeaves_taken _) (twoLeaves_allocates _) (by decide)
    (by decide +kernel) (by decide +kernel) (by decide +kernel) (fun _ => by decide +kernel) (by decide +kernel)⟩

/-- The result of the same insertion when the other leaf is empty. -/
def brokenTree : Store (PackedRecord zeroOps) :=
  ((twoLeaves []).leafNodeInsert 3 ⟨34, 2, false⟩ (wideRow 25)).getD (twoLeaves [])

/-- The empty leaf has a slot with the key 0, and the new leaf has come behind it. -/
theorem brokenTree_pages : (brokenTree.node 33).nodeType = .internal ∧ (brokenTree.node 33).numKeys = 2 ∧ (brokenTree.node 33).slots 1 = (35, 0) ∧
    (brokenTree.node 33).rightChild = 36 ∧ (brokenTree.node 35).nodeType = .leaf ∧
    (brokenTree.node 35).cells.isEmpty = true ∧ (brokenTree.node 34).nextLeaf = 36 ∧
    (brokenTree.node 36).nextLeaf = 35 ∧ brokenTree.rootPageNum = 33 := by
  decide +kernel

theorem brokenTree_eq : (twoLeaves []).leafNodeInsert 3 ⟨34, 2, false⟩ (wideRow 25) = some brokenTree := by
  have hsome : ((twoLeaves []).leafNodeInsert 3 ⟨34, 2, false⟩ (wideRow 25)).isSome = true := by decide +kernel
  obtain ⟨s, hs⟩ := Option.isSome_iff_exists.mp hsome
  rw [brokenTree, hs, Option.getD_some]

theorem brokenTree_not_wellFormed (h : Nat) (t : Part (PackedRecord zeroOps)) : ¬ WellFormed brokenTree h t := by
  obtain ⟨hint, hnum, hslot, -, htype, hempty, -, -, hroot⟩ := brokenTree_pages
  intro hw
  have hsub := hw.sub
  have hpage : t.page = 33 := hw.root.trans hroot
  cases h with
  | zero =>
    have hleaf := hsub.1
    rw [hpage, hint] at hleaf
    exact absurd hleaf (by decide)
  | succ h =>
    obtain ⟨kids, hl, -, -, hk⟩ := hsub
    rw [hpage] at hl hk
    have hlt : 1 < kids.length := by
      rw [hl.count, hnum]
      decide
    obtain ⟨hat, hrows⟩ := hl.slot 1 kids[1] (by rw [hnum]; decide) (List.getElem?_eq_getElem hlt)
    have hkid : kids[1].page = 35 := by
      rw [hslot] at hat
      exact (Prod.mk.inj hat).1.symm
    have hs := (hk _ (List.getElem_mem hlt)).1
    cases h with
    | zero =>
      refine hrows ?_
      rw [hs.2, rows_leaf, hkid]
      exact List.isEmpty_iff.mp hempty
    | succ h =>
      have := hs.internal
      rw [hkid, htype] at this
      exact absurd this (by decide)

/-- With every condition of the insertion but one met, the tree is not well formed afterwards. -/
theorem empty_leaf_breaks_tree : ∃ (s : Store (PackedRecord zeroOps)) (t : Part (PackedRecord zeroOps))
    (row : PackedRecord zeroOps) (cursor : Cursor), WellFormed s 1 t ∧ (∀ q ∈ t.pages, Taken s q) ∧ Allocates s 3 ∧
      (∀ c ∈ t.rows, Cell.key c ≠ Cell.key row) ∧ Cell.size row < btreeMaxLocalPayload ∧
      s.btreeFind 3 (Cell.key row) = some cursor ∧ s.SplitFits cursor row ∧
      ∃ s', s.leafNodeInsert 3 cursor row = some s' ∧ ∀ h t', ¬ WellFormed s' h t' :=
  ⟨twoLeaves [], twoLeavesTree [], wideRow 25, ⟨34, 2, false⟩, twoLeaves_wellFormed (by decide +kernel),
    twoLeaves_taken _, twoLeaves_allocates _, by decide +kernel, by decide +kernel, by decide +kernel, by decide +kernel,
    brokenTree, brokenTree_eq, brokenTree_not_wellFormed⟩

end Tree

end CustomDB
