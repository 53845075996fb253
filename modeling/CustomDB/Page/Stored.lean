import CustomDB.Page.Shown
import CustomDB.Page.Split
import CustomDB.Page.OverflowSpec

/-!
# Writing rows to shown pages

What `leaf_node_insert` and `leaf_node_defragment` do to the bytes of a leaf is what they do to its node. An insertion
over the bytes into a leaf with room leaves the pages of the tree with the row, and a lookup finds it.
-/

namespace CustomDB

namespace Page

open Lib.Bisect Lib.Bytes Lib.Memory Lib.Items

variable {ops : WhereOps} {m m' : Mem} {pages pages' : Nat → Mem} {k root : Nat} {cell : List UInt8}

/-! ## The header -/

/-- The header of a leaf but for the number of cells and the free-space offset. -/
structure SameFrame (m m' : Mem) : Prop where
  front : ∀ a < 8, m' a = m a
  next : ∀ a, 12 ≤ a → a < 16 → m' a = m a

theorem SameFrame.trans {m'' : Mem} (h : SameFrame m m') (h' : SameFrame m' m'') : SameFrame m m'' :=
  ⟨fun a ha => (h'.front a ha).trans (h.front a ha), fun a h1 h2 => (h'.next a h1 h2).trans (h.next a h1 h2)⟩

theorem SameFrame.isLeaf (h : SameFrame m m') (hm : IsLeaf m) : IsLeaf m' := (h.front 0 (by decide)).trans hm

theorem SameFrame.isNodeRoot (h : SameFrame m m') : isNodeRoot m' = isNodeRoot m := by
  rw [Page.isNodeRoot, Page.isNodeRoot, h.front 1 (by decide)]

theorem SameFrame.nodeParent (h : SameFrame m m') : nodeParent m' = nodeParent m :=
  u32_congr fun a _ h2 => h.front a h2

theorem SameFrame.nextLeaf (h : SameFrame m m') : leafNodeNextLeaf m' = leafNodeNextLeaf m :=
  u32_congr fun a h1 h2 => h.next a h1 h2

theorem sameFrame_putCell (h : Layout m) (hroom : HasRoom m cell.length) (k : Nat) : SameFrame m (putCell m k cell) := by
  have hfree := h.free
  unfold HasRoom slotsEnd slotAt leafNodeHeaderSize at hroom
  unfold pageSize at hfree
  have hsh : ∀ a < 24, shiftUp leafNodeHeaderSize 4 k (leafNodeNumCells m) m a = m a := fun a ha => by
    refine shiftUp_off (Or.inl ?_)
    unfold leafNodeHeaderSize
    omega
  have hshfree : leafNodeFreeSpace (shiftUp leafNodeHeaderSize 4 k (leafNodeNumCells m) m) = leafNodeFreeSpace m :=
    u16_congr fun a _ h2 => hsh a (by omega)
  have hoff : sub16 (leafNodeFreeSpace m) cell.length = leafNodeFreeSpace m - cell.length := sub16_eq (by omega) (by omega)
  have key : ∀ a, a < 8 ∨ 12 ≤ a ∧ a < 16 → putCell m k cell a = m a := by
    intro a ha
    have hslot : a < slotAt k ∨ slotAt k + 4 ≤ a := by
      unfold slotAt leafNodeHeaderSize
      omega
    rw [putCell, addCell, setU32_off (by omega), setSlot_off hslot, copyIn]
    dsimp only
    rw [hshfree, hoff, write_off (by omega), setU16_off (by omega), hsh a (by omega)]
  exact ⟨fun a ha => key a (Or.inl ha), fun a h1 h2 => key a (Or.inr ⟨h1, h2⟩)⟩

theorem sameFrame_defragment (h : Layout m) : SameFrame m (leafNodeDefragment m) := by
  have key : ∀ a < 16, leafNodeDefragment m a = m a := by
    intro a ha
    rw [leafNodeDefragment_eq]
    split
    · exact setU16_off (Or.inl ha)
    · have hloop := Defragmenting.loop h (le_refl (leafNodeNumCells m))
      rw [write_read, if_pos (by unfold pageSize; omega), setU16_off (Or.inl ha)]
      exact hloop.header a (by unfold leafNodeHeaderSize; omega)
  exact ⟨fun a ha => key a (by omega), fun a _ h2 => key a h2⟩

/-! ## The operations on the node -/

variable {n : Tree.Node (PageCell ops)} {c : PageCell ops}

theorem ShowsLeaf.hasRoom_iff (hm : ShowsLeaf m n) (size : Nat) : HasRoom m size ↔ n.HasRoom size := by
  have hends : slotsEnd m = n.slotsEnd := by
    rw [slotsEnd, hm.numCells, Tree.Node.slotsEnd, Nat.mul_comm]
    rfl
  rw [HasRoom, Tree.Node.HasRoom, hm.freeSpace, hends]
  rfl

theorem ShowsLeaf.defragment (hm : ShowsLeaf m n) : ShowsLeaf (leafNodeDefragment m) n.leafNodeDefragment := by
  obtain ⟨hl, hc, hn, hsum⟩ := leafNodeDefragment_spec hm.layout
  have hframe := sameFrame_defragment hm.layout
  refine ⟨hframe.isLeaf hm.type, hl, hc.trans hm.cells, hframe.nextLeaf.trans hm.nextLeaf, ?_⟩
  have hsizes : (Page.cells m).map List.length = n.cells.map Tree.Cell.size := by
    rw [hm.cells, List.map_map]
    rfl
  rw [hsizes] at hsum
  show leafNodeFreeSpace (leafNodeDefragment m) = Tree.Node.packed n.cells
  rw [Tree.Node.packed]
  unfold pageSize at hsum
  unfold Tree.pageSize
  omega

/-- A size that a cell can have. -/
def PageCell.Sized (c : PageCell ops) : Prop := 1 ≤ c.bytes.length ∧ c.bytes.length ≤ maxLocalPayload

theorem ShowsLeaf.putCell (hm : ShowsLeaf m n) (hk : k ≤ n.cells.length) (hc : c.Sized)
    (hroom : n.HasRoom (Tree.Cell.size c)) : ShowsLeaf (putCell m k c.bytes) (Tree.Store.putCell n k c) := by
  have hroom' : HasRoom m c.bytes.length := (hm.hasRoom_iff _).mpr hroom
  have hk' : k ≤ leafNodeNumCells m := by rwa [hm.numCells]
  have hadd := added_putCell hm.layout hk' hroom'
  obtain ⟨hl, hcells⟩ := hadd.spec hm.layout hk' hc hroom'
  have hframe := sameFrame_putCell hm.layout hroom' k
  refine ⟨hframe.isLeaf hm.type, hl, ?_, hframe.nextLeaf.trans hm.nextLeaf, ?_⟩
  · rw [hcells, hm.cells, ← List.map_insertIdx]
    rfl
  · rw [hadd.free, hm.freeSpace]
    rfl

/-- A leaf whose frame is kept. -/
theorem Shows.reframe {n' : Tree.Node (PageCell ops)} (hm : Shows m n) (hf : SameFrame m m') (hn : Tree.SameHead n n')
    (htype : n'.nodeType = .leaf) (hl : ShowsLeaf m' n') : Shows m' n' :=
  ⟨hf.isNodeRoot.trans (hm.isRoot.trans hn.isRoot.symm), hf.nodeParent.trans (hm.parent.trans hn.parent.symm),
    fun _ => hl, fun h => absurd (htype.symm.trans h) (by decide)⟩

/-! ## A row into a leaf with room -/

variable {s : Tree.Store (PageCell ops)} {h d p : Nat} {t : Tree.Part (PageCell ops)} {cells c₁ c₂ : List (PageCell ops)}
  {fs : List (Tree.Frame (PageCell ops))} {row : PageCell ops} {v : Value}

/-- `leaf_node_insert` over the bytes of a leaf that is not split. -/
theorem insert_page (hpl : Tree.Place s row p c₁ c₂ fs) (hm : Shows (pages p) (s.node p)) (hrow : row.Sized) (e : Bool)
    (hi : leafNodeInsert (pages p) c₁.length row.bytes = some m') :
    ∃ n, s.leafNodeInsert d ⟨p, c₁.length, e⟩ row = some (s.put p n) ∧ Tree.SameHead (s.node p) n ∧
      n.nodeType = .leaf ∧ n.cells = c₁ ++ row :: c₂ ∧ Shows m' n := by
  have hleaf := hm.leaf hpl.nodeType
  have htaken : Tree.Taken s p := hpl.taken p List.mem_cons_self
  have hlen : c₁.length ≤ (s.node p).cells.length := by
    rw [hpl.cells, List.length_append]
    omega
  unfold leafNodeInsert at hi
  rw [Tree.Store.leafNodeInsert]
  dsimp only
  split at hi
  · next hroom =>
    have hroom' : (s.node p).HasRoom (Tree.Cell.size row) := (hleaf.hasRoom_iff _).mp hroom
    rw [← Option.some.inj hi]
    refine ⟨_, by rw [if_pos hroom', Tree.modify_of_taken htaken], Tree.sameHead_putCell .., hpl.nodeType,
      Tree.putCell_cells hpl.cells, ?_⟩
    exact hm.reframe (sameFrame_putCell hleaf.layout hroom _) (Tree.sameHead_putCell ..) hpl.nodeType
      (hleaf.putCell hlen hrow hroom')
  · next hroom =>
    have hdef := hleaf.defragment
    dsimp only at hi
    split at hi
    · next hroom₂ =>
      have hroom₂' : (s.node p).leafNodeDefragment.HasRoom (Tree.Cell.size row) := (hdef.hasRoom_iff _).mp hroom₂
      rw [← Option.some.inj hi]
      refine ⟨Tree.Store.putCell (s.node p).leafNodeDefragment c₁.length row, ?_, ⟨rfl, rfl, rfl⟩, hpl.nodeType,
        Tree.putCell_cells (n := (s.node p).leafNodeDefragment) hpl.cells, ?_⟩
      · have hno : ¬ (s.node p).HasRoom (Tree.Cell.size row) := fun hr => hroom ((hleaf.hasRoom_iff _).mpr hr)
        rw [if_neg hno, Tree.modify_of_taken htaken, Tree.put_node_same, if_pos hroom₂',
          Tree.modify_of_taken (Tree.taken_put.mpr htaken), Tree.put_node_same, Tree.put_put_same]
      · exact hm.reframe ((sameFrame_defragment hleaf.layout).trans (sameFrame_putCell hdef.layout hroom₂ _)) ⟨rfl, rfl, rfl⟩
          hpl.nodeType (hdef.putCell hlen hrow hroom₂')
    · cases hi

/-- The pages of a tree, one of which is written. -/
theorem AllShown.put {n : Tree.Node (PageCell ops)} {t' : Tree.Part (PageCell ops)} (hp : AllShown pages s t) (hn : Shows m' n)
    (hpages : ∀ q ∈ t'.pages, q ∈ t.pages) : AllShown (Function.update pages p m') (s.put p n) t' := by
  intro q hq
  by_cases hqp : q = p
  · rw [hqp, Function.update_self, Tree.put_node_same]
    exact hn
  · rw [Function.update_of_ne hqp, Tree.put_node_of_ne hqp]
    exact hp q (hpages q hq)

/-- A row with a new number among others. -/
theorem find_insert {l r : List (PageCell ops)} (hnew : ∀ c ∈ l ++ r, c.col0 ≠ row.col0) (x : BitVec 32) :
    (l ++ row :: r).find? (fun c => c.col0 = x) = if x = row.col0 then some row else (l ++ r).find? fun c => c.col0 = x := by
  rw [List.find?_append, List.find?_append, List.find?_cons]
  by_cases hx : x = row.col0
  · have hnone : l.find? (fun c => c.col0 = x) = none := List.find?_eq_none.mpr fun c hc => by
      simpa [hx] using hnew c (List.mem_append_left _ hc)
    rw [hnone, if_pos hx, decide_eq_true hx.symm]
    rfl
  · rw [if_neg hx, decide_eq_false (Ne.symm hx)]

/-- The pages from `root` on are those of a tree. -/
structure Stored (pages : Nat → Mem) (root : Nat) (s : Tree.Store (PageCell ops)) (h : Nat) (t : Tree.Part (PageCell ops)) :
    Prop where
  tree : Tree.WellFormed s h t
  taken : ∀ q ∈ t.pages, Tree.Taken s q
  rootPage : s.rootPageNum = root
  root_ne : root ≠ 0
  shown : AllShown pages s t

theorem Stored.searchTree (hs : Stored pages root s h t) : Tree.SearchTree s h t :=
  hs.tree.searchTree (by rw [hs.rootPage]; exact hs.root_ne)

/-- The key value of a row. -/
def PageCell.keyValue (c : PageCell ops) : Value := { Value.init with intVal := c.col0 }

/-- `btree_find`, and `btree_insert` of a row into the leaf it comes to; `none` where that leaf is split. -/
def insertRow (ops : WhereOps) (depth root : Nat) (pages : Nat → Mem) (row : PageCell ops) : Option (Nat → Mem) := do
  let cur ← btreeFind ops .int pages depth root row.keyValue
  let node ← leafNodeInsert (pages cur.pageNum) cur.cellNum row.bytes
  return Function.update pages cur.pageNum node

/-- A lookup over the bytes is one among the rows of the tree. -/
theorem Stored.lookup (hs : Stored pages root s h t) (hd : h < d) (v : Value) :
    lookup ops pages d root v = (t.rows.find? fun c => c.col0 = v.intVal).map PageCell.bytes := by
  have hl := lookup_shown hs.searchTree hd hs.shown v
  have hkey : ∀ c : PageCell ops, decide (Tree.Cell.key c = v.intVal.toInt) = decide (c.col0 = v.intVal) := fun c =>
    decide_eq_decide.mpr BitVec.toInt_inj
  rw [hs.rootPage, hs.searchTree.lookup_eq hd] at hl
  simpa only [hkey] using hl

/-- An insertion that finds room. -/
theorem insertRow_eq {cur : Tree.Cursor} (hfind : btreeFind ops .int pages d root row.keyValue = some cur)
    (hroom : HasRoom (pages cur.pageNum) row.bytes.length) : insertRow ops d root pages row =
      some (Function.update pages cur.pageNum (putCell (pages cur.pageNum) cur.cellNum row.bytes)) := by
  unfold insertRow
  rw [hfind, Option.bind_eq_bind, Option.bind_some, leafNodeInsert, if_pos hroom]
  rfl

/-- A row with a new key goes into the tree. -/
theorem Stored.insertRow (hs : Stored pages root s h t) (hd : h < d)
    (hnone : Page.lookup ops pages d root row.keyValue = none) (hrow : row.Sized)
    (hi : Page.insertRow ops d root pages row = some pages') :
    ∃ (s' : Tree.Store (PageCell ops)) (t' : Tree.Part (PageCell ops)), Stored pages' root s' h t' ∧
      ∀ v, Page.lookup ops pages' d root v = if v.intVal = row.col0 then some row.bytes else Page.lookup ops pages d root v := by
  have hnew : ∀ c ∈ t.rows, c.col0 ≠ row.col0 := fun c hc he => by
    rw [hs.lookup hd, Option.map_eq_none_iff, List.find?_eq_none] at hnone
    exact hnone c hc (decide_eq_true he)
  obtain ⟨fs, p, c₁, c₂, rfl, hplug, hpl, -, hfind⟩ :=
    hs.tree.place hs.taken (fun c hc he => hnew c hc (BitVec.toInt_inj.mp he)) hd
  have hcur : btreeFind ops .int pages d root row.keyValue = some ⟨p, c₁.length, c₂.isEmpty⟩ := by
    rw [← hs.rootPage, btreeFind_shown hs.searchTree hd hs.shown]
    exact hfind
  unfold Page.insertRow at hi
  rw [hcur, Option.bind_eq_bind, Option.bind_some] at hi
  obtain ⟨node, hnode, hupd⟩ := Option.bind_eq_some_iff.mp hi
  obtain rfl := Option.some.inj hupd
  have hpages := Tree.plug_pages (Tree.Part.leaf p (c₁ ++ c₂)) fs
  have hpages' := Tree.plug_pages (Tree.Part.leaf p (c₁ ++ row :: c₂)) fs
  rw [hplug] at hpages
  have hsub : ∀ q ∈ (Tree.plug (Tree.Part.leaf p (c₁ ++ row :: c₂)) fs).pages, q ∈ t.pages := fun q hq =>
    hpages.mem_iff.mpr (hpages'.mem_iff.mp hq)
  have hp := hs.shown p (hpages.mem_iff.mpr (List.mem_append_left _ (List.mem_singleton_self _)))
  obtain ⟨n, -, hhead, htype, hcells, hshow⟩ := insert_page (d := d) hpl hp hrow c₂.isEmpty hnode
  have hs' : Stored (Function.update pages p node) root (s.put p n) fs.length (Tree.plug (Tree.Part.leaf p (c₁ ++ row :: c₂)) fs) :=
    ⟨hpl.put hhead htype hcells, fun q hq => Tree.taken_put.mpr (hs.taken q (hsub q hq)), hs.rootPage, hs.root_ne,
      hs.shown.put hshow hsub⟩
  refine ⟨_, _, hs', fun v => ?_⟩
  have hrows : t.rows = Tree.rowsBefore c₁ fs ++ Tree.rowsAfter c₂ fs := by rw [← hplug, Tree.plug_leaf_rows]
  rw [hrows] at hnew
  rw [hs'.lookup hd, hs.lookup hd, Tree.plug_leaf_rows, Tree.rowsAfter_cons, find_insert hnew, hrows]
  by_cases hv : v.intVal = row.col0
  · rw [if_pos hv, if_pos hv]
    rfl
  · rw [if_neg hv, if_neg hv]

/-! ## Rows -/

section

variable {cols : List ColumnType} {u : Value} {values : List Value} {expireAt xmin xmax : BitVec 64} {record : List UInt8}

theorem length_serialOf_int (ops : FloatOps) (u : Value) : (serialOf ops .int u).2.length ≤ 4 := by
  rw [serialOf]
  dsimp only
  repeat' split
  all_goals first | exact Nat.zero_le _ | exact le_of_eq_of_le (length_leBytes ..) (by decide)

/-- The INT of a stored row is read off its cell, also off an overflow stub. -/
theorem col0_of_row (hcols : (ColumnType.int :: cols).length ≤ 16) (htext : ∀ x ∈ u :: values, WellSized x ∧ x.textLen < 2 ^ 32)
    (hnull : u.isNull = false)
    (h : serializeRowWithMvcc ops.toFloatOps (.int :: cols) (u :: values) expireAt xmin xmax = some record)
    (firstOverflow : Nat) {a : Nat} (hm : read m a (packCell record firstOverflow).length = packCell record firstOverflow) :
    (extractCol0FromPackedRecord ops.toFloatOps .int m a (packCell record firstOverflow).length).1.intVal = u.intVal := by
  have hheader := (serialize_layout hcols htext h).1
  have hbody := length_serialOf_int ops.toFloatOps u
  have hback := (key_reads_back_iff hcols htext h firstOverflow hm).mpr
    ⟨⟨fun hn => absurd (hnull.symm.trans hn) Bool.false_ne_true, fun _ hc => nomatch hc⟩, Or.inr (by omega)⟩
  exact (rawKey_int_iff _ _).mp hback.1

/-- The cell of a row with an INT, not NULL, in column 0. -/
def PageCell.ofRow (hcols : (ColumnType.int :: cols).length ≤ 16) (htext : ∀ x ∈ u :: values, WellSized x ∧ x.textLen < 2 ^ 32)
    (hnull : u.isNull = false)
    (h : serializeRowWithMvcc ops.toFloatOps (.int :: cols) (u :: values) expireAt xmin xmax = some record)
    (firstOverflow : Nat) : PageCell ops :=
  ⟨packCell record firstOverflow, u.intVal, fun _ _ hm => col0_of_row hcols htext hnull h firstOverflow hm⟩

theorem PageCell.sized_ofRow (hcols : (ColumnType.int :: cols).length ≤ 16) (htext : ∀ x ∈ u :: values, WellSized x ∧ x.textLen < 2 ^ 32)
    (hnull : u.isNull = false)
    (h : serializeRowWithMvcc ops.toFloatOps (.int :: cols) (u :: values) expireAt xmin xmax = some record)
    (firstOverflow : Nat) : (PageCell.ofRow hcols htext hnull h firstOverflow).Sized := by
  have hrecord := (serialize_layout hcols htext h).2
  show 1 ≤ (packCell record firstOverflow).length ∧ (packCell record firstOverflow).length ≤ maxLocalPayload
  by_cases hlen : record.length < maxLocalPayload
  · rw [packCell, if_pos hlen]
    refine ⟨?_, le_of_lt hlen⟩
    have hone := putVarint_pos (headerSize (rowEntries ops.toFloatOps (.int :: cols) (u :: values) expireAt xmin xmax))
    rw [hrecord, List.length_append, List.length_append]
    omega
  · rw [length_packCell (not_lt.mp hlen)]
    decide

end

/-! ## A new table -/

/-- `initialize_root_leaf`: the root page of a new table. -/
def initializeRootLeaf (m : Mem) : Mem := write (initializeLeafNode m) 1 [1]

theorem initializeRootLeaf_off (m : Mem) {a : Nat} (ha : a ≠ 1) : initializeRootLeaf m a = initializeLeafNode m a :=
  write_off (by rw [List.length_singleton]; omega)

theorem initializeLeafNode_head (m : Mem) {a : Nat} (ha : 2 ≤ a ∧ a < 8) : initializeLeafNode m a = m a := by
  rw [initializeLeafNode, setU16_off (by omega), setU32_off (by omega), setU32_off (by omega),
    write_off (by rw [List.length_cons, List.length_singleton]; omega)]

/-- The node of that page. -/
def rootLeafNode (ops : WhereOps) (m : Mem) : Tree.Node (PageCell ops) := ⟨.leaf, true, nodeParent m, [], 0, pageSize, 0, 0, fun _ => (0, 0)⟩

theorem showsLeaf_initializeRootLeaf (ops : WhereOps) (m : Mem) : ShowsLeaf (initializeRootLeaf m) (rootLeafNode ops m) := by
  obtain ⟨hn, hf⟩ := initializeLeafNode_spec m
  have hnum : leafNodeNumCells (initializeRootLeaf m) = 0 := (u32_congr fun a h _ => initializeRootLeaf_off m (by omega)).trans hn
  have hfree : leafNodeFreeSpace (initializeRootLeaf m) = pageSize := (u16_congr fun a h _ => initializeRootLeaf_off m (by omega)).trans hf
  have hslots : slots (initializeRootLeaf m) = [] := by
    rw [slots, hnum]
    rfl
  refine ⟨?_, ⟨?_, le_of_eq hfree, ?_, ?_, ?_⟩, cells_eq_nil hnum, ?_, hfree⟩
  · rw [IsLeaf, initializeRootLeaf_off m (by decide), initializeLeafNode, setU16_off (by omega), setU32_off (by omega), setU32_off (by omega)]
    rfl
  · rw [slotsEnd, hnum, hfree]
    decide
  all_goals try simp [hslots]
  refine (u32_congr fun a h _ => initializeRootLeaf_off m (by omega)).trans ?_
  rw [initializeLeafNode]
  exact (u32_congr fun a h1 h2 => setU16_off (by omega)).trans (u32_setU32 _ _ (by decide))

theorem shows_initializeRootLeaf (ops : WhereOps) (m : Mem) : Shows (initializeRootLeaf m) (rootLeafNode ops m) := by
  refine ⟨rfl, u32_congr fun a h1 h2 => ?_, fun _ => showsLeaf_initializeRootLeaf ops m, nofun⟩
  rw [initializeRootLeaf_off m (by omega), initializeLeafNode_head m (by omega)]

/-- A new table is a tree without rows. -/
theorem stored_initializeRootLeaf {p : Nat} (hp : p ≠ 0) (hm : pages p = initializeRootLeaf m) :
    Stored pages p (⟨fun _ => rootLeafNode ops m, p + 1, [], p, p⟩ : Tree.Store (PageCell ops)) 0 (Tree.Part.leaf p []) where
  tree :=
    { sub := ⟨rfl, rfl⟩
      root := rfl
      isRoot := rfl
      sorted := List.Pairwise.nil
      chained := ⟨p, rfl, hp, rfl⟩
      nodup := List.nodup_singleton p }
  taken q hq := by
    rw [List.mem_singleton.mp hq]
    exact ⟨hp, Nat.lt_succ_self p, List.not_mem_nil⟩
  rootPage := rfl
  root_ne := hp
  shown q hq := by
    rw [List.mem_singleton.mp hq, hm]
    exact shows_initializeRootLeaf ops m

/-! ## Several rows -/

/-- Rows with new keys, one after the other, each into a leaf with room: the pages are those of a tree again, and a
lookup finds the new rows, and what it found before. -/
theorem insertRows_lookup {rows : List (PageCell ops)} (hs : Stored pages root s h t) (hd : h < d)
    (hnew : ∀ row ∈ rows, lookup ops pages d root row.keyValue = none) (hone : rows.Pairwise fun a b => a.col0 ≠ b.col0)
    (hsized : ∀ row ∈ rows, row.Sized) (hi : rows.foldlM (insertRow ops d root) pages = some pages') :
    (∃ (s' : Tree.Store (PageCell ops)) (t' : Tree.Part (PageCell ops)), Stored pages' root s' h t') ∧
      ∀ v, lookup ops pages' d root v =
        ((rows.find? fun c => c.col0 = v.intVal).map PageCell.bytes).or (lookup ops pages d root v) := by
  induction rows generalizing pages s t with
  | nil =>
    obtain rfl := Option.some.inj hi
    exact ⟨⟨s, t, hs⟩, fun v => rfl⟩
  | cons row rows ih =>
    rw [List.foldlM_cons] at hi
    obtain ⟨pages₁, h₁, hi⟩ := Option.bind_eq_some_iff.mp hi
    obtain ⟨hrow, hone⟩ := List.pairwise_cons.mp hone
    obtain ⟨s₁, t₁, hs₁, hlook⟩ := hs.insertRow hd (hnew row List.mem_cons_self) (hsized row List.mem_cons_self) h₁
    obtain ⟨hlast, hrest⟩ := ih hs₁ (fun r hr => by
      rw [hlook, if_neg fun he => hrow r hr he.symm]
      exact hnew r (List.mem_cons_of_mem _ hr)) hone (fun r hr => hsized r (List.mem_cons_of_mem _ hr)) hi
    refine ⟨hlast, fun v => ?_⟩
    rw [hrest v, hlook v, List.find?_cons]
    by_cases hv : v.intVal = row.col0
    · have hnone : rows.find? (fun c => c.col0 = v.intVal) = none := List.find?_eq_none.mpr fun c hc => by
        simpa [hv] using Ne.symm (hrow c hc)
      rw [hnone, if_pos hv, decide_eq_true hv.symm]
      rfl
    · rw [if_neg hv, decide_eq_false (Ne.symm hv)]

/-- The record of the INT 7. -/
theorem serialize_seven : serializeRowWithMvcc ieeeOps.toFloatOps [.int] [{ Value.init with intVal := 7 }] 0 0 0 = some [2, 1, 7] := by
  decide +kernel

theorem serialize_five : serializeRowWithMvcc ieeeOps.toFloatOps [.int] [{ Value.init with intVal := 5 }] 0 0 0 = some [2, 1, 5] := by
  decide +kernel

theorem int_fits (x : BitVec 32) : ∀ u ∈ [{ Value.init with intVal := x }], WellSized u ∧ u.textLen < 2 ^ 32 := by
  intro u hu
  rw [List.mem_singleton.mp hu]
  exact ⟨rfl, Nat.two_pow_pos 32⟩

def rowSeven : PageCell ieeeOps := PageCell.ofRow (by decide) (int_fits 7) rfl serialize_seven 0
def rowFive : PageCell ieeeOps := PageCell.ofRow (by decide) (int_fits 5) rfl serialize_five 0

/-- A new table. -/
def newPages (_ : Nat) : Mem := initializeRootLeaf fun _ => 0

/-- With the row 7. -/
def sevenPages : Nat → Mem := Function.update newPages 33 (putCell (newPages 33) 0 rowSeven.bytes)

def sevenFivePages : Nat → Mem := Function.update sevenPages 33 (putCell (sevenPages 33) 0 rowFive.bytes)

theorem insertRows_small : [rowSeven, rowFive].foldlM (insertRow ieeeOps 1 33) newPages = some sevenFivePages := by
  have hfind : btreeFind ieeeOps .int newPages 1 33 rowSeven.keyValue = some ⟨33, 0, true⟩ := by decide
  have hfind' : btreeFind ieeeOps .int sevenPages 1 33 rowFive.keyValue = some ⟨33, 0, false⟩ := by decide
  rw [List.foldlM_cons, insertRow_eq hfind (by decide), Option.bind_eq_bind, Option.bind_some, List.foldlM_cons]
  exact congrArg (·.bind some) (insertRow_eq hfind' (by decide))

/-- The rows 7 and 5 in a new table. -/
theorem insertRows_lookup_small :
    (∃ (s' : Tree.Store (PageCell ieeeOps)) (t' : Tree.Part (PageCell ieeeOps)), Stored sevenFivePages 33 s' 0 t') ∧
    ∀ v, lookup ieeeOps sevenFivePages 1 33 v =
      (([rowSeven, rowFive].find? fun c => c.col0 = v.intVal).map PageCell.bytes).or (lookup ieeeOps newPages 1 33 v) :=
  insertRows_lookup (stored_initializeRootLeaf (by decide) rfl) (by decide) (by decide) (by decide)
    (by
      have h7 := PageCell.sized_ofRow (by decide) (int_fits 7) rfl serialize_seven 0
      have h5 := PageCell.sized_ofRow (by decide) (int_fits 5) rfl serialize_five 0
      simpa using ⟨h7, h5⟩) insertRows_small

end Page

end CustomDB
