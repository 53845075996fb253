import CustomDB.Catalog.Definition

/-!
# What a restart keeps of a table definition

Everything `catalog_save` copies lies at ascending addresses and can be read back. What differs afterwards is
what it did not copy: the end of a string longer than its slot, and the primary key columns.
-/

namespace CustomDB

open Lib Lib.Bytes

variable {m : Memory.Mem} {n : Nat}

/-! ## Reading a copy back -/

/-- Every copy of `ws` can be read back. -/
def Holds (m : Memory.Mem) (ws : List (Nat × List UInt8)) : Prop := ∀ w ∈ ws, Memory.read m w.1 w.2.length = w.2

theorem Holds.left {ws vs : List (Nat × List UInt8)} (h : Holds m (ws ++ vs)) : Holds m ws :=
  fun w hw => h w (List.mem_append_left _ hw)

theorem Holds.right {ws vs : List (Nat × List UInt8)} (h : Holds m (ws ++ vs)) : Holds m vs :=
  fun w hw => h w (List.mem_append_right _ hw)

/-- The `k`th of the copies that lie one behind the other. -/
theorem Holds.chunk {base : Nat} {cs : List (List UInt8)} (h : Holds m (Memory.consecutive base cs)) {k n : Nat}
    {c : List UInt8} (hc : cs[k]? = some c) (hoff : (cs.take k).flatten.length = n) :
    Memory.read m (base + n) c.length = c := by
  obtain ⟨hk, rfl⟩ := List.getElem?_eq_some_iff.mp hc
  have hcs : cs = cs.take k ++ cs[k] :: cs.drop (k + 1) := by
    rw [List.getElem_cons_drop, List.take_append_drop]
  have hmem := Memory.mem_consecutive base (cs.take k) cs[k] (cs.drop (k + 1))
  rw [← hcs, hoff] at hmem
  exact h _ hmem

theorem u32At_eq {off : Nat} {x : BitVec 32} (h : Memory.read m off (u32 x).length = u32 x) : u32At m off = x := by
  have hlen : (u32 x).length = 4 := length_leBytes 4 _
  rw [hlen] at h
  have hx := ofNat_leNat_leBytes (w := 32) (k := 4) (by norm_num) x []
  rw [List.append_nil, List.take_of_length_le (le_of_eq (length_leBytes 4 _))] at hx
  rw [u32At, h]
  exact hx

/-- A string comes back cut to one byte less than its slot. -/
theorem CharArray.str_load {k off : Nat} {l : Nat} (a : CharArray l) (hk : 0 < k ∧ k ≤ n)
    (h : Memory.read m off (a.bytes.take k).length = a.bytes.take k) (hl : k ≤ l) :
    (CharArray.load (n := n) m off k hk).str = a.str.take (k - 1) := by
  have hlen : (a.bytes.take k).length = k := by rw [List.length_take, a.length_eq, Nat.min_eq_left hl]
  rw [hlen] at h
  have hcut : (a.bytes.take k).dropLast = a.bytes.take (k - 1) := by
    rw [List.dropLast_eq_take, hlen, List.take_take, Nat.min_eq_left (Nat.sub_le k 1)]
  have hzero : List.replicate (n + 1 - k) (0 : UInt8) = 0 :: List.replicate (n - k) 0 := by
    rw [Nat.succ_sub hk.2]
    rfl
  unfold CharArray.str CharArray.load
  dsimp only
  rw [h, hcut, hzero]
  generalize a.bytes = bs
  generalize k - 1 = j
  -- the bytes before the first 0 of the cut string
  induction bs generalizing j with
  | nil => simp
  | cons b bs ih =>
    cases j with
    | zero => simp
    | succ j =>
      by_cases hb : b = 0
      · simp [hb]
      · simpa [hb] using ih j

theorem CharArray.str_load_whole (a : CharArray n) {off : Nat} (hn : 0 < n)
    (h : Memory.read m off a.bytes.length = a.bytes) : (CharArray.load (n := n) m off n ⟨hn, le_refl n⟩).str = a.str := by
  have htake : a.bytes.take n = a.bytes := List.take_of_length_le (le_of_eq a.length_eq)
  rw [CharArray.str_load a ⟨hn, le_refl n⟩ (by rw [htake]; exact h) (le_refl n)]
  exact List.take_of_length_le (by have := a.length_str_lt; omega)

/-! ## The flag word -/

theorem ColumnType.ofCode_code (t : ColumnType) : ColumnType.ofCode t.code = t := by
  cases t <;> rfl

theorem CollationType.ofCode_code (t : CollationType) : CollationType.ofCode t.code = t := by
  cases t <;> rfl

theorem flag_and (b : Bool) (x y : BitVec 32) : flag b x &&& y = flag b (x &&& y) := by
  cases b <;> simp [flag]

theorem flag_shift (b : Bool) (x : BitVec 32) (n : Nat) : flag b x >>> n = flag b (x >>> n) := by
  cases b <;> simp [flag]

theorem flag_zero (b : Bool) : flag b 0#32 = 0#32 := by
  cases b <;> rfl

theorem flag_eq_zero {x : BitVec 32} (hx : ¬ x = 0#32) (b : Bool) : flag b x = 0#32 ↔ b = false := by
  cases b
  · exact ⟨fun _ => rfl, fun _ => rfl⟩
  · exact ⟨fun h => absurd h hx, fun h => nomatch h⟩

/-- The collation keeps to its two bits. -/
theorem CollationType.code_and (coll : CollationType) {mask : BitVec 32} (h : 192#32 &&& mask = 0#32) :
    ((coll.code &&& 3) <<< 6) &&& mask = 0#32 := by
  have hsub : (coll.code &&& 3) <<< 6 = ((coll.code &&& 3) <<< 6) &&& 192 := by cases coll <;> rfl
  rw [hsub, BitVec.and_assoc]
  exact (congrArg _ h).trans BitVec.and_zero

/-- Under a mask apart from the collation, the flag word is what is left of its flags. -/
theorem Column.flags_and (c : Column) {mask : BitVec 32} (h : 192#32 &&& mask = 0#32) :
    c.flags &&& mask = flag c.isNotNull (1 &&& mask) ||| flag c.isUnique (2 &&& mask) ||| flag c.hasDefault (4 &&& mask) |||
      flag c.hasCheck (8 &&& mask) ||| flag c.hasFk (16 &&& mask) ||| flag c.isAutoincrement (32 &&& mask) |||
      flag c.fkOnDeleteCascade (256 &&& mask) ||| flag c.fkOnUpdateCascade (512 &&& mask) |||
      flag c.idxIsPartial (1024 &&& mask) ||| flag c.idxIsExpr (2048 &&& mask) := by
  unfold Column.flags
  simp only [BitVec.and_or_distrib_right, flag_and, CollationType.code_and c.collation h, BitVec.or_zero]

/-- The two bits of the collation. -/
theorem Column.flags_collation (c : Column) : (c.flags >>> 6) &&& 3 = c.collation.code := by
  have hcoll : (((c.collation.code &&& 3) <<< 6) >>> 6) &&& 3 = c.collation.code := by cases c.collation <;> rfl
  unfold Column.flags
  simp only [BitVec.ushiftRight_or_distrib, BitVec.and_or_distrib_right, flag_shift, flag_and, hcoll]
  simp [flag_zero]

/-- Each of the other flags has a bit of its own. -/
theorem Column.flags_bits (c : Column) :
    decide (c.flags &&& 1 ≠ 0) = c.isNotNull ∧ decide (c.flags &&& 2 ≠ 0) = c.isUnique ∧
    decide (c.flags &&& 4 ≠ 0) = c.hasDefault ∧ decide (c.flags &&& 8 ≠ 0) = c.hasCheck ∧
    decide (c.flags &&& 16 ≠ 0) = c.hasFk ∧ decide (c.flags &&& 32 ≠ 0) = c.isAutoincrement ∧
    decide (c.flags &&& 256 ≠ 0) = c.fkOnDeleteCascade ∧ decide (c.flags &&& 512 ≠ 0) = c.fkOnUpdateCascade ∧
    decide (c.flags &&& 1024 ≠ 0) = c.idxIsPartial ∧ decide (c.flags &&& 2048 ≠ 0) = c.idxIsExpr := by
  refine ⟨?_, ?_, ?_, ?_, ?_, ?_, ?_, ?_, ?_, ?_⟩ <;> rw [c.flags_and rfl] <;> simp [flag_zero, flag_eq_zero]

/-! ## Columns -/

/-- The fields of a column that are copied whole agree. -/
structure Column.Same (c c' : Column) : Prop where
  name : c'.name.str = c.name.str
  type : c'.type = c.type
  size : c'.size = c.size
  hasIndex : c'.hasIndex = c.hasIndex
  indexRootPage : c'.indexRootPage = c.indexRootPage
  isNotNull : c'.isNotNull = c.isNotNull
  isUnique : c'.isUnique = c.isUnique
  hasDefault : c'.hasDefault = c.hasDefault
  hasCheck : c'.hasCheck = c.hasCheck
  checkOp : c'.checkOp = c.checkOp
  hasFk : c'.hasFk = c.hasFk
  fkOnDeleteCascade : c'.fkOnDeleteCascade = c.fkOnDeleteCascade
  fkOnUpdateCascade : c'.fkOnUpdateCascade = c.fkOnUpdateCascade
  isAutoincrement : c'.isAutoincrement = c.isAutoincrement
  collation : c'.collation = c.collation
  idxIsPartial : c'.idxIsPartial = c.idxIsPartial
  idxWhereOp : c'.idxWhereOp = c.idxWhereOp
  idxIsExpr : c'.idxIsExpr = c.idxIsExpr

/-- The string constraints of a column, each with the condition under which a statement reads it. -/
def Column.constraints (c : Column) : List (Bool × List UInt8) :=
  [(c.hasDefault, c.defaultVal.str), (c.hasCheck, c.checkVal.str), (c.hasFk, c.fkTargetTable.str),
    (c.hasFk, c.fkTargetCol.str), (c.hasIndex && c.idxIsPartial, c.idxWhereCol.str),
    (c.hasIndex && c.idxIsPartial, c.idxWhereVal.str), (c.hasIndex && c.idxIsExpr, c.idxExprFunc.str)]

/-- Two columns that no INSERT, UPDATE, DELETE or SELECT tells apart. -/
structure Column.Agree (c c' : Column) : Prop extends Column.Same c c' where
  read : List.Forall₂ (fun x y => x.1 = true → y.2 = x.2) c.constraints c'.constraints

/-- What a statement reads of the string constraints fits its slots. -/
def Column.Fits (c : Column) : Prop := ∀ x ∈ c.constraints, x.1 = true → x.2.length ≤ 15

theorem length_slot16 {k : Nat} (a : CharArray k) (hk : 16 ≤ k) : (slot16 a).length = 16 := by
  rw [slot16, List.length_take, a.length_eq, Nat.min_eq_left hk]

/-- A column comes back with every string constraint cut to 15 bytes. -/
structure Column.Restored (c c' : Column) : Prop where
  same : Column.Same c c'
  cut : c'.constraints = c.constraints.map fun x => (x.1, x.2.take 15)

theorem Column.Restored.agree_iff {c c' : Column} (h : c.Restored c') : c.Agree c' ↔ c.Fits := by
  have hcut : List.Forall₂ (fun x y => x.1 = true → y.2 = x.2) c.constraints c'.constraints ↔ c.Fits := by
    rw [h.cut, List.forall₂_map_right_iff, List.forall₂_same]
    exact forall₂_congr fun x _ => imp_congr_right fun _ => List.take_eq_self_iff _
  exact ⟨fun ha => hcut.mp ha.read, fun hf => ⟨h.same, hcut.mpr hf⟩⟩

/-- The bytes of each copy of the column loop. -/
def chunkSizes : List Nat := [32, 4, 4, 4, 4, 4, 4, 16, 16, 16, 16, 16, 4, 16, 16]

theorem Column.chunk_sizes (c : Column) : c.chunks.map List.length = chunkSizes := by
  have hu : ∀ x, (u32 x).length = 4 := fun x => length_leBytes 4 _
  simp [Column.chunks, chunkSizes, hu, length_slot16, c.name.length_eq]

theorem Column.chunk_offset (c : Column) (k : Nat) : (c.chunks.take k).flatten.length = (chunkSizes.take k).sum := by
  rw [List.length_flatten, List.map_take, c.chunk_sizes]

/-- What the column loop copied is what the column loop of `catalog_load` finds. -/
theorem loadColumn_restored {c : Column} {b : Nat} (h : Holds m (Memory.consecutive b c.chunks)) :
    c.Restored (loadColumn m b) := by
  have hnum : ∀ (k off : Nat) (x : BitVec 32), c.chunks[k]? = some (u32 x) → (chunkSizes.take k).sum = off →
      u32At m (b + off) = x :=
    fun k off x hk hoff => u32At_eq (h.chunk hk ((c.chunk_offset k).trans hoff))
  have hstr : ∀ (k off : Nat) {l : Nat} (hl : 0 < 16 ∧ 16 ≤ l) (a : CharArray l), c.chunks[k]? = some (slot16 a) →
      (chunkSizes.take k).sum = off → (CharArray.load (n := l) m (b + off) 16 hl).str = a.str.take 15 :=
    fun k off l hl a hk hoff => CharArray.str_load a hl (h.chunk hk ((c.chunk_offset k).trans hoff)) hl.2
  have hflag : ∀ (mask : BitVec 32) (x : Bool), decide (c.flags &&& mask ≠ 0) = x →
      decide (u32At m (b + 48) &&& mask ≠ 0) = x := by
    intro mask x hx
    rw [hnum 5 48 c.flags rfl rfl]
    exact hx
  obtain ⟨f1, f2, f3, f4, f5, f6, f7, f8, f9, f10⟩ := c.flags_bits
  have same : Column.Same c (loadColumn m b) := by
    constructor
    · exact CharArray.str_load_whole c.name (by decide) (h.chunk (k := 0) rfl rfl)
    · exact (congrArg ColumnType.ofCode (hnum 1 32 _ rfl rfl)).trans (ColumnType.ofCode_code _)
    · exact hnum 2 36 _ rfl rfl
    · show decide (u32At m (b + 40) ≠ 0) = c.hasIndex
      rw [hnum 3 40 _ rfl rfl]
      simp [flag_eq_zero]
    · exact hnum 4 44 _ rfl rfl
    · exact hflag 1 _ f1
    · exact hflag 2 _ f2
    · exact hflag 4 _ f3
    · exact hflag 8 _ f4
    · exact hnum 6 52 _ rfl rfl
    · exact hflag 16 _ f5
    · exact hflag 256 _ f7
    · exact hflag 512 _ f8
    · exact hflag 32 _ f6
    · show CollationType.ofCode ((u32At m (b + 48) >>> 6) &&& 3) = c.collation
      rw [hnum 5 48 c.flags rfl rfl, c.flags_collation, CollationType.ofCode_code]
    · exact hflag 1024 _ f9
    · exact hnum 12 136 _ rfl rfl
    · exact hflag 2048 _ f10
  refine ⟨same, ?_⟩
  have h1 := hstr 7 56 (by decide) c.defaultVal rfl rfl
  have h2 := hstr 8 72 (by decide) c.checkVal rfl rfl
  have h3 := hstr 9 88 (by decide) c.fkTargetTable rfl rfl
  have h4 := hstr 10 104 (by decide) c.fkTargetCol rfl rfl
  have h5 := hstr 11 120 (by decide) c.idxWhereCol rfl rfl
  have h6 := hstr 13 140 (by decide) c.idxWhereVal rfl rfl
  have h7 := hstr 14 156 (by decide) c.idxExprFunc rfl rfl
  unfold Column.constraints
  rw [same.hasDefault, same.hasCheck, same.hasFk, same.hasIndex, same.idxIsPartial, same.idxIsExpr]
  simp only [List.map_cons, List.map_nil, ← h1, ← h2, ← h3, ← h4, ← h5, ← h6, ← h7]
  rfl

theorem Column.length_chunks (c : Column) : c.chunks.flatten.length = 172 := by
  rw [List.length_flatten, c.chunk_sizes]
  rfl

/-! ## Tables -/

/-- Two tables that no INSERT, UPDATE, DELETE or SELECT tells apart. The primary key columns are read where
there are several. -/
structure TableDef.Agree (d d' : TableDef) : Prop where
  name : d'.name.str = d.name.str
  rootPageNum : d'.rootPageNum = d.rootPageNum
  columns : List.Forall₂ Column.Agree d.columns d'.columns
  pkCols : 1 < d.pkCols.length ∨ 1 < d'.pkCols.length →
    d'.pkCols.map CharArray.str = d.pkCols.map CharArray.str
  isVirtual : d'.isVirtual = d.isVirtual
  vtabModule : d'.vtabModule.str = d.vtabModule.str
  vtabArgs : d'.vtabArgs.str = d.vtabArgs.str
  defaultTtl : d'.defaultTtl = d.defaultTtl
  withHistory : d'.withHistory = d.withHistory

/-- What survives a restart: no composite primary key, and no string constraint above 15 bytes. -/
def TableDef.Fits (d : TableDef) : Prop := d.pkCols.length ≤ 1 ∧ ∀ c ∈ d.columns, c.Fits

/-- The column loop stays between its bounds, one copy behind the other. -/
theorem columnWrites_ascending (b : Nat) (cs : List Column) : Memory.Ascending b (columnWrites b cs) ∧
    ∀ w ∈ columnWrites b cs, w.1 + w.2.length ≤ b + cs.length * diskColSize := by
  induction cs generalizing b with
  | nil => exact ⟨trivial, fun w hw => absurd hw List.not_mem_nil⟩
  | cons c cs ih =>
    obtain ⟨hasc, hend⟩ := ih (b + diskColSize)
    have hlen := c.length_chunks
    have hblock : ∀ w ∈ Memory.consecutive b c.chunks, w.1 + w.2.length ≤ b + diskColSize := fun w hw => by
      have := Memory.consecutive_end hw
      unfold diskColSize
      omega
    refine ⟨(Memory.ascending_consecutive b _).append (Nat.le_add_right _ _) hblock hasc, fun w hw => ?_⟩
    rw [List.length_cons, Nat.succ_mul]
    rcases List.mem_append.mp hw with hw | hw
    · have := hblock w hw
      omega
    · have := hend w hw
      omega

theorem Holds.column {b : Nat} {cs : List Column} (h : Holds m (columnWrites b cs)) {k : Nat} (hk : k < cs.length) :
    Holds m (Memory.consecutive (b + k * diskColSize) cs[k].chunks) := by
  induction cs generalizing b k with
  | nil => exact absurd hk (Nat.not_lt_zero k)
  | cons c cs ih =>
    cases k with
    | zero => simpa using h.left
    | succ k =>
      have hbase : b + (k + 1) * diskColSize = b + diskColSize + k * diskColSize := by
        rw [Nat.succ_mul]
        omega
      rw [hbase]
      exact ih h.right (Nat.lt_of_succ_lt_succ hk)

/-- The copies for one table are ascending, from the base of its entry on. -/
theorem TableDef.writes_ascending (d : TableDef) (base : Nat) : Memory.Ascending base (d.writes base) := by
  obtain ⟨hcols, hend⟩ := columnWrites_ascending (base + 128 + 8) d.columns
  have hle : d.columns.length * diskColSize ≤ maxColumns * diskColSize := Nat.mul_le_mul_right _ d.columns_le
  refine (Memory.ascending_consecutive base _).append (n := base + 128 + 8) (by omega) (fun w hw => ?_)
    (hcols.append (n := base + vtabBaseOffset) ?_ (fun w hw => ?_) (Memory.ascending_consecutive _ _))
  · have := (Memory.consecutive_end hw).2
    simp [d.name.length_eq, u32] at this
    omega
  · unfold vtabBaseOffset
    omega
  · have := hend w hw
    unfold vtabBaseOffset
    omega

theorem u8_eq_one (b : Bool) : decide (u8 b = [1]) = b := by
  cases b <;> rfl

theorem length_u8 (b : Bool) : (u8 b).length = 1 := rfl

theorem length_u32 (x : BitVec 32) : (u32 x).length = 4 := length_leBytes 4 _

/-- The columns come back in number and in order. -/
theorem loadDef_columns {d : TableDef} {base : Nat} (h : Holds m (d.writes base)) :
    (loadDef m base).columns =
      (List.range d.columns.length).map fun c => loadColumn m (base + 128 + 8 + c * diskColSize) := by
  have hlen := d.columns_le
  have hnum : u32At m (base + (128 + 4)) = BitVec.ofNat 32 d.columns.length :=
    u32At_eq (h.left.chunk (k := 2) rfl (by simp [d.name.length_eq, length_u32]))
  have hcount : loadNumCols m base = d.columns.length := by
    unfold loadNumCols
    rw [Nat.add_assoc, hnum, BitVec.toNat_ofNat, Nat.mod_eq_of_lt (by unfold maxColumns at hlen; omega),
      if_neg (by omega)]
  show (List.range (loadNumCols m base)).map _ = _
  rw [hcount]

/-- A definition read back from its copies agrees with the one saved exactly when it fits. -/
theorem loadDef_agree_iff {d : TableDef} {base : Nat} (h : Holds m (d.writes base)) :
    d.Agree (loadDef m base) ↔ d.Fits := by
  have htail := h.right.right
  have hcols : List.Forall₂ Column.Agree d.columns (loadDef m base).columns ↔ ∀ c ∈ d.columns, c.Fits := by
    rw [loadDef_columns h, List.forall₂_iff_get, List.forall_mem_iff_getElem]
    simp only [List.length_map, List.length_range, List.get_eq_getElem, List.getElem_map, List.getElem_range, true_and]
    have hcol := fun k hk => (loadColumn_restored (h.right.left.column (k := k) hk)).agree_iff
    exact ⟨fun ha k hk => (hcol k hk).mp (ha k hk hk), fun hf k hk _ => (hcol k hk).mpr (hf k hk)⟩
  constructor
  · intro ha
    refine ⟨?_, hcols.mp ha.columns⟩
    by_contra hn
    have hpk := congrArg List.length (ha.pkCols (Or.inl (by omega)))
    simp only [List.length_map] at hpk
    have hnone : (loadDef m base).pkCols.length = 0 := rfl
    omega
  · rintro ⟨hpk, hf⟩
    refine ⟨?_, ?_, hcols.mpr hf, fun hn => ?_, ?_, ?_, ?_, ?_, ?_⟩
    · exact CharArray.str_load_whole d.name (by decide) (h.left.chunk (k := 0) rfl rfl)
    · exact u32At_eq (h.left.chunk (k := 1) rfl (by simp [d.name.length_eq]))
    · have hnone : (loadDef m base).pkCols.length = 0 := rfl
      omega
    · show decide (Memory.read m (base + vtabBaseOffset) 1 = [1]) = d.isVirtual
      have hv := htail.chunk (k := 0) (n := 0) rfl rfl
      rw [length_u8, Nat.add_zero] at hv
      rw [hv, u8_eq_one]
    · exact CharArray.str_load_whole d.vtabModule (by decide) (htail.chunk (k := 1) rfl rfl)
    · exact CharArray.str_load_whole d.vtabArgs (by decide) (htail.chunk (k := 2) rfl (by simp [u8, d.vtabModule.length_eq]))
    · exact u32At_eq (htail.chunk (k := 3) rfl (by simp [u8, d.vtabModule.length_eq, d.vtabArgs.length_eq]))
    · show decide (Memory.read m (base + vtabBaseOffset + 325) 1 = [1]) = d.withHistory
      have hv := htail.chunk (k := 4) (n := 325) rfl
        (by simp [u8, d.vtabModule.length_eq, d.vtabArgs.length_eq, length_u32])
      rw [length_u8] at hv
      rw [hv, u8_eq_one]

/-! ## The catalog -/

theorem entryPage_injective {t u : Nat} (h : entryPage t = entryPage u) : t = u := by
  unfold entryPage at h
  grind

theorem entryPage_ne_views (t : Nat) : entryPage t ≠ 15 := by
  unfold entryPage
  split
  · omega
  · split <;> omega

section Pages

variable {B : Type} (img : CatalogImage B) (pages : Nat → B)

/-- The table loop stores each entry once, over the page as it was. -/
theorem foldl_storeEntry (ts : List Nat) (hnd : ts.Nodup) :
    (∀ t ∈ ts, ts.foldl img.storeEntry pages (entryPage t) = img.entry t (pages (entryPage t))) ∧
      ∀ p, (∀ t ∈ ts, entryPage t ≠ p) → ts.foldl img.storeEntry pages p = pages p := by
  induction ts generalizing pages with
  | nil => exact ⟨fun t ht => absurd ht List.not_mem_nil, fun p _ => rfl⟩
  | cons u ts ih =>
    obtain ⟨hu, hnd⟩ := List.nodup_cons.mp hnd
    obtain ⟨hin, hout⟩ := ih (img.storeEntry pages u) hnd
    have hne : ∀ p, entryPage u ≠ p → img.storeEntry pages u p = pages p := fun p hp =>
      Function.update_of_ne (fun hn => hp hn.symm) ..
    constructor
    · intro t ht
      rcases List.mem_cons.mp ht with rfl | ht
      · rw [List.foldl_cons, hout _ fun v hv hn => hu (by rwa [← entryPage_injective hn])]
        exact Function.update_self ..
      · rw [List.foldl_cons, hin t ht, hne _ fun hn => hu (by rwa [entryPage_injective hn])]
    · intro p hp
      rw [List.foldl_cons, hout p fun t ht => hp t (List.mem_cons_of_mem _ ht), hne p (hp u (List.mem_cons_self ..))]

theorem CatalogImage.pages_entry {t : Nat} (ht : t < img.numTables) : img.pages pages (entryPage t) =
    img.entry t (if t = 0 then img.count (pages 0) else pages (entryPage t)) := by
  have hloop := (foldl_storeEntry img (Function.update pages 0 (img.count (pages 0))) _ List.nodup_range).1 t
    (List.mem_range.mpr ht)
  unfold CatalogImage.pages
  rw [Function.update_of_ne (entryPage_ne_views t), hloop]
  split
  · next h0 =>
    subst h0
    exact congrArg _ (Function.update_self ..)
  · next h0 =>
    have hne : entryPage t ≠ 0 := fun hn => h0 (entryPage_injective (u := 0) hn)
    rw [Function.update_of_ne hne]

theorem CatalogImage.pages_zero (h : img.numTables = 0) : img.pages pages 0 = img.count (pages 0) := by
  unfold CatalogImage.pages
  rw [Function.update_of_ne (by decide), h]
  exact Function.update_self ..

/-! ## The pager's pages -/

variable {s : Pager B} {f : Nat → B}

variable [PageBody B]

/-- The writer shows the bodies `f`, and knows how long the file is. -/
structure Shows (f : Nat → B) (s : Pager B) : Prop where
  writing : ∃ j, Pager.Writing s j
  covers : Pager.Covers s
  body : ∀ q, (s.view q).body = f q

theorem Shows.shadow (h : Shows f s) (p : Nat) : Shows f (s.pagerShadowPageWrite p) := by
  have hs := fun q => (⟨h.writing, h.covers, rfl⟩ : Pager.Spared q s s).step (a := .shadow p) id
  exact ⟨(hs 0).writing, (hs 0).covers, fun q => (congrArg Page.body (hs q).view).trans (h.body q)⟩

theorem Shows.modify (h : Shows f s) (p : Nat) (g : Page B → Page B) {b : B} (hb : (g (s.view p)).body = b) :
    Shows (Function.update f p b) (s.modify p g) := by
  obtain ⟨j, hw⟩ := h.writing
  have hm := Pager.modify_modified hw.toSole hw.inTx p g
  have hs := (⟨h.writing, h.covers, rfl⟩ : Pager.Spared (p + 1) s s).modify (p := p) (by omega) g
  refine ⟨hs.writing, hs.covers, fun q => ?_⟩
  rw [hm.view hw.inTx]
  by_cases hq : q = p
  · rw [if_pos hq, hq, Function.update_self, hb]
  · rw [if_neg hq, Function.update_of_ne hq, h.body]

theorem Shows.store (h : Shows f s) (p : Nat) (g : B → B) :
    Shows (Function.update f p (g (f p))) ((s.pagerShadowPageWrite p).modify p (onBody g)) := by
  have hs := h.shadow p
  exact hs.modify p _ (by rw [onBody, hs.body])

theorem Shows.entries (h : Shows f s) (ts : List Nat) :
    Shows (ts.foldl img.storeEntry f) (ts.foldl (Pager.saveEntry img) s) := by
  induction ts generalizing f s with
  | nil => exact h
  | cons t ts ih => exact ih (h.store (entryPage t) (img.entry t))

theorem Shows.trailer (h : Shows f s) (head l : Nat) :
    Shows f (s.modify 0 fun x => { x with freelistHead := head, lsn := l }) := by
  have hm := h.modify 0 (fun x => { x with freelistHead := head, lsn := l }) (b := f 0) (h.body 0)
  rwa [Function.update_eq_self] at hm

theorem Shows.flush (h : Shows f s) (p : Nat) : ((if s.useWal then s else s.flushCached).view p).body = f p := by
  split
  · exact h.body p
  · next hu =>
    by_cases hm : s.isMemory = true
    · rw [Pager.flushCached_eq, Pager.foldl_flush_memory hm]
      exact h.body p
    · rw [Pager.flushCached_view h.covers (by simpa using hm) (by simpa using hu)]
      exact h.body p

/-- What `catalog_save` leaves on every page of the database. -/
theorem catalogSave_pages {j : List (JournalEntry B)} (hw : Pager.Writing s j) (hc : Pager.Covers s)
    (hl : s.lockError = false) (p : Nat) :
    ((s.catalogSave img).view p).body = img.pages (fun q => (s.view q).body) p := by
  have h₀ : Shows (fun q => (s.view q).body) ({ s with reservedCatalogPages := 33 } : Pager B) :=
    ⟨⟨j, hw.congr rfl rfl rfl rfl rfl rfl rfl fun _ => rfl⟩, hc, fun _ => rfl⟩
  have h₁ := ((h₀.store 0 img.count).entries img (List.range img.numTables)).store 15 img.views
  unfold Pager.catalogSave
  rw [if_neg (by simp [hl])]
  exact (h₁.trailer _ _).flush p

end Pages

variable (cat : Catalog) (views : Memory.Mem → Memory.Mem) (pages : Nat → Memory.Mem)

/-- The entry of every table can be read back from its page. -/
theorem Catalog.holds_entry {t : Nat} (ht : t < cat.tables.length) :
    Holds ((cat.image views).pages pages (entryPage t)) (cat.tables[t].writes (entryBase t)) := by
  rw [CatalogImage.pages_entry _ _ ht]
  have hget : cat.tables[t]? = some cat.tables[t] := List.getElem?_eq_getElem ht
  show Holds (Memory.writeAll _ ((cat.tables[t]?.map (TableDef.writes (entryBase t))).getD [])) _
  rw [hget]
  exact fun w hw => (TableDef.writes_ascending _ _).read hw

/-- The table count can be read back from page 0. -/
theorem Catalog.count_saved :
    (u32At ((cat.image views).pages pages 0) 0).toNat = cat.tables.length := by
  have hcount : ∀ m, u32At (Memory.write m 0 (u32 (BitVec.ofNat 32 cat.tables.length))) 0 =
      BitVec.ofNat 32 cat.tables.length := fun m => u32At_eq (Memory.read_write_self m 0 _)
  have hval : u32At ((cat.image views).pages pages 0) 0 = BitVec.ofNat 32 cat.tables.length := by
    by_cases hn : cat.tables.length = 0
    · rw [show (cat.image views).pages pages 0 = _ from CatalogImage.pages_zero (cat.image views) pages hn]
      exact hcount _
    · have hpos : 0 < cat.tables.length := Nat.pos_of_ne_zero hn
      have hpage := CatalogImage.pages_entry (cat.image views) pages (t := 0) hpos
      rw [if_pos rfl] at hpage
      rw [← hcount (pages 0)]
      -- the entry on page 0 starts behind the count
      have hget : cat.tables[0]? = some cat.tables[0] := List.getElem?_eq_getElem hpos
      unfold u32At
      congr 2
      refine Memory.read_congr fun i _ hi => ?_
      rw [show (cat.image views).pages pages 0 = _ from hpage]
      show Memory.writeAll _ ((cat.tables[0]?.map (TableDef.writes (entryBase 0))).getD []) i = _
      rw [hget]
      exact (TableDef.writes_ascending cat.tables[0] 4).below (by omega)
  rw [hval, BitVec.toNat_ofNat]
  have := cat.tables_le
  unfold maxTables at this
  exact Nat.mod_eq_of_lt (by omega)

/-- `catalog_load` after `catalog_save` gives tables that every statement reads as the ones saved exactly when
none has a composite primary key or a string constraint above 15 bytes. -/
theorem catalog_round_trip_iff : List.Forall₂ TableDef.Agree cat.tables (loadTables ((cat.image views).pages pages)) ↔
    ∀ d ∈ cat.tables, d.Fits := by
  have hload : loadTables ((cat.image views).pages pages) = (List.range cat.tables.length).map fun t =>
      loadDef ((cat.image views).pages pages (entryPage t)) (entryBase t) := by
    unfold loadTables
    rw [cat.count_saved]
    dsimp only
    rw [if_pos cat.tables_le]
  rw [hload, List.forall₂_iff_get, List.forall_mem_iff_getElem]
  simp only [List.length_map, List.length_range, List.get_eq_getElem, List.getElem_map, List.getElem_range, true_and]
  have hdef := fun t ht => loadDef_agree_iff (cat.holds_entry views pages (t := t) ht)
  exact ⟨fun ha t ht => (hdef t ht).mp (ha t ht ht), fun hf t ht _ => (hdef t ht).mpr (hf t ht)⟩

/-! ## A composite primary key -/

/-- A column named `s` that holds an INT. -/
def intColumn (s : List UInt8) (h : s.length < 32) : Column where
  name := CharArray.ofStr s h
  type := .int
  size := 4
  hasIndex := false
  indexRootPage := 0
  isNotNull := false
  isUnique := false
  hasDefault := false
  defaultVal := CharArray.ofStr [] (by decide)
  hasCheck := false
  checkOp := 0
  checkVal := CharArray.ofStr [] (by decide)
  hasFk := false
  fkTargetTable := CharArray.ofStr [] (by decide)
  fkTargetCol := CharArray.ofStr [] (by decide)
  fkOnDeleteCascade := false
  fkOnUpdateCascade := false
  isAutoincrement := false
  collation := .notSet
  idxIsPartial := false
  idxWhereCol := CharArray.ofStr [] (by decide)
  idxWhereOp := 0
  idxWhereVal := CharArray.ofStr [] (by decide)
  idxIsExpr := false
  idxExprFunc := CharArray.ofStr [] (by decide)

/-- CREATE TABLE t (id INT, a INT, PRIMARY KEY (id, a)). -/
def compositeKey : TableDef where
  name := CharArray.ofStr [116] (by decide)
  rootPageNum := 33
  columns := [intColumn [105, 100] (by decide), intColumn [97] (by decide)]
  columns_le := by decide
  pkCols := [CharArray.ofStr [105, 100] (by decide), CharArray.ofStr [97] (by decide)]
  isVirtual := false
  vtabModule := CharArray.ofStr [] (by decide)
  vtabArgs := CharArray.ofStr [] (by decide)
  defaultTtl := 0
  withHistory := false

theorem loadTables_pkCols (pages : Nat → Memory.Mem) : ∀ d ∈ loadTables pages, d.pkCols = [] := by
  intro d hd
  obtain ⟨t, -, rfl⟩ := List.mem_map.mp hd
  rfl

/-- The two key columns are gone after the restart, so INSERT checks the first column only. -/
theorem composite_key_lost : ¬ ∀ (cat : Catalog) views pages,
    List.Forall₂ TableDef.Agree cat.tables (loadTables ((cat.image views).pages pages)) := by
  intro h
  have hkey := h ⟨[compositeKey], by decide⟩ id fun _ _ => 0
  have hnone := loadTables_pkCols (((⟨[compositeKey], by decide⟩ : Catalog).image id).pages fun _ _ => 0)
  generalize loadTables _ = loaded at hkey hnone
  cases hkey with
  | @cons _ d' _ _ ha _ =>
    have hlen := congrArg List.length (ha.pkCols (Or.inl (by decide)))
    rw [hnone d' (List.mem_cons_self ..)] at hlen
    exact absurd hlen (by decide)

end CustomDB
