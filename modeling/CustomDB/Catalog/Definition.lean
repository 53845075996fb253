import CustomDB.Catalog.Pages
import CustomDB.Catalog.Record
import CustomDB.Lib.Memory

/-!
# Table definitions on disk

`catalog_save` packs a `TableDef` by hand at computed offsets, `catalog_load` unpacks it. Numbers are copied
whole; a string constraint has a slot of 16 bytes whatever the size of its array, and the primary key columns
have no slot.
-/

namespace CustomDB

open Lib Lib.Bytes

/-! ## Definitions in memory -/

/-- A `char[n]` that holds a C string. -/
structure CharArray (n : Nat) where
  bytes : List UInt8
  length_eq : bytes.length = n
  terminated : 0 ∈ bytes
  deriving DecidableEq

namespace CharArray

variable {n : Nat}

/-- The string: the bytes before the first 0. -/
def str (a : CharArray n) : List UInt8 := a.bytes.takeWhile (· ≠ 0)

theorem length_loaded {k : Nat} (m : Memory.Mem) (off : Nat) (hk : 0 < k ∧ k ≤ n) :
    ((Memory.read m off k).dropLast ++ List.replicate (n + 1 - k) 0).length = n := by
  simp [Memory.read]
  omega

theorem zero_mem_loaded {k : Nat} (m : Memory.Mem) (off : Nat) (hk : 0 < k ∧ k ≤ n) :
    0 ∈ (Memory.read m off k).dropLast ++ List.replicate (n + 1 - k) 0 :=
  List.mem_append_right _ (List.mem_replicate.mpr ⟨by omega, rfl⟩)

/-- `memcpy` of `k` bytes at `off` into a zeroed `char[n]`, and a 0 over the last of them. -/
def load (m : Memory.Mem) (off k : Nat) (hk : 0 < k ∧ k ≤ n) : CharArray n where
  bytes := (Memory.read m off k).dropLast ++ List.replicate (n + 1 - k) 0
  length_eq := length_loaded m off hk
  terminated := zero_mem_loaded m off hk

/-- An array of `n` bytes that starts with `s`, zeroed behind it. -/
def ofStr (s : List UInt8) (h : s.length < n) : CharArray n where
  bytes := s ++ List.replicate (n - s.length) 0
  length_eq := by
    rw [List.length_append, List.length_replicate]
    omega
  terminated := List.mem_append_right _ (List.mem_replicate.mpr ⟨by omega, rfl⟩)

-- the sizes that occur
theorem pos32 : 0 < 32 := by decide
theorem pos64 : 0 < 64 := by decide
theorem pos128 : 0 < 128 := by decide
theorem nil32 : ([] : List UInt8).length < 32 := by decide
theorem nil64 : ([] : List UInt8).length < 64 := by decide
theorem nil256 : ([] : List UInt8).length < 256 := by decide

theorem length_str_lt (a : CharArray n) : a.str.length < n := by
  have hsub := (List.takeWhile_prefix (fun b : UInt8 => decide (b ≠ 0)) (l := a.bytes)).length_le
  rw [a.length_eq] at hsub
  refine lt_of_le_of_ne hsub fun heq => ?_
  have hall : a.bytes.takeWhile (fun b : UInt8 => decide (b ≠ 0)) = a.bytes :=
    (List.takeWhile_prefix _).eq_of_length (heq.trans a.length_eq.symm)
  exact absurd (List.takeWhile_eq_self_iff.mp hall 0 a.terminated) (by simp)

end CharArray

inductive CollationType where
  | notSet | binary | nocase | rtrim
  deriving DecidableEq, Repr

/-- `Column`. -/
structure Column where
  name : CharArray 32
  type : ColumnType
  size : BitVec 32
  hasIndex : Bool
  indexRootPage : BitVec 32
  isNotNull : Bool
  isUnique : Bool
  hasDefault : Bool
  defaultVal : CharArray 64
  hasCheck : Bool
  checkOp : BitVec 32
  checkVal : CharArray 64
  hasFk : Bool
  fkTargetTable : CharArray 64
  fkTargetCol : CharArray 32
  fkOnDeleteCascade : Bool
  fkOnUpdateCascade : Bool
  isAutoincrement : Bool
  collation : CollationType
  idxIsPartial : Bool
  idxWhereCol : CharArray 32
  idxWhereOp : BitVec 32
  idxWhereVal : CharArray 64
  idxIsExpr : Bool
  idxExprFunc : CharArray 32

/-- `MAX_COLUMNS`. -/
def maxColumns : Nat := 16

/-- `TableDef`, without the offsets `tabledef_compute` derives from it. -/
structure TableDef where
  name : CharArray 128
  rootPageNum : BitVec 32
  columns : List Column
  columns_le : columns.length ≤ maxColumns
  pkCols : List (CharArray 32)
  isVirtual : Bool
  vtabModule : CharArray 64
  vtabArgs : CharArray 256
  defaultTtl : BitVec 32
  withHistory : Bool

/-- The tables of a `Catalog`. -/
structure Catalog where
  tables : List TableDef
  tables_le : tables.length ≤ maxTables

/-! ## Packing -/

/-- The value of the enumeration. -/
def ColumnType.code : ColumnType → BitVec 32
  | int => 0 | text => 1 | float => 2 | double => 3 | bool => 4 | varchar => 5 | blob => 6 | datetime => 7
  | date => 8 | time => 9 | timestamp => 10 | numeric => 11 | decimal => 12 | vector => 13

/-- The enumeration's member of that value. No definition stores one above 13; it stands for INT here. -/
def ColumnType.ofCode (x : BitVec 32) : ColumnType :=
  match x.toNat with
  | 1 => text | 2 => float | 3 => double | 4 => bool | 5 => varchar | 6 => blob | 7 => datetime
  | 8 => date | 9 => time | 10 => timestamp | 11 => numeric | 12 => decimal | 13 => vector | _ => int

def CollationType.code : CollationType → BitVec 32
  | notSet => 0 | binary => 1 | nocase => 2 | rtrim => 3

/-- The member of a two-bit value. -/
def CollationType.ofCode (x : BitVec 32) : CollationType :=
  match x.toNat with
  | 1 => binary | 2 => nocase | 3 => rtrim | _ => notSet

/-- `b ? x : 0`. -/
def flag (b : Bool) (x : BitVec 32) : BitVec 32 := if b then x else 0

/-- The flag word of a column. -/
def Column.flags (c : Column) : BitVec 32 :=
  flag c.isNotNull 1 ||| flag c.isUnique 2 ||| flag c.hasDefault 4 ||| flag c.hasCheck 8 ||| flag c.hasFk 16 |||
    flag c.isAutoincrement 32 ||| ((c.collation.code &&& 3) <<< 6) ||| flag c.fkOnDeleteCascade 256 |||
    flag c.fkOnUpdateCascade 512 ||| flag c.idxIsPartial 1024 ||| flag c.idxIsExpr 2048

/-- The bytes of a `uint32_t`. -/
def u32 (x : BitVec 32) : List UInt8 := leBytes 4 x.toNat

/-- The string slot of a constraint: 16 bytes, whatever the array's size. -/
def slot16 {n : Nat} (a : CharArray n) : List UInt8 := a.bytes.take 16

/-- What the column loop of `catalog_save` copies, one behind the other. -/
def Column.chunks (c : Column) : List (List UInt8) :=
  [c.name.bytes, u32 c.type.code, u32 c.size, u32 (flag c.hasIndex 1), u32 c.indexRootPage, u32 c.flags,
    u32 c.checkOp, slot16 c.defaultVal, slot16 c.checkVal, slot16 c.fkTargetTable, slot16 c.fkTargetCol,
    slot16 c.idxWhereCol, u32 c.idxWhereOp, slot16 c.idxWhereVal, slot16 c.idxExprFunc]

/-- `DISK_COL_SIZE`. -/
def diskColSize : Nat := 200

/-- The column loop of `catalog_save`, from `col_base` on. -/
def columnWrites : Nat → List Column → List (Nat × List UInt8)
  | _, [] => []
  | colBase, c :: cs => Memory.consecutive colBase c.chunks ++ columnWrites (colBase + diskColSize) cs

/-- `VTAB_BASE_OFFSET`. -/
def vtabBaseOffset : Nat := 128 + 4 + 4 + maxColumns * diskColSize

/-- The bytes of a `uint8_t` flag. -/
def u8 (b : Bool) : List UInt8 := [if b then 1 else 0]

/-- What `catalog_save` copies for one table, in program order. -/
def TableDef.writes (base : Nat) (d : TableDef) : List (Nat × List UInt8) :=
  Memory.consecutive base [d.name.bytes, u32 d.rootPageNum, u32 (BitVec.ofNat 32 d.columns.length)] ++
    (columnWrites (base + 128 + 8) d.columns ++
      Memory.consecutive (base + vtabBaseOffset)
        [u8 d.isVirtual, d.vtabModule.bytes, d.vtabArgs.bytes, u32 d.defaultTtl, u8 d.withHistory])

/-- `page_offset`: the table count comes first on page 0. -/
def entryBase (t : Nat) : Nat := if t = 0 then 4 else 0

section Pages

variable {B : Type}

/-- The page of table `t` with its entry. -/
def CatalogImage.storeEntry (img : CatalogImage B) (pages : Nat → B) (t : Nat) : Nat → B :=
  Function.update pages (entryPage t) (img.entry t (pages (entryPage t)))

/-- What `catalog_save` leaves on every page. -/
def CatalogImage.pages (img : CatalogImage B) (pages : Nat → B) : Nat → B :=
  let pages := Function.update pages 0 (img.count (pages 0))
  let pages := (List.range img.numTables).foldl img.storeEntry pages
  Function.update pages 15 (img.views (pages 15))

end Pages

/-- What `catalog_save` stores for a catalog. -/
def Catalog.image (cat : Catalog) (views : Memory.Mem → Memory.Mem) : CatalogImage Memory.Mem where
  numTables := cat.tables.length
  count m := Memory.write m 0 (u32 (BitVec.ofNat 32 cat.tables.length))
  entry t m := Memory.writeAll m ((cat.tables[t]?.map (TableDef.writes (entryBase t))).getD [])
  views := views

/-! ## Unpacking -/

/-- `memcpy(&x, m + off, 4)`. -/
def u32At (m : Memory.Mem) (off : Nat) : BitVec 32 := BitVec.ofNat 32 (leNat (Memory.read m off 4))

/-- The column loop of `catalog_load`. -/
def loadColumn (m : Memory.Mem) (b : Nat) : Column :=
  let flags := u32At m (b + 48)
  { name := CharArray.load m b 32 (by decide)
    type := ColumnType.ofCode (u32At m (b + 32))
    size := u32At m (b + 36)
    hasIndex := u32At m (b + 40) ≠ 0
    indexRootPage := u32At m (b + 44)
    isNotNull := flags &&& 1 ≠ 0
    isUnique := flags &&& 2 ≠ 0
    hasDefault := flags &&& 4 ≠ 0
    defaultVal := CharArray.load m (b + 56) 16 (by decide)
    hasCheck := flags &&& 8 ≠ 0
    checkOp := u32At m (b + 52)
    checkVal := CharArray.load m (b + 72) 16 (by decide)
    hasFk := flags &&& 16 ≠ 0
    fkTargetTable := CharArray.load m (b + 88) 16 (by decide)
    fkTargetCol := CharArray.load m (b + 104) 16 (by decide)
    fkOnDeleteCascade := flags &&& 256 ≠ 0
    fkOnUpdateCascade := flags &&& 512 ≠ 0
    isAutoincrement := flags &&& 32 ≠ 0
    collation := CollationType.ofCode ((flags >>> 6) &&& 3)
    idxIsPartial := flags &&& 1024 ≠ 0
    idxWhereCol := CharArray.load m (b + 120) 16 (by decide)
    idxWhereOp := u32At m (b + 136)
    idxWhereVal := CharArray.load m (b + 140) 16 (by decide)
    idxIsExpr := flags &&& 2048 ≠ 0
    idxExprFunc := CharArray.load m (b + 156) 16 (by decide) }

/-- `num_cols`, 0 where the page has more than `MAX_COLUMNS`. -/
def loadNumCols (m : Memory.Mem) (base : Nat) : Nat :=
  if maxColumns < (u32At m (base + 128 + 4)).toNat then 0 else (u32At m (base + 128 + 4)).toNat

theorem loadNumCols_le (m : Memory.Mem) (base : Nat) : loadNumCols m base ≤ maxColumns := by
  unfold loadNumCols
  split <;> omega

/-- The table loop of `catalog_load`. The primary key columns stay as `memset` left them. -/
def loadDef (m : Memory.Mem) (base : Nat) : TableDef where
  name := CharArray.load m base 128 (by decide)
  rootPageNum := u32At m (base + 128)
  columns := (List.range (loadNumCols m base)).map fun c => loadColumn m (base + 128 + 8 + c * diskColSize)
  columns_le := by
    rw [List.length_map, List.length_range]
    exact loadNumCols_le m base
  pkCols := []
  isVirtual := Memory.read m (base + vtabBaseOffset) 1 = [1]
  vtabModule := CharArray.load m (base + vtabBaseOffset + 1) 64 (by decide)
  vtabArgs := CharArray.load m (base + vtabBaseOffset + 65) 256 (by decide)
  defaultTtl := u32At m (base + vtabBaseOffset + 321)
  withHistory := Memory.read m (base + vtabBaseOffset + 325) 1 = [1]

/-- `catalog_load`: the tables, from the pages `get_page` returns. -/
def loadTables (pages : Nat → Memory.Mem) : List TableDef :=
  let num := (u32At (pages 0) 0).toNat
  (List.range (if num ≤ maxTables then num else 0)).map fun t => loadDef (pages (entryPage t)) (entryBase t)

end CustomDB
