import CustomDB.Lib.WeakOrder
import CustomDB.Select.Entry
import CustomDB.Rows.KeySpec

/-!
# ORDER BY

The entries of a SELECT are sorted by `qsort` with `compare_row_sort_entries`, which compares the keys of two entries in
turn by the types each has.
-/

namespace CustomDB

open Lib.WeakOrder

/-! ## The code -/

/-- A type that is compared as a number. -/
def isNumberType (c : ColumnType) : Bool := c = .int || c = .double || c = .float || c = .numeric || c = .decimal

/-- A type that is compared as a text. -/
def isSortText (c : ColumnType) : Bool := c = .text || c = .varchar || c = .blob || c = .vector

section Code

variable (ops : WhereOps)

/-- The number of a key. -/
def keyDouble (k : SortKey) : BitVec 64 :=
  if k.type = .int then ops.doubleOfInt k.key.intVal
  else if k.type = .float then ops.widen k.key.floatVal
  else k.key.doubleVal

/-- The text of a key; of the types left out, the empty one. -/
def keyText (k : SortKey) : Text := if isSortText k.type then k.key.str else []

/-- `cmp` of two keys. -/
def compareSortKey (ka kb : SortKey) : Ordering :=
  if ka.key.isNull || kb.key.isNull then
    if ka.key.isNull && kb.key.isNull then .eq else if ka.key.isNull then .lt else .gt
  else if isNumberType ka.type && isNumberType kb.type then
    signOf (ops.ltDouble (keyDouble ops kb) (keyDouble ops ka)) (ops.ltDouble (keyDouble ops ka) (keyDouble ops kb))
  else if ka.type = .bool && kb.type = .bool then
    signOf (ka.key.boolVal && !kb.key.boolVal) (!ka.key.boolVal && kb.key.boolVal)
  else compareStringsCollated (keyText ka) (keyText kb) ka.coll

/-- The loop of `compare_row_sort_entries`. -/
def compareSortKeys (ka kb : List SortKey) : Ordering :=
  (ka.zip kb).foldr (fun k r =>
    let cmp := compareSortKey ops k.1 k.2
    if cmp ≠ .eq then if k.1.desc then cmp.swap else cmp else r) .eq

/-- `compare_row_sort_entries`. -/
def compareRowSortEntries (a b : RowSortEntry) : Ordering := compareSortKeys ops a.sortKeys b.sortKeys

end Code

/-! ## The order asked for -/

instance : DecidablePred IsText := fun c =>
  inferInstanceAs (Decidable (c ∉ [ColumnType.int, .bool, .double, .numeric, .decimal, .float]))

section Spec

variable (env : SelectEnv) (stmt : SelectList) (cols : List Column)

/-- NULL before everything else. -/
def nullsFirst (v w : Value) (o : Ordering) : Ordering :=
  if v.isNull && w.isNull then .eq else if v.isNull then .lt else if w.isNull then .gt else o

/-- Two values of a column: texts by the collation, the others as `compare_values` does. -/
def columnCompare (type : ColumnType) (coll : CollationType) (v w : Value) : Ordering :=
  if IsText type then nullsFirst v w (compareStringsCollated v.str w.str coll) else compareValues env.ops type v w

/-- Two values of an expression: numbers before texts. -/
def exprCompare (ka kb : SortKey) : Ordering :=
  nullsFirst ka.key kb.key <|
    if ka.type = .double then
      if kb.type = .double then
        signOf (env.ops.ltDouble kb.key.doubleVal ka.key.doubleVal) (env.ops.ltDouble ka.key.doubleVal kb.key.doubleVal)
      else .lt
    else if kb.type = .double then .gt
    else compareStringsCollated ka.key.str kb.key.str ka.coll

/-- The value of an expression on a row. -/
def exprValue (item : OrderByItem) (row : List Value) : SortKey :=
  exprKey env (env.evalExpr (resolveOrder stmt item.colName) cols row) item

/-- Two rows by one item. -/
def itemCompare (item : OrderByItem) (a b : List Value) : Ordering :=
  let o := match findColumnCI cols (resolveOrder stmt item.colName) with
    | some c => columnCompare env (typeAt cols c) item.collation (a.getD c Value.init) (b.getD c Value.init)
    | none => exprCompare env (exprValue env stmt cols item a) (exprValue env stmt cols item b)
  if item.isDesc then o.swap else o

/-- Two rows by the items in turn. -/
def rowCompare (items : List OrderByItem) (a b : List Value) : Ordering :=
  items.foldr (fun item r => (itemCompare env stmt cols item a b).then r) .eq

/-- The comparison orders the entries of the rows weakly, and entries sorted by it are the rows in the order asked
for. -/
structure SortsRows (rows : List (List Value)) : Prop where
  weak : StrictWeak {e | e ∈ rows.map (selectedEntry env stmt cols)} fun a b => compareRowSortEntries env.ops a b = .lt
  signs : ∀ a ∈ rows.map (selectedEntry env stmt cols), ∀ b ∈ rows.map (selectedEntry env stmt cols),
    compareRowSortEntries env.ops b a = (compareRowSortEntries env.ops a b).swap
  sorted : ∀ out : List RowSortEntry, out.Perm (rows.map (selectedEntry env stmt cols)) →
    out.IsChain (fun a b => compareRowSortEntries env.ops a b ≠ .gt) →
      (out.map RowSortEntry.row).Perm rows ∧
        (out.map RowSortEntry.row).IsChain fun a b => rowCompare env stmt cols stmt.items a b ≠ .gt

/-- The text of an expression is not empty, its number is not NaN, and it has more than blanks where these do not
count. -/
structure TextSortable (item : OrderByItem) (out : Text) : Prop where
  nonempty : out ≠ []
  number : (exprKey env out item).type = .double →
    env.ops.eqDouble (exprKey env out item).key.doubleVal (exprKey env out item).key.doubleVal = true
  blank : item.collation = .rtrim → out.any fun b => !isspace b

/-- A column to sort by has no date or time and no NaN in it; an expression gives a sortable text on every row, or none
on every row. -/
def ItemSortable (rows : List (List Value)) (item : OrderByItem) : Prop :=
  match findColumnCI cols (resolveOrder stmt item.colName) with
  | some c => typeAt cols c ∉ [ColumnType.datetime, .date, .time, .timestamp] ∧
      ∀ row ∈ rows, (row.getD c Value.init).Number env.ops (typeAt cols c)
  | none => (∀ row ∈ rows, env.evalExpr (resolveOrder stmt item.colName) cols row = []) ∨
      ∀ row ∈ rows, TextSortable env item (env.evalExpr (resolveOrder stmt item.colName) cols row)

end Spec

/-! ## Texts -/

section Texts

theorem zero_notMem_lower {s : Text} (h : 0 ∉ s) : 0 ∉ s.map tolower := by
  intro h0
  obtain ⟨b, hb, hb0⟩ := List.mem_map.mp h0
  unfold tolower at hb0
  split at hb0
  · next hr =>
    have := congrArg UInt8.toNat hb0
    rw [UInt8.toNat_add] at this
    have h1 := UInt8.le_iff_toNat_le.mp hr.1
    have h2 := UInt8.le_iff_toNat_le.mp hr.2
    simp at this h1 h2
    omega
  · exact h (hb0 ▸ hb)

/-- Without the blanks at its end. -/
def rtrimmed (s : Text) : Text := (s.reverse.dropWhile isspace).reverse

theorem rtrimmed_subset {s : Text} {b : UInt8} (h : b ∈ rtrimmed s) : b ∈ s := by
  rw [rtrimmed, List.mem_reverse] at h
  exact List.mem_reverse.mp ((List.dropWhile_sublist _).subset h)

/-- What a text is compared by. -/
def collated (coll : CollationType) (s : Text) : Text :=
  match coll with
  | .nocase => s.map tolower
  | .rtrim => rtrimmed s
  | _ => s

theorem compareStringsCollated_eq {s t : Text} (hs : 0 ∉ s) (ht : 0 ∉ t) (coll : CollationType) :
    compareStringsCollated s t coll = strcmp (collated coll s) (collated coll t) := by
  cases coll with
  | rtrim => exact compareKeys_varchar (fun h => hs (rtrimmed_subset h)) fun h => ht (rtrimmed_subset h)
  | _ => rfl

theorem zero_notMem_collated {s : Text} (hs : 0 ∉ s) (coll : CollationType) : 0 ∉ collated coll s := by
  cases coll with
  | nocase => exact zero_notMem_lower hs
  | rtrim => exact fun h => hs (rtrimmed_subset h)
  | _ => exact hs

/-- The place of a text. -/
def textRank (coll : CollationType) (s : Text) : List ℤ := (collated coll s).map fun b => (b.toNat : ℤ)

theorem collated_compares {s t : Text} (hs : 0 ∉ s) (ht : 0 ∉ t) (coll : CollationType) :
    (compareStringsCollated s t coll).Compares (textRank coll s) (textRank coll t) := by
  rw [compareStringsCollated_eq hs ht]
  exact strcmp_compares (zero_notMem_collated hs coll) (zero_notMem_collated ht coll)

end Texts

end CustomDB
