import CustomDB.Catalog.RecordSpec
import CustomDB.Sql.Where

/-!
# Keys and stored values

What a cell gives back of a value written to it, and the two comparisons of keys: `compare_keys` on the 32 bytes
the tree keeps of column 0, which the searches use, and `compare_values` on values, which the statements use.
-/

namespace CustomDB

/-- What `deserialize_row` gives back of a value. -/
def Value.stored (ops : FloatOps) (c : ColumnType) (v : Value) : Value :=
  if v.isNull then { Value.init with isNull := true }
  else
    match c with
    | .int => { Value.init with intVal := v.intVal }
    | .bool => { Value.init with boolVal := v.boolVal }
    | .float =>
      let d := if nonzero v.doubleVal then v.doubleVal else ops.widen v.floatVal
      { Value.init with floatVal := ops.narrow d, doubleVal := d }
    | .double | .numeric | .decimal => { Value.init with doubleVal := v.doubleVal }
    | .blob | .datetime | .date | .time | .timestamp | .text | .varchar | .vector =>
      let len := if 0 < v.textLen then v.textLen else strlen v.textVal
      { Value.init with textVal := v.textVal.take len, textLen := len }

/-- `serialize_col0_key`: of a text the 32 bytes keep a prefix. -/
def serializeCol0Key (c : ColumnType) (v : Value) : Value :=
  match c with
  | .int => { Value.init with intVal := v.intVal }
  | .float => { Value.init with floatVal := v.floatVal }
  | .double | .numeric | .decimal => { Value.init with doubleVal := v.doubleVal }
  | .bool => { Value.init with boolVal := v.boolVal }
  | .varchar => { Value.init with textVal := v.str.take 30 }
  | .blob | .datetime | .date | .time | .timestamp | .text | .vector => { Value.init with textVal := v.str.take 31 }

/-- `compare_keys`. A VARCHAR key compares by its bytes, then by its length. -/
def compareKeys (ops : WhereOps) (c : ColumnType) (k l : Value) : Ordering :=
  match c with
  | .int => signOf (l.intVal.slt k.intVal) (k.intVal.slt l.intVal)
  | .float => signOf (ops.ltFloat l.floatVal k.floatVal) (ops.ltFloat k.floatVal l.floatVal)
  | .double | .numeric | .decimal => signOf (ops.ltDouble l.doubleVal k.doubleVal) (ops.ltDouble k.doubleVal l.doubleVal)
  | .bool => signOf (k.boolVal && !l.boolVal) (!k.boolVal && l.boolVal)
  | .varchar =>
    let n := min k.textVal.length l.textVal.length
    match strcmp (k.textVal.take n) (l.textVal.take n) with
    | .eq => compare k.textVal.length l.textVal.length
    | r => r
  | .blob | .datetime | .date | .time | .timestamp | .text | .vector => strcmp k.textVal l.textVal

/-- The comparison of two values of column 0 that a search makes. -/
def compareCol0 (ops : WhereOps) (c : ColumnType) (v w : Value) : Ordering :=
  compareKeys ops c (serializeCol0Key c v) (serializeCol0Key c w)

end CustomDB
