import CustomDB.Lib.Grouped
import CustomDB.Select.Entry

/-!
# GROUP BY

`run_group_by_select` puts every visible row that matches into a bucket for its key and accumulates there one count,
sum, minimum and maximum for each item of the select list. HAVING looks its aggregate up among these items.
-/

namespace CustomDB

open Lib.Grouped

def txtNA : Text := ascii ['N', '/', 'A']

/-! ## The code -/

inductive AggFunc where
  | none | countStar | count | sum | avg | min | max
  deriving DecidableEq, Repr

/-- `func` and `col_name` of a `SelectCol`. -/
structure AggCol where
  func : AggFunc
  colName : Text
  deriving DecidableEq

/-- The part of a `Statement` that groups. -/
structure GroupStmt where
  selectCols : List AggCol
  groupByCol : Text
  whereClause : WhereClause
  hasHaving : Bool
  havingFunc : AggFunc
  havingCol : Text
  havingOp : CompOp
  havingVal : Text

/-- The arithmetic and the format of the aggregates. -/
structure AggOps extends WhereOps where
  addDouble : BitVec 64 → BitVec 64 → BitVec 64
  divDouble : BitVec 64 → BitVec 64 → BitVec 64
  /-- `(double)` of an `int64_t` that counts. -/
  doubleOfCount : Nat → BitVec 64
  /-- `printf` with `%.2f`. -/
  printFixed : BitVec 64 → Text

/-- What a bucket accumulates for one item. -/
structure AggCell where
  count : Nat
  sum : BitVec 64
  min : BitVec 64
  max : BitVec 64
  hasValues : Bool
  deriving DecidableEq

/-- 0, 0.0, 1e308, -1e308 and false. -/
def AggCell.zero : AggCell := ⟨0, 0, 0x7fe1ccf385ebc8a0, 0xffe1ccf385ebc8a0, false⟩

/-- A row of the output: the key and the other fields. -/
structure GroupRow where
  key : Value
  fields : List Text
  deriving DecidableEq

section Code

variable (ops : AggOps) (d : TableDef) (stmt : GroupStmt)

/-- The test for the bucket of a row. -/
def groupMatch (type : ColumnType) (k v : Value) : Bool :=
  if k.isNull && v.isNull then true
  else if k.isNull != v.isNull then false
  else
    match type with
    | .int => k.intVal = v.intVal
    | .float => ops.eqFloat k.floatVal v.floatVal
    | .double | .numeric | .decimal => ops.eqDouble k.doubleVal v.doubleVal
    | .bool => k.boolVal = v.boolVal
    | _ => strcmp k.str v.str = .eq

/-- A value as the number that is added up. -/
def aggNumber (type : ColumnType) (v : Value) : BitVec 64 :=
  match type with
  | .int => ops.doubleOfInt v.intVal
  | .float => ops.widen v.floatVal
  | .double | .numeric | .decimal => v.doubleVal
  | .bool => if v.boolVal then 0x3ff0000000000000 else 0
  | _ => 0

/-- A number comes to a cell. -/
def AggCell.add (g : AggCell) (x : BitVec 64) : AggCell :=
  { count := g.count + 1
    sum := ops.addDouble g.sum x
    min := if !g.hasValues || ops.ltDouble x g.min then x else g.min
    max := if !g.hasValues || ops.ltDouble g.max x then x else g.max
    hasValues := true }

/-- A row comes to the cell of an item. -/
def aggTurn (sc : AggCol) (g : AggCell) (row : List Value) : AggCell :=
  if sc.func = .countStar then { g with count := g.count + 1 }
  else
    match findColumn d.columns sc.colName with
    | none => g
    | some c =>
      let v := row.getD c Value.init
      if v.isNull then g else g.add ops (aggNumber ops (d.typeOf c) v)

/-- A row comes to its bucket. -/
def bucketTurn (cells : List AggCell) (row : List Value) : List AggCell :=
  (stmt.selectCols.zip cells).map fun e => aggTurn ops d e.1 e.2 row

/-- The value of a cell under a function; 0.0 where there is nothing to take it of. -/
def AggCell.value (f : AggFunc) (g : AggCell) : BitVec 64 :=
  match f with
  | .countStar | .count => ops.doubleOfCount g.count
  | .sum => g.sum
  | .avg => if 0 < g.count then ops.divDouble g.sum (ops.doubleOfCount g.count) else 0
  | .min => if g.hasValues then g.min else 0
  | .max => if g.hasValues then g.max else 0
  | .none => 0

/-- The comparison of HAVING. -/
def havingHolds (h target : BitVec 64) : Bool :=
  match stmt.havingOp with
  | .eq => ops.eqDouble h target
  | .lt => ops.ltDouble h target
  | .gt => ops.ltDouble target h
  | .lte => ops.ltDouble h target || ops.eqDouble h target
  | .gte => ops.ltDouble target h || ops.eqDouble h target
  | _ => false

/-- `having_idx`. -/
def havingIdx : Option Nat :=
  stmt.selectCols.findIdx? fun sc =>
    sc.func = stmt.havingFunc && (stmt.havingFunc = .countStar || strcasecmp sc.colName stmt.havingCol = .eq)

/-- `h_val`. -/
def havingValue (cells : List AggCell) : BitVec 64 :=
  match havingIdx stmt with
  | some i => (cells.getD i AggCell.zero).value ops stmt.havingFunc
  | none =>
    if stmt.havingFunc = .countStar ∨ stmt.havingFunc = .count then
      ops.doubleOfCount (cells.getD 0 AggCell.zero).count
    else 0

/-- The bucket passes HAVING. -/
def havingPass (cells : List AggCell) : Bool :=
  !stmt.hasHaving || havingHolds ops stmt (havingValue ops stmt cells) (ops.atof stmt.havingVal)

/-- The bytes `%ld` prints for a count. -/
def printCount (n : Nat) : Text := (Nat.toDigits 10 n).map fun c => UInt8.ofNat c.toNat

/-- The field of an item. -/
def aggField (sc : AggCol) (g : AggCell) : Text :=
  match sc.func with
  | .countStar | .count => printCount g.count
  | .none => txtNA
  | f => ops.printFixed (g.value ops f)

/-- The item is the grouping column, which is printed already. -/
def isGroupCol (sc : AggCol) : Bool := sc.func = .none && strcmp sc.colName stmt.groupByCol = .eq

/-- The row printed for a bucket. -/
def bucketRow (b : Value × List AggCell) : GroupRow :=
  ⟨b.1, ((stmt.selectCols.zip b.2).filter fun e => !isGroupCol stmt e.1).map fun e => aggField ops e.1 e.2⟩

/-- The loops of `run_group_by_select`, over the rows that are visible and match. -/
def groupRows (g : Nat) (rows : List (List Value)) : List GroupRow :=
  ((buckets (groupMatch ops (d.typeOf g)) (fun row : List Value => row.getD g Value.init)
    (stmt.selectCols.map fun _ => AggCell.zero) (bucketTurn ops d stmt) rows).filter
      fun b => havingPass ops stmt b.2).map (bucketRow ops stmt)

/-- `run_group_by_select`; `none` is `EXECUTE_BAD_SCHEMA`. -/
def runGroupBySelect (db : RowDb) (t : RowTable) (snapshot now : Nat) : Option (List GroupRow) :=
  (findColumn t.tableDef.columns stmt.groupByCol).map fun g =>
    groupRows ops t.tableDef stmt g (runSelectVm ops.toWhereOps db t snapshot now stmt.whereClause)

end Code

end CustomDB
