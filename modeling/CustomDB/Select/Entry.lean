import CustomDB.Rows.Visible

/-!
# Selected rows

A row that a SELECT has found is kept with the keys it is sorted by, and printed field by field at the end.
-/

namespace CustomDB

def kwBlobX : Text := ascii ['x', '\'']
def kwHex : Text := ascii ['0', 'x']
def txtNull : Text := ascii ['N', 'U', 'L', 'L']
def txtTrue : Text := ascii ['t', 'r', 'u', 'e']
def txtFalse : Text := ascii ['f', 'a', 'l', 's', 'e']

/-- What a SELECT takes from the C library, and `eval_expr_string`. -/
structure SelectEnv where
  ops : WhereOps
  /-- `printf` with `%.4g`. -/
  printShort : BitVec 64 → Text
  /-- The text `eval_expr_string` leaves for an expression on a row of these columns. -/
  evalExpr : Text → List Column → List Value → Text
  /-- `strtod`: the number, and what is left behind it; `none` where there is no number. -/
  strtod : Text → Option (BitVec 64 × Text)

/-- `SelectCol`, without the fields of aggregates and window functions. -/
structure SelectCol where
  colName : Text
  isCoalesce : Bool
  coalesceDefault : Text
  deriving DecidableEq

/-- An item of ORDER BY. -/
structure OrderByItem where
  colName : Text
  isDesc : Bool
  collation : CollationType
  deriving DecidableEq

/-- The part of a `Statement` that says how rows are sorted and printed. `orderBy` is what stands in the fields of the
statement itself; it is used where there is no list. -/
structure SelectList where
  selectCols : List SelectCol
  isDistinct : Bool
  hasOrderBy : Bool
  orderBy : OrderByItem
  orderByItems : List OrderByItem

/-- `sort_keys[k]`, `sort_types[k]`, `sort_colls[k]` and `sort_descs[k]`. -/
structure SortKey where
  key : Value
  type : ColumnType
  coll : CollationType
  desc : Bool
  deriving DecidableEq

/-- `RowSortEntry`. The number of keys is the length of the list. -/
structure RowSortEntry where
  row : List Value
  sortKeys : List SortKey
  deriving DecidableEq

/-- An entry as `memset` leaves it. -/
def RowSortEntry.zero : RowSortEntry := ⟨[], []⟩

variable (env : SelectEnv) (stmt : SelectList) (cols : List Column)

/-- The type of a column. -/
def typeAt (c : Nat) : ColumnType := (cols[c]?.map Column.type).getD .int

/-! ## Printing -/

/-- The field printed for a value that is not NULL. -/
def printValue (type : ColumnType) (v : Value) : Text :=
  match type with
  | .int => printInt v.intVal
  | .float => env.printShort (if nonzero v.doubleVal then v.doubleVal else env.ops.widen v.floatVal)
  | .double | .numeric | .decimal => env.ops.printDouble v.doubleVal
  | .bool => if v.boolVal then txtTrue else txtFalse
  | .blob => if startsCI kwBlobX v.str || startsCI kwHex v.str then v.str else [120, 39] ++ v.str ++ [39]
  | _ => v.str

/-- `print_row`, as the list of its fields. -/
def printRow (row : List Value) : List Text :=
  cols.zipIdx.map fun c =>
    let v := row.getD c.2 Value.init
    if v.isNull then txtNull else printValue env c.1.type v

/-- The column a selected name stands for, whatever the case of its letters and with or without a table. -/
def projectedColumn (name : Text) : Option Nat :=
  match findColumnCI cols name with
  | some c => some c
  | none => (afterDot name).bind fun rest => findColumnCI cols rest

/-- What is printed for a name that is no column: a literal, or NULL. -/
def printLiteral (name : Text) : Text :=
  if peek name = 39 ∨ peek name = 34 then
    if 1 < name.length ∧ name.getLastD 0 = peek name then (name.drop 1).dropLast else name
  else
    let digits := if peek name = 45 then name.drop 1 else name
    if 0 < name.length ∧ digits.all fun b => isdigit b || b = 46 then name else txtNull

/-- One field of `print_projected_row`. -/
def projectedField (row : List Value) (sc : SelectCol) : Text :=
  let expr := env.evalExpr sc.colName cols row
  if 0 < expr.length then expr
  else
    match projectedColumn cols sc.colName with
    | none => printLiteral sc.colName
    | some c =>
      let v := row.getD c Value.init
      if sc.isCoalesce && v.isNull then sc.coalesceDefault
      else if v.isNull then txtNull
      else printValue env (typeAt cols c) v

/-- `print_projected_row`, as the list of its fields. -/
def projectedRow (row : List Value) : List Text :=
  if stmt.selectCols = [] then printRow env cols row else stmt.selectCols.map (projectedField env cols row)

/-! ## Sort keys -/

/-- The expression to sort by: a number stands for the selected column at that place. -/
def resolveOrder (target : Text) : Text :=
  if isdigit (peek target) then
    let pos := (atoi target).toInt
    if 1 ≤ pos ∧ pos ≤ stmt.selectCols.length then
      (stmt.selectCols[(pos - 1).toNat]?.map SelectCol.colName).getD target
    else target
  else target

/-- The key made of the text of an expression. -/
def exprKey (out : Text) (item : OrderByItem) : SortKey :=
  if strcasecmp out kwNull = .eq then ⟨{ Value.init with isNull := true }, .int, item.collation, item.isDesc⟩
  else
    let text := ⟨{ Value.init with textVal := out, textLen := out.length }, .text, item.collation, item.isDesc⟩
    match env.strtod out with
    | none => text
    | some (d, rest) =>
      if peek rest = 0 || isspace (peek rest) then
        ⟨{ Value.init with doubleVal := d }, .double, item.collation, item.isDesc⟩
      else text

/-- One turn of the loop over the items: there is room for four keys, and an expression without a text has none. -/
def addSortKey (row : List Value) (keys : List SortKey) (item : OrderByItem) : List SortKey :=
  let resolved := resolveOrder stmt item.colName
  match findColumnCI cols resolved with
  | some c =>
    if keys.length < 4 then keys ++ [⟨row.getD c Value.init, typeAt cols c, item.collation, item.isDesc⟩] else keys
  | none =>
    let out := env.evalExpr resolved cols row
    if 0 < out.length ∧ keys.length < 4 then keys ++ [exprKey env out item] else keys

/-- The items of ORDER BY. -/
def SelectList.items : List OrderByItem :=
  if stmt.hasOrderBy then if stmt.orderByItems = [] then [stmt.orderBy] else stmt.orderByItems else []

/-- The entry of `add_selected_row`. -/
def selectedEntry (row : List Value) : RowSortEntry := ⟨row, stmt.items.foldl (addSortKey env stmt cols row) []⟩

/-- No expression has a text: what `eval_expr_string` leaves for a name or a number. -/
def plainSelect : SelectEnv := ⟨intOps, fun _ => [48], fun _ _ _ => [], fun _ => none⟩

end CustomDB
