import CustomDB.Rows.Table

/-!
# The checks of INSERT

`run_insert_vm` up to the write: what is assigned to an AUTOINCREMENT column, the constraints of each column, the
registers, and the searches for a row that has a UNIQUE value or the key already. The constraints read the texts
of the statement, the registers the values bound to it when it has any.
-/

namespace CustomDB

/-! ## Texts of the statement -/

namespace InsertStmt

variable (s : InsertStmt) (i : Nat)

/-- `dyn_raw_values[i] ? dyn_raw_values[i] : raw_values[i]`. -/
def text : Text := (s.dynRawValues.getD i none).getD (s.rawValues.getD i [])

/-- `is_val_null`, before DEFAULT. -/
def valNull : Bool := !decide (i < s.numValues) || s.text i = [] || s.rawIsNull.getD i false

/-- The text for a column, with DEFAULT in the place of a missing one; `none` is NULL. -/
def given (col : Column) : Option Text :=
  if s.valNull i then (if col.hasDefault then some col.defaultVal.str else none) else some (s.text i)

/-- AUTOINCREMENT: the largest id of any version, and one more. -/
def autoincrement (t : RowTable) : InsertStmt :=
  if (t.tableDef.columns[0]?.map Column.isAutoincrement).getD false then
    let s := { s with numValues := max s.numValues t.tableDef.columns.length }
    let raw := s.rawValues.getD 0 []
    if raw = [] || atoi raw = 0 || strcasecmp raw kwNull = .eq then
      let maxId := t.cells.foldl (fun m v => if m.slt (v.col 0).intVal then (v.col 0).intVal else m) 0
      { s with rawValues := printInt (maxId + 1) :: s.rawValues.tail }
    else s
  else s

end InsertStmt

/-! ## Comparisons with a text -/

section Compare

variable (ops : WhereOps)

/-- A text against a value, as CHECK of a foreign key and UNIQUE test it. -/
def rawEquals (c : ColumnType) (raw : Text) (actual : Value) : Bool :=
  equalTyped ops c (filterValue ops (subType c) raw) actual

/-- The operator of a CHECK, and one that never holds for the codes it has no branch for. -/
def checkOpOf (code : BitVec 32) : CompOp :=
  match code.toNat with
  | 0 => .eq
  | 1 => .gt
  | 2 => .lt
  | 3 => .gte
  | 4 => .lte
  | _ => .isIn

/-- `pass`: a text against the constant of the CHECK. -/
def checkPasses (col : Column) (raw : Text) : Bool :=
  let c := subType col.type
  opHolds (checkOpOf col.checkOp)
    (compareTyped ops c .binary (filterValue ops c raw) (filterValue ops c col.checkVal.str))

/-- `fk_found`: some version of the parent has the value. -/
def parentFound (col : Column) (raw : Text) (parent : RowTable) : Bool :=
  let target := (parent.tableDef.findColumn col.fkTargetCol.str).getD 0
  parent.cells.any fun v => rawEquals ops col.type raw (v.col target)

/-! ## Registers -/

/-- The value a literal is loaded as; a text of a sized type must fit. -/
def literalRegister (col : Column) (raw : Text) : Except DmlResult Value :=
  match col.type with
  | .int => .ok { Value.init with intVal := atoi raw }
  | .float | .double | .numeric | .decimal =>
    .ok { Value.init with doubleVal := ops.atof raw, floatVal := ops.narrow (ops.atof raw) }
  -- `OP_Integer` sets `int_val`, not `bool_val`
  | .bool => .ok { Value.init with intVal := if boolOf raw then 1 else 0 }
  | .blob | .text | .vector => .ok { Value.init with textVal := raw, textLen := raw.length }
  | .datetime | .date | .time | .timestamp | .varchar =>
    if col.size.toNat < raw.length then .error .badSchema
    else .ok { Value.init with textVal := raw, textLen := raw.length }

/-- The value a bound value is loaded as. -/
def boundRegister (c : ColumnType) (b : Value) : Value :=
  if b.isNull then { Value.init with isNull := true }
  else
    match c with
    | .int => { Value.init with intVal := b.intVal }
    | .bool => { Value.init with intVal := if b.boolVal then 1 else 0 }
    | _ => b

/-- The register of column `i`. -/
def register (s : InsertStmt) (i : Nat) (col : Column) : Except DmlResult Value :=
  match s.boundValues with
  | some bound => .ok (boundRegister col.type (bound.getD i Value.init))
  | none =>
    match s.given i col with
    | none => .ok { Value.init with isNull := true }
    | some raw => literalRegister ops col raw

/-- A test of the text of a column that has one. -/
def givenTest (given : Option Text) (test : Text → Bool) : Bool :=
  match given with
  | some raw => raw = [] || test raw
  | none => true

/-- One turn of the column loop: NOT NULL, CHECK, the foreign key, the register. -/
def loadRegister (db : RowDb) (s : InsertStmt) (i : Nat) (col : Column) : Except DmlResult Value :=
  let given := s.given i col
  if given = none && col.isNotNull then .error .constraintNotNull
  else if col.hasCheck && !givenTest given (checkPasses ops col) then .error .constraintCheck
  else
    let found := fun raw =>
      ((db.findTable col.fkTargetTable.str).bind fun p => db.tables[p]?).any (parentFound ops col raw)
    if col.hasFk && !givenTest given found then .error .constraintForeignKey
    else register ops s i col

/-- The column loop. -/
def loadRegisters (db : RowDb) (s : InsertStmt) (d : TableDef) : Except DmlResult (List Value) :=
  d.columns.zipIdx.mapM fun ci => loadRegister ops db s ci.2 ci.1

/-! ## The searches -/

/-- `u_dup`, for one of the columns behind the first. -/
def uniqueTaken (t : RowTable) (txn : Nat) (s : InsertStmt) : Bool :=
  t.tableDef.columns.zipIdx.any fun ci =>
    1 ≤ ci.2 && ci.1.isUnique && s.text ci.2 ≠ [] &&
      t.cells.any fun v => v.live txn && rawEquals ops ci.1.type (s.text ci.2) (v.col ci.2)

/-- BOOL, NUMERIC and DECIMAL keys are looked for as texts. -/
def seekType (c : ColumnType) : ColumnType :=
  match c with
  | .bool | .numeric | .decimal => .text
  | c => c

/-- `new_val`: column `c` of a composite key. -/
def newKeyVal (t : RowTable) (s : InsertStmt) (c : Nat) : Value :=
  filterValue ops (seekType (t.tableDef.typeOf c)) (s.text c)

/-- `dup_found`: a live version agrees on every key column that the statement has a value for. -/
def compositeTaken (t : RowTable) (txn : Nat) (s : InsertStmt) : Bool :=
  t.cells.any fun v => v.live txn && t.tableDef.keyCols.all fun c =>
    !decide (c < s.numValues) || compareValues ops (t.tableDef.typeOf c) (v.col c) (newKeyVal ops t s c) = .eq

/-- `target_pk`. -/
def targetPk (t : RowTable) (s : InsertStmt) : Value :=
  match s.boundValues with
  | some bound => bound.getD 0 Value.init
  | none => if 0 < s.numValues && s.text 0 ≠ [] then newKeyVal ops t s 0 else Value.init

/-- The cells from `btree_find` on that have the key. -/
def keyRun (t : RowTable) (target : Value) : List Version :=
  (t.cells.drop (t.btreeFind ops target)).takeWhile fun v =>
    compareValues ops (t.tableDef.typeOf 0) (v.col 0) target = .eq

/-- A live version among them. -/
def keyTaken (t : RowTable) (txn : Nat) (target : Value) : Bool := (keyRun ops t target).any fun v => v.live txn

/-- What becomes of one row: the registers to store, a live row with the key, or an error. -/
inductive InsertOutcome where
  | row (values : List Value)
  | conflict (target : Value)
  | refused (r : DmlResult)

/-- `run_insert_vm` from the column loop to the write. -/
def insertOutcome (db : RowDb) (t : RowTable) (s : InsertStmt) : InsertOutcome :=
  match loadRegisters ops db s t.tableDef with
  | .error r => .refused r
  | .ok values =>
    if uniqueTaken ops t db.txnXid s then .refused .constraintUnique
    else if 1 < t.tableDef.pkCols.length then
      if compositeTaken ops t db.txnXid s then .refused .duplicateKey else .row values
    else if keyTaken ops t db.txnXid (targetPk ops t s) then .conflict (targetPk ops t s)
    else .row values

/-- `expire_at`. -/
def expireAt (t : RowTable) (s : InsertStmt) (now : Nat) : Nat :=
  let ttl := if 0 < s.expiresSec then s.expiresSec else t.tableDef.defaultTtl.toNat
  if 0 < ttl then now + ttl else 0

/-- The row as triggers and the history get it: DEFAULT is not in it. -/
def insertedValues (d : TableDef) (s : InsertStmt) : List Value :=
  match s.boundValues with
  | some bound => (List.range d.columns.length).map fun i => bound.getD i Value.init
  | none => d.columns.zipIdx.map fun ci =>
    let raw := s.text ci.2
    if raw = [] || (ci.2 < s.numValues && s.rawIsNull.getD ci.2 false) then { Value.init with isNull := true }
    else
      match ci.1.type with
      | .float => { Value.init with floatVal := ops.narrow (ops.atof raw), doubleVal := ops.atof raw }
      | c => filterValue ops c raw

end Compare

end CustomDB
