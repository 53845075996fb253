import CustomDB.Rows.Key
import CustomDB.Exec.Ddl

/-!
# Tables of row versions

A table is its definition and the cells of its tree in the order of the leaves, and a cursor is a position among
them. Each cell is a version of a row: the values as they are read back, the time it expires, and the transactions
that made and ended it.
-/

namespace CustomDB

/-- A cell: a row with its trailers. -/
structure Version where
  values : List Value
  expireAt : Nat
  xmin : Nat
  xmax : Nat
  deriving DecidableEq

namespace Version

/-- Column `c` of the row. -/
def col (v : Version) (c : Nat) : Value := v.values.getD c Value.init

/-- The version has not been ended at `snapshot` yet. -/
def live (v : Version) (snapshot : Nat) : Bool := v.xmax = 0 || snapshot < v.xmax

/-- The version belongs to `snapshot`. -/
def alive (v : Version) (snapshot : Nat) : Bool := v.xmin ≤ snapshot && v.live snapshot

/-- `row_is_visible_and_active`. -/
def visible (v : Version) (snapshot now : Nat) : Bool :=
  !(0 < v.expireAt && 0 < now && v.expireAt < now) && v.alive snapshot

end Version

structure RowTable where
  tableDef : TableDef
  cells : List Version

/-- The type of column `c`. -/
def TableDef.typeOf (d : TableDef) (c : Nat) : ColumnType := (d.columns[c]?.map Column.type).getD .int

/-- The columns that make up the primary key: those listed when there are several, else column 0. -/
def TableDef.keyCols (d : TableDef) : List Nat :=
  if 1 < d.pkCols.length then d.pkCols.filterMap fun p => d.findColumn p.str else [0]

/-- A row as its cell gives it back. -/
def TableDef.storedRow (ops : FloatOps) (d : TableDef) (values : List Value) : List Value :=
  d.columns.zipIdx.map fun ci => (values.getD ci.2 Value.init).stored ops ci.1.type

section Tree

variable (ops : WhereOps) (t : RowTable)

/-- How a search compares a cell with a key. -/
def RowTable.compareCell (key : Value) (v : Version) : Ordering := compareCol0 ops (t.tableDef.typeOf 0) (v.col 0) key

/-- `btree_find`: the first cell that is not below the key. -/
def RowTable.btreeFind (key : Value) : Nat := (t.cells.takeWhile fun v => t.compareCell ops key v = .lt).length

/-- `btree_insert_with_mvcc` at the cursor `btree_find` returns for `key`. -/
def RowTable.btreeInsert (key : Value) (v : Version) : RowTable :=
  { t with cells := t.cells.insertIdx (t.btreeFind ops key) { v with values := t.tableDef.storedRow ops.toFloatOps v.values } }

/-- `btree_delete`. -/
def RowTable.btreeDelete (cursor : Nat) : RowTable := { t with cells := t.cells.eraseIdx cursor }

/-- The values of a row, and a key to look for: `memset` leaves no text, which prints as this. -/
def targetId (id : BitVec 32) : Value :=
  { Value.init with intVal := id, textVal := [40, 110, 117, 108, 108, 41] }

/-- The loop of UPDATE and DELETE from `btree_find` on: the first visible version while the ids agree. -/
def RowTable.seekRow (id : BitVec 32) (snapshot now : Nat) : Option Nat :=
  let p := t.btreeFind ops (targetId id)
  (((t.cells.drop p).takeWhile fun v => (v.col 0).intVal = id).findIdx? fun v => v.visible snapshot now).map (p + ·)

end Tree

/-! ## The database -/

/-- The tables of a connection, those the open transaction found at its BEGIN, whether it has written a page, and
the LSN of the last commit. -/
structure RowDb where
  tables : List RowTable
  begun : Option (List RowTable)
  hasWrites : Bool
  walLsn : Nat
  autoVacuum : Bool

namespace RowDb

variable (db : RowDb)

/-- `txn_xid`. -/
def txnXid : Nat := db.walLsn + 1

/-- `catalog_find`. -/
def findTable (name : Text) : Option Nat := db.tables.findIdx? fun t => t.tableDef.name.str = name

/-- The tables as the subqueries of a WHERE clause scan them. -/
def subTables : SubTables := fun name =>
  (db.tables.find? fun t => t.tableDef.name.str = name).map fun t => ⟨t.tableDef.columns, t.cells.map Version.values⟩

/-- Write to a table. -/
def setTable (i : Nat) (t : RowTable) : RowDb := { db with tables := db.tables.set i t, hasWrites := true }

end RowDb

/-! ## Statements -/

inductive ConflictAction where
  | abort | ignore | replace | update
  deriving DecidableEq, Repr

/-- `SetPair`, with the string that is used. -/
structure SetPair where
  colName : Text
  strVal : Text
  isNull : Bool
  deriving DecidableEq

/-- What INSERT reads of a `Statement`. -/
structure InsertStmt where
  numValues : Nat
  rawValues : List Text
  dynRawValues : List (Option Text)
  rawIsNull : List Bool
  /-- The values bound to the statement, when it has any. -/
  boundValues : Option (List Value)
  conflictAction : ConflictAction
  expiresSec : Nat
  setPairs : List SetPair

/-- One row of a multi-row INSERT. -/
structure MultiRow where
  rawValues : List Text
  dynRawValues : List (Option Text)
  rawIsNull : List Bool

inductive Statement where
  | insert (table : Text) (s : InsertStmt)
  | insertMulti (table : Text) (s : InsertStmt) (rows : List MultiRow)
  | insertSelect (table source : Text) (wc : WhereClause)
  | update (table : Text) (setPairs : List SetPair) (wc : WhereClause)
  | delete (table : Text) (wc : WhereClause)
  | alterTable (table : Text) (action : AlterAction)
  | begin
  | commit
  | rollback
  /-- SELECT, and what else changes neither a row nor a definition. -/
  | query

/-- `ExecuteResult`, as far as these statements return it. -/
inductive DmlResult where
  | success | tableNotFound | tableExists | badSchema | duplicateKey | constraintNotNull | constraintCheck
  | constraintForeignKey | constraintUnique
  deriving DecidableEq, Repr

/-- What the statements get from outside the rows. -/
structure DmlEnv where
  ops : WhereOps
  triggers : List TriggerDef
  /-- The statement `prepare_statement` makes of a trigger's action with the old and new row put in; `none` is a
  syntax error. -/
  prepare : TriggerDef → TableDef → Option (List Value) → Option (List Value) → Option Statement
  /-- What `eval_expr_string` prints for an expression over a row. -/
  evalExpr : Text → TableDef → List Value → Text
  /-- `time(NULL)`, by the number of steps taken before. -/
  time : Nat → Nat
  /-- The tables the connection finds after `pager_rollback`. -/
  restored : RowDb → List RowTable
  /-- The tables the connection finds after `execute_vacuum`. -/
  vacuumed : RowDb → List RowTable
  /-- Where a cursor stands in a table that has changed since it was set. -/
  moved : List Version → List Version → Nat → Nat

end CustomDB
