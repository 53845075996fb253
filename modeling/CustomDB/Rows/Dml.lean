import CustomDB.Lib.Program
import CustomDB.Rows.Insert

/-!
# Statements on rows

`run_insert_vm`, `run_delete_vm`, `run_update_vm`, `execute_alter_table` and `execute_statement` over tables of row
versions, with the triggers, the history and the cascades they fire. Whatever they change, they change by the steps
of a machine: the transaction calls of the pager and the writes of single rows.
-/

namespace CustomDB

open Lib Lib.Program

variable (env : DmlEnv)

/-! ## The steps -/

/-- A step that changes the database. `insert` stores the row of a statement that passed its checks, `retire` ends
the version a cursor was set on, `revise` ends it and stores another. -/
inductive RowStep where
  | begin
  | commit
  | rollback
  | catalogSave
  | insert (i : Nat) (s : InsertStmt) (now : Nat)
  | retire (i cursor : Nat) (id : BitVec 32) (old : Version) (txn now : Nat)
  | revise (i cursor : Nat) (id : BitVec 32) (old : Version) (values : List Value) (txn now : Nat)
  | alter (i : Nat) (action : AlterAction)
  | vacuum
  | catalogLoad

/-- The table after the old version was stored again with its end. -/
def RowTable.retired (ops : WhereOps) (t : RowTable) (cursor : Nat) (id : BitVec 32) (old : Version) (txn : Nat) :
    RowTable :=
  (t.btreeDelete cursor).btreeInsert ops (targetId id) { old with xmax := txn }

/-- A new tree for a definition, filled version by version. -/
def RowTable.filled (ops : WhereOps) (d : TableDef) (vs : List Version) : RowTable :=
  vs.foldl (fun t v => t.btreeInsert ops (v.col 0) v) ⟨d, []⟩

/-- The new tree of ALTER TABLE: `btree_insert` knows of no trailers. -/
def RowTable.rebuilt (ops : WhereOps) (d : TableDef) (rows : List (List Value)) : RowTable :=
  RowTable.filled ops d (rows.map fun values => ⟨values, 0, 0, 0⟩)

/-- A definition that went through `catalog_save` and `catalog_load`. -/
def TableDef.reloaded (d : TableDef) : TableDef := loadDef (Memory.writeAll (fun _ => 0) (d.writes 0)) 0

namespace RowDb

variable (db : RowDb)

/-- The database after ALTER TABLE; `none` where it refuses. -/
def altered (ops : WhereOps) (i : Nat) (t : RowTable) : AlterAction → Option RowDb
  | .rename new =>
    let tables := db.tables.modify i fun t => { t with tableDef := { t.tableDef with name := CharArray.print CharArray.pos128 new } }
    let retarget := fun u : RowTable => { u with tableDef := u.tableDef.retarget t.tableDef.name.str new }
    if (db.findTable new).isSome then none
    else some { db with tables := tables.map retarget, hasWrites := true }
  | .addColumn c =>
    if h : t.tableDef.columns.length < maxColumns then
      let rows := t.cells.map fun v => v.values ++ [{ Value.init with isNull := true }]
      some (db.setTable i (RowTable.rebuilt ops (t.tableDef.addColumn c h) rows))
    else none
  | .dropColumn col =>
    (t.tableDef.findColumn col).map fun c =>
      db.setTable i (RowTable.rebuilt ops (t.tableDef.dropColumn c) (t.cells.map fun v => v.values.eraseIdx c))

/-- One step; `none` where it is not possible. -/
def step : RowStep → Option RowDb
  | .begin =>
    match db.begun with
    | some _ => some db
    | none => some { db with begun := some db.tables, hasWrites := false }
  | .commit =>
    match db.begun with
    | some _ => some { db with begun := none, hasWrites := false, walLsn := if db.hasWrites then db.walLsn + 1 else db.walLsn }
    | none => some db
  | .rollback =>
    match db.begun with
    | some _ => some { db with tables := env.restored db, begun := none, hasWrites := false }
    | none => some db
  | .catalogSave => some { db with hasWrites := true }
  | .insert i s now => do
    let t ← db.tables[i]?
    match insertOutcome env.ops db t s with
    | .row values =>
      some (db.setTable i (t.btreeInsert env.ops (values.headD Value.init) ⟨values, expireAt t s now, db.txnXid, 0⟩))
    | _ => none
  | .retire i cursor id old txn _ => do
    let t ← db.tables[i]?
    some (db.setTable i (t.retired env.ops cursor id old txn))
  | .revise i cursor id old values txn _ => do
    let t ← db.tables[i]?
    some (db.setTable i ((t.retired env.ops cursor id old txn).btreeInsert env.ops (values.headD Value.init)
      ⟨values, old.expireAt, txn, 0⟩))
  | .alter i action => do
    let t ← db.tables[i]?
    db.altered env.ops i t action
  | .vacuum => some { db with tables := env.vacuumed db, hasWrites := true }
  | .catalogLoad => some { db with tables := db.tables.map fun t => { t with tableDef := t.tableDef.reloaded } }

end RowDb

/-! ## Transactions and reads -/

/-- A program on the rows. -/
abbrev Dml := Prog RowDb RowStep

def emit (s : RowStep) : Dml Unit := take (RowDb.step env) s

/-- The table a `TableDef*` points to. -/
def tableAt (i : Nat) : Dml RowTable := do
  let db ← current
  match db.tables[i]? with
  | some t => pure t
  | none => failure

/-- `time(NULL)`. -/
def timeNow : Dml Nat := do return env.time (← elapsed)

/-- `auto_tx`: BEGIN where no transaction is open. -/
def beginAuto : Dml Bool := do
  let db ← current
  if db.begun.isSome then return false
  else
    emit env .begin
    return true

/-- `if (auto_tx && pager->in_transaction)`, then the steps. -/
def endAuto (auto : Bool) (steps : List RowStep) : Dml Unit := do
  let db ← current
  if auto && db.begun.isSome then steps.forM (emit env) else pure ()

/-- `catalog_save` and `pager_commit` for an automatic transaction. -/
def commitAuto (auto : Bool) : Dml Unit := endAuto env auto [.catalogSave, .commit]

/-- `pager_rollback` for an automatic transaction. -/
def rollbackAuto (auto : Bool) : Dml Unit := endAuto env auto [.rollback]

/-- The row satisfies the WHERE clause. -/
def rowMatches (db : RowDb) (t : RowTable) (values : List Value) (wc : WhereClause) : Bool :=
  evalWhereClauseCols env.ops db.subTables t.tableDef.columns values wc

/-- Where a cursor stands in the table now. -/
def cursorIn (before now : RowTable) (cursor : Nat) : Nat :=
  if now.cells = before.cells then cursor else env.moved before.cells now.cells cursor

/-! ## Calls -/

/-- A call of one of the functions below: `run_insert_vm`, `run_delete_vm`, `run_update_vm`, the rest of the loop of
INSERT ... SELECT, and `execute_statement`. -/
inductive Task where
  | insert (i : Nat) (s : InsertStmt)
  | delete (i : Nat) (wc : WhereClause)
  | update (i : Nat) (pairs : List SetPair) (wc : WhereClause)
  | copy (i source : Nat) (wc : WhereClause) (cursor : Nat)
  | execute (s : Statement)

/-- How the functions call each other, `s_trigger_depth` given. -/
abbrev Call := Nat → Task → Dml DmlResult

variable (call : Call) (depth : Nat)

/-- A value as a text for another statement. -/
def printRaw (c : ColumnType) (v : Value) : Text :=
  (match c with
    | .int => printInt v.intVal
    | .double | .float => env.ops.printDouble v.doubleVal
    | _ => v.str).take (maxRawVal - 1)

/-- WHERE with one equality. -/
def whereEq (col raw : Text) : WhereClause := ⟨true, [{ SingleCond.zero with colName := col, rawVal := raw }], []⟩

/-! ## Triggers and history -/

/-- The text of a value in the history. -/
def historyText (c : ColumnType) (v : Value) : Text :=
  (match c with
    | .int => printInt v.intVal
    | .float => env.ops.printDouble (env.ops.widen v.floatVal)
    | .double | .numeric | .decimal => env.ops.printDouble v.doubleVal
    | .bool => if v.boolVal then kwTrue else [102, 97, 108, 115, 101]
    | _ => v.str).take (maxRawVal - 1)

/-- `act_str`. -/
def actionText : TriggerEvent → Text
  | .insert => [73, 78, 83, 69, 82, 84]
  | .update => [85, 80, 68, 65, 84, 69]
  | .delete => [68, 69, 76, 69, 84, 69]

/-- `hist_ins`. -/
def historyInsert (hist d : TableDef) (event : TriggerEvent) (values : Option (List Value)) (now : Nat) : InsertStmt :=
  let value := fun i => ((values.bind fun vs => vs[i]?).filter (!·.isNull))
  let texts := d.columns.zipIdx.map fun ci => ((value ci.2).map (historyText env ci.1.type)).getD []
  let nulls := d.columns.zipIdx.map fun ci => (value ci.2).isNone
  let time := (Nat.toDigits 10 now).map fun c => UInt8.ofNat c.toNat
  { numValues := hist.columns.length
    rawValues := ([[48], actionText event, time] ++ texts).take hist.columns.length
    dynRawValues := []
    rawIsNull := ([false, false, false] ++ nulls).take hist.columns.length
    boundValues := none
    conflictAction := .abort
    expiresSec := 0
    setPairs := [] }

/-- The temporal snapshot of a table WITH HISTORY. -/
def recordHistory (i : Nat) (old new : Option (List Value)) (event : TriggerEvent) : Dml Unit := do
  let t ← tableAt i
  let db ← current
  match db.findTable ((historyPrefix ++ t.tableDef.name.str.take 50).take 63) with
  | none => pure ()
  | some h =>
    let hist ← tableAt h
    let now ← timeNow env
    let values := if event = .delete then old else new
    let _ ← call (depth + 1) (.insert h (historyInsert env hist.tableDef t.tableDef event values now))
    pure ()

/-- `fire_triggers`. -/
def fireTriggers (i : Nat) (old new : Option (List Value)) (timing : TriggerTiming) (event : TriggerEvent) :
    Dml Unit := do
  if depth < 4 then
    env.triggers.forM fun trigger => do
      let t ← tableAt i
      if cstr trigger.targetTable.val = t.tableDef.name.str ∧ trigger.timing = timing ∧ trigger.event = event then
        match env.prepare trigger t.tableDef old new with
        | some s =>
          let _ ← call (depth + 1) (.execute s)
          pure ()
        | none => pure ()
      else pure ()
    let t ← tableAt i
    if t.tableDef.withHistory ∧ timing = .after then recordHistory env call depth i old new event else pure ()
  else pure ()

/-! ## INSERT -/

/-- The WHERE clause of the DELETE and UPDATE that a conflict runs. -/
def keyWhere (t : RowTable) (target : Value) : WhereClause :=
  whereEq ((t.tableDef.columns[0]?.map fun c => c.name.str).getD [])
    ((if t.tableDef.typeOf 0 = .int then printInt target.intVal else target.str).take (maxRawVal - 1))

/-- What ON CONFLICT does when a live row has the key. -/
def resolveConflict (auto : Bool) (i : Nat) (s : InsertStmt) (t : RowTable) (target : Value) : Dml DmlResult :=
  match s.conflictAction with
  | .ignore => do
    commitAuto env auto
    return .success
  | .replace => do
    let _ ← call depth (.delete i (keyWhere t target))
    let r ← call depth (.insert i { s with conflictAction := .abort })
    commitAuto env auto
    return r
  | .update => do
    let r ← call depth (.update i s.setPairs (keyWhere t target))
    commitAuto env auto
    return r
  | .abort => do
    rollbackAuto env auto
    return .duplicateKey

/-- `run_insert_vm`. -/
def runInsertVm (i : Nat) (s : InsertStmt) : Dml DmlResult := do
  let auto ← beginAuto env
  fireTriggers env call depth i none none .before .insert
  let t ← tableAt i
  let s := s.autoincrement t
  let db ← current
  match insertOutcome env.ops db t s with
  | .refused r =>
    rollbackAuto env auto
    return r
  | .conflict target => resolveConflict env call depth auto i s t target
  | .row _ =>
    let now ← timeNow env
    emit env (.insert i s now)
    commitAuto env auto
    fireTriggers env call depth i none (some (insertedValues env.ops t.tableDef s)) .after .insert
    return .success

/-! ## DELETE -/

/-- The column of the parent that a cascade follows. -/
def cascadeTarget (d : TableDef) (col : Column) : Nat :=
  if col.fkTargetCol.str = [] then 0 else (d.findColumn col.fkTargetCol.str).getD 0

/-- The foreign key columns of the other tables that refer to table `i` and cascade, each with its table, in turn. -/
def forReferences (i : Nat) (cascades : Column → Bool) (act : Nat → Column → TableDef → Dml Unit) : Dml Unit := do
  let db ← current
  (List.range db.tables.length).forM fun t => do
    let child ← tableAt t
    let parent ← tableAt i
    if child.tableDef.name.str = parent.tableDef.name.str then pure ()
    else
      (List.range child.tableDef.columns.length).forM fun c => do
        let child ← tableAt t
        let parent ← tableAt i
        match child.tableDef.columns[c]? with
        | some col =>
          if col.hasFk && cascades col && col.fkTargetTable.str = parent.tableDef.name.str then
            act t col parent.tableDef
          else pure ()
        | none => pure ()

/-- ON DELETE CASCADE. -/
def cascadeDelete (i : Nat) (values : List Value) : Dml Unit :=
  forReferences i Column.fkOnDeleteCascade fun t col d => do
    let target := cascadeTarget d col
    let raw := printRaw env (d.typeOf target) (values.getD target Value.init)
    let _ ← call depth (.delete t (whereEq col.name.str raw))
    pure ()

/-- A row that refers to one of the rows to delete, by a column that does not cascade. -/
def restricts (db : RowDb) (t : RowTable) (wc : WhereClause) (txn now : Nat) : Bool :=
  db.tables.any fun child => child.tableDef.columns.zipIdx.any fun cc =>
    let target := (t.tableDef.findColumn cc.1.fkTargetCol.str).getD 0
    cc.1.hasFk && !cc.1.fkOnDeleteCascade && cc.1.fkTargetTable.str = t.tableDef.name.str &&
      child.cells.any fun v => v.visible txn now && t.cells.any fun p =>
        p.visible txn now && rowMatches env db t p.values wc &&
          equalTyped env.ops (t.tableDef.typeOf target) (v.col cc.2) (p.col target)

/-- `matching_ids`. -/
def matchingIds (db : RowDb) (t : RowTable) (wc : WhereClause) (txn now : Nat) : List (BitVec 32) :=
  (t.cells.filter fun v => v.visible txn now && rowMatches env db t v.values wc).map fun v => (v.col 0).intVal

/-- The cursor of `btree_find` for an id: a VARCHAR key reads the length of a text that is not there. -/
def seekCursor (t : RowTable) (id : BitVec 32) (txn now : Nat) : Dml (Option (Nat × Version)) :=
  if t.tableDef.typeOf 0 = .varchar then failure
  else pure ((t.seekRow env.ops id txn now).bind fun cursor => t.cells[cursor]?.map fun v => (cursor, v))

/-- The second loop of `run_delete_vm`, for one id. -/
def deleteRow (i : Nat) (id : BitVec 32) (txn now : Nat) : Dml Unit := do
  let t ← tableAt i
  match ← seekCursor env t id txn now with
  | none => pure ()
  | some (cursor, old) =>
    fireTriggers env call depth i (some old.values) none .before .delete
    cascadeDelete env call depth i old.values
    let t' ← tableAt i
    emit env (.retire i (cursorIn env t t' cursor) id old txn now)
    fireTriggers env call depth i (some old.values) none .after .delete

/-- `run_delete_vm`. A row that restricts it ends it where it is. -/
def runDeleteVm (i : Nat) (wc : WhereClause) : Dml DmlResult := do
  let auto ← beginAuto env
  let db ← current
  let now ← timeNow env
  let t ← tableAt i
  if restricts env db t wc db.txnXid now then return .constraintForeignKey
  else
    (matchingIds env db t wc db.txnXid now).forM fun id => deleteRow env call depth i id db.txnXid now
    if db.autoVacuum then emit env .vacuum else pure ()
    commitAuto env auto
    return .success

/-! ## UPDATE -/

/-- One SET applied to a value, the row as it was given. A FLOAT keeps its double. -/
def setValue (d : TableDef) (old : List Value) (c : ColumnType) (pair : SetPair) (v : Value) : Value :=
  if pair.isNull then { v with isNull := true }
  else
    let expr := env.evalExpr pair.strVal d old
    let final := if expr = [] then pair.strVal else expr
    match c with
    | .int => { v with isNull := false, intVal := atoi final }
    | .float => { v with isNull := false, floatVal := env.ops.narrow (env.ops.atof final) }
    | .double | .numeric | .decimal => { v with isNull := false, doubleVal := env.ops.atof final }
    | .bool => { v with isNull := false, boolVal := boolOf final }
    | _ => { v with isNull := false, textVal := final, textLen := final.length }

/-- The SET list; `none` where a column is missing. -/
def applySets (d : TableDef) (old : List Value) (pairs : List SetPair) : Option (List Value) :=
  pairs.foldlM (fun values pair => (d.findColumn pair.colName).map fun c =>
    values.modify c (setValue env d old (d.typeOf c) pair)) old

/-- ON UPDATE CASCADE: the rows that have the old id get the new value. -/
def cascadeUpdate (i : Nat) (id : BitVec 32) (values : List Value) : Dml Unit :=
  forReferences i Column.fkOnUpdateCascade fun t col d => do
    let target := cascadeTarget d col
    let raw := printRaw env (d.typeOf target) (values.getD target Value.init)
    let wc := whereEq col.name.str (printRaw env (d.typeOf target) (targetId id))
    let _ ← call depth (.update t [⟨col.name.str, raw, false⟩] wc)
    pure ()

/-- The second loop of `run_update_vm`, for one id: `false` where a SET names no column. -/
def updateRow (i : Nat) (pairs : List SetPair) (id : BitVec 32) (txn now : Nat) : Dml Bool := do
  let t ← tableAt i
  match ← seekCursor env t id txn now with
  | none => return true
  | some (cursor, old) =>
    match applySets env t.tableDef old.values pairs with
    | none => return false
    | some values =>
      fireTriggers env call depth i (some old.values) (some values) .before .update
      let t' ← tableAt i
      emit env (.revise i (cursorIn env t t' cursor) id old values txn now)
      cascadeUpdate env call depth i id values
      fireTriggers env call depth i (some old.values) (some values) .after .update
      return true

/-- The second loop of `run_update_vm`. -/
def updateRows (i : Nat) (pairs : List SetPair) (txn now : Nat) : List (BitVec 32) → Dml Bool
  | [] => return true
  | id :: ids => do
    if ← updateRow env call depth i pairs id txn now then updateRows i pairs txn now ids else return false

/-- `run_update_vm`. A missing column ends it where it is. -/
def runUpdateVm (i : Nat) (pairs : List SetPair) (wc : WhereClause) : Dml DmlResult := do
  let auto ← beginAuto env
  let db ← current
  let now ← timeNow env
  let t ← tableAt i
  if ← updateRows env call depth i pairs db.txnXid now (matchingIds env db t wc db.txnXid now) then
    commitAuto env auto
    return .success
  else return .badSchema

/-! ## `execute_statement` -/

/-- One row of a multi-row INSERT. -/
def InsertStmt.withRow (s : InsertStmt) (row : MultiRow) : InsertStmt :=
  { s with
    rawValues := row.rawValues.take s.numValues ++ s.rawValues.drop s.numValues
    dynRawValues := row.dynRawValues.take s.numValues
    rawIsNull := row.rawIsNull.take s.numValues ++ s.rawIsNull.drop s.numValues }

/-- A multi-row INSERT, up to the first row that fails. -/
def insertMultiRows (i : Nat) (s : InsertStmt) : List MultiRow → Dml DmlResult
  | [] => return .success
  | row :: rows => do
    let r ← call depth (.insert i (s.withRow row))
    if r = .success then insertMultiRows i s rows else return r

/-- A row of the source table of INSERT ... SELECT. -/
def selectedRow (d source : TableDef) (values : List Value) : InsertStmt where
  numValues := d.columns.length
  rawValues := (source.columns.zipIdx.take d.columns.length).map fun ci =>
    printRaw env ci.1.type (values.getD ci.2 Value.init)
  dynRawValues := []
  rawIsNull := []
  boundValues := none
  conflictAction := .abort
  expiresSec := 0
  setPairs := []

/-- The loop of INSERT ... SELECT, from a cursor on. -/
def copyRows (i source : Nat) (wc : WhereClause) (cursor : Nat) : Dml DmlResult := do
  let db ← current
  let src ← tableAt source
  match src.cells[cursor]? with
  | none => return .success
  | some v =>
    if rowMatches env db src v.values wc then
      let t ← tableAt i
      let r ← call depth (.insert i (selectedRow env t.tableDef src.tableDef v.values))
      if r = .success then
        let src' ← tableAt source
        call depth (.copy i source wc (cursorIn env src src' cursor + 1))
      else return r
    else call depth (.copy i source wc (cursor + 1))

/-- `execute_alter_table`. -/
def runAlterTable (i : Nat) (action : AlterAction) : Dml DmlResult := do
  let auto ← beginAuto env
  let t ← tableAt i
  let db ← current
  if (db.altered env.ops i t action).isSome then
    emit env (.alter i action)
    endAuto env auto [.commit]
    return .success
  else
    endAuto env auto [.rollback]
    return match action with
      | .rename _ => .tableExists
      | _ => .badSchema

/-- `catalog_find`, then the rest. -/
def onTable (name : Text) (act : Nat → Dml DmlResult) : Dml DmlResult := do
  let db ← current
  match db.findTable name with
  | some i => act i
  | none => return .tableNotFound

/-- `execute_statement`. -/
def executeStatement : Statement → Dml DmlResult
  | .insert name s => onTable name fun i => call depth (.insert i s)
  | .insertMulti name s rows => onTable name fun i => insertMultiRows call depth i s rows
  | .insertSelect name source wc => onTable name fun i => onTable source fun src => call depth (.copy i src wc 0)
  | .update name pairs wc => onTable name fun i => call depth (.update i pairs wc)
  | .delete name wc => onTable name fun i => call depth (.delete i wc)
  | .alterTable name action => onTable name fun i => runAlterTable env i action
  | .begin => do
    emit env .begin
    return .success
  | .commit => do
    emit env .commit
    return .success
  | .rollback => do
    emit env .rollback
    return .success
  | .query => return .success

/-- The functions with `fuel` for their calls. -/
def run : Nat → Call
  | 0, _, _ => failure
  | fuel + 1, depth, task =>
    match task with
    | .insert i s => runInsertVm env (run fuel) depth i s
    | .delete i wc => runDeleteVm env (run fuel) depth i wc
    | .update i pairs wc => runUpdateVm env (run fuel) depth i pairs wc
    | .copy i source wc cursor => copyRows env (run fuel) depth i source wc cursor
    | .execute s => executeStatement env (run fuel) depth s

/-- What a client does: execute a statement, load the catalog anew (the API does after every statement), or close and
reopen the file, which commits an open transaction. -/
inductive ClientOp where
  | execute (s : Statement)
  | catalogLoad
  | reopen

/-- A session. -/
def session (fuel : Nat) (ops : List ClientOp) : Dml Unit :=
  ops.forM fun op =>
    match op with
    | .execute s => do
      let _ ← run env fuel 0 (.execute s)
      pure ()
    | .catalogLoad => emit env .catalogLoad
    | .reopen => do
      emit env .commit
      emit env .catalogLoad

end CustomDB
