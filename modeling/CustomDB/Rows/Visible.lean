import CustomDB.Sql.WhereSpec
import CustomDB.Catalog.DefinitionSpec
import CustomDB.Rows.Insert

/-!
# Which versions a statement reads

A plain SELECT tests each version with `row_is_visible_and_active`. The other loops over a table are written apart
from it: those of subqueries, set operations, CTEs, INSERT ... SELECT and foreign keys take every cell, and the
searches of INSERT for a row that has a value already look at `xmax` alone.
-/

namespace CustomDB

/-! ## The table as SELECT shows it -/

/-- The versions a plain SELECT returns. -/
def RowTable.shown (t : RowTable) (snapshot now : Nat) : RowTable :=
  { t with cells := t.cells.filter fun v => v.visible snapshot now }

/-- The same of every table. -/
def RowDb.shown (db : RowDb) (snapshot now : Nat) : RowDb :=
  { db with tables := db.tables.map fun t => t.shown snapshot now }

/-! ## The loops -/

section Loops

variable (ops : WhereOps) (db : RowDb) (t : RowTable)

/-- `eval_where_clause`, on a row of `t`. -/
def evalWhereClause (values : List Value) (wc : WhereClause) : Bool :=
  evalWhereClauseCols ops db.subTables t.tableDef.columns values wc

/-- A loop over the cells that keeps the rows that pass a test and then the WHERE clause. -/
def scanRows (test : Version → Bool) (wc : WhereClause) : List (List Value) :=
  t.cells.filterMap fun v => if test v && evalWhereClause ops db t v.values wc then some v.values else none

/-- The scan of `run_select_vm`, before it sorts, deduplicates and cuts. -/
def runSelectVm (snapshot now : Nat) (wc : WhereClause) : List (List Value) :=
  scanRows ops db t (fun v => v.visible snapshot now) wc

/-- `collect_select_rows`, for a branch of a set operation. -/
def collectSelectRows (wc : WhereClause) : List (List Value) := scanRows ops db t (fun _ => true) wc

/-- What the loop of INSERT ... SELECT hands to `run_insert_vm` as long as its source stays as it is. -/
def insertSelectRows (wc : WhereClause) : List (List Value) := scanRows ops db t (fun _ => true) wc

/-- One turn of the loop that materializes a CTE. Its table stands behind the others already, so that the WHERE
clause can name it. -/
def cteTurn (wc : WhereClause) (dst : RowTable) (v : Version) : RowTable :=
  if evalWhereClause ops { db with tables := db.tables ++ [dst] } t v.values wc then
    dst.btreeInsert ops (v.col 0) ⟨v.values, 0, 0, 0⟩
  else dst

/-- The table of a CTE with the definition `d`, filled from the versions `vs` of its source. -/
def cteFilled (wc : WhereClause) (d : TableDef) (vs : List Version) : RowTable :=
  vs.foldl (cteTurn ops db t wc) ⟨d, []⟩

/-- What UNIQUE and a composite key are compared with. -/
def RowTable.examined (txn : Nat) : List Version := t.cells.filter fun v => v.live txn

/-- What a single key is compared with: of the cells that have it, those that count. -/
def keyExamined (txn : Nat) (target : Value) : List Version := (keyRun ops t target).filter fun v => v.live txn

end Loops

/-! ## The searches of INSERT look at what they examine -/

section Examined

variable (ops : WhereOps) (t : RowTable) (txn : Nat) (s : InsertStmt)

theorem any_live_and (p : Version → Bool) (vs : List Version) :
    (vs.any fun v => v.live txn && p v) = (vs.filter fun v => v.live txn).any p := by
  rw [List.any_filter]

theorem uniqueTaken_examined : uniqueTaken ops t txn s = t.tableDef.columns.zipIdx.any fun ci =>
    1 ≤ ci.2 && ci.1.isUnique && s.text ci.2 ≠ [] &&
      (t.examined txn).any fun v => rawEquals ops ci.1.type (s.text ci.2) (v.col ci.2) := by
  unfold uniqueTaken RowTable.examined
  simp only [any_live_and]

theorem compositeTaken_examined : compositeTaken ops t txn s = (t.examined txn).any fun v =>
    t.tableDef.keyCols.all fun c =>
      !decide (c < s.numValues) || compareValues ops (t.tableDef.typeOf c) (v.col c) (newKeyVal ops t s c) = .eq := by
  unfold compositeTaken RowTable.examined
  rw [any_live_and]

theorem keyTaken_examined (target : Value) : keyTaken ops t txn target = !(keyExamined ops t txn target).isEmpty := by
  unfold keyTaken keyExamined
  induction keyRun ops t target with
  | nil => rfl
  | cons v vs ih =>
    rw [List.any_cons, List.filter_cons]
    cases v.live txn with
    | true => rfl
    | false => exact ih

end Examined

/-! ## One notion of a row -/

/-- Every loop reads the rows that a plain SELECT over the table returns in the snapshot. -/
structure OneNotion (ops : WhereOps) (db : RowDb) (snapshot now : Nat) : Prop where
  subquery : db.subTables = (db.shown snapshot now).subTables
  setBranch : ∀ t ∈ db.tables, ∀ wc, collectSelectRows ops db t wc = runSelectVm ops db t snapshot now wc
  cteSource : ∀ t ∈ db.tables, ∀ wc d,
    cteFilled ops db t wc d t.cells = cteFilled ops db t wc d (t.shown snapshot now).cells
  insertSource : ∀ t ∈ db.tables, ∀ wc, insertSelectRows ops db t wc = runSelectVm ops db t snapshot now wc
  foreignKey : ∀ t ∈ db.tables, ∀ col raw, parentFound ops col raw t = parentFound ops col raw (t.shown snapshot now)
  unique : ∀ t ∈ db.tables, t.examined db.txnXid = (t.shown snapshot now).cells
  singleKey : ∀ t ∈ db.tables, ∀ target,
    keyExamined ops t db.txnXid target = (keyRun ops t target).filter fun v => v.visible snapshot now

/-- No version is stored that SELECT hides, and none that the transaction itself has ended. -/
def AllShown (db : RowDb) (snapshot now : Nat) : Prop :=
  ∀ t ∈ db.tables, ∀ v ∈ t.cells, v.visible snapshot now = true ∧ v.live db.txnXid = true

instance (db : RowDb) (snapshot now : Nat) : Decidable (AllShown db snapshot now) := by
  unfold AllShown
  infer_instance

section Agree

variable {ops : WhereOps} {db : RowDb} {t : RowTable} {snapshot now : Nat}

/-- The clause of a SELECT without WHERE. -/
def noWhere : WhereClause := { hasWhere := false, conds := [], logicOps := [] }

theorem evalWhereClause_noWhere (values : List Value) : evalWhereClause ops db t values noWhere = true := rfl

theorem length_scanRows_noWhere (test : Version → Bool) :
    (scanRows ops db t test noWhere).length = (t.cells.filter test).length := by
  unfold scanRows
  induction t.cells with
  | nil => rfl
  | cons v vs ih =>
    rw [List.filterMap_cons, List.filter_cons, evalWhereClause_noWhere, Bool.and_true]
    cases test v with
    | true => exact congrArg Nat.succ ih
    | false => exact ih

/-- A set operation that returns as many rows as the SELECT has met no hidden version. -/
theorem visible_of_setBranch (h : collectSelectRows ops db t noWhere = runSelectVm ops db t snapshot now noWhere) :
    ∀ v ∈ t.cells, v.visible snapshot now = true := by
  have hlen := congrArg List.length h
  unfold collectSelectRows runSelectVm at hlen
  rw [length_scanRows_noWhere, length_scanRows_noWhere, List.filter_true] at hlen
  exact List.length_filter_eq_length_iff.mp hlen.symm

theorem shown_eq (h : ∀ v ∈ t.cells, v.visible snapshot now = true) : t.shown snapshot now = t := by
  unfold RowTable.shown
  rw [List.filter_eq_self.mpr h]

theorem scanRows_visible (h : ∀ v ∈ t.cells, v.visible snapshot now = true) (wc : WhereClause) :
    scanRows ops db t (fun _ => true) wc = scanRows ops db t (fun v => v.visible snapshot now) wc := by
  unfold scanRows
  refine List.filterMap_congr fun v hv => ?_
  simp only [h v hv]

end Agree

/-! ## A deleted row -/

theorem oneColumn_le : [columnA].length ≤ maxColumns := by decide

/-- A table `t (a INT)` with one row, inserted by the first transaction and deleted by the second. -/
def deletedRow : RowTable :=
  ⟨{ compositeKey with columns := [columnA], columns_le := oneColumn_le, pkCols := [] }, [⟨[one], 0, 1, 2⟩]⟩

/-- The database of `deletedRow` after both commits. -/
def afterDelete : RowDb := ⟨[deletedRow], none, false, 2, false⟩

end CustomDB
