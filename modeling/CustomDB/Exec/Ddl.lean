import CustomDB.Pager.Undo
import CustomDB.Catalog.Views
import CustomDB.Sql.Cte

/-!
# Schema statements inside a transaction

CREATE TABLE, DROP TABLE, CREATE INDEX, ALTER TABLE, and CREATE and DROP of views and triggers, as
`execute_statement` runs them when a transaction is open. Each edits the catalog in memory and, through the
pager, the catalog's pages. What the B+tree does to pages when rows are copied or an index is built is a list of
page acts that the environment gives.
-/

namespace CustomDB

open Lib Pager

variable {B : Type} [PageBody B]

/-! ## A connection -/

/-- A connection: the pager and the catalog it has in memory. -/
structure Database (B : Type) where
  pager : Pager B
  catalog : Catalog
  views : ViewCatalog
  autoVacuum : Bool

/-- How page bodies hold bytes, and the parts of the executor that are given from outside. -/
structure DdlEnv (B : Type) where
  bytes : B → Memory.Mem
  /-- A store through the bytes of a body. -/
  edit : (Memory.Mem → Memory.Mem) → B → B
  bytes_edit : ∀ f x, bytes (edit f x) = f (bytes x)
  initializeRootLeaf : B → B
  /-- The page traffic of `btree_insert` for every row of a table into the tree at a root page. -/
  fillTree : Database B → TableDef → Nat → List (PageAct B)
  executeVacuum : Database B → Database B

namespace Database

def pageActs (s : Database B) (as : List (PageAct B)) : Database B := { s with pager := Run.run act s.pager as }

/-- What `catalog_save` stores. -/
def image (env : DdlEnv B) (s : Database B) : CatalogImage B :=
  let img := s.catalog.image (s.views.store s.autoVacuum)
  { numTables := img.numTables
    count := env.edit img.count
    entry := fun t => env.edit (img.entry t)
    views := env.edit img.views }

/-- `catalog_save`. -/
def catalogSave (env : DdlEnv B) (s : Database B) : Database B :=
  if s.pager.lockError then s else s.pageActs (catalogActs (s.image env))

/-- `if (pager->auto_vacuum) execute_vacuum(catalog, pager)`. -/
def vacuumed (env : DdlEnv B) (s : Database B) : Database B :=
  if s.autoVacuum then env.executeVacuum s else s

/-- The page a new root goes to. -/
def unusedPage (s : Database B) : Nat := s.pager.getUnusedPageNum.1

/-- A new root leaf. -/
def newRoot (env : DdlEnv B) (s : Database B) : Database B :=
  s.pageActs [.alloc, .shadow s.unusedPage, .modify s.unusedPage (onBody env.initializeRootLeaf)]

/-- `pager->reserved_catalog_pages = catalog_get_reserved_pages(n + 1)`. -/
def reserved (s : Database B) : Database B :=
  s.pageActs [.reserve (catalogGetReservedPages (s.catalog.tables.length + 1))]

/-- `pager_ensure_write_lock`. -/
def ensureWriteLock (s : Database B) : Bool × Database B := (s.pager.pagerEnsureWriteLock.1, s.pageActs [.ensure])

end Database

/-- `ExecuteResult`, as far as these statements return it. -/
inductive ExecuteResult where
  | success | tableNotFound | tableExists | catalogFull | badSchema | busy
  deriving DecidableEq, Repr

/-! ## Tables -/

/-- Replace a definition. -/
def Catalog.setTable (cat : Catalog) (i : Nat) (d : TableDef) : Catalog :=
  ⟨cat.tables.set i d, by rw [List.length_set]; exact cat.tables_le⟩

/-- Add a definition, where there is room. -/
def Catalog.addTable (cat : Catalog) (d : TableDef) (h : cat.tables.length < maxTables) : Catalog :=
  ⟨cat.tables ++ [d], by rw [List.length_append, List.length_singleton]; exact h⟩

/-- Shift the definitions behind the `i`-th down. -/
def Catalog.removeTable (cat : Catalog) (i : Nat) : Catalog :=
  ⟨cat.tables.eraseIdx i, le_trans (List.length_eraseIdx_le ..) cat.tables_le⟩

/-- The index of the definition `catalog_find` returns. -/
def Catalog.findTable (cat : Catalog) (name : Text) : Option Nat := cat.tables.findIdx? fun d => d.name.str = name

/-- The index of a column. -/
def TableDef.findColumn (d : TableDef) (name : Text) : Option Nat := d.columns.findIdx? fun c => c.name.str = name

/-- `"_history_"`. -/
def historyPrefix : Text := [95, 104, 105, 115, 116, 111, 114, 121, 95]

/-- The three columns every history table starts with: `history_id`, `history_action`, `history_time`. -/
def historyColumns : List Column :=
  [{ intColumn [104, 105, 115, 116, 111, 114, 121, 95, 105, 100] (by decide) with isAutoincrement := true },
    { intColumn [104, 105, 115, 116, 111, 114, 121, 95, 97, 99, 116, 105, 111, 110] (by decide) with
      type := .text, size := 32 },
    intColumn [104, 105, 115, 116, 111, 114, 121, 95, 116, 105, 109, 101] (by decide)]

/-- A column as the history table has it. -/
def Column.history (c : Column) : Column := { c with hasIndex := false, indexRootPage := 0, isAutoincrement := false }

/-- The shadow table of a table WITH HISTORY. -/
def historyTable (d : TableDef) : TableDef where
  name := CharArray.print CharArray.pos128 ((historyPrefix ++ d.name.str.take 50).take 63)
  rootPageNum := 0
  columns := (historyColumns ++ d.columns.map Column.history).take maxColumns
  columns_le := by simp
  pkCols := []
  isVirtual := false
  vtabModule := CharArray.ofStr [] CharArray.nil64
  vtabArgs := CharArray.ofStr [] CharArray.nil256
  defaultTtl := 0
  withHistory := false

section Statements

variable (env : DdlEnv B)

/-- `execute_create_table`, without the history table. -/
def createOne (s : Database B) (d : TableDef) (ifNotExists : Bool) : ExecuteResult × Database B :=
  if h : s.catalog.tables.length < maxTables then
    if (s.catalog.findTable d.name.str).isSome then (if ifNotExists then .success else .tableExists, s)
    else
      match s.ensureWriteLock with
      | (false, s) => (.busy, s)
      | (true, s') =>
        let s' := s'.reserved
        let d := { d with rootPageNum := BitVec.ofNat 32 s'.unusedPage }
        (.success, ({ s'.newRoot env with catalog := s.catalog.addTable d h }).catalogSave env)
  else (.catalogFull, s)

/-- `execute_create_table`. -/
def executeCreateTable (s : Database B) (d : TableDef) (ifNotExists : Bool) : ExecuteResult × Database B :=
  match createOne env s d ifNotExists with
  | (.success, s') =>
    -- the history table comes after the table is in the catalog
    if (s.catalog.findTable d.name.str).isNone && d.withHistory then
      (.success, (createOne env s' (historyTable d) false).2)
    else (.success, s')
  | r => r

/-- The pages `execute_drop_table` frees. -/
def TableDef.roots (d : TableDef) : List Nat :=
  d.rootPageNum.toNat :: (d.columns.filter Column.hasIndex).map fun c => c.indexRootPage.toNat

/-- `execute_drop_table`. -/
def executeDropTable (s : Database B) (name : Text) : ExecuteResult × Database B :=
  match s.catalog.findTable name with
  | none => (.tableNotFound, s)
  | some i =>
    match s.ensureWriteLock with
    | (false, s) => (.busy, s)
    | (true, s) =>
      let freed := (s.catalog.tables[i]?.map TableDef.roots).getD []
      let s := s.pageActs (freed.map .free)
      (.success, (({ s with catalog := s.catalog.removeTable i }).catalogSave env).vacuumed env)

/-- What CREATE INDEX says of the index. -/
structure IndexSpec where
  isPartial : Bool
  /-- The first condition of its WHERE: column, operator and value. -/
  cond : Option (CharArray 32 × BitVec 32 × CharArray 64)
  isExpr : Bool
  exprFunc : CharArray 32

/-- The column with its new index. -/
def Column.indexed (c : Column) (x : IndexSpec) (root : Nat) : Column :=
  let (whereCol, whereOp, whereVal) :=
    (if x.isPartial then x.cond else none).getD (c.idxWhereCol, c.idxWhereOp, c.idxWhereVal)
  { c with
    hasIndex := true
    indexRootPage := BitVec.ofNat 32 root
    idxIsPartial := x.isPartial
    idxWhereCol := whereCol
    idxWhereOp := whereOp
    idxWhereVal := whereVal
    idxIsExpr := x.isExpr
    idxExprFunc := if x.isExpr then x.exprFunc else c.idxExprFunc }

/-- The definition with an index on its `c`-th column. -/
def TableDef.addIndex (d : TableDef) (c : Nat) (x : IndexSpec) (root : Nat) : TableDef :=
  { d with
    columns := d.columns.modify c (·.indexed x root)
    columns_le := by rw [List.length_modify]; exact d.columns_le }

/-- The table with its new index in the catalog. -/
def withIndex (s : Database B) (i c : Nat) (d : TableDef) (x : IndexSpec) : Database B :=
  ({ s.newRoot env with catalog := s.catalog.setTable i (d.addIndex c x s.unusedPage) }).catalogSave env

/-- `execute_create_index`. -/
def executeCreateIndex (s : Database B) (name col : Text) (x : IndexSpec) : ExecuteResult × Database B :=
  match s.catalog.findTable name with
  | none => (.tableNotFound, s)
  | some i =>
    match s.ensureWriteLock with
    | (false, s) => (.busy, s)
    | (true, s) =>
      match s.catalog.tables[i]? with
      | none => (.tableNotFound, s)
      | some d =>
        match d.findColumn col with
        | none => (.badSchema, s)
        | some c =>
          if (d.columns[c]?.map Column.hasIndex).getD true then (.success, s)
          else
            -- the rows go into the index after the catalog has it
            let s' := withIndex env s i c d x
            (.success, s'.pageActs (env.fillTree s' (d.addIndex c x s.unusedPage) s.unusedPage))

/-- What ALTER TABLE does. -/
inductive AlterAction where
  | rename (newName : Text)
  | addColumn (col : Column)
  | dropColumn (col : Text)

/-- A column with its foreign key on the renamed table. -/
def Column.retarget (c : Column) (old new : Text) : Column :=
  if c.hasFk && c.fkTargetTable.str = old then { c with fkTargetTable := CharArray.print CharArray.pos64 new } else c

def TableDef.retarget (d : TableDef) (old new : Text) : TableDef :=
  { d with
    columns := d.columns.map (·.retarget old new)
    columns_le := by rw [List.length_map]; exact d.columns_le }

/-- The catalog with table `i` renamed. -/
def Catalog.renameTable (cat : Catalog) (i : Nat) (old new : Text) : Catalog :=
  ⟨(cat.tables.modify i fun d => { d with name := CharArray.print CharArray.pos128 new }).map (·.retarget old new), by
    rw [List.length_map, List.length_modify]; exact cat.tables_le⟩

/-- Add a column, where there is room. -/
def TableDef.addColumn (d : TableDef) (c : Column) (h : d.columns.length < maxColumns) : TableDef :=
  { d with
    columns := d.columns ++ [c]
    columns_le := by rw [List.length_append, List.length_singleton]; exact h }

/-- Take a column out. -/
def TableDef.dropColumn (d : TableDef) (c : Nat) : TableDef :=
  { d with
    columns := d.columns.eraseIdx c
    columns_le := le_trans (List.length_eraseIdx_le ..) d.columns_le }

/-- The definition with another root. -/
def TableDef.atRoot (d : TableDef) (root : Nat) : TableDef := { d with rootPageNum := BitVec.ofNat 32 root }

/-- The common end of ADD and DROP COLUMN: the rows go to a new tree, and the definition with its root into the
catalog. -/
def rewriteTable (s : Database B) (i : Nat) (d : TableDef) : ExecuteResult × Database B :=
  let d := d.atRoot s.unusedPage
  let s' := (s.newRoot env).pageActs (env.fillTree (s.newRoot env) d s.unusedPage)
  (.success, ({ s' with catalog := s.catalog.setTable i d }).catalogSave env)

/-- `execute_alter_table`. -/
def executeAlterTable (s : Database B) (name : Text) (action : AlterAction) : ExecuteResult × Database B :=
  match s.catalog.findTable name with
  | none => (.tableNotFound, s)
  | some i =>
    match s.ensureWriteLock with
    | (false, s) => (.busy, s)
    | (true, s) =>
      match s.catalog.tables[i]?, action with
      | none, _ => (.tableNotFound, s)
      | some _, .rename new =>
        if (s.catalog.findTable new).isSome then (.tableExists, s)
        else (.success, ({ s with catalog := s.catalog.renameTable i name new }).catalogSave env)
      | some d, .addColumn c =>
        if h : d.columns.length < maxColumns then rewriteTable env s i (d.addColumn c h) else (.badSchema, s)
      | some d, .dropColumn col =>
        match d.findColumn col with
        | none => (.badSchema, s)
        | some c => rewriteTable env s i (d.dropColumn c)

/-! ## Views and triggers -/

/-- Where the view is in the array. -/
def ViewCatalog.findView (vt : ViewCatalog) (name : Text) : Option (Fin maxViews) :=
  (List.finRange maxViews).find? fun i => i.val < vt.numViews ∧ cstr (vt.views i).viewName.val = name

def ViewCatalog.findTrigger (vt : ViewCatalog) (name : Text) : Option (Fin maxViews) :=
  (List.finRange maxViews).find? fun i => i.val < vt.numTriggers ∧ cstr (vt.triggers i).name.val = name

/-- Entry `j` of an array of `n` whose entries behind the `i`-th were shifted down. -/
def shifted {α : Type} (a : Fin maxViews → α) (n i : Nat) (j : Fin maxViews) : α :=
  if h : i ≤ j.val ∧ j.val + 1 < n ∧ j.val + 1 < maxViews then a ⟨j.val + 1, h.2.2⟩ else a j

/-- DROP VIEW, once the view is found. -/
def ViewCatalog.dropView (vt : ViewCatalog) (i : Fin maxViews) : ViewCatalog :=
  { vt with
    numViews := vt.numViews - 1
    numViews_le := le_trans (Nat.sub_le ..) vt.numViews_le
    views := shifted vt.views vt.numViews i.val }

/-- DROP TRIGGER, once the trigger is found. -/
def ViewCatalog.dropTrigger (vt : ViewCatalog) (i : Fin maxViews) : ViewCatalog :=
  { vt with
    numTriggers := vt.numTriggers - 1
    numTriggers_le := le_trans (Nat.sub_le ..) vt.numTriggers_le
    triggers := shifted vt.triggers vt.numTriggers i.val }

/-- CREATE and DROP of views and triggers, with what they return where they find nothing to change. -/
def executeViews (s : Database B) (edit : Option ViewCatalog) (refused : ExecuteResult) : ExecuteResult × Database B :=
  match edit with
  | none => (refused, s)
  | some vt =>
    match s.ensureWriteLock with
    | (false, s) => (.busy, s)
    | (true, s) => (.success, ({ s with views := vt }).catalogSave env)

/-! ## The statements -/

inductive Ddl where
  | createTable (newTable : TableDef) (ifNotExists : Bool)
  | dropTable (name : Text)
  | createIndex (name col : Text) (index : IndexSpec)
  | alterTable (name : Text) (action : AlterAction)
  | createView (name sql : Text)
  | dropView (name : Text)
  | createTrigger (name table : Text) (timing : TriggerTiming) (event : TriggerEvent) (action : Text)
  | dropTrigger (name : Text)

/-- `execute_statement` on a schema statement, inside a transaction. -/
def executeDdl (s : Database B) : Ddl → ExecuteResult × Database B
  | .createTable d e => executeCreateTable env s d e
  | .dropTable name => executeDropTable env s name
  | .createIndex name col x => executeCreateIndex env s name col x
  | .alterTable name a => executeAlterTable env s name a
  | .createView name sql => executeViews env s (s.views.createView name sql) .badSchema
  | .dropView name => executeViews env s ((s.views.findView name).map s.views.dropView) .tableNotFound
  | .createTrigger name table timing event action =>
    executeViews env s (s.views.createTrigger name table timing event action) .badSchema
  | .dropTrigger name => executeViews env s ((s.views.findTrigger name).map s.views.dropTrigger) .tableNotFound

end Statements

/-! ## Loading the catalog -/

/-- A member of the enumeration, by its value. -/
def TriggerTiming.ofCode (x : BitVec 32) : TriggerTiming := if x = 0 then before else after

def TriggerEvent.ofCode (x : BitVec 32) : TriggerEvent := if x = 0 then insert else if x = 1 then update else delete

/-- `n` bytes of a memory as an array. -/
def charsAt (m : Memory.Mem) (off n : Nat) : Chars n := ⟨Memory.read m off n, by simp [Memory.read]⟩

def loadView (m : Memory.Mem) (i : Nat) : ViewDef :=
  ⟨charsAt m (4 + i * sizeofView) 64, charsAt m (4 + i * sizeofView + 64) 256⟩

def loadTrigger (m : Memory.Mem) (i : Nat) : TriggerDef :=
  let off := 8 + sizeofView * 4 + i * sizeofTrigger
  ⟨charsAt m off 64, charsAt m (off + 64) 64, TriggerTiming.ofCode (u32At m (off + 128)),
    TriggerEvent.ofCode (u32At m (off + 132)), charsAt m (off + 136) 256⟩

theorem loadCount_le (m : Memory.Mem) (off : Nat) : loadCount m off ≤ maxViews := by
  unfold loadCount maxViews
  split <;> omega

/-- The views and triggers `catalog_load` copies from page 15. What lies behind them in the arrays stays. -/
def ViewCatalog.load (vt : ViewCatalog) (m : Memory.Mem) : ViewCatalog where
  numViews := loadCount m 0
  numViews_le := loadCount_le m 0
  views i := if i.val < loadCount m 0 then loadView m i.val else vt.views i
  numTriggers := loadCount m (4 + sizeofView * 4)
  numTriggers_le := loadCount_le m _
  triggers i := if i.val < loadCount m (4 + sizeofView * 4) then loadTrigger m i.val else vt.triggers i

/-- The table count `catalog_load` takes from page 0. -/
def loadNumTables (m : Memory.Mem) : Nat := if (u32At m 0).toNat ≤ maxTables then (u32At m 0).toNat else 0

theorem length_loadTables (pages : Nat → Memory.Mem) : (loadTables pages).length ≤ maxTables := by
  unfold loadTables
  rw [List.length_map, List.length_range]
  split <;> omega

/-- The start of `catalog_load`: page 0 with the free-list head and the LSN. -/
def Database.loadHead (s : Database B) : Database B :=
  let p := s.pager.getPage 0
  { s with
    pager := { p with
      reservedCatalogPages := 33
      freelistHead := (p.view 0).freelistHead
      walLsn := max p.walLsn (p.view 0).lsn } }

/-- The bytes of the pages, as the pager shows them. -/
def Database.bytes (env : DdlEnv B) (s : Database B) (p : Nat) : Memory.Mem := env.bytes (s.pager.view p).body

/-- The pages `catalog_load` reads after page 0. -/
def catalogPages (m : Memory.Mem) : List Nat := (List.range (loadNumTables m)).map entryPage ++ [15]

/-- The page reads of `catalog_load`. -/
def Database.readCatalog (env : DdlEnv B) (s : Database B) : Database B :=
  s.loadHead.pageActs ((catalogPages (s.loadHead.bytes env 0)).map .read)

/-- `catalog_load`. -/
def Database.catalogLoad (env : DdlEnv B) (s : Database B) : Database B where
  pager := (s.readCatalog env).pager
  catalog := ⟨loadTables ((s.readCatalog env).bytes env), length_loadTables _⟩
  views := s.views.load ((s.readCatalog env).bytes env 15)
  autoVacuum := loadAutoVacuum ((s.readCatalog env).bytes env 15)

/-! ## Sessions -/

/-- One statement of a front end. The API loads the catalog anew after a statement that succeeds (`reload`), the
command line does not. -/
def frontEnd (env : DdlEnv B) (reload : Bool) (s : Database B) (stmt : Ddl) : Database B :=
  match executeDdl env s stmt with
  | (.success, s) => if reload then s.catalogLoad env else s
  | (_, s) => s

/-- ROLLBACK. -/
def frontEndRollback (env : DdlEnv B) (reload : Bool) (s : Database B) : Option (Database B) :=
  s.pager.pagerRollback.map fun p =>
    let s := { s with pager := p }
    if reload then s.catalogLoad env else s

end CustomDB
