import CustomDB.Pager.Crash

/-!
# Saving the catalog

`catalog_save` captures the catalog pages without a journal record and, in rollback mode, flushes every
cached page in the middle of the transaction. What it stores on each page is a parameter.
-/

namespace CustomDB

open Lib

variable {B : Type} [PageBody B]

/-- The bytes `catalog_save` stores: the table count, the entry of each table, and the views and triggers. -/
structure CatalogImage (B : Type) where
  numTables : Nat
  count : B → B
  entry : Nat → B → B
  views : B → B

/-- The page of table `t`'s entry. Page 15 is the views'. -/
def entryPage (t : Nat) : Nat := if t = 0 then 0 else if t < 15 then t else t + 1

/-- Store through the body of a page. -/
def onBody (f : B → B) (x : Page B) : Page B := { x with body := f x.body }

namespace Pager

/-- One turn of the table loop of `catalog_save`. -/
def saveEntry (img : CatalogImage B) (s : Pager B) (t : Nat) : Pager B :=
  (s.pagerShadowPageWrite (entryPage t)).modify (entryPage t) (onBody (img.entry t))

/-- `catalog_save`. -/
def catalogSave (s : Pager B) (img : CatalogImage B) : Pager B :=
  if s.lockError then s
  else
    let s := { s with reservedCatalogPages := 33 }
    let s := (s.pagerShadowPageWrite 0).modify 0 (onBody img.count)
    let s := (List.range img.numTables).foldl (saveEntry img) s
    let s := (s.pagerShadowPageWrite 15).modify 15 (onBody img.views)
    let s := s.modify 0 fun x => { x with freelistHead := s.freelistHead, lsn := s.walLsn }
    if s.useWal then s else s.flushCached

/-- `execute_create_table`, once the write lock is granted: a new root leaf and the catalog that has it. -/
def createTable (s : Pager B) (img : CatalogImage B) (init : B → B) : Pager B :=
  let s := { s with reservedCatalogPages := catalogGetReservedPages img.numTables }
  let r := s.getUnusedPageNum
  ((r.2.pagerShadowPageWrite r.1).modify r.1 (onBody init)).catalogSave img

/-! ## As page traffic -/

/-- What `catalog_save` does, act by act. -/
def catalogActs (img : CatalogImage B) : List (PageAct B) :=
  [.reserve 33, .shadow 0, .modify 0 (onBody img.count)] ++
    ((List.range img.numTables).flatMap fun t =>
      [.shadow (entryPage t), .modify (entryPage t) (onBody (img.entry t))]) ++
    [.shadow 15, .modify 15 (onBody img.views), .trailer, .flush]

/-- What `execute_create_table` does, act by act, with the root page `root`. -/
def createActs (root : Nat) (img : CatalogImage B) (init : B → B) : List (PageAct B) :=
  [.ensure, .reserve (catalogGetReservedPages img.numTables), .alloc, .shadow root, .modify root (onBody init)] ++
    catalogActs img

theorem run_saveEntry (s : Pager B) (img : CatalogImage B) (ts : List Nat) :
    Run.run act s (ts.flatMap fun t => [.shadow (entryPage t), .modify (entryPage t) (onBody (img.entry t))]) =
      ts.foldl (saveEntry img) s := by
  induction ts generalizing s with
  | nil => rfl
  | cons t ts ih =>
    rw [List.flatMap_cons, Run.run_append, ih]
    rfl

theorem catalogSave_acts (s : Pager B) (img : CatalogImage B) (h : s.lockError = false) :
    s.catalogSave img = Run.run act s (catalogActs img) := by
  unfold catalogSave catalogActs
  rw [if_neg (by simp [h]), Run.run_append, Run.run_append, run_saveEntry]
  rfl

theorem createTable_acts (s : Pager B) (img : CatalogImage B) (init : B → B) {root : Nat}
    (hr : ({ s.pagerEnsureWriteLock.2 with reservedCatalogPages := 33 } : Pager B).getUnusedPageNum.1 = root)
    (hl : (Run.run act s [.ensure, .reserve (catalogGetReservedPages img.numTables), .alloc, .shadow root,
      .modify root (onBody init)]).lockError = false) :
    s.pagerEnsureWriteLock.2.createTable img init = Run.run act s (createActs root img init) := by
  unfold createActs
  rw [Run.run_append, ← catalogSave_acts _ _ hl]
  subst hr
  rfl

/-! ## A crash in the middle of CREATE TABLE -/

/-- A database file with an empty catalog, its catalog loaded. The body of page 0 is its table count. -/
def emptyCatalog : Pager Word :=
  { (pagerOpen ⟨[⟨0, 0, 0⟩], none, none⟩ ByteLocks.none .free 1) with reservedCatalogPages := 33 }

/-- The catalog with one table. -/
def oneTable : CatalogImage Word := ⟨1, fun _ => 1, fun _ w => w, fun w => w⟩

/-- CREATE TABLE as a transaction of its own: begin, create, commit. -/
def created : Pager Word :=
  (emptyCatalog.pagerBeginTransaction.2.pagerEnsureWriteLock.2.createTable oneTable id).pagerCommit.getD emptyCatalog

set_option maxRecDepth 8000 in
/-- After the flush of `catalog_save` has written page 0, the journal is still empty: the recovery keeps the
table that was never committed. -/
theorem create_table_not_atomic : emptyCatalog.pagerBeginTransaction.1 = true ∧
    ¬ CrashSafe emptyCatalog.pagerBeginTransaction.2.numPages emptyCatalog.mainPage emptyCatalog.disk created.io := by
  refine ⟨rfl, fun h => ?_⟩
  have h2 := h 2 (by decide) 1 0 (by decide)
  rw [SameBytes, if_pos rfl] at h2
  exact absurd h2.1 (by decide)

/-- A journaled write, and its commit. -/
theorem crash_atomic_oneWrite :
    ∃ ws, (((Run.run act onePage.pagerBeginTransaction.2 [.journal 0, .modify 0 (putBody 8)]).pagerCommit.getD
      (Run.run act onePage.pagerBeginTransaction.2 [.journal 0, .modify 0 (putBody 8)])).io = onePage.io ++ ws ∧
      CrashSafe onePage.pagerBeginTransaction.2.numPages onePage.mainPage onePage.disk ws) := by
  refine crash_atomic onePage_idle rfl rfl rfl rfl ?_ rfl fun _ q hq _ => Or.inr ?_
  · rw [Run.meets_cons, Run.meets_cons]
    refine ⟨⟨fun _ => ⟨by decide, fun q x hx => nomatch hx⟩, fun hw => nomatch hw⟩, trivial, Run.meets_nil _ _ _⟩
  · have hn : onePage.pagerBeginTransaction.2.numPages = 1 := rfl
    obtain rfl : q = 0 := by omega
    decide

end Pager

end CustomDB
