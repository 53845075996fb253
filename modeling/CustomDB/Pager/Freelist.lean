import CustomDB.Pager.Commit
import CustomDB.Pager.Rollback
import CustomDB.Lib.Linked

/-!
# Pages on the free list

The free list starts at `freelist_head`, a field of the pager that no rollback restores, and runs through the
freed pages, some of which a rollback does restore. Beside the pager the model keeps which pages its callers
use, now and at each point of the transaction they can go back to.
-/

namespace CustomDB

open Lib

namespace Pager

variable {B : Type} [PageBody B] {s s' : Pager B}

/-! ## The allocator and its callers -/

/-- A point of the transaction to go back to: the pages in use there, the page count, and the pages freed since
that have not been handed out again. -/
structure Point where
  inUse : Finset Nat
  count : Nat
  freed : Finset Nat

def Point.free (p : Nat) (pt : Point) : Point := { pt with freed := insert p pt.freed }

def Point.reuse (p : Nat) (pt : Point) : Point := { pt with freed := pt.freed.erase p }

/-- A pager beside the pages its callers use; `points` are the open savepoints of the transaction, newest
first. -/
structure Heap (B : Type) where
  pager : Pager B
  inUse : Finset Nat
  atBegin : Point
  points : List Point

/-- What the callers of the allocator ask for. -/
inductive HeapOp (B : Type) where
  | begin
  /-- `get_page(get_unused_page_num())`. -/
  | alloc
  | free (p : Nat)
  | read (p : Nat)
  | write (p : Nat) (f : Page B → Page B)
  | shadow (p : Nat)
  | journal (p : Nat)
  | savepoint (name : SavepointName)
  | rollbackTo (name : SavepointName)
  | release (name : SavepointName)
  | commit
  | rollback

/-- `pager_free_page` does something for page `p`. -/
def Frees (s : Pager B) (p : Nat) : Prop := ¬ (p < s.reservedCatalogPages ∨ p = 0 ∨ p = invalidPageNum)

instance (s : Pager B) (p : Nat) : Decidable (s.Frees p) := inferInstanceAs (Decidable (¬ _))

namespace Heap

/-- A new transaction can go back to its beginning. -/
def started (h : Heap B) : Heap B :=
  if h.pager.inTransaction then h
  else
    let r := h.pager.pagerBeginTransaction
    if r.1 then ⟨r.2, h.inUse, ⟨h.inUse, r.2.numPages, ∅⟩, []⟩ else { h with pager := r.2 }

/-- How many savepoints are newer than the newest one called `name`. -/
def newer (h : Heap B) (name : SavepointName) : Nat :=
  h.pager.savepoints.length - (h.pager.findSavepoint name).length

/-- One operation; `none` when the pager exits. -/
def step (h : Heap B) : HeapOp B → Option (Heap B)
  | .begin => some h.started
  | .alloc =>
    let r := h.pager.getUnusedPageNum
    let again := if h.pager.Pops then Point.reuse r.1 else id
    some ⟨r.2.getPage r.1, insert r.1 h.inUse, again h.atBegin, h.points.map again⟩
  | .free p =>
    let more := if h.pager.Frees p then Point.free p else id
    some ⟨h.pager.pagerFreePage p, h.inUse.erase p, more h.atBegin, h.points.map more⟩
  | .read p => some { h with pager := h.pager.getPage p }
  | .write p f => some { h with pager := h.pager.modify p f }
  | .shadow p => some { h with pager := h.pager.pagerShadowPageWrite p }
  | .journal p => some { h with pager := h.pager.pagerJournalPage p }
  | .savepoint name =>
    let b := h.started
    some { b with
      pager := h.pager.pagerSavepoint name
      points := if 16 ≤ b.pager.savepoints.length then b.points else ⟨b.inUse, b.pager.numPages, ∅⟩ :: b.points }
  | .rollbackTo name =>
    let points := if h.pager.findSavepoint name = [] then h.points else h.points.drop (h.newer name)
    let inUse := if h.pager.findSavepoint name = [] then h.inUse else
      (points.head?.map Point.inUse).getD h.inUse
    some (if h.pager.inTransaction then ⟨h.pager.pagerRollbackToSavepoint name, inUse, h.atBegin, points⟩ else h)
  | .release name =>
    some (if h.pager.inTransaction then { h with
      pager := h.pager.pagerReleaseSavepoint name
      points := if h.pager.findSavepoint name = [] then h.points else h.points.drop (h.newer name + 1) } else h)
  | .commit => h.pager.pagerCommit.map fun s => { h with pager := s, points := [] }
  | .rollback => h.pager.pagerRollback.map fun s =>
      if h.pager.inTransaction then { h with pager := s, inUse := h.atBegin.inUse, points := [] } else h

/-- A heap whose pager has exited stays so. -/
def next (o : Option (Heap B)) (op : HeapOp B) : Option (Heap B) := o.bind fun h => h.step op

end Heap

/-! ## The property -/

/-- A value that ends the free list. -/
def EndsList (s : Pager B) (a : Nat) : Prop := a = 0 ∨ a = invalidPageNum ∨ a < s.reservedCatalogPages

/-- The link in the first word of page `p`, as `get_page` shows it. -/
def linkOf (s : Pager B) (p : Nat) : Nat := PageBody.link (s.view p).body

/-- The free list runs through `l`. -/
def FreeList (s : Pager B) (l : List Nat) : Prop := Linked.Chain s.linkOf s.EndsList s.freelistHead l

/-- The free list is finite and without duplicates, holds only pages of the database beyond the catalog's, none
of them in use, and the page the allocator hands out next is not in use. -/
structure Owned (h : Heap B) : Prop where
  list : ∃ l, h.pager.FreeList l ∧ l.Nodup ∧
    ∀ p ∈ l, h.pager.reservedCatalogPages ≤ p ∧ p < h.pager.numPages ∧ p ∉ h.inUse
  handedOut : h.pager.getUnusedPageNum.1 ∉ h.inUse

/-- A pager beside a WAL file reads it. -/
def WalKnown (s : Pager B) : Prop := s.disk.wal.isSome = true → s.useWal = true ∧ s.walOpen = true

/-- The files are as the pager left them: outside a transaction it keeps its cache. -/
def AsLeft (s : Pager B) : Prop :=
  (s.isMemory = true ∨ s.disk.main.length % fileLengthWrap = s.filePages ∧ max s.walMaxLsn s.diskLsn ≤ s.walLsn) ∧
    WalKnown s

/-- No record past `offset` is of page `q`. -/
def Unrecorded (s : Pager B) (offset q : Nat) : Prop := ∀ e ∈ s.journalRecords.drop offset, e.1 ≠ q

/-- The pages freed since `pt` and still free were free there too, and are `clean` since. -/
def Point.FreeBefore (pt : Point) (clean : Nat → Prop) : Prop :=
  ∀ p ∈ pt.freed, p ∉ pt.inUse ∧ p < pt.count ∧ clean p

/-- Where an operation does not spoil the free list. Pages are freed and written by those who use them. A
rollback, to BEGIN or to a savepoint of the transaction, finds on the list no page that was in use there, did
not exist there or was captured since. A savepoint taken at page count 0 takes no page away. -/
def Disciplined (h : Heap B) (op : HeapOp B) : Prop :=
  Fits h.pager ∧
    match op with
    | .begin | .savepoint _ | .alloc | .read _ => h.pager.inTransaction = false → AsLeft h.pager
    | .free p => (h.pager.inTransaction = false → AsLeft h.pager) ∧ p ∈ h.inUse
    | .write p _ => (h.pager.inTransaction = false → AsLeft h.pager) ∧ (p ∈ h.inUse ∨ p < h.pager.reservedCatalogPages)
    | .shadow p | .journal p => p ∈ h.inUse ∨ p < h.pager.reservedCatalogPages
    | .rollbackTo name => h.pager.inTransaction = true → ∀ sp ∈ (h.pager.findSavepoint name).head?,
        ∃ pt ∈ h.points[h.newer name]?, 0 < pt.count ∧ pt.FreeBefore (h.pager.Unrecorded sp.journalOffset)
    | .release _ | .commit => True
    | .rollback => h.pager.inTransaction = true →
        h.atBegin.FreeBefore fun p => h.pager.shadowPages.slot p = none ∧ h.pager.Unrecorded 0 p

end Pager

end CustomDB
