import Mathlib
import CustomDB.Lib.Slots
import CustomDB.Lib.BlockFile

/-!
# The pager's state

A `Pager` as `pager.h` declares it, with the files its descriptors reach: the page cache, the shadow
copies of the open transaction, the rollback journal, the WAL and the locks. Page bytes that only the
tree and the catalog interpret are the parameter `B`; the pager itself reads the free-list link in the
first word of a freed page and the two trailer fields of page 0.

All files hold whole pages, so lengths and offsets count pages (journal: records). `file_length` is a
`uint32_t` number of bytes: in pages it wraps at `fileLengthWrap`.
-/

namespace CustomDB

open Lib

/-- What the pager needs of the bytes it does not interpret. -/
class PageBody (B : Type) where
  /-- `memset(page, 0, PAGE_SIZE)`. -/
  zero : B
  /-- The first four bytes, the free-list link of a freed page. -/
  link : B → Nat
  /-- A zeroed page with the link stored in its first four bytes. -/
  ofLink : Nat → B
  link_zero : link zero = 0
  link_ofLink : ∀ n, link (ofLink n) = n

/-- A page body cut down to its first word, the smallest body there is. -/
abbrev Word := Nat

instance : PageBody Word := ⟨0, id, id, rfl, fun _ => rfl⟩

/-- One page: the body, and the LSN (bytes 4084..4092) and free-list head (bytes 4092..4096) that
page 0 carries. -/
@[ext] structure Page (B : Type) where
  body : B
  lsn : Nat
  freelistHead : Nat
  deriving DecidableEq, Repr

namespace Page

variable {B : Type} [PageBody B]

/-- A zeroed page. -/
def zero : Page B := ⟨PageBody.zero, 0, 0⟩

def setLsn (p : Page B) (n : Nat) : Page B := { p with lsn := n }

def setFreelistHead (p : Page B) (n : Nat) : Page B := { p with freelistHead := n }

end Page

/-- `file_length` counts bytes in 32 bits: `2^32 / PAGE_SIZE` pages. -/
def fileLengthWrap : Nat := 2 ^ 20

/-- `INVALID_PAGE_NUM`. -/
def invalidPageNum : Nat := 2 ^ 32 - 1

/-- `catalog_get_reserved_pages`: the page count the catalog keeps for itself. -/
def catalogGetReservedPages (_numTables : Nat) : Nat := 33

/-- The five lock states of `pager.h`. -/
inductive PagerLockState where
  | noLock | shared | reserved | pending | exclusive
  deriving DecidableEq, Repr

/-- The numeric value of a lock state, which `pager_lock` compares. -/
def PagerLockState.level : PagerLockState → Nat
  | noLock => 0
  | shared => 1
  | reserved => 2
  | pending => 3
  | exclusive => 4

/-- The stronger of two lock states. -/
def PagerLockState.raise (l want : PagerLockState) : PagerLockState :=
  if want.level ≤ l.level then l else want

/-- The byte locks other processes hold on the main file. -/
structure ByteLocks where
  sharedRead : Bool
  sharedWrite : Bool
  reserved : Bool
  pending : Bool
  deriving DecidableEq, Repr

/-- No other process has the file locked. -/
def ByteLocks.none : ByteLocks := ⟨false, false, false, false⟩

/-- `lock_node->active_writer` as this pager sees it. -/
inductive WriterSlot where
  | free
  | self
  /-- Another pager of the process; `explicitTx` is its `is_explicit_tx`. -/
  | other (explicitTx : Bool)
  deriving DecidableEq, Repr

/-- One 4100-byte journal record: the page number and the page image. -/
abbrev JournalEntry (B : Type) := Nat × Page B

/-- One version-2 WAL frame; `crcOk` says whether the stored checksum matches the data. -/
structure Frame (B : Type) where
  pageNum : Nat
  crcOk : Bool
  commitTs : Nat
  lsn : Nat
  data : Page B
  deriving DecidableEq

/-- The three files of a database. -/
structure Disk (B : Type) where
  main : List (Page B)
  /-- `none` when the journal file does not exist. -/
  journal : Option (List (JournalEntry B))
  /-- `none` when the WAL file is missing or empty. -/
  wal : Option (List (Frame B))

/-- One write to a database file. -/
inductive IoOp (B : Type) where
  | writeMain (p : Nat) (x : Page B)
  | truncateMain (n : Nat)
  /-- `open(journal_filename, O_CREAT | O_TRUNC)`. -/
  | createJournal
  /-- Write one record at a file position; a gap before it reads as zero bytes, records of page 0. -/
  | writeJournal (pos : Nat) (e : JournalEntry B)
  | truncateJournal (n : Nat)
  | unlinkJournal
  | appendWal (f : Frame B)
  deriving DecidableEq

/-- The effect of one write. A journal that was unlinked under its descriptor takes no more writes. -/
def Disk.apply {B : Type} [PageBody B] (d : Disk B) : IoOp B → Disk B
  | .writeMain p x => { d with main := BlockFile.write Page.zero d.main p x }
  | .truncateMain n => { d with main := BlockFile.truncate Page.zero d.main n }
  | .createJournal => { d with journal := some [] }
  | .writeJournal pos e =>
    { d with journal := d.journal.map fun j => BlockFile.write (0, Page.zero) j pos e }
  | .truncateJournal n => { d with journal := d.journal.map (List.take n) }
  | .unlinkJournal => { d with journal := none }
  | .appendWal f => { d with wal := some (d.wal.getD [] ++ [f]) }

/-- A savepoint name as it fits `char name[64]`; the parser cuts names to 63 bytes. -/
structure SavepointName where
  bytes : List UInt8
  fits : bytes.length < 64
  deriving DecidableEq

structure Savepoint where
  name : SavepointName
  /-- In records. -/
  journalOffset : Nat
  numPagesAtSavepoint : Nat

/-- A pager with the files and foreign locks it sees. The arrays that are `NULL` until they are first
needed (`page_is_journaled`, `is_dirty`) are the sets of the flags that are up. -/
structure Pager (B : Type) where
  disk : Disk B
  /-- The file writes issued so far, in program order: what a crash cuts short. -/
  io : List (IoOp B)
  others : ByteLocks
  writerSlot : WriterSlot
  clock : Nat
  isMemory : Bool
  /-- `file_length / PAGE_SIZE`. -/
  filePages : Nat
  numPages : Nat
  pages : Slots (Page B)
  inTransaction : Bool
  /-- `journal_fd`: `none` is `-1`, otherwise the descriptor's own file position. A memory database is
  opened with descriptor 0, which is no journal: `disk.journal` stays `none` there. -/
  journalPos : Option Nat
  pageIsJournaled : Finset Nat
  isDirty : Finset Nat
  numPagesAtTxStart : Nat
  lockState : PagerLockState
  useWal : Bool
  /-- `wal_fd != -1`. -/
  walOpen : Bool
  walLsn : Nat
  currentCommitTs : Nat
  currentCommitLsn : Nat
  /-- The open savepoints, the newest first. -/
  savepoints : List Savepoint
  reservedCatalogPages : Nat
  freelistHead : Nat
  shadowPages : Slots (Page B)
  /-- `pthread_equal(writer_tid, pthread_self())`. -/
  isWriter : Bool
  txSnapshotXid : Nat
  lockError : Bool
  isExplicitTx : Bool

namespace Pager

variable {B : Type} [PageBody B]

/-- The newest WAL frame of page `p` whose checksum matches. -/
def lastFrame (s : Pager B) (p : Nat) : Option (Frame B) :=
  (s.disk.wal.getD []).reverse.find? fun f => f.pageNum == p && f.crcOk

/-- Issue one file write. -/
def emit (s : Pager B) (op : IoOp B) : Pager B := { s with disk := s.disk.apply op, io := s.io ++ [op] }

/-- Page `p` as the main file has it. -/
def mainPage (s : Pager B) (p : Nat) : Page B := BlockFile.read Page.zero s.disk.main p

/-- What `get_page` reads for a page that is not cached. -/
def readPage (s : Pager B) (p : Nat) : Page B :=
  let fromFile := if p < s.filePages then s.mainPage p else Page.zero
  if s.useWal && s.walOpen then
    match s.lastFrame p with
    | some f => f.data
    | none => fromFile
  else fromFile

/-- The committed copy of page `p`: the cache entry, else what a read would bring in. -/
def base (s : Pager B) (p : Nat) : Page B := (s.pages.slot p).getD (s.readPage p)

/-- The page `get_page` hands out: the shadow copy inside the writer's transaction, else the base. -/
def view (s : Pager B) (p : Nat) : Page B :=
  if s.inTransaction && s.isWriter then (s.shadowPages.slot p).getD (s.base p) else s.base p

end Pager

end CustomDB
