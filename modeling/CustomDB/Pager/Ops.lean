import CustomDB.Pager.State

/-!
# The pager's operations

`pager.c`, function by function: locks, page reads, shadow copies and the journal, the flush, the
allocator, and the transaction and savepoint commands. An operation that `exit(1)`s returns `none`.
-/

namespace CustomDB

open Lib

namespace Pager

variable {B : Type} [PageBody B]

/-! ## Locks -/

/-- One rung of `pager_lock`: from state `lo` to `hi`, refused when `blocked`. -/
def climb (want lo hi : PagerLockState) (blocked : Bool) (r : Bool × Pager B) : Bool × Pager B :=
  if r.1 = true ∧ r.2.lockState = lo ∧ hi.level ≤ want.level then
    if blocked then (false, r.2) else (true, { r.2 with lockState := hi })
  else r

/-- `pager_lock`. A refused upgrade keeps the rungs already taken. -/
def pagerLock (s : Pager B) (want : PagerLockState) : Bool × Pager B :=
  if s.isMemory ∨ want.level ≤ s.lockState.level then (true, s)
  else
    climb want .pending .exclusive (s.others.sharedRead || s.others.sharedWrite)
      (climb want .reserved .pending s.others.pending
        (climb want .shared .reserved s.others.reserved
          (climb want .noLock .shared (s.others.pending || s.others.sharedWrite) (true, s))))

/-- `pager_unlock`. -/
def pagerUnlock (s : Pager B) : Pager B := { s with lockState := .noLock }

/-- The lock node forgets this pager. -/
def releaseWriter (s : Pager B) : Pager B :=
  { s with writerSlot := if s.writerSlot = .self then .free else s.writerSlot }

/-! ## Reading pages -/

/-- `disk_lsn`: the LSN on page 0 of the main file. -/
def diskLsn (s : Pager B) : Nat := if 1 ≤ s.disk.main.length then (s.mainPage 0).lsn else 0

/-- `wal_max_lsn`: the LSN of the last WAL frame. -/
def walMaxLsn (s : Pager B) : Nat := ((s.disk.wal.getD []).getLast?.map Frame.lsn).getD 0

/-- A WAL file that is there is opened. -/
def openWal (s : Pager B) : Pager B :=
  if s.disk.wal.isSome then { s with useWal := true, walOpen := true } else s

/-- `pager_refresh_if_modified`: outside a transaction, drop the cache when the file or the WAL moved on. -/
def pagerRefreshIfModified (s : Pager B) : Pager B :=
  if s.inTransaction ∨ s.isMemory then s
  else
    let curLen := s.disk.main.length % fileLengthWrap
    let effectiveLsn := max s.walMaxLsn s.diskLsn
    let s := s.openWal
    if s.walLsn < effectiveLsn ∨ curLen ≠ s.filePages then
      { s with
        pages := Slots.empty
        filePages := curLen
        numPages := curLen
        walLsn := max s.walLsn effectiveLsn }
    else s

/-- The state after `get_page(p)`; the page it returns is then `deref p`. The read lock is granted
here: without it `get_page` returns `NULL`, which no caller survives. -/
def getPage (s : Pager B) (p : Nat) : Pager B :=
  let s := if s.isMemory then s else { (s.pagerLock .shared).2 with lockError := false }
  let s := s.pagerRefreshIfModified
  match s.pages.slot p with
  | some _ => s
  | none => { s with pages := s.pages.set p (s.readPage p), numPages := max s.numPages (p + 1) }

/-- The bytes behind the pointer `get_page(p)` returned. -/
def deref (s : Pager B) (p : Nat) : Page B :=
  if s.inTransaction && s.isWriter then
    (s.shadowPages.slot p).getD ((s.pages.slot p).getD Page.zero)
  else (s.pages.slot p).getD Page.zero

/-- Store through the pointer `get_page(p)` returned. -/
def store (s : Pager B) (p : Nat) (x : Page B) : Pager B :=
  if s.inTransaction && s.isWriter && (s.shadowPages.slot p).isSome then
    { s with shadowPages := s.shadowPages.overwrite p x }
  else { s with pages := s.pages.overwrite p x }

/-- `buf = get_page(p); *buf = f(*buf)`. -/
def modify (s : Pager B) (p : Nat) (f : Page B → Page B) : Pager B :=
  let s := s.getPage p
  s.store p (f (s.deref p))

/-! ## Writing pages out -/

/-- The buffer `pager_flush` writes: the shadow copy if there is one, else the cache entry. -/
def flushBuf (s : Pager B) (p : Nat) : Option (Page B) :=
  (s.shadowPages.slot p).orElse fun _ => s.pages.slot p

/-- Append one frame to the WAL. -/
def appendFrame (s : Pager B) (p : Nat) (buf : Page B) : Pager B :=
  let ts := if s.currentCommitTs ≠ 0 then s.currentCommitTs else s.clock
  let lsn := if s.currentCommitLsn ≠ 0 then s.currentCommitLsn else s.walLsn + 1
  { (s.emit (.appendWal ⟨p, true, ts, lsn, buf⟩)) with
    walOpen := true
    walLsn := if s.currentCommitLsn ≠ 0 then s.walLsn else s.walLsn + 1 }

/-- `pager_flush`. -/
def pagerFlush (s : Pager B) (p : Nat) : Pager B :=
  if s.isMemory then s
  else
    match s.flushBuf p with
    | none => s
    | some buf =>
      if s.useWal then s.appendFrame p buf
      else
        { (s.emit (.writeMain p buf)) with
          filePages := if s.filePages < (p + 1) % fileLengthWrap then (p + 1) % fileLengthWrap
            else s.filePages
          isDirty := s.isDirty.erase p }

/-- The loop `for (i = 0; i < max_pages; i++) if (pages[i] != NULL) pager_flush(i)`. -/
def flushCached (s : Pager B) : Pager B :=
  (List.range s.pages.cap).foldl
    (fun s i => if (s.pages.slot i).isSome then s.pagerFlush i else s) s

/-! ## Transactions, shadow copies and the journal -/

/-- The lock-node part of `pager_ensure_write_lock`. Waiting for another pager's automatic transaction
ends in the timeout here: the wait that succeeds is this operation run later. A memory database has no
lock node. -/
def claimWriter (s : Pager B) : Option (Pager B) :=
  if s.isMemory then some s
  else
    match s.writerSlot with
    | .other _ => none
    | _ => some { s with writerSlot := .self }

/-- The operating-system part of `pager_ensure_write_lock`: the RESERVED lock, and in rollback mode the
baseline flush of the whole cache. -/
def acquireReserved (s : Pager B) : Bool × Pager B :=
  if s.isMemory = false ∧ s.lockState.level < PagerLockState.reserved.level then
    let r := s.pagerLock .reserved
    if r.1 then
      let s := { r.2 with lockError := false }
      let s := if s.useWal then s else s.flushCached
      (true, { s with
        numPagesAtTxStart := s.numPages
        filePages := s.disk.main.length % fileLengthWrap })
    else (false, r.2)
  else (true, s)

/-- `open(journal_filename, O_RDWR | O_CREAT | O_TRUNC)`, unless the descriptor is open. -/
def openJournal (s : Pager B) : Pager B :=
  if s.journalPos.isNone ∧ s.isMemory = false then
    { (s.emit .createJournal) with journalPos := some 0 }
  else s

/-- `pager_ensure_write_lock`. -/
def pagerEnsureWriteLock (s : Pager B) : Bool × Pager B :=
  match s.claimWriter with
  | none => (false, { s with lockError := true })
  | some s =>
    match s.acquireReserved with
    | (false, s) => (false, { s.releaseWriter with lockError := true })
    | (true, s) => (true, { s.openJournal with isWriter := true })

/-- `pager_begin_transaction`. -/
def pagerBeginTransaction (s : Pager B) : Bool × Pager B :=
  if s.inTransaction then (true, s)
  else if s.writerSlot ≠ .free ∧ s.writerSlot ≠ .self then (false, { s with lockError := true })
  else if s.isMemory = false ∧ s.others.reserved = true then (false, { s with lockError := true })
  else
    let s := s.pagerRefreshIfModified
    (true, { s with
      inTransaction := true
      isWriter := false
      numPagesAtTxStart := s.numPages
      filePages := if s.isMemory then s.filePages else s.disk.main.length % fileLengthWrap
      txSnapshotXid := s.walLsn })

/-- `pager_shadow_page_write`: the first capture of a page copies its base. -/
def pagerShadowPageWrite (s : Pager B) (p : Nat) : Pager B :=
  if s.inTransaction = false then s
  else
    match s.pagerEnsureWriteLock with
    | (false, s) => s
    | (true, s) =>
      let s := { s with isDirty := insert p s.isDirty }
      match s.shadowPages.slot p with
      | some _ => s
      | none =>
        let s := if (s.pages.slot p).isSome then s else s.getPage p
        { s with shadowPages := s.shadowPages.set p ((s.pages.slot p).getD Page.zero) }

/-- Write one record at the journal descriptor's position, which is the descriptor's own: it stays
where it was when another descriptor truncates the file. -/
def journalWrite (s : Pager B) (pos : Nat) (e : JournalEntry B) : Pager B :=
  { (s.emit (.writeJournal pos e)) with journalPos := some (pos + 1) }

/-- The image `pager_journal_page` saves: the shadow copy, else the cache entry, else the file. -/
def preImage (s : Pager B) (p : Nat) : Page B :=
  (s.flushBuf p).getD (if p < s.filePages then s.mainPage p else Page.zero)

/-- `pager_journal_page`. Once a savepoint is open every call appends a record. -/
def pagerJournalPage (s : Pager B) (p : Nat) : Pager B :=
  let s := s.pagerShadowPageWrite p
  if s.inTransaction = false then s
  else
    match s.journalPos with
    | none => s
    | some pos =>
      if s.savepoints = [] ∧ p ∈ s.pageIsJournaled then s
      else
        { (s.journalWrite pos (p, s.preImage p)) with
          pageIsJournaled := insert p s.pageIsJournaled }

/-! ## The allocator -/

/-- The free list has a page to give. -/
def Pops (s : Pager B) : Prop :=
  s.freelistHead ≠ 0 ∧ s.freelistHead ≠ invalidPageNum ∧ s.reservedCatalogPages ≤ s.freelistHead

instance (s : Pager B) : Decidable s.Pops := inferInstanceAs (Decidable (_ ∧ _ ∧ _))

/-- `get_unused_page_num`: the head of the free list, else the page after the last one. -/
def getUnusedPageNum (s : Pager B) : Nat × Pager B :=
  if s.Pops then
    let reused := s.freelistHead
    let s := s.getPage reused
    let next := PageBody.link (s.deref reused).body
    let s := { s with freelistHead := next }
    let s := s.store reused Page.zero
    (reused, s.modify 0 fun p0 => p0.setFreelistHead next)
  else (max s.numPages s.reservedCatalogPages, s)

/-- `pager_free_page`. -/
def pagerFreePage (s : Pager B) (p : Nat) : Pager B :=
  if p < s.reservedCatalogPages ∨ p = 0 ∨ p = invalidPageNum then s
  else
    let s := s.modify p fun _ => { (Page.zero : Page B) with body := PageBody.ofLink s.freelistHead }
    let s := { s with freelistHead := p }
    s.modify 0 fun p0 => p0.setFreelistHead p

/-! ## Commit and rollback -/

/-- Whether the transaction shadowed or dirtied a page. -/
def hasWrites (s : Pager B) : Bool := s.shadowPages.any || decide (s.isDirty ≠ ∅)

/-- The end of a transaction that both ways of committing and the rollback share. -/
def endTransaction (s : Pager B) : Pager B :=
  pagerUnlock { s.releaseWriter with
    pageIsJournaled := ∅
    isDirty := ∅
    txSnapshotXid := 0
    isExplicitTx := false
    isWriter := false
    inTransaction := false }

/-- Close the journal descriptor and unlink the journal. -/
def dropJournal (s : Pager B) : Pager B :=
  { (s.emit .unlinkJournal) with journalPos := none }

/-- The flush loop of `pager_commit`. -/
def flushDirty (s : Pager B) : Pager B :=
  (List.range s.numPages).foldl
    (fun s i =>
      if (s.pages.slot i).isSome ∧ (i ∈ s.isDirty ∨ (s.shadowPages.slot i).isSome) then s.pagerFlush i
      else s) s

/-- The pointer swap of `pager_commit`: every shadow copy becomes the base page. -/
def swapShadows (s : Pager B) : Pager B :=
  { s with
    pages :=
      { cap := max s.pages.cap s.shadowPages.cap
        slot := fun i => (s.shadowPages.slot i).orElse fun _ => s.pages.slot i
        bound := fun i hi => by
          simp [s.pages.bound i (by omega), s.shadowPages.bound i (by omega)] }
    shadowPages := Slots.empty }

/-- The new commit LSN, on page 0 too, which is dirty from here on. -/
def stamp (s : Pager B) : Pager B :=
  let s := { s with
    walLsn := s.walLsn + 1, currentCommitTs := s.clock, currentCommitLsn := s.walLsn + 1 }
  let s := s.modify 0 fun p0 => p0.setLsn s.walLsn
  { s with isDirty := insert 0 s.isDirty }

/-- The rest of `pager_commit`: flush, swap the pointers, drop the journal. -/
def publish (s : Pager B) : Pager B :=
  endTransaction (swapShadows { s.flushDirty with currentCommitTs := 0, currentCommitLsn := 0 }).dropJournal

/-- `pager_commit`. -/
def pagerCommit (s : Pager B) : Option (Pager B) :=
  if s.inTransaction = false then some s
  else if s.hasWrites = false then
    some (endTransaction (if s.journalPos.isSome then s.dropJournal else s))
  else
    match if s.useWal then (true, s) else s.pagerLock .exclusive with
    | (false, _) => none
    | (true, s) => some s.stamp.publish

/-- One record of the rollback replay: over the cache entry if there is one, and into the main file. -/
def replayEntry (s : Pager B) (e : JournalEntry B) : Pager B :=
  { (s.emit (.writeMain e.1 e.2)) with pages := s.pages.overwrite e.1 e.2 }

/-- The replay of `pager_rollback`, oldest record first, and the unlink. -/
def replayJournal (s : Pager B) : Pager B :=
  match s.disk.journal with
  | none => s
  | some j => (j.foldl replayEntry s).emit .unlinkJournal

/-- Cut the cache and the file back to `n` pages. -/
def cutPages (s : Pager B) (n : Nat) : Pager B :=
  let s := { s with
    pages := s.pages.clearRange n s.numPages, numPages := n, filePages := n % fileLengthWrap }
  if s.isMemory then s else s.emit (.truncateMain (n % fileLengthWrap))

/-- `pager_rollback`. -/
def pagerRollback (s : Pager B) : Option (Pager B) :=
  if s.inTransaction = false then some s
  else
    let r := s.pagerLock .exclusive
    if r.1 = false then none
    else
      let s := { r.2 with shadowPages := Slots.empty, journalPos := none }
      let s := s.replayJournal
      let s : Pager B := { s with pageIsJournaled := ∅, isDirty := ∅ }
      let s := if 0 < s.numPagesAtTxStart ∧ s.numPagesAtTxStart < s.numPages then
        s.cutPages s.numPagesAtTxStart else s
      some (endTransaction { s with savepoints := [] })

/-! ## Savepoints -/

/-- The journal's length in records; the file is missing only in memory mode. -/
def journalLength (s : Pager B) : Nat := (s.disk.journal.getD []).length

/-- `pager_savepoint`. Measuring the journal moves the descriptor to its end. -/
def pagerSavepoint (s : Pager B) (name : SavepointName) : Pager B :=
  let s := if s.inTransaction then s else s.pagerBeginTransaction.2
  if 16 ≤ s.savepoints.length then s
  else
    match s.journalPos with
    | none => { s with savepoints := ⟨name, 0, s.numPages⟩ :: s.savepoints }
    | some _ =>
      { s with
        journalPos := some s.journalLength
        savepoints := ⟨name, s.journalLength, s.numPages⟩ :: s.savepoints }

/-- The savepoints from the newest one called `name` on, `[]` when there is none. -/
def findSavepoint (s : Pager B) (name : SavepointName) : List Savepoint :=
  s.savepoints.dropWhile fun sp => sp.name ≠ name

/-- One record of the savepoint replay: the shadow copy is restored as well. -/
def replayEntryShadow (s : Pager B) (e : JournalEntry B) : Pager B :=
  { (s.replayEntry e) with shadowPages := s.shadowPages.overwrite e.1 e.2 }

/-- The replay of `pager_rollback_to_savepoint`, newest record first down to `target`, and the
truncation of the journal. -/
def replayTo (s : Pager B) (target : Nat) : Pager B :=
  match s.disk.journal with
  | none => s
  | some j =>
    if target < j.length then
      ((j.drop target).reverse.foldl replayEntryShadow s).emit (.truncateJournal target)
    else s

/-- `pager_rollback_to_savepoint`. -/
def pagerRollbackToSavepoint (s : Pager B) (name : SavepointName) : Pager B :=
  if s.inTransaction = false then s
  else
    match s.findSavepoint name with
    | [] => s
    | sp :: rest =>
      let s := s.replayTo sp.journalOffset
      let target := sp.numPagesAtSavepoint
      let s := if 0 < target ∧ target < s.numPages then
        { (s.cutPages target) with shadowPages := s.shadowPages.clearRange target s.numPages }
        else { s with numPages := target }
      { s with savepoints := sp :: rest }

/-- `pager_release_savepoint`. -/
def pagerReleaseSavepoint (s : Pager B) (name : SavepointName) : Pager B :=
  if s.inTransaction = false then s
  else
    match s.findSavepoint name with
    | [] => s
    | _ :: rest => { s with savepoints := rest }

/-! ## Opening a database -/

/-- The replay of `check_and_recover_journal` over the main file. -/
def recoverMain (main : List (Page B)) (j : List (JournalEntry B)) : List (Page B) :=
  BlockFile.writeAll Page.zero main j

/-- `check_and_recover_journal`: replay a non-empty journal that no live writer owns, and unlink it. -/
def checkAndRecoverJournal (d : Disk B) (others : ByteLocks) : Disk B :=
  match d.journal with
  | some (e :: j) =>
    if others.reserved ∨ others.pending then d
    else { d with main := recoverMain d.main (e :: j), journal := none }
  | _ => d

/-- The largest LSN of a WAL frame, 0 without one. -/
def maxFrameLsn (frames : List (Frame B)) : Nat := frames.foldl (fun m f => max m f.lsn) 0

/-- `pager_open` on a database file. The length and the LSN are read before the recovery. -/
def pagerOpen (d : Disk B) (others : ByteLocks) (writerSlot : WriterSlot) (clock : Nat) : Pager B where
  disk := checkAndRecoverJournal d others
  io := []
  others := others
  writerSlot := writerSlot
  clock := clock
  isMemory := false
  filePages := d.main.length % fileLengthWrap
  numPages := d.main.length % 2 ^ 32
  pages := Slots.empty
  inTransaction := false
  journalPos := none
  pageIsJournaled := ∅
  isDirty := ∅
  numPagesAtTxStart := 0
  lockState := .noLock
  useWal := d.wal.isSome
  walOpen := d.wal.isSome
  walLsn := max (if 1 ≤ d.main.length then (BlockFile.read Page.zero d.main 0).lsn else 0)
    (maxFrameLsn (d.wal.getD []))
  currentCommitTs := 0
  currentCommitLsn := 0
  savepoints := []
  reservedCatalogPages := 0
  freelistHead := 0
  shadowPages := Slots.empty
  isWriter := false
  txSnapshotXid := 0
  lockError := false
  isExplicitTx := false

/-- `pager_open(":memory:")`. -/
def pagerOpenMemory (clock : Nat) : Pager B :=
  { (pagerOpen ⟨[], none, none⟩ ByteLocks.none .free clock : Pager B) with
    isMemory := true
    journalPos := some 0
    reservedCatalogPages := 33 }

end Pager

end CustomDB
