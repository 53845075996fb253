import CustomDB.Lib.Doubling
import CustomDB.Lib.HeapArray

/-!
# The arrays of the pager

The page table, the flags beside it and the shadow table, with the capacities they have been allocated with. `none` is
an access out of bounds, a read of an entry that was never written, or a loop that did not end in `fuel` turns.
-/

namespace CustomDB

open Lib

/-- The arrays, and what their accesses depend on. -/
structure PagerArrays (α : Type) where
  maxPages : BitVec 32
  pages : HeapArray (Option α)
  pageIsJournaled : Option (HeapArray Bool)
  isDirty : Option (HeapArray Bool)
  shadowPages : HeapArray (Option α)
  isShadowed : Option (HeapArray Bool)
  shadowCapacity : BitVec 32
  numPages : BitVec 32
  numPagesAtTxStart : BitVec 32
  numSavepoints : Nat
  inTransaction : Bool
  /-- `pthread_equal(pager->writer_tid, pthread_self())`. -/
  isWriter : Bool
  isMemory : Bool
  useWal : Bool
  /-- `journal_fd != -1`. -/
  journalOpen : Bool

/-- What a call finds outside the arrays: the file, the locks, and what the pages of the file hold. -/
structure Outside (α : Type) where
  /-- The file is not as `pager_refresh_if_modified` left it. -/
  modified : Bool
  /-- There is a WAL file that is not empty. -/
  walFile : Bool
  filePages : BitVec 32
  /-- `lock_state < RESERVED_LOCK`. -/
  unreserved : Bool
  load : BitVec 32 → α
  /-- The page of zero bytes. -/
  blank : α

namespace PagerArrays

variable {α : Type}

/-- `pager_open`. -/
def opened (isMemory useWal : Bool) (numPages : BitVec 32) : Option (PagerArrays α) :=
  ((HeapArray.malloc 32).fill 0 32 none).map fun pages =>
    { maxPages := 32
      pages := pages
      pageIsJournaled := none
      isDirty := none
      shadowPages := .malloc 0
      isShadowed := none
      shadowCapacity := 0
      numPages := numPages
      numPagesAtTxStart := 0
      numSavepoints := 0
      inTransaction := false
      isWriter := false
      isMemory := isMemory
      useWal := useWal
      journalOpen := false }

/-! ## Single accesses -/

/-- `a && p < bound && a[p]`. -/
def flagAt (a : Option (HeapArray Bool)) (bound p : BitVec 32) : Option Bool :=
  match a with
  | none => some false
  | some a => if p < bound then a.get p.toNat else some false

/-- `if (a && p < bound) a[p] = x;`. -/
def markFlag (a : Option (HeapArray Bool)) (bound p : BitVec 32) (x : Bool) : Option (Option (HeapArray Bool)) :=
  match a with
  | none => some none
  | some a => if p < bound then (a.set p.toNat x).map some else some (some a)

/-- `p < max_pages ? pages[p] : NULL`. -/
def cached (s : PagerArrays α) (p : BitVec 32) : Option (Option α) :=
  if p < s.maxPages then s.pages.get p.toNat else some none

/-- A page that is cached gets the content `x`, or is freed. -/
def replaceCached (s : PagerArrays α) (p : BitVec 32) (x : Option α) : Option (PagerArrays α) := do
  let old ← s.cached p
  if old.isSome then
    let pages ← s.pages.set p.toNat x
    return { s with pages := pages }
  else return s

/-- The loops that free the pages from `start` on, below `stop`. -/
def dropPages (s : PagerArrays α) (start stop : BitVec 32) : Option (PagerArrays α) :=
  (List.range' start.toNat (stop.toNat - start.toNat)).foldlM (fun s i => s.replaceCached (BitVec.ofNat 32 i) none) s

/-- The flags of a transaction are freed. -/
def freeFlags (s : PagerArrays α) : PagerArrays α := { s with pageIsJournaled := none, isDirty := none }

/-! ## Reading a page -/

/-- `pager_refresh_if_modified`. -/
def refreshIfModified (out : Outside α) (s : PagerArrays α) : Option (PagerArrays α) :=
  if s.inTransaction ∨ s.isMemory then some s
  else
    let s := { s with useWal := s.useWal || out.walFile }
    if out.modified then (s.dropPages 0 s.maxPages).map fun s => { s with numPages := out.filePages } else some s

/-- The flags for `max` pages, where there are flags for `old`. -/
def regrow (old max : BitVec 32) (a : Option (HeapArray Bool)) : Option (Option (HeapArray Bool)) :=
  match a with
  | none => some none
  | some a => ((a.realloc (max + 1024).toNat).fill (old + 1024).toNat (max + 1024).toNat false).map some

/-- The resize of `get_page`. -/
def resize (fuel : Nat) (s : PagerArrays α) (p : BitVec 32) : Option (PagerArrays α) :=
  if p < s.maxPages then some s
  else do
    let max ← Doubling.grow p fuel s.maxPages
    let pages ← (s.pages.realloc max.toNat).fill s.maxPages.toNat max.toNat none
    let journaled ← regrow s.maxPages max (if s.inTransaction then s.pageIsJournaled else none)
    let dirty ← regrow s.maxPages max s.isDirty
    return { s with
      maxPages := max
      pages := pages
      pageIsJournaled := if s.inTransaction then journaled else s.pageIsJournaled
      isDirty := dirty }

/-- A page that is not cached is brought in. -/
def bringIn (out : Outside α) (s : PagerArrays α) (p : BitVec 32) : Option (PagerArrays α) := do
  let x ← s.pages.get p.toNat
  if x.isSome then return s
  else
    let pages ← s.pages.set p.toNat (some (out.load p))
    return { s with pages := pages, numPages := if s.numPages ≤ p then p + 1 else s.numPages }

/-- The pointer `get_page` returns. -/
def pointer (s : PagerArrays α) (p : BitVec 32) : Option (Option α) :=
  if s.inTransaction ∧ s.isWriter then
    (flagAt s.isShadowed s.shadowCapacity p).bind fun shadowed =>
      if shadowed then s.shadowPages.get p.toNat else s.pages.get p.toNat
  else s.pages.get p.toNat

/-- `get_page`, with the lock granted. -/
def getPage (out : Outside α) (fuel : Nat) (s : PagerArrays α) (p : BitVec 32) : Option (PagerArrays α × Option α) := do
  let s ← s.refreshIfModified out
  let s ← s.resize fuel p
  let s ← s.bringIn out p
  let x ← s.pointer p
  return (s, x)

/-! ## Writing a page -/

/-- `flush_buf`, and the buffer `pager_journal_page` saves. -/
def flushBuf (s : PagerArrays α) (p : BitVec 32) : Option (Option α) :=
  (flagAt s.isShadowed s.shadowCapacity p).bind fun shadowed =>
    if shadowed then s.shadowPages.get p.toNat else s.cached p

/-- `pager_flush`. -/
def pagerFlush (s : PagerArrays α) (p : BitVec 32) : Option (PagerArrays α) :=
  if s.isMemory then some s
  else (s.flushBuf p).bind fun buf =>
    if buf.isNone ∨ s.useWal then some s
    else (markFlag s.isDirty (s.maxPages + 1024) p false).map fun dirty => { s with isDirty := dirty }

/-- `pager_flush` of a page that is cached. -/
def flushCached (s : PagerArrays α) (p : BitVec 32) : Option (PagerArrays α) :=
  (s.pages.get p.toNat).bind fun x => if x.isSome then s.pagerFlush p else some s

/-- `pager_begin_transaction`. -/
def beginTransaction (out : Outside α) (s : PagerArrays α) : Option (PagerArrays α) :=
  if s.inTransaction then some s
  else (s.refreshIfModified out).map fun s =>
    { s with inTransaction := true, isWriter := false, numPagesAtTxStart := s.numPages }

/-- The first part of `pager_ensure_write_lock`: with the lock come the cached pages to the disk. -/
def reserve (out : Outside α) (s : PagerArrays α) : Option (PagerArrays α) :=
  if s.isMemory ∨ out.unreserved = false then some s
  else ((if s.useWal then [] else List.range s.maxPages.toNat).foldlM
    (fun (s : PagerArrays α) i => s.flushCached (BitVec.ofNat 32 i)) s).map fun s => { s with numPagesAtTxStart := s.numPages }

/-- `pager_ensure_write_lock`, with the lock granted. -/
def ensureWriteLock (out : Outside α) (s : PagerArrays α) : Option (PagerArrays α) :=
  (s.reserve out).map fun s =>
    { s with
      journalOpen := s.journalOpen || !s.isMemory
      pageIsJournaled := some (s.pageIsJournaled.getD (.calloc (s.maxPages + 1024).toNat false))
      isWriter := true }

/-- The shadow table gets room for page `p`; `page_num + 1024` wraps. -/
def growShadow (s : PagerArrays α) (p : BitVec 32) : Option (PagerArrays α) :=
  if p < s.shadowCapacity then some s
  else do
    let cap := p + 1024
    let shadowPages ← (s.shadowPages.realloc cap.toNat).fill s.shadowCapacity.toNat cap.toNat none
    let isShadowed ← ((s.isShadowed.getD (.malloc 0)).realloc cap.toNat).fill s.shadowCapacity.toNat cap.toNat false
    return { s with shadowPages := shadowPages, isShadowed := some isShadowed, shadowCapacity := cap }

/-- The copy of a page in the shadow table. -/
def putShadow (s : PagerArrays α) (p : BitVec 32) (x : Option α) (flag : Bool) : Option (PagerArrays α) := do
  let shadowPages ← s.shadowPages.set p.toNat x
  let flags ← s.isShadowed
  let isShadowed ← flags.set p.toNat flag
  return { s with shadowPages := shadowPages, isShadowed := some isShadowed }

/-- The page is brought in for its shadow. -/
def ensureCached (out : Outside α) (fuel : Nat) (s : PagerArrays α) (p : BitVec 32) : Option (PagerArrays α) :=
  (s.cached p).bind fun base => if base.isSome then some s else (s.getPage out fuel p).map Prod.fst

/-- `pager_shadow_page_write`. -/
def pagerShadowPageWrite (out : Outside α) (fuel : Nat) (s : PagerArrays α) (p : BitVec 32) : Option (PagerArrays α) :=
  if s.inTransaction = false then some s
  else do
    let s ← s.ensureWriteLock out
    let dirty ← markFlag (some (s.isDirty.getD (.calloc (s.maxPages + 1024).toNat false))) (s.maxPages + 1024) p true
    let s ← growShadow { s with isDirty := dirty } p
    let flags ← s.isShadowed
    let shadowed ← flags.get p.toNat
    if shadowed then return s
    else
      let s ← s.ensureCached out fuel p
      let base ← s.cached p
      s.putShadow p (some (base.getD out.blank)) true

/-- `pager_journal_page`. -/
def pagerJournalPage (out : Outside α) (fuel : Nat) (s : PagerArrays α) (p : BitVec 32) : Option (PagerArrays α) := do
  let s ← s.pagerShadowPageWrite out fuel p
  if s.inTransaction = false ∨ s.journalOpen = false then return s
  else
    let journaled ← flagAt s.pageIsJournaled (s.maxPages + 1024) p
    if s.numSavepoints = 0 ∧ journaled then return s
    else
      let _ ← s.flushBuf p
      let journaled ← markFlag s.pageIsJournaled (s.maxPages + 1024) p true
      return { s with pageIsJournaled := journaled }

/-! ## The end of a transaction -/

/-- A loop over flags that stops at the first one set. -/
def anyFlag (a : Option (HeapArray Bool)) (bound : BitVec 32) : Option Bool :=
  match a with
  | none => some false
  | some a => (List.range bound.toNat).foldlM (fun found i => if found then some true else a.get i) false

/-- `has_writes`. -/
def hasWrites (s : PagerArrays α) : Option Bool :=
  (anyFlag s.isShadowed s.shadowCapacity).bind fun shadowed =>
    if shadowed then some true else anyFlag s.isDirty (s.maxPages + 1024)

/-- The loop of `pager_commit` over the pages. -/
def flushWritten (s : PagerArrays α) (p : BitVec 32) : Option (PagerArrays α) := do
  let x ← s.cached p
  if x.isNone then return s
  else
    let dirty ← flagAt s.isDirty (s.maxPages + 1024) p
    let shadowed ← flagAt s.isShadowed s.shadowCapacity p
    if dirty || shadowed then s.pagerFlush p else return s

/-- The swap: a shadow takes the place of its page. -/
def swapIn (s : PagerArrays α) (p : BitVec 32) : Option (PagerArrays α) := do
  let shadowed ← flagAt s.isShadowed s.shadowCapacity p
  if shadowed then
    let _ ← s.pages.get p.toNat
    let x ← s.shadowPages.get p.toNat
    let pages ← s.pages.set p.toNat x
    putShadow { s with pages := pages } p none false
  else return s

/-- `pager_commit`. -/
def pagerCommit (out : Outside α) (fuel : Nat) (s : PagerArrays α) : Option (PagerArrays α) :=
  if s.inTransaction = false then some s
  else do
    let writes ← s.hasWrites
    if writes then
      let (s, _) ← s.getPage out fuel 0
      let dirty ← markFlag s.isDirty (s.maxPages + 1024) 0 true
      let s ← (List.range s.numPages.toNat).foldlM (fun s i => s.flushWritten (BitVec.ofNat 32 i)) { s with isDirty := dirty }
      let s ← (List.range s.shadowCapacity.toNat).foldlM (fun s i => s.swapIn (BitVec.ofNat 32 i)) s
      return { s.freeFlags with inTransaction := false, isWriter := false, journalOpen := false }
    else return { s.freeFlags with inTransaction := false, isWriter := false, journalOpen := false }

/-- A shadow that is thrown away. -/
def dropShadow (s : PagerArrays α) (p : BitVec 32) : Option (PagerArrays α) :=
  (flagAt s.isShadowed s.shadowCapacity p).bind fun shadowed => if shadowed then s.putShadow p none false else some s

/-- The pages of the transaction go. -/
def dropNewPages (s : PagerArrays α) : Option (PagerArrays α) :=
  if 0 < s.numPagesAtTxStart ∧ s.numPagesAtTxStart < s.numPages then
    (s.dropPages s.numPagesAtTxStart s.numPages).map fun s => { s with numPages := s.numPagesAtTxStart }
  else some s

/-- `pager_rollback`; `journal` is what the journal holds. -/
def pagerRollback (journal : List (BitVec 32 × α)) (s : PagerArrays α) : Option (PagerArrays α) :=
  if s.inTransaction = false then some s
  else do
    let s ← (List.range s.shadowCapacity.toNat).foldlM (fun s i => s.dropShadow (BitVec.ofNat 32 i)) s
    let s ← journal.foldlM (fun s e => s.replaceCached e.1 (some e.2)) s
    let s ← s.freeFlags.dropNewPages
    return { s with inTransaction := false, isWriter := false, journalOpen := false, numSavepoints := 0 }

/-! ## Savepoints -/

/-- `pager_savepoint`. -/
def pagerSavepoint (out : Outside α) (s : PagerArrays α) : Option (PagerArrays α) :=
  (s.beginTransaction out).map fun s => if 16 ≤ s.numSavepoints then s else { s with numSavepoints := s.numSavepoints + 1 }

/-- A page in the shadow table, where there is one. -/
def replaceShadow (s : PagerArrays α) (p : BitVec 32) (x : Option α) (free : Bool) : Option (PagerArrays α) :=
  if p < s.shadowCapacity then
    (s.shadowPages.get p.toNat).bind fun old =>
      if old.isNone then some s
      else (s.shadowPages.set p.toNat x).bind fun shadowPages =>
        match s.isShadowed with
        | none => some { s with shadowPages := shadowPages }
        | some flags =>
          if free then (flags.set p.toNat false).map fun flags => { s with shadowPages := shadowPages, isShadowed := some flags }
          else some { s with shadowPages := shadowPages }
  else some s

/-- `pager_rollback_to_savepoint`, to the savepoint `idx` with the pages there were. -/
def pagerRollbackToSavepoint (journal : List (BitVec 32 × α)) (idx : Nat) (target : BitVec 32) (s : PagerArrays α) :
    Option (PagerArrays α) :=
  if s.inTransaction = false then some s
  else do
    let s ← journal.foldlM (fun s e => (s.replaceCached e.1 (some e.2)).bind fun s => s.replaceShadow e.1 (some e.2) false) s
    let s ← (if 0 < target then List.range' target.toNat (s.numPages.toNat - target.toNat) else []).foldlM
      (fun s i => (s.replaceCached (BitVec.ofNat 32 i) none).bind fun s => s.replaceShadow (BitVec.ofNat 32 i) none true) s
    return { s with numPages := target, numSavepoints := idx + 1 }

/-- `pager_release_savepoint`. -/
def pagerReleaseSavepoint (idx : Nat) (s : PagerArrays α) : PagerArrays α :=
  if s.inTransaction then { s with numSavepoints := idx } else s

/-! ## WAL mode -/

/-- A frame that `pager_checkpoint` writes back. -/
def writeBack (s : PagerArrays α) (p : BitVec 32) (c : α) : Option (PagerArrays α) :=
  replaceCached { s with numPages := if s.numPages ≤ p then p + 1 else s.numPages } p (some c)

/-- `pager_checkpoint`, with the frames that match their checksums. -/
def pagerCheckpoint (frames : List (BitVec 32 × α)) (s : PagerArrays α) : Option (PagerArrays α) :=
  if s.useWal = false then some s
  else (frames.foldlM (fun (s : PagerArrays α) e => s.writeBack e.1 e.2) s).bind fun s => s.dropPages 0 s.numPages

/-- `pager_set_wal_mode`. -/
def pagerSetWalMode (enableWal : Bool) (frames : List (BitVec 32 × α)) (s : PagerArrays α) : Option (PagerArrays α) :=
  if enableWal then some { s with useWal := true }
  else (s.pagerCheckpoint frames).map fun s => { s with useWal := false }

end PagerArrays

/-! ## Runs -/

/-- A call of the pager. -/
inductive PagerCall (α : Type) where
  | refresh (out : Outside α)
  | getPage (out : Outside α) (p : BitVec 32)
  | flush (p : BitVec 32)
  | beginTransaction (out : Outside α)
  | ensureWriteLock (out : Outside α)
  | shadowPageWrite (out : Outside α) (p : BitVec 32)
  | journalPage (out : Outside α) (p : BitVec 32)
  | commit (out : Outside α)
  | rollback (journal : List (BitVec 32 × α))
  | savepoint (out : Outside α)
  | rollbackToSavepoint (journal : List (BitVec 32 × α)) (idx : Nat) (target : BitVec 32)
  | releaseSavepoint (idx : Nat)
  | checkpoint (frames : List (BitVec 32 × α))
  | setWalMode (enableWal : Bool) (frames : List (BitVec 32 × α))

namespace PagerArrays

variable {α : Type}

/-- One call. The callers of `pager_ensure_write_lock` have begun a transaction. -/
def call (fuel : Nat) (s : PagerArrays α) : PagerCall α → Option (PagerArrays α)
  | .refresh out => s.refreshIfModified out
  | .getPage out p => (s.getPage out fuel p).map Prod.fst
  | .flush p => s.pagerFlush p
  | .beginTransaction out => s.beginTransaction out
  | .ensureWriteLock out => if s.inTransaction then s.ensureWriteLock out else none
  | .shadowPageWrite out p => s.pagerShadowPageWrite out fuel p
  | .journalPage out p => s.pagerJournalPage out fuel p
  | .commit out => s.pagerCommit out fuel
  | .rollback journal => s.pagerRollback journal
  | .savepoint out => s.pagerSavepoint out
  | .rollbackToSavepoint journal idx target => s.pagerRollbackToSavepoint journal idx target
  | .releaseSavepoint idx => some (s.pagerReleaseSavepoint idx)
  | .checkpoint frames => s.pagerCheckpoint frames
  | .setWalMode enableWal frames => s.pagerSetWalMode enableWal frames

/-- The states of a pager: it is opened, and its calls return. -/
inductive Reachable : PagerArrays α → Prop
  | opened {isMemory useWal : Bool} {numPages : BitVec 32} {s : PagerArrays α} (h : opened isMemory useWal numPages = some s) :
      Reachable s
  | call {fuel : Nat} {s s' : PagerArrays α} {c : PagerCall α} (hs : Reachable s) (h : s.call fuel c = some s') : Reachable s'

/-! ## In bounds -/

/-- Each array has the capacity its users index it with: the page table `max_pages`, the flags `max_pages + 1024`. -/
structure InBounds (s : PagerArrays α) : Prop where
  pages : s.maxPages.toNat ≤ s.pages.cap
  journaled : ∀ a, s.pageIsJournaled = some a → (s.maxPages + 1024).toNat ≤ a.cap
  dirty : ∀ a, s.isDirty = some a → (s.maxPages + 1024).toNat ≤ a.cap

/-- The flags there were are there. -/
def SameFlags (n : Nat) (a a' : Option (HeapArray Bool)) : Prop :=
  ∀ f, a = some f → ∃ f', a' = some f' ∧ ∀ i, i < n → f'.get i = f.get i

/-- The old entries: every flag, every page, and of page `p` the content if it was cached. -/
structure Preserves (s s' : PagerArrays α) (p : BitVec 32) : Prop where
  pages : ∀ i, i < s.maxPages.toNat → i ≠ p.toNat → s'.pages.get i = s.pages.get i
  page : ∀ x, s.pages.get p.toNat = some (some x) → s'.pages.get p.toNat = some (some x)
  journaled : SameFlags (s.maxPages + 1024).toNat s.pageIsJournaled s'.pageIsJournaled
  dirty : SameFlags (s.maxPages + 1024).toNat s.isDirty s'.isDirty

/-- `get_page` comes back in bounds with room for the page, and has kept the old entries that the refresh left. -/
def GetsPage (out : Outside α) (s : PagerArrays α) (p : BitVec 32) : Prop :=
  ∃ fuel r s' x, s.refreshIfModified out = some r ∧ s.getPage out fuel p = some (s', x) ∧ p < s'.maxPages ∧
    s'.InBounds ∧ r.Preserves s' p

end PagerArrays

end CustomDB
