import CustomDB.Pager.WalCrash

/-!
# BACKUP

`pager_backup` takes the EXCLUSIVE lock, writes cached pages out, copies the main file and the WAL, and drops
every lock it finds. The copy is compared with the last committed state, and the pager with what it was before.
-/

namespace CustomDB

open Lib

namespace Pager

variable {B : Type} [PageBody B] {s s' t t' : Pager B}

/-! ## The operation -/

/-- Whether the loops of `pager_backup` flush page `p`: with the array of dirty flags allocated the dirty pages
go out, without it every cached page does in rollback mode and none in WAL mode. -/
def WritesOut (dirtyArray : Bool) (s : Pager B) (p : Nat) : Prop :=
  (s.pages.slot p).isSome = true ∧ if dirtyArray then p ∈ s.isDirty else s.useWal = false

instance (dirtyArray : Bool) (s : Pager B) (p : Nat) : Decidable (s.WritesOut dirtyArray p) := by
  unfold WritesOut
  infer_instance

/-- Step 2 of `pager_backup`. -/
def backupFlush (dirtyArray : Bool) (s : Pager B) : Pager B :=
  (List.range s.numPages).foldl (fun s i => if s.WritesOut dirtyArray i then s.pagerFlush i else s) s

/-- The files under the destination's name: the main file and the WAL, if it is open; no journal. -/
def copyFiles (s : Pager B) : Disk B := ⟨s.disk.main, none, if s.useWal && s.walOpen then s.disk.wal else none⟩

/-- `pager_backup`: the files it wrote, if it got that far, and the pager afterwards. A lock that is refused
to the end leaves the rungs taken; `dirtyArray` is `is_dirty != NULL`. -/
def pagerBackup (dirtyArray : Bool) (s : Pager B) : Option (Disk B) × Pager B :=
  if s.isMemory then (none, s)
  else
    let r := s.pagerLock .exclusive
    if r.1 then
      let s := r.2.backupFlush dirtyArray
      (some s.copyFiles, s.pagerUnlock)
    else (none, r.2)

/-! ## What a backup has to do -/

/-- The locks another process finds on the file. -/
def seenLocks (s : Pager B) : ByteLocks where
  sharedRead := s.others.sharedRead || s.lockState == .shared || s.lockState == .reserved || s.lockState == .pending
  sharedWrite := s.others.sharedWrite || s.lockState == .exclusive
  reserved := s.others.reserved || decide (PagerLockState.reserved.level ≤ s.lockState.level)
  pending := s.others.pending || decide (PagerLockState.pending.level ≤ s.lockState.level)

/-- Page `p` of the last committed state: what a pager of another process finds that opens the files now. The
journal of a live writer is not replayed, and a shadow copy has not reached the files. -/
def lastCommitted (s : Pager B) (p : Nat) : Page B :=
  found (noJournal (checkAndRecoverJournal s.disk s.seenLocks)) p

/-- The same transaction, cache, journal and locks. The files, the dirty flags and the LSN may differ. -/
structure SameTransaction (s t : Pager B) : Prop where
  inTx : t.inTransaction = s.inTransaction
  writer : t.isWriter = s.isWriter
  isExplicit : t.isExplicitTx = s.isExplicitTx
  snapshot : t.txSnapshotXid = s.txSnapshotXid
  slot : t.writerSlot = s.writerSlot
  lock : t.lockState = s.lockState
  numPages : t.numPages = s.numPages
  start : t.numPagesAtTxStart = s.numPagesAtTxStart
  cache : ∀ p, t.pages.slot p = s.pages.slot p
  shadow : ∀ p, t.shadowPages.slot p = s.shadowPages.slot p
  savepoints : t.savepoints = s.savepoints
  journal : t.disk.journal = s.disk.journal
  pos : t.journalPos = s.journalPos
  journaled : t.pageIsJournaled = s.pageIsJournaled

/-- ROLLBACK does the same to both: the same connection afterwards, and the same content of the files on the
pages that it does not cut off. -/
def SameRollback (s t : Pager B) : Prop :=
  Option.Rel (fun s' t' => SameTransaction s' t' ∧
    ∀ p, (s.inTransaction = true → s.Grew → p < s.numPagesAtTxStart) → SameBytes p (found t'.disk p) (found s'.disk p))
    s.pagerRollback t.pagerRollback

/-- BACKUP as it is meant: whoever opens the copy reads the last committed state, page by page, and the
connection goes on as if nothing had happened. -/
structure BackupFaithful (dirtyArray : Bool) (s : Pager B) : Prop where
  copy : ∀ d, (s.pagerBackup dirtyArray).1 = some d → ∀ clock ps p,
    SameBytes p (reopened d clock ps p) (s.lastCommitted p)
  transaction : SameTransaction s (s.pagerBackup dirtyArray).2
  rollback : SameRollback s (s.pagerBackup dirtyArray).2

/-! ## When it does -/

/-- The first lock `pager_lock` takes on its way to EXCLUSIVE from the state given is refused. -/
def rungBlocked (o : ByteLocks) : PagerLockState → Bool
  | .noLock => o.pending || o.sharedWrite
  | .shared => o.reserved
  | .reserved => o.pending
  | .pending => o.sharedRead || o.sharedWrite
  | .exclusive => false

/-- The pages that go out first. -/
def outPages (dirtyArray : Bool) (s : Pager B) : List Nat :=
  (List.range s.numPages).filter fun p => s.WritesOut dirtyArray p

/-- The files as a copy has them where no page went out; the flush of a page opens the WAL. -/
def plainFiles (dirtyArray : Bool) (s : Pager B) : Disk B :=
  ⟨s.disk.main, none, if s.useWal && (s.walOpen || !(s.outPages dirtyArray).isEmpty) then s.disk.wal else none⟩

/-- The connection holds no lock and gets them all, what it writes out first is committed already, and so is
the rest of the files: no journal of a crashed writer waits to undo it. -/
structure BackupReady (dirtyArray : Bool) (s : Pager B) : Prop where
  unlocked : s.lockState = .noLock
  alone : s.others = ByteLocks.none
  written : ∀ p ∈ s.outPages dirtyArray, ∀ x, s.flushBuf p = some x → SameBytes p x (s.lastCommitted p)
  rest : ∀ p, p ∉ s.outPages dirtyArray → SameBytes p (found (s.plainFiles dirtyArray) p) (s.lastCommitted p)

/-- The files count below 4 GiB, as `file_length` has to: what the main file has, what the pager has, and what
the journal restores. -/
structure FitsLength (s : Pager B) : Prop where
  main : s.disk.main.length < fileLengthWrap
  pages : s.numPages < fileLengthWrap
  journal : ∀ e ∈ records s.disk, e.1 + 1 < fileLengthWrap

/-! ## The lock -/

/-- Where a request for EXCLUSIVE ends that starts with the lock state given, and whether it is granted. -/
def ladder (o : ByteLocks) : PagerLockState → Bool × PagerLockState
  | .noLock =>
    if o.pending || o.sharedWrite then (false, .noLock)
    else if o.reserved then (false, .shared)
    else if o.sharedRead then (false, .pending) else (true, .exclusive)
  | .shared =>
    if o.reserved then (false, .shared)
    else if o.pending then (false, .reserved)
    else if o.sharedRead || o.sharedWrite then (false, .pending) else (true, .exclusive)
  | .reserved =>
    if o.pending then (false, .reserved)
    else if o.sharedRead || o.sharedWrite then (false, .pending) else (true, .exclusive)
  | .pending => if o.sharedRead || o.sharedWrite then (false, .pending) else (true, .exclusive)
  | .exclusive => (true, .exclusive)

omit [PageBody B] in
theorem pagerLock_ladder (hm : s.isMemory = false) : s.pagerLock .exclusive =
    ((ladder s.others s.lockState).1, { s with lockState := (ladder s.others s.lockState).2 }) := by
  have key : ∀ o l, ({ s with others := o, lockState := l, isMemory := false } : Pager B).pagerLock .exclusive =
      ((ladder o l).1, { s with others := o, lockState := (ladder o l).2, isMemory := false }) := by
    rintro ⟨sharedRead, sharedWrite, reserved, pending⟩ l
    cases l <;> cases sharedRead <;> cases sharedWrite <;> cases reserved <;> cases pending <;> rfl
  have hs : ({ s with others := s.others, lockState := s.lockState, isMemory := false } : Pager B) = s := by
    rw [← hm]
  rw [← hs, key, hs, ← hm]

theorem rungBlocked_iff (o : ByteLocks) (l : PagerLockState) : rungBlocked o l = true ↔ ladder o l = (false, l) := by
  obtain ⟨sharedRead, sharedWrite, reserved, pending⟩ := o
  revert sharedRead sharedWrite reserved pending
  cases l <;> decide

theorem ladder_granted (o : ByteLocks) (h : (ladder o .noLock).1 = true) : o = ByteLocks.none := by
  obtain ⟨sharedRead, sharedWrite, reserved, pending⟩ := o
  revert sharedRead sharedWrite reserved pending
  decide

/-! ## What goes out -/

theorem backupFlush_eq (dirtyArray : Bool) (s : Pager B) :
    s.backupFlush dirtyArray = (s.outPages dirtyArray).foldl pagerFlush s := by
  have huse : ∀ (s : Pager B) i, (s.pagerFlush i).useWal = s.useWal := by
    intro s i
    unfold pagerFlush
    split
    · rfl
    · split
      · rfl
      · split <;> rfl
  have h := foldl_ite_eq_filter (fun (s : Pager B) i => s.WritesOut dirtyArray i) pagerFlush (fun s i j hj => by
      unfold WritesOut
      rw [(pagerFlush_pages s i).1, pagerFlush_isDirty s i hj, huse])
    (List.range s.numPages) List.nodup_range s
  rw [backupFlush, h]
  rfl

omit [PageBody B] in
theorem mem_outPages {dirtyArray : Bool} {p : Nat} :
    p ∈ s.outPages dirtyArray ↔ p < s.numPages ∧ s.WritesOut dirtyArray p := by
  simp [outPages]

omit [PageBody B] in
theorem outPages_buf {dirtyArray : Bool} {p : Nat} (h : p ∈ s.outPages dirtyArray) : ∃ x, s.flushBuf p = some x := by
  obtain ⟨x, hx⟩ := Option.isSome_iff_exists.mp (mem_outPages.mp h).2.1
  unfold flushBuf
  cases hsh : s.shadowPages.slot p with
  | none => exact ⟨x, hx⟩
  | some y => exact ⟨y, rfl⟩

/-- Step 2 of `pager_backup` in WAL mode: a page that goes out has its buffer as the newest frame, any other page
keeps the frame it had. -/
theorem foldl_flush_frames (hm : s.isMemory = false) (hw : s.useWal = true) (l : List Nat)
    (hbuf : ∀ p ∈ l, ∃ x, s.flushBuf p = some x) :
    ∃ w io o n, l.foldl pagerFlush s = { s with
      disk := { s.disk with wal := w }, io := io, walOpen := o, walLsn := n } ∧
    (∀ p, (newestFrame (w.getD []) p).map Frame.data =
      if p ∈ l then s.flushBuf p else (newestFrame (s.disk.wal.getD []) p).map Frame.data) ∧
    (o = true ↔ s.walOpen = true ∨ l ≠ []) ∧ (l = [] → w = s.disk.wal) := by
  induction l generalizing s with
  | nil => exact ⟨s.disk.wal, s.io, s.walOpen, s.walLsn, rfl, fun p => by simp, by simp, fun _ => rfl⟩
  | cons i l ih =>
    obtain ⟨x, hx⟩ := hbuf i (List.mem_cons_self ..)
    have hstep : s.pagerFlush i = s.appendFrame i x := by
      rw [pagerFlush, if_neg (by simp [hm]), hx]
      exact if_pos hw
    obtain ⟨w, io, o, n, he, hframe, ho, -⟩ := ih (s := s.appendFrame i x) hm hw
      fun p hp => hbuf p (List.mem_cons_of_mem _ hp)
    refine ⟨w, io, o, n, ?_, fun p => ?_, ?_, fun h => absurd h (List.cons_ne_nil _ _)⟩
    · rw [List.foldl_cons, hstep, he]
      rfl
    · have hone : (newestFrame ((s.appendFrame i x).disk.wal.getD []) p).map Frame.data =
          if p = i then some x else (newestFrame (s.disk.wal.getD []) p).map Frame.data := by
        show (newestFrame (s.disk.wal.getD [] ++ [_]) p).map Frame.data = _
        rw [newestFrame_append]
        by_cases hp : p = i
        · subst hp
          simp [newestFrame]
        · rw [if_neg hp]
          simp [newestFrame, Ne.symm hp]
      rw [hframe p, hone]
      by_cases hp : p ∈ l
      · rw [if_pos hp, if_pos (List.mem_cons_of_mem _ hp)]
        rfl
      · rw [if_neg hp]
        by_cases hi : p = i
        · rw [if_pos hi, if_pos (hi ▸ List.mem_cons_self ..), hi, hx]
        · rw [if_neg hi, if_neg (by simp [hi, hp])]
    · rw [ho]
      exact ⟨fun _ => Or.inr (List.cons_ne_nil _ _), fun _ => Or.inl rfl⟩

/-- Below the wrap of `file_length` the main file reads as it is. -/
theorem recoveredPage_eq {d : Disk B} (h : (recoverMain d.main (records d)).length < fileLengthWrap) (p : Nat) :
    recoveredPage d p = BlockFile.read Page.zero (recoverMain d.main (records d)) p := by
  unfold recoveredPage
  rw [Nat.mod_eq_of_lt h]
  split
  · rfl
  · exact (BlockFile.read_eq_filler _ _ (by omega)).symm

theorem recoveredPage_plain {main : List (Page B)} (h : main.length < fileLengthWrap) (w : Option (List (Frame B)))
    (p : Nat) : recoveredPage ⟨main, none, w⟩ p = BlockFile.read Page.zero main p :=
  recoveredPage_eq (d := ⟨main, none, w⟩) h p

theorem FitsLength.recovered (h : FitsLength s) : (recoverMain s.disk.main (records s.disk)).length < fileLengthWrap := by
  have hle := BlockFile.length_writeAll_le Page.zero s.disk.main (records s.disk) (fileLengthWrap - 1) fun e he => by
    have := h.journal e he
    omega
  have hmain := h.main
  unfold recoverMain
  omega

/-- The pages `l` of `s` went out and led to `t`. -/
structure WentOut (l : List Nat) (s t : Pager B) : Prop where
  same : ∃ m w io fp d o n, t = { s with
    disk := { s.disk with main := m, wal := w }, io := io, filePages := fp, isDirty := d, walOpen := o, walLsn := n }
  fits : FitsLength t
  /-- A page that went out reads as its buffer in a copy, any other as the copied files have it. -/
  copy : ∀ p, found t.copyFiles p = if p ∈ l then (s.flushBuf p).getD Page.zero else
    found ⟨s.disk.main, none, if s.useWal && (s.walOpen || !l.isEmpty) then s.disk.wal else none⟩ p
  files : ∀ p, found t.disk p = found s.disk p ∨ p ∈ l ∧ s.flushBuf p = some (found t.disk p)

/-- In WAL mode the pages go to frames. -/
theorem wentOut_wal (hm : s.isMemory = false) (hf : FitsLength s) (hw : s.useWal = true) {l : List Nat}
    (hbuf : ∀ p ∈ l, ∃ x, s.flushBuf p = some x) : WentOut l s (l.foldl pagerFlush s) := by
  obtain ⟨w, io, o, n, he, hframe, ho, hnil⟩ := foldl_flush_frames hm hw l hbuf
  rw [he]
  refine ⟨⟨_, _, _, _, _, _, _, rfl⟩, ⟨hf.main, hf.pages, hf.journal⟩, fun p => ?_, fun p => ?_⟩
  · unfold copyFiles found
    dsimp only
    rw [hw, Bool.true_and, Bool.true_and]
    by_cases hopen : s.walOpen = true ∨ l ≠ []
    · have hcopied : (s.walOpen || !l.isEmpty) = true := by simpa using hopen
      rw [ho.mpr hopen, hcopied, if_pos rfl, if_pos rfl, hframe p]
      split
      · next hp =>
        obtain ⟨x, hx⟩ := hbuf p hp
        rw [hx]
        rfl
      · rfl
    · push Not at hopen
      have hshut : o = false := by
        rw [← Bool.not_eq_true, ho]
        simp [hopen.1, hopen.2]
      rw [hshut, hopen.2, if_neg List.not_mem_nil, List.isEmpty_nil, Bool.eq_false_iff.mpr hopen.1]
      rfl
  · by_cases hp : p ∈ l
    · obtain ⟨x, hx⟩ := hbuf p hp
      right
      refine ⟨hp, ?_⟩
      unfold found
      dsimp only
      rw [hframe p, if_pos hp, hx]
      rfl
    · left
      unfold found
      dsimp only
      rw [hframe p, if_neg hp]
      rfl

/-- Otherwise they go to the main file. -/
theorem wentOut_main (hm : s.isMemory = false) (hf : FitsLength s) (hw : s.useWal = false) {l : List Nat}
    (hlt : ∀ p ∈ l, p < s.numPages) (hbuf : ∀ p ∈ l, ∃ x, s.flushBuf p = some x) :
    WentOut l s (l.foldl pagerFlush s) := by
  obtain ⟨fp, d, he⟩ := foldl_flush hm hw l
  rw [he]
  have hlen : (BlockFile.writeAll Page.zero s.disk.main (s.flushed l)).length < fileLengthWrap := by
    have hle := BlockFile.length_writeAll_le Page.zero s.disk.main (s.flushed l) s.numPages
      fun e he => hlt e.1 (mem_flushed he).1
    have h1 := hf.main
    have h2 := hf.pages
    omega
  have hfit : FitsLength ({ s with
      disk := { s.disk with main := BlockFile.writeAll Page.zero s.disk.main (s.flushed l) }
      io := s.io ++ (s.flushed l).map fun e => .writeMain e.1 e.2
      filePages := fp
      isDirty := d } : Pager B) := ⟨hlen, hf.pages, hf.journal⟩
  refine ⟨⟨_, _, _, _, _, _, _, rfl⟩, hfit, fun p => ?_, fun p => ?_⟩
  · unfold copyFiles found
    dsimp only
    rw [hw, Bool.false_and, Bool.false_and, if_neg Bool.false_ne_true]
    show recoveredPage _ p = if p ∈ l then _ else recoveredPage _ p
    rw [recoveredPage_plain hlen, recoveredPage_plain hf.main]
    refine (read_flushed s l p).trans ?_
    split
    · next hp =>
      obtain ⟨x, hx⟩ := hbuf p hp
      rw [hx]
      rfl
    · rfl
  · unfold found
    dsimp only
    cases newestFrame (s.disk.wal.getD []) p with
    | some f => exact Or.inl rfl
    | none =>
      show recoveredPage _ p = recoveredPage _ p ∨ p ∈ l ∧ s.flushBuf p = some (recoveredPage _ p)
      rw [recoveredPage_eq hfit.recovered, recoveredPage_eq hf.recovered]
      have hread : ∀ m, BlockFile.read Page.zero (recoverMain m (records s.disk)) p =
          ((records s.disk).reverse.lookup p).getD (BlockFile.read Page.zero m p) :=
        fun m => BlockFile.read_writeAll _ _ _ _
      have hsame : BlockFile.read Page.zero (recoverMain (BlockFile.writeAll Page.zero s.disk.main (s.flushed l))
          (records s.disk)) p = BlockFile.read Page.zero (recoverMain s.disk.main (records s.disk)) p ∨
          p ∈ l ∧ s.flushBuf p = some (BlockFile.read Page.zero
            (recoverMain (BlockFile.writeAll Page.zero s.disk.main (s.flushed l)) (records s.disk)) p) := by
        rw [hread, hread]
        cases (records s.disk).reverse.lookup p with
        | some x => exact Or.inl rfl
        | none =>
          rw [Option.getD_none, Option.getD_none, read_flushed]
          by_cases hp : p ∈ l
          · obtain ⟨x, hx⟩ := hbuf p hp
            rw [if_pos hp, hx]
            exact Or.inr ⟨hp, rfl⟩
          · rw [if_neg hp]
            exact Or.inl rfl
      exact hsame

theorem foldl_flush_wentOut (hm : s.isMemory = false) (hf : FitsLength s) {l : List Nat} (hlt : ∀ p ∈ l, p < s.numPages)
    (hbuf : ∀ p ∈ l, ∃ x, s.flushBuf p = some x) : WentOut l s (l.foldl pagerFlush s) := by
  cases hw : s.useWal with
  | true => exact wentOut_wal hm hf hw hbuf
  | false => exact wentOut_main hm hf hw hlt hbuf

/-! ## The rollback afterwards -/

omit [PageBody B] in
theorem SameTransaction.refl (s : Pager B) : SameTransaction s s :=
  ⟨rfl, rfl, rfl, rfl, rfl, rfl, rfl, rfl, fun _ => rfl, fun _ => rfl, rfl, rfl, rfl, rfl⟩

theorem SameRollback.refl (s : Pager B) : SameRollback s s := by
  unfold SameRollback
  cases s.pagerRollback with
  | none => exact Option.Rel.none
  | some s' => exact Option.Rel.some ⟨SameTransaction.refl s', fun p _ => SameBytes.refl p _⟩

/-- On the pages that it does not cut off, a rollback leaves in the files what a recovery would have found. -/
theorem RolledBack.found (h : RolledBack s s') (hm : s.isMemory = false) (hf : FitsLength s) {p : Nat}
    (hp : s.Grew → p < s.numPagesAtTxStart) : found s'.disk p = Pager.found s.disk p := by
  obtain ⟨m, io, c, n, fp, w, e, he⟩ := h.same
  have hwal : s'.disk.wal = s.disk.wal := by rw [he]
  have hjournal : s'.disk.journal = none := by rw [he]
  have hrec : recoverMain s'.disk.main (records s'.disk) = s'.disk.main := by
    rw [records, hjournal]
    rfl
  unfold Pager.found
  rw [hwal]
  congr 1
  have hmain := h.main
  by_cases hg : s.Grew
  · rw [if_pos ⟨hg, hm⟩] at hmain
    have hn : s.numPagesAtTxStart < fileLengthWrap := lt_trans hg.2 hf.pages
    have hlen : (recoverMain s'.disk.main (records s'.disk)).length < fileLengthWrap := by
      rw [hrec, hmain, BlockFile.length_truncate, Nat.mod_eq_of_lt hn]
      exact hn
    rw [recoveredPage_eq hlen, recoveredPage_eq hf.recovered, hrec, hmain, BlockFile.read_truncate, Nat.mod_eq_of_lt hn,
      if_pos (hp hg)]
    rfl
  · rw [if_neg fun hc => hg hc.1] at hmain
    have hlen : (recoverMain s'.disk.main (records s'.disk)).length < fileLengthWrap := by
      rw [hrec, hmain]
      exact hf.recovered
    rw [recoveredPage_eq hlen, recoveredPage_eq hf.recovered, hrec, hmain]
    rfl

omit [PageBody B] in
/-- Both transactions end the same way. -/
theorem RolledBack.sameTransaction [PageBody B] (h : RolledBack s s') (h' : RolledBack t t') (hst : SameTransaction s t) :
    SameTransaction s' t' := by
  have hgrew : t.Grew ↔ s.Grew := by
    unfold Grew
    rw [hst.start, hst.numPages]
  have hrecs : t.journalRecords = s.journalRecords := by
    unfold journalRecords
    rw [hst.journal]
  obtain ⟨m, io, c, n, fp, w, e, he⟩ := h.same
  obtain ⟨m', io', c', n', fp', w', e', he'⟩ := h'.same
  refine ⟨by rw [he, he'], by rw [he, he'], by rw [he, he'], by rw [he, he'], ?_, by rw [he, he'], ?_, ?_, fun p => ?_,
    fun p => by rw [he, he'], by rw [he, he'], by rw [he, he'], by rw [he, he'], by rw [he, he']⟩
  · rw [h.writerSlot, h'.writerSlot, hst.slot]
  · rw [h.numPages, h'.numPages, hst.numPages, hst.start]
    simp only [hgrew]
  · rw [he, he']
    exact hst.start
  · rw [h.slot p, h'.slot p, hst.start, hst.numPages, hrecs, Slots.slot_overwriteAll, Slots.slot_overwriteAll, hst.cache p]
    simp only [hgrew]

theorem SameTransaction.rollback (h : SameTransaction s t) (hm : s.isMemory = false) (hm' : t.isMemory = false)
    (ho : t.others = s.others) (hf : FitsLength s) (hf' : FitsLength t)
    (hfiles : ∀ p, SameBytes p (found t.disk p) (found s.disk p)) : SameRollback s t := by
  unfold SameRollback
  by_cases htx : s.inTransaction = true
  · have htx' : t.inTransaction = true := h.inTx.trans htx
    have hlock : (t.pagerLock .exclusive).1 = (s.pagerLock .exclusive).1 := by
      rw [pagerLock_ladder hm, pagerLock_ladder hm', ho, h.lock]
    cases hr : s.pagerRollback with
    | none =>
      have hr' : t.pagerRollback = none := by
        unfold pagerRollback at hr ⊢
        rw [if_neg (by simp [htx])] at hr
        rw [if_neg (by simp [htx'])]
        dsimp only at hr ⊢
        split at hr
        · next hl => rw [if_pos (by rw [hlock, hl])]
        · cases hr
      rw [hr']
      exact Option.Rel.none
    | some s' =>
      obtain ⟨t', hr'⟩ : ∃ t', t.pagerRollback = some t' := by
        unfold pagerRollback at hr ⊢
        rw [if_neg (by simp [htx])] at hr
        rw [if_neg (by simp [htx'])]
        dsimp only at hr ⊢
        split at hr
        · cases hr
        · next hl => exact ⟨_, if_neg (by rwa [hlock])⟩
      have hrb := rollback_rolledBack htx hr
      have hrb' := rollback_rolledBack htx' hr'
      rw [hr']
      refine Option.Rel.some ⟨hrb.sameTransaction hrb' h, fun p hp => ?_⟩
      rw [hrb.found hm hf (hp htx), hrb'.found hm' hf' fun hg => ?_]
      · exact hfiles p
      · rw [h.start]
        refine hp htx ?_
        unfold Grew at hg ⊢
        rwa [h.start, h.numPages] at hg
  · have hs : s.pagerRollback = some s := if_pos (by simpa using htx)
    have ht : t.pagerRollback = some t := if_pos (by rw [h.inTx]; simpa using htx)
    rw [hs, ht]
    exact Option.Rel.some ⟨h, fun p _ => hfiles p⟩

/-! ## Exactly when -/

omit [PageBody B] in
theorem WentOut.sameTransaction [PageBody B] {l : List Nat} (h : WentOut l s t) : SameTransaction s t := by
  obtain ⟨m, w, io, fp, d, o, n, rfl⟩ := h.same
  exact ⟨rfl, rfl, rfl, rfl, rfl, rfl, rfl, rfl, fun _ => rfl, fun _ => rfl, rfl, rfl, rfl, rfl⟩

/-- With no lock of its own and none of others, the committed state is what the files recover to. -/
theorem lastCommitted_eq (hl : s.lockState = .noLock) (ho : s.others = ByteLocks.none) (p : Nat) :
    s.lastCommitted p = found s.disk p := by
  have hseen : s.seenLocks = ByteLocks.none := by
    unfold seenLocks
    rw [hl, ho]
    rfl
  have hmain := checkAndRecover_main s.disk
  have hwal : (checkAndRecoverJournal s.disk ByteLocks.none).wal = s.disk.wal := (pagerOpen_opened s.disk 0).wal
  unfold lastCommitted
  rw [hseen]
  unfold found noJournal recoveredPage
  rw [← hmain]
  dsimp only
  rw [hwal]
  rfl

/-- BACKUP, step by step, once the lock is granted. -/
theorem backup_granted (dirtyArray : Bool) (hm : s.isMemory = false) (hf : FitsLength s) (ho : s.others = ByteLocks.none)
    (hl : s.lockState = .noLock) : ∃ t, s.pagerBackup dirtyArray = (some t.copyFiles, t) ∧
      WentOut (s.outPages dirtyArray) s t := by
  have hlock : s.pagerLock .exclusive = (true, { s with lockState := .exclusive }) := by
    rw [pagerLock_ladder hm, hl, ho]
    rfl
  have hout : ({ s with lockState := .exclusive } : Pager B).outPages dirtyArray = s.outPages dirtyArray := rfl
  have hw := foldl_flush_wentOut (s := { s with lockState := .exclusive }) hm ⟨hf.main, hf.pages, hf.journal⟩
    (l := outPages dirtyArray _) (fun p hp => (mem_outPages.mp hp).1) fun p hp => outPages_buf hp
  rw [← backupFlush_eq, hout] at hw
  refine ⟨pagerUnlock (backupFlush dirtyArray { s with lockState := .exclusive }), ?_, ?_⟩
  · unfold pagerBackup
    rw [if_neg (by simp [hm]), hlock]
    rfl
  · obtain ⟨m, w, io, fp, d, o, n, he⟩ := hw.same
    refine ⟨⟨m, w, io, fp, d, o, n, ?_⟩, ⟨hw.fits.main, hw.fits.pages, hw.fits.journal⟩, hw.copy, hw.files⟩
    rw [he]
    unfold pagerUnlock
    dsimp only
    rw [← hl]

/-- BACKUP does what it is meant to do exactly when the database is in memory and it refuses, when its first lock
is refused, or when the connection holds no lock, nobody else does, and the pages it writes out and the files it
copies are the committed ones. -/
theorem backup_faithful_iff (s : Pager B) (dirtyArray : Bool) (hf : FitsLength s) :
    BackupFaithful dirtyArray s ↔
      s.isMemory = true ∨ rungBlocked s.others s.lockState = true ∨ BackupReady dirtyArray s := by
  have hrefused : s.pagerBackup dirtyArray = (none, s) → BackupFaithful dirtyArray s := by
    intro hb
    refine ⟨fun d hd => ?_, ?_, ?_⟩
    · rw [hb] at hd
      cases hd
    · rw [hb]
      exact SameTransaction.refl s
    · rw [hb]
      exact SameRollback.refl s
  by_cases hm : s.isMemory = true
  · exact ⟨fun _ => Or.inl hm, fun _ => hrefused (if_pos hm)⟩
  have hm : s.isMemory = false := by simpa using hm
  have hlock := pagerLock_ladder hm
  constructor
  · intro h
    have hkept := h.transaction.lock
    by_cases hr : (ladder s.others s.lockState).1 = true
    · -- the lock was granted, so BACKUP ends without one
      have hafter : (s.pagerBackup dirtyArray).2.lockState = .noLock := by
        unfold pagerBackup
        rw [if_neg (by simp [hm]), hlock]
        dsimp only
        rw [if_pos hr]
        rfl
      have hl : s.lockState = .noLock := hkept.symm.trans hafter
      rw [hl] at hr
      have ho := ladder_granted _ hr
      obtain ⟨t, hb, hw⟩ := backup_granted dirtyArray hm hf ho hl
      have hcopy : ∀ p, SameBytes p (found t.copyFiles p) (s.lastCommitted p) := by
        intro p
        rw [← reopened_eq t.copyFiles 0 [] p]
        exact h.copy t.copyFiles (by rw [hb]) 0 [] p
      refine Or.inr (Or.inr ⟨hl, ho, fun p hp x hx => ?_, fun p hp => ?_⟩)
      · have := hcopy p
        rwa [hw.copy, if_pos hp, hx] at this
      · have := hcopy p
        rwa [hw.copy, if_neg hp] at this
    · have hr : (ladder s.others s.lockState).1 = false := by simpa using hr
      have hafter : (s.pagerBackup dirtyArray).2.lockState = (ladder s.others s.lockState).2 := by
        unfold pagerBackup
        rw [if_neg (by simp [hm]), hlock]
        dsimp only
        rw [if_neg (by simp [hr])]
      refine Or.inr (Or.inl ((rungBlocked_iff _ _).mpr (Prod.ext hr ?_)))
      exact hafter.symm.trans hkept
  · rintro (hc | hblocked | hready)
    · exact absurd hc (by simp [hm])
    · refine hrefused ?_
      have hstay := (rungBlocked_iff _ _).mp hblocked
      unfold pagerBackup
      rw [if_neg (by simp [hm]), hlock, hstay]
      rfl
    · obtain ⟨t, hb, hw⟩ := backup_granted dirtyArray hm hf hready.alone hready.unlocked
      have hsame := hw.sameTransaction
      have hcommitted := lastCommitted_eq hready.unlocked hready.alone
      refine ⟨fun d hd clock ps p => ?_, ?_, ?_⟩
      · obtain rfl : t.copyFiles = d := by simpa [hb] using hd
        rw [reopened_eq, hw.copy]
        split
        · next hp =>
          obtain ⟨x, hx⟩ := outPages_buf hp
          rw [hx]
          exact hready.written p hp x hx
        · next hp => exact hready.rest p hp
      · rw [hb]
        exact hsame
      · rw [hb]
        obtain ⟨m, w, io, fp, d, o, n, he⟩ := hw.same
        refine hsame.rollback hm (by rw [he]; exact hm) (by rw [he]) hf hw.fits fun p => ?_
        rcases hw.files p with hp | ⟨hp, hx⟩
        · rw [hp]
          exact SameBytes.refl p _
        · rw [← hcommitted p]
          exact hready.written p hp _ hx

/-- A BACKUP right after the database was opened, before anything is read. -/
theorem backup_fresh : BackupFaithful false threePages := by
  have hf : FitsLength threePages := ⟨by decide, by decide, fun e he => nomatch he⟩
  refine (backup_faithful_iff threePages false hf).mpr (Or.inr (Or.inr ⟨rfl, rfl, fun p hp => ?_, fun p _ => ?_⟩))
  · exact absurd hp (by rw [show threePages.outPages false = [] by decide]; exact List.not_mem_nil)
  · exact SameBytes.refl p _

/-- With page 1 written and not committed, whoever opens the copy reads the uncommitted page; the locks of the
transaction are gone, and its ROLLBACK leaves the page in the files. -/
theorem backup_copies_uncommitted : ¬ BackupFaithful true (writesPages [1]) ∧
    (∃ d, ((writesPages [1]).pagerBackup true).1 = some d ∧ reopened d 0 [] 1 = ⟨8, 0, 0⟩) ∧
    (writesPages [1]).lastCommitted 1 = ⟨1, 0, 0⟩ ∧
    (writesPages [1]).lockState = .reserved ∧ ((writesPages [1]).pagerBackup true).2.lockState = .noLock ∧
    ((writesPages [1]).pagerBackup true).2.pagerRollback.map (fun t => found t.disk 1) = some ⟨8, 0, 0⟩ := by
  refine ⟨fun h => ?_, ⟨_, rfl, by decide⟩, by decide, by decide, by decide, by decide⟩
  exact absurd (h.copy _ rfl 0 [] 1) (by decide)

end Pager

end CustomDB
