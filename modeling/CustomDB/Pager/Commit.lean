import CustomDB.Pager.Spec

/-!
# What a commit writes

`pager_commit` stamps page 0, flushes the dirty pages that are cached, and makes every shadow copy the
committed page. The flush is taken apart once for the main file and once for the WAL.
-/

namespace CustomDB

open Lib

namespace Pager

variable {B : Type} [PageBody B] {s s' : Pager B}

/-! ## The flush in WAL mode -/

/-- The frame the flush of one page appends while a commit LSN is set. -/
def commitFrame (s : Pager B) (e : JournalEntry B) : Frame B :=
  ⟨e.1, true, if s.currentCommitTs ≠ 0 then s.currentCommitTs else s.clock, s.currentCommitLsn, e.2⟩

/-- The WAL after a flush that appends `ws`. -/
def walAfter (s : Pager B) : List (JournalEntry B) → Option (List (Frame B))
  | [] => s.disk.wal
  | ws => some (s.disk.wal.getD [] ++ ws.map s.commitFrame)

omit [PageBody B] in
theorem walAfter_getD (s : Pager B) (ws : List (JournalEntry B)) :
    (s.walAfter ws).getD [] = s.disk.wal.getD [] ++ ws.map s.commitFrame := by
  cases ws with
  | nil => exact (List.append_nil _).symm
  | cons e ws => rfl

theorem appendFrame_commit (hl : s.currentCommitLsn ≠ 0) (i : Nat) (x : Page B) :
    s.appendFrame i x = { s with
      disk := { s.disk with wal := some (s.disk.wal.getD [] ++ [s.commitFrame (i, x)]) }
      io := s.io ++ [.appendWal (s.commitFrame (i, x))]
      walOpen := true } := by
  unfold appendFrame
  simp only [if_pos hl]
  rfl

theorem foldl_flush_wal (hm : s.isMemory = false) (hw : s.useWal = true) (hl : s.currentCommitLsn ≠ 0)
    (l : List Nat) : ∃ o, l.foldl pagerFlush s = { s with
      disk := { s.disk with wal := s.walAfter (s.flushed l) }
      io := s.io ++ (s.flushed l).map fun e => .appendWal (s.commitFrame e)
      walOpen := o } ∧
    (s.walOpen = true ∨ s.flushed l ≠ [] → o = true) := by
  induction l generalizing s with
  | nil => exact ⟨s.walOpen, by simp [flushed, walAfter], fun h => h.resolve_right fun hn => hn rfl⟩
  | cons i l ih =>
    rw [List.foldl_cons, pagerFlush, if_neg (by simp [hm])]
    cases hb : s.flushBuf i with
    | none =>
      have hf : s.flushed (i :: l) = s.flushed l := by simp [flushed, hb]
      rw [hf]
      exact ih hm hw hl
    | some x =>
      have hf : s.flushed (i :: l) = (i, x) :: s.flushed l := by simp [flushed, hb]
      simp only [if_pos hw]
      have hd := appendFrame_commit hl i x
      have hfl : (s.appendFrame i x).flushed l = s.flushed l := by rw [hd]; rfl
      have hwal : (s.appendFrame i x).walAfter ((s.appendFrame i x).flushed l) =
          s.walAfter ((i, x) :: s.flushed l) := by
        rw [hfl, hd]
        cases s.flushed l with
        | nil => rfl
        | cons e ws =>
          simp only [walAfter, Option.getD_some, List.append_assoc]
          rfl
      have hio : (s.appendFrame i x).io ++ ((s.appendFrame i x).flushed l).map (fun e =>
          .appendWal ((s.appendFrame i x).commitFrame e)) =
            s.io ++ ((i, x) :: s.flushed l).map fun e => .appendWal (s.commitFrame e) := by
        rw [hfl, hd, List.map_cons, List.append_assoc]
        rfl
      obtain ⟨o, h, ho⟩ := ih (s := s.appendFrame i x) (by rw [hd]; exact hm) (by rw [hd]; exact hw)
        (by rw [hd]; exact hl)
      obtain rfl : o = true := ho (Or.inl (by rw [hd]))
      refine ⟨true, ?_, fun _ => rfl⟩
      rw [h, hf, hwal, hio, hd]

/-! ## The dirty pages -/

/-- What `pager_commit` flushes: the cached pages below the count that are dirty or shadowed. -/
def dirtyPages (s : Pager B) : List Nat :=
  (List.range s.numPages).filter fun i =>
    (s.pages.slot i).isSome ∧ (i ∈ s.isDirty ∨ (s.shadowPages.slot i).isSome)

theorem pagerFlush_isDirty (s : Pager B) (i : Nat) {j : Nat} (h : j ≠ i) :
    j ∈ (s.pagerFlush i).isDirty ↔ j ∈ s.isDirty := by
  unfold pagerFlush
  split
  · exact Iff.rfl
  · split
    · exact Iff.rfl
    · split
      · exact Iff.rfl
      · exact ⟨fun hj => Finset.mem_of_mem_erase hj, fun hj => Finset.mem_erase.mpr ⟨h, hj⟩⟩

theorem flushDirty_eq (s : Pager B) : s.flushDirty = s.dirtyPages.foldl pagerFlush s := by
  have h := foldl_ite_eq_filter
    (fun (s : Pager B) i => (s.pages.slot i).isSome = true ∧ (i ∈ s.isDirty ∨ (s.shadowPages.slot i).isSome = true))
    pagerFlush (fun s i j hj => by
      rw [(pagerFlush_pages s i).1, (pagerFlush_pages s i).2, pagerFlush_isDirty s i hj])
    (List.range s.numPages) List.nodup_range s
  rw [flushDirty, h]
  rfl

omit [PageBody B] in
theorem mem_dirtyPages {i : Nat} : i ∈ s.dirtyPages ↔ i < s.numPages ∧ (s.pages.slot i).isSome = true ∧
    (i ∈ s.isDirty ∨ (s.shadowPages.slot i).isSome = true) := by
  simp [dirtyPages]

theorem pagerFlush_covers (h : Covers s) {p : Nat} (hp : p + 1 < fileLengthWrap) : Covers (s.pagerFlush p) := by
  unfold pagerFlush
  split
  · exact h
  · split
    · exact h
    · split
      · exact h
      · unfold Covers at h ⊢
        simp only [emit, Disk.apply, BlockFile.length_write, Nat.mod_eq_of_lt hp]
        split <;> omega

theorem foldl_flush_covers (h : Covers s) (l : List Nat) (hl : ∀ p ∈ l, p + 1 < fileLengthWrap) :
    Covers (l.foldl pagerFlush s) := by
  induction l generalizing s with
  | nil => exact h
  | cons p l ih =>
    exact ih (pagerFlush_covers h (hl p (List.mem_cons_self ..))) fun q hq => hl q (List.mem_cons_of_mem _ hq)

theorem pagerFlush_filePages (s : Pager B) (i : Nat) : s.filePages ≤ (s.pagerFlush i).filePages := by
  unfold pagerFlush
  split
  · exact le_refl _
  · split
    · exact le_refl _
    · split
      · exact le_refl _
      · show s.filePages ≤ if s.filePages < _ then _ else s.filePages
        split <;> omega

theorem foldl_flush_filePages (s : Pager B) (l : List Nat) : s.filePages ≤ (l.foldl pagerFlush s).filePages := by
  induction l generalizing s with
  | nil => exact le_refl _
  | cons i l ih => exact le_trans (pagerFlush_filePages s i) (ih _)

/-! ## Committing -/

/-- The state `pager_commit` flushes: page 0 carries the new LSN and is dirty. -/
structure Stamped (s t : Pager B) : Prop where
  same : ∃ l e c n sh, t = { s with
    lockState := l, lockError := e, pages := c, numPages := n, shadowPages := sh, walLsn := s.walLsn + 1
    currentCommitTs := s.clock, currentCommitLsn := s.walLsn + 1, isDirty := insert 0 s.isDirty }
  slot : ∀ q, t.pages.slot q = if q = 0 then
      some (if s.Shadowed 0 then s.base 0 else (s.view 0).setLsn (s.walLsn + 1))
    else s.pages.slot q
  shadow : ∀ q, t.shadowPages.slot q =
    if q = 0 ∧ s.Shadowed 0 then some ((s.view 0).setLsn (s.walLsn + 1)) else s.shadowPages.slot q
  numPages : t.numPages = if (s.pages.slot 0).isSome = true then s.numPages else max s.numPages 1

/-- The flush of `pager_commit`, whatever the mode. -/
structure FlushedDirty (t t' : Pager B) : Prop where
  same : ∃ m w io fp o d, t' = { t with
    disk := { t.disk with main := m, wal := w }, io := io, filePages := fp, walOpen := o, isDirty := d }
  main : t'.disk.main = if t.isMemory = false ∧ t.useWal = false then
    recoverMain t.disk.main (t.flushed t.dirtyPages) else t.disk.main
  wal : t'.disk.wal = if t.isMemory = false ∧ t.useWal = true then t.walAfter (t.flushed t.dirtyPages)
    else t.disk.wal
  walOpen : t.isMemory = false → t.useWal = true → t.flushed t.dirtyPages ≠ [] → t'.walOpen = true
  walShut : t.useWal = false → t'.walOpen = t.walOpen
  covers : Covers t → (∀ p ∈ t.dirtyPages, p + 1 < fileLengthWrap) → Covers t'
  filePages_le : t.filePages ≤ t'.filePages
  staysOpen : t.walOpen = true → t'.walOpen = true
  io : t.isMemory = false → t.useWal = false →
    t'.io = t.io ++ (t.flushed t.dirtyPages).map fun e => .writeMain e.1 e.2
  ioWal : t.isMemory = false → t.useWal = true →
    t'.io = t.io ++ (t.flushed t.dirtyPages).map fun e => .appendWal (t.commitFrame e)

theorem foldl_flush_memory (hm : s.isMemory = true) (l : List Nat) : l.foldl pagerFlush s = s := by
  induction l with
  | nil => rfl
  | cons i l ih =>
    rw [List.foldl_cons, pagerFlush, if_pos hm]
    exact ih

theorem flushDirty_flushed {t : Pager B} (hl : t.currentCommitLsn ≠ 0) : FlushedDirty t t.flushDirty := by
  have hcov := fun hc : Covers t => foldl_flush_covers hc t.dirtyPages
  have hfp := foldl_flush_filePages t t.dirtyPages
  rw [flushDirty_eq]
  by_cases hm : t.isMemory = true
  · rw [foldl_flush_memory hm] at hcov hfp ⊢
    refine ⟨⟨_, _, _, _, _, _, rfl⟩, ?_, ?_, fun hn => ?_, fun _ => rfl, hcov, hfp, fun hn => hn, fun hn => ?_, fun hn => ?_⟩
    · rw [if_neg fun hn => by simp [hm] at hn]
    · rw [if_neg fun hn => by simp [hm] at hn]
    · rw [hm] at hn
      cases hn
    · rw [hm] at hn
      cases hn
    · rw [hm] at hn
      cases hn
  · have hm : t.isMemory = false := by simpa using hm
    by_cases hw : t.useWal = true
    · obtain ⟨o, he, ho⟩ := foldl_flush_wal hm hw hl t.dirtyPages
      rw [he] at hcov hfp ⊢
      refine ⟨⟨_, _, _, _, _, _, rfl⟩, ?_, ?_, fun _ _ hn => ho (Or.inr hn), fun hn => ?_, hcov, hfp, fun hn => ho (Or.inl hn), fun _ hn => ?_,
        fun _ _ => rfl⟩
      · rw [if_neg fun hn => by simp [hw] at hn]
      · rw [if_pos ⟨hm, hw⟩]
      · rw [hw] at hn
        cases hn
      · rw [hw] at hn
        cases hn
    · have hw : t.useWal = false := by simpa using hw
      obtain ⟨fp, d, he⟩ := foldl_flush hm hw t.dirtyPages
      rw [he] at hcov hfp ⊢
      refine ⟨⟨_, _, _, _, _, _, rfl⟩, ?_, ?_, fun _ hn => ?_, fun _ => rfl, hcov, hfp, fun hn => hn, fun _ _ => rfl, fun _ hn => ?_⟩
      · rw [if_pos ⟨hm, hw⟩]
        rfl
      · rw [if_neg fun hn => by simp [hw] at hn]
      · rw [hw] at hn
        cases hn
      · rw [hw] at hn
        cases hn

/-- The end of `pager_commit`: what the flush of `t` left in the files, and every buffer of `t` as the
committed page. -/
structure Published (t s' : Pager B) : Prop where
  same : ∃ m w io c fp o ws, s' = { t with
    disk := { main := m, journal := none, wal := w }, io := io, pages := c, filePages := fp, walOpen := o
    writerSlot := ws, shadowPages := Slots.empty, journalPos := none, pageIsJournaled := ∅, isDirty := ∅
    currentCommitTs := 0, currentCommitLsn := 0, txSnapshotXid := 0, isExplicitTx := false
    isWriter := false, inTransaction := false, lockState := .noLock }
  slot : ∀ q, s'.pages.slot q = t.flushBuf q
  writerSlot : s'.writerSlot = if t.writerSlot = .self then .free else t.writerSlot
  flush : ∃ t', FlushedDirty t t' ∧ s'.disk.main = t'.disk.main ∧ s'.disk.wal = t'.disk.wal ∧
    s'.filePages = t'.filePages ∧ s'.walOpen = t'.walOpen ∧ s'.io = t'.io ++ [.unlinkJournal]

theorem publish_published {t : Pager B} (hl : t.currentCommitLsn ≠ 0) : Published t t.publish := by
  have hf := flushDirty_flushed hl
  have hpub : t.publish = endTransaction
      (swapShadows { t.flushDirty with currentCommitTs := 0, currentCommitLsn := 0 }).dropJournal := rfl
  generalize t.flushDirty = t' at hf hpub
  obtain ⟨m, w, io, fp, o, d, he⟩ := hf.same
  have hslot : ∀ q, t.publish.pages.slot q = t.flushBuf q := by
    intro q
    rw [hpub, he]
    rfl
  have hws : t.publish.writerSlot = if t.writerSlot = .self then .free else t.writerSlot := by
    rw [hpub, he]
    rfl
  refine ⟨?_, hslot, hws, t', hf, ?_⟩
  · rw [hpub, he]
    exact ⟨_, _, _, _, _, _, _, rfl⟩
  · rw [hpub]
    exact ⟨rfl, rfl, rfl, rfl, rfl⟩

theorem stamp_stamped (h : Sole s) (ht : s.inTransaction = true) (l : PagerLockState) :
    Stamped s ({ s with lockState := l } : Pager B).stamp := by
  have hm := modify_modified (s := ({ s with
    lockState := l, walLsn := s.walLsn + 1, currentCommitTs := s.clock, currentCommitLsn := s.walLsn + 1 } : Pager B))
    (h.congr rfl rfl) ht 0 fun p0 => p0.setLsn (s.walLsn + 1)
  unfold stamp
  dsimp only
  generalize Pager.modify { s with
    lockState := l, walLsn := s.walLsn + 1, currentCommitTs := s.clock, currentCommitLsn := s.walLsn + 1 } 0 _ = s₁ at hm
  refine ⟨?_, hm.slot, hm.shadow, hm.numPages⟩
  obtain ⟨_, _, _, _, _, rfl⟩ := hm.same
  exact ⟨_, _, _, _, _, rfl⟩

theorem commit_publish (h : Sole s) (ht : s.inTransaction = true) (hw : s.hasWrites = true)
    (hc : s.pagerCommit = some s') : ∃ t, Stamped s t ∧ s' = t.publish := by
  have hlock : ∃ l, (if s.useWal then (true, s) else s.pagerLock .exclusive).2 = { s with lockState := l } := by
    split
    · exact ⟨_, rfl⟩
    · exact pagerLock_frame s .exclusive
  obtain ⟨l, hl⟩ := hlock
  unfold pagerCommit at hc
  rw [if_neg (by simp [ht]), if_neg (by simp [hw])] at hc
  split at hc
  · cases hc
  · next s₁ he =>
    rw [he] at hl
    obtain rfl : s₁ = { s with lockState := l } := hl
    exact ⟨_, stamp_stamped h ht l, (Option.some.inj hc).symm⟩

/-- `pager_commit` of a transaction with writes, when it returns. -/
theorem commit_committed (h : Sole s) (ht : s.inTransaction = true) (hw : s.hasWrites = true)
    (hc : s.pagerCommit = some s') : ∃ t, Stamped s t ∧ Published t s' := by
  obtain ⟨t, hst, rfl⟩ := commit_publish h ht hw hc
  refine ⟨t, hst, publish_published ?_⟩
  obtain ⟨_, _, _, _, _, hs⟩ := hst.same
  rw [hs]
  exact Nat.succ_ne_zero _

/-- `pager_commit` of a transaction without writes. -/
theorem commit_readOnly (ht : s.inTransaction = true) (hw : s.hasWrites = false) :
    s.pagerCommit = some (endTransaction (if s.journalPos.isSome then s.dropJournal else s)) := by
  unfold pagerCommit
  rw [if_neg (by simp [ht]), if_pos hw]

/-- The buffer `pager_commit` flushes for a page is what the transaction shows there, with the new LSN on
page 0. -/
theorem Stamped.flushBuf {t : Pager B} (h : Stamped s t) (ht : s.inTransaction = true)
    (hn : s.isWriter = false → ∀ p, s.shadowPages.slot p = none) {q : Nat} {x : Page B} (hx : t.flushBuf q = some x) :
    x = if q = 0 then (s.view 0).setLsn (s.walLsn + 1) else s.view q := by
  unfold Pager.flushBuf at hx
  rw [h.shadow, h.slot] at hx
  by_cases hq : q = 0
  · subst hq
    rw [if_pos rfl]
    by_cases hsh : s.Shadowed 0
    · rw [if_pos ⟨rfl, hsh⟩] at hx
      exact (Option.some.inj hx).symm
    · have hnone : s.shadowPages.slot 0 = none := by
        by_contra hc
        have hw : s.isWriter = true := by
          by_contra hw
          exact hc (hn (by simpa using hw) 0)
        exact hsh ⟨hw, Option.isSome_iff_ne_none.mpr hc⟩
      rw [if_neg fun hc => hsh hc.2, hnone, if_pos rfl, if_neg hsh] at hx
      exact (Option.some.inj hx).symm
  · rw [if_neg fun hc => hq hc.1, if_neg hq] at hx
    rw [if_neg hq, view_eq ht]
    by_cases hw : s.isWriter = true
    · rw [if_pos hw]
      cases hsh : s.shadowPages.slot q with
      | some y =>
        rw [hsh] at hx
        exact (Option.some.inj hx).symm
      | none =>
        rw [hsh] at hx
        rw [Option.getD_none, Pager.base, show s.pages.slot q = some x from hx]
        rfl
    · rw [hn (by simpa using hw) q] at hx
      rw [if_neg hw, Pager.base, show s.pages.slot q = some x from hx]
      rfl

end Pager

end CustomDB
