import CustomDB.Conn.System
import CustomDB.Pager.Commit

/-!
# What one connection's step does

`m` is the content all committed transactions have left. A passive connection does not hold the write
lock; as long as its `wal_lsn` is the LSN of `m`, its cache agrees with `m` and it has read nothing but `m`.
The active one shows `m` with its own writes on top.
-/

namespace CustomDB

open Lib Lib.Script

variable {B L : Type} [PageBody B]

namespace Conn

variable {m : Nat → Page B} {s s' : Pager B} {c c' : Conn B L}

/-- The main file a pager sees holds `m`, there is no WAL, and nobody waits for the EXCLUSIVE lock. -/
structure Sees (m : Nat → Page B) (s : Pager B) : Prop where
  content : ∀ p, s.mainPage p = m p
  size : s.disk.main.length < fileLengthWrap
  noWal : s.disk.wal = none
  sharedWrite : s.others.sharedWrite = false
  pending : s.others.pending = false

/-- The cache and the counts agree with `m`. -/
structure Current (m : Nat → Page B) (s : Pager B) : Prop where
  cached : ∀ p x, s.pages.slot p = some x → x = m p
  beyondFile : ∀ p, s.filePages ≤ p → m p = Page.zero
  beyondCount : ∀ p, s.numPages ≤ p → m p = Page.zero

/-- A pager on a file in rollback mode, without savepoints. -/
structure Plain (s : Pager B) : Prop where
  isMemory : s.isMemory = false
  useWal : s.useWal = false
  savepoints : s.savepoints = []
  count : s.numPages < fileLengthWrap
  bound : ∀ p x, s.pages.slot p = some x → p < s.numPages

/-- The pager does not hold the write lock. -/
structure Unwritten (s : Pager B) : Prop extends Plain s where
  notWriter : s.isWriter = false
  noJournal : s.journalPos = none
  noShadow : ∀ p, s.shadowPages.slot p = none
  clean : s.isDirty = ∅
  unmarked : s.pageIsJournaled = ∅
  lock : s.lockState.level < PagerLockState.reserved.level

/-- A connection without the write lock. -/
structure Passive (m : Nat → Page B) (c : Conn B L) : Prop extends Unwritten c.pager where
  lsn_le : c.pager.walLsn ≤ (m 0).lsn
  current : c.pager.walLsn = (m 0).lsn → Current m c.pager
  readOnly : c.pager.inTransaction = true → writes c.script = false
  knows : c.pager.inTransaction = true → c.pager.walLsn = (m 0).lsn →
    c.loc = (run (c.params, m) c.script).1 ∧ ∀ p, c.pager.numPagesAtTxStart ≤ p → m p = Page.zero

/-! ## Reading -/

theorem Sees.diskLsn (h : Sees m s) : s.diskLsn = (m 0).lsn := by
  unfold Pager.diskLsn
  split
  · rw [h.content]
  · next hl =>
    rw [← h.content, Pager.mainPage, BlockFile.read_eq_filler _ _ (by omega)]
    rfl

theorem Current.base (h : Current m s) (hs : Sees m s) (hw : s.useWal = false) (p : Nat) : s.base p = m p := by
  unfold Pager.base
  cases hp : s.pages.slot p with
  | some x => exact h.cached p x hp
  | none =>
    rw [Option.getD_none, Pager.readPage]
    simp only [hw, Bool.false_and, Bool.false_eq_true, if_false]
    split
    · exact hs.content p
    · exact (h.beyondFile p (by omega)).symm

/-- A refresh outside a transaction catches up with the file. -/
structure Refreshed (m : Nat → Page B) (s s' : Pager B) : Prop where
  same : ∃ c fp n l, s' = { s with pages := c, filePages := fp, numPages := n, walLsn := l }
  lsn : s'.walLsn = (m 0).lsn
  current : Current m s'
  count : s'.numPages < fileLengthWrap
  bound : ∀ p x, s'.pages.slot p = some x → p < s'.numPages

theorem refresh_refreshed (h : Plain s) (hs : Sees m s) (ht : s.inTransaction = false)
    (hle : s.walLsn ≤ (m 0).lsn) (hc : s.walLsn = (m 0).lsn → Current m s) :
    Refreshed m s s.pagerRefreshIfModified := by
  have hopen : s.openWal = s := by
    unfold Pager.openWal
    rw [if_neg (by simp [hs.noWal])]
  have hlsn : max s.walMaxLsn s.diskLsn = (m 0).lsn := by
    rw [hs.diskLsn, Pager.walMaxLsn, hs.noWal]
    exact Nat.max_eq_right (Nat.zero_le _)
  have hmod : s.disk.main.length % fileLengthWrap = s.disk.main.length := Nat.mod_eq_of_lt hs.size
  have hbeyond : ∀ p, s.disk.main.length ≤ p → m p = Page.zero := by
    intro p hp
    rw [← hs.content]
    exact BlockFile.read_eq_filler _ _ hp
  unfold Pager.pagerRefreshIfModified
  rw [if_neg (by simp [ht, h.isMemory])]
  simp only [hopen, hlsn, hmod]
  split
  · exact ⟨⟨_, _, _, _, rfl⟩, Nat.max_eq_right hle, ⟨fun p x hx => (nomatch hx), hbeyond, hbeyond⟩, hs.size,
      fun p x hx => (nomatch hx)⟩
  · next hn =>
    have heq : s.walLsn = (m 0).lsn := by
      have := not_or.mp hn
      omega
    exact ⟨⟨_, _, _, _, rfl⟩, heq, hc heq, h.count, h.bound⟩

theorem loaded_plain {p : Nat} (h : Pager.Loaded s s' p) (hs : Plain s)
    (hp : p + 1 < fileLengthWrap) : Plain s' := by
  refine ⟨?_, ?_, ?_, ?_, h.bound hs.bound⟩
  · obtain ⟨_, _, _, _, rfl⟩ := h.same
    exact hs.isMemory
  · obtain ⟨_, _, _, _, rfl⟩ := h.same
    exact hs.useWal
  · obtain ⟨_, _, _, _, rfl⟩ := h.same
    exact hs.savepoints
  · have := h.numPages_le
    have := hs.count
    omega

/-- A connection with the write lock whose journal is `j`. Its base pages show `m`, its shadow copies what
its script has made of `m`. -/
structure Owner (m : Nat → Page B) (c : Conn B L) (j : List (JournalEntry B)) : Prop extends Plain c.pager where
  inTx : c.pager.inTransaction = true
  writer : c.pager.isWriter = true
  lock : c.pager.lockState = .reserved
  pos : c.pager.journalPos = some j.length
  lsn : c.pager.walLsn = (m 0).lsn
  current : Current m c.pager
  start : ∀ p, c.pager.numPagesAtTxStart ≤ p → m p = Page.zero
  knows : c.loc = (run (c.params, m) c.script).1
  shows : ∀ p, (c.pager.shadowPages.slot p).getD (m p) = (run (c.params, m) c.script).2 p
  backed : ∀ p, (c.pager.shadowPages.slot p).isSome = true → (c.pager.pages.slot p).isSome = true
  marked : ∀ p, (c.pager.shadowPages.slot p).isSome = true → p ∈ c.pager.pageIsJournaled
  images : ∀ e ∈ j, e.2 = m e.1 ∧ e.1 + 1 < fileLengthWrap

/-- The owner has written. -/
structure Active (m : Nat → Page B) (c : Conn B L) (j : List (JournalEntry B)) : Prop extends Owner m c j where
  captured : ∃ p x, c.pager.shadowPages.slot p = some x
  wrote : writes c.script = true

/-- The journal and both locks are the pager's own. -/
structure Owns (s : Pager B) (j : List (JournalEntry B)) : Prop where
  journal : s.disk.journal = some j
  self : s.writerSlot = .self
  reserved : s.others.reserved = false
  covers : Pager.Covers s

theorem loaded_unwritten {p : Nat} (h : Pager.Loaded s s' p) (hs : Unwritten s)
    (hp : p + 1 < fileLengthWrap) : Unwritten s' := by
  have hlock : s'.lockState.level < PagerLockState.reserved.level := by
    rw [h.lock, Pager.lockedAt, if_neg (by simp [hs.isMemory]), PagerLockState.raise]
    split
    · exact hs.lock
    · decide
  refine ⟨loaded_plain h hs.toPlain hp, ?_, ?_, ?_, ?_, ?_, hlock⟩ <;> obtain ⟨_, _, _, _, rfl⟩ := h.same
  · exact hs.notWriter
  · exact hs.noJournal
  · exact hs.noShadow
  · exact hs.clean
  · exact hs.unmarked

theorem loaded_current {p : Nat} (h : Pager.Loaded s s' p) (hc : Current m s) (hs : Sees m s)
    (hw : s.useWal = false) : Current m s' := by
  refine ⟨fun q x hq => ?_, ?_, fun q hq => hc.beyondCount q (le_trans h.numPages_ge hq)⟩
  · rw [h.slot] at hq
    split at hq
    · next hqp =>
      rw [← Option.some.inj hq, hc.base hs hw, hqp]
    · exact hc.cached q x hq
  · obtain ⟨_, _, _, _, rfl⟩ := h.same
    exact hc.beyondFile

/-- What a passive connection shows is the content, as long as it is current. -/
theorem loaded_deref {p : Nat} (h : Pager.Loaded s s' p) (hn : s.isWriter = false) (hc : Current m s)
    (hs : Sees m s) (hw : s.useWal = false) : s'.deref p = m p := by
  rw [h.deref, Pager.view, if_neg (by simp [hn]), hc.base hs hw]

/-- A step after which the connection does not hold the write lock, and the file shows `m`. -/
structure Stays (m : Nat → Page B) (c c' : Conn B L) : Prop extends Passive m c' where
  slot : c'.pager.writerSlot = c.pager.writerSlot
  content : ∀ p, c'.pager.mainPage p = m p
  size : c'.pager.disk.main.length < fileLengthWrap
  noWal : c'.pager.disk.wal = none
  journal : c'.pager.disk.journal = c.pager.disk.journal

/-- A passive step that writes no file. -/
structure Quiet (m : Nat → Page B) (c c' : Conn B L) : Prop extends Passive m c' where
  disk : c'.pager.disk = c.pager.disk
  slot : c'.pager.writerSlot = c.pager.writerSlot

theorem Quiet.stays (h : Quiet m c c') (hs : Sees m c.pager) : Stays m c c' := by
  refine ⟨h.toPassive, h.slot, fun p => ?_, ?_, ?_, ?_⟩
  · rw [Pager.mainPage, h.disk]
    exact hs.content p
  · rw [h.disk]
    exact hs.size
  · rw [h.disk]
    exact hs.noWal
  · rw [h.disk]

/-! ## Steps of a passive connection -/

theorem Passive.begin (h : Passive m c) (hs : Sees m c.pager) {e : Bool} {l : L}
    (hc : c.step (.begin e l) = some c') : Quiet m c c' := by
  simp only [step] at hc
  by_cases ht : c.pager.inTransaction = true
  · rw [if_pos ht] at hc
    obtain rfl := Option.some.inj hc
    exact ⟨h, rfl, rfl⟩
  rw [if_neg ht] at hc
  rcases Pager.begin_cases ht with hb | hb
  · -- refused while another connection writes
    rw [hb] at hc
    obtain rfl := Option.some.inj hc
    exact ⟨⟨⟨⟨h.isMemory, h.useWal, h.savepoints, h.count, h.bound⟩, h.notWriter, h.noJournal, h.noShadow,
      h.clean, h.unmarked, h.lock⟩, h.lsn_le, fun hl => ⟨(h.current hl).cached, (h.current hl).beyondFile,
        (h.current hl).beyondCount⟩, h.readOnly, h.knows⟩, rfl, rfl⟩
  · rw [hb] at hc
    obtain rfl := Option.some.inj hc
    have hr := refresh_refreshed h.toPlain hs (by simpa using ht) h.lsn_le h.current
    have hmod : c.pager.disk.main.length % fileLengthWrap = c.pager.disk.main.length := Nat.mod_eq_of_lt hs.size
    generalize c.pager.pagerRefreshIfModified = s₁ at hr
    have hcur := hr.current
    have hlsn := hr.lsn
    have hcount := hr.count
    have hbound := hr.bound
    obtain ⟨_, _, _, _, rfl⟩ := hr.same
    refine ⟨⟨⟨⟨h.isMemory, h.useWal, h.savepoints, hcount, hbound⟩, rfl, h.noJournal, h.noShadow, h.clean,
      h.unmarked, h.lock⟩, hlsn.le, fun _ => ⟨hcur.cached, fun p hp => ?_, hcur.beyondCount⟩, fun _ => rfl,
      fun _ _ => ⟨rfl, hcur.beyondCount⟩⟩, rfl, rfl⟩
    dsimp only at hp
    rw [if_neg (by simp [h.isMemory]), hmod] at hp
    rw [← hs.content]
    exact BlockFile.read_eq_filler _ _ hp

theorem Passive.read (h : Passive m c) (hs : Sees m c.pager) {p : Nat} {g : L → Page B → L}
    (hp : p + 1 < fileLengthWrap) (hc : c.step (.access (.read p g)) = some c') : Quiet m c c' := by
  simp only [step] at hc
  obtain rfl := Option.some.inj hc
  obtain ⟨e, hl⟩ := Pager.getPage_refreshed hs.sharedWrite hs.pending p
  generalize c.pager.getPage p = s' at hl
  have hlock : (c.pager.lockedAt .shared).level < PagerLockState.reserved.level := by
    rw [Pager.lockedAt, if_neg (by simp [h.isMemory]), PagerLockState.raise]
    split
    · exact h.lock
    · decide
  have hwrites : writes c.script = false → writes (c.script ++ [.read p g]) = false := by
    intro hw
    rw [writes_concat, hw]
    rfl
  by_cases ht : c.pager.inTransaction = true
  · -- the cache of BEGIN
    rw [Pager.refresh_inTx (by exact ht)] at hl
    have hl := hl.of_lock rfl
    have hu := loaded_unwritten hl h.toUnwritten hp
    have hcur := fun hc => loaded_current hl hc hs h.useWal
    have hsees := fun hc => loaded_deref hl h.notWriter hc hs h.useWal
    have hloc := h.knows ht
    obtain ⟨_, _, _, _, rfl⟩ := hl.same
    refine ⟨⟨hu, h.lsn_le, fun hm => hcur (h.current hm), fun _ => hwrites (h.readOnly ht), fun _ hm => ?_⟩, rfl, rfl⟩
    obtain ⟨hk, hstart⟩ := hloc hm
    refine ⟨?_, hstart⟩
    rw [hsees (h.current hm), run_concat, hk]
    simp only [Access.run]
    rw [run_readOnly _ _ (h.readOnly ht)]
  · have ht : c.pager.inTransaction = false := by simpa using ht
    have hr := refresh_refreshed
      (s := { c.pager with lockState := c.pager.lockedAt .shared, lockError := e })
      ⟨h.isMemory, h.useWal, h.savepoints, h.count, h.bound⟩ ⟨hs.content, hs.size, hs.noWal, hs.sharedWrite, hs.pending⟩
      ht h.lsn_le fun hl => ⟨(h.current hl).cached, (h.current hl).beyondFile, (h.current hl).beyondCount⟩
    generalize Pager.pagerRefreshIfModified { c.pager with lockState := c.pager.lockedAt .shared, lockError := e } = s₁
      at hl hr
    have hu : Unwritten s₁ := by
      have hcount := hr.count
      have hbound := hr.bound
      obtain ⟨_, _, _, _, rfl⟩ := hr.same
      exact ⟨⟨h.isMemory, h.useWal, h.savepoints, hcount, hbound⟩, h.notWriter, h.noJournal, h.noShadow, h.clean,
        h.unmarked, hlock⟩
    have hs₁ : Sees m s₁ := by
      obtain ⟨_, _, _, _, rfl⟩ := hr.same
      exact ⟨hs.content, hs.size, hs.noWal, hs.sharedWrite, hs.pending⟩
    have hu' := loaded_unwritten hl hu hp
    have hcur := loaded_current hl hr.current hs₁ hu.useWal
    have hlsn := hr.lsn
    obtain ⟨_, _, _, _, rfl⟩ := hl.same
    obtain ⟨_, _, _, _, rfl⟩ := hr.same
    have hno : ∀ {P : Prop}, c.pager.inTransaction = true → P := fun hn => by
      rw [ht] at hn
      cases hn
    exact ⟨⟨hu', hlsn.le, fun _ => hcur, hno, hno⟩, rfl, rfl⟩

/-- A write that is not let in. -/
theorem Passive.refused (h : Passive m c) (hs : Sees m c.pager) (hself : c.pager.writerSlot ≠ .self)
    {p : Nat} {f : L → Page B → Page B} (hn : c.pager.inTransaction = true → ¬ c.pager.Grantable)
    (hc : c.step (.access (.write p f)) = some c') : Quiet m c c' := by
  simp only [step] at hc
  by_cases ht : c.pager.inTransaction = true
  · rw [if_pos ht] at hc
    obtain ⟨l, hl, he⟩ := Pager.ensure_refused hs.sharedWrite hs.pending h.isMemory h.lock hself (hn ht)
    rw [he] at hc
    obtain rfl := Option.some.inj hc
    exact ⟨⟨⟨⟨h.isMemory, h.useWal, h.savepoints, h.count, h.bound⟩, h.notWriter, h.noJournal, h.noShadow,
      h.clean, h.unmarked, hl⟩, h.lsn_le, fun hm => ⟨(h.current hm).cached, (h.current hm).beyondFile,
        (h.current hm).beyondCount⟩, h.readOnly, h.knows⟩, rfl, rfl⟩
  · rw [if_neg ht] at hc
    obtain rfl := Option.some.inj hc
    exact ⟨h, rfl, rfl⟩

omit [PageBody B] in
theorem hasWrites_clean (hn : ∀ p, s.shadowPages.slot p = none) (hd : s.isDirty = ∅) : s.hasWrites = false := by
  rw [Pager.hasWrites, s.shadowPages.any_eq_false hn, hd]
  rfl

/-- Outside a transaction nothing is said about what the connection has read. -/
theorem Unwritten.passive (h : Unwritten c.pager) (ht : c.pager.inTransaction = false)
    (hl : c.pager.walLsn ≤ (m 0).lsn) (hc : c.pager.walLsn = (m 0).lsn → Current m c.pager) : Passive m c := by
  have hno : ∀ {P : Prop}, c.pager.inTransaction = true → P := fun hn => by
    rw [ht] at hn
    cases hn
  exact ⟨h, hl, hc, hno, hno⟩

/-- A transaction that has read only. -/
theorem Passive.commit (h : Passive m c) (hself : c.pager.writerSlot ≠ .self)
    (hc : c.step .commit = some c') : Quiet m c c' := by
  simp only [step] at hc
  by_cases ht : c.pager.inTransaction = true
  · rw [Pager.commit_readOnly ht (hasWrites_clean h.noShadow h.clean),
      if_neg (by rw [h.noJournal]; simp)] at hc
    obtain rfl := Option.some.inj hc
    refine ⟨Unwritten.passive ?_ rfl h.lsn_le fun hm => ?_, rfl, if_neg hself⟩
    · exact ⟨⟨h.isMemory, h.useWal, h.savepoints, h.count, h.bound⟩, rfl, h.noJournal, h.noShadow, rfl, rfl, Nat.zero_lt_two⟩
    · exact ⟨(h.current hm).cached, (h.current hm).beyondFile, (h.current hm).beyondCount⟩
  · rw [Pager.pagerCommit, if_pos (by simpa using ht)] at hc
    obtain rfl := Option.some.inj hc
    exact ⟨h, rfl, rfl⟩

/-- After `pager_rollback` the connection is passive and the file shows `m`, where all journal records do
and the pages past the start count are empty in `m`. -/
theorem rolledBack_passive (hr : Pager.RolledBack c.pager s') (hp : Plain c.pager) (hs : Sees m c.pager)
    (himg : ∀ e ∈ c.pager.journalRecords, e.2 = m e.1 ∧ e.1 + 1 < fileLengthWrap)
    (hle : c.pager.walLsn ≤ (m 0).lsn) (hcur : c.pager.walLsn = (m 0).lsn → Current m c.pager)
    (hzero : c.pager.Grew → ∀ p, c.pager.numPagesAtTxStart ≤ p → m p = Page.zero) :
    Passive m { c with pager := s' } ∧ (∀ p, s'.mainPage p = m p) ∧ s'.disk.main.length < fileLengthWrap ∧
      s'.disk.wal = none ∧ s'.disk.journal = none := by
  have hslot := hr.slot
  have hmain := hr.main
  have hnum := hr.numPages
  have hfile := hr.filePages
  have hstart : c.pager.Grew → c.pager.numPagesAtTxStart < fileLengthWrap := fun hg => lt_trans hg.2 hp.count
  have hread : ∀ p, BlockFile.read Page.zero (Pager.recoverMain c.pager.disk.main c.pager.journalRecords) p = m p :=
    fun p => BlockFile.read_writeAll_of_const _ _ _ _ _ (fun e he hep => hep ▸ (himg e he).1) fun _ => hs.content p
  have hcached : c.pager.walLsn = (m 0).lsn → ∀ p x, s'.pages.slot p = some x → x = m p := by
    intro hl p x hx
    rw [hslot] at hx
    split at hx
    · cases hx
    · rw [Slots.slot_overwriteAll] at hx
      obtain ⟨y, hy, rfl⟩ := Option.map_eq_some_iff.mp hx
      cases hlk : c.pager.journalRecords.reverse.lookup p with
      | none => exact (hcur hl).cached p y hy
      | some z =>
        obtain ⟨l₁, l₂, he, -⟩ := List.lookup_eq_some_iff.mp hlk
        exact (himg (p, z) (List.mem_reverse.mp (by rw [he]; simp))).1
  have hbound : ∀ p x, s'.pages.slot p = some x → p < s'.numPages := by
    intro p x hx
    rw [hslot] at hx
    rw [hnum]
    split at hx
    · cases hx
    · next hn =>
      rw [Slots.slot_overwriteAll] at hx
      obtain ⟨y, hy, -⟩ := Option.map_eq_some_iff.mp hx
      have := hp.bound p y hy
      split
      · next hg =>
        by_contra hc
        exact hn ⟨hg, by omega, this⟩
      · exact this
  have hcount : s'.numPages < fileLengthWrap := by
    rw [hnum]
    split
    · next hg => exact hstart hg
    · exact hp.count
  have hbeyond : c.pager.walLsn = (m 0).lsn → ∀ p, (s'.filePages ≤ p → m p = Page.zero) ∧
      (s'.numPages ≤ p → m p = Page.zero) := by
    intro hl p
    rw [hnum, hfile]
    split
    · next hg =>
      rw [Nat.mod_eq_of_lt (hstart hg)]
      exact ⟨hzero hg p, hzero hg p⟩
    · exact ⟨(hcur hl).beyondFile p, (hcur hl).beyondCount p⟩
  have hcontent : ∀ p, s'.mainPage p = m p := by
    intro p
    rw [Pager.mainPage, hmain]
    split
    · next hg =>
      rw [BlockFile.read_truncate, Nat.mod_eq_of_lt (hstart hg.1)]
      split
      · exact hread p
      · exact (hzero hg.1 p (by omega)).symm
    · exact hread p
  have hsize : s'.disk.main.length < fileLengthWrap := by
    rw [hmain]
    split
    · rw [BlockFile.length_truncate]
      exact Nat.mod_lt _ (by decide)
    · have hlen := BlockFile.length_writeAll_le Page.zero c.pager.disk.main c.pager.journalRecords (fileLengthWrap - 1)
        fun e he => by have := (himg e he).2; omega
      have := hs.size
      show (BlockFile.writeAll Page.zero c.pager.disk.main c.pager.journalRecords).length < fileLengthWrap
      have : 0 < fileLengthWrap := by decide
      omega
  obtain ⟨_, _, _, _, _, _, _, rfl⟩ := hr.same
  refine ⟨Unwritten.passive ⟨⟨hp.isMemory, hp.useWal, rfl, hcount, hbound⟩, rfl, rfl, fun _ => rfl, rfl, rfl,
    Nat.zero_lt_two⟩ rfl hle fun hl => ⟨hcached hl, fun p => (hbeyond hl p).1, fun p => (hbeyond hl p).2⟩,
    hcontent, hsize, hs.noWal, rfl⟩

/-- The rollback of a transaction that has read only: it cuts the file back to the pages of BEGIN, which
drops nothing as long as these are all there are. -/
theorem Passive.rollback (h : Passive m c) (hs : Sees m c.pager) (hself : c.pager.writerSlot ≠ .self)
    (hj : c.pager.disk.journal = none) (hg : c.pager.Grew → c.pager.walLsn = (m 0).lsn)
    (hc : c.step .rollback = some c') : Stays m c c' := by
  simp only [step] at hc
  by_cases ht : c.pager.inTransaction = true
  · obtain ⟨s', hrb, rfl⟩ := Option.map_eq_some_iff.mp hc
    have hr := Pager.rollback_rolledBack ht hrb
    have hrec : c.pager.journalRecords = [] := by rw [Pager.journalRecords, hj]; rfl
    have hws := hr.writerSlot
    rw [if_neg hself] at hws
    obtain ⟨hpass, hcontent, hsize, hwal, hjour⟩ := rolledBack_passive hr h.toPlain hs
      (by rw [hrec]; exact fun e he => absurd he List.not_mem_nil) h.lsn_le h.current fun hgr => (h.knows ht (hg hgr)).2
    exact ⟨hpass, hws, hcontent, hsize, hwal, hjour.trans hj.symm⟩
  · rw [Pager.pagerRollback, if_pos (by simpa using ht)] at hc
    obtain rfl := Option.some.inj hc
    exact (⟨h, rfl, rfl⟩ : Quiet m c c).stays hs

/-! ## Steps of the connection that writes -/

variable {j : List (JournalEntry B)}

theorem Owner.writing (h : Owner m c j) (hs : Sees m c.pager) (ho : Owns c.pager j) : Pager.Writing c.pager j := by
  refine ⟨⟨hs.sharedWrite, ho.reserved, hs.pending, fun e he => ?_⟩, h.inTx, h.writer, fun _ => ?_, fun hm => ?_⟩
  · rw [ho.self] at he
    cases he
  · exact ⟨ho.self, by rw [h.lock], ho.journal, by rw [h.pos]; rfl⟩
  · rw [h.isMemory] at hm
    cases hm

theorem Owner.view (h : Owner m c j) (hs : Sees m c.pager) (p : Nat) :
    c.pager.view p = (run (c.params, m) c.script).2 p := by
  rw [Pager.view_eq h.inTx, if_pos h.writer, h.current.base hs h.useWal, h.shows]

/-- A step of the writer before its commit: the file still shows `m`. -/
structure Works (m : Nat → Page B) (c' : Conn B L) (j : List (JournalEntry B)) : Prop extends Active m c' j where
  self : c'.pager.writerSlot = .self
  journal : c'.pager.disk.journal = some j
  content : ∀ p, c'.pager.mainPage p = m p
  size : c'.pager.disk.main.length < fileLengthWrap
  noWal : c'.pager.disk.wal = none
  covers : Pager.Covers c'.pager

theorem Active.hasWrites (h : Active m c j) : c.pager.hasWrites = true := by
  rw [Pager.hasWrites, Bool.or_eq_true]
  exact Or.inl ((Lib.Slots.any_iff _).mpr h.captured)

/-- A second BEGIN does nothing. -/
theorem Active.begin (h : Active m c j) (hs : Sees m c.pager) (ho : Owns c.pager j) {e : Bool} {l : L}
    (hc : c.step (.begin e l) = some c') : Works m c' j := by
  simp only [step] at hc
  rw [if_pos h.inTx] at hc
  obtain rfl := Option.some.inj hc
  exact ⟨h, ho.self, ho.journal, hs.content, hs.size, hs.noWal, ho.covers⟩

theorem Active.read (h : Active m c j) (hs : Sees m c.pager) (ho : Owns c.pager j) {p : Nat} {g : L → Page B → L}
    (hp : p + 1 < fileLengthWrap) (hc : c.step (.access (.read p g)) = some c') : Works m c' j := by
  simp only [step] at hc
  obtain rfl := Option.some.inj hc
  have hl := Pager.getPage_inTx hs.sharedWrite hs.pending h.inTx p
  have hlock := hl.lock.trans (h.writing hs ho).lockedAt
  have hplain := loaded_plain hl h.toPlain hp
  have hcur := loaded_current hl h.current hs h.useWal
  have hd := hl.deref
  have hcached := fun q => hl.cacheOrLoad.isSome (q := q)
  generalize c.pager.getPage p = s' at hl hlock hplain hcur hd hcached
  have hstore : (run (c.params, m) (c.script ++ [.read p g])).2 = (run (c.params, m) c.script).2 := by
    rw [run_concat]
    rfl
  have hknows : g c.loc (s'.deref p) = (run (c.params, m) (c.script ++ [.read p g])).1 := by
    rw [run_concat, hd, h.view hs, h.knows]
    rfl
  have hwrote : writes (c.script ++ [.read p g]) = true := by rw [writes_concat, h.wrote]; rfl
  obtain ⟨_, _, _, _, rfl⟩ := hl.same
  refine ⟨⟨⟨hplain, h.inTx, h.writer, ?_, h.pos, h.lsn, hcur, h.start, hknows, fun q => ?_,
    fun q hq => hcached q (h.backed q hq), h.marked, h.images⟩, h.captured, hwrote⟩, ho.self, ho.journal, hs.content,
    hs.size, hs.noWal, ho.covers⟩
  · exact hlock.trans h.lock
  · rw [hstore]
    exact h.shows q

theorem Owner.write (h : Owner m c j) (hs : Sees m c.pager) (ho : Owns c.pager j) {p : Nat} (f : L → Page B → Page B)
    (hp : p + 1 < fileLengthWrap) : ∃ j', Works m { c with
      pager := (c.pager.pagerJournalPage p).modify p (f c.loc), script := c.script ++ [.write p f] } j' := by
  have hw := h.writing hs ho
  have hv := Pager.write_written hw h.backed p (f c.loc)
  generalize (c.pager.pagerJournalPage p).modify p (f c.loc) = s' at hv
  have hbase := fun q => h.current.base hs h.useWal q
  -- a page that has no record yet still shows `m`
  have hrec : c.pager.journalAfter p j = j ∨ c.pager.journalAfter p j = j ++ [(p, m p)] := by
    unfold Pager.journalAfter
    rw [h.pos]
    simp only
    split
    · exact Or.inl rfl
    · next hn =>
      refine Or.inr ?_
      have hview : c.pager.view p = m p := by
        rw [Pager.view_unshadowed fun hsh => hn (Or.inr ⟨h.savepoints, h.marked p hsh.2⟩), hbase]
      rw [BlockFile.write_length, hview]
  have himg : ∀ e ∈ c.pager.journalAfter p j, e.2 = m e.1 ∧ e.1 + 1 < fileLengthWrap := by
    intro e he
    rcases hrec with hj | hj <;> rw [hj] at he
    · exact h.images e he
    · rcases List.mem_append.mp he with he | he
      · exact h.images e he
      · rw [List.mem_singleton.mp he]
        exact ⟨rfl, hp⟩
  have hfields : s'.isMemory = c.pager.isMemory ∧ s'.useWal = c.pager.useWal ∧ s'.savepoints = c.pager.savepoints ∧
      s'.walLsn = c.pager.walLsn ∧ s'.filePages = c.pager.filePages ∧
      s'.numPagesAtTxStart = c.pager.numPagesAtTxStart ∧ s'.disk.main = c.pager.disk.main ∧
      s'.disk.wal = c.pager.disk.wal := by
    obtain ⟨_, _, _, _, _, _, _, _, _, _, rfl⟩ := hv.same
    exact ⟨rfl, rfl, rfl, rfl, rfl, rfl, rfl, rfl⟩
  obtain ⟨hm, hu, hsp, hlsn, hfp, hst, hmain, hwal⟩ := hfields
  have hh := hv.writing.holds (hm.trans h.isMemory)
  have hnum := hv.numPages_le
  have hcount := h.count
  have hcached : ∀ q x, s'.pages.slot q = some x → x = m q := by
    intro q x hx
    have hb := hv.base q
    rw [hbase, Pager.base, hx, Option.getD_some] at hb
    exact hb
  have hstore : ∀ q, (run (c.params, m) (c.script ++ [.write p f])).2 q =
      if q = p then f c.loc (c.pager.view p) else c.pager.view q := by
    intro q
    rw [run_concat, h.view hs, h.view hs, h.knows]
    simp only [Access.run, Function.update_apply]
  refine ⟨_, ⟨⟨⟨hm.trans h.isMemory, hu.trans h.useWal, hsp.trans h.savepoints, by dsimp only; omega, hv.bound h.bound⟩,
    hv.writing.inTx, hv.writing.writer, hv.lock.trans h.lock, ?_, hlsn.trans h.lsn, ⟨hcached, fun q hq => ?_, fun q hq => ?_⟩,
    fun q hq => ?_, ?_, fun q => ?_, fun q hq => ?_, fun q hq => ?_, himg⟩, ?_, ?_⟩, hh.self, hh.journal, fun q => ?_, ?_, ?_, ?_⟩
  · show s'.journalPos = _
    rw [hv.pos, h.pos, Option.map_some]
    unfold Pager.journalAfter
    rw [h.pos]
    simp only [h.isMemory, Bool.false_eq_true, false_or]
    split
    · rfl
    · rw [BlockFile.write_length, List.length_append]
      rfl
  · exact h.current.beyondFile q (le_of_eq_of_le hfp.symm hq)
  · exact h.current.beyondCount q (le_trans hv.numPages_ge hq)
  · exact h.start q (le_of_eq_of_le hst.symm hq)
  · rw [run_concat]
    exact h.knows
  · have hview := hv.view q
    have hb := hv.base q
    rw [Pager.view_eq hv.writing.inTx, if_pos hv.writing.writer, hb, hbase] at hview
    rw [hstore]
    exact hview
  · exact (hv.slot q).mpr (((hv.shadow q).mp hq).imp_right (h.backed q))
  · show q ∈ s'.pageIsJournaled
    rw [hv.marks, h.pos, if_pos (by rfl)]
    rcases (hv.shadow q).mp hq with rfl | hq
    · exact Finset.mem_insert_self ..
    · exact Finset.mem_insert_of_mem (h.marked q hq)
  · obtain ⟨x, hx⟩ := Option.isSome_iff_exists.mp ((hv.shadow p).mpr (Or.inl rfl))
    exact ⟨p, x, hx⟩
  · rw [writes_concat]
    exact Bool.or_true _
  · show BlockFile.read Page.zero s'.disk.main q = m q
    rw [hmain]
    exact hs.content q
  · rw [hmain]
    exact hs.size
  · exact hwal.trans hs.noWal
  · unfold Pager.Covers
    dsimp only
    rw [hmain, hfp]
    exact ho.covers

/-- The first write of a transaction that is current. -/
theorem Passive.write (h : Passive m c) (hs : Sees m c.pager) (ht : c.pager.inTransaction = true)
    (hg : c.pager.Grantable) (hl : c.pager.walLsn = (m 0).lsn) (hj : c.pager.disk.journal = none) {p : Nat}
    {f : L → Page B → Page B} (hp : p + 1 < fileLengthWrap) (hc : c.step (.access (.write p f)) = some c') :
    ∃ j, Works m c' j := by
  have hr : Pager.Reading c.pager := ⟨⟨hs.sharedWrite, hg.1, hs.pending, hg.2⟩, ht, h.notWriter, fun _ => h.noJournal,
    hj, h.noShadow, h.unmarked, fun _ => h.lock⟩
  obtain ⟨s₁, he, hup⟩ := hr.upgrade
  simp only [step] at hc
  rw [if_pos ht, he] at hc
  obtain rfl := Option.some.inj hc
  obtain ⟨hk, -⟩ := h.knows ht hl
  have hcur := h.current hl
  have hw := hup.writing
  have hh := hw.holds (by
    obtain ⟨_, _, _, _, _, _, _, _, _, _, rfl⟩ := hup.same
    exact h.isMemory)
  have hpos := hup.pos
  rw [if_neg (by simp [h.isMemory])] at hpos
  have hfile := hup.filePages
  rw [if_neg (by simp [h.isMemory])] at hfile
  have hstart := hup.txStart
  rw [if_neg (by simp [h.isMemory])] at hstart
  have hlen := hup.length_le _ h.bound
  have hsize : s₁.disk.main.length < fileLengthWrap := by
    have := hs.size
    have := h.count
    omega
  have hmain : ∀ q, s₁.mainPage q = m q := by
    intro q
    rw [hup.main, if_pos ⟨h.isMemory, h.useWal⟩]
    cases hq : c.pager.pages.slot q with
    | none => exact hs.content q
    | some x => exact hcur.cached q x hq
  have hbeyond : ∀ q, s₁.filePages ≤ q → m q = Page.zero := by
    intro q hq
    rw [hfile, Nat.mod_eq_of_lt hsize] at hq
    rw [← hmain]
    exact BlockFile.read_eq_filler _ _ hq
  have hcov : Pager.Covers s₁ := by
    unfold Pager.Covers
    rw [hfile, Nat.mod_eq_of_lt hsize]
  have hshadow : ∀ q, s₁.shadowPages.slot q = none := by
    obtain ⟨_, _, _, _, _, _, _, _, _, _, rfl⟩ := hup.same
    exact h.noShadow
  have hown : Owner m { c with pager := s₁ } [] := by
    have hno : ∀ {P : Nat → Prop} q, (s₁.shadowPages.slot q).isSome = true → P q := fun q hn => by
      rw [hshadow] at hn
      cases hn
    refine ⟨⟨?_, ?_, ?_, ?_, ?_⟩, hw.inTx, hw.writer, hup.locked h.isMemory, hpos, ?_, ⟨?_, hbeyond, ?_⟩, fun q hq => ?_, hk, fun q => ?_,
      hno, hno, fun e he => absurd he List.not_mem_nil⟩
    · obtain ⟨_, _, _, _, _, _, _, _, _, _, rfl⟩ := hup.same
      exact h.isMemory
    · obtain ⟨_, _, _, _, _, _, _, _, _, _, rfl⟩ := hup.same
      exact h.useWal
    · obtain ⟨_, _, _, _, _, _, _, _, _, _, rfl⟩ := hup.same
      exact h.savepoints
    · obtain ⟨_, _, _, _, _, _, _, _, _, _, rfl⟩ := hup.same
      exact h.count
    · obtain ⟨_, _, _, _, _, _, _, _, _, _, rfl⟩ := hup.same
      exact h.bound
    · obtain ⟨_, _, _, _, _, _, _, _, _, _, rfl⟩ := hup.same
      exact hl
    · obtain ⟨_, _, _, _, _, _, _, _, _, _, rfl⟩ := hup.same
      exact hcur.cached
    · obtain ⟨_, _, _, _, _, _, _, _, _, _, rfl⟩ := hup.same
      exact hcur.beyondCount
    · exact hcur.beyondCount q (le_of_eq_of_le hstart.symm hq)
    · show (s₁.shadowPages.slot q).getD (m q) = _
      rw [hshadow, run_readOnly _ _ (h.readOnly ht)]
      rfl
  refine hown.write ⟨hmain, hsize, ?_, hw.sharedWrite, hw.pending⟩ ⟨hh.journal, hh.self, hw.reserved, hcov⟩ f hp
  obtain ⟨_, _, _, _, _, _, _, _, _, _, rfl⟩ := hup.same
  exact hs.noWal

theorem Active.write (h : Active m c j) (hs : Sees m c.pager) (ho : Owns c.pager j) {p : Nat} {f : L → Page B → Page B}
    (hp : p + 1 < fileLengthWrap) (hc : c.step (.access (.write p f)) = some c') : ∃ j', Works m c' j' := by
  simp only [step] at hc
  rw [if_pos h.inTx, (h.writing hs ho).ensure] at hc
  obtain rfl := Option.some.inj hc
  exact h.toOwner.write hs ho f hp

theorem Active.rollback (h : Active m c j) (hs : Sees m c.pager) (ho : Owns c.pager j)
    (hc : c.step .rollback = some c') : Passive m c' ∧ c'.pager.writerSlot = .free ∧
      (∀ p, c'.pager.mainPage p = m p) ∧ c'.pager.disk.main.length < fileLengthWrap ∧ c'.pager.disk.wal = none ∧
      c'.pager.disk.journal = none := by
  simp only [step] at hc
  obtain ⟨s', hrb, rfl⟩ := Option.map_eq_some_iff.mp hc
  have hr := Pager.rollback_rolledBack h.inTx hrb
  have hrec : c.pager.journalRecords = j := by rw [Pager.journalRecords, ho.journal]; rfl
  have hws := hr.writerSlot
  rw [if_pos ho.self] at hws
  obtain ⟨hpass, hrest⟩ := rolledBack_passive hr h.toPlain hs (by rw [hrec]; exact h.images) h.lsn.le (fun _ => h.current)
    fun _ => h.start
  exact ⟨hpass, hws, hrest⟩

/-- What a commit flushes for page `q` is the page as the transaction run alone leaves it. -/
theorem Active.flushBuf (h : Active m c j) (hs : Sees m c.pager) {t : Pager B} (ht : Pager.Stamped c.pager t) {q : Nat}
    {x : Page B} (hx : t.flushBuf q = some x) : x = (⟨c.params, c.script⟩ : Txn B L).apply m q := by
  have hv := fun q => h.view hs q
  have hw : c.pager.isWriter = false → ∀ p, c.pager.shadowPages.slot p = none := fun hn => by
    rw [h.writer] at hn
    cases hn
  rw [ht.flushBuf h.inTx hw hx, Txn.apply, if_pos h.wrote, Function.update_apply, ← hv, ← hv, h.lsn]

/-- The page count after the stamp. -/
theorem Active.stamped_count (h : Active m c j) {t : Pager B} (ht : Pager.Stamped c.pager t) :
    c.pager.numPages ≤ t.numPages ∧ 0 < t.numPages ∧ t.numPages < fileLengthWrap := by
  have hcount := h.count
  have hwrap : 1 < fileLengthWrap := by decide
  rw [ht.numPages]
  split
  · next hsl =>
    obtain ⟨x, hx⟩ := Option.isSome_iff_exists.mp hsl
    have := h.bound 0 x hx
    omega
  · omega

theorem Active.slot_of_shadow (h : Active m c j) {q : Nat} (hq : c.pager.shadowPages.slot q ≠ none) :
    q < c.pager.numPages ∧ (c.pager.pages.slot q).isSome = true := by
  have hsl := h.backed q (Option.isSome_iff_ne_none.mpr hq)
  obtain ⟨x, hx⟩ := Option.isSome_iff_exists.mp hsl
  exact ⟨h.bound q x hx, hsl⟩

/-- What has something to flush is cached. -/
theorem Active.slot_of_flushBuf (h : Active m c j) {t : Pager B} (ht : Pager.Stamped c.pager t) {q : Nat}
    (hq : t.flushBuf q ≠ none) : q < t.numPages := by
  obtain ⟨hle, hpos, -⟩ := h.stamped_count ht
  unfold Pager.flushBuf at hq
  rw [ht.shadow, ht.slot] at hq
  by_cases h0 : q = 0
  · omega
  · rw [if_neg fun hc => h0 hc.1, if_neg h0] at hq
    cases hsh : c.pager.shadowPages.slot q with
    | some x =>
      have := (h.slot_of_shadow (q := q) (by rw [hsh]; simp)).1
      omega
    | none =>
      rw [hsh] at hq
      obtain ⟨x, hx⟩ := Option.ne_none_iff_exists'.mp hq
      have := h.bound q x hx
      omega

/-- A page the flush leaves out is not the first one and has no shadow copy. -/
theorem Active.clean (h : Active m c j) {t : Pager B} (ht : Pager.Stamped c.pager t) {q : Nat}
    (hq : q ∉ t.dirtyPages) : q ≠ 0 ∧ c.pager.shadowPages.slot q = none := by
  obtain ⟨hle, hpos, -⟩ := h.stamped_count ht
  have hzero : 0 ∈ t.dirtyPages := by
    refine Pager.mem_dirtyPages.mpr ⟨hpos, ?_, Or.inl ?_⟩
    · rw [ht.slot, if_pos rfl]
      rfl
    · obtain ⟨_, _, _, _, _, rfl⟩ := ht.same
      exact Finset.mem_insert_self ..
  have h0 : q ≠ 0 := fun h0 => hq (h0 ▸ hzero)
  refine ⟨h0, ?_⟩
  by_contra hsh
  obtain ⟨hlt, hsl⟩ := h.slot_of_shadow hsh
  refine hq (Pager.mem_dirtyPages.mpr ⟨by omega, ?_, Or.inr ?_⟩)
  · rw [ht.slot, if_neg h0]
    exact hsl
  · rw [ht.shadow, if_neg fun hc => h0 hc.1]
    exact Option.isSome_iff_ne_none.mpr hsh

omit [PageBody B] in
theorem flushBuf_of_dirty {t : Pager B} {q : Nat} (hq : q ∈ t.dirtyPages) : q < t.numPages ∧ t.flushBuf q ≠ none := by
  obtain ⟨hlt, hsl, -⟩ := Pager.mem_dirtyPages.mp hq
  refine ⟨hlt, fun hn => ?_⟩
  unfold Pager.flushBuf at hn
  cases hsh : t.shadowPages.slot q with
  | some x =>
    rw [hsh] at hn
    cases hn
  | none =>
    rw [hsh] at hn
    rw [show t.pages.slot q = none from hn] at hsl
    cases hsl

/-- The commit of the writer's transaction leaves in the file what the transaction run alone does. -/
theorem Active.commit (h : Active m c j) (hs : Sees m c.pager) (ho : Owns c.pager j)
    (hc : c.step .commit = some c') : Passive ((⟨c.params, c.script⟩ : Txn B L).apply m) c' ∧
      c'.pager.writerSlot = .free ∧ (∀ p, c'.pager.mainPage p = (⟨c.params, c.script⟩ : Txn B L).apply m p) ∧
      c'.pager.disk.main.length < fileLengthWrap ∧ c'.pager.disk.wal = none ∧ c'.pager.disk.journal = none ∧
      ((⟨c.params, c.script⟩ : Txn B L).apply m 0).lsn = (m 0).lsn + 1 := by
  have hwr := h.writing hs ho
  simp only [step] at hc
  obtain ⟨s', hcm, rfl⟩ := Option.map_eq_some_iff.mp hc
  obtain ⟨t, hst, hpub⟩ := Pager.commit_committed hwr.toSole h.inTx h.hasWrites hcm
  have hbuf := fun {q x} hx => h.flushBuf (q := q) (x := x) hs hst hx
  have happ0 : ((⟨c.params, c.script⟩ : Txn B L).apply m 0).lsn = (m 0).lsn + 1 := by
    rw [Txn.apply, if_pos h.wrote, Function.update_self]
    rfl
  have happ : ∀ q, q ≠ 0 → c.pager.shadowPages.slot q = none → (⟨c.params, c.script⟩ : Txn B L).apply m q = m q := by
    intro q hq hn
    rw [Txn.apply, if_pos h.wrote, Function.update_of_ne hq, ← h.shows, hn]
    rfl
  generalize (⟨c.params, c.script⟩ : Txn B L).apply m = m' at hbuf happ0 happ ⊢
  have htn := h.stamped_count hst
  -- a page the flush leaves out shows `m` before and after
  have hclean : ∀ q, q ∉ t.dirtyPages → m' q = m q := by
    intro q hq
    obtain ⟨h0, hsh⟩ := h.clean hst hq
    exact happ q h0 hsh
  have htm : t.isMemory = false ∧ t.useWal = false ∧ t.disk = c.pager.disk ∧ t.filePages = c.pager.filePages := by
    obtain ⟨_, _, _, _, _, rfl⟩ := hst.same
    exact ⟨h.isMemory, h.useWal, rfl, rfl⟩
  obtain ⟨htmem, htwal, htdisk, htfile⟩ := htm
  obtain ⟨t', hfl, hmain', hwal', hfile', -, -⟩ := hpub.flush
  have hmain := hfl.main
  rw [if_pos ⟨htmem, htwal⟩] at hmain
  have hcontent : ∀ q, s'.mainPage q = m' q := by
    intro q
    rw [Pager.mainPage, hmain', hmain, Pager.recoverMain, Pager.read_flushed]
    have hbase : t.mainPage q = m q := by
      rw [Pager.mainPage, htdisk]
      exact hs.content q
    split
    · next hq =>
      obtain ⟨x, hx⟩ := Option.ne_none_iff_exists'.mp (flushBuf_of_dirty hq).2
      rw [hx, Option.getD_some, hbuf hx]
    · next hq => rw [hbase, hclean q hq]
  have hcov : Pager.Covers s' := by
    have hct : Pager.Covers t := by
      unfold Pager.Covers
      rw [htdisk, htfile]
      exact ho.covers
    have := hfl.covers hct fun q hq => by
      have := (flushBuf_of_dirty hq).1
      omega
    unfold Pager.Covers at this ⊢
    rw [hmain', hfile']
    exact this
  have hsize : s'.disk.main.length < fileLengthWrap := by
    have hlen := BlockFile.length_writeAll_le Page.zero t.disk.main (t.flushed t.dirtyPages) t.numPages fun e he =>
      (flushBuf_of_dirty (Pager.mem_flushed he).1).1
    rw [hmain', hmain]
    rw [htdisk] at hlen ⊢
    have := hs.size
    unfold Pager.recoverMain
    omega
  have hslot := hpub.slot
  have hfields : s'.isMemory = false ∧ s'.useWal = false ∧ s'.savepoints = [] ∧ s'.numPages = t.numPages ∧
      s'.walLsn = (m' 0).lsn := by
    obtain ⟨_, _, _, _, _, _, _, rfl⟩ := hpub.same
    refine ⟨htmem, htwal, ?_, rfl, ?_⟩
    · obtain ⟨_, _, _, _, _, rfl⟩ := hst.same
      exact h.savepoints
    · obtain ⟨_, _, _, _, _, rfl⟩ := hst.same
      rw [happ0, ← h.lsn]
  obtain ⟨hm1, hm2, hm3, hm4, hm5⟩ := hfields
  have hplain : Plain s' := by
    refine ⟨hm1, hm2, hm3, by omega, fun q x hx => ?_⟩
    rw [hslot] at hx
    rw [hm4]
    exact h.slot_of_flushBuf hst (by rw [hx]; simp)
  have hcur : Current m' s' := by
    refine ⟨fun q x hx => hbuf ((hslot q).symm.trans hx), fun q hq => ?_, fun q hq => ?_⟩
    · rw [← hcontent]
      exact BlockFile.read_eq_filler _ _ (le_trans hcov hq)
    · rw [hm4] at hq
      have hn : c.pager.shadowPages.slot q = none := by
        by_contra hsh
        have := (h.slot_of_shadow hsh).1
        omega
      rw [happ q (by omega) hn]
      exact h.current.beyondCount q (by omega)
  have hws := hpub.writerSlot
  have htself : t.writerSlot = .self := by
    obtain ⟨_, _, _, _, _, rfl⟩ := hst.same
    exact ho.self
  rw [if_pos htself] at hws
  have htw : t.disk.wal = none := by
    rw [htdisk]
    exact hs.noWal
  have hwal := hfl.wal
  rw [if_neg (by simp [htwal]), htw] at hwal
  refine ⟨Unwritten.passive ⟨hplain, ?_, ?_, ?_, ?_, ?_, ?_⟩ ?_ hm5.le fun _ => hcur, hws, hcontent, hsize,
    hwal'.trans hwal, ?_, happ0⟩ <;> obtain ⟨_, _, _, _, _, _, _, rfl⟩ := hpub.same
  · rfl
  · rfl
  · exact fun _ => rfl
  · rfl
  · rfl
  · exact Nat.zero_lt_two
  · rfl
  · rfl

end Conn

end CustomDB
