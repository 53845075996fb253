import CustomDB.Pager.WalFrames
import CustomDB.Lib.Memory

/-!
# Pages at their offsets

`pager_flush` in rollback mode writes a page at its offset in 64 bits, `get_page` seeks to a product in 32 bits, and
`file_length` is a byte length in 32 bits. The main file is in bytes here.
-/

namespace CustomDB

open Lib

/-- The main file: its bytes, with zero bytes past its end. Its length is a whole number of pages. -/
structure MainFile where
  bytes : Memory.Mem
  length : Nat
  whole : pageSize ∣ length
  beyond : ∀ i, length ≤ i → bytes i = 0

namespace MainFile

theorem beyond_write {m : Memory.Mem} {n off : Nat} {bs : List UInt8} (h : ∀ i, n ≤ i → m i = 0) :
    ∀ i, max n (off + bs.length) ≤ i → Memory.write m off bs i = 0 := by
  intro i hi
  unfold Memory.write
  rw [if_neg (by omega)]
  exact h i (by omega)

/-- `pwrite` of a page. -/
def pwrite (f : MainFile) (c : PageData) (off : Nat) (hoff : pageSize ∣ off) : MainFile where
  bytes := Memory.write f.bytes off c.bytes
  length := max f.length (off + c.bytes.length)
  whole := by
    rcases max_choice f.length (off + c.bytes.length) with h | h
    · rw [h]
      exact f.whole
    · rw [h, c.length_eq]
      exact Nat.dvd_add hoff (dvd_refl _)
  beyond := beyond_write f.beyond

/-- `ftruncate`. -/
def truncate (f : MainFile) (n : Nat) (hn : pageSize ∣ n) : MainFile where
  bytes := fun i => if i < n then f.bytes i else 0
  length := n
  whole := hn
  beyond := fun _ hi => if_neg (not_lt.mpr hi)

/-- `read` of a page into a buffer of zero bytes. -/
def read (f : MainFile) (off : Nat) : PageData := ⟨Memory.read f.bytes off pageSize, Memory.length_read ..⟩

/-- The eight bytes of the LSN on page 0, if there is a page. -/
def lsn (f : MainFile) : Nat := if pageSize ≤ f.length then Bytes.leNat (Memory.read f.bytes 4084 8) else 0

end MainFile

/-- A pager in rollback mode, on a main file in bytes. -/
structure BytePager where
  file : MainFile
  fileLength : BitVec 32
  numPages : BitVec 32
  numPagesAtTxStart : BitVec 32
  pages : BitVec 32 → Option PageData
  shadowPages : BitVec 32 → Option PageData
  isDirty : BitVec 32 → Bool
  inTransaction : Bool
  /-- `pthread_equal(pager->writer_tid, pthread_self())`. -/
  isWriter : Bool
  walLsn : Nat

namespace BytePager

/-- `flush_buf`. -/
def flushBuf (s : BytePager) (p : BitVec 32) : Option PageData := (s.shadowPages p).or (s.pages p)

/-- `pager_flush`. -/
def pagerFlush (s : BytePager) (p : BitVec 32) : BytePager :=
  match s.flushBuf p with
  | none => s
  | some buf =>
    -- `(off_t)page_num * PAGE_SIZE`, and then twice `(page_num + 1) * PAGE_SIZE`
    let stop := (p + 1) * BitVec.ofNat 32 pageSize
    { s with
      file := s.file.pwrite buf (p.toNat * pageSize) (Nat.dvd_mul_left ..)
      fileLength := if s.fileLength < stop then stop else s.fileLength
      isDirty := Function.update s.isDirty p false }

/-- `pager_refresh_if_modified`, on the same inode and without a WAL file. -/
def refreshIfModified (s : BytePager) : BytePager :=
  if s.inTransaction then s
  else
    let curLen := BitVec.ofNat 32 s.file.length
    if s.walLsn < s.file.lsn ∨ curLen ≠ s.fileLength then
      { s with
        pages := fun _ => none
        fileLength := curLen
        numPages := curLen / BitVec.ofNat 32 pageSize
        walLsn := max s.walLsn s.file.lsn }
    else s

/-- What `get_page` brings in for a page that is not cached. -/
def loadPage (f : MainFile) (fileLength p : BitVec 32) : PageData :=
  if p < fileLength / BitVec.ofNat 32 pageSize then f.read (p * BitVec.ofNat 32 pageSize).toNat else .zero

/-- `get_page`, with the lock granted. -/
def getPage (s : BytePager) (p : BitVec 32) : BytePager × PageData :=
  let s := s.refreshIfModified
  let page := (s.pages p).getD (loadPage s.file s.fileLength p)
  let s := if s.pages p = none then
      { s with
        pages := Function.update s.pages p (some page)
        numPages := if s.numPages ≤ p then p + 1 else s.numPages }
    else s
  (s, if s.inTransaction ∧ s.isWriter then (s.shadowPages p).getD page else page)

theorem dvd_mul_pageSize (p : BitVec 32) : pageSize ∣ (p * BitVec.ofNat 32 pageSize).toNat := by
  rw [BitVec.toNat_mul, BitVec.toNat_ofNat, Nat.mod_eq_of_lt (show pageSize < 2 ^ 32 by decide)]
  exact (Nat.dvd_mod_iff (by decide)).mpr (Nat.dvd_mul_left ..)

/-- The end of `pager_rollback`: the pages that are new go. -/
def discardNewPages (s : BytePager) : BytePager :=
  let start := s.numPagesAtTxStart
  if 0 < start ∧ start < s.numPages then
    { s with
      pages := fun p => if start ≤ p ∧ p < s.numPages then none else s.pages p
      numPages := start
      fileLength := start * BitVec.ofNat 32 pageSize
      file := s.file.truncate (start * BitVec.ofNat 32 pageSize).toNat (dvd_mul_pageSize start) }
  else s

/-- Nothing is cached any more. -/
def dropCache (s : BytePager) : BytePager := { s with pages := fun _ => none, shadowPages := fun _ => none }

/-- What a page reads as when nothing is cached. -/
def onDisk (s : BytePager) (p : BitVec 32) : PageData := (s.dropCache.getPage p).2

/-- `file_length` is the file's length, as `lseek` gives it, in 32 bits. -/
def Synced (s : BytePager) : Prop := s.fileLength = BitVec.ofNat 32 s.file.length

/-- After the flush of page `p` with content `c` the page reads as `c`, the others as before, and `file_length` is the
length of the file. -/
def FlushesExactly (s : BytePager) (p : BitVec 32) (c : PageData) : Prop :=
  (s.pagerFlush p).onDisk p = c ∧ (∀ q, q ≠ p → (s.pagerFlush p).onDisk q = s.onDisk q) ∧
    (s.pagerFlush p).fileLength.toNat = (s.pagerFlush p).file.length

/-! ## Reading -/

variable {s : BytePager} {f : MainFile} {p q : BitVec 32} {c : PageData}

theorem pageData_ext {a b : PageData} (h : a.bytes = b.bytes) : a = b := by
  cases a
  cases b
  cases h
  rfl

theorem read_bytes (f : MainFile) (off : Nat) : (f.read off).bytes = Memory.read f.bytes off pageSize := by
  rw [MainFile.read]

theorem pwrite_bytes (f : MainFile) (c : PageData) {off : Nat} (hoff : pageSize ∣ off) :
    (f.pwrite c off hoff).bytes = Memory.write f.bytes off c.bytes := rfl

/-- A page past the end. -/
theorem read_beyond {off : Nat} (h : f.length ≤ off) : f.read off = .zero := by
  apply pageData_ext
  have hzero : PageData.zero.bytes = List.replicate pageSize 0 := rfl
  rw [read_bytes, hzero, List.eq_replicate_iff]
  refine ⟨Memory.length_read .., fun b hb => ?_⟩
  obtain ⟨i, -, rfl⟩ := List.mem_map.mp hb
  exact f.beyond _ (Nat.le_trans h (Nat.le_add_right ..))

/-- Below 4 GiB the seek does not wrap. -/
theorem load_exact (hf : f.length < 2 ^ 32) (p : BitVec 32) :
    loadPage f (BitVec.ofNat 32 f.length) p = f.read (p.toNat * pageSize) := by
  obtain ⟨n, hn⟩ := f.whole
  have hlt : p < BitVec.ofNat 32 f.length / BitVec.ofNat 32 pageSize ↔ p.toNat < n := by
    rw [BitVec.lt_def, BitVec.toNat_udiv, BitVec.toNat_ofNat, BitVec.toNat_ofNat, Nat.mod_eq_of_lt hf,
      Nat.mod_eq_of_lt (by decide), hn, Nat.mul_div_cancel_left n (by decide)]
  unfold loadPage
  by_cases hp : p.toNat < n
  · have hoff : (p * BitVec.ofNat 32 pageSize).toNat = p.toNat * pageSize := by
      rw [BitVec.toNat_mul, BitVec.toNat_ofNat, Nat.mod_eq_of_lt (show pageSize < 2 ^ 32 by decide)]
      apply Nat.mod_eq_of_lt
      have := Nat.mul_lt_mul_of_pos_right hp (show 0 < pageSize by decide)
      rw [Nat.mul_comm n] at this
      omega
    rw [if_pos (hlt.mpr hp), hoff]
  · rw [if_neg fun h => hp (hlt.mp h), read_beyond]
    rw [hn, Nat.mul_comm]
    exact Nat.mul_le_mul_right _ (not_lt.mp hp)

theorem onDisk_eq (hs : s.Synced) (p : BitVec 32) : s.onDisk p = loadPage s.file (BitVec.ofNat 32 s.file.length) p := by
  unfold onDisk getPage
  have hfile : s.dropCache.refreshIfModified.file = s.file := by
    unfold refreshIfModified
    split
    · rfl
    · dsimp only
      split <;> rfl
  have hnone : ∀ q, s.dropCache.refreshIfModified.pages q = none ∧ s.dropCache.refreshIfModified.shadowPages q = none := by
    intro q
    unfold refreshIfModified
    split
    · exact ⟨rfl, rfl⟩
    · dsimp only
      split <;> exact ⟨rfl, rfl⟩
  have hlen : s.dropCache.refreshIfModified.fileLength = BitVec.ofNat 32 s.file.length := by
    unfold refreshIfModified
    split
    · exact hs
    · dsimp only
      split
      · rfl
      · exact hs
  dsimp only
  rw [(hnone p).1, if_pos rfl, Option.getD_none, hfile, hlen]
  dsimp only
  rw [(hnone p).2, Option.getD_none, ite_self]

/-! ## Writing -/

theorem pwrite_same (f : MainFile) (c : PageData) (p : Nat) :
    (f.pwrite c (p * pageSize) (Nat.dvd_mul_left ..)).read (p * pageSize) = c := by
  apply pageData_ext
  have hread := Memory.read_write_self f.bytes (p * pageSize) c.bytes
  rw [c.length_eq] at hread
  rw [read_bytes, pwrite_bytes, hread]

theorem pwrite_apart (f : MainFile) (c : PageData) {p q : Nat} (h : q ≠ p) :
    (f.pwrite c (p * pageSize) (Nat.dvd_mul_left ..)).read (q * pageSize) = f.read (q * pageSize) := by
  apply pageData_ext
  rw [read_bytes, read_bytes, pwrite_bytes]
  apply Memory.read_write_apart
  rw [c.length_eq]
  rcases Nat.lt_or_gt_of_ne h with h | h
  · left
    have := Nat.mul_le_mul_right pageSize (Nat.succ_le_of_lt h)
    rw [Nat.succ_mul] at this
    exact this
  · right
    have := Nat.mul_le_mul_right pageSize (Nat.succ_le_of_lt h)
    rw [Nat.succ_mul] at this
    exact this

theorem flush_length (hbuf : s.flushBuf p = some c) :
    (s.pagerFlush p).file.length = max s.file.length ((p.toNat + 1) * pageSize) := by
  unfold pagerFlush
  rw [hbuf]
  show max s.file.length (p.toNat * pageSize + c.bytes.length) = _
  rw [c.length_eq, Nat.succ_mul]

/-- Below 4 GiB the flush keeps track of the length. -/
theorem flush_synced (hbuf : s.flushBuf p = some c) (hs : s.Synced)
    (hlt : max s.file.length ((p.toNat + 1) * pageSize) < 2 ^ 32) :
    (s.pagerFlush p).Synced ∧ (s.pagerFlush p).fileLength.toNat = (s.pagerFlush p).file.length := by
  have hend : ((p + 1) * BitVec.ofNat 32 pageSize).toNat = (p.toNat + 1) * pageSize := by
    have hpage : pageSize = 4096 := rfl
    have hone : (1 : BitVec 32).toNat = 1 := rfl
    rw [BitVec.toNat_mul, BitVec.toNat_add, BitVec.toNat_ofNat, hone]
    rw [hpage] at hlt ⊢
    omega
  have hlen : s.fileLength.toNat = s.file.length := by
    rw [hs, BitVec.toNat_ofNat]
    exact Nat.mod_eq_of_lt (by omega)
  have hnew : (s.pagerFlush p).fileLength.toNat = (s.pagerFlush p).file.length := by
    rw [flush_length hbuf]
    unfold pagerFlush
    rw [hbuf]
    dsimp only
    by_cases h : s.fileLength < (p + 1) * BitVec.ofNat 32 pageSize
    · rw [if_pos h, hend]
      rw [BitVec.lt_def, hend, hlen] at h
      omega
    · rw [if_neg h, hlen]
      rw [BitVec.lt_def, hend, hlen] at h
      omega
  refine ⟨?_, hnew⟩
  unfold Synced
  rw [← hnew, BitVec.ofNat_toNat, BitVec.setWidth_eq]

/-- The flush is exact where the file stays below 4 GiB. -/
theorem flush_exact_iff (hbuf : s.flushBuf p = some c) (hs : s.Synced) :
    s.FlushesExactly p c ↔ max s.file.length ((p.toNat + 1) * pageSize) < 2 ^ 32 := by
  constructor
  · rintro ⟨-, -, hlen⟩
    rw [flush_length hbuf] at hlen
    rw [← hlen]
    exact BitVec.isLt _
  · intro hlt
    obtain ⟨hs', hlen⟩ := flush_synced hbuf hs hlt
    have hshort : (s.pagerFlush p).file.length < 2 ^ 32 := by
      rw [flush_length hbuf]
      exact hlt
    have hfile : (s.pagerFlush p).file = s.file.pwrite c (p.toNat * pageSize) (Nat.dvd_mul_left ..) := by
      unfold pagerFlush
      rw [hbuf]
    refine ⟨?_, fun q hq => ?_, hlen⟩
    · rw [onDisk_eq hs', load_exact hshort, hfile]
      exact pwrite_same ..
    · rw [onDisk_eq hs', load_exact hshort, onDisk_eq hs, load_exact (by omega), hfile]
      exact pwrite_apart _ _ fun h => hq (BitVec.eq_of_toNat_eq h)

/-- A pager that has written nothing yet, with one page cached. -/
def holding (p : BitVec 32) (c : PageData) : BytePager where
  file := ⟨fun _ => 0, 0, dvd_zero _, fun _ _ => rfl⟩
  fileLength := 0
  numPages := 0
  numPagesAtTxStart := 0
  pages := Function.update (fun _ => none) p (some c)
  shadowPages := fun _ => none
  isDirty := fun _ => true
  inTransaction := true
  isWriter := true
  walLsn := 0

theorem holding_buf (p : BitVec 32) (c : PageData) : (holding p c).flushBuf p = some c := by
  unfold flushBuf holding
  dsimp only
  rw [Function.update_self, Option.none_or]

theorem flush_exact_first : (holding 0 (markedPage 1 1)).FlushesExactly 0 (markedPage 1 1) :=
  (flush_exact_iff (holding_buf 0 (markedPage 1 1)) rfl).mpr (by decide)

/-- Page 1048575 ends at 4 GiB: `file_length` stays 0, and the page reads as zero bytes. -/
theorem flush_lost_at_4GiB : ¬ ∀ (s : BytePager) (p : BitVec 32) (c : PageData), p.toNat < 2 ^ 31 →
    s.flushBuf p = some c → s.Synced → s.FlushesExactly p c := by
  intro h
  obtain ⟨hread, -, -⟩ := h (holding 1048575 (markedPage 1 1)) 1048575 (markedPage 1 1) (by decide) (holding_buf ..) rfl
  have hlen : BitVec.ofNat 32 ((holding 1048575 (markedPage 1 1)).pagerFlush 1048575).file.length = 0 := by
    rw [flush_length (holding_buf ..)]
    decide
  have hlength : ((holding 1048575 (markedPage 1 1)).pagerFlush 1048575).fileLength = 0 := by
    unfold pagerFlush
    rw [holding_buf]
    show (if (0 : BitVec 32) < (1048575 + 1) * BitVec.ofNat 32 pageSize then
      (1048575 + 1) * BitVec.ofNat 32 pageSize else 0) = 0
    exact if_neg (by decide)
  have hzero : ((holding 1048575 (markedPage 1 1)).pagerFlush 1048575).onDisk 1048575 = .zero := by
    rw [onDisk_eq (hlength.trans hlen.symm), hlen]
    exact if_neg (show ¬ (1048575 : BitVec 32) < 0 / BitVec.ofNat 32 pageSize by decide)
  rw [hzero] at hread
  have hhead := congrArg (fun d => d.bytes.head?) hread
  exact absurd hhead (by decide)

/-! ## Going back -/

/-- A rollback that discards pages leaves the file at the length it had, below 4 GiB. -/
theorem discard_length_iff (hpos : 0 < s.numPagesAtTxStart) (hnew : s.numPagesAtTxStart < s.numPages) :
    s.discardNewPages.file.length = s.numPagesAtTxStart.toNat * pageSize ↔
      s.numPagesAtTxStart.toNat * pageSize < 2 ^ 32 := by
  have hlen : s.discardNewPages.file.length = s.numPagesAtTxStart.toNat * pageSize % 2 ^ 32 := by
    unfold discardNewPages
    dsimp only
    rw [if_pos ⟨hpos, hnew⟩]
    show (s.numPagesAtTxStart * BitVec.ofNat 32 pageSize).toNat = _
    rw [BitVec.toNat_mul, BitVec.toNat_ofNat, Nat.mod_eq_of_lt (show pageSize < 2 ^ 32 by decide)]
  rw [hlen]
  exact ⟨fun h => h ▸ Nat.mod_lt _ (by decide), Nat.mod_eq_of_lt⟩

end BytePager

end CustomDB
