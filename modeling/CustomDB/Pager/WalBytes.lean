import CustomDB.Lib.Bytes

/-!
# The WAL file in bytes

`pager_flush` appends a frame at the physical end of the file, `get_page` finds frames by dividing the length by the
frame size. Both formats are here: version 2 has a magic number at the start of the file, and a commit time and an LSN
in each frame.
-/

namespace CustomDB

open Lib.Bytes

/-- `PAGE_SIZE`. -/
def pageSize : Nat := 4096

/-- The bytes of a page. -/
structure PageData where
  bytes : List UInt8
  length_eq : bytes.length = pageSize

/-- `wal_frame_size`. -/
inductive WalVersion where
  | v1 | v2
  deriving DecidableEq, Repr

/-- `WAL_MAGIC`. -/
def walMagic : Nat := 0x574C3200

namespace WalVersion

/-- `header_offset`. -/
def headerOffset : WalVersion → Nat
  | v1 => 0
  | v2 => 4

/-- The bytes of a frame in front of its page. -/
def frameHead : WalVersion → Nat
  | v1 => 8
  | v2 => 24

/-- `WAL_FRAME_SIZE_V1`, `WAL_FRAME_SIZE_V2`. -/
def frameSize (v : WalVersion) : Nat := v.frameHead + pageSize

end WalVersion

/-- The `n` bytes at `off`. -/
def slice (bs : List UInt8) (off n : Nat) : List UInt8 := (bs.drop off).take n

/-- The version `pager_open` finds. -/
def walVersion (wal : List UInt8) : WalVersion :=
  if 4 ≤ wal.length ∧ leNat (slice wal 0 4) = walMagic then .v2 else .v1

section Checksum

-- `calculate_crc32`
variable (crc : List UInt8 → BitVec 32)

/-! ## Appending -/

/-- A call of `pager_flush`: the page, its buffer, the time, and the commit it is part of. -/
structure Flush where
  pageNum : BitVec 32
  buf : PageData
  time : Nat
  currentCommitTs : Nat
  currentCommitLsn : Nat

/-- `frame_buf`. -/
def Flush.frame (f : Flush) (v : WalVersion) (lsn : Nat) : List UInt8 :=
  let head := leBytes 4 f.pageNum.toNat ++ leBytes 4 (crc f.buf.bytes).toNat
  match v with
  | .v1 => head ++ f.buf.bytes
  | .v2 =>
    let commitTs := if f.currentCommitTs ≠ 0 then f.currentCommitTs else f.time
    head ++ leBytes 8 commitTs ++ leBytes 8 lsn ++ f.buf.bytes

/-- A pager in WAL mode, with its WAL file. -/
structure WalPager where
  wal : List UInt8
  version : WalVersion
  walLsn : Nat

/-- `pager_open` where the WAL file is not empty. -/
def WalPager.opened (wal : List UInt8) (walLsn : Nat) : WalPager := ⟨wal, walVersion wal, walLsn⟩

/-- `pager_flush` in WAL mode. -/
def WalPager.pagerFlush (s : WalPager) (f : Flush) : WalPager :=
  let s := if s.wal = [] then { s with wal := leBytes 4 walMagic, version := .v2 } else s
  let lsn := if f.currentCommitLsn ≠ 0 then f.currentCommitLsn else s.walLsn + 1
  { s with
    wal := s.wal ++ f.frame crc s.version lsn
    walLsn := if s.version = .v2 ∧ f.currentCommitLsn = 0 then s.walLsn + 1 else s.walLsn }

/-! ## Reading -/

/-- The loop of `get_page` over the frames below `n`, the last one first, and the page buffer it leaves. -/
def scanFrames (v : WalVersion) (wal : List UInt8) (p : BitVec 32) : Nat → List UInt8 → Bool × List UInt8
  | 0, buf => (false, buf)
  | n + 1, buf =>
    let offset := v.headerOffset + n * v.frameSize
    if leNat (slice wal offset 4) = p.toNat then
      let page := slice wal (offset + v.frameHead) pageSize
      if leNat (slice wal (offset + 4) 4) = (crc page).toNat then (true, page)
      else scanFrames v wal p n page
    else scanFrames v wal p n buf

/-- `num_frames`. -/
def numFrames (v : WalVersion) (wal : List UInt8) : Nat :=
  if v.headerOffset ≤ wal.length then (wal.length - v.headerOffset) / v.frameSize else 0

/-- A pager that reads: its frame size, and its main file with the length it knows of it. -/
structure WalReader where
  version : WalVersion
  filePages : Nat
  main : Nat → PageData

/-- `read_from_wal`, else the main file. A page behind its end is the buffer as the loop left it. -/
def WalReader.finish (reader : WalReader) (p : BitVec 32) (found : Bool × List UInt8) : List UInt8 :=
  if found.1 = false ∧ p.toNat < reader.filePages then (reader.main p.toNat).bytes else found.2

/-- What `get_page` brings in for a page that is not cached. -/
def WalReader.getPage (reader : WalReader) (wal : List UInt8) (p : BitVec 32) : List UInt8 :=
  reader.finish p (scanFrames crc reader.version wal p (numFrames reader.version wal) (List.replicate pageSize 0))

/-- Whatever is flushed after the file was opened, the last flush of a page is what it reads as, by the pager or by one
that opens the file then. -/
def AppendsSurvive (wal : List UInt8) : Prop :=
  ∀ (walLsn : Nat) (pre post : List Flush) (f : Flush) (reader : WalReader), (∀ g ∈ post, g.pageNum ≠ f.pageNum) →
    let s := (pre ++ f :: post).foldl (WalPager.pagerFlush crc) (WalPager.opened wal walLsn)
    reader.version = s.version ∨ reader.version = walVersion s.wal →
      reader.getPage crc s.wal f.pageNum = f.buf.bytes

/-! ## Slices -/

variable {crc}

theorem slice_append_left {bs cs : List UInt8} {off n : Nat} (h : off + n ≤ bs.length) :
    slice (bs ++ cs) off n = slice bs off n := by
  rw [slice, slice, List.drop_append_of_le_length (by omega), List.take_append_of_le_length]
  rw [List.length_drop]
  omega

theorem slice_drop {bs cs : List UInt8} {off n : Nat} : slice (bs ++ cs) (bs.length + off) n = slice cs off n := by
  rw [slice, slice, ← List.drop_drop, List.drop_left]

theorem getElem?_slice (bs : List UInt8) (off n i : Nat) (hi : i < n) : (slice bs off n)[i]? = bs[off + i]? := by
  rw [slice, List.getElem?_take_of_lt hi, List.getElem?_drop]

theorem frameHead_pos (v : WalVersion) : 8 ≤ v.frameHead ∧ v.frameHead ≤ 24 := by
  cases v <;> decide

/-! ## One frame -/

variable (crc) in
/-- The parts of a frame. -/
theorem frame_parts (f : Flush) (v : WalVersion) (lsn : Nat) : ∃ mid, mid.length = v.frameHead - 8 ∧
    f.frame crc v lsn = leBytes 4 f.pageNum.toNat ++ (leBytes 4 (crc f.buf.bytes).toNat ++ (mid ++ f.buf.bytes)) := by
  cases v with
  | v1 => exact ⟨[], rfl, by simp [Flush.frame]⟩
  | v2 =>
    refine ⟨leBytes 8 (if f.currentCommitTs ≠ 0 then f.currentCommitTs else f.time) ++ leBytes 8 lsn, by simp; rfl, ?_⟩
    simp [Flush.frame]

theorem length_frame (f : Flush) (v : WalVersion) (lsn : Nat) : (f.frame crc v lsn).length = v.frameSize := by
  obtain ⟨mid, hmid, he⟩ := frame_parts crc f v lsn
  have hv := frameHead_pos v
  rw [he]
  simp only [List.length_append, length_leBytes, hmid, f.buf.length_eq, WalVersion.frameSize]
  omega

theorem leNat_u32 (x : BitVec 32) (rest : List UInt8) : leNat ((leBytes 4 x.toNat ++ rest).take 4) = x.toNat := by
  have hlen : (leBytes 4 x.toNat).length = 4 := length_leBytes 4 _
  rw [List.take_left' hlen, leNat_leBytes]
  exact Nat.mod_eq_of_lt x.isLt

theorem frame_pageNum (f : Flush) (v : WalVersion) (lsn : Nat) : leNat (slice (f.frame crc v lsn) 0 4) = f.pageNum.toNat := by
  obtain ⟨mid, -, he⟩ := frame_parts crc f v lsn
  rw [he]
  exact leNat_u32 f.pageNum _

theorem frame_crc (f : Flush) (v : WalVersion) (lsn : Nat) :
    leNat (slice (f.frame crc v lsn) 4 4) = (crc f.buf.bytes).toNat := by
  obtain ⟨mid, -, he⟩ := frame_parts crc f v lsn
  have hlen : (leBytes 4 f.pageNum.toNat).length = 4 := length_leBytes 4 _
  have hslice : slice (leBytes 4 f.pageNum.toNat ++ (leBytes 4 (crc f.buf.bytes).toNat ++ (mid ++ f.buf.bytes))) 4 4 =
      slice (leBytes 4 (crc f.buf.bytes).toNat ++ (mid ++ f.buf.bytes)) 0 4 := by
    have hdrop := @slice_drop (leBytes 4 f.pageNum.toNat) (leBytes 4 (crc f.buf.bytes).toNat ++ (mid ++ f.buf.bytes)) 0 4
    rwa [hlen] at hdrop
  rw [he, hslice]
  exact leNat_u32 _ _

theorem frame_page (f : Flush) (v : WalVersion) (lsn : Nat) (i : Nat) :
    (f.frame crc v lsn)[v.frameHead + i]? = f.buf.bytes[i]? := by
  obtain ⟨mid, hmid, he⟩ := frame_parts crc f v lsn
  have hv := frameHead_pos v
  rw [he, List.getElem?_append_right (by simp; omega), List.getElem?_append_right (by simp; omega),
    List.getElem?_append_right (by simp; omega)]
  congr 1
  simp
  omega

theorem frame_slice (f : Flush) (v : WalVersion) (lsn : Nat) :
    slice (f.frame crc v lsn) v.frameHead pageSize = f.buf.bytes := by
  refine List.ext_getElem? fun i => ?_
  rcases Nat.lt_or_ge i pageSize with hi | hi
  · rw [getElem?_slice _ _ _ _ hi, frame_page]
  · have hlen : (slice (f.frame crc v lsn) v.frameHead pageSize).length ≤ pageSize := List.length_take_le ..
    have hbuf := f.buf.length_eq
    rw [List.getElem?_eq_none (by omega), List.getElem?_eq_none (by omega)]

end Checksum

end CustomDB
