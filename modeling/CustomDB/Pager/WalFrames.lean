import CustomDB.Pager.WalTail

/-!
# The frames of a WAL file

The frames as the loops of `get_page`, `pager_checkpoint` and `pager_restore` read them, whole frames by their
number. `lastValid` is what the three agree on: the page of the last frame that matches its checksum.
-/

namespace CustomDB

open Lib.Bytes

/-- The page of zeros. -/
def PageData.zero : PageData := ⟨List.replicate pageSize 0, List.length_replicate ..⟩

/-- `read(fd, page, PAGE_SIZE)` at `off`, where it returns `PAGE_SIZE`. -/
def readPage (bs : List UInt8) (off : Nat) : Option PageData :=
  if h : (slice bs off pageSize).length = pageSize then some ⟨slice bs off pageSize, h⟩ else none

section Frames

variable (v : WalVersion) (wal : List UInt8) (f : Nat)

/-- `frame_offset` of frame `f`. -/
def frameOffset : Nat := v.headerOffset + f * v.frameSize

/-- `f_pnum`. -/
def framePnum : Nat := leNat (slice wal (frameOffset v f) 4)

/-- `stored_crc`. -/
def storedCrc : Nat := leNat (slice wal (frameOffset v f + 4) 4)

/-- `data_offset`. -/
def dataOffset : Nat := frameOffset v f + v.frameHead

/-- The page of the frame. -/
def framePage : Option PageData := readPage wal (dataOffset v f)

variable (crc : List UInt8 → BitVec 32)

/-- The page of the frame, where it matches `stored_crc`. -/
def validPage : Option PageData := (framePage v wal f).filter fun page => storedCrc v wal f = (crc page.bytes).toNat

/-- The page of the last valid frame for `p`, of those among the first `n` that `ok` takes. -/
def lastValid (ok : Nat → Bool) (p : Nat) : Nat → Option PageData
  | 0 => none
  | f + 1 => if ok f ∧ framePnum v wal f = p then (validPage v wal f crc).or (lastValid ok p f) else lastValid ok p f

end Frames

variable {crc : List UInt8 → BitVec 32} {v : WalVersion} {wal : List UInt8} {f n p : Nat}

theorem length_slice {bs : List UInt8} {off k : Nat} (h : off + k ≤ bs.length) : (slice bs off k).length = k := by
  rw [slice, List.length_take, List.length_drop]
  omega

theorem readPage_eq {bs : List UInt8} {off : Nat} (h : off + pageSize ≤ bs.length) :
    ∃ page, readPage bs off = some page ∧ page.bytes = slice bs off pageSize :=
  ⟨_, dif_pos (length_slice h), rfl⟩

/-- The frames counted are in the file. -/
theorem frame_inside (hf : f < numFrames v wal) : dataOffset v f + pageSize ≤ wal.length := by
  unfold numFrames at hf
  split at hf
  next hh =>
    have hpos := frameSize_pos v
    have hmul : (f + 1) * v.frameSize ≤ wal.length - v.headerOffset :=
      (Nat.le_div_iff_mul_le (by omega)).mp hf
    rw [Nat.succ_mul] at hmul
    have hsize : v.frameSize = v.frameHead + pageSize := rfl
    unfold dataOffset frameOffset
    omega
  next => exact absurd hf (Nat.not_lt_zero f)

theorem framePage_eq (hf : f < numFrames v wal) :
    ∃ page, framePage v wal f = some page ∧ page.bytes = slice wal (dataOffset v f) pageSize :=
  readPage_eq (frame_inside hf)

theorem framePnum_lt : framePnum v wal f < 2 ^ 32 := by
  have h := leNat_lt (slice wal (frameOffset v f) 4)
  have hlen : (slice wal (frameOffset v f) 4).length ≤ 4 := List.length_take_le ..
  calc framePnum v wal f < 256 ^ (slice wal (frameOffset v f) 4).length := h
    _ ≤ 256 ^ 4 := Nat.pow_le_pow_right (by decide) hlen
    _ = 2 ^ 32 := by decide

theorem lastValid_none {ok : Nat → Bool} (h : lastValid v wal crc ok p n = none) :
    ∀ f < n, ok f = true → framePnum v wal f = p → validPage v wal f crc = none := by
  induction n with
  | zero => exact fun f hf => absurd hf (Nat.not_lt_zero f)
  | succ n ih =>
    intro f hf hok hp
    unfold lastValid at h
    rcases Nat.lt_succ_iff_lt_or_eq.mp hf with hlt | rfl
    · split at h
      · exact ih (Option.or_eq_none_iff.mp h).2 f hlt hok hp
      · exact ih h f hlt hok hp
    · rw [if_pos ⟨hok, hp⟩] at h
      exact (Option.or_eq_none_iff.mp h).1

/-- The frame it is the page of, with no valid one behind it. -/
theorem lastValid_some {ok : Nat → Bool} {page : PageData} (h : lastValid v wal crc ok p n = some page) :
    ∃ f < n, ok f = true ∧ framePnum v wal f = p ∧ validPage v wal f crc = some page ∧
      ∀ g, f < g → g < n → ok g = true → framePnum v wal g = p → validPage v wal g crc = none := by
  induction n with
  | zero => cases h
  | succ n ih =>
    unfold lastValid at h
    split at h
    next hok =>
      cases hv : validPage v wal n crc with
      | some x =>
        rw [hv] at h
        obtain rfl : x = page := Option.some.inj h
        exact ⟨n, Nat.lt_succ_self n, hok.1, hok.2, hv, fun g hg hlt => by omega⟩
      | none =>
        rw [hv] at h
        obtain ⟨f, hf, hokf, hp, hpage, hlast⟩ := ih h
        refine ⟨f, Nat.lt_succ_of_lt hf, hokf, hp, hpage, fun g hg hlt hokg hpg => ?_⟩
        rcases Nat.lt_succ_iff_lt_or_eq.mp hlt with hlt | rfl
        · exact hlast g hg hlt hokg hpg
        · exact hv
    next hno =>
      obtain ⟨f, hf, hokf, hp, hpage, hlast⟩ := ih h
      refine ⟨f, Nat.lt_succ_of_lt hf, hokf, hp, hpage, fun g hg hlt hokg hpg => ?_⟩
      rcases Nat.lt_succ_iff_lt_or_eq.mp hlt with hlt | rfl
      · exact hlast g hg hlt hokg hpg
      · exact absurd ⟨hokg, hpg⟩ hno

/-- Frames that are not taken do not count. -/
theorem lastValid_add {ok : Nat → Bool} {d : Nat} (h : ∀ f, n ≤ f → f < n + d → ok f = false) :
    lastValid v wal crc ok p (n + d) = lastValid v wal crc ok p n := by
  induction d with
  | zero => rfl
  | succ d ih =>
    rw [Nat.add_succ, lastValid, if_neg fun hn => ?_, ih fun f hf hlt => h f hf (by omega)]
    rw [h (n + d) (by omega) (by omega)] at hn
    exact absurd hn.1 Bool.false_ne_true

end CustomDB
