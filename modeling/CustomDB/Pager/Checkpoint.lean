import CustomDB.Lib.BlockFile
import CustomDB.Pager.WalFrames

/-!
# Checkpointing

`pager_checkpoint` writes the valid frames over the main file, the first one first, while `get_page` takes the last
one. A page reads the same before and after, as long as the length the pager knows of the main file keeps up, and as
`get_page` has left nothing of a corrupt frame in its buffer.
-/

namespace CustomDB

open Lib Lib.Bytes

/-- A pager in WAL mode with its two files, the main file in whole pages. `file_length` is in 32 bits. -/
structure WalDb where
  version : WalVersion
  wal : List UInt8
  main : List PageData
  fileLength : BitVec 32
  /-- The pager knows of no more than there is. -/
  known : fileLength.toNat ≤ main.length * pageSize

namespace WalDb

/-- `(f_pnum + 1) * PAGE_SIZE`, in 32 bits. -/
def pageEnd (pnum : Nat) : BitVec 32 := BitVec.ofNat 32 ((pnum + 1) * pageSize)

theorem pageEnd_le (pnum : Nat) : (pageEnd pnum).toNat ≤ (pnum + 1) * pageSize := by
  rw [pageEnd, BitVec.toNat_ofNat]
  exact Nat.mod_le ..

theorem writeBack_known (s : WalDb) (pnum : Nat) (page : PageData) :
    (if s.fileLength < pageEnd pnum then pageEnd pnum else s.fileLength).toNat ≤
      (BlockFile.write PageData.zero s.main pnum page).length * pageSize := by
  rw [BlockFile.length_write]
  have hend := pageEnd_le pnum
  have hknown := s.known
  split
  · exact le_trans hend (Nat.mul_le_mul_right pageSize (le_max_right _ _))
  · exact le_trans hknown (Nat.mul_le_mul_right pageSize (le_max_left _ _))

/-- `pwrite` of a page, and what it makes of `file_length`. -/
def writeBack (s : WalDb) (pnum : Nat) (page : PageData) : WalDb where
  version := s.version
  wal := s.wal
  main := BlockFile.write PageData.zero s.main pnum page
  fileLength := if s.fileLength < pageEnd pnum then pageEnd pnum else s.fileLength
  known := writeBack_known s pnum page

section Checksum

variable (crc : List UInt8 → BitVec 32) (s : WalDb)

/-- `num_frames`. -/
def numFrames : Nat := CustomDB.numFrames s.version s.wal

/-- One turn of the loop of `pager_checkpoint`. -/
def replayFrame (f : Nat) : WalDb :=
  match framePage s.version s.wal f with
  | none => s
  | some page =>
    if storedCrc s.version s.wal f = (crc page.bytes).toNat then s.writeBack (framePnum s.version s.wal f) page else s

/-- `pager_checkpoint`, with the lock it takes. The cached pages are dropped. -/
def pagerCheckpoint : WalDb :=
  if 0 < s.numFrames then { (List.range s.numFrames).foldl (replayFrame crc) s with wal := [], version := .v2 } else s

/-- The pages of the main file that `get_page` reads. -/
def filePages : Nat := s.fileLength.toNat / pageSize

/-- `get_page` of a page that is not cached. -/
def getPage (p : BitVec 32) : List UInt8 :=
  (WalReader.mk s.version s.filePages (BlockFile.read PageData.zero s.main)).getPage crc s.wal p

/-- No page reads differently, and the WAL is empty. -/
def CheckpointKeeps : Prop :=
  (∀ p, (s.pagerCheckpoint crc).getPage crc p = s.getPage crc p) ∧ (s.pagerCheckpoint crc).wal = []

/-! ## When it does -/

/-- The page of the last valid frame. -/
def lastFrame (p : BitVec 32) : Option PageData :=
  lastValid s.version s.wal crc (fun _ => true) p.toNat s.numFrames

/-- The page of the first frame for `p`, valid or not. -/
def firstFrame (p : BitVec 32) : Option (List UInt8) :=
  ((List.range s.numFrames).find? fun f => framePnum s.version s.wal f = p.toNat).map fun f =>
    slice s.wal (dataOffset s.version f) pageSize

/-- A valid frame takes `file_length` past `p`, in 32 bits. -/
def Passed (p : BitVec 32) : Prop :=
  ∃ f < s.numFrames, (validPage s.version s.wal f crc).isSome = true ∧
    p.toNat < (pageEnd (framePnum s.version s.wal f)).toNat / pageSize

/-- The WAL has a frame, if anything. A page with a valid frame ends below 4 GiB, or is zeros. A page without, behind
the end the pager knows of: what its first frame has is what the main file has there if a valid frame takes the end
past it, and zeros if none does. -/
structure CheckpointClean : Prop where
  frames : s.wal = [] ∨ 0 < s.numFrames
  found : ∀ p page, s.lastFrame crc p = some page → p.toNat + 1 < 2 ^ 20 ∨ page.bytes = PageData.zero.bytes
  passed : ∀ p, s.lastFrame crc p = none → s.filePages ≤ p.toNat → s.Passed crc p →
    (s.firstFrame p).getD PageData.zero.bytes = (BlockFile.read PageData.zero s.main p.toNat).bytes
  behind : ∀ p, s.lastFrame crc p = none → s.filePages ≤ p.toNat → ¬ s.Passed crc p →
    (s.firstFrame p).getD PageData.zero.bytes = PageData.zero.bytes

end Checksum

variable {crc : List UInt8 → BitVec 32} {s t : WalDb} {n f : Nat} {p : BitVec 32}

/-! ## What the loop leaves -/

/-- The files after the first `n` frames. -/
structure Replayed (crc : List UInt8 → BitVec 32) (s t : WalDb) (n : Nat) : Prop where
  version : t.version = s.version
  wal : t.wal = s.wal
  main : ∀ p, BlockFile.read PageData.zero t.main p =
    (lastValid s.version s.wal crc (fun _ => true) p n).getD (BlockFile.read PageData.zero s.main p)
  grows : s.fileLength.toNat ≤ t.fileLength.toNat
  past : ∀ f < n, (validPage s.version s.wal f crc).isSome = true →
    (pageEnd (framePnum s.version s.wal f)).toNat ≤ t.fileLength.toNat
  reached : t.fileLength = s.fileLength ∨ ∃ f < n, (validPage s.version s.wal f crc).isSome = true ∧
    t.fileLength = pageEnd (framePnum s.version s.wal f)

theorem validPage_of_crc {page : PageData} (hp : framePage s.version s.wal f = some page) :
    validPage s.version s.wal f crc =
      if storedCrc s.version s.wal f = (crc page.bytes).toNat then some page else none := by
  rw [validPage, hp, Option.filter_some]
  simp only [decide_eq_true_eq]

theorem replayFrame_eq (hf : f < s.numFrames) (hv : t.version = s.version) (hw : t.wal = s.wal) :
    t.replayFrame crc f =
      match validPage s.version s.wal f crc with
      | some page => t.writeBack (framePnum s.version s.wal f) page
      | none => t := by
  obtain ⟨page, hpage, -⟩ := @framePage_eq s.version s.wal _ hf
  rw [replayFrame, hv, hw, hpage, validPage_of_crc hpage]
  dsimp only
  split
  · rfl
  · rfl

theorem Replayed.step (h : Replayed crc s t n) (hn : n < s.numFrames) : Replayed crc s (t.replayFrame crc n) (n + 1) := by
  rw [replayFrame_eq hn h.version h.wal]
  cases hv : validPage s.version s.wal n crc with
  | none =>
    refine ⟨h.version, h.wal, fun p => ?_, h.grows, fun f hf hvf => ?_, ?_⟩
    · rw [h.main, lastValid, hv, Option.none_or, ite_self]
    · rcases Nat.lt_succ_iff_lt_or_eq.mp hf with hlt | rfl
      · exact h.past f hlt hvf
      · rw [hv] at hvf
        cases hvf
    · rcases h.reached with he | ⟨f, hf, he⟩
      · exact Or.inl he
      · exact Or.inr ⟨f, Nat.lt_succ_of_lt hf, he⟩
  | some page =>
    have hlen : (t.writeBack (framePnum s.version s.wal n) page).fileLength.toNat =
        max t.fileLength.toNat (pageEnd (framePnum s.version s.wal n)).toNat := by
      show (if t.fileLength < pageEnd _ then pageEnd _ else t.fileLength).toNat = _
      split
      next hlt => exact (max_eq_right (Nat.le_of_lt (BitVec.lt_def.mp hlt))).symm
      next hge => exact (max_eq_left (not_lt.mp fun hlt => hge (BitVec.lt_def.mpr hlt))).symm
    refine ⟨h.version, h.wal, fun p => ?_, ?_, fun f hf hvf => ?_, ?_⟩
    · show BlockFile.read PageData.zero (BlockFile.write PageData.zero t.main _ page) p = _
      rw [BlockFile.read_write, h.main, lastValid, hv, Option.some_or]
      by_cases hp : p = framePnum s.version s.wal n
      · rw [if_pos hp, if_pos ⟨rfl, hp.symm⟩, Option.getD_some]
      · rw [if_neg hp, if_neg fun hn => hp hn.2.symm]
    · rw [hlen]
      exact le_trans h.grows (le_max_left _ _)
    · rw [hlen]
      rcases Nat.lt_succ_iff_lt_or_eq.mp hf with hlt | rfl
      · exact le_trans (h.past f hlt hvf) (le_max_left _ _)
      · exact le_max_right _ _
    · by_cases hlt : t.fileLength < pageEnd (framePnum s.version s.wal n)
      · exact Or.inr ⟨n, Nat.lt_succ_self n, by rw [hv]; rfl, if_pos hlt⟩
      · have hsame : (t.writeBack (framePnum s.version s.wal n) page).fileLength = t.fileLength := if_neg hlt
        dsimp only
        rw [hsame]
        rcases h.reached with he | ⟨f, hf, he⟩
        · exact Or.inl he
        · exact Or.inr ⟨f, Nat.lt_succ_of_lt hf, he⟩

theorem replayed (crc : List UInt8 → BitVec 32) (s : WalDb) {n : Nat} (hn : n ≤ s.numFrames) :
    Replayed crc s ((List.range n).foldl (replayFrame crc) s) n := by
  induction n with
  | zero => exact ⟨rfl, rfl, fun _ => rfl, le_refl _, fun f hf => absurd hf (Nat.not_lt_zero f), Or.inl rfl⟩
  | succ n ih =>
    rw [List.range_succ, List.foldl_concat]
    exact (ih (Nat.le_of_succ_le hn)).step hn

/-! ## What `get_page` reads -/

/-- The scan from the last frame on finds the last valid frame, or leaves the first one in the buffer. -/
theorem scanFrames_eq (s : WalDb) (p : BitVec 32) (hn : n ≤ s.numFrames) (buf : List UInt8) :
    scanFrames crc s.version s.wal p n buf =
      match lastValid s.version s.wal crc (fun _ => true) p.toNat n with
      | some page => (true, page.bytes)
      | none => (false, (((List.range n).find? fun f => framePnum s.version s.wal f = p.toNat).map fun f =>
          slice s.wal (dataOffset s.version f) pageSize).getD buf) := by
  induction n generalizing buf with
  | zero => rfl
  | succ n ih =>
    have ih := fun buf => ih (Nat.le_of_succ_le hn) buf
    obtain ⟨page, hpage, hbytes⟩ := @framePage_eq s.version s.wal _ (Nat.lt_of_succ_le hn)
    have hstep : scanFrames crc s.version s.wal p (n + 1) buf =
        if framePnum s.version s.wal n = p.toNat then
          if storedCrc s.version s.wal n = (crc page.bytes).toNat then (true, page.bytes)
          else scanFrames crc s.version s.wal p n page.bytes
        else scanFrames crc s.version s.wal p n buf := by
      rw [hbytes]
      rfl
    rw [hstep, List.range_succ, List.find?_append, List.find?_singleton]
    by_cases hp : framePnum s.version s.wal n = p.toNat
    · have hlast : lastValid s.version s.wal crc (fun _ => true) p.toNat (n + 1) =
          (if storedCrc s.version s.wal n = (crc page.bytes).toNat then some page else none).or
            (lastValid s.version s.wal crc (fun _ => true) p.toNat n) := by
        rw [lastValid, if_pos ⟨rfl, hp⟩, validPage_of_crc hpage]
      rw [hlast, if_pos hp, decide_eq_true hp, if_pos rfl]
      by_cases hc : storedCrc s.version s.wal n = (crc page.bytes).toNat
      · rw [if_pos hc, if_pos hc]
        rfl
      · rw [if_neg hc, if_neg hc, ih, Option.none_or, hbytes]
        cases lastValid s.version s.wal crc (fun _ => true) p.toNat n with
        | some x => rfl
        | none =>
          cases (List.range n).find? fun f => framePnum s.version s.wal f = p.toNat with
          | some g => rfl
          | none => rfl
    · have hlast : lastValid s.version s.wal crc (fun _ => true) p.toNat (n + 1) =
          lastValid s.version s.wal crc (fun _ => true) p.toNat n := by
        rw [lastValid, if_neg fun hn => hp hn.2]
      rw [hlast, if_neg hp, ih, decide_eq_false hp, if_neg Bool.false_ne_true, Option.or_none]

theorem getPage_eq (s : WalDb) (p : BitVec 32) :
    s.getPage crc p =
      match s.lastFrame crc p with
      | some page => page.bytes
      | none =>
        if p.toNat < s.filePages then (BlockFile.read PageData.zero s.main p.toNat).bytes
        else (s.firstFrame p).getD PageData.zero.bytes := by
  have hscan : scanFrames crc s.version s.wal p s.numFrames (List.replicate pageSize 0) = _ := scanFrames_eq s p le_rfl _
  unfold getPage WalReader.getPage
  dsimp only
  change WalReader.finish _ p (scanFrames crc s.version s.wal p s.numFrames (List.replicate pageSize 0)) = _
  rw [hscan]
  unfold lastFrame WalReader.finish
  cases lastValid s.version s.wal crc (fun _ => true) p.toNat s.numFrames with
  | some page => rfl
  | none =>
    dsimp only
    by_cases hp : p.toNat < s.filePages
    · rw [if_pos hp, if_pos ⟨rfl, hp⟩]
    · rw [if_neg hp, if_neg fun hn => hp hn.2]
      rfl

/-- Without a WAL a page is what the main file has. -/
theorem getPage_empty (hw : s.wal = []) (hv : s.version = .v2) (p : BitVec 32) :
    s.getPage crc p = if p.toNat < s.filePages then (BlockFile.read PageData.zero s.main p.toNat).bytes
      else PageData.zero.bytes := by
  have hnone : s.numFrames = 0 := by
    unfold numFrames
    rw [hw, hv]
    rfl
  have hlast : s.lastFrame crc p = none := by
    unfold lastFrame
    rw [hnone]
    rfl
  have hfirst : s.firstFrame p = none := by
    unfold firstFrame
    rw [hnone]
    rfl
  rw [getPage_eq, hlast, hfirst]
  rfl

theorem filePages_lt (s : WalDb) : s.filePages < 2 ^ 20 := by
  have h := s.fileLength.isLt
  unfold filePages pageSize
  omega

theorem pageEnd_pages {k : Nat} (hk : k + 1 < 2 ^ 20) : (pageEnd k).toNat / pageSize = k + 1 := by
  rw [pageEnd, BitVec.toNat_ofNat]
  unfold pageSize
  omega

/-- How far the main file is known after the loop. -/
theorem Replayed.filePages (h : Replayed crc s t s.numFrames) (p : BitVec 32) :
    p.toNat < t.filePages ↔ p.toNat < s.filePages ∨ s.Passed crc p := by
  constructor
  · intro hp
    rcases h.reached with he | ⟨f, hf, hv, he⟩
    · left
      unfold WalDb.filePages at hp ⊢
      rwa [he] at hp
    · right
      unfold WalDb.filePages at hp
      rw [he] at hp
      exact ⟨f, hf, hv, hp⟩
  · rintro (hp | ⟨f, hf, hv, hp⟩)
    · exact lt_of_lt_of_le hp (Nat.div_le_div_right h.grows)
    · exact lt_of_lt_of_le hp (Nat.div_le_div_right (h.past f hf hv))

/-- A page with a valid frame is read from the main file afterwards, below 4 GiB. -/
theorem Replayed.found (h : Replayed crc s t s.numFrames) {page : PageData} (hl : s.lastFrame crc p = some page) :
    p.toNat < t.filePages ↔ p.toNat + 1 < 2 ^ 20 := by
  constructor
  · intro hp
    have hlt := t.filePages_lt
    omega
  · intro hp
    obtain ⟨f, hf, -, hpnum, hv, -⟩ := lastValid_some hl
    refine (h.filePages p).mpr (Or.inr ⟨f, hf, by rw [hv]; rfl, ?_⟩)
    rw [hpnum, pageEnd_pages hp]
    exact Nat.lt_succ_self _

/-- What a page reads as after a checkpoint of at least a frame. -/
theorem Replayed.getPage (h : Replayed crc s t s.numFrames) (p : BitVec 32) :
    ({ t with wal := [], version := .v2 } : WalDb).getPage crc p =
      if p.toNat < t.filePages then
        ((s.lastFrame crc p).getD (BlockFile.read PageData.zero s.main p.toNat)).bytes
      else PageData.zero.bytes := by
  have hmain : BlockFile.read PageData.zero t.main p.toNat =
      (s.lastFrame crc p).getD (BlockFile.read PageData.zero s.main p.toNat) := h.main p.toNat
  rw [getPage_empty rfl rfl, ← hmain]
  rfl

theorem Replayed.same_iff (h : Replayed crc s t s.numFrames) (p : BitVec 32) :
    ({ t with wal := [], version := .v2 } : WalDb).getPage crc p = s.getPage crc p ↔
      (∀ page, s.lastFrame crc p = some page → p.toNat + 1 < 2 ^ 20 ∨ page.bytes = PageData.zero.bytes) ∧
      (s.lastFrame crc p = none → s.filePages ≤ p.toNat → s.Passed crc p →
        (s.firstFrame p).getD PageData.zero.bytes = (BlockFile.read PageData.zero s.main p.toNat).bytes) ∧
      (s.lastFrame crc p = none → s.filePages ≤ p.toNat → ¬ s.Passed crc p →
        (s.firstFrame p).getD PageData.zero.bytes = PageData.zero.bytes) := by
  rw [h.getPage, getPage_eq]
  cases hl : s.lastFrame crc p with
  | some page =>
    dsimp only [Option.getD_some]
    have hfound := h.found hl
    constructor
    · intro he
      refine ⟨fun x hx => ?_, (fun hn => by cases hn), fun hn => by cases hn⟩
      obtain rfl := Option.some.inj hx
      by_cases hp : p.toNat + 1 < 2 ^ 20
      · exact Or.inl hp
      · rw [if_neg fun hn => hp (hfound.mp hn)] at he
        exact Or.inr he.symm
    · rintro ⟨hp, -, -⟩
      rcases hp page rfl with hp | hp
      · rw [if_pos (hfound.mpr hp)]
      · rw [hp, ite_self]
  | none =>
    dsimp only [Option.getD_none]
    have hpages := h.filePages p
    by_cases hin : p.toNat < s.filePages
    · rw [if_pos (hpages.mpr (Or.inl hin)), if_pos hin]
      exact iff_of_true rfl ⟨(fun x hx => by cases hx), fun _ hn => absurd hin (not_lt.mpr hn), fun _ hn =>
        absurd hin (not_lt.mpr hn)⟩
    · rw [if_neg hin]
      by_cases hpass : s.Passed crc p
      · rw [if_pos (hpages.mpr (Or.inr hpass))]
        exact ⟨fun he => ⟨(fun x hx => by cases hx), fun _ _ _ => he.symm, fun _ _ hn => absurd hpass hn⟩,
          fun hc => (hc.2.1 rfl (not_lt.mp hin) hpass).symm⟩
      · rw [if_neg fun hn => (hpages.mp hn).elim hin hpass]
        exact ⟨fun he => ⟨(fun x hx => by cases hx), fun _ _ hn => absurd hn hpass, fun _ _ _ => he.symm⟩,
          fun hc => (hc.2.2 rfl (not_lt.mp hin) hpass).symm⟩

/-- A checkpoint changes no page and empties the WAL exactly in these cases. -/
theorem checkpoint_keeps_iff (crc : List UInt8 → BitVec 32) (s : WalDb) : s.CheckpointKeeps crc ↔ s.CheckpointClean crc := by
  unfold CheckpointKeeps pagerCheckpoint
  by_cases hn : 0 < s.numFrames
  · rw [if_pos hn]
    have h := replayed crc s (le_refl s.numFrames)
    constructor
    · rintro ⟨hsame, -⟩
      have hp := fun p => (h.same_iff p).mp (hsame p)
      exact ⟨Or.inr hn, fun p => (hp p).1, fun p => (hp p).2.1, fun p => (hp p).2.2⟩
    · intro hc
      exact ⟨fun p => (h.same_iff p).mpr ⟨hc.found p, hc.passed p, hc.behind p⟩, rfl⟩
  · rw [if_neg hn]
    have hzero : s.numFrames = 0 := Nat.eq_zero_of_not_pos hn
    have hlast : ∀ p, s.lastFrame crc p = none := fun p => by
      unfold lastFrame
      rw [hzero]
      rfl
    have hfirst : ∀ p, s.firstFrame p = none := fun p => by
      unfold firstFrame
      rw [hzero]
      rfl
    constructor
    · rintro ⟨-, hw⟩
      refine ⟨Or.inl hw, fun p page hp => ?_, fun p _ _ hpass => ?_, fun p _ _ _ => ?_⟩
      · rw [hlast] at hp
        cases hp
      · obtain ⟨f, hf, -⟩ := hpass
        exact absurd (lt_of_le_of_lt (Nat.zero_le f) hf) hn
      · rw [hfirst]
        rfl
    · intro hc
      exact ⟨fun _ => rfl, hc.frames.resolve_right hn⟩

/-! ## A corrupt frame behind the end -/

/-- An empty main file, and a frame for page 0 with a wrong checksum in the WAL. -/
def corruptFrame (crc : List UInt8 → BitVec 32) : WalDb where
  version := .v1
  wal := (Flush.mk 0 (markedPage 1 1) 0 0 0).frame (fun bs => crc bs + 1) .v1 0
  main := []
  fileLength := 0
  known := Nat.zero_le _

theorem corruptFrame_frames (crc : List UInt8 → BitVec 32) : (corruptFrame crc).numFrames = 1 ∧
    framePnum .v1 (corruptFrame crc).wal 0 = 0 ∧
    slice (corruptFrame crc).wal (dataOffset .v1 0) pageSize = (markedPage 1 1).bytes ∧
    validPage .v1 (corruptFrame crc).wal 0 crc = none := by
  have hoff : frameOffset .v1 0 = 0 := by decide
  have hdata : dataOffset .v1 0 = WalVersion.v1.frameHead := by decide
  have hwal : (corruptFrame crc).wal = (Flush.mk 0 (markedPage 1 1) 0 0 0).frame (fun bs => crc bs + 1) .v1 0 := rfl
  have hnum : (corruptFrame crc).numFrames = 1 := by
    show CustomDB.numFrames .v1 (corruptFrame crc).wal = 1
    refine @numFrames_eq .v1 _ 1 0 ?_ (Nat.lt_of_le_of_lt (Nat.zero_le _) (frameSize_pos _))
    rw [hwal, length_frame, show WalVersion.v1.headerOffset = 0 from rfl, Nat.zero_add, Nat.one_mul, Nat.add_zero]
  have hpnum : framePnum .v1 (corruptFrame crc).wal 0 = 0 := by
    rw [framePnum, hoff, hwal, frame_pageNum]
    rfl
  have hpage : slice (corruptFrame crc).wal (dataOffset .v1 0) pageSize = (markedPage 1 1).bytes := by
    rw [hdata, hwal, frame_slice]
  have hcrc : storedCrc .v1 (corruptFrame crc).wal 0 = (crc (markedPage 1 1).bytes + 1).toNat := by
    rw [storedCrc, hoff, hwal, Nat.zero_add, frame_crc]
  refine ⟨hnum, hpnum, hpage, ?_⟩
  have hpos : 0 < CustomDB.numFrames .v1 (corruptFrame crc).wal := Nat.lt_of_lt_of_eq Nat.one_pos hnum.symm
  obtain ⟨page, hp, hbytes⟩ := framePage_eq hpos
  refine (@validPage_of_crc crc (corruptFrame crc) 0 page hp).trans (if_neg ?_)
  rw [show (corruptFrame crc).version = .v1 from rfl, hcrc, hbytes, hpage]
  generalize crc (markedPage 1 1).bytes = c
  bv_omega

/-- Before the checkpoint page 0 reads as the corrupt frame, afterwards as zeros. -/
theorem corruptFrame_reads (crc : List UInt8 → BitVec 32) :
    (corruptFrame crc).getPage crc 0 = (markedPage 1 1).bytes ∧
      ((corruptFrame crc).pagerCheckpoint crc).getPage crc 0 = PageData.zero.bytes := by
  obtain ⟨hnum, hpnum, hpage, hvalid⟩ := corruptFrame_frames crc
  have hversion : (corruptFrame crc).version = .v1 := rfl
  have hfile : ¬ (0 : BitVec 32).toNat < (corruptFrame crc).filePages := by
    show ¬ 0 < 0 / pageSize
    decide
  have hlast : (corruptFrame crc).lastFrame crc 0 = none := by
    unfold lastFrame
    rw [hnum, lastValid, hversion, hvalid]
    exact ite_self _
  have hfirst : (corruptFrame crc).firstFrame 0 = some (markedPage 1 1).bytes := by
    have hfound : (List.range 1).find? (fun f => decide (framePnum .v1 (corruptFrame crc).wal f = (0 : BitVec 32).toNat)) =
        some 0 := List.find?_cons_of_pos (decide_eq_true hpnum)
    unfold firstFrame
    rw [hnum, hversion, hfound, Option.map_some, hpage]
  have hpass : ¬ (corruptFrame crc).Passed crc 0 := by
    rintro ⟨f, hf, hv, -⟩
    obtain rfl : f = 0 := by omega
    rw [hversion, hvalid] at hv
    cases hv
  constructor
  · rw [getPage_eq, hlast, hfirst]
    exact if_neg hfile
  · have h := replayed crc (corruptFrame crc) (le_refl _)
    unfold pagerCheckpoint
    rw [if_pos (by rw [hnum]; exact Nat.one_pos), h.getPage, if_neg]
    rw [h.filePages]
    exact fun hn => hn.elim hfile hpass

/-- No checksum helps. -/
theorem checkpoint_clears_corrupt :
    ¬ ∃ crc : List UInt8 → BitVec 32, ∀ s : WalDb, s.version = .v1 → s.main = [] → s.CheckpointKeeps crc := by
  rintro ⟨crc, hk⟩
  have hsame := (hk (corruptFrame crc) rfl rfl).1 0
  obtain ⟨hbefore, hafter⟩ := corruptFrame_reads crc
  rw [hbefore, hafter] at hsame
  have hzero : (markedPage 1 1).bytes[0]? = PageData.zero.bytes[0]? := by rw [hsame]
  exact absurd hzero (by decide)

end WalDb

end CustomDB
