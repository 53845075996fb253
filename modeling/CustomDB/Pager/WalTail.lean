import Mathlib.Data.List.Induction
import CustomDB.Pager.WalBytes

/-!
# Appending behind a torn frame

Where the file ends with a whole frame every append is found again. Behind a partial frame every later frame is out of
step with the frames `get_page` looks at.
-/

namespace CustomDB

open Lib.Bytes

variable {crc : List UInt8 → BitVec 32} {v : WalVersion} {wal : List UInt8} {p : BitVec 32} {n : Nat}

/-- The file ends with a whole frame. -/
def Aligned (v : WalVersion) (wal : List UInt8) : Prop := ∃ n, wal.length = v.headerOffset + n * v.frameSize

theorem frameSize_pos (v : WalVersion) : pageSize < v.frameSize := by
  have hv := frameHead_pos v
  unfold WalVersion.frameSize
  omega

theorem numFrames_eq {k : Nat} (h : wal.length = v.headerOffset + n * v.frameSize + k) (hk : k < v.frameSize) :
    numFrames v wal = n := by
  have hsub : wal.length - v.headerOffset = k + v.frameSize * n := by
    rw [h, Nat.mul_comm]
    omega
  rw [numFrames, if_pos (by omega), hsub, Nat.add_mul_div_left _ _ (by omega), Nat.div_eq_of_lt hk, Nat.zero_add]

/-! ## Frames in step -/

/-- What comes behind the frames does not change them. -/
theorem scanFrames_append {x : List UInt8} (h : v.headerOffset + n * v.frameSize ≤ wal.length) (buf : List UInt8) :
    scanFrames crc v (wal ++ x) p n buf = scanFrames crc v wal p n buf := by
  induction n generalizing buf with
  | zero => rfl
  | succ n ih =>
    have hv := frameHead_pos v
    have hsize : v.frameSize = v.frameHead + pageSize := rfl
    rw [Nat.succ_mul] at h
    have ih := ih (by omega)
    simp only [scanFrames]
    rw [slice_append_left (by omega), slice_append_left (by unfold pageSize at *; omega), slice_append_left (by omega)]
    simp only [ih]

theorem scanFrames_frame (h : wal.length = v.headerOffset + n * v.frameSize) (f : Flush) (lsn : Nat) (buf : List UInt8) :
    scanFrames crc v (wal ++ f.frame crc v lsn) p (n + 1) buf =
      if f.pageNum = p then (true, f.buf.bytes) else scanFrames crc v wal p n buf := by
  have hat : ∀ off k, slice (wal ++ f.frame crc v lsn) (v.headerOffset + n * v.frameSize + off) k =
      slice (f.frame crc v lsn) off k := by
    intro off k
    rw [← h]
    exact slice_drop
  have hnum := hat 0 4
  rw [Nat.add_zero] at hnum
  simp only [scanFrames]
  rw [hnum, hat, hat, frame_pageNum, frame_crc, frame_slice]
  by_cases hp : f.pageNum = p
  · rw [if_pos (by rw [hp]), if_pos rfl, if_pos hp]
  · rw [if_neg fun he => hp (BitVec.eq_of_toNat_eq he), if_neg hp, scanFrames_append h.ge]

/-- An append to whole frames is found, and hides nothing. -/
theorem getPage_append {reader : WalReader} (hv : reader.version = v)
    (h : wal.length = v.headerOffset + n * v.frameSize) (f : Flush) (lsn : Nat) :
    reader.getPage crc (wal ++ f.frame crc v lsn) p = if f.pageNum = p then f.buf.bytes else reader.getPage crc wal p := by
  have hpos := frameSize_pos v
  have hlen : (wal ++ f.frame crc v lsn).length = v.headerOffset + (n + 1) * v.frameSize + 0 := by
    rw [List.length_append, h, length_frame, Nat.succ_mul]
    omega
  rw [WalReader.getPage, WalReader.getPage, hv, numFrames_eq hlen (by omega), numFrames_eq (k := 0) h (by omega),
    scanFrames_frame h]
  split
  · rfl
  · rfl

/-- Every pager reads the file in the version it was opened in, and the file ends with a whole frame. -/
structure WalPager.Intact (s : WalPager) : Prop where
  version : s.version = walVersion s.wal
  long : 4 ≤ s.wal.length
  aligned : Aligned s.version s.wal

theorem walVersion_append {x : List UInt8} (h : 4 ≤ wal.length) : walVersion (wal ++ x) = walVersion wal := by
  have hlen : 4 ≤ (wal ++ x).length := by
    rw [List.length_append]
    omega
  rw [walVersion, walVersion, slice_append_left (by omega)]
  simp only [h, hlen, true_and]

variable (crc) in
theorem WalPager.Intact.pagerFlush {s : WalPager} (h : s.Intact) (f : Flush) : (s.pagerFlush crc f).Intact ∧
    (s.pagerFlush crc f).version = s.version ∧ ∃ lsn, (s.pagerFlush crc f).wal = s.wal ++ f.frame crc s.version lsn := by
  have hne : s.wal ≠ [] := by
    intro hn
    have hlong := h.long
    rw [hn] at hlong
    exact absurd hlong (by decide)
  unfold WalPager.pagerFlush
  rw [if_neg hne]
  refine ⟨⟨h.version.trans (walVersion_append h.long).symm, ?_, ?_⟩, rfl, _, rfl⟩
  · have hlong := h.long
    rw [List.length_append]
    omega
  · obtain ⟨n, hn⟩ := h.aligned
    refine ⟨n + 1, ?_⟩
    show (s.wal ++ f.frame crc s.version _).length = s.version.headerOffset + (n + 1) * s.version.frameSize
    rw [List.length_append, hn, length_frame, Nat.succ_mul]
    omega

variable (crc) in
theorem WalPager.Intact.run {s : WalPager} (h : s.Intact) (fs : List Flush) :
    (fs.foldl (WalPager.pagerFlush crc) s).Intact := by
  induction fs generalizing s with
  | nil => exact h
  | cons f fs ih => exact ih (h.pagerFlush crc f).1

/-- Any reader finds the last flush of a page. -/
theorem WalPager.Intact.getPage {s : WalPager} (h : s.Intact) (f : Flush) (post : List Flush)
    (hpost : ∀ g ∈ post, g.pageNum ≠ f.pageNum) {reader : WalReader} (hv : reader.version = s.version) :
    reader.getPage crc ((f :: post).foldl (WalPager.pagerFlush crc) s).wal f.pageNum = f.buf.bytes ∧
      ((f :: post).foldl (WalPager.pagerFlush crc) s).version = s.version := by
  induction post using List.reverseRecOn with
  | nil =>
    obtain ⟨-, hver, lsn, hwal⟩ := h.pagerFlush crc f
    obtain ⟨n, hn⟩ := h.aligned
    refine ⟨?_, hver⟩
    show reader.getPage crc (s.pagerFlush crc f).wal f.pageNum = _
    rw [hwal, getPage_append hv hn, if_pos rfl]
  | append_singleton post g ih =>
    obtain ⟨hread, hver⟩ := ih fun k hk => hpost k (List.mem_append_left _ hk)
    have hint := h.run crc (f :: post)
    obtain ⟨-, hver', lsn, hwal⟩ := hint.pagerFlush crc g
    obtain ⟨n, hn⟩ := hint.aligned
    rw [← List.cons_append, List.foldl_concat]
    refine ⟨?_, hver'.trans hver⟩
    rw [hwal, getPage_append (hv.trans hver.symm) hn, if_neg (hpost g (List.mem_append_right _ (List.mem_singleton_self g)))]
    exact hread

theorem aligned_survives (h : wal ≠ []) (ha : Aligned (walVersion wal) wal) : AppendsSurvive crc wal := by
  have hlong : 4 ≤ wal.length := by
    obtain ⟨n, hn⟩ := ha
    have hpos := List.length_pos_iff.mpr h
    unfold walVersion at hn
    split at hn
    · next h4 => exact h4.1
    · have hsize : WalVersion.v1.frameSize = 4104 := rfl
      rw [hsize] at hn
      change wal.length = 0 + n * 4104 at hn
      omega
  intro walLsn pre post f reader hpost
  have hint : (WalPager.opened wal walLsn).Intact := ⟨rfl, hlong, ha⟩
  have hpre := hint.run crc pre
  rw [List.foldl_append]
  intro s hv
  have hs := (hpre.run crc (f :: post)).version
  have hver : (List.foldl (WalPager.pagerFlush crc) _ (f :: post)).version = _ :=
    (hpre.getPage f post hpost (rfl : ({ reader with version := _ } : WalReader).version = _)).2
  have hreader : reader.version = (pre.foldl (WalPager.pagerFlush crc) (WalPager.opened wal walLsn)).version := by
    rcases hv with hv | hv
    · exact hv.trans hver
    · exact hv.trans (hs.symm.trans hver)
  exact (hpre.getPage f post hpost hreader).1

/-! ## Frames out of step -/

theorem length_mark (b c : UInt8) : (b :: List.replicate (pageSize - 1) c).length = pageSize := by
  rw [List.length_cons, List.length_replicate]
  rfl

/-- A page with one byte in front of the others. -/
def markedPage (b c : UInt8) : PageData := ⟨b :: List.replicate (pageSize - 1) c, length_mark b c⟩

theorem markedPage_get {b c : UInt8} {k : Nat} (h0 : 0 < k) (hk : k < pageSize) : (markedPage b c).bytes[k]? = some c := by
  obtain ⟨k, rfl⟩ := Nat.exists_eq_succ_of_ne_zero (by omega : k ≠ 0)
  show (List.replicate (pageSize - 1) c)[k]? = some c
  exact List.getElem?_replicate_of_lt (by omega)

/-- The frame that a partial frame of `k` bytes and the first bytes of the next make up has another page. -/
theorem shifted_ne {k : Nat} (hlen : wal.length = v.headerOffset + n * v.frameSize + k) (h0 : 0 < k) {b c : UInt8}
    (hbc : b ≠ c) (hb : wal[v.headerOffset + n * v.frameSize + v.frameHead]? ≠ some b) (f : Flush)
    (hf : f.buf = markedPage b c) (lsn : Nat) :
    slice (wal ++ f.frame crc v lsn) (v.headerOffset + n * v.frameSize + v.frameHead) pageSize ≠ (markedPage b c).bytes := by
  intro he
  have hv := frameHead_pos v
  have hpage : pageSize = 4096 := rfl
  have hfirst : (markedPage b c).bytes[0]? = some b := rfl
  have hget : ∀ i < pageSize, (markedPage b c).bytes[i]? =
      (wal ++ f.frame crc v lsn)[v.headerOffset + n * v.frameSize + v.frameHead + i]? := by
    intro i hi
    rw [← he, getElem?_slice _ _ _ _ hi]
  rcases Nat.lt_or_ge v.frameHead k with hk | hk
  · -- the page starts in the partial frame
    have h := hget 0 (by omega)
    rw [hfirst, List.getElem?_append_left (by omega)] at h
    exact hb h.symm
  · -- it starts in the new frame's head, `k` bytes before the page
    have h := hget k (by omega)
    rw [markedPage_get h0 (by omega), List.getElem?_append_right (by omega)] at h
    have hat : v.headerOffset + n * v.frameSize + v.frameHead + k - wal.length = v.frameHead + 0 := by omega
    rw [hat, frame_page, hf, hfirst] at h
    exact hbc (Option.some.inj h).symm

/-- What the frames behind leave in the buffer stays there, or does not matter. -/
theorem finish_scan (reader : WalReader) (buf buf' : List UInt8) :
    reader.finish p (scanFrames crc v wal p n buf) = reader.finish p (scanFrames crc v wal p n buf') ∨
      reader.finish p (scanFrames crc v wal p n buf) = buf := by
  induction n generalizing buf buf' with
  | zero =>
    unfold WalReader.finish scanFrames
    by_cases hp : p.toNat < reader.filePages
    · left
      rw [if_pos ⟨rfl, hp⟩, if_pos ⟨rfl, hp⟩]
    · right
      rw [if_neg fun h => hp h.2]
  | succ n ih =>
    simp only [scanFrames]
    split
    · left
      rfl
    · exact ih buf buf'

/-- Behind a partial frame an append can be lost. -/
theorem misaligned_lost {k : Nat} (hlen : wal.length = v.headerOffset + n * v.frameSize + k) (h0 : 0 < k)
    (hk : k < v.frameSize) (reader : WalReader) (hv : reader.version = v) (p : BitVec 32) (lsn : Nat) :
    ∃ f : Flush, f.pageNum = p ∧ f.currentCommitLsn = 0 ∧
      reader.getPage crc (wal ++ f.frame crc v lsn) p ≠ f.buf.bytes := by
  have hpos := frameSize_pos v
  -- what the whole frames and the main file have for the page
  let y := reader.finish p (scanFrames crc v wal p n (List.replicate pageSize 0))
  obtain ⟨b, hb, hb2, hb3⟩ : ∃ b : UInt8, wal[v.headerOffset + n * v.frameSize + v.frameHead]? ≠ some b ∧ b ≠ 2 ∧ b ≠ 3 := by
    by_cases h : wal[v.headerOffset + n * v.frameSize + v.frameHead]? = some 0
    · exact ⟨1, by rw [h]; decide, by decide, by decide⟩
    · exact ⟨0, h, by decide, by decide⟩
  obtain ⟨c, hbc, hy⟩ : ∃ c : UInt8, b ≠ c ∧ y ≠ (markedPage b c).bytes := by
    by_cases h : y = (markedPage b 2).bytes
    · refine ⟨3, hb3, fun h3 => ?_⟩
      have h1 := congrArg (fun l : List UInt8 => l[1]?) (h.symm.trans h3)
      exact absurd h1 (by
        rw [markedPage_get Nat.one_pos (by decide), markedPage_get Nat.one_pos (by decide)]
        decide)
    · exact ⟨2, hb2, h⟩
  let f : Flush := ⟨p, markedPage b c, 0, 0, 0⟩
  refine ⟨f, rfl, rfl, ?_⟩
  have hlen' : (wal ++ f.frame crc v lsn).length = v.headerOffset + (n + 1) * v.frameSize + k := by
    rw [List.length_append, hlen, length_frame, Nat.succ_mul]
    omega
  have hold : ∀ buf, scanFrames crc v (wal ++ f.frame crc v lsn) p n buf = scanFrames crc v wal p n buf :=
    fun buf => scanFrames_append (by omega) buf
  have hshift : slice (wal ++ f.frame crc v lsn) _ pageSize ≠ f.buf.bytes := shifted_ne hlen h0 hbc hb f rfl lsn
  rw [WalReader.getPage, hv, numFrames_eq hlen' hk]
  simp only [scanFrames, hold]
  split
  · split
    · exact hshift
    · rcases finish_scan reader (slice (wal ++ f.frame crc v lsn) _ pageSize) (List.replicate pageSize 0) with he | he
      · rw [he]
        exact hy
      · rw [he]
        exact hshift
  · exact hy

theorem survives_aligned (h : wal ≠ []) (hs : AppendsSurvive crc wal) : Aligned (walVersion wal) wal := by
  by_contra hn
  have hhead : (walVersion wal).headerOffset ≤ wal.length := by
    unfold walVersion
    split
    · next h4 => exact h4.1
    · exact Nat.zero_le _
  have hpos := frameSize_pos (walVersion wal)
  have hdiv := Nat.div_add_mod (wal.length - (walVersion wal).headerOffset) (walVersion wal).frameSize
  have hmod := Nat.mod_lt (wal.length - (walVersion wal).headerOffset) (by omega : 0 < (walVersion wal).frameSize)
  rw [Nat.mul_comm] at hdiv
  have h0 : 0 < (wal.length - (walVersion wal).headerOffset) % (walVersion wal).frameSize := by
    refine Nat.pos_of_ne_zero fun h0 => hn ⟨(wal.length - (walVersion wal).headerOffset) / (walVersion wal).frameSize, ?_⟩
    rw [h0] at hdiv
    omega
  let reader : WalReader := ⟨walVersion wal, 0, fun _ => markedPage 0 0⟩
  have hlen : wal.length = (walVersion wal).headerOffset +
      (wal.length - (walVersion wal).headerOffset) / (walVersion wal).frameSize * (walVersion wal).frameSize +
      (wal.length - (walVersion wal).headerOffset) % (walVersion wal).frameSize := by omega
  obtain ⟨f, hp, hlsn, hlost⟩ : ∃ f : Flush, f.pageNum = 0 ∧ f.currentCommitLsn = 0 ∧
      reader.getPage crc (wal ++ f.frame crc (walVersion wal) 1) 0 ≠ f.buf.bytes :=
    misaligned_lost hlen h0 hmod reader rfl 0 1
  have hflush : (WalPager.pagerFlush crc (WalPager.opened wal 0) f).wal = wal ++ f.frame crc (walVersion wal) 1 := by
    unfold WalPager.pagerFlush WalPager.opened
    rw [if_neg h]
    simp only [hlsn]
    rfl
  have hread := hs 0 [] [] f reader (fun g hg => absurd hg List.not_mem_nil) (Or.inl ?_)
  · change reader.getPage crc (WalPager.pagerFlush crc (WalPager.opened wal 0) f).wal _ = _ at hread
    rw [hflush, hp] at hread
    exact hlost hread
  · show walVersion wal = (WalPager.pagerFlush crc (WalPager.opened wal 0) f).version
    unfold WalPager.pagerFlush WalPager.opened
    rw [if_neg h]

/-- Every append is found exactly when the file that was opened ends with a whole frame. -/
theorem wal_appends_survive_iff (crc : List UInt8 → BitVec 32) {wal : List UInt8} (h : wal ≠ []) :
    AppendsSurvive crc wal ↔ Aligned (walVersion wal) wal :=
  ⟨survives_aligned h, aligned_survives h⟩

/-- The magic number and no frame. -/
theorem empty_wal_survives : leBytes 4 walMagic ≠ [] ∧ AppendsSurvive (fun _ => 0) (leBytes 4 walMagic) :=
  ⟨by decide, (wal_appends_survive_iff (fun _ => 0) (by decide)).mpr ⟨0, by decide⟩⟩

/-- Behind one byte of a frame appends are lost. -/
theorem torn_wal_loses_appends : ¬ ∀ (crc : List UInt8 → BitVec 32) (wal : List UInt8), wal ≠ [] →
    AppendsSurvive crc wal := by
  intro h
  have hne : leBytes 4 walMagic ++ [0] ≠ [] := by decide
  obtain ⟨n, hn⟩ := survives_aligned hne (h (fun _ => 0) _ hne)
  have hver : walVersion (leBytes 4 walMagic ++ [0]) = .v2 := by decide
  rw [hver] at hn
  change 5 = 4 + n * 4120 at hn
  omega

end CustomDB
