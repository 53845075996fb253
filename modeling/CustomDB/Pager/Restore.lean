import CustomDB.Lib.BlockFile
import CustomDB.Lib.Chained
import CustomDB.Pager.WalFrames

/-!
# Point-in-time restore

`pager_restore` scans the frames of the backup's WAL up to the first one past the bound and notes, for each page, where
its last valid frame is. It then copies the main file of the backup and writes these pages over the copy.
-/

namespace CustomDB

open Lib Lib.Bytes

/-- `UNTIL` by the commit time or by the LSN. -/
inductive Stamp where
  | ts | lsn
  deriving DecidableEq, Repr

/-- The last four parameters of `pager_restore`. -/
structure RestoreUntil where
  untilTs : Nat
  useTs : Bool
  untilLsn : Nat
  useLsn : Bool

/-- `UNTIL n`. -/
def Stamp.until (k : Stamp) (n : Nat) : RestoreUntil :=
  match k with
  | .ts => ⟨n, true, 0, false⟩
  | .lsn => ⟨0, false, n, true⟩

/-- The messages of `pager_restore`. -/
inductive RestoreError where
  | destExists
  | walMissing
  | walV1
  | noFrames
  | predatesTs (untilTs earliestTs earliestLsn : Nat)
  | predatesLsn (untilLsn earliestTs earliestLsn : Nat)
  | copyFailed
  deriving DecidableEq, Repr

/-- `read(fd, &x, k) == k` at `off`, and what it reads. -/
def readNat (k : Nat) (bs : List UInt8) (off : Nat) : Option Nat :=
  if (slice bs off k).length = k then some (leNat (slice bs off k)) else none

/-- `PAGE_MAP_BUCKETS`. -/
def pageMapBuckets : Nat := 1024

/-- What the scan keeps: `data_offset` by `pnum`, and the stamps for the message at the end. -/
structure RestoreScan where
  buckets : Nat → List (Nat × Nat)
  maxAppliedTs : Nat
  maxAppliedLsn : Nat

/-- Before the scan. -/
def RestoreScan.start : RestoreScan := ⟨fun _ => [], 0, 0⟩

section Scan

variable (v : WalVersion) (wal : List UInt8) (bound : RestoreUntil)

/-- `frame_ts` and `frame_lsn`, where neither is past its bound. A frame of version 1 has none. -/
def frameStamps (f : Nat) : Option (Nat × Nat) :=
  match v with
  | .v1 => some (0, 0)
  | .v2 => do
    let frameTs ← readNat 8 wal (frameOffset .v2 f + 8)
    let frameLsn ← readNat 8 wal (frameOffset .v2 f + 16)
    if bound.useTs ∧ bound.untilTs < frameTs then none
    else if bound.useLsn ∧ bound.untilLsn < frameLsn then none
    else some (frameTs, frameLsn)

variable (crc : List UInt8 → BitVec 32)

/-- One turn of the scan; `none` is a `break`. -/
def scanRestoreFrame (f : Nat) (m : RestoreScan) : Option RestoreScan := do
  let fPnum ← readNat 4 wal (frameOffset v f)
  let storedCrc ← readNat 4 wal (frameOffset v f + 4)
  let (frameTs, frameLsn) ← frameStamps v wal bound f
  let pageBuf ← readPage wal (dataOffset v f)
  if (crc pageBuf.bytes).toNat ≠ storedCrc then some m
  else some ⟨Chained.put pageMapBuckets fPnum (dataOffset v f) m.buckets, max m.maxAppliedTs frameTs,
    max m.maxAppliedLsn frameLsn⟩

/-- The scan. -/
def scanRestore : List Nat → RestoreScan → RestoreScan
  | [], m => m
  | f :: fs, m =>
    match scanRestoreFrame v wal bound crc f m with
    | none => m
    | some m => scanRestore fs m

end Scan

/-- The copy of the main file of the backup. -/
def copyBase (src : List UInt8) : Option (List PageData) :=
  (List.range (src.length / pageSize)).mapM fun p => readPage src (p * pageSize)

/-- A frame written over the copy. -/
def applyCell (wal : List UInt8) (dest : List PageData) (node : Nat × Nat) : List PageData :=
  match readPage wal node.2 with
  | some page => BlockFile.write PageData.zero dest node.1 page
  | none => dest

/-- The checks of `UNTIL`. -/
def checkUntil (wal : Option (List UInt8)) (bound : RestoreUntil) : Except RestoreError Unit :=
  if bound.useTs ∨ bound.useLsn then
    match wal with
    | none => .error .walMissing
    | some wal =>
      if wal = [] then .error .walMissing
      else if walVersion wal ≠ .v2 then .error .walV1
      else if numFrames .v2 wal = 0 then .error .noFrames
      else
        match readNat 8 wal (WalVersion.v2.headerOffset + 8), readNat 8 wal (WalVersion.v2.headerOffset + 16) with
        | some earliestTs, some earliestLsn =>
          if bound.useTs ∧ bound.untilTs < earliestTs then .error (.predatesTs bound.untilTs earliestTs earliestLsn)
          else if bound.useLsn ∧ bound.untilLsn < earliestLsn then
            .error (.predatesLsn bound.untilLsn earliestTs earliestLsn)
          else .ok ()
        | _, _ => .ok ()
  else .ok ()

/-- `pager_restore`: the pages of the restored file. `destExists` is its `stat` of the destination. -/
def pagerRestore (crc : List UInt8 → BitVec 32) (destExists : Bool) (src : List UInt8) (wal : Option (List UInt8))
    (bound : RestoreUntil) : Except RestoreError (List PageData) := do
  if destExists then throw .destExists
  checkUntil wal bound
  let wal := wal.getD []
  let v := walVersion wal
  let scan := scanRestore v wal bound crc (List.range (numFrames v wal)) .start
  match copyBase src with
  | none => throw .copyFailed
  | some base => return (Chained.toList pageMapBuckets scan.buckets).foldl (applyCell wal) base

/-- The stamp of frame `f`. -/
def Stamp.of (k : Stamp) (wal : List UInt8) (f : Nat) : Nat :=
  match k with
  | .ts => leNat (slice wal (frameOffset .v2 f + 8) 8)
  | .lsn => leNat (slice wal (frameOffset .v2 f + 16) 8)

/-- A page of the backup; zeros past its end. -/
def basePage (src : List UInt8) (p : Nat) : PageData := (readPage src (p * pageSize)).getD PageData.zero

variable {crc : List UInt8 → BitVec 32} {src wal : List UInt8} {k : Stamp} {n f j : Nat} {m : RestoreScan}

/-! ## The scan -/

theorem readNat_eq {k : Nat} {bs : List UInt8} {off : Nat} (h : off + k ≤ bs.length) :
    readNat k bs off = some (leNat (slice bs off k)) := if_pos (length_slice h)

/-- In a whole frame the scan stops only for its stamp. -/
theorem frameStamps_eq (k : Stamp) (n : Nat) (hf : f < numFrames .v2 wal) :
    frameStamps .v2 wal (k.until n) f =
      if n < k.of wal f then none else some (Stamp.ts.of wal f, Stamp.lsn.of wal f) := by
  have hin := frame_inside hf
  unfold dataOffset WalVersion.frameHead at hin
  have hts : readNat 8 wal (frameOffset .v2 f + 8) = some (Stamp.ts.of wal f) := readNat_eq (by dsimp only at hin; omega)
  have hlsn : readNat 8 wal (frameOffset .v2 f + 16) = some (Stamp.lsn.of wal f) := readNat_eq (by dsimp only at hin; omega)
  unfold frameStamps
  simp only [hts, hlsn, Option.bind_eq_bind, Option.bind_some]
  cases k with
  | ts => simp only [Stamp.until, true_and, Bool.false_eq_true, false_and, if_false]
  | lsn => simp only [Stamp.until, true_and, Bool.false_eq_true, false_and, if_false]

/-- What a turn at a whole frame within the bound makes of the chains. -/
theorem scanRestoreFrame_eq (hf : f < numFrames .v2 wal) (hn : ¬ n < k.of wal f) (m : RestoreScan) :
    ∃ m', scanRestoreFrame .v2 wal (k.until n) crc f m = some m' ∧ m'.buckets =
      if (validPage .v2 wal f crc).isSome then
        Chained.put pageMapBuckets (framePnum .v2 wal f) (dataOffset .v2 f) m.buckets
      else m.buckets := by
  have hin := frame_inside hf
  obtain ⟨page, hpage, -⟩ := framePage_eq hf
  have hhead : dataOffset .v2 f = frameOffset .v2 f + 24 := rfl
  have hpnum : readNat 4 wal (frameOffset .v2 f) = some (framePnum .v2 wal f) := readNat_eq (by omega)
  have hcrc : readNat 4 wal (frameOffset .v2 f + 4) = some (storedCrc .v2 wal f) := readNat_eq (by omega)
  have hread : readPage wal (dataOffset .v2 f) = some page := hpage
  have hvalid : validPage .v2 wal f crc = if storedCrc .v2 wal f = (crc page.bytes).toNat then some page else none := by
    rw [validPage, hpage, Option.filter_some]
    simp only [decide_eq_true_eq]
  unfold scanRestoreFrame
  simp only [hpnum, hcrc, frameStamps_eq k n hf, if_neg hn, hread, Option.bind_eq_bind, Option.bind_some, hvalid]
  by_cases hc : storedCrc .v2 wal f = (crc page.bytes).toNat
  · rw [if_neg fun hne => hne hc.symm, if_pos hc]
    exact ⟨_, rfl, rfl⟩
  · rw [if_pos fun he => hc he.symm, if_neg hc]
    exact ⟨m, rfl, rfl⟩

theorem scanRestoreFrame_past (hf : f < numFrames .v2 wal) (hn : n < k.of wal f) (m : RestoreScan) :
    scanRestoreFrame .v2 wal (k.until n) crc f m = none := by
  have hin := frame_inside hf
  have hhead : dataOffset .v2 f = frameOffset .v2 f + 24 := rfl
  have hpnum : readNat 4 wal (frameOffset .v2 f) = some (framePnum .v2 wal f) := readNat_eq (by omega)
  have hcrc : readNat 4 wal (frameOffset .v2 f + 4) = some (storedCrc .v2 wal f) := readNat_eq (by omega)
  unfold scanRestoreFrame
  simp only [hpnum, hcrc, frameStamps_eq k n hf, if_pos hn, Option.bind_eq_bind, Option.bind_some, Option.bind_none]

/-- The chains hold the last valid frame of each page, of the first `j` frames within the bound. -/
structure Scanned (crc : List UInt8 → BitVec 32) (wal : List UInt8) (k : Stamp) (n : Nat) (m : RestoreScan)
    (j : Nat) : Prop where
  sound : Chained.Sound pageMapBuckets m.buckets
  pages : ∀ p, (Chained.find pageMapBuckets m.buckets p).bind (readPage wal) =
    lastValid .v2 wal crc (fun f => decide (k.of wal f ≤ n)) p j

theorem Scanned.start (crc : List UInt8 → BitVec 32) (wal : List UInt8) (k : Stamp) (n : Nat) :
    Scanned crc wal k n .start 0 := ⟨Chained.Sound.empty _, fun _ => rfl⟩

theorem Scanned.step (h : Scanned crc wal k n m j) (hj : j < numFrames .v2 wal) (hn : ¬ n < k.of wal j) :
    ∃ m', scanRestoreFrame .v2 wal (k.until n) crc j m = some m' ∧ Scanned crc wal k n m' (j + 1) := by
  obtain ⟨m', hm, hbuckets⟩ := @scanRestoreFrame_eq crc _ _ _ _ hj hn m
  have hok : decide (k.of wal j ≤ n) = true := decide_eq_true (Nat.le_of_not_lt hn)
  refine ⟨m', hm, ?_, fun p => ?_⟩
  · rw [hbuckets]
    split
    · exact h.sound.put _ _
    · exact h.sound
  · rw [hbuckets, lastValid]
    cases hv : validPage .v2 wal j crc with
    | none => rw [if_neg (by rw [Option.isSome_none]; exact Bool.false_ne_true), h.pages, Option.none_or, ite_self]
    | some page =>
      have hread : readPage wal (dataOffset .v2 j) = some page := (Option.filter_eq_some_iff.mp hv).1
      rw [if_pos Option.isSome_some, Chained.find_put]
      by_cases hp : p = framePnum .v2 wal j
      · rw [if_pos hp, if_pos ⟨hok, hp.symm⟩, Option.bind_some, hread, Option.some_or]
      · rw [if_neg hp, if_neg fun he => hp he.2.symm, h.pages]

/-- The scan from frame `j` on. Where it stops, no later frame is within the bound either. -/
theorem Scanned.run (hmono : ∀ f g, f ≤ g → g < numFrames .v2 wal → k.of wal f ≤ k.of wal g) {d : Nat}
    (h : Scanned crc wal k n m j) (hd : j + d = numFrames .v2 wal) :
    Scanned crc wal k n (scanRestore .v2 wal (k.until n) crc (List.range' j d) m) (numFrames .v2 wal) := by
  induction d generalizing j m with
  | zero =>
    rw [← hd]
    exact h
  | succ d ih =>
    have hj : j < numFrames .v2 wal := by omega
    rw [List.range'_succ, scanRestore]
    by_cases hn : n < k.of wal j
    · rw [scanRestoreFrame_past hj hn]
      refine ⟨h.sound, fun p => ?_⟩
      rw [h.pages, ← hd, lastValid_add fun f hjf hf => ?_]
      exact decide_eq_false (Nat.not_le_of_lt (lt_of_lt_of_le hn (hmono j f hjf (by omega))))
    · obtain ⟨m', hm, hstep⟩ := h.step hj hn
      rw [hm]
      exact ih hstep (by omega)

/-! ## The restored file -/

theorem mapM_eq_map {α β : Type} {g : α → Option β} {h : α → β} {l : List α} (hg : ∀ x ∈ l, g x = some (h x)) :
    l.mapM g = some (l.map h) := by
  induction l with
  | nil => rfl
  | cons x l ih =>
    rw [List.mapM_cons, hg x List.mem_cons_self, ih fun y hy => hg y (List.mem_cons_of_mem _ hy)]
    rfl

theorem copyBase_eq (src : List UInt8) : ∃ base, copyBase src = some base ∧ base.length = src.length / pageSize ∧
    ∀ p, BlockFile.read PageData.zero base p = basePage src p := by
  have hread : ∀ p ∈ List.range (src.length / pageSize), readPage src (p * pageSize) = some (basePage src p) := by
    intro p hp
    have hle : (p + 1) * pageSize ≤ src.length := by
      refine le_trans (Nat.mul_le_mul_right _ (List.mem_range.mp hp)) (Nat.div_mul_le_self _ _)
    obtain ⟨page, hpage, -⟩ := @readPage_eq src (p * pageSize) (by rw [Nat.succ_mul] at hle; exact hle)
    rw [basePage, hpage, Option.getD_some]
  have hmap : copyBase src = some ((List.range (src.length / pageSize)).map (basePage src)) :=
    mapM_eq_map hread
  refine ⟨_, hmap, by rw [List.length_map, List.length_range], fun p => ?_⟩
  rcases Nat.lt_or_ge p (src.length / pageSize) with hp | hp
  · rw [BlockFile.read, List.getD_eq_getElem?_getD, List.getElem?_map, List.getElem?_range hp]
    rfl
  · have hend : ¬ (slice src (p * pageSize) pageSize).length = pageSize := by
      rw [slice, List.length_take, List.length_drop]
      have hlt : src.length < (p + 1) * pageSize := (Nat.div_lt_iff_lt_mul (by decide)).mp (Nat.lt_succ_of_le hp)
      rw [Nat.succ_mul] at hlt
      unfold pageSize at hlt ⊢
      omega
    rw [BlockFile.read_eq_filler _ _ (by rw [List.length_map, List.length_range]; exact hp), basePage, readPage,
      dif_neg hend]
    rfl

theorem foldl_applyCell (wal : List UInt8) (nodes : List (Nat × Nat)) (dest : List PageData) :
    nodes.foldl (applyCell wal) dest =
      BlockFile.writeAll PageData.zero dest (nodes.filterMap fun e => (readPage wal e.2).map fun page => (e.1, page)) := by
  induction nodes generalizing dest with
  | nil => rfl
  | cons e nodes ih =>
    rw [List.foldl_cons, ih, List.filterMap_cons, applyCell]
    cases readPage wal e.2 with
    | none => rfl
    | some page => rfl

theorem checkUntil_ok (hv : walVersion wal = .v2) (hpos : 0 < numFrames .v2 wal) (hn : k.of wal 0 ≤ n) :
    checkUntil (some wal) (k.until n) = .ok () := by
  have huse : (k.until n).useTs = true ∨ (k.until n).useLsn = true := by
    cases k with
    | ts => exact Or.inl rfl
    | lsn => exact Or.inr rfl
  have hne : wal ≠ [] := by
    rintro rfl
    exact absurd hpos (by decide)
  have hin := frame_inside hpos
  have hhead : dataOffset .v2 0 = WalVersion.v2.headerOffset + 24 := rfl
  have hoff : frameOffset .v2 0 = WalVersion.v2.headerOffset := rfl
  have hts : readNat 8 wal (WalVersion.v2.headerOffset + 8) = some (Stamp.ts.of wal 0) := readNat_eq (by omega)
  have hlsn : readNat 8 wal (WalVersion.v2.headerOffset + 16) = some (Stamp.lsn.of wal 0) := readNat_eq (by omega)
  unfold checkUntil
  rw [if_pos huse]
  dsimp only
  rw [if_neg hne, if_neg (not_not.mpr hv), if_neg (Nat.pos_iff_ne_zero.mp hpos), hts, hlsn]
  cases k with
  | ts => simp only [Stamp.until, true_and, Bool.false_eq_true, false_and, if_false, if_neg (not_lt.mpr hn)]
  | lsn => simp only [Stamp.until, true_and, Bool.false_eq_true, false_and, if_false, if_neg (not_lt.mpr hn)]

/-- The pages that are written over the copy. -/
def scannedPages (wal : List UInt8) (m : RestoreScan) : List (Nat × PageData) :=
  (Chained.toList pageMapBuckets m.buckets).filterMap fun e => (readPage wal e.2).map fun page => (e.1, page)

theorem Scanned.lookup (h : Scanned crc wal k n m j) (p : Nat) : (scannedPages wal m).reverse.lookup p =
    lastValid .v2 wal crc (fun f => decide (k.of wal f ≤ n)) p j := by
  have hnd : ((Chained.toList pageMapBuckets m.buckets).reverse.map Prod.fst).Nodup := by
    rw [List.map_reverse]
    exact List.nodup_reverse.mpr h.sound.nodup_toList
  rw [scannedPages, ← List.filterMap_reverse, Overlay.lookup_filterMap hnd, h.sound.lookup_reverse (by decide), h.pages]

/-- `UNTIL n` restores each page as its last valid frame up to `n` has it, else as the backup has it. -/
theorem restore_until (crc : List UInt8 → BitVec 32) (src wal : List UInt8) (k : Stamp) (n : Nat)
    (hv : walVersion wal = .v2) (hpos : 0 < numFrames .v2 wal)
    (hmono : ∀ f g, f ≤ g → g < numFrames .v2 wal → k.of wal f ≤ k.of wal g) (hn : k.of wal 0 ≤ n) :
    ∃ dest, pagerRestore crc false src (some wal) (k.until n) = .ok dest ∧
      (∀ p, BlockFile.read PageData.zero dest p =
        (lastValid .v2 wal crc (fun f => decide (k.of wal f ≤ n)) p (numFrames .v2 wal)).getD (basePage src p)) ∧
      ∀ p, p < src.length / pageSize ∨
        (lastValid .v2 wal crc (fun f => decide (k.of wal f ≤ n)) p (numFrames .v2 wal)).isSome → p < dest.length := by
  obtain ⟨base, hbase, hlen, hread⟩ := copyBase_eq src
  have hscan := (Scanned.start crc wal k n).run hmono (Nat.zero_add (numFrames .v2 wal))
  rw [← List.range_eq_range'] at hscan
  set m := scanRestore .v2 wal (k.until n) crc (List.range (numFrames .v2 wal)) .start
  refine ⟨BlockFile.writeAll PageData.zero base (scannedPages wal m), ?_, fun p => ?_, fun p hp => ?_⟩
  · unfold pagerRestore
    rw [checkUntil_ok hv hpos hn, hbase]
    simp only [Option.getD_some, hv]
    exact congrArg Except.ok (foldl_applyCell wal _ base)
  · rw [BlockFile.read_writeAll, hscan.lookup, hread]
  · rcases hp with hp | hp
    · rw [← hlen] at hp
      exact lt_of_lt_of_le hp (BlockFile.length_writeAll_ge _ _ _)
    · obtain ⟨page, hpage⟩ := Option.isSome_iff_exists.mp hp
      rw [← hscan.lookup] at hpage
      exact BlockFile.lt_length_writeAll (List.mem_reverse.mp (Overlay.mem_of_lookup hpage))

/-- A WAL of one frame. -/
def oneFrame : List UInt8 := leBytes 4 walMagic ++ (Flush.mk 0 (markedPage 1 1) 0 5 0).frame (fun _ => 0) .v2 7

theorem oneFrame_slice (off k : Nat) :
    slice oneFrame (4 + off) k = slice ((Flush.mk 0 (markedPage 1 1) 0 5 0).frame (fun _ => 0) .v2 7) off k := by
  have hlen : (leBytes 4 walMagic).length = 4 := length_leBytes 4 _
  have hdrop := @slice_drop (leBytes 4 walMagic) ((Flush.mk 0 (markedPage 1 1) 0 5 0).frame (fun _ => 0) .v2 7) off k
  rwa [hlen] at hdrop

theorem oneFrame_version : walVersion oneFrame = .v2 := by
  have hmagic : leNat (slice oneFrame 0 4) = (BitVec.ofNat 32 walMagic).toNat := leNat_u32 (BitVec.ofNat 32 walMagic) _
  refine if_pos ⟨?_, hmagic.trans (by decide)⟩
  rw [oneFrame, List.length_append, length_leBytes]
  exact Nat.le_add_right _ _

theorem oneFrame_numFrames : numFrames .v2 oneFrame = 1 := by
  refine @numFrames_eq .v2 _ 1 0 ?_ (Nat.lt_of_le_of_lt (Nat.zero_le _) (frameSize_pos _))
  rw [oneFrame, List.length_append, length_leBytes, length_frame, Nat.one_mul, Nat.add_zero]
  rfl

theorem oneFrame_valid : validPage .v2 oneFrame 0 (fun _ => 0) = some (markedPage 1 1) := by
  obtain ⟨⟨bytes, hlen⟩, hpage, hbytes⟩ :=
    framePage_eq (show 0 < numFrames .v2 oneFrame by rw [oneFrame_numFrames]; exact Nat.one_pos)
  have hslice : slice oneFrame (dataOffset .v2 0) pageSize = (markedPage 1 1).bytes := by
    rw [show dataOffset .v2 0 = 4 + WalVersion.v2.frameHead from rfl, oneFrame_slice, frame_slice]
  have hcrc : storedCrc .v2 oneFrame 0 = 0 := by
    rw [storedCrc, show frameOffset .v2 0 + 4 = 4 + 4 from rfl, oneFrame_slice, frame_crc]
    rfl
  obtain rfl : bytes = (markedPage 1 1).bytes := hbytes.trans hslice
  rw [validPage, hpage, Option.filter_some, hcrc]
  exact if_pos rfl

theorem oneFrame_lsn : Stamp.lsn.of oneFrame 0 = 7 := by
  have hlen : (leBytes 4 0 ++ leBytes 4 0 ++ leBytes 8 5).length = 16 := by
    simp only [List.length_append, length_leBytes]
  have hframe : (Flush.mk 0 (markedPage 1 1) 0 5 0).frame (fun _ => 0) .v2 7 =
      (leBytes 4 0 ++ leBytes 4 0 ++ leBytes 8 5) ++ (leBytes 8 7 ++ (markedPage 1 1).bytes) := List.append_assoc ..
  have hdrop := @slice_drop (leBytes 4 0 ++ leBytes 4 0 ++ leBytes 8 5) (leBytes 8 7 ++ (markedPage 1 1).bytes) 0 8
  rw [hlen, Nat.add_zero] at hdrop
  show leNat (slice oneFrame (4 + 16) 8) = 7
  rw [oneFrame_slice, hframe, hdrop, slice, List.drop_zero, List.take_left' (length_leBytes 8 7), leNat_leBytes]
  decide

theorem restore_until_oneFrame : ∃ dest, pagerRestore (fun _ => 0) false [] (some oneFrame) (Stamp.lsn.until 7) = .ok dest ∧
    BlockFile.read PageData.zero dest 0 = markedPage 1 1 := by
  have hmono : ∀ f g, f ≤ g → g < numFrames .v2 oneFrame → Stamp.lsn.of oneFrame f ≤ Stamp.lsn.of oneFrame g := by
    intro f g hfg hg
    rw [oneFrame_numFrames] at hg
    obtain ⟨rfl, rfl⟩ : f = 0 ∧ g = 0 := by omega
    exact le_refl _
  obtain ⟨dest, hdest, hread, -⟩ := restore_until (fun _ => 0) [] oneFrame .lsn 7 oneFrame_version
    (by rw [oneFrame_numFrames]; exact Nat.one_pos) hmono (by rw [oneFrame_lsn])
  have hpnum : framePnum .v2 oneFrame 0 = 0 := by
    rw [framePnum, show frameOffset .v2 0 = 4 + 0 from rfl, oneFrame_slice, frame_pageNum]
    rfl
  refine ⟨dest, hdest, ?_⟩
  rw [hread, oneFrame_numFrames, lastValid, if_pos ⟨by rw [oneFrame_lsn]; rfl, hpnum⟩, oneFrame_valid]
  rfl

end CustomDB
