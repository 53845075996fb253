import CustomDB.Pager.Crash
import CustomDB.Lib.Overlay

/-!
# Crashes in WAL mode

`pager_commit` appends one frame a page and no mark that ends the commit; a reader takes the newest frame of
each page by itself. A pager that opens the files after a crash therefore sees a prefix of the commit, and the
question is how many of its pages differ from what was there.
-/

namespace CustomDB

open Lib

namespace Pager

variable {B : Type} [PageBody B] {s s' t t' : Pager B} {d : Disk B}

/-! ## What a pager finds that opens the files -/

/-- The newest frame of page `p` in a WAL whose checksum matches. -/
def newestFrame (wal : List (Frame B)) (p : Nat) : Option (Frame B) :=
  wal.reverse.find? fun f => f.pageNum == p && f.crcOk

/-- Page `p` of the main file once the journal is replayed, as far as `file_length` reaches. -/
def recoveredPage (d : Disk B) (p : Nat) : Page B :=
  if p < (recoverMain d.main (records d)).length % fileLengthWrap then
    BlockFile.read Page.zero (recoverMain d.main (records d)) p
  else Page.zero

/-- Page `p` as the files have it. -/
def found (d : Disk B) (p : Nat) : Page B :=
  ((newestFrame (d.wal.getD []) p).map Frame.data).getD (recoveredPage d p)

/-- What `get_page(p)` returns to a pager that opened the files `d` and has read the pages `ps`. -/
def reopened (d : Disk B) (clock : Nat) (ps : List Nat) (p : Nat) : Page B :=
  ((ps.foldl getPage (pagerOpen d ByteLocks.none .free clock)).getPage p).deref p

/-- A pager that opened the files `d` and wrote nothing since. -/
structure Opened (d : Disk B) (s : Pager B) : Prop where
  idle : s.inTransaction = false
  file : s.isMemory = false
  free : s.others = ByteLocks.none
  main : s.disk.main = recoverMain d.main (records d)
  wal : s.disk.wal = d.wal
  useWal : s.useWal = d.wal.isSome
  walOpen : s.walOpen = d.wal.isSome
  cached : ∀ q x, s.pages.slot q = some x → x = found d q

theorem pagerOpen_opened (d : Disk B) (clock : Nat) : Opened d (pagerOpen d ByteLocks.none .free clock) := by
  refine ⟨rfl, rfl, rfl, checkAndRecover_main d, ?_, rfl, rfl, fun q x hq => nomatch hq⟩
  show (checkAndRecoverJournal d ByteLocks.none).wal = d.wal
  unfold checkAndRecoverJournal
  split
  · split <;> rfl
  · rfl

/-- After a refresh the pager knows the file's length, and reads the WAL if there is one. -/
theorem Opened.refresh (h : Opened d s) : Opened d s.pagerRefreshIfModified ∧
    s.pagerRefreshIfModified.filePages = s.disk.main.length % fileLengthWrap := by
  have hopen : s.openWal = s := openWal_open fun hw => by
    rw [h.useWal, h.walOpen, ← h.wal]
    exact ⟨hw, hw⟩
  unfold pagerRefreshIfModified
  rw [if_neg (by simp [h.idle, h.file])]
  simp only [hopen]
  split
  · exact ⟨⟨h.idle, h.file, h.free, h.main, h.wal, h.useWal, h.walOpen, fun q x hq => nomatch hq⟩, rfl⟩
  · next hn =>
    push Not at hn
    exact ⟨h, hn.2.symm⟩

theorem Opened.readPage (h : Opened d s) (hf : s.filePages = s.disk.main.length % fileLengthWrap) (p : Nat) :
    s.readPage p = found d p := by
  have hfile : (if p < s.filePages then s.mainPage p else Page.zero) = recoveredPage d p := by
    rw [hf, recoveredPage, ← h.main]
    rfl
  have hframe : s.lastFrame p = newestFrame (d.wal.getD []) p := by rw [← h.wal]; rfl
  unfold Pager.readPage found
  rw [hfile, hframe, h.useWal, h.walOpen, Bool.and_self]
  cases hw : d.wal with
  | none => rfl
  | some w =>
    rw [Option.getD_some]
    cases newestFrame w p <;> rfl

/-- Reading a page keeps the pager as it was opened, and returns what the files have. -/
theorem Opened.getPage (h : Opened d s) (p : Nat) : Opened d (s.getPage p) ∧ (s.getPage p).deref p = found d p := by
  obtain ⟨e, hl⟩ := getPage_refreshed (s := s) (by rw [h.free]; rfl) (by rw [h.free]; rfl) p
  have h₁ : Opened d ({ s with lockState := s.lockedAt .shared, lockError := e } : Pager B) :=
    ⟨h.idle, h.file, h.free, h.main, h.wal, h.useWal, h.walOpen, h.cached⟩
  obtain ⟨h₂, hf⟩ := h₁.refresh
  have hmain := h₂.main.trans h₁.main.symm
  generalize ({ s with lockState := s.lockedAt .shared, lockError := e } : Pager B).pagerRefreshIfModified = s₂ at hl h₂ hf hmain
  rw [← hmain] at hf
  have hbase : ∀ q, s₂.base q = found d q := by
    intro q
    unfold Pager.base
    cases hq : s₂.pages.slot q with
    | some x => exact h₂.cached q x hq
    | none => exact h₂.readPage hf q
  refine ⟨?_, ?_⟩
  · have hslot := hl.slot
    obtain ⟨_, _, _, _, he⟩ := hl.same
    rw [he] at hslot ⊢
    refine ⟨h₂.idle, h₂.file, h₂.free, h₂.main, h₂.wal, h₂.useWal, h₂.walOpen, fun q x hq => ?_⟩
    have hq' := hslot q
    rw [show _ = some x from hq] at hq'
    split at hq'
    · next hqp =>
      rw [hqp, ← hbase p]
      exact Option.some.inj hq'
    · exact h₂.cached q x hq'.symm
  · have hview : s₂.view p = s₂.base p := by
      unfold Pager.view
      rw [h₂.idle]
      rfl
    rw [hl.deref, hview, hbase p]

theorem reopened_eq (d : Disk B) (clock : Nat) (ps : List Nat) (p : Nat) : reopened d clock ps p = found d p := by
  have h : ∀ (s : Pager B), Opened d s → Opened d (ps.foldl Pager.getPage s) := by
    induction ps with
    | nil => exact fun s hs => hs
    | cons q ps ih => exact fun s hs => ih _ (hs.getPage q).1
  exact ((h _ (pagerOpen_opened d clock)).getPage p).2

/-! ## The frames of a commit -/

omit [PageBody B] in
theorem newestFrame_append (w fs : List (Frame B)) (p : Nat) :
    newestFrame (w ++ fs) p = (newestFrame fs p).or (newestFrame w p) := by
  unfold newestFrame
  rw [List.reverse_append, List.find?_append]

omit [PageBody B] in
/-- Among the frames of one commit, which writes each page once, the newest of a page is the only one. -/
theorem newestFrame_commit {ws : List (JournalEntry B)} (hnd : (ws.map Prod.fst).Nodup) (t : Pager B) (p : Nat) :
    (newestFrame (ws.map t.commitFrame) p).map Frame.data = ws.lookup p := by
  cases hl : ws.lookup p with
  | none =>
    rw [Option.map_eq_none_iff, newestFrame, List.find?_eq_none]
    intro f hf
    obtain ⟨e, he, rfl⟩ := List.mem_map.mp (List.mem_reverse.mp hf)
    have hne : e.1 ≠ p := Overlay.lookup_eq_none.mp hl e he
    simpa [commitFrame] using hne
  | some x =>
    have hmem := Overlay.mem_of_lookup hl
    cases hf : newestFrame (ws.map t.commitFrame) p with
    | none =>
      rw [newestFrame, List.find?_eq_none] at hf
      refine absurd ?_ (hf (t.commitFrame (p, x)) (List.mem_reverse.mpr (List.mem_map.mpr ⟨_, hmem, rfl⟩)))
      simp [commitFrame]
    | some f =>
      have hp := List.find?_some hf
      obtain ⟨e, he, rfl⟩ := List.mem_map.mp (List.mem_reverse.mp (List.mem_of_find?_eq_some hf))
      have hep : e.1 = p := by simpa [commitFrame] using hp
      have hlook := Overlay.lookup_of_mem hnd he
      rw [hep, hl] at hlook
      rw [Option.map_some]
      exact hlook.symm

theorem run_appendWal (d : Disk B) (fs : List (Frame B)) : ∃ w, w.getD [] = d.wal.getD [] ++ fs ∧
    Run.run Disk.apply d (fs.map .appendWal) = { d with wal := w } := by
  induction fs generalizing d with
  | nil => exact ⟨d.wal, (List.append_nil _).symm, rfl⟩
  | cons f fs ih =>
    obtain ⟨w, hw, he⟩ := ih (d.apply (.appendWal f))
    refine ⟨w, ?_, ?_⟩
    · rw [hw]
      show (d.wal.getD [] ++ [f]) ++ fs = _
      rw [List.append_assoc]
      rfl
    · rw [List.map_cons, Run.run_cons, he]
      rfl

/-- Over the files as they were, the frames of a commit show as writes of their pages. -/
theorem found_frames {ws : List (JournalEntry B)} (hnd : (ws.map Prod.fst).Nodup) (t : Pager B) {w : Option (List (Frame B))}
    (hw : w.getD [] = d.wal.getD [] ++ ws.map t.commitFrame) (p : Nat) :
    found { d with wal := w } p = Overlay.overlay ws (found d) p := by
  have hframe := newestFrame_commit hnd t p
  unfold found Overlay.overlay
  dsimp only
  rw [hw, newestFrame_append, ← hframe]
  cases newestFrame (ws.map t.commitFrame) p <;> rfl

/-- The files with the journal gone. -/
def noJournal (d : Disk B) : Disk B := { d with journal := none }

/-- What a commit writes in WAL mode: the frames, then the unlink of the journal. -/
def commitOps (t : Pager B) (ws : List (JournalEntry B)) : List (IoOp B) :=
  ws.map (fun e => .appendWal (t.commitFrame e)) ++ [.unlinkJournal]

omit [PageBody B] in
theorem map_appendWal (t : Pager B) (ws : List (JournalEntry B)) :
    ws.map (fun e => .appendWal (t.commitFrame e)) = (ws.map t.commitFrame).map IoOp.appendWal := by
  rw [List.map_map]
  rfl

theorem found_crash {ws : List (JournalEntry B)} (hnd : (ws.map Prod.fst).Nodup) (t : Pager B) {k : Nat}
    (hk : k ≤ ws.length) (p : Nat) :
    found (crash d (commitOps t ws) k) p = Overlay.overlay (ws.take k) (found d) p := by
  have htake : (commitOps t ws).take k = ((ws.take k).map t.commitFrame).map IoOp.appendWal := by
    rw [commitOps, List.take_append_of_le_length (by rw [List.length_map]; exact hk), ← List.map_take, map_appendWal]
  obtain ⟨w, hw, he⟩ := run_appendWal d ((ws.take k).map t.commitFrame)
  rw [crash, htake, he]
  refine found_frames ?_ t hw p
  exact hnd.sublist ((List.take_sublist k ws).map Prod.fst)

theorem found_committed {ws : List (JournalEntry B)} (hnd : (ws.map Prod.fst).Nodup) (t : Pager B) (p : Nat) :
    found (Run.run Disk.apply d (commitOps t ws)) p = Overlay.overlay ws (found (noJournal d)) p := by
  obtain ⟨w, hw, he⟩ := run_appendWal d (ws.map t.commitFrame)
  rw [commitOps, Run.run_append, map_appendWal, he]
  exact found_frames (d := noJournal d) hnd t hw p

/-! ## All or nothing -/

/-- Wherever the writes `ws` stop, a pager that opens the files finds every page as in `before`, whatever it
reads first, or every page as with all the writes done. The LSN on page 0 is not compared. -/
def WalAtomic (before : Nat → Page B) (d : Disk B) (ws : List (IoOp B)) : Prop :=
  ∀ k clock, (∀ ps p, SameBytes p (reopened (crash d ws k) clock ps p) (before p)) ∨
    ∀ ps p, SameBytes p (reopened (crash d ws k) clock ps p) (reopened (Run.run Disk.apply d ws) clock ps p)

/-- The pages `pager_commit` flushes: page 0, and each page below the count that is cached and was written. -/
def Flushes (t : Pager B) (p : Nat) : Prop :=
  (p < t.numPages ∨ p = 0 ∧ t.pages.slot 0 = none) ∧
    (p = 0 ∨ (t.pages.slot p).isSome = true ∧ (p ∈ t.isDirty ∨ (t.shadowPages.slot p).isSome = true))

instance (t : Pager B) (p : Nat) : Decidable (t.Flushes p) := inferInstanceAs (Decidable (_ ∧ _))

/-- At most one page that the commit flushes differs from `before`; if one does, the files have every other
page as in `before` once the journal is gone. -/
def ChangesAtMostOne (before : Nat → Page B) (t : Pager B) : Prop :=
  (∀ p, t.Flushes p → SameBytes p (t.view p) (before p)) ∨
    ∃ a, (∀ p, t.Flushes p → p ≠ a → SameBytes p (t.view p) (before p)) ∧
      ∀ p, ¬ t.Flushes p → SameBytes p (found (noJournal t.disk) p) (before p)

instance [DecidableEq B] (p : Nat) (x y : Page B) : Decidable (SameBytes p x y) :=
  inferInstanceAs (Decidable (if p = 0 then _ ∧ _ else x = y))

omit [PageBody B] in
theorem sameBytes_equivalence (p : Nat) : Equivalence (SameBytes (B := B) p) := by
  refine ⟨SameBytes.refl p, ?_, ?_⟩
  · intro x y h
    unfold SameBytes at h ⊢
    split at h
    · next hp => rw [if_pos hp]; exact ⟨h.1.symm, h.2.symm⟩
    · next hp => rw [if_neg hp]; exact h.symm
  · intro x y z h h'
    unfold SameBytes at h h' ⊢
    split at h
    · next hp =>
      rw [if_pos hp] at h' ⊢
      exact ⟨h.1.trans h'.1, h.2.trans h'.2⟩
    · next hp =>
      rw [if_neg hp] at h' ⊢
      exact h.trans h'

omit [PageBody B] in
theorem flushed_nodup (t : Pager B) : ((t.flushed t.dirtyPages).map Prod.fst).Nodup := by
  have hsub : (t.flushed t.dirtyPages).map Prod.fst = t.dirtyPages.filter fun i => (t.flushBuf i).isSome := by
    unfold flushed
    induction t.dirtyPages with
    | nil => rfl
    | cons i l ih =>
      cases hb : t.flushBuf i with
      | none => simp [hb, ih]
      | some x => simp [hb, ih]
  rw [hsub]
  exact (List.nodup_range.filter _).filter _

/-- The stamped pager flushes the pages of `Flushes`, each as the transaction shows it. -/
theorem Stamped.flushes (h : Stamped s t) {j : List (JournalEntry B)} (hw : Writing s j) :
    (∀ e ∈ t.flushed t.dirtyPages, s.Flushes e.1 ∧ SameBytes e.1 e.2 (s.view e.1)) ∧
      ∀ p, s.Flushes p → ∃ x, (p, x) ∈ t.flushed t.dirtyPages := by
  have hno : s.isWriter = false → ∀ p, s.shadowPages.slot p = none := fun hn => by
    rw [hw.writer] at hn
    cases hn
  have hdirty : t.isDirty = insert 0 s.isDirty := by
    obtain ⟨_, _, _, _, _, rfl⟩ := h.same
    rfl
  have hcount : ∀ p, (p < t.numPages ↔ p < s.numPages ∨ p = 0 ∧ s.pages.slot 0 = none) := by
    intro p
    rw [h.numPages]
    cases h0 : s.pages.slot 0 with
    | none => simp
    | some x => simp
  constructor
  · intro e he
    obtain ⟨hmem, hbuf⟩ := mem_flushed he
    obtain ⟨hlt, hsome, hdi⟩ := mem_dirtyPages.mp hmem
    refine ⟨⟨(hcount e.1).mp hlt, ?_⟩, ?_⟩
    · by_cases h0 : e.1 = 0
      · exact Or.inl h0
      · rw [h.slot, if_neg h0] at hsome
        rw [hdirty, h.shadow, if_neg fun hn => h0 hn.1] at hdi
        exact Or.inr ⟨hsome, hdi.imp_left fun hi => (Finset.mem_insert.mp hi).resolve_left h0⟩
    · rw [h.flushBuf hw.inTx hno hbuf]
      split
      · next h0 =>
        rw [h0]
        exact (SameBytes.refl 0 _).setLsn rfl _
      · exact SameBytes.refl _ _
  · rintro p ⟨hlt, hp⟩
    have hmem : p ∈ t.dirtyPages := by
      refine mem_dirtyPages.mpr ⟨(hcount p).mpr hlt, ?_, ?_⟩
      · rw [h.slot]
        split
        · rfl
        · next h0 => exact (hp.resolve_left h0).1
      · rw [hdirty, h.shadow]
        by_cases h0 : p = 0
        · exact Or.inl (by rw [h0]; exact Finset.mem_insert_self ..)
        · rw [if_neg fun hn => h0 hn.1]
          exact (hp.resolve_left h0).2.imp_left fun hi => Finset.mem_insert_of_mem hi
    have hsome : (t.flushBuf p).isSome = true := by
      unfold Pager.flushBuf
      cases hs : t.shadowPages.slot p with
      | some x => rfl
      | none => exact (mem_dirtyPages.mp hmem).2.1
    obtain ⟨x, hx⟩ := Option.isSome_iff_exists.mp hsome
    exact ⟨x, flushed_mem hmem hx⟩

theorem atMostOne_iff (before : Nat → Page B) {base : Nat → Page B} (h : Stamped s t) {j : List (JournalEntry B)}
    (hw : Writing s j) (hbase : base = found (noJournal s.disk)) :
    Overlay.AtMostOne SameBytes before base (t.flushed t.dirtyPages) ↔ ChangesAtMostOne before s := by
  obtain ⟨hmem, hex⟩ := h.flushes hw
  have heq := fun p => sameBytes_equivalence (B := B) p
  have hto : ∀ p, s.Flushes p → (∀ e ∈ t.flushed t.dirtyPages, e.1 = p → SameBytes e.1 e.2 (before e.1)) →
      SameBytes p (s.view p) (before p) := by
    intro p hp hall
    obtain ⟨x, hx⟩ := hex p hp
    exact (heq p).trans ((heq p).symm (hmem _ hx).2) (hall _ hx rfl)
  have hfrom : ∀ e ∈ t.flushed t.dirtyPages, SameBytes e.1 (s.view e.1) (before e.1) → SameBytes e.1 e.2 (before e.1) :=
    fun e he hv => (heq e.1).trans (hmem e he).2 hv
  have hnot : ∀ p, (∀ e ∈ t.flushed t.dirtyPages, e.1 ≠ p) ↔ ¬ s.Flushes p := by
    intro p
    constructor
    · intro hn hp
      obtain ⟨x, hx⟩ := hex p hp
      exact hn _ hx rfl
    · rintro hn e he rfl
      exact hn (hmem e he).1
  subst hbase
  constructor
  · rintro (hall | ⟨a, hrest, hbelow⟩)
    · exact Or.inl fun p hp => hto p hp fun e he _ => hall e he
    · refine Or.inr ⟨a, fun p hp hpa => hto p hp fun e he hep => hrest e he (hep ▸ hpa), fun p hp => ?_⟩
      exact hbelow p ((hnot p).mpr hp)
  · rintro (hall | ⟨a, hrest, hbelow⟩)
    · exact Or.inl fun e he => hfrom e he (hall e.1 (hmem e he).1)
    · refine Or.inr ⟨a, fun e he hea => hfrom e he (hrest e.1 (hmem e he).1 hea), fun p hp => ?_⟩
      exact hbelow p ((hnot p).mp hp)

/-- A WAL commit survives a crash at every frame exactly when the files, with the journal as the transaction left
it, still have the pages of `before` and the commit changes at most one of them, or when they have the committed
pages already. -/
theorem wal_commit_atomic_iff {j : List (JournalEntry B)} (h : Writing s j) (hm : s.isMemory = false)
    (hu : s.useWal = true) (hw : s.hasWrites = true) (hc : s.pagerCommit = some s') (before : Nat → Page B) :
    ∃ ws, s'.io = s.io ++ ws ∧ (WalAtomic before s.disk ws ↔
      (∀ p, SameBytes p (found s.disk p) (if s.Flushes p then s.view p else found (noJournal s.disk) p)) ∨
      (∀ p, SameBytes p (found s.disk p) (before p)) ∧ ChangesAtMostOne before s) := by
  obtain ⟨t, hst, hpub⟩ := commit_committed h.toSole h.inTx hw hc
  obtain ⟨t', hfl, -, -, -, -, hio⟩ := hpub.flush
  have hsame : t.io = s.io ∧ t.isMemory = false ∧ t.useWal = true := by
    obtain ⟨_, _, _, _, _, rfl⟩ := hst.same
    exact ⟨rfl, hm, hu⟩
  have hnd := flushed_nodup t
  have heq := fun p => sameBytes_equivalence (B := B) p
  obtain ⟨hmem, hex⟩ := hst.flushes h
  have hone := atMostOne_iff before hst h rfl
  have hops : s'.io = s.io ++ commitOps t (t.flushed t.dirtyPages) := by
    rw [hio, hfl.ioWal hsame.2.1 hsame.2.2, hsame.1, List.append_assoc]
    rfl
  generalize t.flushed t.dirtyPages = ws at hops hnd hmem hex hone
  refine ⟨commitOps t ws, hops, ?_⟩
  -- the crash points of the commit are the prefixes of its frames
  have hlib : WalAtomic before s.disk (commitOps t ws) ↔
      Overlay.Atomic SameBytes before (found s.disk) (found (noJournal s.disk)) ws := by
    have hlen : (commitOps t ws).length = ws.length + 1 := by simp [commitOps]
    constructor
    · intro hat k
      have hk := hat (min k ws.length) 0
      simp only [reopened_eq, found_crash hnd t (min_le_right k _), found_committed hnd t] at hk
      have htake : ws.take (min k ws.length) = ws.take k := by
        rw [← List.take_take, List.take_length]
      rw [htake] at hk
      exact hk.imp (fun hb => hb []) fun ha => ha []
    · intro hat k clock
      by_cases hk : k ≤ ws.length
      · simp only [reopened_eq, found_crash hnd t hk, found_committed hnd t]
        exact (hat k).imp (fun hb _ => hb) fun ha _ => ha
      · right
        intro ps p
        rw [crash, List.take_of_length_le (by omega)]
        exact SameBytes.refl p _
  have hafter : ∀ p, SameBytes p (Overlay.overlay ws (found (noJournal s.disk)) p)
      (if s.Flushes p then s.view p else found (noJournal s.disk) p) := by
    intro p
    by_cases hp : s.Flushes p
    · obtain ⟨x, hx⟩ := hex p hp
      rw [if_pos hp, Overlay.overlay_of_mem hnd _ hx]
      exact (hmem _ hx).2
    · rw [if_neg hp, Overlay.overlay_of_not_mem _ fun e he hep => hp (by rw [← hep]; exact (hmem e he).1)]
      exact SameBytes.refl p _
  rw [hlib, Overlay.atomic_iff heq hnd, hone]
  refine or_congr (forall_congr' fun p => ?_) Iff.rfl
  exact ⟨fun hb => (heq p).trans hb (hafter p), fun hb => (heq p).trans hb ((heq p).symm (hafter p))⟩

/-! ## A torn commit -/

/-- A database of three pages in WAL mode, nobody in a transaction. -/
def threePages : Pager Word := pagerOpen ⟨[⟨0, 0, 0⟩, ⟨1, 0, 0⟩, ⟨2, 0, 0⟩], none, some []⟩ ByteLocks.none .free 1

/-- A transaction over it that writes pages `ps`, up to its commit. -/
def writesPages (ps : List Nat) : Pager Word :=
  Run.run act threePages.pagerBeginTransaction.2 (ps.flatMap fun p => [.journal p, .modify p (putBody 8)])

/-- After the frames of page 0 and page 1 the crash shows the new page 1 beside the old page 2. -/
theorem wal_commit_torn : ∃ ws, ((writesPages [1, 2]).pagerCommit.map Pager.io) = some ((writesPages [1, 2]).io ++ ws) ∧
    ¬ WalAtomic (found threePages.disk) (writesPages [1, 2]).disk ws := by
  refine ⟨commitOps (writesPages [1, 2]).stamp [(0, ⟨0, 1, 0⟩), (1, ⟨8, 0, 0⟩), (2, ⟨8, 0, 0⟩)], by decide, fun h => ?_⟩
  rcases h 2 0 with hk | hk
  · exact absurd (hk [] 1) (by decide)
  · exact absurd (hk [] 2) (by decide)

theorem writesPages_writing : Writing (writesPages [1]) [(1, ⟨1, 0, 0⟩)] where
  sharedWrite := rfl
  reserved := rfl
  pending := rfl
  slot := fun _ h => nomatch h
  inTx := rfl
  writer := rfl
  holds := fun _ => ⟨rfl, by decide, rfl, rfl⟩
  inMemory := fun h => nomatch h

/-- A commit of one page is atomic. -/
theorem wal_commit_one_page : ∃ s' ws, (writesPages [1]).pagerCommit = some s' ∧ s'.io = (writesPages [1]).io ++ ws ∧
    WalAtomic (found threePages.disk) (writesPages [1]).disk ws := by
  obtain ⟨s', hs'⟩ : ∃ s', (writesPages [1]).pagerCommit = some s' := ⟨_, rfl⟩
  obtain ⟨ws, hio, hiff⟩ := wal_commit_atomic_iff writesPages_writing rfl rfl (by decide) hs' (found threePages.disk)
  have hfound : found (writesPages [1]).disk = found threePages.disk := rfl
  have hgone : found (noJournal (writesPages [1]).disk) = found threePages.disk := rfl
  refine ⟨s', ws, hs', hio, hiff.mpr (Or.inr ⟨fun p => ?_, Or.inr ⟨1, fun p hp hp1 => ?_, fun p _ => ?_⟩⟩)⟩
  · rw [hfound]
    exact SameBytes.refl p _
  · have hlt : p < 3 := by
      rcases hp.1 with hp | ⟨hp, -⟩
      · exact hp
      · omega
    have hall : ∀ p < 3, (writesPages [1]).Flushes p → p ≠ 1 →
        SameBytes p ((writesPages [1]).view p) (found threePages.disk p) := by decide
    exact hall p hlt hp hp1
  · rw [hgone]
    exact SameBytes.refl p _

end Pager

end CustomDB
