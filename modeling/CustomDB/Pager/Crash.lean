import CustomDB.Pager.Commit
import CustomDB.Pager.Rollback

/-!
# Crashes

A crash keeps a prefix of the file writes, in program order, and the next `pager_open` replays the journal it
finds. The invariant is on the disk alone: every journal record of a page that existed at BEGIN holds its
bytes of then, and a page without a record still has them. Each write of a transaction has to keep it.
-/

namespace CustomDB

open Lib

namespace Pager

variable {B : Type} [PageBody B]

/-! ## A disk that recovers -/

/-- The same bytes, those of the LSN on page 0 aside. -/
def SameBytes (p : Nat) (x y : Page B) : Prop :=
  if p = 0 then x.body = y.body ∧ x.freelistHead = y.freelistHead else x = y

/-- The journal records `pager_open` would replay. -/
def records (d : Disk B) : List (JournalEntry B) := d.journal.getD []

/-- A recovery brings the first `n` pages back to `orig`. -/
structure Recoverable (n : Nat) (orig : Nat → Page B) (d : Disk B) : Prop where
  image : ∀ e ∈ records d, e.1 < n → SameBytes e.1 e.2 (orig e.1)
  clean : ∀ p < n, (∀ e ∈ records d, e.1 ≠ p) → SameBytes p (BlockFile.read Page.zero d.main p) (orig p)

/-- A write that keeps a recoverable disk recoverable. -/
def Guarded (n : Nat) (orig : Nat → Page B) (d : Disk B) : IoOp B → Prop
  | .writeMain p x => p < n → SameBytes p x (orig p) ∨ ∃ e ∈ records d, e.1 = p
  | .createJournal => records d = []
  | .writeJournal pos e => pos = (records d).length ∧ (e.1 < n → SameBytes e.1 e.2 (orig e.1))
  | _ => False

/-- The disk after a crash that kept the first `k` of the writes `ws`. -/
def crash (d : Disk B) (ws : List (IoOp B)) (k : Nat) : Disk B := Run.run Disk.apply d (ws.take k)

/-- Wherever a crash falls before the journal is unlinked, `pager_open` finds the first `n` pages as in
`orig`. -/
def CrashSafe (n : Nat) (orig : Nat → Page B) (d : Disk B) (ws : List (IoOp B)) : Prop :=
  ∀ k, IoOp.unlinkJournal ∉ ws.take k → ∀ clock, ∀ p < n,
    SameBytes p ((pagerOpen (crash d ws k) ByteLocks.none .free clock).mainPage p) (orig p)

variable {n : Nat} {orig : Nat → Page B} {d : Disk B}

omit [PageBody B] in
theorem SameBytes.refl (p : Nat) (x : Page B) : SameBytes p x x := by
  unfold SameBytes
  split
  · exact ⟨rfl, rfl⟩
  · rfl

omit [PageBody B] in
theorem SameBytes.setLsn {p : Nat} {x y : Page B} (h : SameBytes p x y) (hp : p = 0) (l : Nat) :
    SameBytes p (x.setLsn l) y := by
  unfold SameBytes at h ⊢
  rw [if_pos hp] at h ⊢
  exact h

theorem checkAndRecover_main (d : Disk B) :
    (checkAndRecoverJournal d ByteLocks.none).main = recoverMain d.main (records d) := by
  unfold checkAndRecoverJournal records
  split
  · next e j hj => rw [hj]; rfl
  · next hj =>
    cases hd : d.journal with
    | none => rfl
    | some j =>
      cases j with
      | nil => rfl
      | cons e j => exact absurd hd (hj e j)

theorem Recoverable.recovers (h : Recoverable n orig d) {p : Nat} (hp : p < n) (clock : Nat) :
    SameBytes p ((pagerOpen d ByteLocks.none .free clock).mainPage p) (orig p) := by
  show SameBytes p (BlockFile.read Page.zero (checkAndRecoverJournal d ByteLocks.none).main p) (orig p)
  rw [checkAndRecover_main, recoverMain]
  by_cases hn : ∀ e ∈ records d, e.1 ≠ p
  · rw [BlockFile.read_writeAll_of_not_mem _ _ _ _ hn]
    exact h.clean p hp hn
  · rw [BlockFile.read_writeAll]
    cases hl : (records d).reverse.lookup p with
    | none =>
      rw [List.lookup_eq_none_iff] at hl
      refine absurd (fun e he hep => ?_) hn
      simpa [hep] using hl e (List.mem_reverse.mpr he)
    | some x =>
      obtain ⟨l₁, l₂, he, -⟩ := List.lookup_eq_some_iff.mp hl
      exact h.image (p, x) (List.mem_reverse.mp (by rw [he]; simp)) hp

/-- A record written at the end of the journal is appended, where there is a journal. -/
theorem records_writeJournal {pos : Nat} (e : JournalEntry B) (hpos : pos = (records d).length) :
    records (d.apply (.writeJournal pos e)) = records d ++ [e] ∨ records (d.apply (.writeJournal pos e)) = records d := by
  cases hj : d.journal with
  | none =>
    right
    simp [records, Disk.apply, hj]
  | some j =>
    left
    have hr : records d = j := by rw [records, hj]; rfl
    have hr' : records (d.apply (.writeJournal pos e)) = BlockFile.write (0, Page.zero) j pos e := by
      simp [records, Disk.apply, hj]
    rw [hr', hr, hpos, hr, BlockFile.write_length]

theorem Recoverable.apply (h : Recoverable n orig d) {op : IoOp B} (hg : Guarded n orig d op) :
    Recoverable n orig (d.apply op) := by
  cases op with
  | writeMain p x =>
    refine ⟨h.image, fun q hq hn => ?_⟩
    show SameBytes q (BlockFile.read Page.zero (BlockFile.write Page.zero d.main p x) q) (orig q)
    rw [BlockFile.read_write]
    split
    · next hqp =>
      subst hqp
      exact (hg hq).resolve_right fun ⟨e, he, hep⟩ => hn e he hep
    · exact h.clean q hq hn
  | createJournal => exact ⟨fun e he => absurd he List.not_mem_nil, fun q hq _ => h.clean q hq (by rw [show records d = [] from hg]; simp)⟩
  | writeJournal pos e =>
    have hrec := records_writeJournal e hg.1
    rcases hrec with hr | hr
    · refine ⟨fun e' he => ?_, fun q hq hn => h.clean q hq fun e' he => hn e' ?_⟩
      · rw [hr] at he
        rcases List.mem_append.mp he with he | he
        · exact h.image e' he
        · rw [List.mem_singleton.mp he]
          exact hg.2
      · rw [hr]
        exact List.mem_append_left _ he
    · refine ⟨fun e' he => h.image e' (hr ▸ he), fun q hq hn => h.clean q hq fun e' he => hn e' (hr ▸ he)⟩
  | truncateMain _ => exact hg.elim
  | truncateJournal _ => exact hg.elim
  | unlinkJournal => exact hg.elim
  | appendWal _ => exact hg.elim

/-- A run of guarded writes can be cut anywhere. -/
theorem Recoverable.run (h : Recoverable n orig d) {ws : List (IoOp B)} (hg : Run.Meets Disk.apply (Guarded n orig) d ws) :
    Recoverable n orig (Run.run Disk.apply d ws) :=
  hg.invariant (fun _ d => Recoverable n orig d) h fun _ _ _ _ hi hok => hi.apply hok

/-! ## The page traffic of a transaction -/

/-- What a statement does to the pager's pages. -/
inductive PageAct (B : Type) where
  | ensure
  | journal (p : Nat)
  | shadow (p : Nat)
  | modify (p : Nat) (f : Page B → Page B)
  | read (p : Nat)
  | alloc
  | free (p : Nat)
  /-- `catalog_save` copies the free-list head and the LSN to page 0. -/
  | trailer
  | reserve (k : Nat)
  /-- The flush loop of `catalog_save`. -/
  | flush

def act (s : Pager B) : PageAct B → Pager B
  | .ensure => s.pagerEnsureWriteLock.2
  | .journal p => s.pagerJournalPage p
  | .shadow p => s.pagerShadowPageWrite p
  | .modify p f => s.modify p f
  | .read p => s.getPage p
  | .alloc => s.getUnusedPageNum.2
  | .free p => s.pagerFreePage p
  | .trailer => s.modify 0 fun x => { x with freelistHead := s.freelistHead, lsn := s.walLsn }
  | .reserve k => { s with reservedCatalogPages := k }
  | .flush => if s.useWal then s else s.flushCached

variable {s s' : Pager B} {j : List (JournalEntry B)}

/-- Every page the baseline flush of the first capture writes has the bytes of BEGIN, and the file stays
below the pages `file_length` can count. -/
def Coherent (n : Nat) (orig : Nat → Page B) (s : Pager B) : Prop :=
  s.isWriter = false → s.disk.main.length < fileLengthWrap ∧
    ∀ q x, s.pages.slot q = some x → q + 1 < fileLengthWrap ∧ (q < n → SameBytes q x (orig q))

/-- Where an act leaves the disk recoverable: a page of BEGIN is journaled while it has its bytes of then,
and a flush writes other bytes only over pages that are journaled. -/
def JournaledBefore (n : Nat) (orig : Nat → Page B) (s : Pager B) : PageAct B → Prop
  | .ensure | .shadow _ => Coherent n orig s
  | .journal p => Coherent n orig s ∧
    (s.isWriter = true → ¬ (s.savepoints = [] ∧ p ∈ s.pageIsJournaled) → p < n → SameBytes p (s.view p) (orig p))
  | .flush => ∀ q < n, (s.pages.slot q).isSome = true → SameBytes q (s.view q) (orig q) ∨ q ∈ s.pageIsJournaled
  | _ => True

/-- Where a commit leaves the disk recoverable until it unlinks the journal. -/
def CommitJournaled (n : Nat) (orig : Nat → Page B) (s : Pager B) : Prop :=
  s.hasWrites = true → ∀ q < n, q = 0 ∨ (s.pages.slot q).isSome = true ∧ (q ∈ s.isDirty ∨ (s.shadowPages.slot q).isSome = true) →
    SameBytes q (s.view q) (orig q) ∨ q ∈ s.pageIsJournaled

/-! ## What an act writes -/

/-- The writes of a run from `d` led to the disk as it is, and each was guarded. -/
structure Logged (n : Nat) (orig : Nat → Page B) (d : Disk B) (before : List (IoOp B)) (s : Pager B)
    (ws : List (IoOp B)) : Prop where
  io : s.io = before ++ ws
  disk : s.disk = Run.run Disk.apply d ws
  guarded : Run.Meets Disk.apply (Guarded n orig) d ws

/-- The pager has no journal yet, or is the writer with the journal `j`. -/
def Phase (s : Pager B) (j : List (JournalEntry B)) : Prop :=
  Reading s ∧ j = [] ∨
    Writing s j ∧ s.journalPos = some j.length ∧ ∀ p ∈ s.pageIsJournaled, ∃ e ∈ j, e.1 = p

/-- The invariant of a transaction in rollback mode. -/
structure CrashInv (n : Nat) (orig : Nat → Page B) (d : Disk B) (before : List (IoOp B)) (s : Pager B) : Prop where
  isMemory : s.isMemory = false
  useWal : s.useWal = false
  logged : ∃ ws, Logged n orig d before s ws
  phase : ∃ j, Phase s j

theorem Logged.append {before ws : List (IoOp B)} (h : Logged n orig d before s ws) {vs : List (IoOp B)}
    (hio : s'.io = s.io ++ vs) (hdisk : s'.disk = Run.run Disk.apply s.disk vs)
    (hg : Run.Meets Disk.apply (Guarded n orig) s.disk vs) : Logged n orig d before s' (ws ++ vs) := by
  refine ⟨?_, ?_, ?_⟩
  · rw [hio, h.io, List.append_assoc]
  · rw [hdisk, Run.run_append, ← h.disk]
  · rw [Run.meets_append, ← h.disk]
    exact ⟨h.guarded, hg⟩

theorem Logged.same {before ws : List (IoOp B)} (h : Logged n orig d before s ws) (hio : s'.io = s.io)
    (hdisk : s'.disk = s.disk) : Logged n orig d before s' ws :=
  ⟨hio.trans h.io, hdisk.trans h.disk, h.guarded⟩

/-- A run of page writes to the main file. -/
theorem run_writeMain (d : Disk B) (ws : List (JournalEntry B)) :
    Run.run Disk.apply d (ws.map fun e => .writeMain e.1 e.2) =
      { d with main := BlockFile.writeAll Page.zero d.main ws } := by
  induction ws generalizing d with
  | nil => rfl
  | cons e ws ih =>
    rw [List.map_cons, Run.run_cons, ih]
    rfl

theorem meets_writeMain (d : Disk B) (ws : List (JournalEntry B))
    (h : ∀ e ∈ ws, e.1 < n → SameBytes e.1 e.2 (orig e.1) ∨ ∃ r ∈ records d, r.1 = e.1) :
    Run.Meets Disk.apply (Guarded n orig) d (ws.map fun e => .writeMain e.1 e.2) := by
  induction ws generalizing d with
  | nil => exact Run.meets_nil _ _ _
  | cons e ws ih =>
    rw [List.map_cons, Run.meets_cons]
    exact ⟨h e (List.mem_cons_self ..), ih _ fun e' he => h e' (List.mem_cons_of_mem _ he)⟩

omit [PageBody B] in
theorem Phase.sole (h : Phase s j) : Sole s ∧ s.inTransaction = true := by
  rcases h with ⟨h, -⟩ | ⟨h, -⟩
  · exact ⟨h.toSole, h.inTx⟩
  · exact ⟨h.toSole, h.inTx⟩

omit [PageBody B] in
theorem Phase.records (h : Phase s j) (hm : s.isMemory = false) : records s.disk = j := by
  unfold Pager.records
  rcases h with ⟨h, rfl⟩ | ⟨h, -⟩
  · rw [h.noFile]
    rfl
  · rw [(h.holds hm).journal]
    rfl

omit [PageBody B] in
/-- A page marked as journaled has its record. -/
theorem Phase.marked (h : Phase s j) {p : Nat} (hp : p ∈ s.pageIsJournaled) : ∃ e ∈ j, e.1 = p := by
  rcases h with ⟨h, -⟩ | ⟨-, -, h⟩
  · rw [h.unmarked] at hp
    exact absurd hp (Finset.notMem_empty p)
  · exact h p hp

omit [PageBody B] in
theorem Phase.writer (h : Phase s j) (hw : s.isWriter = true) :
    Writing s j ∧ s.journalPos = some j.length ∧ ∀ p ∈ s.pageIsJournaled, ∃ e ∈ j, e.1 = p := by
  rcases h with ⟨h, -⟩ | h
  · rw [h.notWriter] at hw
    cases hw
  · exact h

theorem Phase.keeps (h : Phase s j) (hm : s.isMemory = false) (hk : Keeps 0 s s') : Phase s' j := by
  rcases h with ⟨h, hj⟩ | ⟨h, hp, hmark⟩
  · exact Or.inl ⟨h.keeps hk, hj⟩
  · have hpos := hk.pos_end h hm hp
    refine Or.inr ⟨h.keeps hk fun _ => hpos.trans hp.symm, hpos, ?_⟩
    obtain ⟨_, _, _, _, _, _, _, _, rfl⟩ := hk.same
    exact hmark

variable {before ws : List (IoOp B)}

theorem CrashInv.keeps (h : CrashInv n orig d before s) (hk : Keeps 0 s s') : CrashInv n orig d before s' := by
  obtain ⟨ws, hl⟩ := h.logged
  obtain ⟨j, hp⟩ := h.phase
  have hp' := hp.keeps h.isMemory hk
  obtain ⟨_, _, _, _, _, _, _, _, rfl⟩ := hk.same
  exact ⟨h.isMemory, h.useWal, ⟨ws, hl.same rfl rfl⟩, j, hp'⟩

theorem CrashInv.recoverable (h : CrashInv n orig d before s) (hd : Recoverable n orig d) :
    Recoverable n orig s.disk := by
  obtain ⟨ws, hl⟩ := h.logged
  rw [hl.disk]
  exact hd.run hl.guarded

/-! ## The first capture -/

/-- The first capture flushes what the file has and creates the journal; every page of BEGIN then shows its
bytes. -/
theorem CrashInv.upgrade (h : CrashInv n orig d before s) (hd : Recoverable n orig d) (hr : Reading s)
    (hc : Coherent n orig s) (hup : Upgraded s s') : CrashInv n orig d before s' ∧ Phase s' [] ∧
      ∀ p < n, SameBytes p (s'.view p) (orig p) := by
  obtain ⟨hsize, hco⟩ := hc hr.notWriter
  obtain ⟨vs, hio, hmem⟩ := hup.io
  obtain ⟨us, hl⟩ := h.logged
  have hw := hup.writing
  have hj : records s.disk = [] := by rw [records, hr.noFile]; rfl
  have hlog : ∃ us, Logged n orig d before s' us := by
    rcases hio with ⟨h1, h2⟩ | ⟨h1, h2⟩
    · exact ⟨us, hl.same h1 h2⟩
    · refine ⟨_, hl.append h1 ?_ ?_⟩
      · rw [Run.run_append, run_writeMain, h2]
        rfl
      · rw [Run.meets_append, run_writeMain, Run.meets_cons]
        refine ⟨meets_writeMain _ _ fun e he hlt => Or.inl ((hco e.1 e.2 (hmem e he)).2 hlt), hj, Run.meets_nil _ _ _⟩
  have hphase : Phase s' [] := by
    refine Or.inr ⟨hw, ?_, ?_⟩
    · rw [hup.pos, if_neg (by simp [h.isMemory])]
      rfl
    · obtain ⟨_, _, _, _, _, _, _, _, _, _, rfl⟩ := hup.same
      rw [hr.unmarked]
      exact fun p hp => absurd hp (Finset.notMem_empty p)
  have hfields : s'.isMemory = false ∧ s'.useWal = false ∧ s'.pages = s.pages ∧ s'.shadowPages = s.shadowPages := by
    obtain ⟨_, _, _, _, _, _, _, _, _, _, rfl⟩ := hup.same
    exact ⟨h.isMemory, h.useWal, rfl, rfl⟩
  obtain ⟨hm', hu', hpages, hshadow⟩ := hfields
  have hinv : CrashInv n orig d before s' := ⟨hm', hu', hlog, [], hphase⟩
  refine ⟨hinv, hphase, fun p hp => ?_⟩
  have hclean := (hinv.recoverable hd).clean p hp (by rw [hphase.records hm']; simp)
  have hview : s'.view p = (s.pages.slot p).getD (s'.readPage p) := by
    rw [view_eq hw.inTx, if_pos hw.writer, hshadow, hr.noShadow, Option.getD_none, base, hpages]
  rw [hview]
  cases hs : s.pages.slot p with
  | some x => exact (hco p x hs).2 hp
  | none =>
    have hlen : s'.disk.main.length < fileLengthWrap := by
      have hle := hup.length_le (fileLengthWrap - 1) fun q x hq => by
        have := (hco q x hq).1
        omega
      have : 0 < fileLengthWrap := by decide
      omega
    have hcov : Covers s' := by
      unfold Covers
      rw [hup.filePages, if_neg (by simp [h.isMemory]), Nat.mod_eq_of_lt hlen]
    rw [Option.getD_none, hcov.readPage, if_neg (by simp [hu'])]
    exact hclean

/-- A capture by the writer. -/
theorem CrashInv.captured (h : CrashInv n orig d before s) {p : Nat} (hp : Phase s j) (hc : Captured s s' p)
    (hw : s.isWriter = true) : CrashInv n orig d before s' ∧ Phase s' j := by
  obtain ⟨us, hl⟩ := h.logged
  obtain ⟨hw, hpos, hmark⟩ := hp.writer hw
  have hw' := hc.writing hw
  obtain ⟨_, _, _, _, _, rfl⟩ := hc.same
  exact ⟨⟨h.isMemory, h.useWal, ⟨us, hl.same rfl rfl⟩, j, Or.inr ⟨hw', hpos, hmark⟩⟩, Or.inr ⟨hw', hpos, hmark⟩⟩

/-- `pager_journal_page` by the writer, when a new record holds the bytes of BEGIN. -/
theorem CrashInv.journal (h : CrashInv n orig d before s) (hp : Phase s j) (hw : s.isWriter = true) (p : Nat)
    (hok : ¬ (s.savepoints = [] ∧ p ∈ s.pageIsJournaled) → p < n → SameBytes p (s.view p) (orig p)) :
    CrashInv n orig d before (s.pagerJournalPage p) := by
  obtain ⟨s₁, hc, he⟩ := journalPage_eq (hp.writer hw).1 p
  obtain ⟨h₁, hp₁⟩ := h.captured hp hc hw
  obtain ⟨hw₁, hpos, hmark⟩ := hp₁.writer (hc.writing (hp.writer hw).1).writer
  have hsame : s₁.savepoints = s.savepoints ∧ s₁.pageIsJournaled = s.pageIsJournaled := by
    obtain ⟨_, _, _, _, _, rfl⟩ := hc.same
    exact ⟨rfl, rfl⟩
  rw [he]
  by_cases hskip : s₁.Skips p
  · rw [recorded_skip hskip]
    exact h₁
  · rw [recorded_record hskip hpos]
    obtain ⟨us, hl⟩ := h₁.logged
    have hj := (hw₁.holds h₁.isMemory).journal
    have himg : p < n → SameBytes p (s.view p) (orig p) := by
      refine hok fun hn => hskip (Or.inr ?_)
      rw [hsame.1, hsame.2]
      exact hn
    have hjour : (s₁.disk.apply (.writeJournal j.length (p, s.view p))).journal = some (j ++ [(p, s.view p)]) := by
      show s₁.disk.journal.map _ = _
      rw [hj, Option.map_some, BlockFile.write_length]
    have hguard : Run.Meets Disk.apply (Guarded n orig) s₁.disk [.writeJournal j.length (p, s.view p)] := by
      rw [Run.meets_cons]
      refine ⟨⟨?_, himg⟩, Run.meets_nil _ _ _⟩
      rw [hp₁.records h₁.isMemory]
    refine ⟨h₁.isMemory, h₁.useWal, ⟨_, hl.append rfl rfl hguard⟩, j ++ [(p, s.view p)], Or.inr ⟨?_, ?_, fun q hq => ?_⟩⟩
    · refine ⟨⟨hw₁.sharedWrite, hw₁.reserved, hw₁.pending, hw₁.slot⟩, hw₁.inTx, hw₁.writer, fun hm => ?_, fun hm => ?_⟩
      · have hh := hw₁.holds hm
        exact ⟨hh.self, hh.lock, hjour, rfl⟩
      · have := h₁.isMemory
        rw [show s₁.isMemory = true from hm] at this
        cases this
    · show some (j.length + 1) = some (j ++ [(p, s.view p)]).length
      rw [List.length_append]
      rfl
    · rcases Finset.mem_insert.mp hq with rfl | hq
      · exact ⟨(q, s.view q), by simp, rfl⟩
      · obtain ⟨e, he, hep⟩ := hmark q hq
        exact ⟨e, List.mem_append_left _ he, hep⟩

/-- A flush of the pages `l` in rollback mode, where each one written has the bytes of BEGIN or a record. -/
theorem CrashInv.flush (h : CrashInv n orig d before s) (hp : Phase s j) (l : List Nat)
    (hok : ∀ q ∈ l, q < n → ∀ x, s.flushBuf q = some x → SameBytes q x (orig q) ∨ q ∈ s.pageIsJournaled) :
    CrashInv n orig d before (l.foldl pagerFlush s) := by
  obtain ⟨us, hl⟩ := h.logged
  have hrec := hp.records h.isMemory
  have hguard := meets_writeMain (n := n) s.disk (s.flushed l) (fun e he hlt => by
    obtain ⟨hmem, hbuf⟩ := mem_flushed he
    rcases hok e.1 hmem hlt e.2 hbuf with hs | hm
    · exact Or.inl hs
    · right
      rw [hrec]
      exact hp.marked hm)
  obtain ⟨fp, di, he⟩ := foldl_flush h.isMemory h.useWal l
  rw [he]
  refine ⟨h.isMemory, h.useWal, ⟨_, hl.append rfl (run_writeMain _ _).symm hguard⟩, j, ?_⟩
  rcases hp with ⟨hr, hj⟩ | ⟨hw, hpos, hmark⟩
  · exact Or.inl ⟨⟨hr.toSole.congr rfl rfl, hr.inTx, hr.notWriter, hr.noJournal, hr.noFile, hr.noShadow, hr.unmarked,
      hr.lock⟩, hj⟩
  · exact Or.inr ⟨hw.congr rfl rfl rfl rfl rfl rfl rfl fun _ => rfl, hpos, hmark⟩

/-- A buffer to be flushed shows what the transaction shows. -/
theorem Phase.flushBuf (h : Phase s j) {q : Nat} {x : Page B} (hx : s.flushBuf q = some x) : x = s.view q := by
  unfold Pager.flushBuf at hx
  rcases h with ⟨hr, -⟩ | ⟨hw, -⟩
  · rw [hr.noShadow] at hx
    have hns : ¬ s.Shadowed q := fun hs => by
      have := hs.1
      rw [hr.notWriter] at this
      cases this
    rw [view_unshadowed hns, base, show s.pages.slot q = some x from hx]
    rfl
  · rw [view_eq hw.inTx, if_pos hw.writer]
    cases hs : s.shadowPages.slot q with
    | some y =>
      rw [hs] at hx
      exact (Option.some.inj hx).symm
    | none =>
      rw [hs] at hx
      rw [Option.getD_none, base, show s.pages.slot q = some x from hx]
      rfl

/-! ## Runs -/

theorem CrashInv.act (h : CrashInv n orig d before s) (hd : Recoverable n orig d) {a : PageAct B}
    (hok : JournaledBefore n orig s a) : CrashInv n orig d before (s.act a) := by
  obtain ⟨j, hp⟩ := h.phase
  obtain ⟨hsole, htx⟩ := hp.sole
  cases a with
  | ensure =>
    rcases hp with ⟨hr, -⟩ | ⟨hw, -⟩
    · obtain ⟨s₁, he, hup⟩ := hr.upgrade
      show CrashInv n orig d before s.pagerEnsureWriteLock.2
      rw [he]
      exact (h.upgrade hd hr hok hup).1
    · show CrashInv n orig d before s.pagerEnsureWriteLock.2
      rw [hw.ensure]
      exact h
  | journal p =>
    obtain ⟨hco, hrec⟩ := hok
    rcases hp with ⟨hr, hj⟩ | ⟨hw, hrest⟩
    · obtain ⟨s₁, he, hup⟩ := hr.upgrade
      obtain ⟨h₁, hp₁, hv⟩ := h.upgrade hd hr hco hup
      show CrashInv n orig d before (s.pagerJournalPage p)
      rw [journal_upgrade hr.inTx he hup.writing]
      exact h₁.journal hp₁ hup.writing.writer p fun _ hlt => hv p hlt
    · exact h.journal (Or.inr ⟨hw, hrest⟩) hw.writer p (hrec hw.writer)
  | shadow p =>
    rcases hp with ⟨hr, hj⟩ | ⟨hw, hrest⟩
    · obtain ⟨s₁, he, hup⟩ := hr.upgrade
      obtain ⟨h₁, hp₁, -⟩ := h.upgrade hd hr hok hup
      show CrashInv n orig d before (s.pagerShadowPageWrite p)
      rw [shadow_upgrade hr.inTx he hup.writing]
      exact (h₁.captured hp₁ (shadow_captured hup.writing p) hup.writing.writer).1
    · exact (h.captured (Or.inr ⟨hw, hrest⟩) (shadow_captured hw p) hw.writer).1
  | modify p f => exact h.keeps ((modify_modified hsole htx p f).keeps fun hn => absurd hn (Nat.not_lt_zero _))
  | read p => exact h.keeps ((getPage_loaded hsole htx p).keeps 0)
  | alloc =>
    have hno : ∀ {k : Nat} {P : Prop}, k < 0 → P := fun hn => absurd hn (Nat.not_lt_zero _)
    exact h.keeps (alloc_keeps hsole htx 0 fun _ => ⟨hno, hno⟩)
  | free p =>
    have hno : ∀ {k : Nat} {P : Prop}, k < 0 → P := fun hn => absurd hn (Nat.not_lt_zero _)
    exact h.keeps (free_keeps hsole htx p 0 ⟨hno, hno⟩)
  | trailer =>
    have hm := modify_modified hsole htx 0 fun x => { x with freelistHead := s.freelistHead, lsn := s.walLsn }
    exact h.keeps (hm.keeps fun hn => absurd hn (Nat.not_lt_zero _))
  | reserve k =>
    obtain ⟨us, hl⟩ := h.logged
    refine ⟨h.isMemory, h.useWal, ⟨us, hl.same rfl rfl⟩, j, ?_⟩
    rcases hp with ⟨hr, hj⟩ | ⟨hw, hrest⟩
    · exact Or.inl ⟨⟨hr.toSole.congr rfl rfl, hr.inTx, hr.notWriter, hr.noJournal, hr.noFile, hr.noShadow, hr.unmarked,
        hr.lock⟩, hj⟩
    · exact Or.inr ⟨hw.congr rfl rfl rfl rfl rfl rfl rfl fun _ => rfl, hrest⟩
  | flush =>
    show CrashInv n orig d before (if s.useWal then s else s.flushCached)
    rw [if_neg (by simp [h.useWal]), flushCached_eq]
    refine h.flush hp _ fun q hq hlt x hx => ?_
    obtain ⟨-, hsome⟩ := List.mem_filter.mp hq
    rw [hp.flushBuf hx]
    exact hok q hlt (by simpa using hsome)

theorem guarded_wal {op : IoOp B} (h : Guarded n orig d op) : (d.apply op).wal = d.wal := by
  cases op with
  | appendWal f => exact h.elim
  | _ => rfl

/-- Wherever a crash falls before the journal is unlinked, it leaves a disk that recovers, and the WAL alone. -/
def CutRecoverable (n : Nat) (orig : Nat → Page B) (d : Disk B) (ws : List (IoOp B)) : Prop :=
  ∀ k, IoOp.unlinkJournal ∉ ws.take k → Recoverable n orig (crash d ws k) ∧ (crash d ws k).wal = d.wal

theorem CutRecoverable.crashSafe (h : CutRecoverable n orig d ws) : CrashSafe n orig d ws :=
  fun k hk clock _ hp => (h k hk).1.recovers hp clock

/-- Whatever prefix of the writes a crash keeps, the recovery finds the pages of BEGIN. -/
theorem Logged.cut (h : Logged n orig d before s ws) (hd : Recoverable n orig d) {vs : List (IoOp B)}
    (hvs : vs = [] ∨ vs = [.unlinkJournal]) : CutRecoverable n orig d (ws ++ vs) := by
  intro k hk
  have hpre : (ws ++ vs).take k = ws.take k := by
    rcases hvs with rfl | rfl
    · rw [List.append_nil]
    · by_cases hlt : k ≤ ws.length
      · rw [List.take_append_of_le_length hlt]
      · refine absurd ?_ hk
        rw [List.take_of_length_le (by rw [List.length_append]; simp; omega)]
        simp
  unfold crash
  rw [hpre]
  have hwal := (h.guarded.take k).invariant (fun _ d' => d'.wal = d.wal) rfl
    fun _ _ _ _ hd' hg => (guarded_wal hg).trans hd'
  exact ⟨hd.run (h.guarded.take k), hwal⟩

/-- The commit writes its dirty pages and then unlinks the journal. -/
theorem CrashInv.commit (h : CrashInv n orig d before s) (hd : Recoverable n orig d)
    (hok : CommitJournaled n orig s) (hc : s.pagerCommit = some s') :
    ∃ ws, s'.io = before ++ ws ∧ CutRecoverable n orig d ws := by
  obtain ⟨us, hl⟩ := h.logged
  obtain ⟨j, hp⟩ := h.phase
  obtain ⟨hsole, htx⟩ := hp.sole
  by_cases hw : s.hasWrites = true
  · obtain ⟨t, hst, hpub⟩ := commit_committed hsole htx hw hc
    obtain ⟨t', hfl, -, -, -, -, hio⟩ := hpub.flush
    have hsame : t.io = s.io ∧ t.disk = s.disk ∧ t.isMemory = false ∧ t.useWal = false ∧
        t.isDirty = insert 0 s.isDirty := by
      obtain ⟨_, _, _, _, _, rfl⟩ := hst.same
      exact ⟨rfl, rfl, h.isMemory, h.useWal, rfl⟩
    obtain ⟨hio₁, hdisk, hm, hu, hdirty⟩ := hsame
    have hno : s.isWriter = false → ∀ p, s.shadowPages.slot p = none := fun hn => by
      rcases hp with ⟨hr, -⟩ | ⟨hwr, -⟩
      · exact hr.noShadow
      · rw [hwr.writer] at hn
        cases hn
    have hguard : ∀ e ∈ t.flushed t.dirtyPages, e.1 < n →
        SameBytes e.1 e.2 (orig e.1) ∨ ∃ r ∈ records s.disk, r.1 = e.1 := by
      intro e he hlt
      obtain ⟨hmem, hbuf⟩ := mem_flushed he
      obtain ⟨-, hsome, hdi⟩ := mem_dirtyPages.mp hmem
      have hx := hst.flushBuf htx hno hbuf
      have hcond : e.1 = 0 ∨ (s.pages.slot e.1).isSome = true ∧
          (e.1 ∈ s.isDirty ∨ (s.shadowPages.slot e.1).isSome = true) := by
        by_cases h0 : e.1 = 0
        · exact Or.inl h0
        · rw [hst.slot, if_neg h0] at hsome
          rw [hdirty, hst.shadow, if_neg fun hn => h0 hn.1] at hdi
          exact Or.inr ⟨hsome, hdi.imp_left fun hi => (Finset.mem_insert.mp hi).resolve_left h0⟩
      rcases hok hw e.1 hlt hcond with hs | hmark
      · left
        rw [hx]
        split
        · next h0 =>
          rw [h0] at hs ⊢
          exact hs.setLsn rfl _
        · exact hs
      · right
        rw [hp.records h.isMemory]
        exact hp.marked hmark
    have hlog : Logged n orig d before t us := hl.same hio₁ hdisk
    have hrun : Logged n orig d before t' _ := hlog.append (hfl.io hm hu)
      (by
        rw [run_writeMain]
        have hmain := hfl.main
        rw [if_pos ⟨hm, hu⟩] at hmain
        have hwal := hfl.wal
        rw [if_neg (by simp [hu])] at hwal
        obtain ⟨_, _, _, _, _, _, rfl⟩ := hfl.same
        dsimp only at hmain hwal ⊢
        rw [hmain, hwal]
        rfl)
      (meets_writeMain _ _ (by rw [hdisk]; exact hguard))
    refine ⟨_, ?_, hrun.cut hd (Or.inr rfl)⟩
    rw [hio, hrun.io, List.append_assoc]
  · rw [commit_readOnly htx (by simpa using hw)] at hc
    obtain rfl := Option.some.inj hc
    split
    · refine ⟨_, ?_, hl.cut hd (Or.inr rfl)⟩
      show s.io ++ [.unlinkJournal] = _
      rw [hl.io, List.append_assoc]
    · exact ⟨_, by rw [List.append_nil]; exact hl.io, hl.cut hd (Or.inl rfl)⟩

/-- A transaction that journals first can be cut anywhere before its commit unlinks the journal. -/
theorem transaction_cut {s b t : Pager B} (hi : Idle s) (hm : s.isMemory = false) (hu : s.useWal = false)
    (hwal : s.disk.wal = none) (hb : s.pagerBeginTransaction = (true, b)) {acts : List (PageAct B)}
    (hok : Run.Meets act (JournaledBefore b.numPages s.mainPage) b acts) (ht : Run.run act b acts = t)
    (hc : CommitJournaled b.numPages s.mainPage t) :
    ∃ ws, (t.pagerCommit.getD t).io = s.io ++ ws ∧ CutRecoverable b.numPages s.mainPage s.disk ws := by
  have hd : Recoverable b.numPages s.mainPage s.disk := by
    have hr : records s.disk = [] := by rw [records, hi.noFile]; rfl
    refine ⟨fun e he => ?_, fun p _ _ => SameBytes.refl p _⟩
    rw [hr] at he
    exact absurd he List.not_mem_nil
  have hinv : CrashInv b.numPages s.mainPage s.disk s.io b := by
    have hreading := begin_reading hi hb
    have hopen : s.openWal = s := by
      unfold openWal
      rw [if_neg (by simp [hwal])]
    have hub : b.useWal = false := by
      rcases begin_cases (s := s) (by simp [hi.notInTx]) with he | he
      · rw [he] at hb
        cases hb
      · rw [he] at hb
        obtain rfl := (Prod.mk.inj hb).2
        show s.pagerRefreshIfModified.useWal = false
        unfold pagerRefreshIfModified
        split
        · exact hu
        · simp only [hopen]
          split
          · exact hu
          · exact hu
    have hbeg := (begin_begun hi.notInTx hb).same
    refine ⟨?_, hub, ⟨[], ?_⟩, [], Or.inl ⟨hreading, rfl⟩⟩
    · obtain ⟨_, _, _, _, _, _, _, rfl⟩ := hbeg
      exact hm
    · obtain ⟨_, _, _, _, _, _, _, rfl⟩ := hbeg
      exact ⟨(List.append_nil _).symm, rfl, Run.meets_nil _ _ _⟩
  have hrun : CrashInv b.numPages s.mainPage s.disk s.io t := by
    rw [← ht]
    exact hok.invariant (fun _ s' => CrashInv b.numPages s.mainPage s.disk s.io s') hinv
      fun pre a post _ h hstep => h.act hd hstep
  cases hcm : t.pagerCommit with
  | some t' => exact hrun.commit hd hc hcm
  | none =>
    obtain ⟨us, hl⟩ := hrun.logged
    exact ⟨us ++ [], by rw [List.append_nil]; exact hl.io, hl.cut hd (Or.inl rfl)⟩

/-- In rollback mode a transaction all of whose changes to pages of BEGIN are journaled first leaves them as
they were, wherever it stops before its commit unlinks the journal. -/
theorem crash_atomic {s b t : Pager B} (hi : Idle s) (hm : s.isMemory = false) (hu : s.useWal = false)
    (hwal : s.disk.wal = none) (hb : s.pagerBeginTransaction = (true, b)) {acts : List (PageAct B)}
    (hok : Run.Meets act (JournaledBefore b.numPages s.mainPage) b acts) (ht : Run.run act b acts = t)
    (hc : CommitJournaled b.numPages s.mainPage t) :
    ∃ ws, (t.pagerCommit.getD t).io = s.io ++ ws ∧ CrashSafe b.numPages s.mainPage s.disk ws := by
  obtain ⟨ws, hio, hcut⟩ := transaction_cut hi hm hu hwal hb hok ht hc
  exact ⟨ws, hio, hcut.crashSafe⟩

end Pager

end CustomDB
