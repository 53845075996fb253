import CustomDB.Pager.Touch
import CustomDB.Pager.WalCrash

/-!
# Undoing the page traffic of a statement

`pager_rollback` after any page traffic: captures without a journal record, freed pages and the flush that
`catalog_save` makes in the middle of a transaction. What the pages showed at BEGIN comes back when no page of
BEGIN is written before it is captured, and no flush writes one that has changed and has no record.
-/

namespace CustomDB

open Lib

namespace Pager

variable {B : Type} [PageBody B]

/-! ## The condition on an act -/

/-- The first capture finds the page count of BEGIN. -/
def Unmoved (s : Pager B) : Prop := s.isMemory = false → s.isWriter = false → s.numPages = s.numPagesAtTxStart

/-- Stores to page `p` spare what it showed at BEGIN. -/
def Sheltered (s : Pager B) (p : Nat) : Prop := p < s.numPagesAtTxStart → s.Shadowed p

/-- Where a rollback can undo an act. -/
def Undoable (s : Pager B) : PageAct B → Prop
  | .ensure | .shadow _ => s.Unmoved
  | .journal p => s.Unmoved ∧ (s.isMemory = true ∨ s.savepoints = [] ∧ p ∈ s.pageIsJournaled ∨
      (p < s.numPagesAtTxStart → s.view p = s.base p))
  | .modify p _ => s.Sheltered p
  | .alloc => s.Pops → s.Sheltered s.freelistHead ∧ s.Sheltered 0
  | .free p => s.Sheltered p ∧ s.Sheltered 0
  | .trailer => s.Sheltered 0
  | .flush => s.isMemory = false → s.useWal = false → s.isWriter = true ∧ s.numPages < fileLengthWrap ∧
      ∀ q < s.numPagesAtTxStart, (s.pages.slot q).isSome = true → s.view q = s.base q ∨ ∃ e ∈ s.journalRecords, e.1 = q
  | _ => True

/-! ## The invariant -/

/-- A transaction begun in state `b`, with the journal `j`, that a rollback can still undo. -/
structure Undo (b s : Pager B) (j : List (JournalEntry B)) : Prop extends Began b s where
  stage : Stage s j
  others : s.others = b.others
  pos : s.isMemory = false → s.isWriter = true → s.journalPos = some j.length
  backed : ∀ p, (s.shadowPages.slot p).isSome = true → (s.pages.slot p).isSome = true
  cached : ∀ q x, s.pages.slot q = some x → q < s.numPages
  images : ∀ e ∈ j, e.1 < b.numPages → e.2 = b.base e.1
  loaded : ∀ e ∈ j, (s.pages.slot e.1).isSome = true
  untouched : s.isWriter = false → s.disk.main = b.disk.main
  main : s.isMemory = false → ∀ p < b.numPages,
    s.mainPage p = b.base p ∨ s.mainPage p = b.mainPage p ∨ ∃ e ∈ j, e.1 = p
  length : s.disk.main.length ≤ max b.disk.main.length s.numPages

variable {b s s' : Pager B} {j : List (JournalEntry B)} {p : Nat}

omit [PageBody B] in
theorem Stage.writing (h : Stage s j) (hw : s.isWriter = true) : Writing s j := by
  rcases h with ⟨h, -⟩ | h
  · rw [h.notWriter] at hw
    cases hw
  · exact h

omit [PageBody B] in
theorem Stage.reading (h : Stage s j) (hw : s.isWriter = false) : Reading s ∧ j = [] := by
  rcases h with h | h
  · exact h
  · rw [h.writer] at hw
    cases hw

theorem Undo.keeps (h : Undo b s j) (hk : Keeps b.numPages s s') : Undo b s' j := by
  have hmem : s'.isMemory = s.isMemory ∧ s'.isWriter = s.isWriter ∧ s'.others = s.others := by
    obtain ⟨_, _, _, _, _, _, _, _, rfl⟩ := hk.same
    exact ⟨rfl, rfl, rfl⟩
  have hdisk : s'.disk = s.disk := by
    obtain ⟨_, _, _, _, _, _, _, _, rfl⟩ := hk.same
    rfl
  refine ⟨h.toBegan.keeps hk, ?_, hmem.2.2.trans h.others, fun hm hw => ?_, fun p hp => ?_, hk.bound h.cached, h.images,
    fun e he => hk.cached _ (h.loaded e he), fun hw => ?_, fun hm p hp => ?_, ?_⟩
  · rcases h.stage with ⟨hr, hj⟩ | hw
    · exact Or.inl ⟨hr.keeps hk, hj⟩
    · exact Or.inr (hw.keeps hk fun hm => by rw [hk.pos_end hw hm (h.pos hm hw.writer), h.pos hm hw.writer])
  · have hw := hmem.2.1.symm.trans hw
    exact hk.pos_end (h.stage.writing hw) (hmem.1.symm.trans hm) (h.pos (hmem.1.symm.trans hm) hw)
  · rw [hk.shadow] at hp
    exact hk.cached p (h.backed p hp)
  · rw [hdisk]
    exact h.untouched (hmem.2.1.symm.trans hw)
  · rw [mainPage, hdisk]
    exact h.main (hmem.1.symm.trans hm) p hp
  · rw [hdisk]
    exact le_trans h.length (max_le_max_left _ hk.numPages)

/-- The count of reserved pages, the free-list head and the LSN are fields of their own. -/
theorem Undo.setHead (h : Undo b s j) (k f l : Nat) :
    Undo b { s with reservedCatalogPages := k, freelistHead := f, walLsn := l } j := by
  refine ⟨⟨h.isMemory, h.useWal, h.walOpen, h.wal, h.txStart, h.grows, h.base, h.covers, h.memory⟩, ?_, h.others, h.pos,
    h.backed, h.cached, h.images, h.loaded, h.untouched, h.main, h.length⟩
  rcases h.stage with ⟨hr, hj⟩ | hw
  · exact Or.inl ⟨⟨hr.toSole.congr rfl rfl, hr.inTx, hr.notWriter, hr.noJournal, hr.noFile, hr.noShadow, hr.unmarked,
      hr.lock⟩, hj⟩
  · exact Or.inr (hw.congr rfl rfl rfl rfl rfl rfl rfl fun _ => rfl)

theorem Undo.sheltered (h : Undo b s j) (hs : s.Sheltered p) : p < b.numPages → s.Shadowed p := fun hp =>
  hs (by rw [h.txStart]; exact hp)

/-! ## The first capture -/

theorem Undo.upgrade (h : Undo b s j) (hfit : Fits b) (hr : Reading s) (hn : s.Unmoved) (hup : Upgraded s s') :
    Undo b s' [] := by
  have hn : s.isMemory = false → s.numPages = b.numPages := fun hm => (hn hm hr.notWriter).trans h.txStart
  have hfile : s.disk.main = b.disk.main := h.untouched hr.notWriter
  have hcov : Covers s' := by
    refine hup.covers h.covers h.cached fun hm => ?_
    rw [hn hm, hfile]
    exact hfit (h.isMemory.symm.trans hm)
  have hbase := hup.base h.covers hcov
  have hmain := hup.main
  have hstart := hup.txStart
  have hpos := hup.pos
  have hmem := hup.memory
  have hw' := hup.writing
  have hpages : s'.pages = s.pages ∧ s'.numPages = s.numPages ∧ s'.shadowPages = s.shadowPages := by
    obtain ⟨_, _, _, _, _, _, _, _, _, _, rfl⟩ := hup.same
    exact ⟨rfl, rfl, rfl⟩
  have hsame : s'.isMemory = s.isMemory ∧ s'.useWal = s.useWal ∧ s'.walOpen = s.walOpen ∧ s'.disk.wal = s.disk.wal ∧
      s'.others = s.others := by
    obtain ⟨_, _, _, _, _, _, _, _, _, _, rfl⟩ := hup.same
    exact ⟨rfl, rfl, rfl, rfl, rfl⟩
  refine ⟨⟨hsame.1.trans h.isMemory, hsame.2.1.trans h.useWal, hsame.2.2.1.trans h.walOpen, hsame.2.2.2.1.trans h.wal,
    ?_, ?_, fun p hp => (hbase p).trans (h.base p hp), hcov, fun hm => ?_⟩, Or.inr hw', hsame.2.2.2.2.trans h.others, fun hm _ => ?_, fun p hp => ?_,
    ?_, fun e he => absurd he List.not_mem_nil, fun e he => absurd he List.not_mem_nil, fun hw => ?_, fun hm p hp => ?_, ?_⟩
  · rw [hstart]
    split
    · exact h.txStart
    · next hm => exact hn (by simpa using hm)
  · rw [hpages.2.1]
    exact h.grows
  · have hm := hsame.1.symm.trans hm
    rw [hmem hm]
    exact h.memory hm
  · rw [hpos, if_neg (by simp [← hsame.1, hm])]
    rfl
  · rw [hpages.2.2, hr.noShadow] at hp
    cases hp
  · rw [hpages.1, hpages.2.1]
    exact h.cached
  · rw [hw'.writer] at hw
    cases hw
  · rw [hmain]
    by_cases hw : s.useWal = true
    · rw [if_neg (by simp [hw]), mainPage, hfile]
      exact Or.inr (Or.inl rfl)
    · rw [if_pos ⟨hsame.1.symm.trans hm, by simpa using hw⟩, ← h.base p hp, Pager.base, h.covers.readPage,
        if_neg (by simp [hw])]
      exact Or.inl rfl
  · rw [hpages.2.1, ← hfile]
    exact hup.length_le _ h.cached

/-! ## Captures and records -/

theorem Undo.captured (h : Undo b s j) (hw : Writing s j) (hc : Captured s s' p) : Undo b s' j := by
  have hbase := hc.base
  have hcache := hc.cache
  have hw' := hc.writing hw
  have hback : ∀ q, (s'.shadowPages.slot q).isSome = true → (s'.pages.slot q).isSome = true := by
    intro q hq
    by_cases hs : (s.shadowPages.slot q).isSome = true
    · exact hcache.isSome (h.backed q hs)
    · rw [hc.shadow] at hq
      by_cases hqp : q = p
      · subst hqp
        exact hc.cached (by simpa using hs)
      · rw [if_neg hqp] at hq
        exact absurd hq hs
  have hbound := hc.bound h.cached
  have hgrow := hc.numPages_ge
  obtain ⟨_, _, _, _, _, rfl⟩ := hc.same
  exact ⟨⟨h.isMemory, h.useWal, h.walOpen, h.wal, h.txStart, le_trans h.grows hgrow,
    fun q hq => (hbase q).trans (h.base q hq), h.covers, h.memory⟩, Or.inr hw', h.others, h.pos, hback, hbound, h.images,
    fun e he => hcache.isSome (h.loaded e he), h.untouched, h.main, le_trans h.length (max_le_max_left _ hgrow)⟩

/-- A record of page `p` at the journal's end. -/
theorem Undo.record (h : Undo b s j) (hw : Writing s j) (hm : s.isMemory = false) {x : Page B}
    (hx : p < b.numPages → x = b.base p) (hp : (s.pages.slot p).isSome = true) :
    Undo b ({ (s.journalWrite j.length (p, x)) with pageIsJournaled := insert p s.pageIsJournaled } : Pager B)
      (j ++ [(p, x)]) := by
  have hjn : s.disk.journal = some j := (hw.holds hm).journal
  refine ⟨⟨h.isMemory, h.useWal, h.walOpen, h.wal, h.txStart, h.grows, h.base, h.covers, h.memory⟩, Or.inr ?_,
    h.others, fun _ _ => ?_, h.backed, h.cached, fun e he hlt => ?_, fun e he => ?_, h.untouched, fun hm q hq => ?_, h.length⟩
  · refine ⟨hw.toSole.congr rfl rfl, hw.inTx, hw.writer, fun hm => ?_, fun hm' => ?_⟩
    · have hh := hw.holds hm
      refine ⟨hh.self, hh.lock, ?_, rfl⟩
      show s.disk.journal.map _ = _
      rw [hjn, Option.map_some, BlockFile.write_length]
    · rw [show s.isMemory = true from hm'] at hm
      cases hm
  · show some (j.length + 1) = _
    rw [List.length_append, List.length_singleton]
  · rcases List.mem_append.mp he with he | he
    · exact h.images e he hlt
    · obtain rfl := List.mem_singleton.mp he
      exact hx hlt
  · rcases List.mem_append.mp he with he | he
    · exact h.loaded e he
    · obtain rfl := List.mem_singleton.mp he
      exact hp
  · rcases h.main hm q hq with hq | hq | ⟨e, he, heq⟩
    · exact Or.inl hq
    · exact Or.inr (Or.inl hq)
    · exact Or.inr (Or.inr ⟨e, List.mem_append_left _ he, heq⟩)

theorem Undo.journal (h : Undo b s j) (hw : Writing s j) (hok : s.isMemory = true ∨
    s.savepoints = [] ∧ p ∈ s.pageIsJournaled ∨ (p < s.numPagesAtTxStart → s.view p = s.base p)) :
    ∃ j', Undo b (s.pagerJournalPage p) j' := by
  obtain ⟨s₁, hc, he⟩ := journalPage_eq hw p
  have h₁ := h.captured hw hc
  have hw₁ := hc.writing hw
  have hsame : s₁.isMemory = s.isMemory ∧ s₁.savepoints = s.savepoints ∧ s₁.pageIsJournaled = s.pageIsJournaled ∧
      s₁.journalPos = s.journalPos := by
    obtain ⟨_, _, _, _, _, rfl⟩ := hc.same
    exact ⟨rfl, rfl, rfl, rfl⟩
  rw [he]
  by_cases hm : s₁.isMemory = true
  · -- a memory database has no journal to write to
    obtain ⟨hno, rfl⟩ := hw₁.inMemory hm
    have hnone := recorded_noFile hno p (s.view p)
    obtain ⟨jn, io, jp, pj, he⟩ := recorded_frame s₁ p (s.view p)
    rw [he] at hnone ⊢
    have hfile : ∀ {P : Prop}, s₁.isMemory = false → P := fun hn => by
      rw [hm] at hn
      cases hn
    exact ⟨[], ⟨h₁.isMemory, h₁.useWal, h₁.walOpen, h₁.wal, h₁.txStart, h₁.grows, h₁.base, h₁.covers, h₁.memory⟩,
      Or.inr (hw₁.congr (hnone.trans hno.symm) rfl rfl rfl rfl rfl rfl hfile), h₁.others, fun hn _ => hfile hn, h₁.backed,
      h₁.cached, h₁.images, h₁.loaded, h₁.untouched, hfile, h₁.length⟩
  have hm : s₁.isMemory = false := by simpa using hm
  have hpos : s₁.journalPos = some j.length := h₁.pos hm hw₁.writer
  by_cases hskip : s₁.Skips p
  · rw [recorded_skip hskip]
    exact ⟨j, h₁⟩
  · rw [recorded_record hskip hpos]
    refine ⟨_, h₁.record hw₁ hm (fun hp => ?_) ?_⟩
    · rcases hok with hk | hk | hk
      · rw [hsame.1, hk] at hm
        cases hm
      · exact absurd (Or.inr ⟨hsame.2.1.trans hk.1, hsame.2.2.1 ▸ hk.2⟩) hskip
      · rw [hk (by rw [h.txStart]; exact hp), h.base p hp]
    · refine h₁.backed p ?_
      rw [hc.shadow, if_pos rfl]
      rfl

/-! ## The flush inside a transaction -/

theorem flushCached_memory (hm : s.isMemory = true) : s.flushCached = s := by
  rw [flushCached_eq]
  induction (List.range s.pages.cap).filter fun i => (s.pages.slot i).isSome with
  | nil => rfl
  | cons i l ih => rw [List.foldl_cons, pagerFlush, if_pos hm, ih]

theorem Undo.flush (h : Undo b s j) (hm : s.isMemory = false) (hu : s.useWal = false) (hn : s.numPages < fileLengthWrap)
    (hok : ∀ q < s.numPagesAtTxStart, (s.pages.slot q).isSome = true → s.view q = s.base q ∨
      ∃ e ∈ s.journalRecords, e.1 = q) (hr : s.isWriter = true) : Undo b s.flushCached j := by
  have hw := h.stage.writing hr
  have hfeq := flushCached_eq s
  generalize hl : (List.range s.pages.cap).filter (fun i => (s.pages.slot i).isSome) = l at hfeq
  have hmem : ∀ q ∈ l, (s.pages.slot q).isSome = true := by
    intro q hq
    rw [← hl] at hq
    exact (List.mem_filter.mp hq).2
  have hlt : ∀ q ∈ l, q + 1 < fileLengthWrap := by
    intro q hq
    obtain ⟨x, hx⟩ := Option.isSome_iff_exists.mp (hmem q hq)
    have := h.cached q x hx
    omega
  have hcov : Covers (l.foldl pagerFlush s) := foldl_flush_covers h.covers l hlt
  have hbuf : ∀ q ∈ l, s.flushBuf q = some (s.view q) := by
    intro q hq
    obtain ⟨x, hx⟩ := Option.isSome_iff_exists.mp (hmem q hq)
    rw [view_eq hw.inTx, if_pos hr, Pager.base, Pager.flushBuf, hx]
    cases s.shadowPages.slot q <;> rfl
  have hread : ∀ q, BlockFile.read Page.zero (BlockFile.writeAll Page.zero s.disk.main (s.flushed l)) q =
      if q ∈ l then s.view q else s.mainPage q := by
    intro q
    rw [read_flushed]
    split
    · next hq => rw [hbuf q hq, Option.getD_some]
    · rfl
  have hrec : s.journalRecords = j := h.stage.records
  obtain ⟨fp, d, hf⟩ := foldl_flush hm hu l
  rw [hfeq]
  rw [hf] at hcov ⊢
  have hnot : ∀ q, s.pages.slot q = none → q ∉ l := fun q hq hql => by
    have := hmem q hql
    rw [hq] at this
    cases this
  have hbase : ∀ q, ({ s with
      disk := { s.disk with main := BlockFile.writeAll Page.zero s.disk.main (s.flushed l) }
      io := s.io ++ (s.flushed l).map fun e => .writeMain e.1 e.2
      filePages := fp
      isDirty := d } : Pager B).base q = s.base q := by
    intro q
    cases hq : s.pages.slot q with
    | some x => simp only [Pager.base, hq, Option.getD_some]
    | none =>
      simp only [Pager.base, hq, Option.getD_none]
      rw [h.covers.readPage, hcov.readPage, if_neg (by simp [hu]), if_neg (by simp [hu])]
      unfold mainPage
      rw [hread, if_neg (hnot q hq)]
      rfl
  refine ⟨⟨h.isMemory, h.useWal, h.walOpen, h.wal, h.txStart, h.grows, fun q hq => (hbase q).trans (h.base q hq), hcov,
    fun hn => ?_⟩, Or.inr (hw.congr rfl rfl rfl rfl rfl rfl rfl fun _ => rfl), h.others, h.pos, h.backed, h.cached,
    h.images, h.loaded, fun hn => ?_, fun _ q hq => ?_, ?_⟩
  · rw [show s.isMemory = true from hn] at hm
    cases hm
  · rw [show s.isWriter = false from hn] at hr
    cases hr
  · show BlockFile.read Page.zero (BlockFile.writeAll Page.zero s.disk.main (s.flushed l)) q = _ ∨ _
    unfold mainPage
    rw [hread]
    split
    · next hql =>
      rcases hok q (by rw [h.txStart]; exact hq) (hmem q hql) with hv | hv
      · left
        rw [hv, h.base q hq]
      · right; right
        rwa [hrec] at hv
    · exact h.main hm q hq
  · have hle := BlockFile.length_writeAll_le Page.zero s.disk.main (s.flushed l) s.numPages fun e he => by
      have := hlt e.1 (mem_flushed he).1
      obtain ⟨x, hx⟩ := Option.isSome_iff_exists.mp (hmem e.1 (mem_flushed he).1)
      exact h.cached e.1 x hx
    refine le_trans hle (max_le h.length (le_max_right _ _))

/-! ## Steps and runs -/

theorem Undo.act (h : Undo b s j) (hfit : Fits b) {a : PageAct B} (hok : s.Undoable a) :
    ∃ j', Undo b (s.act a) j' := by
  obtain ⟨hsole, htx⟩ := h.stage.sole
  have hcap : s.Unmoved → ∃ s₁ j', s.pagerEnsureWriteLock = (true, s₁) ∧ Undo b s₁ j' ∧ Writing s₁ j' ∧
      (s.isWriter = false → ∀ p, s₁.view p = s₁.base p) ∧ (s.isWriter = true → s₁ = s) := by
    intro hn
    by_cases hw : s.isWriter = true
    · have hwr := h.stage.writing hw
      refine ⟨s, j, hwr.ensure, h, hwr, fun hn => ?_, fun _ => rfl⟩
      rw [hw] at hn
      cases hn
    · have hr := (h.stage.reading (by simpa using hw)).1
      obtain ⟨s₁, he, hup⟩ := hr.upgrade
      refine ⟨s₁, [], he, h.upgrade hfit hr hn hup, hup.writing, fun _ p => view_unshadowed fun hsh => ?_, fun hn => absurd hn hw⟩
      have hnone : s₁.shadowPages.slot p = none := by
        obtain ⟨_, _, _, _, _, _, _, _, _, _, rfl⟩ := hup.same
        exact hr.noShadow p
      rw [Shadowed, hnone] at hsh
      cases hsh.2
  cases a with
  | ensure =>
    obtain ⟨s₁, j', he, h₁, -⟩ := hcap hok
    refine ⟨j', ?_⟩
    rw [Pager.act, he]
    exact h₁
  | shadow p =>
    obtain ⟨s₁, j', he, h₁, hw₁, -⟩ := hcap hok
    refine ⟨j', ?_⟩
    rw [Pager.act, shadow_upgrade htx he hw₁]
    exact h₁.captured hw₁ (shadow_captured hw₁ p)
  | journal p =>
    obtain ⟨hn, hok⟩ := hok
    obtain ⟨s₁, j', he, h₁, hw₁, hview, hsame⟩ := hcap hn
    rw [Pager.act, journal_upgrade htx he hw₁]
    refine h₁.journal hw₁ ?_
    by_cases hw : s.isWriter = true
    · rw [hsame hw]
      exact hok
    · exact Or.inr (Or.inr fun _ => hview (by simpa using hw) p)
  | modify p f => exact ⟨j, h.keeps ((modify_modified hsole htx p f).keeps (h.sheltered hok))⟩
  | read p => exact ⟨j, h.keeps ((getPage_loaded hsole htx p).keeps _)⟩
  | alloc => exact ⟨j, h.keeps (alloc_keeps hsole htx _ fun hp => ⟨h.sheltered (hok hp).1, h.sheltered (hok hp).2⟩)⟩
  | free p => exact ⟨j, h.keeps (free_keeps hsole htx p _ ⟨h.sheltered hok.1, h.sheltered hok.2⟩)⟩
  | trailer =>
    rw [Pager.act]
    exact ⟨j, h.keeps ((modify_modified hsole htx 0 _).keeps (h.sheltered hok))⟩
  | reserve k => exact ⟨j, h.setHead k s.freelistHead s.walLsn⟩
  | flush =>
    rw [Pager.act]
    split
    · exact ⟨j, h⟩
    · next hu =>
      have hu : s.useWal = false := by simpa using hu
      by_cases hm : s.isMemory = true
      · refine ⟨j, ?_⟩
        rw [flushCached_memory hm]
        exact h
      · have hm : s.isMemory = false := by simpa using hm
        obtain ⟨hr, hn, hv⟩ := hok hm hu
        exact ⟨j, h.flush hm hu hn hv hr⟩

theorem Undo.run (h : Undo b s j) (hfit : Fits b) {acts : List (PageAct B)}
    (hok : Run.Meets Pager.act Undoable s acts) : ∃ j', Undo b (Run.run Pager.act s acts) j' :=
  hok.invariant (fun _ s => ∃ j, Undo b s j) ⟨j, h⟩ fun _ _ _ _ ⟨_, h⟩ ha => h.act hfit ha

theorem begin_undo (hi : Idle s) (hb : s.pagerBeginTransaction = (true, b)) (hfit : Fits b) : Undo b b [] := by
  have hbegin := begin_readPhase hi hb hfit
  have hr := hbegin.reading
  refine ⟨hbegin.toBegan, Or.inl ⟨hr, rfl⟩, rfl, fun _ hw => ?_, fun p hp => ?_, hbegin.cached,
    fun e he => absurd he List.not_mem_nil, fun e he => absurd he List.not_mem_nil, fun _ => rfl,
    fun _ p _ => Or.inr (Or.inl rfl), le_max_left _ _⟩
  · rw [hr.notWriter] at hw
    cases hw
  · rw [hr.noShadow] at hp
    cases hp

/-! ## After the rollback -/

theorem found_eq {d : Disk B} (hj : d.journal = none) (hlen : d.main.length < fileLengthWrap) (p : Nat) :
    found d p = ((newestFrame (d.wal.getD []) p).map Frame.data).getD (BlockFile.read Page.zero d.main p) := by
  have hrec : recoverMain d.main (records d) = d.main := by rw [records, hj]; rfl
  have hpage : recoveredPage d p = BlockFile.read Page.zero d.main p := by
    rw [recoveredPage, hrec, Nat.mod_eq_of_lt hlen]
    split
    · rfl
    · next hp => exact (BlockFile.read_eq_filler _ _ (by omega)).symm
  rw [found, hpage]

/-- The state of BEGIN is back, in the cache and in the files. -/
structure Undone (b s' : Pager B) : Prop where
  numPages : s'.numPages = b.numPages
  view : ∀ p < b.numPages, s'.view p = b.view p
  found : b.isMemory = false → (∀ p < b.numPages, found b.disk p = b.view p) →
    ∀ p < b.numPages, Pager.found s'.disk p = b.view p
  cached : ∀ p x, s'.pages.slot p = some x → p < b.numPages ∧ x = b.view p
  journal : s'.disk.journal = none
  same : s'.isMemory = b.isMemory ∧ s'.others = b.others ∧ s'.disk.wal = b.disk.wal ∧ s'.useWal = b.useWal ∧
    s'.walOpen = b.walOpen
  idle : s'.inTransaction = false ∧ s'.lockState = .noLock ∧ s'.writerSlot ≠ .self

theorem Undo.length_lt (h : Undo b s j) (hfit : Fits b) (hpos : 0 < b.numPages) (hr : RolledBack s s')
    (hm : b.isMemory = false) : s'.disk.main.length < fileLengthWrap := by
  have hf := hfit hm
  have hsm : s.isMemory = false := h.isMemory.trans hm
  have hlen := h.length
  rw [hr.main]
  by_cases hg : s.Grew
  · rw [if_pos ⟨hg, hsm⟩, BlockFile.length_truncate]
    exact Nat.mod_lt _ (by decide)
  · rw [if_neg fun hn => hg hn.1, recoverMain]
    have hnum : s.numPages ≤ b.numPages := by
      have hts := h.txStart
      have hgrow := h.grows
      unfold Grew at hg
      omega
    have hle := BlockFile.length_writeAll_le Page.zero s.disk.main s.journalRecords s.numPages fun e he => by
      rw [h.stage.records] at he
      obtain ⟨x, hx⟩ := Option.isSome_iff_exists.mp (h.loaded e he)
      exact h.cached e.1 x hx
    omega

theorem Undo.rollback (h : Undo b s j) (hfit : Fits b) (hpos : 0 < b.numPages) (hnw : b.isWriter = false)
    (hbj : b.disk.journal = none) (hr : s.pagerRollback = some s') : Undone b s' := by
  obtain ⟨hsole, htx⟩ := h.stage.sole
  have hrb := rollback_rolledBack htx hr
  have hrec := h.stage.records
  have hu : Undoes b s s' := h.toBegan.undoes hrb hfit (fun e he => h.images e (hrec ▸ he))
    (fun e he => h.loaded e (hrec ▸ he)) fun hn => by omega
  have hbv : ∀ p, b.view p = b.base p := fun p => view_unshadowed fun hs => by
    rw [hs.1] at hnw
    cases hnw
  have hsame : (∀ p, s'.view p = s'.base p) ∧ s'.disk.wal = s.disk.wal ∧ s'.disk.journal = none ∧
      s'.inTransaction = false ∧ s'.lockState = .noLock := by
    obtain ⟨_, _, _, _, _, _, _, rfl⟩ := hrb.same
    exact ⟨fun _ => rfl, rfl, rfl, rfl, rfl⟩
  have hframe : s'.isMemory = s.isMemory ∧ s'.others = s.others ∧ s'.useWal = s.useWal ∧ s'.walOpen = s.walOpen := by
    obtain ⟨_, _, _, _, _, _, _, rfl⟩ := hrb.same
    exact ⟨rfl, rfl, rfl, rfl⟩
  refine ⟨hu.numPages, fun p hp => ?_, fun hm hfile p hp => ?_, fun p x hx => ?_, hsame.2.2.1,
    ⟨hframe.1.trans h.isMemory, hframe.2.1.trans h.others, hsame.2.1.trans h.wal, hframe.2.2.1.trans h.useWal,
      hframe.2.2.2.trans h.walOpen⟩, hsame.2.2.2.1, hsame.2.2.2.2, fun hs => ?_⟩
  · rw [hsame.1, hbv]
    exact hu.base p hp
  · have hlen' := h.length_lt hfit hpos hrb hm
    have hfile := hfile p hp
    rw [found_eq hbj (hfit hm).1] at hfile
    rw [found_eq hsame.2.2.1 hlen', hsame.2.1, h.wal]
    cases hl : newestFrame (b.disk.wal.getD []) p with
    | some f =>
      rw [hl] at hfile
      exact hfile
    | none =>
      rw [hl] at hfile
      have hfile : b.mainPage p = b.view p := hfile
      have hmain : s'.mainPage p = b.view p := by
        rcases hu.main (h.isMemory.trans hm) p hp with hq | ⟨hno, hq⟩
        · rw [hq, hbv]
        · rw [hrec] at hno
          rcases h.main (h.isMemory.trans hm) p hp with hq' | hq' | ⟨e, he, hep⟩
          · rw [hq, hq', hbv]
          · rw [hq, hq', hfile]
          · exact absurd hep (hno e he)
      exact hmain
  · have hp : p < b.numPages := by
      have hts := h.txStart
      have hgrow := h.grows
      rw [hrb.slot, Slots.slot_overwriteAll] at hx
      unfold Grew at hx
      split at hx
      · cases hx
      · obtain ⟨y, hy, -⟩ := Option.map_eq_some_iff.mp hx
        have := h.cached p y hy
        omega
    rw [hbv]
    exact ⟨hp, hu.slot p hp x hx⟩
  · rw [hrb.writerSlot] at hs
    split at hs
    · cases hs
    · next hn => exact hn hs

/-! ## Reading afterwards -/

theorem Opened.view {d : Disk B} (h : Opened d s) (hf : s.filePages = s.disk.main.length % fileLengthWrap) (p : Nat) :
    s.view p = found d p := by
  unfold Pager.view
  rw [h.idle]
  show s.base p = _
  unfold Pager.base
  cases hq : s.pages.slot p with
  | some x => exact h.cached p x hq
  | none => exact h.readPage hf p

/-- A pager that reads page `p` knows the file's length from then on. -/
theorem Opened.getPage_filePages {d : Disk B} (h : Opened d s) (p : Nat) :
    (s.getPage p).filePages = (s.getPage p).disk.main.length % fileLengthWrap := by
  obtain ⟨e, hl⟩ := getPage_refreshed (s := s) (by rw [h.free]; rfl) (by rw [h.free]; rfl) p
  have h₁ : Opened d ({ s with lockState := s.lockedAt .shared, lockError := e } : Pager B) :=
    ⟨h.idle, h.file, h.free, h.main, h.wal, h.useWal, h.walOpen, h.cached⟩
  obtain ⟨h₂, hf⟩ := h₁.refresh
  have hmain : _ = ({ s with lockState := s.lockedAt .shared, lockError := e } : Pager B).disk.main :=
    h₂.main.trans h₁.main.symm
  rw [← hmain] at hf
  obtain ⟨_, _, _, _, he⟩ := hl.same
  rw [he]
  exact hf

/-- What a pager outside a transaction shows for the first `n` pages is `f`, and stays so while it reads; of a memory
database or of a file. -/
inductive Shows (n : Nat) (f : Nat → Page B) (s : Pager B) : Bool → Prop where
  | file (d : Disk B) (h : Opened d s) (hf : s.filePages = s.disk.main.length % fileLengthWrap)
      (hd : ∀ p < n, found d p = f p) (hs : s.disk = d) : Shows n f s false
  | memory (hm : s.isMemory = true) (ht : s.inTransaction = false) (ho : s.others = ByteLocks.none)
      (hb : ∀ p < n, s.base p = f p) : Shows n f s true

variable {n : Nat} {f : Nat → Page B} {m : Bool}

theorem Shows.view (h : Shows n f s m) {p : Nat} (hp : p < n) : s.view p = f p := by
  cases h with
  | file d h hf hd => exact (h.view hf p).trans (hd p hp)
  | memory hm ht ho hb =>
    unfold Pager.view
    rw [ht]
    exact hb p hp

theorem Shows.getPage (h : Shows n f s m) (p : Nat) : Shows n f (s.getPage p) m := by
  cases h with
  | file d h hf hd hs =>
    refine .file d (h.getPage p).1 (h.getPage_filePages p) hd ?_
    obtain ⟨e, hl⟩ := getPage_refreshed (s := s) (by rw [h.free]; rfl) (by rw [h.free]; rfl) p
    obtain ⟨_, _, _, _, _, _, hr, -⟩ := refresh_frame { s with lockState := s.lockedAt .shared, lockError := e }
    obtain ⟨_, _, _, _, he⟩ := hl.same
    rw [he, hr]
    exact hs
  | memory hm ht ho hb =>
    obtain ⟨e, hl⟩ := getPage_refreshed (s := s) (by rw [ho]; rfl) (by rw [ho]; rfl) p
    rw [refresh_memory (s := { s with lockState := s.lockedAt .shared, lockError := e }) hm] at hl
    have hbase : ∀ q, (s.getPage p).base q = s.base q := hl.base
    obtain ⟨_, _, _, _, he⟩ := hl.same
    rw [he] at hbase ⊢
    exact .memory hm ht ho fun q hq => (hbase q).trans (hb q hq)

theorem Shows.reads (h : Shows n f s m) (ps : List Nat) : Shows n f (Run.run Pager.act s (ps.map .read)) m := by
  induction ps generalizing s with
  | nil => exact h
  | cons p ps ih => exact ih (h.getPage p)

/-- The count of reserved pages, the free-list head and the LSN are fields of their own. -/
theorem Shows.setHead (h : Shows n f s m) (k i l : Nat) :
    Shows n f { s with reservedCatalogPages := k, freelistHead := i, walLsn := l } m := by
  cases h with
  | file d h hf hd hs => exact .file d ⟨h.idle, h.file, h.free, h.main, h.wal, h.useWal, h.walOpen, h.cached⟩ hf hd hs
  | memory hm ht ho hb => exact .memory hm ht ho hb

theorem Shows.found (h : Shows n f s false) {p : Nat} (hp : p < n) : Pager.found s.disk p = f p := by
  obtain ⟨d, h, hf, hd, hs⟩ := h
  rw [hs]
  exact hd p hp

/-- The pages of a connection are those of its files, and no other connection has them locked. -/
structure Agrees (b : Pager B) : Prop where
  alone : b.others = ByteLocks.none
  wal : b.isMemory = false → b.useWal = b.disk.wal.isSome ∧ b.walOpen = b.disk.wal.isSome
  found : b.isMemory = false → ∀ p < b.numPages, found b.disk p = b.view p

theorem Undone.opened (h : Undone b s') (ha : Agrees b) (hm : b.isMemory = false) : Opened s'.disk s' := by
  obtain ⟨hmem, hothers, hwal, huse, hopen⟩ := h.same
  have hfound := h.found hm (ha.found hm)
  have hrec : recoverMain s'.disk.main (records s'.disk) = s'.disk.main := by
    rw [records, h.journal]
    rfl
  refine ⟨h.idle.1, hmem.trans hm, hothers.trans ha.alone, hrec.symm, rfl, ?_, ?_, fun p x hx => ?_⟩
  · rw [huse, (ha.wal hm).1, hwal]
  · rw [hopen, (ha.wal hm).2, hwal]
  · obtain ⟨hp, rfl⟩ := h.cached p x hx
    exact (hfound p hp).symm

/-- What the first page read after the rollback finds. -/
theorem Undone.shows (h : Undone b s') (ha : Agrees b) (p : Nat) :
    Shows b.numPages b.view (s'.getPage p) b.isMemory := by
  by_cases hm : b.isMemory = true
  · rw [hm]
    refine Shows.getPage (.memory (h.same.1.trans hm) h.idle.1 (h.same.2.1.trans ha.alone) fun q hq => ?_) p
    rw [← h.view q hq]
    unfold Pager.view
    rw [h.idle.1]
    rfl
  · have hm : b.isMemory = false := by simpa using hm
    have ho := h.opened ha hm
    rw [hm]
    obtain ⟨e, hl⟩ := getPage_refreshed (s := s') (by rw [ho.free]; rfl) (by rw [ho.free]; rfl) p
    obtain ⟨_, _, _, _, _, _, hr, -⟩ := refresh_frame { s' with lockState := s'.lockedAt .shared, lockError := e }
    refine .file s'.disk (ho.getPage p).1 (ho.getPage_filePages p) (h.found hm (ha.found hm)) ?_
    obtain ⟨_, _, _, _, he⟩ := hl.same
    rw [he, hr]

/-! ## Captured pages -/

/-- Inside a transaction that a rollback undoes, with the write lock. Stores to the pages of `P` spare what they showed
at BEGIN, and `catalog_save` flushes nothing. -/
structure Held (b s : Pager B) (P : Set Nat) : Prop where
  undo : ∃ j, Undo b s j
  writer : s.isWriter = true
  sheltered : ∀ p ∈ P, s.Sheltered p
  quiet : s.isMemory = true ∨ s.useWal = true

/-- Acts that store only to the pages of `P` and to those they captured before. -/
def Confined : Set Nat → List (PageAct B) → Prop
  | _, [] => True
  | P, .shadow p :: as => Confined (insert p P) as
  | P, .modify p _ :: as => p ∈ P ∧ Confined P as
  | P, .trailer :: as => 0 ∈ P ∧ Confined P as
  | P, .free p :: as => (p ∈ P ∧ 0 ∈ P) ∧ Confined P as
  | P, .read _ :: as | P, .reserve _ :: as | P, .ensure :: as | P, .flush :: as => Confined P as
  | _, .journal _ :: _ | _, .alloc :: _ => False

/-- What an act of the writer leaves of the captures. -/
structure Retains (s s' : Pager B) : Prop where
  writer : s'.isWriter = s.isWriter
  shadow : ∀ q, (s.shadowPages.slot q).isSome = true → (s'.shadowPages.slot q).isSome = true
  txStart : s'.numPagesAtTxStart = s.numPagesAtTxStart

omit [PageBody B] in
theorem Retains.sheltered (h : Retains s s') (hw : s.isWriter = true) (hs : s.Sheltered p) : s'.Sheltered p := by
  intro hp
  rw [h.txStart] at hp
  exact ⟨h.writer.trans hw, h.shadow p (hs hp).2⟩

theorem Keeps.retains (h : Keeps n s s') : Retains s s' := by
  have hsh := h.shadow
  obtain ⟨_, _, _, _, _, _, _, _, rfl⟩ := h.same
  exact ⟨rfl, fun q hq => (hsh q).trans hq, rfl⟩

theorem Captured.retains (h : Captured s s' p) : Retains s s' := by
  have hsh := h.shadow
  obtain ⟨_, _, _, _, _, rfl⟩ := h.same
  refine ⟨rfl, fun q hq => ?_, rfl⟩
  rw [hsh]
  split
  · rfl
  · exact hq

theorem Writing.retains (hw : Writing s j) (hq : s.isMemory = true ∨ s.useWal = true) (a : PageAct B) :
    Retains s (s.act a) := by
  have hsole := hw.toSole
  have htx := hw.inTx
  have hnone : ∀ q, q < 0 → s.Shadowed q := fun q hq => absurd hq (Nat.not_lt_zero q)
  cases a with
  | ensure =>
    rw [Pager.act, hw.ensure]
    exact ⟨rfl, fun _ hs => hs, rfl⟩
  | journal p =>
    obtain ⟨s₁, hc, he⟩ := journalPage_eq hw p
    have hr := hc.retains
    rw [Pager.act, he]
    obtain ⟨_, _, _, _, hf⟩ := recorded_frame s₁ p (s.view p)
    rw [hf]
    exact ⟨hr.writer, hr.shadow, hr.txStart⟩
  | shadow p => exact (shadow_captured hw p).retains
  | modify p f => exact ((modify_modified hsole htx p f).keeps (hnone p)).retains
  | read p => exact ((getPage_loaded hsole htx p).keeps 0).retains
  | alloc => exact (alloc_keeps hsole htx 0 fun _ => ⟨hnone _, hnone 0⟩).retains
  | free p => exact (free_keeps hsole htx p 0 ⟨hnone p, hnone 0⟩).retains
  | trailer =>
    rw [Pager.act]
    exact ((modify_modified hsole htx 0 _).keeps (hnone 0)).retains
  | reserve k => exact ⟨rfl, fun _ hs => hs, rfl⟩
  | flush =>
    rw [Pager.act]
    split
    · exact ⟨rfl, fun _ hs => hs, rfl⟩
    · next hu =>
      rw [flushCached_memory (hq.resolve_right hu)]
      exact ⟨rfl, fun _ hs => hs, rfl⟩

variable {P : Set Nat}

theorem Held.writing (h : Held b s P) : ∃ j, Undo b s j ∧ Writing s j := by
  obtain ⟨j, hu⟩ := h.undo
  exact ⟨j, hu, hu.stage.writing h.writer⟩

theorem Held.unmoved (h : Held b s P) : s.Unmoved := fun _ hw => by
  rw [h.writer] at hw
  cases hw

theorem Held.act (h : Held b s P) (hfit : Fits b) {a : PageAct B} (hok : s.Undoable a) : Held b (s.act a) P := by
  obtain ⟨j, hu, hw⟩ := h.writing
  have hr := hw.retains h.quiet a
  obtain ⟨j', hu'⟩ := hu.act hfit hok
  refine ⟨⟨j', hu'⟩, hr.writer.trans h.writer, fun p hp => hr.sheltered h.writer (h.sheltered p hp), ?_⟩
  rw [hu'.isMemory, hu'.useWal, ← hu.isMemory, ← hu.useWal]
  exact h.quiet

theorem Held.shadow (h : Held b s P) (hfit : Fits b) (p : Nat) : Held b (s.act (.shadow p)) (insert p P) := by
  obtain ⟨j, hu, hw⟩ := h.writing
  have hc := shadow_captured hw p
  have h' := h.act hfit (a := .shadow p) h.unmoved
  refine ⟨h'.undo, h'.writer, fun q hq => ?_, h'.quiet⟩
  rcases hq with rfl | hq
  · intro _
    refine ⟨h'.writer, ?_⟩
    rw [Pager.act, hc.shadow, if_pos rfl]
    rfl
  · exact h'.sheltered q hq

/-- A flush that writes nothing. -/
theorem Held.flush (h : Held b s P) : s.Undoable .flush := fun hm hu => by
  rcases h.quiet with hq | hq
  · rw [hm] at hq
    cases hq
  · rw [hu] at hq
    cases hq

/-- Confined acts are undone, and the captures stay. -/
theorem Held.run (h : Held b s P) (hfit : Fits b) {as : List (PageAct B)} (hok : Confined P as) :
    Held b (Run.run Pager.act s as) P := by
  induction as generalizing s P with
  | nil => exact h
  | cons a as ih =>
    rw [Run.run_cons]
    cases a with
    | shadow p =>
      have h' := ih (h.shadow hfit p) hok
      exact ⟨h'.undo, h'.writer, fun q hq => h'.sheltered q (Or.inr hq), h'.quiet⟩
    | modify p f => exact ih (h.act hfit (a := .modify p f) (h.sheltered p hok.1)) hok.2
    | trailer => exact ih (h.act hfit (a := .trailer) (h.sheltered 0 hok.1)) hok.2
    | free p => exact ih (h.act hfit (a := .free p) ⟨h.sheltered p hok.1.1, h.sheltered 0 hok.1.2⟩) hok.2
    | read p => exact ih (h.act hfit (a := .read p) trivial) hok
    | reserve k => exact ih (h.act hfit (a := .reserve k) trivial) hok
    | ensure => exact ih (h.act hfit (a := .ensure) h.unmoved) hok
    | flush => exact ih (h.act hfit (a := .flush) h.flush) hok
    | journal p => exact hok.elim
    | alloc => exact hok.elim

theorem Held.meets (h : Held b s P) (hfit : Fits b) {as : List (PageAct B)} (hok : Run.Meets Pager.act Undoable s as) :
    Held b (Run.run Pager.act s as) P :=
  hok.invariant (fun _ s => Held b s P) h fun _ _ _ _ h ha => h.act hfit ha

/-- The write lock, which nobody else holds. -/
theorem Undo.ensure (h : Undo b s j) (hfit : Fits b) (hn : s.Unmoved) :
    ∃ s₁, s.pagerEnsureWriteLock = (true, s₁) ∧ (∃ j, Undo b s₁ j) ∧ s₁.isWriter = true ∧
      s₁.freelistHead = s.freelistHead ∧ s₁.reservedCatalogPages = s.reservedCatalogPages ∧
      ∀ p, s.Sheltered p → s₁.Sheltered p := by
  by_cases hw : s.isWriter = true
  · exact ⟨s, (h.stage.writing hw).ensure, ⟨j, h⟩, hw, rfl, rfl, fun _ hp => hp⟩
  · have hr := (h.stage.reading (by simpa using hw)).1
    obtain ⟨s₁, he, hup⟩ := hr.upgrade
    have h₁ := h.upgrade hfit hr hn hup
    refine ⟨s₁, he, ⟨[], h₁⟩, hup.writing.writer, ?_, ?_, fun p hp hlt => ?_⟩
    · obtain ⟨_, _, _, _, _, _, _, _, _, _, rfl⟩ := hup.same
      rfl
    · obtain ⟨_, _, _, _, _, _, _, _, _, _, rfl⟩ := hup.same
      rfl
    · refine absurd (hp ?_).1 hw
      rw [h.txStart, ← h₁.txStart]
      exact hlt

end Pager

end CustomDB
