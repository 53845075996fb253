import CustomDB.Catalog.Save

/-!
# Catalog pages and data pages

The page of a table's definition is a function of the table's index; the allocator keeps back a fixed number
of pages. A store to one page leaves the others as they are, so everything rests on the two sets of page
numbers staying apart.
-/

namespace CustomDB

open Lib

variable {B : Type} [PageBody B]

/-- `MAX_TABLES`. -/
def maxTables : Nat := 1024

/-- The pages `catalog_save` writes the definitions of `n` tables to. -/
def definitionPages (n : Nat) : List Nat := (List.range n).map entryPage

/-- The pages `catalog_load` reads where page 0 counts `num` tables; a count above `MAX_TABLES` is none. -/
def loadPages (num : Nat) : List Nat :=
  0 :: (definitionPages (if num ≤ maxTables then num else 0) ++ [15])

namespace Pager

/-- `catalog_load`, as the pager sees it: the table count it finds, and the pages it brings in. -/
def catalogLoad (count : B → Nat) (s : Pager B) : Nat × Pager B :=
  let s := s.getPage 0
  let p0 := s.deref 0
  let s := { s with
    reservedCatalogPages := 33, freelistHead := p0.freelistHead, walLsn := max s.walLsn p0.lsn }
  (count p0.body, (loadPages (count p0.body)).foldl getPage s)

variable {s s' : Pager B}

/-! ## A store elsewhere -/

/-- An act that stores to page `q` of a writer's transaction. -/
def StoresTo (q : Nat) : PageAct B → Prop
  | .modify p _ => p = q
  | .trailer => q = 0
  | .shadow _ | .reserve _ | .read _ => False
  | _ => True

/-- The writer shows page `q` as `s₀` did, and knows how long the file is. -/
structure Spared (q : Nat) (s₀ s : Pager B) : Prop where
  writing : ∃ j, Writing s j
  covers : Covers s
  view : s.view q = s₀.view q

theorem Spared.modify {q p : Nat} {s₀ : Pager B} (h : Spared q s₀ s) (hp : p ≠ q) (f : Page B → Page B) :
    Spared q s₀ (s.modify p f) := by
  obtain ⟨j, hw⟩ := h.writing
  have hm := modify_modified hw.toSole hw.inTx p f
  have hk := hm.keeps (n := 0) fun hn => absurd hn (Nat.not_lt_zero _)
  have hpos : (s.modify p f).journalPos = s.journalPos := by
    obtain ⟨_, _, _, _, _, he⟩ := hm.same
    rw [he]
  refine ⟨⟨j, hw.keeps hk fun _ => hpos⟩, ?_, ?_⟩
  · obtain ⟨_, _, _, _, _, he⟩ := hm.same
    rw [he]
    exact h.covers
  · rw [hm.view hw.inTx, if_neg fun hq => hp hq.symm]
    exact h.view

theorem Spared.step {q : Nat} {s₀ : Pager B} (h : Spared q s₀ s) {a : PageAct B} (ha : ¬ StoresTo q a) :
    Spared q s₀ (s.act a) := by
  obtain ⟨j, hw⟩ := h.writing
  cases a with
  | shadow p =>
    have hc := shadow_captured hw p
    refine ⟨⟨j, hc.writing hw⟩, ?_, (hc.view hw q).trans h.view⟩
    show Covers (s.pagerShadowPageWrite p)
    obtain ⟨_, _, _, _, _, he⟩ := hc.same
    rw [he]
    exact h.covers
  | read p =>
    have hl := getPage_loaded hw.toSole hw.inTx p
    have hpos : (s.getPage p).journalPos = s.journalPos := by
      obtain ⟨_, _, _, _, he⟩ := hl.same
      rw [he]
    refine ⟨⟨j, hw.keeps (hl.keeps 0) fun _ => hpos⟩, ?_, (hl.view q).trans h.view⟩
    show Covers (s.getPage p)
    obtain ⟨_, _, _, _, he⟩ := hl.same
    rw [he]
    exact h.covers
  | modify p f => exact h.modify ha f
  | trailer =>
    exact h.modify (fun hq => ha hq.symm) fun x => { x with freelistHead := s.freelistHead, lsn := s.walLsn }
  | reserve k => exact ⟨⟨j, hw.congr rfl rfl rfl rfl rfl rfl rfl fun _ => rfl⟩, h.covers, h.view⟩
  | ensure => exact absurd trivial ha
  | journal p => exact absurd trivial ha
  | alloc => exact absurd trivial ha
  | free p => exact absurd trivial ha
  | flush => exact absurd trivial ha

/-- Acts that store to other pages leave page `q` as it was. -/
theorem Spared.run {q : Nat} {s₀ : Pager B} (h : Spared q s₀ s) {acts : List (PageAct B)}
    (ha : ∀ a ∈ acts, ¬ StoresTo q a) : Spared q s₀ (Run.run act s acts) := by
  induction acts generalizing s with
  | nil => exact h
  | cons a acts ih => exact ih (h.step (ha a (List.mem_cons_self ..))) fun b hb => ha b (List.mem_cons_of_mem _ hb)

theorem view_congr (hp : s'.pages = s.pages) (hsh : s'.shadowPages = s.shadowPages)
    (ht : s'.inTransaction = s.inTransaction) (hw : s'.isWriter = s.isWriter) {q : Nat}
    (hr : s.pages.slot q = none → s'.readPage q = s.readPage q) : s'.view q = s.view q := by
  have hbase : s'.base q = s.base q := by
    unfold Pager.base
    rw [hp]
    cases hq : s.pages.slot q with
    | some x => rfl
    | none => exact hr hq
  unfold Pager.view
  rw [hsh, ht, hw, hbase]

/-- The flush writes what is cached; a page that is not cached still reads as before. -/
theorem flushCached_view (hc : Covers s) (hm : s.isMemory = false) (hu : s.useWal = false) (q : Nat) :
    s.flushCached.view q = s.view q := by
  rw [flushCached_eq]
  have hmem : ∀ i ∈ (List.range s.pages.cap).filter fun i => (s.pages.slot i).isSome, (s.pages.slot i).isSome = true :=
    fun i hi => (List.mem_filter.mp hi).2
  generalize ((List.range s.pages.cap).filter fun i => (s.pages.slot i).isSome) = l at hmem
  have hfp := foldl_flush_filePages s l
  obtain ⟨fp, d, he⟩ := foldl_flush hm hu l
  rw [he] at hfp ⊢
  apply view_congr
  · rfl
  · rfl
  · rfl
  · rfl
  intro hq
  rw [hc.readPage, if_neg (by simp [hu])]
  unfold Pager.readPage
  rw [if_neg (by simp [hu])]
  -- page `q` is not flushed, and what the file gained before it is zeroed
  have hread : BlockFile.read Page.zero (BlockFile.writeAll Page.zero s.disk.main (s.flushed l)) q = s.mainPage q := by
    refine BlockFile.read_writeAll_of_not_mem _ _ _ _ fun e hf heq => ?_
    have hsome := hmem e.1 (mem_flushed hf).1
    rw [heq, hq] at hsome
    cases hsome
  split
  · exact hread
  · next hlt => exact (BlockFile.read_eq_filler _ _ (le_trans (le_trans hc hfp) (Nat.not_lt.mp hlt))).symm

/-! ## The catalog's pages -/

omit [PageBody B] in
/-- What `catalog_save` stores to: the definitions, the counts on page 0 and the views. -/
theorem catalogActs_spares {img : CatalogImage B} {q : Nat} (h0 : q ≠ 0) (h15 : q ≠ 15)
    (hq : q ∉ definitionPages img.numTables) : ∀ a ∈ (catalogActs img).dropLast, ¬ StoresTo q a := by
  intro a ha
  have hlast : (catalogActs img).dropLast = [.reserve 33, .shadow 0, .modify 0 (onBody img.count)] ++
      ((List.range img.numTables).flatMap fun t =>
        [.shadow (entryPage t), .modify (entryPage t) (onBody (img.entry t))]) ++
      [.shadow 15, .modify 15 (onBody img.views), .trailer] := by
    rw [catalogActs, List.dropLast_append_of_ne_nil (by simp)]
    rfl
  rw [hlast, List.mem_append, List.mem_append, List.mem_flatMap] at ha
  rcases ha with (ha | ⟨t, ht, ha⟩) | ha
  · simp only [List.mem_cons, List.not_mem_nil, or_false] at ha
    rcases ha with rfl | rfl | rfl
    · exact id
    · exact id
    · exact fun h => h0 h.symm
  · simp only [List.mem_cons, List.not_mem_nil, or_false] at ha
    rcases ha with rfl | rfl
    · exact id
    · rintro rfl
      exact hq (List.mem_map.mpr ⟨t, ht, rfl⟩)
  · simp only [List.mem_cons, List.not_mem_nil, or_false] at ha
    rcases ha with rfl | rfl | rfl
    · exact id
    · exact fun h => h15 h.symm
    · exact h0

/-- `catalog_save` changes no page but its own. -/
theorem catalogSave_view {j : List (JournalEntry B)} (hw : Writing s j) (hc : Covers s) {img : CatalogImage B} {q : Nat}
    (h0 : q ≠ 0) (h15 : q ≠ 15) (hq : q ∉ definitionPages img.numTables) : (s.catalogSave img).view q = s.view q := by
  by_cases hl : s.lockError = true
  · rw [catalogSave, if_pos hl]
  · rw [catalogSave_acts _ _ (by simpa using hl)]
    have hsplit : catalogActs img = (catalogActs img).dropLast ++ [.flush] := by
      rw [catalogActs, List.dropLast_append_of_ne_nil (by simp)]
      simp
    rw [hsplit, Run.run_append]
    have hs : Spared q s s := ⟨⟨j, hw⟩, hc, rfl⟩
    have hrun := hs.run (catalogActs_spares h0 h15 hq)
    generalize Run.run act s (catalogActs img).dropLast = t at hrun
    show (if t.useWal then t else t.flushCached).view q = s.view q
    split
    · exact hrun.view
    · next hu =>
      by_cases hm : t.isMemory = true
      · have hid : t.flushCached = t := by rw [flushCached_eq, foldl_flush_memory hm]
        rw [hid]
        exact hrun.view
      · rw [flushCached_view hrun.covers (by simpa using hm) (by simpa using hu)]
        exact hrun.view

/-- A page `get_unused_page_num` hands out while the catalog holds `n` tables. -/
def HandedOut (B : Type) [PageBody B] (n p : Nat) : Prop :=
  ∃ s : Pager B, s.reservedCatalogPages = catalogGetReservedPages n ∧ s.getUnusedPageNum.1 = p

theorem HandedOut.ge {n p : Nat} (h : HandedOut B n p) : 33 ≤ p := by
  obtain ⟨s, hr, rfl⟩ := h
  have hr : s.reservedCatalogPages = 33 := hr
  by_cases hp : s.Pops
  · obtain ⟨next, he⟩ := getUnusedPageNum_pop hp
    rw [he]
    show 33 ≤ s.freelistHead
    rw [← hr]
    exact hp.2.2
  · rw [getUnusedPageNum_fresh hp]
    show 33 ≤ max s.numPages s.reservedCatalogPages
    omega

/-- The first data page of an empty database. -/
theorem handedOut_first (n : Nat) : HandedOut B n 33 :=
  ⟨{ (pagerOpen ⟨[], none, none⟩ ByteLocks.none .free 0) with reservedCatalogPages := 33 }, rfl, rfl⟩

theorem entryPage_le (t : Nat) : entryPage t ≤ t + 1 := by
  unfold entryPage
  split
  · omega
  · split <;> omega

theorem mem_definitionPages {n p : Nat} : p ∈ definitionPages n ↔ ∃ t < n, entryPage t = p := by
  simp [definitionPages]

/-- A catalog of at most 32 tables stays below page 33. -/
theorem definitionPages_lt {n p : Nat} (hn : n ≤ 32) (hp : p ∈ definitionPages n) : p < 33 := by
  obtain ⟨t, ht, rfl⟩ := mem_definitionPages.mp hp
  have := entryPage_le t
  omega

/-- The definition of the 33rd table is on page 33. -/
theorem definitionPages_first {n : Nat} (hn : 33 ≤ n) : 33 ∈ definitionPages n :=
  mem_definitionPages.mpr ⟨32, by omega, rfl⟩

/-- An allocation changes the page it hands out and page 0. -/
theorem Spared.alloc {q : Nat} {s₀ : Pager B} (h : Spared q s₀ s) (h0 : q ≠ 0) (hq : q ≠ s.getUnusedPageNum.1) :
    Spared q s₀ s.getUnusedPageNum.2 := by
  by_cases hp : s.Pops
  · obtain ⟨next, he⟩ := getUnusedPageNum_pop hp
    rw [he] at hq ⊢
    have h1 := h.modify (fun hn => hq hn.symm) fun _ => Page.zero
    have h2 : Spared q s₀ ({ (s.modify s.freelistHead fun _ => Page.zero) with freelistHead := next } : Pager B) := by
      obtain ⟨j, hw⟩ := h1.writing
      exact ⟨⟨j, hw.congr rfl rfl rfl rfl rfl rfl rfl fun _ => rfl⟩, h1.covers, h1.view⟩
    exact h2.modify (fun hn => h0 hn.symm) fun p0 => p0.setFreelistHead next
  · rw [getUnusedPageNum_fresh hp]
    exact h

/-- CREATE TABLE changes the new root and the catalog's pages. -/
theorem createTable_view {j : List (JournalEntry B)} (hw : Writing s j) (hc : Covers s) {img : CatalogImage B}
    (init : B → B) {q : Nat} (h0 : q ≠ 0) (h15 : q ≠ 15) (hq : q ∉ definitionPages img.numTables)
    (hroot : q ≠ ({ s with reservedCatalogPages := catalogGetReservedPages img.numTables } : Pager B).getUnusedPageNum.1) :
    (s.createTable img init).view q = s.view q := by
  have hs : Spared q s { s with reservedCatalogPages := catalogGetReservedPages img.numTables } :=
    ⟨⟨j, hw.congr rfl rfl rfl rfl rfl rfl rfl fun _ => rfl⟩, hc, rfl⟩
  unfold createTable
  generalize ({ s with reservedCatalogPages := catalogGetReservedPages img.numTables } : Pager B) = s₁ at hs hroot ⊢
  have h1 := hs.alloc h0 hroot
  have h2 := (h1.step (a := .shadow s₁.getUnusedPageNum.1) id).modify (fun hn => hroot hn.symm) (onBody init)
  obtain ⟨i, hw₂⟩ := h2.writing
  exact (catalogSave_view hw₂ h2.covers h0 h15 hq).trans h2.view

theorem getPage_uncached {p q : Nat} (hq : q ≠ p) (h : s.pages.slot q = none) : (s.getPage p).pages.slot q = none := by
  have hlock : ∃ l e, (if s.isMemory then s else { (s.pagerLock .shared).2 with lockError := false }) =
      { s with lockState := l, lockError := e } := by
    split
    · exact ⟨_, _, rfl⟩
    · obtain ⟨l, hl⟩ := pagerLock_frame s .shared
      rw [hl]
      exact ⟨_, _, rfl⟩
  obtain ⟨l, e, hl⟩ := hlock
  obtain ⟨c, fp, n, w, u, o, hr, hc⟩ := refresh_frame { s with lockState := l, lockError := e }
  have hnone : c.slot q = none := by
    rcases hc with ⟨rfl, -⟩ | ⟨rfl, -⟩
    · exact h
    · rfl
  unfold getPage
  rw [hl]
  simp only [hr]
  split
  · exact hnone
  · simp only [Slots.slot_set, if_neg hq]
    exact hnone

theorem foldl_getPage_uncached {q : Nat} (l : List Nat) (hq : q ∉ l) (h : s.pages.slot q = none) :
    (l.foldl getPage s).pages.slot q = none := by
  induction l generalizing s with
  | nil => exact h
  | cons p l ih =>
    exact ih (fun hn => hq (List.mem_cons_of_mem _ hn))
      (getPage_uncached (fun hn => hq (hn ▸ List.mem_cons_self ..)) h)

/-- `catalog_load` reads the pages of `loadPages` and no others. -/
theorem catalogLoad_uncached (count : B → Nat) (s : Pager B) {q : Nat} (hq : q ∉ loadPages (s.catalogLoad count).1)
    (h : s.pages.slot q = none) : (s.catalogLoad count).2.pages.slot q = none := by
  have h0 : q ≠ 0 := fun hn => hq (hn ▸ List.mem_cons_self ..)
  exact foldl_getPage_uncached _ hq (getPage_uncached h0 h)

/-! ## Apart up to 32 tables -/

/-- With `n` tables the catalog and the data keep to different pages: the allocator hands out no page of a
definition, neither CREATE TABLE nor `catalog_save` changes a data page, and `catalog_load` reads none. -/
structure CatalogApart (B : Type) [PageBody B] (n : Nat) : Prop where
  disjoint : ∀ p, HandedOut B n p → p ∉ definitionPages n
  create : ∀ (s : Pager B) j (img : CatalogImage B) init, img.numTables = n → Writing s j → Covers s → ∀ q, HandedOut B n q →
    q ≠ ({ s with reservedCatalogPages := catalogGetReservedPages n } : Pager B).getUnusedPageNum.1 →
    (s.createTable img init).view q = s.view q
  save : ∀ (s : Pager B) j (img : CatalogImage B), img.numTables = n → Writing s j → Covers s → ∀ q, HandedOut B n q →
    (s.catalogSave img).view q = s.view q
  load : ∀ (s : Pager B) count, (s.catalogLoad count).1 = n → ∀ q, HandedOut B n q → s.pages.slot q = none →
    (s.catalogLoad count).2.pages.slot q = none

theorem catalogApart_of_le {n : Nat} (hn : n ≤ 32) : CatalogApart B n := by
  have hout : ∀ q, HandedOut B n q → q ≠ 0 ∧ q ≠ 15 ∧ q ∉ definitionPages n := by
    intro q hq
    have hge := hq.ge
    exact ⟨by omega, by omega, fun hm => absurd (definitionPages_lt hn hm) (by omega)⟩
  refine ⟨fun p hp => (hout p hp).2.2, ?_, ?_, ?_⟩
  · intro s j img init himg hw hc q hq hroot
    obtain ⟨h0, h15, hd⟩ := hout q hq
    subst himg
    exact createTable_view hw hc init h0 h15 hd hroot
  · intro s j img himg hw hc q hq
    obtain ⟨h0, h15, hd⟩ := hout q hq
    subst himg
    exact catalogSave_view hw hc h0 h15 hd
  · intro s count hcount q hq hnone
    obtain ⟨h0, h15, hd⟩ := hout q hq
    refine catalogLoad_uncached count s (fun hm => ?_) hnone
    rw [hcount, loadPages, if_pos (by unfold maxTables; omega)] at hm
    rcases List.mem_cons.mp hm with hm | hm
    · exact h0 hm
    · rcases List.mem_append.mp hm with hm | hm
      · exact hd hm
      · exact h15 (List.mem_singleton.mp hm)

/-- The catalog's pages and the data pages stay apart exactly up to 32 tables. -/
theorem catalog_apart_iff (n : Nat) : CatalogApart B n ↔ n ≤ 32 := by
  refine ⟨fun h => ?_, catalogApart_of_le⟩
  by_contra hn
  exact h.disjoint 33 (handedOut_first n) (definitionPages_first (by omega))

/-- The first table's root is page 33, and so is the definition of the 33rd table. -/
theorem thirtyThird_table : emptyCatalog.getUnusedPageNum.1 = 33 ∧ 33 ∈ definitionPages 33 ∧
    ¬ ∀ n ≤ maxTables, CatalogApart Word n := by
  refine ⟨rfl, by decide, fun h => ?_⟩
  exact (h 33 (by decide)).disjoint 33 ⟨emptyCatalog, rfl, rfl⟩ (by decide)

end Pager

end CustomDB
