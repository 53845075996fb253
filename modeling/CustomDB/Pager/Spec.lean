import CustomDB.Pager.Ops

/-!
# What each pager operation does

One lemma an operation, for a pager without a competing writer: which fields change, and how the
cache, the shadow copies and the files read afterwards. The later modules cite these and never unfold
an operation.
-/

namespace CustomDB

open Lib

namespace Pager

variable {B : Type} [PageBody B] {s s' : Pager B}

/-- No other connection writes to the database, or waits to. -/
structure Sole (s : Pager B) : Prop where
  sharedWrite : s.others.sharedWrite = false
  reserved : s.others.reserved = false
  pending : s.others.pending = false
  slot : ∀ e, s.writerSlot ≠ .other e

/-! ## Locks and reads -/

omit [PageBody B] in
theorem climb_frame (want lo hi : PagerLockState) (b : Bool) (r : Bool × Pager B) :
    ∃ l, (climb want lo hi b r).2 = { r.2 with lockState := l } := by
  unfold climb
  split
  · split
    · exact ⟨r.2.lockState, rfl⟩
    · exact ⟨hi, rfl⟩
  · exact ⟨r.2.lockState, rfl⟩

omit [PageBody B] in
/-- Granted or refused, `pager_lock` changes the lock state and nothing else. -/
theorem pagerLock_frame (s : Pager B) (want : PagerLockState) :
    ∃ l, (s.pagerLock want).2 = { s with lockState := l } := by
  unfold pagerLock
  split
  · exact ⟨s.lockState, rfl⟩
  · obtain ⟨l₁, h₁⟩ := climb_frame want .noLock .shared (s.others.pending || s.others.sharedWrite) (true, s)
    obtain ⟨l₂, h₂⟩ := climb_frame want .shared .reserved s.others.reserved _
    obtain ⟨l₃, h₃⟩ := climb_frame want .reserved .pending s.others.pending _
    obtain ⟨l₄, h₄⟩ := climb_frame want .pending .exclusive (s.others.sharedRead || s.others.sharedWrite) _
    rw [h₄, h₃, h₂, h₁]
    exact ⟨l₄, rfl⟩

omit [PageBody B] in
theorem climb_free (want lo hi : PagerLockState) (s : Pager B) :
    climb want lo hi false (true, s) = (true, { s with
      lockState := if s.lockState = lo ∧ hi.level ≤ want.level then hi else s.lockState }) := by
  unfold climb
  by_cases h : s.lockState = lo ∧ hi.level ≤ want.level
  · rw [if_pos ⟨rfl, h⟩, if_pos h]
    rfl
  · rw [if_neg (fun hc => h hc.2), if_neg h]

omit [PageBody B] in
theorem climb_out (want lo hi : PagerLockState) (b : Bool) (r : Bool × Pager B)
    (h : want.level < hi.level) : climb want lo hi b r = r :=
  if_neg fun hc => absurd hc.2.2 (by omega)

/-- The lock state after a granted request; a memory database takes no locks. -/
def lockedAt (s : Pager B) (want : PagerLockState) : PagerLockState :=
  if s.isMemory then s.lockState else s.lockState.raise want

omit [PageBody B] in
/-- Without a competing writer every lock up to RESERVED is granted. -/
theorem pagerLock_sole (h : Sole s) (want : PagerLockState) (hw : want.level ≤ 2) :
    s.pagerLock want = (true, { s with lockState := s.lockedAt want }) := by
  unfold pagerLock lockedAt PagerLockState.raise
  by_cases hm : s.isMemory = true
  · rw [if_pos (Or.inl hm), if_pos hm]
  · rw [if_neg hm]
    by_cases hl : want.level ≤ s.lockState.level
    · rw [if_pos (Or.inr hl), if_pos hl]
    · have h4 : want.level < PagerLockState.exclusive.level := lt_of_le_of_lt hw (by decide)
      have h3 : want.level < PagerLockState.pending.level := lt_of_le_of_lt hw (by decide)
      rw [if_neg (by simp [hl, hm]), if_neg hl, climb_out want _ _ _ _ h4, climb_out want _ _ _ _ h3]
      simp only [h.sharedWrite, h.reserved, h.pending, Bool.or_false, climb_free]
      congr 2
      revert hl hw
      cases s.lockState <;> cases want <;> decide

omit [PageBody B] in
/-- The read lock is granted unless a writer is waiting or writing. -/
theorem pagerLock_shared (hw : s.others.sharedWrite = false) (hp : s.others.pending = false) :
    s.pagerLock .shared = (true, { s with lockState := s.lockedAt .shared }) := by
  unfold pagerLock lockedAt PagerLockState.raise
  by_cases hm : s.isMemory = true
  · rw [if_pos (Or.inl hm), if_pos hm]
  · rw [if_neg hm]
    by_cases hl : PagerLockState.shared.level ≤ s.lockState.level
    · rw [if_pos (Or.inr hl), if_pos hl]
    · rw [if_neg (by simp [hl, hm]), if_neg hl, climb_out _ _ _ _ _ (by decide), climb_out _ _ _ _ _ (by decide),
        climb_out _ _ _ _ _ (by decide)]
      simp only [hw, hp, Bool.or_false, climb_free]
      congr 2
      revert hl
      cases s.lockState <;> decide

omit [PageBody B] in
/-- While another process holds RESERVED a request for it stops at the read lock. -/
theorem pagerLock_blocked (hw : s.others.sharedWrite = false) (hp : s.others.pending = false)
    (hr : s.others.reserved = true) (hm : s.isMemory = false)
    (hl : s.lockState.level < PagerLockState.reserved.level) (want : PagerLockState)
    (hwant : PagerLockState.reserved.level ≤ want.level) :
    s.pagerLock want = (false, { s with lockState := .shared }) := by
  have hsh : climb want .noLock .shared (s.others.pending || s.others.sharedWrite) (true, s) =
      (true, { s with lockState := .shared }) := by
    rw [hw, hp, Bool.or_false, climb_free]
    have hle : PagerLockState.shared.level ≤ want.level := le_trans (by decide) hwant
    have hls : (if s.lockState = .noLock ∧ PagerLockState.shared.level ≤ want.level then .shared else s.lockState) =
        PagerLockState.shared := by
      revert hl
      cases s.lockState with
      | noLock => exact fun _ => if_pos ⟨rfl, hle⟩
      | shared => exact fun _ => if_neg fun hc => by cases hc.1
      | reserved => exact fun hl => absurd hl (by decide)
      | pending => exact fun hl => absurd hl (by decide)
      | exclusive => exact fun hl => absurd hl (by decide)
    rw [hls]
  have hno : ∀ lo hi b (t : Pager B), climb want lo hi b (false, t) = (false, t) := by
    intro lo hi b t
    exact if_neg fun hc => by cases hc.1
  unfold pagerLock
  rw [if_neg (by rw [hm]; simp; omega), hsh]
  have hres : climb want .shared .reserved s.others.reserved (true, { s with lockState := .shared }) =
      (false, { s with lockState := .shared }) := by
    unfold climb
    rw [if_pos ⟨rfl, rfl, hwant⟩, if_pos hr]
  rw [hres, hno, hno]

theorem refresh_inTx (ht : s.inTransaction = true) : s.pagerRefreshIfModified = s := by
  simp [pagerRefreshIfModified, ht]

omit [PageBody B] in
theorem openWal_frame (s : Pager B) : ∃ u w, s.openWal = { s with useWal := u, walOpen := w } := by
  unfold openWal
  split
  · exact ⟨_, _, rfl⟩
  · exact ⟨_, _, rfl⟩

omit [PageBody B] in
theorem openWal_open (h : s.disk.wal.isSome = true → s.useWal = true ∧ s.walOpen = true) : s.openWal = s := by
  unfold openWal
  split
  · next hw =>
    obtain ⟨hu, ho⟩ := h hw
    cases s
    dsimp only at hu ho
    subst hu ho
    rfl
  · rfl

theorem refresh_frame (s : Pager B) : ∃ c fp n l u w, s.pagerRefreshIfModified = { s with
      pages := c, filePages := fp, numPages := n, walLsn := l, useWal := u, walOpen := w } ∧
    (c = s.pages ∧ n = s.numPages ∨ c = Slots.empty ∧ n = s.disk.main.length % fileLengthWrap) := by
  obtain ⟨u, w, ho⟩ := openWal_frame s
  unfold pagerRefreshIfModified
  split
  · exact ⟨_, _, _, _, _, _, rfl, Or.inl ⟨rfl, rfl⟩⟩
  · simp only [ho]
    split
    · exact ⟨_, _, _, _, _, _, rfl, Or.inr ⟨rfl, rfl⟩⟩
    · exact ⟨_, _, _, _, _, _, rfl, Or.inl ⟨rfl, rfl⟩⟩

/-- Two states that read uncached pages alike. -/
structure SameRead (s s' : Pager B) : Prop where
  main : s'.disk.main = s.disk.main
  wal : s'.disk.wal = s.disk.wal
  filePages : s'.filePages = s.filePages
  useWal : s'.useWal = s.useWal
  walOpen : s'.walOpen = s.walOpen

theorem SameRead.readPage (h : SameRead s s') (p : Nat) : s'.readPage p = s.readPage p := by
  simp only [Pager.readPage, lastFrame, mainPage, h.main, h.wal, h.filePages, h.useWal, h.walOpen]

/-- The cache of `s'` is that of `s`, possibly with page `p` brought in. -/
def CacheOrLoad (s s' : Pager B) (p : Nat) : Prop :=
  ∀ q, s'.pages.slot q = s.pages.slot q ∨ q = p ∧ s'.pages.slot q = some (s.base p)

theorem SameRead.base (h : SameRead s s') {p : Nat} (hc : CacheOrLoad s s' p) (q : Nat) :
    s'.base q = s.base q := by
  rcases hc q with hq | ⟨rfl, hq⟩
  · rw [Pager.base, hq, h.readPage, Pager.base]
  · rw [Pager.base, hq, Option.getD_some]

theorem CacheOrLoad.isSome {p q : Nat} (h : CacheOrLoad s s' p) (hq : (s.pages.slot q).isSome = true) :
    (s'.pages.slot q).isSome = true := by
  rcases h q with h | ⟨-, h⟩
  · rw [h]
    exact hq
  · rw [h]
    rfl

/-- `get_page` brings page `p` into the cache and changes no page. -/
structure Loaded (s s' : Pager B) (p : Nat) : Prop where
  same : ∃ l e c n, s' = { s with lockState := l, lockError := e, pages := c, numPages := n }
  lock : s'.lockState = s.lockedAt .shared
  slot : ∀ q, s'.pages.slot q = if q = p then some (s.base p) else s.pages.slot q
  numPages : s'.numPages = if (s.pages.slot p).isSome = true then s.numPages else max s.numPages (p + 1)

omit [PageBody B] in
/-- The lock that `get_page` takes first. -/
theorem readLock_eq (hw : s.others.sharedWrite = false) (hp : s.others.pending = false) :
    ∃ e, (if s.isMemory then s else { (s.pagerLock .shared).2 with lockError := false }) =
      { s with lockState := s.lockedAt .shared, lockError := e } := by
  by_cases hm : s.isMemory = true
  · refine ⟨s.lockError, ?_⟩
    rw [if_pos hm, lockedAt, if_pos hm]
  · refine ⟨false, ?_⟩
    rw [if_neg hm, pagerLock_shared hw hp]

omit [PageBody B] in
theorem lockedAt_shared_idem {l : PagerLockState} (hl : l = s.lockedAt .shared) (hs : s'.lockState = l)
    (hm : s'.isMemory = s.isMemory) : s'.lockedAt .shared = l := by
  unfold lockedAt at hl ⊢
  rw [hs, hm]
  split
  · rfl
  · next hn =>
    rw [hl, if_neg hn]
    cases s.lockState <;> rfl

/-- `get_page` after the read lock: refresh, then bring the page in. -/
theorem getPage_refreshed (hw : s.others.sharedWrite = false) (hp : s.others.pending = false) (p : Nat) :
    ∃ e, Loaded ({ s with lockState := s.lockedAt .shared, lockError := e } : Pager B).pagerRefreshIfModified
      (s.getPage p) p := by
  obtain ⟨e, he⟩ := readLock_eq hw hp
  refine ⟨e, ?_⟩
  obtain ⟨c, fp, n, l, u, w, hr, -⟩ := refresh_frame { s with lockState := s.lockedAt .shared, lockError := e }
  unfold getPage
  rw [he]
  simp only [hr]
  have hlock : ∀ s' : Pager B, s'.lockState = s.lockedAt .shared → s'.isMemory = s.isMemory →
      s.lockedAt .shared = s'.lockedAt .shared := fun s' h h' => (lockedAt_shared_idem rfl h h').symm
  cases hp : c.slot p with
  | some x =>
    refine ⟨⟨_, _, _, _, rfl⟩, hlock _ rfl rfl, fun q => ?_, by simp only [hp, Option.isSome_some, if_true]⟩
    by_cases hq : q = p
    · subst hq
      simp [base, hp]
    · simp [hq]
  | none =>
    refine ⟨⟨_, _, _, _, rfl⟩, hlock _ rfl rfl, fun q => ?_, by simp only [hp, Option.isSome_none]; rfl⟩
    simp only [Slots.slot_set, base, hp, Option.getD_none]

theorem Loaded.of_lock {l : PagerLockState} {e : Bool} {p : Nat} (hl : l = s.lockedAt .shared)
    (h : Loaded { s with lockState := l, lockError := e } s' p) : Loaded s s' p := by
  refine ⟨?_, ?_, h.slot, h.numPages⟩
  · obtain ⟨_, _, _, _, rfl⟩ := h.same
    exact ⟨_, _, _, _, rfl⟩
  · have hs : ({ s with lockState := l, lockError := e } : Pager B).lockState = l := rfl
    exact h.lock.trans ((lockedAt_shared_idem hl hs rfl).trans hl)

theorem getPage_inTx (hw : s.others.sharedWrite = false) (hp : s.others.pending = false)
    (ht : s.inTransaction = true) (p : Nat) : Loaded s (s.getPage p) p := by
  obtain ⟨e, h⟩ := getPage_refreshed hw hp p
  rw [refresh_inTx (by exact ht)] at h
  exact h.of_lock rfl

theorem getPage_loaded (h : Sole s) (ht : s.inTransaction = true) (p : Nat) : Loaded s (s.getPage p) p :=
  getPage_inTx h.sharedWrite h.pending ht p

theorem Loaded.cacheOrLoad {p : Nat} (h : Loaded s s' p) : CacheOrLoad s s' p := by
  intro q
  rw [h.slot]
  split
  · next hq => exact Or.inr ⟨hq, rfl⟩
  · exact Or.inl rfl

theorem Loaded.sameRead {p : Nat} (h : Loaded s s' p) : SameRead s s' := by
  obtain ⟨_, _, _, _, rfl⟩ := h.same
  exact ⟨rfl, rfl, rfl, rfl, rfl⟩

theorem Loaded.base {p : Nat} (h : Loaded s s' p) (q : Nat) : s'.base q = s.base q :=
  h.sameRead.base h.cacheOrLoad q

theorem Loaded.view {p : Nat} (h : Loaded s s' p) (q : Nat) : s'.view q = s.view q := by
  have hb := h.base q
  obtain ⟨_, _, _, _, rfl⟩ := h.same
  simp only [Pager.view, hb]

theorem Loaded.numPages_ge {p : Nat} (h : Loaded s s' p) : s.numPages ≤ s'.numPages := by
  rw [h.numPages]
  split <;> omega

theorem Loaded.numPages_le {p : Nat} (h : Loaded s s' p) : s'.numPages ≤ max s.numPages (p + 1) := by
  rw [h.numPages]
  split <;> omega

omit [PageBody B] in
/-- Bringing one page in keeps the cache below the page count. -/
theorem cached_lt {p : Nat} (hc : ∀ q, (s'.pages.slot q).isSome = true → q = p ∨ (s.pages.slot q).isSome = true)
    (hn : s'.numPages = if (s.pages.slot p).isSome = true then s.numPages else max s.numPages (p + 1))
    (hb : ∀ q x, s.pages.slot q = some x → q < s.numPages) : ∀ q x, s'.pages.slot q = some x → q < s'.numPages := by
  intro q x hq
  by_cases hqs : (s.pages.slot q).isSome = true
  · obtain ⟨y, hy⟩ := Option.isSome_iff_exists.mp hqs
    have := hb q y hy
    rw [hn]
    split <;> omega
  · obtain rfl : q = p := (hc q (by rw [hq]; rfl)).resolve_right hqs
    rw [hn, if_neg hqs]
    omega

theorem Loaded.slot_isSome {p q : Nat} (h : Loaded s s' p) (hq : (s'.pages.slot q).isSome = true) :
    q = p ∨ (s.pages.slot q).isSome = true := by
  rw [h.slot] at hq
  by_cases hqp : q = p
  · exact Or.inl hqp
  · rw [if_neg hqp] at hq
    exact Or.inr hq

theorem Loaded.bound {p : Nat} (h : Loaded s s' p) (hb : ∀ q x, s.pages.slot q = some x → q < s.numPages) :
    ∀ q x, s'.pages.slot q = some x → q < s'.numPages :=
  cached_lt (fun _ => h.slot_isSome) h.numPages hb

/-- The pointer `get_page(p)` returns shows the page's current content. -/
theorem Loaded.deref {p : Nat} (h : Loaded s s' p) : s'.deref p = s.view p := by
  have hs : s'.pages.slot p = some (s.base p) := by rw [h.slot, if_pos rfl]
  obtain ⟨_, _, _, _, rfl⟩ := h.same
  dsimp only at hs
  simp only [Pager.deref, Pager.view, hs, Option.getD_some]

/-- Stores to page `p` go to a shadow copy. -/
def Shadowed (s : Pager B) (p : Nat) : Prop := s.isWriter = true ∧ (s.shadowPages.slot p).isSome = true

instance (s : Pager B) (p : Nat) : Decidable (s.Shadowed p) :=
  inferInstanceAs (Decidable (_ ∧ _))

/-- `buf = get_page(p); *buf = f(*buf)` inside a transaction: the shadow copy takes the new bytes if
there is one, else the committed page does. -/
structure Modified (s s' : Pager B) (p : Nat) (f : Page B → Page B) : Prop where
  same : ∃ l e c n sh, s' = { s with
    lockState := l, lockError := e, pages := c, numPages := n, shadowPages := sh }
  lock : s'.lockState = s.lockedAt .shared
  slot : ∀ q, s'.pages.slot q =
    if q = p then some (if s.Shadowed p then s.base p else f (s.view p)) else s.pages.slot q
  shadow : ∀ q, s'.shadowPages.slot q =
    if q = p ∧ s.Shadowed p then some (f (s.view p)) else s.shadowPages.slot q
  numPages : s'.numPages = if (s.pages.slot p).isSome = true then s.numPages else max s.numPages (p + 1)

omit [PageBody B] in
theorem store_shadowed (ht : s.inTransaction = true) {p : Nat} (hs : s.Shadowed p) (x : Page B) :
    s.store p x = { s with shadowPages := s.shadowPages.overwrite p x } :=
  if_pos (by simp [ht, hs.1, hs.2])

omit [PageBody B] in
theorem store_unshadowed {p : Nat} (hs : ¬ s.Shadowed p) (x : Page B) :
    s.store p x = { s with pages := s.pages.overwrite p x } := by
  unfold store
  rw [if_neg]
  intro hc
  simp only [Bool.and_eq_true] at hc
  exact hs ⟨hc.1.2, hc.2⟩

/-- A store after a load that brings in nothing else. -/
theorem Loaded.modified {p : Nat} (hl : Loaded s (s.getPage p) p) (ht : s.Shadowed p → s.inTransaction = true)
    (f : Page B → Page B) : Modified s (s.modify p f) p f := by
  unfold modify
  generalize s.getPage p = s₁ at hl
  simp only [hl.deref]
  have hsp : s₁.shadowPages = s.shadowPages := by
    obtain ⟨_, _, _, _, rfl⟩ := hl.same
    rfl
  have hsh : s₁.Shadowed p ↔ s.Shadowed p := by
    obtain ⟨_, _, _, _, rfl⟩ := hl.same
    exact Iff.rfl
  have ht₁ : s₁.inTransaction = s.inTransaction := by
    obtain ⟨_, _, _, _, rfl⟩ := hl.same
    rfl
  by_cases hs : s.Shadowed p
  · rw [store_shadowed (ht₁.trans (ht hs)) (hsh.mpr hs)]
    refine ⟨?_, hl.lock, fun q => ?_, fun q => ?_, hl.numPages⟩
    · obtain ⟨l, e, c, n, rfl⟩ := hl.same
      exact ⟨l, e, c, n, _, rfl⟩
    · rw [if_pos hs]
      exact hl.slot q
    · rw [Slots.slot_overwrite, hsp]
      by_cases hq : q = p
      · obtain ⟨x, hx⟩ := Option.isSome_iff_exists.mp hs.2
        rw [if_pos hq, if_pos ⟨hq, hs⟩, hq, hx]
        rfl
      · rw [if_neg hq, if_neg fun hn => hq hn.1]
  · rw [store_unshadowed fun hc => hs (hsh.mp hc)]
    refine ⟨?_, hl.lock, fun q => ?_, fun q => ?_, hl.numPages⟩
    · obtain ⟨l, e, c, n, rfl⟩ := hl.same
      exact ⟨l, e, _, n, _, rfl⟩
    · rw [Slots.slot_overwrite, hl.slot]
      by_cases hq : q = p
      · rw [if_pos hq, if_pos hq, if_pos hq, if_neg hs]
        rfl
      · rw [if_neg hq, if_neg hq, if_neg hq]
    · rw [if_neg fun hn => hs hn.2, hsp]

theorem modify_modified (h : Sole s) (ht : s.inTransaction = true) (p : Nat) (f : Page B → Page B) :
    Modified s (s.modify p f) p f := (getPage_loaded h ht p).modified (fun _ => ht) f

theorem Modified.sameRead {p : Nat} {f : Page B → Page B} (h : Modified s s' p f) : SameRead s s' := by
  obtain ⟨_, _, _, _, _, rfl⟩ := h.same
  exact ⟨rfl, rfl, rfl, rfl, rfl⟩

theorem Modified.base {p : Nat} {f : Page B → Page B} (h : Modified s s' p f) (q : Nat) :
    s'.base q = if q = p ∧ ¬ s.Shadowed p then f (s.view p) else s.base q := by
  rw [Pager.base, h.slot]
  by_cases hq : q = p
  · rw [if_pos hq, Option.getD_some, hq]
    by_cases hs : s.Shadowed p
    · rw [if_pos hs, if_neg fun hn => hn.2 hs]
    · rw [if_neg hs, if_pos ⟨rfl, hs⟩]
  · rw [if_neg hq, if_neg fun hn => hq hn.1, h.sameRead.readPage, Pager.base]

theorem Modified.slot_isSome {p q : Nat} {f : Page B → Page B} (h : Modified s s' p f) :
    (s'.pages.slot q).isSome = true ↔ q = p ∨ (s.pages.slot q).isSome = true := by
  rw [h.slot]
  by_cases hq : q = p
  · rw [if_pos hq]
    exact ⟨fun _ => Or.inl hq, fun _ => rfl⟩
  · rw [if_neg hq]
    exact ⟨Or.inr, fun h => h.resolve_left hq⟩

theorem Modified.bound {p : Nat} {f : Page B → Page B} (h : Modified s s' p f)
    (hb : ∀ q x, s.pages.slot q = some x → q < s.numPages) : ∀ q x, s'.pages.slot q = some x → q < s'.numPages :=
  cached_lt (fun _ => h.slot_isSome.mp) h.numPages hb

theorem Modified.numPages_ge {p : Nat} {f : Page B → Page B} (h : Modified s s' p f) :
    s.numPages ≤ s'.numPages := by
  rw [h.numPages]
  split <;> omega

theorem view_eq (ht : s.inTransaction = true) (p : Nat) :
    s.view p = if s.isWriter then (s.shadowPages.slot p).getD (s.base p) else s.base p := by
  simp only [view, ht, Bool.true_and]

theorem view_unshadowed {p : Nat} (hs : ¬ s.Shadowed p) : s.view p = s.base p := by
  unfold view
  split
  · next hw =>
    have hn : s.shadowPages.slot p = none := by
      simp only [Bool.and_eq_true] at hw
      simpa [Shadowed, hw.2] using hs
    rw [hn, Option.getD_none]
  · rfl

/-- Inside a transaction a page store is seen at its page and nowhere else. -/
theorem Modified.view {p : Nat} {f : Page B → Page B} (h : Modified s s' p f)
    (ht : s.inTransaction = true) (q : Nat) :
    s'.view q = if q = p then f (s.view p) else s.view q := by
  have hw : s'.isWriter = s.isWriter := by
    obtain ⟨_, _, _, _, _, rfl⟩ := h.same
    rfl
  have ht' : s'.inTransaction = true := by
    obtain ⟨_, _, _, _, _, rfl⟩ := h.same
    exact ht
  rw [view_eq ht', hw, h.shadow, h.base]
  by_cases hq : q = p
  · subst hq
    by_cases hs : s.Shadowed q
    · rw [if_pos hs.1, if_pos ⟨rfl, hs⟩, if_pos rfl, Option.getD_some]
    · simp only [hs, and_false, if_false, not_false_eq_true, and_true, if_true]
      split
      · next hw =>
        have hn : s.shadowPages.slot q = none := by simpa [Shadowed, hw] using hs
        rw [hn, Option.getD_none]
      · rfl
  · simp only [hq, false_and, if_false]
    rw [view_eq ht]

/-! ## The flush in rollback mode -/

/-- The writes a flush of the pages `l` issues. -/
def flushed (s : Pager B) (l : List Nat) : List (JournalEntry B) :=
  l.filterMap fun i => (s.flushBuf i).map fun x => (i, x)

theorem foldl_flush (hm : s.isMemory = false) (hw : s.useWal = false) (l : List Nat) :
    ∃ fp d, l.foldl pagerFlush s = { s with
      disk := { s.disk with main := BlockFile.writeAll Page.zero s.disk.main (s.flushed l) }
      io := s.io ++ (s.flushed l).map fun e => .writeMain e.1 e.2
      filePages := fp
      isDirty := d } := by
  induction l generalizing s with
  | nil => exact ⟨s.filePages, s.isDirty, by simp [flushed]⟩
  | cons i l ih =>
    rw [List.foldl_cons, pagerFlush, if_neg (by simp [hm])]
    cases hb : s.flushBuf i with
    | none =>
      have hl : s.flushed (i :: l) = s.flushed l := by simp [flushed, hb]
      rw [hl]
      exact ih hm hw
    | some x =>
      have hl : s.flushed (i :: l) = (i, x) :: s.flushed l := by simp [flushed, hb]
      simp only [if_neg (show ¬ s.useWal = true by simp [hw])]
      obtain ⟨fp, d, h⟩ := ih (s := { (s.emit (.writeMain i x)) with
        filePages := if s.filePages < (i + 1) % fileLengthWrap then (i + 1) % fileLengthWrap else s.filePages
        isDirty := s.isDirty.erase i }) hm hw
      refine ⟨fp, d, ?_⟩
      rw [h, hl]
      simp only [emit, Disk.apply, List.map_cons, List.append_assoc, List.singleton_append]
      rfl

/-- A loop that treats each index once, under a test that other turns leave alone. -/
theorem foldl_ite_eq_filter {σ : Type} (c : σ → Nat → Prop) [∀ s i, Decidable (c s i)] (f : σ → Nat → σ)
    (hc : ∀ s i j, j ≠ i → (c (f s i) j ↔ c s j)) (l : List Nat) (hl : l.Nodup) (s : σ) :
    l.foldl (fun s i => if c s i then f s i else s) s = (l.filter fun i => c s i).foldl f s := by
  induction l generalizing s with
  | nil => rfl
  | cons i l ih =>
    obtain ⟨hi, hl⟩ := List.nodup_cons.mp hl
    rw [List.foldl_cons, ih hl]
    by_cases h : c s i
    · rw [if_pos h, List.filter_cons_of_pos (by simpa using h), List.foldl_cons]
      congr 1
      apply List.filter_congr
      intro j hj
      simpa using hc s i j fun he => hi (he ▸ hj)
    · rw [if_neg h, List.filter_cons_of_neg (by simpa using h)]

theorem pagerFlush_pages (s : Pager B) (i : Nat) :
    (s.pagerFlush i).pages = s.pages ∧ (s.pagerFlush i).shadowPages = s.shadowPages := by
  unfold pagerFlush
  split
  · exact ⟨rfl, rfl⟩
  · split
    · exact ⟨rfl, rfl⟩
    · split <;> exact ⟨rfl, rfl⟩

theorem flushCached_eq (s : Pager B) :
    s.flushCached = ((List.range s.pages.cap).filter fun i => (s.pages.slot i).isSome).foldl pagerFlush s := by
  have h := foldl_ite_eq_filter (fun (s : Pager B) i => (s.pages.slot i).isSome = true) pagerFlush
    (fun s i j _ => by rw [(pagerFlush_pages s i).1]) (List.range s.pages.cap) List.nodup_range s
  rw [flushCached, h]
  simp only [Bool.decide_eq_true]

omit [PageBody B] in
theorem mem_flushed {e : JournalEntry B} {l : List Nat} (h : e ∈ s.flushed l) :
    e.1 ∈ l ∧ s.flushBuf e.1 = some e.2 := by
  obtain ⟨i, hi, he⟩ := List.mem_filterMap.mp h
  obtain ⟨x, hx, rfl⟩ := Option.map_eq_some_iff.mp he
  exact ⟨hi, hx⟩

omit [PageBody B] in
theorem flushed_mem {l : List Nat} {i : Nat} {x : Page B} (hi : i ∈ l) (hx : s.flushBuf i = some x) :
    (i, x) ∈ s.flushed l :=
  List.mem_filterMap.mpr ⟨i, hi, by rw [hx]; rfl⟩

/-- After a flush a listed page reads as its buffer and any other as before. -/
theorem read_flushed (s : Pager B) (l : List Nat) (q : Nat) :
    BlockFile.read Page.zero (BlockFile.writeAll Page.zero s.disk.main (s.flushed l)) q =
      if q ∈ l then (s.flushBuf q).getD (s.mainPage q) else s.mainPage q := by
  by_cases hq : q ∈ l
  · rw [if_pos hq]
    refine BlockFile.read_writeAll_of_const _ _ _ _ _ (fun w hw he => ?_) fun hn => ?_
    · rw [← he, (mem_flushed hw).2, Option.getD_some]
    · cases hb : s.flushBuf q with
      | none => rfl
      | some x => exact absurd rfl (hn _ (flushed_mem hq hb))
  · rw [if_neg hq]
    exact BlockFile.read_writeAll_of_not_mem _ _ _ _ fun w hw he => hq (he ▸ (mem_flushed hw).1)

/-! ## Taking the write lock -/

/-- Inside a transaction that has not written yet. -/
structure Reading (s : Pager B) : Prop extends Sole s where
  inTx : s.inTransaction = true
  notWriter : s.isWriter = false
  noJournal : s.isMemory = false → s.journalPos = none
  noFile : s.disk.journal = none
  noShadow : ∀ p, s.shadowPages.slot p = none
  unmarked : s.pageIsJournaled = ∅
  lock : s.isMemory = false → s.lockState.level < PagerLockState.reserved.level

/-- What the writer of a database file holds: both locks, the journal `j` and a descriptor for it. -/
structure Holds (s : Pager B) (j : List (JournalEntry B)) : Prop where
  self : s.writerSlot = .self
  lock : PagerLockState.reserved.level ≤ s.lockState.level
  journal : s.disk.journal = some j
  pos : s.journalPos.isSome = true

/-- Inside a transaction that has the write lock. A memory database has no journal file. -/
structure Writing (s : Pager B) (j : List (JournalEntry B)) : Prop extends Sole s where
  inTx : s.inTransaction = true
  writer : s.isWriter = true
  holds : s.isMemory = false → Holds s j
  inMemory : s.isMemory = true → s.disk.journal = none ∧ j = []

theorem Writing.ensure {j : List (JournalEntry B)} (h : Writing s j) :
    s.pagerEnsureWriteLock = (true, s) := by
  have h1 : s.claimWriter = some s := by
    unfold claimWriter
    by_cases hm : s.isMemory = true
    · rw [if_pos hm]
    · rw [if_neg hm, (h.holds (by simpa using hm)).self]
      simp only [← (h.holds (by simpa using hm)).self]
  have h2 : s.acquireReserved = (true, s) := by
    unfold acquireReserved
    rw [if_neg]
    rintro ⟨hm, hl⟩
    exact absurd (h.holds hm).lock (by omega)
  have h3 : s.openJournal = s := by
    unfold openJournal
    rw [if_neg]
    rintro ⟨hn, hm⟩
    have hp := (h.holds hm).pos
    rw [Option.isNone_iff_eq_none] at hn
    rw [hn] at hp
    cases hp
  simp only [pagerEnsureWriteLock, h1, h2, h3]
  rw [← h.writer]

omit [PageBody B] in
theorem Writing.lockedAt {j : List (JournalEntry B)} (h : Writing s j) :
    s.lockedAt .shared = s.lockState := by
  unfold Pager.lockedAt
  by_cases hm : s.isMemory = true
  · rw [if_pos hm]
  · rw [if_neg hm, PagerLockState.raise, if_pos]
    exact le_trans (by decide) (h.holds (by simpa using hm)).lock

/-- The step from `Reading` to `Writing`: in rollback mode every cached page is written to the file
first, and the count of pages at the start of the transaction is taken anew. -/
structure Upgraded (s s' : Pager B) : Prop where
  same : ∃ m jn io w l e fp k d jp, s' = { s with
    disk := { main := m, journal := jn, wal := s.disk.wal }, io := io, writerSlot := w, lockState := l
    lockError := e, filePages := fp, numPagesAtTxStart := k, isDirty := d, journalPos := jp
    isWriter := true }
  writing : Writing s' []
  pos : s'.journalPos = if s.isMemory then s.journalPos else some 0
  locked : s.isMemory = false → s'.lockState = .reserved
  main : ∀ q, s'.mainPage q =
    if s.isMemory = false ∧ s.useWal = false then (s.pages.slot q).getD (s.mainPage q) else s.mainPage q
  length_ge : s.disk.main.length ≤ s'.disk.main.length
  length_le : ∀ n, (∀ q x, s.pages.slot q = some x → q < n) → s'.disk.main.length ≤ max s.disk.main.length n
  filePages : s'.filePages = if s.isMemory then s.filePages else s'.disk.main.length % fileLengthWrap
  txStart : s'.numPagesAtTxStart = if s.isMemory then s.numPagesAtTxStart else s.numPages
  io : ∃ ws : List (JournalEntry B), (s'.io = s.io ∧ s'.disk = s.disk ∨
      s'.io = s.io ++ (ws.map (fun e => .writeMain e.1 e.2) ++ [.createJournal]) ∧
        s'.disk = { s.disk with main := BlockFile.writeAll Page.zero s.disk.main ws, journal := some [] }) ∧
    ∀ e ∈ ws, s.pages.slot e.1 = some e.2
  memory : s.isMemory = true → s' = { s with isWriter := true }

omit [PageBody B] in
theorem flushBuf_unshadowed (h : ∀ p, s.shadowPages.slot p = none) (q : Nat) :
    s.flushBuf q = s.pages.slot q := by
  simp [Pager.flushBuf, h]

theorem flushCached_unshadowed (h : ∀ p, s.shadowPages.slot p = none) (hm : s.isMemory = false) (hw : s.useWal = false) :
    ∃ ws fp d, s.flushCached = { s with
        disk := { s.disk with main := BlockFile.writeAll Page.zero s.disk.main ws }
        io := s.io ++ ws.map fun e => .writeMain e.1 e.2
        filePages := fp
        isDirty := d } ∧
      (∀ e ∈ ws, s.pages.slot e.1 = some e.2) ∧
      ∀ q, BlockFile.read Page.zero (BlockFile.writeAll Page.zero s.disk.main ws) q =
        (s.pages.slot q).getD (s.mainPage q) := by
  obtain ⟨fp, d, he⟩ := foldl_flush hm hw ((List.range s.pages.cap).filter fun i => (s.pages.slot i).isSome)
  refine ⟨_, fp, d, by rw [flushCached_eq, he], fun e hmem => ?_, fun q => ?_⟩
  · rw [← flushBuf_unshadowed h]
    exact (mem_flushed hmem).2
  · rw [read_flushed, flushBuf_unshadowed h]
    by_cases hq : q ∈ (List.range s.pages.cap).filter fun i => (s.pages.slot i).isSome
    · rw [if_pos hq]
    · rw [if_neg hq]
      have hn : s.pages.slot q = none := by
        by_contra hne
        obtain ⟨x, hx⟩ := Option.ne_none_iff_exists'.mp hne
        exact hq (List.mem_filter.mpr ⟨List.mem_range.mpr (s.pages.lt_cap hx), by simp [hx]⟩)
      rw [hn, Option.getD_none]

omit [PageBody B] in
theorem claimWriter_file (h : Sole s) (hm : s.isMemory = false) :
    s.claimWriter = some { s with writerSlot := .self } := by
  unfold claimWriter
  rw [if_neg (by simp [hm])]
  cases hs : s.writerSlot with
  | other e => exact absurd hs (h.slot e)
  | _ => rfl

theorem ensure_memory (hm : s.isMemory = true) :
    s.pagerEnsureWriteLock = (true, { s with isWriter := true }) := by
  have h1 : s.claimWriter = some s := if_pos hm
  have h2 : s.acquireReserved = (true, s) := if_neg (by simp [hm])
  have h3 : s.openJournal = s := if_neg (by simp [hm])
  simp only [pagerEnsureWriteLock, h1, h2, h3]

/-- The write lock is free for this pager: no other process has it, nor another pager of this one. -/
def Grantable (s : Pager B) : Prop := s.others.reserved = false ∧ ∀ e, s.writerSlot ≠ .other e

/-- `pager_ensure_write_lock` where another connection writes. -/
theorem ensure_refused (hw : s.others.sharedWrite = false) (hp : s.others.pending = false)
    (hm : s.isMemory = false) (hl : s.lockState.level < PagerLockState.reserved.level)
    (hself : s.writerSlot ≠ .self) (hn : ¬ s.Grantable) : ∃ l, l.level < PagerLockState.reserved.level ∧
      s.pagerEnsureWriteLock = (false, { s with lockState := l, lockError := true }) := by
  unfold pagerEnsureWriteLock claimWriter
  rw [if_neg (by simp [hm])]
  cases hs : s.writerSlot with
  | self => exact absurd hs hself
  | other e =>
    refine ⟨s.lockState, hl, ?_⟩
    rfl
  | free =>
    have hres : s.others.reserved = true := by
      by_contra hc
      exact hn ⟨by simpa using hc, fun e he => by rw [hs] at he; cases he⟩
    have hlock := pagerLock_blocked (s := { s with writerSlot := .self }) hw hp hres hm hl .reserved (le_refl _)
    have hacq : acquireReserved { s with writerSlot := .self } =
        (false, { s with writerSlot := .self, lockState := .shared }) := by
      unfold acquireReserved
      rw [if_pos ⟨hm, hl⟩, hlock]
      rfl
    refine ⟨.shared, by decide, ?_⟩
    simp only [hacq, releaseWriter, if_true, ← hs]

/-- The pager once both locks are granted, before the baseline flush. -/
def granted (s : Pager B) : Pager B :=
  { s with writerSlot := .self, lockState := .reserved, lockError := false }

/-- `pager_ensure_write_lock` on a database file: lock, flush, journal. -/
theorem ensure_file (h : Reading s) (hm : s.isMemory = false) {f : Pager B}
    (hf : f = if s.useWal then s.granted else s.granted.flushCached) (hfm : f.isMemory = false)
    (hfj : f.journalPos = none) :
    s.pagerEnsureWriteLock = (true, { (f.emit .createJournal) with
      numPagesAtTxStart := f.numPages
      filePages := f.disk.main.length % fileLengthWrap
      journalPos := some 0
      isWriter := true }) := by
  have hl : s.lockedAt .reserved = .reserved := by
    have := h.lock hm
    rw [lockedAt, if_neg (by simp [hm]), PagerLockState.raise, if_neg (by omega)]
  have h2 : acquireReserved { s with writerSlot := .self } = (true, { f with
      numPagesAtTxStart := f.numPages, filePages := f.disk.main.length % fileLengthWrap }) := by
    have hsole : Sole { s with writerSlot := .self } :=
      ⟨h.sharedWrite, h.reserved, h.pending, fun e he => by cases he⟩
    have hlock := pagerLock_sole hsole .reserved (by decide)
    rw [show lockedAt { s with writerSlot := .self } .reserved = .reserved from hl] at hlock
    unfold acquireReserved
    rw [if_pos ⟨hm, h.lock hm⟩, hlock, hf]
    rfl
  simp only [pagerEnsureWriteLock, claimWriter_file h.toSole hm, h2]
  rw [openJournal, if_pos ⟨by simp [hfj], hfm⟩]
  rfl

omit [PageBody B] in
theorem writing_of_granted (h : Reading s) {s₁ : Pager B} (ho : s₁.others = s.others)
    (hself : s₁.writerSlot = .self) (ht : s₁.inTransaction = s.inTransaction) (hw : s₁.isWriter = true)
    (hm : s.isMemory = false) (hm₁ : s₁.isMemory = s.isMemory) (hl : s₁.lockState = .reserved)
    (hj : s₁.disk.journal = some []) (hp : s₁.journalPos = some 0) : Writing s₁ [] := by
  refine ⟨⟨?_, ?_, ?_, ?_⟩, ht.trans h.inTx, hw, fun _ => ⟨hself, ?_, hj, by rw [hp]; rfl⟩, fun hn => ?_⟩
  · rw [ho, h.sharedWrite]
  · rw [ho, h.reserved]
  · rw [ho, h.pending]
  · intro e he
    rw [hself] at he
    cases he
  · rw [hl]
  · rw [hm₁, hm] at hn
    cases hn

/-- The first capture of a transaction takes the write lock. -/
theorem Reading.upgrade (h : Reading s) : ∃ s₁, s.pagerEnsureWriteLock = (true, s₁) ∧ Upgraded s s₁ := by
  by_cases hm : s.isMemory = true
  · refine ⟨_, ensure_memory hm, ⟨_, _, _, _, _, _, _, _, _, _, rfl⟩, ?_, ?_, ?_, ?_, ?_, ?_, ?_, ?_, ?_,
      fun _ => rfl⟩
    · refine ⟨⟨h.sharedWrite, h.reserved, h.pending, h.slot⟩, h.inTx, rfl, ?_, fun _ => ⟨h.noFile, rfl⟩⟩
      intro hn
      rw [show s.isMemory = false from hn] at hm
      cases hm
    · rw [if_pos hm]
    · intro hn
      rw [hm] at hn
      cases hn
    · intro q
      rw [if_neg (by simp [hm])]
      rfl
    · exact le_refl _
    · exact fun n _ => le_max_left _ _
    · rw [if_pos hm]
    · rw [if_pos hm]
    · exact ⟨[], Or.inl ⟨rfl, rfl⟩, fun e he => absurd he List.not_mem_nil⟩
  · have hm : s.isMemory = false := by simpa using hm
    by_cases hw : s.useWal = true
    · have hf : s.granted = if s.useWal then s.granted else s.granted.flushCached := by rw [if_pos hw]
      have hens := ensure_file (f := s.granted) h hm hf hm (h.noJournal hm)
      refine ⟨_, hens, ⟨_, _, _, _, _, _, _, _, _, _, rfl⟩,
        writing_of_granted h rfl rfl rfl rfl hm rfl rfl rfl rfl, ?_, fun _ => rfl, ?_, ?_,
        ?_, ?_, ?_, ?_, fun hn => by rw [hm] at hn; cases hn⟩
      · rw [if_neg (by simp [hm])]
      · intro q
        rw [if_neg (by simp [hw])]
        rfl
      · exact le_refl _
      · exact fun n _ => le_max_left _ _
      · rw [if_neg (by simp [hm])]
        rfl
      · rw [if_neg (by simp [hm])]
        rfl
      · exact ⟨[], Or.inr ⟨rfl, rfl⟩, fun e he => absurd he List.not_mem_nil⟩
    · have hw : s.useWal = false := by simpa using hw
      obtain ⟨ws, fp, d, he, hmem, hread⟩ := flushCached_unshadowed (s := s.granted) h.noShadow hm hw
      have hens := ensure_file h hm (he.symm.trans (if_neg (by simp [hw])).symm) hm (h.noJournal hm)
      refine ⟨_, hens, ⟨_, _, _, _, _, _, _, _, _, _, rfl⟩,
        writing_of_granted h rfl rfl rfl rfl hm rfl rfl rfl rfl, ?_, fun _ => rfl, ?_, ?_,
        ?_, ?_, ?_, ?_, fun hn => by rw [hm] at hn; cases hn⟩
      · rw [if_neg (by simp [hm])]
      · intro q
        rw [if_pos ⟨hm, hw⟩]
        exact hread q
      · exact BlockFile.length_writeAll_ge _ _ _
      · exact fun n hn => BlockFile.length_writeAll_le _ _ _ n fun w hwm => hn _ _ (hmem w hwm)
      · rw [if_neg (by simp [hm])]
        rfl
      · rw [if_neg (by simp [hm])]
        rfl
      · refine ⟨ws, Or.inr ⟨?_, rfl⟩, hmem⟩
        exact List.append_assoc s.io (ws.map fun e => .writeMain e.1 e.2) [.createJournal]

/-- `file_length` covers the main file, so that every page of it is read. -/
def Covers (s : Pager B) : Prop := s.disk.main.length ≤ s.filePages

theorem Covers.fromFile (h : Covers s) (p : Nat) :
    (if p < s.filePages then s.mainPage p else Page.zero) = s.mainPage p := by
  split
  · rfl
  · next hp => exact (BlockFile.read_eq_filler _ _ (le_trans h (by omega))).symm

/-- A page without a WAL frame reads as the main file has it. -/
theorem Covers.readPage (h : Covers s) (p : Nat) : s.readPage p =
    if s.useWal && s.walOpen then ((s.lastFrame p).map Frame.data).getD (s.mainPage p) else s.mainPage p := by
  unfold Pager.readPage
  simp only [h.fromFile]
  split
  · cases s.lastFrame p <;> rfl
  · rfl

theorem Upgraded.covers (h : Upgraded s s') (hc : Covers s) (hb : ∀ q x, s.pages.slot q = some x → q < s.numPages)
    (hm : s.isMemory = false → s.disk.main.length < fileLengthWrap ∧ s.numPages < fileLengthWrap) : Covers s' := by
  by_cases hmem : s.isMemory = true
  · rw [h.memory hmem]
    exact hc
  · have hlt := hm (by simpa using hmem)
    have hle := h.length_le _ hb
    unfold Covers
    rw [h.filePages, if_neg hmem, Nat.mod_eq_of_lt]
    omega

/-- Taking the write lock changes no page. -/
theorem Upgraded.base (h : Upgraded s s') (hc : Covers s) (hc' : Covers s') (q : Nat) : s'.base q = s.base q := by
  have hmain := h.main q
  have hpages : s'.pages = s.pages := by
    obtain ⟨_, _, _, _, _, _, _, _, _, _, rfl⟩ := h.same
    rfl
  have hwal : s'.useWal = s.useWal ∧ s'.walOpen = s.walOpen ∧ s'.lastFrame q = s.lastFrame q := by
    obtain ⟨_, _, _, _, _, _, _, _, _, _, rfl⟩ := h.same
    exact ⟨rfl, rfl, rfl⟩
  unfold Pager.base
  rw [hpages]
  cases hq : s.pages.slot q with
  | some x => rfl
  | none =>
    have hm : s'.mainPage q = s.mainPage q := by
      rw [hmain, hq, Option.getD_none, ite_self]
    rw [hc'.readPage, hc.readPage, hm, hwal.1, hwal.2.1, hwal.2.2]

/-! ## Capturing a page -/

/-- `pager_shadow_page_write`: page `p` has a shadow copy that shows what the transaction saw there. -/
structure Captured (s s' : Pager B) (p : Nat) : Prop where
  same : ∃ e c n sh d,
    s' = { s with lockError := e, pages := c, numPages := n, shadowPages := sh, isDirty := d }
  cache : CacheOrLoad s s' p
  cached : s.shadowPages.slot p = none → (s'.pages.slot p).isSome = true
  shadow : ∀ q, s'.shadowPages.slot q = if q = p then some (s.view p) else s.shadowPages.slot q
  numPages_ge : s.numPages ≤ s'.numPages
  numPages_le : s'.numPages ≤ max s.numPages (p + 1)
  bound : (∀ q x, s.pages.slot q = some x → q < s.numPages) → ∀ q x, s'.pages.slot q = some x → q < s'.numPages
  dirty : s'.isDirty = insert p s.isDirty

theorem shadow_captured {j : List (JournalEntry B)} (h : Writing s j) (p : Nat) :
    Captured s (s.pagerShadowPageWrite p) p := by
  have hv : s.view p = (s.shadowPages.slot p).getD (s.base p) := by rw [view_eq h.inTx, if_pos h.writer]
  unfold pagerShadowPageWrite
  rw [if_neg (by simp [h.inTx]), h.ensure]
  simp only []
  cases hp : s.shadowPages.slot p with
  | some x =>
    refine ⟨⟨_, _, _, _, _, rfl⟩, fun q => Or.inl rfl, fun hn => ?_, fun q => ?_, le_refl _,
      le_max_left _ _, fun hb => hb, rfl⟩
    · rw [hp] at hn
      cases hn
    · by_cases hq : q = p
      · rw [if_pos hq, hq, hv, hp, Option.getD_some]
      · rw [if_neg hq]
  | none =>
    by_cases hc : (s.pages.slot p).isSome = true
    · obtain ⟨x, hx⟩ := Option.isSome_iff_exists.mp hc
      simp only [hc, if_true]
      refine ⟨⟨_, _, _, _, _, rfl⟩, fun q => Or.inl rfl, fun _ => hc, fun q => ?_, le_refl _,
        le_max_left _ _, fun hb => hb, rfl⟩
      simp only [Slots.slot_set, hv, hp, Option.getD_none, base, hx, Option.getD_some]
    · simp only [hc, Bool.false_eq_true, if_false]
      have hl := getPage_loaded (s := { s with isDirty := insert p s.isDirty })
        ⟨h.sharedWrite, h.reserved, h.pending, h.slot⟩ h.inTx p
      have hsame := h.lockedAt
      generalize Pager.getPage { s with isDirty := insert p s.isDirty } p = s₁ at hl
      obtain ⟨l, e, c, n, rfl⟩ := hl.same
      have hlock : l = s.lockState := hl.lock.trans hsame
      subst hlock
      refine ⟨⟨_, _, _, _, _, rfl⟩, hl.cacheOrLoad, fun _ => ?_, fun q => ?_, hl.numPages_ge, hl.numPages_le,
        hl.bound, rfl⟩
      · rw [hl.slot, if_pos rfl]
        rfl
      · have hslot := hl.slot p
        simp only [Slots.slot_set, hv, hp, Option.getD_none]
        rw [hslot, if_pos rfl, Option.getD_some]
        rfl

theorem Captured.sameRead {p : Nat} (h : Captured s s' p) : SameRead s s' := by
  obtain ⟨_, _, _, _, _, rfl⟩ := h.same
  exact ⟨rfl, rfl, rfl, rfl, rfl⟩

theorem Captured.base {p : Nat} (h : Captured s s' p) (q : Nat) : s'.base q = s.base q :=
  h.sameRead.base h.cache q

omit [PageBody B] in
theorem Writing.congr {j : List (JournalEntry B)} (h : Writing s j) (hd : s'.disk.journal = s.disk.journal)
    (ho : s'.others = s.others) (hself : s'.writerSlot = s.writerSlot)
    (ht : s'.inTransaction = s.inTransaction) (hw : s'.isWriter = s.isWriter)
    (hm : s'.isMemory = s.isMemory) (hl : s'.lockState = s.lockState)
    (hp : s.isMemory = false → s'.journalPos = s.journalPos) : Writing s' j := by
  refine ⟨⟨?_, ?_, ?_, ?_⟩, ht.trans h.inTx, hw.trans h.writer, fun hn => ?_, fun hn => ?_⟩
  · rw [ho, h.sharedWrite]
  · rw [ho, h.reserved]
  · rw [ho, h.pending]
  · rw [hself]
    exact h.slot
  · have hh := h.holds (hm.symm.trans hn)
    exact ⟨hself.trans hh.self, by rw [hl]; exact hh.lock, hd.trans hh.journal,
      by rw [hp (hm.symm.trans hn)]; exact hh.pos⟩
  · have hh := h.inMemory (hm.symm.trans hn)
    exact ⟨hd.trans hh.1, hh.2⟩

theorem Captured.writing {p : Nat} {j : List (JournalEntry B)} (h : Captured s s' p) (hw : Writing s j) :
    Writing s' j := by
  obtain ⟨_, _, _, _, _, rfl⟩ := h.same
  exact hw.congr rfl rfl rfl rfl rfl rfl rfl fun _ => rfl

theorem Captured.view {p : Nat} {j : List (JournalEntry B)} (h : Captured s s' p) (hw : Writing s j)
    (q : Nat) : s'.view q = s.view q := by
  have hw' := h.writing hw
  rw [view_eq hw'.inTx, if_pos hw'.writer, h.base, h.shadow]
  split
  · next hq => rw [Option.getD_some, hq]
  · rw [view_eq hw.inTx, if_pos hw.writer]

/-- No record is written: the page has one and no savepoint is open, or no descriptor is open. -/
def Skips (s : Pager B) (p : Nat) : Prop :=
  s.journalPos = none ∨ s.savepoints = [] ∧ p ∈ s.pageIsJournaled

/-- The record half of `pager_journal_page`. -/
def recorded (s : Pager B) (p : Nat) (x : Page B) : Pager B :=
  match s.journalPos with
  | none => s
  | some pos =>
    if s.savepoints = [] ∧ p ∈ s.pageIsJournaled then s
    else { (s.journalWrite pos (p, x)) with pageIsJournaled := insert p s.pageIsJournaled }

theorem journalPage_eq {j : List (JournalEntry B)} (h : Writing s j) (p : Nat) :
    ∃ s₁, Captured s s₁ p ∧ s.pagerJournalPage p = s₁.recorded p (s.view p) := by
  have hc := shadow_captured h p
  have hpre : (s.pagerShadowPageWrite p).preImage p = s.view p := by
    simp [preImage, flushBuf, hc.shadow]
  have ht := (hc.writing h).inTx
  refine ⟨_, hc, ?_⟩
  unfold pagerJournalPage recorded
  simp only [hpre, ht, Bool.true_eq_false, if_false]
  all_goals cases (s.pagerShadowPageWrite p).journalPos <;> rfl

theorem recorded_skip {p : Nat} (h : s.Skips p) (x : Page B) : s.recorded p x = s := by
  unfold recorded
  rcases h with h | h
  · rw [h]
  · split
    · rfl
    · rw [if_pos h]

/-- Where there is no journal file, a record goes nowhere. -/
theorem recorded_noFile (h : s.disk.journal = none) (p : Nat) (x : Page B) :
    (s.recorded p x).disk.journal = none := by
  unfold recorded
  split
  · exact h
  · split
    · exact h
    · simp [journalWrite, emit, Disk.apply, h]

theorem recorded_record {p pos : Nat} (h : ¬ s.Skips p) (hp : s.journalPos = some pos) (x : Page B) :
    s.recorded p x = { (s.journalWrite pos (p, x)) with pageIsJournaled := insert p s.pageIsJournaled } := by
  unfold recorded
  rw [hp]
  exact if_neg fun hn => h (Or.inr hn)

theorem recorded_frame (s : Pager B) (p : Nat) (x : Page B) : ∃ jn io jp pj, s.recorded p x = { s with
    disk := { s.disk with journal := jn }, io := io, journalPos := jp, pageIsJournaled := pj } := by
  unfold recorded
  split
  · exact ⟨_, _, _, _, rfl⟩
  · split
    · exact ⟨_, _, _, _, rfl⟩
    · exact ⟨_, _, _, _, rfl⟩

/-- A capture in a state that still has to take the write lock. -/
theorem shadow_upgrade {j : List (JournalEntry B)} (ht : s.inTransaction = true)
    (he : s.pagerEnsureWriteLock = (true, s')) (h : Writing s' j) (p : Nat) :
    s.pagerShadowPageWrite p = s'.pagerShadowPageWrite p := by
  unfold pagerShadowPageWrite
  rw [if_neg (by simp [ht]), if_neg (by simp [h.inTx]), he, h.ensure]

theorem journal_upgrade {j : List (JournalEntry B)} (ht : s.inTransaction = true)
    (he : s.pagerEnsureWriteLock = (true, s')) (h : Writing s' j) (p : Nat) :
    s.pagerJournalPage p = s'.pagerJournalPage p := by
  unfold pagerJournalPage
  rw [shadow_upgrade ht he h p]

/-! ## Beginning -/

theorem refresh_memory (hm : s.isMemory = true) : s.pagerRefreshIfModified = s := by
  simp [pagerRefreshIfModified, hm]

/-- `pager_begin_transaction`, when it starts a transaction. -/
structure Begun (s s' : Pager B) : Prop where
  same : ∃ c fp n l u w x, s' = { s with
    pages := c, filePages := fp, numPages := n, walLsn := l, useWal := u, walOpen := w
    inTransaction := true, isWriter := false, numPagesAtTxStart := n, txSnapshotXid := x }
  cache : s'.pages = s.pages ∧ s'.numPages = s.numPages ∨
    s'.pages = Slots.empty ∧ s'.numPages = s.disk.main.length % fileLengthWrap
  filePages : s.isMemory = false → s'.filePages = s.disk.main.length % fileLengthWrap
  memory : s.isMemory = true → s'.filePages = s.filePages ∧ s'.useWal = s.useWal

/-- `pager_begin_transaction` is refused while another connection writes, and else refreshes the cache. -/
theorem begin_cases (ht : ¬ s.inTransaction = true) :
    s.pagerBeginTransaction = (false, { s with lockError := true }) ∨
    s.pagerBeginTransaction = (true, { s.pagerRefreshIfModified with
      inTransaction := true
      isWriter := false
      numPagesAtTxStart := s.pagerRefreshIfModified.numPages
      filePages := if s.pagerRefreshIfModified.isMemory then s.pagerRefreshIfModified.filePages
        else s.pagerRefreshIfModified.disk.main.length % fileLengthWrap
      txSnapshotXid := s.pagerRefreshIfModified.walLsn }) := by
  unfold pagerBeginTransaction
  rw [if_neg ht]
  split
  · exact Or.inl rfl
  · split
    · exact Or.inl rfl
    · exact Or.inr rfl

theorem begin_begun (ht : s.inTransaction = false) (h : s.pagerBeginTransaction = (true, s')) :
    Begun s s' := by
  unfold pagerBeginTransaction at h
  rw [if_neg (by simp [ht])] at h
  split at h
  · cases h
  · split at h
    · cases h
    · obtain ⟨c, fp, n, l, u, w, he, hc⟩ := refresh_frame s
      have hmem := refresh_memory (s := s)
      simp only [he] at h hmem
      obtain rfl := (Prod.mk.inj h).2
      refine ⟨⟨_, _, _, _, _, _, _, rfl⟩, hc, fun hm => ?_, fun hm => ?_⟩
      · simp [hm]
      · have hfp : fp = s.filePages := congrArg Pager.filePages (hmem hm)
        have hu : u = s.useWal := congrArg Pager.useWal (hmem hm)
        exact ⟨by simp [hm, hfp], hu⟩

theorem begin_sole (h : Sole s) : s.pagerBeginTransaction.1 = true := by
  unfold pagerBeginTransaction
  split
  · rfl
  · split
    · next hs =>
      cases hw : s.writerSlot with
      | other e => exact absurd hw (h.slot e)
      | free => exact absurd hw hs.1
      | self => exact absurd hw hs.2
    · rw [if_neg (by simp [h.reserved])]

/-! ## Rolling back -/

theorem foldl_replayEntry (s : Pager B) (j : List (JournalEntry B)) :
    j.foldl replayEntry s = { s with
      disk := { s.disk with main := recoverMain s.disk.main j }
      io := s.io ++ j.map fun e => .writeMain e.1 e.2
      pages := s.pages.overwriteAll j } := by
  induction j generalizing s with
  | nil => simp [recoverMain, Slots.overwriteAll]
  | cons e j ih =>
    rw [List.foldl_cons, ih]
    simp only [replayEntry, emit, Disk.apply, List.map_cons, List.append_assoc, List.singleton_append]
    rfl

/-- The records `pager_rollback` and `pager_rollback_to_savepoint` find. -/
def journalRecords (s : Pager B) : List (JournalEntry B) := s.disk.journal.getD []

theorem replayJournal_eq (s : Pager B) : ∃ io, s.replayJournal = { s with
    disk := { main := recoverMain s.disk.main s.journalRecords, journal := none, wal := s.disk.wal }
    io := io
    pages := s.pages.overwriteAll s.journalRecords } := by
  unfold replayJournal journalRecords
  cases hj : s.disk.journal with
  | none =>
    have hd : (⟨recoverMain s.disk.main [], none, s.disk.wal⟩ : Disk B) = s.disk := by
      rw [← hj]
      rfl
    refine ⟨s.io, ?_⟩
    simp only [Option.getD_none, hd]
    rfl
  | some j =>
    refine ⟨s.io ++ j.map (fun e => .writeMain e.1 e.2) ++ [.unlinkJournal], ?_⟩
    simp only [foldl_replayEntry, emit, Disk.apply, Option.getD_some]

/-- The transaction added pages that its end takes away. -/
def Grew (s : Pager B) : Prop := 0 < s.numPagesAtTxStart ∧ s.numPagesAtTxStart < s.numPages

instance (s : Pager B) : Decidable s.Grew := inferInstanceAs (Decidable (_ ∧ _))

/-- `pager_rollback`, when it returns. -/
structure RolledBack (s s' : Pager B) : Prop where
  same : ∃ m io c n fp w e, s' = { s with
    disk := { main := m, journal := none, wal := s.disk.wal }, io := io, pages := c, numPages := n
    filePages := fp, writerSlot := w, lockError := e, shadowPages := Slots.empty, journalPos := none
    pageIsJournaled := ∅, isDirty := ∅, txSnapshotXid := 0, isExplicitTx := false, isWriter := false
    inTransaction := false, savepoints := [], lockState := .noLock }
  slot : ∀ q, s'.pages.slot q = if s.Grew ∧ s.numPagesAtTxStart ≤ q ∧ q < s.numPages then none else
    (s.pages.overwriteAll s.journalRecords).slot q
  main : s'.disk.main = if s.Grew ∧ s.isMemory = false then
      BlockFile.truncate Page.zero (recoverMain s.disk.main s.journalRecords)
        (s.numPagesAtTxStart % fileLengthWrap)
    else recoverMain s.disk.main s.journalRecords
  numPages : s'.numPages = if s.Grew then s.numPagesAtTxStart else s.numPages
  filePages : s'.filePages = if s.Grew then s.numPagesAtTxStart % fileLengthWrap else s.filePages
  writerSlot : s'.writerSlot = if s.writerSlot = .self then .free else s.writerSlot

theorem rollback_rolledBack (ht : s.inTransaction = true) (h : s.pagerRollback = some s') :
    RolledBack s s' := by
  obtain ⟨l, hl⟩ := pagerLock_frame s .exclusive
  unfold pagerRollback at h
  rw [if_neg (by simp [ht])] at h
  simp only [hl] at h
  split at h
  · cases h
  · obtain ⟨io, he⟩ := replayJournal_eq { s with
      lockState := l, shadowPages := Slots.empty, journalPos := none }
    rw [he] at h
    obtain rfl := Option.some.inj h
    by_cases hg : s.Grew
    · simp only [if_pos (show 0 < s.numPagesAtTxStart ∧ s.numPagesAtTxStart < s.numPages from hg)]
      have hslot : ∀ q, ((s.pages.overwriteAll s.journalRecords).clearRange s.numPagesAtTxStart s.numPages).slot q =
          if s.Grew ∧ s.numPagesAtTxStart ≤ q ∧ q < s.numPages then none else
            (s.pages.overwriteAll s.journalRecords).slot q := by
        intro q
        simp only [Slots.slot_clearRange, hg, true_and]
      unfold cutPages
      by_cases hm : s.isMemory = true
      · simp only [if_pos hm]
        refine ⟨⟨_, _, _, _, _, _, _, rfl⟩, hslot, ?_, ?_, ?_, rfl⟩
        · rw [if_neg fun hn => by simp [hm] at hn]
          rfl
        · rw [if_pos hg]
          rfl
        · rw [if_pos hg]
          rfl
      · simp only [if_neg hm]
        refine ⟨⟨_, _, _, _, _, _, _, rfl⟩, hslot, ?_, ?_, ?_, rfl⟩
        · rw [if_pos ⟨hg, by simpa using hm⟩]
          rfl
        · rw [if_pos hg]
          rfl
        · rw [if_pos hg]
          rfl
    · simp only [if_neg (show ¬ (0 < s.numPagesAtTxStart ∧ s.numPagesAtTxStart < s.numPages) from hg)]
      refine ⟨⟨_, _, _, _, _, _, _, rfl⟩, fun q => ?_, ?_, ?_, ?_, rfl⟩
      · rw [if_neg fun hn => hg hn.1]
        rfl
      · rw [if_neg fun hn => hg hn.1]
        rfl
      · rw [if_neg hg]
        rfl
      · rw [if_neg hg]
        rfl

/-- While another process holds RESERVED a pager without it does not get through `pager_rollback`. -/
theorem rollback_blocked (hw : s.others.sharedWrite = false) (hp : s.others.pending = false)
    (hm : s.isMemory = false) (hl : s.lockState.level < PagerLockState.reserved.level) (ht : s.inTransaction = true)
    (h : s.pagerRollback = some s') : s.others.reserved = false := by
  by_contra hr
  rw [pagerRollback, if_neg (by simp [ht]), pagerLock_blocked hw hp (by simpa using hr) hm hl _ (by decide)] at h
  cases h

/-! ## Operations that leave the committed pages alone -/

/-- Below page `n` no committed page changes, no shadow copy comes or goes, and neither file is
written. -/
structure Keeps (n : Nat) (s s' : Pager B) : Prop where
  same : ∃ l e c k sh f sp jp, s' = { s with
    lockState := l, lockError := e, pages := c, numPages := k, shadowPages := sh, freelistHead := f
    savepoints := sp, journalPos := jp }
  lock : s'.lockState = s.lockState ∨ s'.lockState = s.lockedAt .shared
  pos : s'.journalPos = s.journalPos ∨ s.journalPos.isSome = true ∧ s'.journalPos = some s.journalLength
  base : ∀ p < n, s'.base p = s.base p
  shadow : ∀ p, (s'.shadowPages.slot p).isSome = (s.shadowPages.slot p).isSome
  cached : ∀ p, (s.pages.slot p).isSome = true → (s'.pages.slot p).isSome = true
  bound : (∀ q x, s.pages.slot q = some x → q < s.numPages) → ∀ q x, s'.pages.slot q = some x → q < s'.numPages
  numPages : s.numPages ≤ s'.numPages

theorem Keeps.refl (n : Nat) (s : Pager B) : Keeps n s s :=
  ⟨⟨_, _, _, _, _, _, _, _, rfl⟩, Or.inl rfl, Or.inl rfl, fun _ _ => rfl, fun _ => rfl, fun _ h => h, fun h => h,
    le_refl _⟩

theorem Loaded.keeps {p : Nat} (h : Loaded s s' p) (n : Nat) : Keeps n s s' := by
  refine ⟨?_, Or.inr h.lock, Or.inl ?_, fun q _ => h.base q, fun q => ?_, fun q => h.cacheOrLoad.isSome,
    h.bound, h.numPages_ge⟩ <;> obtain ⟨_, _, _, _, rfl⟩ := h.same
  · exact ⟨_, _, _, _, _, _, _, _, rfl⟩
  · rfl
  · rfl

theorem Modified.keeps {p n : Nat} {f : Page B → Page B} (h : Modified s s' p f) (hp : p < n → s.Shadowed p) :
    Keeps n s s' := by
  refine ⟨?_, Or.inr h.lock, Or.inl ?_, fun q hq => ?_, fun q => ?_, fun q hq => ?_,
    h.bound, ?_⟩
  · obtain ⟨_, _, _, _, _, rfl⟩ := h.same
    exact ⟨_, _, _, _, _, _, _, _, rfl⟩
  · obtain ⟨_, _, _, _, _, rfl⟩ := h.same
    rfl
  · rw [h.base, if_neg]
    rintro ⟨rfl, hn⟩
    exact hn (hp hq)
  · rw [h.shadow]
    split
    · next hq =>
      rw [hq.1, hq.2.2]
      rfl
    · rfl
  · rw [h.slot]
    split
    · rfl
    · exact hq
  · rw [h.numPages]
    split <;> omega

theorem Keeps.journalLength {n : Nat} (h : Keeps n s s') : s'.journalLength = s.journalLength := by
  obtain ⟨_, _, _, _, _, _, _, _, rfl⟩ := h.same
  rfl

theorem Keeps.lockedAt {n : Nat} (h : Keeps n s s') : s'.lockedAt .shared = s.lockedAt .shared := by
  have hl := h.lock
  obtain ⟨l, _, _, _, _, _, _, _, rfl⟩ := h.same
  dsimp only at hl
  unfold Pager.lockedAt at hl ⊢
  dsimp only
  rcases hl with rfl | rfl
  · rfl
  · by_cases hm : s.isMemory = true
    · rw [if_pos hm, if_pos hm]
    · rw [if_neg hm, if_neg hm]
      cases s.lockState <;> rfl

theorem Keeps.trans {n : Nat} {s₁ s₂ s₃ : Pager B} (h : Keeps n s₁ s₂) (h' : Keeps n s₂ s₃) :
    Keeps n s₁ s₃ := by
  refine ⟨?_, ?_, ?_, fun p hp => (h'.base p hp).trans (h.base p hp), fun p => (h'.shadow p).trans (h.shadow p),
    fun p hp => h'.cached p (h.cached p hp), fun hb => h'.bound (h.bound hb), le_trans h.numPages h'.numPages⟩
  · obtain ⟨_, _, _, _, _, _, _, _, rfl⟩ := h.same
    obtain ⟨_, _, _, _, _, _, _, _, rfl⟩ := h'.same
    exact ⟨_, _, _, _, _, _, _, _, rfl⟩
  · rcases h'.lock with h' | h'
    · rw [h']
      exact h.lock
    · rw [h', h.lockedAt]
      exact Or.inr rfl
  · have hlen := h.journalLength
    rcases h.pos with hp | ⟨hp, hp'⟩ <;> rcases h'.pos with hq | ⟨hq, hq'⟩
    · exact Or.inl (hq.trans hp)
    · exact Or.inr ⟨by rw [← hp]; exact hq, by rw [hq', hlen]⟩
    · exact Or.inr ⟨hp, hq.trans hp'⟩
    · exact Or.inr ⟨hp, by rw [hq', hlen]⟩

theorem savepoint_keeps (ht : s.inTransaction = true) (name : SavepointName) (n : Nat) :
    Keeps n s (s.pagerSavepoint name) := by
  unfold pagerSavepoint
  rw [if_pos ht]
  simp only []
  split
  · exact Keeps.refl n s
  · split
    · exact ⟨⟨_, _, _, _, _, _, _, _, rfl⟩, Or.inl rfl, Or.inl rfl, fun _ _ => rfl, fun _ => rfl, fun _ h => h,
        fun h => h, le_refl _⟩
    · next hp =>
      exact ⟨⟨_, _, _, _, _, _, _, _, rfl⟩, Or.inl rfl, Or.inr ⟨by rw [hp]; rfl, rfl⟩, fun _ _ => rfl, fun _ => rfl,
        fun _ h => h, fun h => h, le_refl _⟩

theorem release_keeps (name : SavepointName) (n : Nat) : Keeps n s (s.pagerReleaseSavepoint name) := by
  unfold pagerReleaseSavepoint
  split
  · exact Keeps.refl n s
  · split
    · exact Keeps.refl n s
    · exact ⟨⟨_, _, _, _, _, _, _, _, rfl⟩, Or.inl rfl, Or.inl rfl, fun _ _ => rfl, fun _ => rfl, fun _ h => h,
        fun h => h, le_refl _⟩

theorem getUnusedPageNum_pop (h : s.Pops) : ∃ next, s.getUnusedPageNum = (s.freelistHead,
    ({ (s.modify s.freelistHead fun _ => Page.zero) with freelistHead := next } : Pager B).modify 0
      fun p0 => p0.setFreelistHead next) := by
  unfold getUnusedPageNum
  rw [if_pos h]
  refine ⟨PageBody.link ((s.getPage s.freelistHead).deref s.freelistHead).body, ?_⟩
  simp only [modify, store]
  split <;> rfl

theorem getUnusedPageNum_fresh (h : ¬ s.Pops) :
    s.getUnusedPageNum = (max s.numPages s.reservedCatalogPages, s) := if_neg h

omit [PageBody B] in
theorem Sole.congr (h : Sole s) (ho : s'.others = s.others) (hw : s'.writerSlot = s.writerSlot) : Sole s' := by
  refine ⟨?_, ?_, ?_, ?_⟩
  · rw [ho, h.sharedWrite]
  · rw [ho, h.reserved]
  · rw [ho, h.pending]
  · rw [hw]
    exact h.slot

theorem Keeps.sole {n : Nat} (h : Keeps n s s') (hs : Sole s) : Sole s' := by
  obtain ⟨_, _, _, _, _, _, _, _, rfl⟩ := h.same
  exact hs.congr rfl rfl

theorem Keeps.shadowed {n : Nat} (h : Keeps n s s') (p : Nat) : s'.Shadowed p ↔ s.Shadowed p := by
  have hw : s'.isWriter = s.isWriter := by
    obtain ⟨_, _, _, _, _, _, _, _, rfl⟩ := h.same
    rfl
  unfold Shadowed
  rw [hw, h.shadow]

theorem keeps_freelist (s : Pager B) (n k : Nat) : Keeps n s { s with freelistHead := k } :=
  ⟨⟨_, _, _, _, _, _, _, _, rfl⟩, Or.inl rfl, Or.inl rfl, fun _ _ => rfl, fun _ => rfl, fun _ h => h, fun h => h,
    le_refl _⟩

theorem alloc_keeps (h : Sole s) (ht : s.inTransaction = true) (n : Nat)
    (hp : s.Pops → (s.freelistHead < n → s.Shadowed s.freelistHead) ∧ (0 < n → s.Shadowed 0)) :
    Keeps n s s.getUnusedPageNum.2 := by
  by_cases hpop : s.Pops
  · obtain ⟨next, he⟩ := getUnusedPageNum_pop hpop
    rw [he]
    have h1 := (modify_modified h ht s.freelistHead fun _ => Page.zero).keeps (hp hpop).1
    generalize s.modify s.freelistHead (fun _ => Page.zero) = s₁ at h1
    have h12 := h1.trans (keeps_freelist s₁ n next)
    have ht2 : ({ s₁ with freelistHead := next } : Pager B).inTransaction = true := by
      obtain ⟨_, _, _, _, _, _, _, _, rfl⟩ := h1.same
      exact ht
    generalize ({ s₁ with freelistHead := next } : Pager B) = s₂ at h12 ht2
    have h3 := modify_modified (h12.sole h) ht2 0 fun p0 => p0.setFreelistHead next
    exact h12.trans (h3.keeps fun h0 => (h12.shadowed 0).mpr ((hp hpop).2 h0))
  · rw [getUnusedPageNum_fresh hpop]
    exact Keeps.refl n s

theorem Reading.keeps {n : Nat} (h : Reading s) (hk : Keeps n s s') : Reading s' := by
  have hmem : s'.isMemory = s.isMemory := by
    obtain ⟨_, _, _, _, _, _, _, _, rfl⟩ := hk.same
    rfl
  refine ⟨hk.sole h.toSole, ?_, ?_, fun hm => ?_, ?_, fun p => ?_, ?_, fun hm => ?_⟩
  · obtain ⟨_, _, _, _, _, _, _, _, rfl⟩ := hk.same
    exact h.inTx
  · obtain ⟨_, _, _, _, _, _, _, _, rfl⟩ := hk.same
    exact h.notWriter
  · rcases hk.pos with hp | ⟨hp, -⟩
    · rw [hp, h.noJournal (hmem.symm.trans hm)]
    · rw [h.noJournal (hmem.symm.trans hm)] at hp
      cases hp
  · obtain ⟨_, _, _, _, _, _, _, _, rfl⟩ := hk.same
    exact h.noFile
  · have hp := hk.shadow p
    rw [h.noShadow] at hp
    cases hs : s'.shadowPages.slot p with
    | none => rfl
    | some x =>
      rw [hs] at hp
      cases hp
  · obtain ⟨_, _, _, _, _, _, _, _, rfl⟩ := hk.same
    exact h.unmarked
  · have hl := h.lock (hmem.symm.trans hm)
    rcases hk.lock with he | he
    · rw [he]
      exact hl
    · rw [he, Pager.lockedAt, if_neg (by simp [← hmem, hm]), PagerLockState.raise]
      split
      · exact hl
      · decide

theorem Writing.keeps {n : Nat} {j : List (JournalEntry B)} (h : Writing s j) (hk : Keeps n s s')
    (hpos : s.isMemory = false → s'.journalPos = s.journalPos) : Writing s' j := by
  have hl : s'.lockState = s.lockState := by
    rcases hk.lock with hl | hl
    · exact hl
    · rw [hl, h.lockedAt]
  obtain ⟨_, _, _, _, _, _, _, _, rfl⟩ := hk.same
  exact h.congr rfl rfl rfl rfl rfl rfl hl hpos

/-- Where the descriptor is at the journal's end, it stays there. -/
theorem Keeps.pos_end {n : Nat} {j : List (JournalEntry B)} (hk : Keeps n s s') (h : Writing s j)
    (hm : s.isMemory = false) (hp : s.journalPos = some j.length) : s'.journalPos = some j.length := by
  rcases hk.pos with he | ⟨-, he⟩
  · rw [he, hp]
  · rw [he, Pager.journalLength, (h.holds hm).journal]
    rfl

theorem free_keeps (h : Sole s) (ht : s.inTransaction = true) (p n : Nat)
    (hp : (p < n → s.Shadowed p) ∧ (0 < n → s.Shadowed 0)) : Keeps n s (s.pagerFreePage p) := by
  unfold pagerFreePage
  split
  · exact Keeps.refl n s
  · have h1 := (modify_modified h ht p fun _ =>
      { (Page.zero : Page B) with body := PageBody.ofLink s.freelistHead }).keeps hp.1
    generalize (s.modify p fun _ => { (Page.zero : Page B) with body := PageBody.ofLink s.freelistHead }) = s₁ at h1
    have h12 := h1.trans (keeps_freelist s₁ n p)
    have ht2 : ({ s₁ with freelistHead := p } : Pager B).inTransaction = true := by
      obtain ⟨_, _, _, _, _, _, _, _, rfl⟩ := h1.same
      exact ht
    dsimp only
    generalize ({ s₁ with freelistHead := p } : Pager B) = s₂ at h12 ht2
    exact h12.trans ((modify_modified (h12.sole h) ht2 0 _).keeps fun h0 => (h12.shadowed 0).mpr (hp.2 h0))

/-! ## A journaled page write -/

/-- `pager_journal_page(p)` and a store through `get_page(p)`, in the writer's transaction: the committed
pages stay, the page shows its new bytes, and the journal is `j'`. -/
structure Written (s s' : Pager B) (p : Nat) (f : Page B → Page B) (j' : List (JournalEntry B)) : Prop where
  same : ∃ jn io l e n c sh d jp pj, s' = { s with
    disk := { s.disk with journal := jn }, io := io, lockState := l, lockError := e, numPages := n, pages := c
    shadowPages := sh, isDirty := d, journalPos := jp, pageIsJournaled := pj }
  writing : Writing s' j'
  lock : s'.lockState = s.lockState
  pos : s'.journalPos = s.journalPos.map fun pos => if s.savepoints = [] ∧ p ∈ s.pageIsJournaled then pos else pos + 1
  marks : s'.pageIsJournaled = if s.journalPos.isSome then insert p s.pageIsJournaled else s.pageIsJournaled
  base : ∀ q, s'.base q = s.base q
  view : ∀ q, s'.view q = if q = p then f (s.view p) else s.view q
  shadow : ∀ q, (s'.shadowPages.slot q).isSome = true ↔ q = p ∨ (s.shadowPages.slot q).isSome = true
  slot : ∀ q, (s'.pages.slot q).isSome = true ↔ q = p ∨ (s.pages.slot q).isSome = true
  bound : (∀ q x, s.pages.slot q = some x → q < s.numPages) → ∀ q x, s'.pages.slot q = some x → q < s'.numPages
  numPages_ge : s.numPages ≤ s'.numPages
  numPages_le : s'.numPages ≤ max s.numPages (p + 1)

/-- The journal after `pager_journal_page(p)`. -/
def journalAfter (s : Pager B) (p : Nat) (j : List (JournalEntry B)) : List (JournalEntry B) :=
  match s.journalPos with
  | none => j
  | some pos =>
    if s.isMemory = true ∨ s.savepoints = [] ∧ p ∈ s.pageIsJournaled then j
    else BlockFile.write (0, Page.zero) j pos (p, s.view p)

theorem Captured.recorded_writing {j : List (JournalEntry B)} {p : Nat} (h : Writing s j) (hc : Captured s s' p) :
    Writing (s'.recorded p (s.view p)) (s.journalAfter p j) := by
  have hw := hc.writing h
  have hfields : s'.journalPos = s.journalPos ∧ s'.savepoints = s.savepoints ∧
      s'.pageIsJournaled = s.pageIsJournaled ∧ s'.isMemory = s.isMemory := by
    obtain ⟨_, _, _, _, _, rfl⟩ := hc.same
    exact ⟨rfl, rfl, rfl, rfl⟩
  obtain ⟨hp, hsp, hpj, hm⟩ := hfields
  unfold journalAfter recorded
  rw [hp, hsp, hpj]
  split
  · exact hw
  · next pos hpos =>
    by_cases hmem : s.isMemory = true
    · rw [if_pos (Or.inl hmem)]
      obtain ⟨hno, rfl⟩ := hw.inMemory (hm.trans hmem)
      split
      · exact hw
      · refine hw.congr ?_ rfl rfl rfl rfl rfl rfl fun hn => ?_
        · simp [journalWrite, emit, Disk.apply, hno]
        · rw [hm, hmem] at hn
          cases hn
    · split
      · next hs =>
        rw [if_pos (Or.inr hs)]
        exact hw
      · next hs =>
        rw [if_neg (by simp [hmem, hs])]
        have hh := hw.holds (hm.trans (by simpa using hmem))
        refine ⟨⟨hw.sharedWrite, hw.reserved, hw.pending, hw.slot⟩, hw.inTx, hw.writer, fun _ => ?_, fun hn => ?_⟩
        · refine ⟨hh.self, hh.lock, ?_, rfl⟩
          change s'.disk.journal.map _ = _
          rw [hh.journal]
          rfl
        · rw [show s'.isMemory = true from hn] at hm
          exact absurd hm.symm hmem

theorem recorded_marks (s : Pager B) (p : Nat) (x : Page B) :
    (s.recorded p x).journalPos =
      s.journalPos.map (fun pos => if s.savepoints = [] ∧ p ∈ s.pageIsJournaled then pos else pos + 1) ∧
    (s.recorded p x).pageIsJournaled =
      if s.journalPos.isSome then insert p s.pageIsJournaled else s.pageIsJournaled := by
  unfold recorded
  split
  · next hp => simp [hp]
  · next pos hp =>
    split
    · next hs => simp [hp, Finset.insert_eq_of_mem hs.2]
    · simp [hp, journalWrite]

theorem recorded_keeps (s : Pager B) (p : Nat) (x : Page B) :
    (∀ q, (s.recorded p x).base q = s.base q) ∧ (∀ q, (s.recorded p x).view q = s.view q) ∧
      (s.recorded p x).pages = s.pages ∧ (s.recorded p x).shadowPages = s.shadowPages ∧
      (s.recorded p x).numPages = s.numPages := by
  obtain ⟨_, _, _, _, he⟩ := recorded_frame s p x
  rw [he]
  exact ⟨fun _ => rfl, fun _ => rfl, rfl, rfl, rfl⟩

theorem Captured.slot_isSome {p : Nat} (hc : Captured s s' p)
    (hb : (s.shadowPages.slot p).isSome = true → (s.pages.slot p).isSome = true) (q : Nat) :
    (s'.pages.slot q).isSome = true ↔ q = p ∨ (s.pages.slot q).isSome = true := by
  constructor
  · intro hq
    rcases hc.cache q with h | ⟨h, -⟩
    · rw [h] at hq
      exact Or.inr hq
    · exact Or.inl h
  · rintro (rfl | hq)
    · by_cases hs : (s.shadowPages.slot q).isSome = true
      · exact hc.cache.isSome (hb hs)
      · exact hc.cached (by simpa using hs)
    · exact hc.cache.isSome hq

theorem write_written {j : List (JournalEntry B)} (h : Writing s j)
    (hb : ∀ p, (s.shadowPages.slot p).isSome = true → (s.pages.slot p).isSome = true) (p : Nat)
    (f : Page B → Page B) : Written s ((s.pagerJournalPage p).modify p f) p f (s.journalAfter p j) := by
  obtain ⟨s₁, hc, he⟩ := journalPage_eq h p
  have hw := hc.recorded_writing h
  obtain ⟨hbase, hview, hpages, hshadow, hnum⟩ := recorded_keeps s₁ p (s.view p)
  obtain ⟨jn, io, jp, pj, hr⟩ := recorded_frame s₁ p (s.view p)
  obtain ⟨hpos, hmarks⟩ := recorded_marks s₁ p (s.view p)
  rw [he]
  generalize s₁.recorded p (s.view p) = s₂ at hw hbase hview hpages hshadow hnum hr hpos hmarks
  have hm := modify_modified hw.toSole hw.inTx p f
  generalize s₂.modify p f = s₃ at hm
  have hs : s₂.Shadowed p := by
    refine ⟨hw.writer, ?_⟩
    rw [hshadow, hc.shadow, if_pos rfl]
    rfl
  have hlock := hm.lock
  rw [hw.lockedAt] at hlock
  refine ⟨?_, ?_, ?_, ?_, ?_, fun q => ?_, fun q => ?_, fun q => ?_, fun q => ?_, fun hbd => ?_, ?_, ?_⟩
  · obtain ⟨_, _, _, _, _, rfl⟩ := hc.same
    subst hr
    obtain ⟨_, _, _, _, _, rfl⟩ := hm.same
    exact ⟨_, _, _, _, _, _, _, _, _, _, rfl⟩
  · obtain ⟨_, _, _, _, _, rfl⟩ := hm.same
    exact hw.congr rfl rfl rfl rfl rfl rfl hlock fun _ => rfl
  · rw [hlock, hr]
    obtain ⟨_, _, _, _, _, rfl⟩ := hc.same
    rfl
  · obtain ⟨_, _, _, _, _, rfl⟩ := hm.same
    obtain ⟨_, _, _, _, _, rfl⟩ := hc.same
    exact hpos
  · obtain ⟨_, _, _, _, _, rfl⟩ := hm.same
    obtain ⟨_, _, _, _, _, rfl⟩ := hc.same
    exact hmarks
  · rw [hm.base, if_neg fun hn => hn.2 hs, hbase, hc.base]
  · rw [hm.view hw.inTx, hview, hview, hc.view h, hc.view h]
  · rw [hm.shadow]
    by_cases hq : q = p
    · rw [if_pos ⟨hq, hs⟩]
      exact ⟨fun _ => Or.inl hq, fun _ => rfl⟩
    · rw [if_neg fun hn => hq hn.1, hshadow, hc.shadow, if_neg hq]
      exact ⟨Or.inr, fun h => h.resolve_left hq⟩
  · rw [hm.slot_isSome, hpages, hc.slot_isSome (hb p)]
    exact ⟨fun h => h.elim Or.inl id, Or.inr⟩
  · refine hm.bound ?_
    rw [hpages, hnum]
    exact hc.bound hbd
  · have := hm.numPages_ge
    have := hc.numPages_ge
    omega
  · have hle := hc.numPages_le
    rw [hm.numPages]
    split <;> omega

end Pager

end CustomDB
