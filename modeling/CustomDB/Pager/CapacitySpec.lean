import CustomDB.Pager.Capacity

/-!
# The arrays of the pager stay in bounds

The capacity is a power of two, the page table has it, and the flags that are there have 1024 more: every call that
returns keeps that. `get_page` returns on the pages below `2 ^ 31`, and on the others it never does.
-/

namespace CustomDB

open Lib

namespace PagerArrays

variable {α : Type} {s s' r : PagerArrays α} {a a' : Option (HeapArray Bool)} {n fuel : Nat} {p max bound : BitVec 32}
  {out : Outside α} {x : Option α} {b : Bool}

/-! ## Loops -/

/-- A loop whose turns return and keep an invariant. -/
theorem foldlM_some {β σ : Type} {P : σ → Prop} {turn : σ → β → Option σ}
    (hturn : ∀ s x, P s → ∃ s', turn s x = some s' ∧ P s') (l : List β) {s : σ} (hs : P s) :
    ∃ s', l.foldlM turn s = some s' ∧ P s' := by
  induction l generalizing s with
  | nil => exact ⟨s, rfl, hs⟩
  | cons x l ih =>
    obtain ⟨s₁, h₁, hs₁⟩ := hturn s x hs
    obtain ⟨s₂, h₂, hs₂⟩ := ih hs₁
    refine ⟨s₂, ?_, hs₂⟩
    rw [List.foldlM_cons, h₁]
    exact h₂

/-- A loop whose turns keep an invariant if they return. -/
theorem foldlM_keeps {β σ : Type} {P : σ → Prop} {turn : σ → β → Option σ}
    (hturn : ∀ s x s', P s → turn s x = some s' → P s') {l : List β} {s s' : σ} (hs : P s) (h : l.foldlM turn s = some s') :
    P s' := by
  induction l generalizing s with
  | nil =>
    obtain rfl := Option.some.inj h
    exact hs
  | cons x l ih =>
    rw [List.foldlM_cons] at h
    obtain ⟨s₁, h₁, h⟩ := Option.bind_eq_some_iff.mp h
    exact ih (hturn s x s₁ hs h₁) h

/-- What returns with a property has it if it returns. -/
theorem of_returns {σ : Type} {P : σ → Prop} {o : Option σ} {s' : σ} (h : ∃ t, o = some t ∧ P t) (hs : o = some s') :
    P s' := by
  obtain ⟨t, ht, hP⟩ := h
  obtain rfl := Option.some.inj (ht.symm.trans hs)
  exact hP

/-! ## The invariant -/

/-- The flags, where there are any, are `n`. -/
def Flags (n : Nat) (a : Option (HeapArray Bool)) : Prop := ∀ f, a = some f → f.Filled n

/-- The capacities. -/
structure Sized (s : PagerArrays α) : Prop where
  power : ∃ k, 5 ≤ k ∧ k < 32 ∧ s.maxPages.toNat = 2 ^ k
  pages : s.pages.Filled s.maxPages.toNat
  journaled : Flags (s.maxPages + 1024).toNat s.pageIsJournaled
  /-- Outside a transaction the resize leaves these flags alone. -/
  inTx : s.pageIsJournaled ≠ none → s.inTransaction = true
  dirty : Flags (s.maxPages + 1024).toNat s.isDirty
  shadowPages : s.shadowPages.Filled s.shadowCapacity.toNat
  isShadowed : (s.isShadowed.getD (.malloc 0)).Filled s.shadowCapacity.toNat

theorem flags_none (n : Nat) : Flags n none := fun _ h => by cases h

theorem flags_calloc (n : Nat) (b : Bool) (ha : Flags n a) : Flags n (some (a.getD (.calloc n b))) := by
  intro f hf
  obtain rfl := Option.some.inj hf
  cases a with
  | none => exact HeapArray.filled_calloc n b
  | some g => exact ha g rfl

theorem Flags.mark (h : Flags n a) (hm : markFlag a bound p b = some a') : Flags n a' := by
  unfold markFlag at hm
  split at hm
  next =>
    obtain rfl := Option.some.inj hm
    exact flags_none n
  next f =>
    split at hm
    · obtain ⟨g, hg, rfl⟩ := Option.map_eq_some_iff.mp hm
      intro g' hg'
      obtain rfl := Option.some.inj hg'
      exact (h f rfl).set hg
    · obtain rfl := Option.some.inj hm
      exact h

theorem flags_of_getD (h : (a.getD (.malloc 0)).Filled n) : Flags n a := by
  rintro f rfl
  exact h

theorem flagAt_some (h : Flags bound.toNat a) (p : BitVec 32) : ∃ b, flagAt a bound p = some b := by
  unfold flagAt
  split
  · exact ⟨false, rfl⟩
  next f =>
    by_cases hp : p < bound
    · obtain ⟨b, hb⟩ := (h f rfl).written p.toNat hp
      exact ⟨b, by rw [if_pos hp, hb]⟩
    · exact ⟨false, if_neg hp⟩

theorem Sized.cached_some (h : s.Sized) (p : BitVec 32) : ∃ x, s.cached p = some x := by
  unfold cached
  by_cases hp : p < s.maxPages
  · rw [if_pos hp]
    exact h.pages.written p.toNat hp
  · exact ⟨none, if_neg hp⟩

/-! ## Freed pages -/

/-- The state with other pages. -/
def SameButPages (s s' : PagerArrays α) : Prop := s' = { s with pages := s'.pages }

theorem Sized.replaceCached (h : s.Sized) (p : BitVec 32) (x : Option α) :
    ∃ s', s.replaceCached p x = some s' ∧ s'.Sized := by
  obtain ⟨old, hold⟩ := h.cached_some p
  unfold PagerArrays.replaceCached
  rw [hold, Option.bind_eq_bind, Option.bind_some]
  by_cases hsome : old.isSome
  · have hlt : p < s.maxPages := by
      by_contra hn
      unfold cached at hold
      rw [if_neg hn] at hold
      obtain rfl := Option.some.inj hold
      cases hsome
    obtain ⟨pages, hpages, hfilled, -⟩ := h.pages.set_some hlt x
    rw [if_pos hsome, hpages]
    exact ⟨_, rfl, { h with pages := hfilled }⟩
  · rw [if_neg hsome]
    exact ⟨s, rfl, h⟩

theorem Sized.dropPages (h : s.Sized) (start stop : BitVec 32) : ∃ s', s.dropPages start stop = some s' ∧ s'.Sized :=
  foldlM_some (fun _ i hs => hs.replaceCached (BitVec.ofNat 32 i) none) _ h

theorem Sized.refreshIfModified (h : s.Sized) (out : Outside α) : ∃ s', s.refreshIfModified out = some s' ∧ s'.Sized := by
  unfold PagerArrays.refreshIfModified
  split
  · exact ⟨s, rfl, h⟩
  · dsimp only
    have h' : Sized { s with useWal := s.useWal || out.walFile } := { h with }
    split
    · obtain ⟨s', hs', hsized⟩ := h'.dropPages 0 s.maxPages
      rw [hs']
      exact ⟨_, rfl, { hsized with }⟩
    · exact ⟨_, rfl, h'⟩

/-! ## The resize -/

theorem SameFlags.refl (n : Nat) (a : Option (HeapArray Bool)) : SameFlags n a a := fun f hf => ⟨f, hf, fun _ _ => rfl⟩

theorem SameFlags.of_le {m : Nat} (h : SameFlags n a a') (hle : m ≤ n) : SameFlags m a a' := by
  intro f hf
  obtain ⟨f', hf', hsame⟩ := h f hf
  exact ⟨f', hf', fun i hi => hsame i (by omega)⟩

theorem regrow_some {old : BitVec 32} (h : Flags (old + 1024).toNat a) (hle : (old + 1024).toNat ≤ (max + 1024).toNat) :
    ∃ a', regrow old max a = some a' ∧ Flags (max + 1024).toNat a' ∧ SameFlags (old + 1024).toNat a a' ∧
      (a = none → a' = none) := by
  cases a with
  | none => exact ⟨none, rfl, flags_none _, SameFlags.refl _ _, fun _ => rfl⟩
  | some f =>
    obtain ⟨g, hg, hfilled, hsame⟩ := (h f rfl).grown hle false
    refine ⟨some g, ?_, fun g' hg' => ?_, fun f' hf' => ?_, fun hn => by cases hn⟩
    · unfold regrow
      dsimp only
      rw [hg]
      rfl
    · obtain rfl := Option.some.inj hg'
      exact hfilled
    · obtain rfl := Option.some.inj hf'
      exact ⟨g, rfl, hsame⟩

/-- Up to `2 ^ 31` the 1024 entries more do not wrap. -/
theorem toNat_more {k : Nat} (hk : k < 32) (hm : max.toNat = 2 ^ k) : (max + 1024).toNat = 2 ^ k + 1024 := by
  have hpow := Nat.pow_le_pow_right (show 0 < 2 by decide) (Nat.le_of_lt_succ hk)
  have hmore : (1024 : BitVec 32).toNat = 1024 := rfl
  rw [BitVec.toNat_add, hm, hmore]
  exact Nat.mod_eq_of_lt (by omega)

/-- What the resize keeps. -/
structure Grown (s s' : PagerArrays α) : Prop where
  pages : ∀ i, i < s.maxPages.toNat → s'.pages.get i = s.pages.get i
  journaled : SameFlags (s.maxPages + 1024).toNat s.pageIsJournaled s'.pageIsJournaled
  dirty : SameFlags (s.maxPages + 1024).toNat s.isDirty s'.isDirty

theorem Grown.refl (s : PagerArrays α) : Grown s s := ⟨fun _ _ => rfl, .refl _ _, .refl _ _⟩

theorem Sized.resize_of_grow (h : s.Sized) (hp : ¬ p < s.maxPages) (hg : Doubling.grow p fuel s.maxPages = some max) :
    ∃ s', s.resize fuel p = some s' ∧ s'.Sized ∧ p < s'.maxPages ∧ Grown s s' := by
  obtain ⟨k, hk, hk', hpow⟩ := h.power
  obtain ⟨hlt, j, hj, hj', hmax⟩ := Doubling.grow_spec hpow hk' hg
  have hle : s.maxPages.toNat ≤ max.toNat := by
    rw [hpow, hmax]
    exact Nat.pow_le_pow_right (by decide) hj
  have hmore : (s.maxPages + 1024).toNat ≤ (max + 1024).toNat := by
    rw [toNat_more hk' hpow, toNat_more hj' hmax, ← hpow, ← hmax]
    omega
  obtain ⟨pages, hpages, hfilled, hold⟩ := h.pages.grown hle none
  have hin : Flags (s.maxPages + 1024).toNat (if s.inTransaction then s.pageIsJournaled else none) := by
    split
    · exact h.journaled
    · exact flags_none _
  obtain ⟨journaled, hj₁, hj₂, hj₃, hj₄⟩ := regrow_some hin hmore
  obtain ⟨dirty, hd₁, hd₂, hd₃, -⟩ := regrow_some h.dirty hmore
  have heq : s.resize fuel p = some { s with
      maxPages := max
      pages := pages
      pageIsJournaled := if s.inTransaction then journaled else s.pageIsJournaled
      isDirty := dirty } := by
    unfold resize
    rw [if_neg hp, hg, Option.bind_eq_bind, Option.bind_some, hpages, Option.bind_eq_bind, Option.bind_some, hj₁,
      Option.bind_eq_bind, Option.bind_some, hd₁]
    rfl
  refine ⟨_, heq, ⟨⟨j, by omega, hj', hmax⟩, hfilled, ?_, ?_, hd₂, h.shadowPages, h.isShadowed⟩, hlt, hold, ?_, hd₃⟩
  · by_cases htx : s.inTransaction
    · show Flags _ (if s.inTransaction then journaled else s.pageIsJournaled)
      rw [if_pos htx]
      exact hj₂
    · have hnone : s.pageIsJournaled = none := by
        by_contra hn
        exact htx (h.inTx hn)
      show Flags _ (if s.inTransaction then journaled else s.pageIsJournaled)
      rw [if_neg htx, hnone]
      exact flags_none _
  · intro hn
    by_contra htx
    have hold' : s.pageIsJournaled ≠ none := by
      have : (if s.inTransaction then journaled else s.pageIsJournaled) ≠ none := hn
      rwa [if_neg htx] at this
    exact htx (h.inTx hold')
  · show SameFlags _ s.pageIsJournaled (if s.inTransaction then journaled else s.pageIsJournaled)
    by_cases htx : s.inTransaction
    · rw [if_pos htx] at hj₃ ⊢
      exact hj₃
    · rw [if_neg htx]
      exact .refl _ _

theorem Sized.resize (h : s.Sized) (hs : s.resize fuel p = some s') : s'.Sized ∧ p < s'.maxPages ∧ Grown s s' := by
  by_cases hp : p < s.maxPages
  · unfold PagerArrays.resize at hs
    rw [if_pos hp] at hs
    obtain rfl := Option.some.inj hs
    exact ⟨h, hp, .refl s⟩
  · cases hg : Doubling.grow p fuel s.maxPages with
    | none =>
      unfold PagerArrays.resize at hs
      rw [if_neg hp, hg] at hs
      cases hs
    | some max =>
      exact of_returns (P := fun u => u.Sized ∧ p < u.maxPages ∧ Grown s u) (h.resize_of_grow hp hg) hs

/-- The loop ends below `2 ^ 31`, and only there. -/
theorem Sized.resize_iff (h : s.Sized) (p : BitVec 32) :
    (∃ fuel s', s.resize fuel p = some s') ↔ p.toNat < 2 ^ 31 := by
  obtain ⟨k, hk, hk', hpow⟩ := h.power
  constructor
  · rintro ⟨fuel, s', hs⟩
    obtain ⟨hsized, hlt, -⟩ := h.resize hs
    obtain ⟨j, -, hj, hmax⟩ := hsized.power
    have hle := Nat.pow_le_pow_right (show 0 < 2 by decide) (Nat.le_of_lt_succ hj)
    rw [BitVec.lt_def, hmax] at hlt
    omega
  · intro hp
    by_cases hlt : p < s.maxPages
    · exact ⟨0, s, if_pos hlt⟩
    · obtain ⟨max, hmax⟩ := Doubling.grow_ends hpow hk' hp
      obtain ⟨s', hs', -⟩ := h.resize_of_grow hlt hmax
      exact ⟨_, s', hs'⟩

/-! ## A page -/

theorem Sized.bringIn (h : s.Sized) (out : Outside α) (hp : p < s.maxPages) :
    ∃ s', s.bringIn out p = some s' ∧ s'.Sized ∧ s'.maxPages = s.maxPages ∧
      s'.pageIsJournaled = s.pageIsJournaled ∧ s'.isDirty = s.isDirty ∧
      (∀ i, i ≠ p.toNat → s'.pages.get i = s.pages.get i) ∧
      ∀ y, s.pages.get p.toNat = some (some y) → s'.pages.get p.toNat = some (some y) := by
  obtain ⟨x, hx⟩ := h.pages.written p.toNat hp
  unfold PagerArrays.bringIn
  rw [hx, Option.bind_eq_bind, Option.bind_some]
  cases x with
  | some y =>
    refine ⟨s, rfl, h, rfl, rfl, rfl, fun _ _ => rfl, fun y hy => ?_⟩
    rwa [hx]
  | none =>
    obtain ⟨pages, hpages, hfilled, hget⟩ := h.pages.set_some hp (some (out.load p))
    rw [if_neg (show ¬ (none : Option α).isSome = true from Bool.false_ne_true), hpages]
    refine ⟨_, rfl, { h with pages := hfilled }, rfl, rfl, rfl, fun i hi => ?_, fun y hy => by cases hy⟩
    show pages.get i = _
    rw [hget, if_neg hi]

theorem Sized.pointer (h : s.Sized) (hp : p < s.maxPages) : ∃ x, s.pointer p = some x := by
  have hpage := h.pages.written p.toNat hp
  unfold PagerArrays.pointer
  split
  · obtain ⟨b, hb⟩ := flagAt_some (flags_of_getD h.isShadowed) p
    rw [hb, Option.bind_some]
    cases b with
    | false => exact hpage
    | true =>
      have hlt : p < s.shadowCapacity := by
        by_contra hn
        unfold flagAt at hb
        split at hb
        · cases hb
        · rw [if_neg hn] at hb
          cases hb
      exact h.shadowPages.written p.toNat hlt
  · exact hpage

/-- `get_page`, if it returns. -/
theorem Sized.getPage (h : s.Sized) (hs : s.getPage out fuel p = some (s', x)) :
    s'.Sized ∧ p < s'.maxPages ∧ ∃ r, s.refreshIfModified out = some r ∧ r.Preserves s' p := by
  unfold PagerArrays.getPage at hs
  obtain ⟨r, hr, hs⟩ := Option.bind_eq_some_iff.mp hs
  obtain ⟨u, hu, hs⟩ := Option.bind_eq_some_iff.mp hs
  obtain ⟨v, hv, hs⟩ := Option.bind_eq_some_iff.mp hs
  obtain ⟨y, hy, hs⟩ := Option.bind_eq_some_iff.mp hs
  obtain ⟨rfl, rfl⟩ := Prod.mk.inj (Option.some.inj hs)
  have hrs : r.Sized := of_returns (h.refreshIfModified out) hr
  obtain ⟨hus, hup, hgrown⟩ := hrs.resize hu
  obtain ⟨hvs, hmax, hj, hd, hother, hpage⟩ := of_returns (hus.bringIn out hup) hv
  refine ⟨hvs, by rw [hmax]; exact hup, _, hr, fun i hi hne => ?_, fun y hy => ?_, ?_, ?_⟩
  · rw [hother i hne, hgrown.pages i hi]
  · have hlt : p.toNat < r.maxPages.toNat := by
      have := HeapArray.get_lt hy
      rwa [hrs.pages.cap] at this
    exact hpage y (by rw [hgrown.pages _ hlt]; exact hy)
  · rw [hj]
    exact hgrown.journaled
  · rw [hd]
    exact hgrown.dirty

theorem Sized.inBounds (h : s.Sized) : s.InBounds :=
  ⟨Nat.le_of_eq h.pages.cap.symm, fun f hf => Nat.le_of_eq (h.journaled f hf).cap.symm,
    fun f hf => Nat.le_of_eq (h.dirty f hf).cap.symm⟩

theorem Sized.getsPage_iff (h : s.Sized) (out : Outside α) (p : BitVec 32) : s.GetsPage out p ↔ p.toNat < 2 ^ 31 := by
  obtain ⟨r, hr, hrs⟩ := h.refreshIfModified out
  constructor
  · rintro ⟨fuel, -, s', x, -, hs, -⟩
    unfold PagerArrays.getPage at hs
    rw [hr, Option.bind_eq_bind, Option.bind_some] at hs
    obtain ⟨u, hu, -⟩ := Option.bind_eq_some_iff.mp hs
    exact (hrs.resize_iff p).mp ⟨fuel, u, hu⟩
  · intro hp
    obtain ⟨fuel, u, hu⟩ := (hrs.resize_iff p).mpr hp
    obtain ⟨hus, hup, -⟩ := hrs.resize hu
    obtain ⟨v, hv, hvs, hmax, -⟩ := hus.bringIn out hup
    obtain ⟨x, hx⟩ := hvs.pointer (p := p) (by rw [hmax]; exact hup)
    have hs : s.getPage out fuel p = some (v, x) := by
      unfold PagerArrays.getPage
      rw [hr, Option.bind_eq_bind, Option.bind_some, hu, Option.bind_eq_bind, Option.bind_some, hv, Option.bind_some, hx]
      rfl
    obtain ⟨hs', hlt, r', hr', hkeep⟩ := h.getPage hs
    exact ⟨fuel, r', v, x, hr', hs, hlt, hs'.inBounds, hkeep⟩

/-! ## The other calls -/

theorem Sized.freeFlags (h : s.Sized) : s.freeFlags.Sized :=
  { h with journaled := flags_none _, inTx := fun hn => absurd rfl hn, dirty := flags_none _ }

/-- Without journal flags the transaction can end. -/
theorem Sized.ended (h : s.Sized) (hn : s.pageIsJournaled = none) (k : Nat) :
    Sized { s with inTransaction := false, isWriter := false, journalOpen := false, numSavepoints := k } :=
  { h with inTx := fun hn' => absurd hn hn' }

theorem Sized.pagerFlush (h : s.Sized) (hs : s.pagerFlush p = some s') : s'.Sized := by
  unfold PagerArrays.pagerFlush at hs
  split at hs
  · obtain rfl := Option.some.inj hs
    exact h
  · obtain ⟨buf, -, hs⟩ := Option.bind_eq_some_iff.mp hs
    split at hs
    · obtain rfl := Option.some.inj hs
      exact h
    · obtain ⟨d, hd, rfl⟩ := Option.map_eq_some_iff.mp hs
      exact { h with dirty := h.dirty.mark hd }

theorem Sized.flushCached (h : s.Sized) (hs : s.flushCached p = some s') : s'.Sized := by
  unfold PagerArrays.flushCached at hs
  obtain ⟨x, -, hs⟩ := Option.bind_eq_some_iff.mp hs
  split at hs
  · exact h.pagerFlush hs
  · obtain rfl := Option.some.inj hs
    exact h

theorem Sized.beginTransaction (h : s.Sized) (hs : s.beginTransaction out = some s') : s'.Sized := by
  unfold PagerArrays.beginTransaction at hs
  split at hs
  · obtain rfl := Option.some.inj hs
    exact h
  · obtain ⟨t, ht, rfl⟩ := Option.map_eq_some_iff.mp hs
    have hts : t.Sized := of_returns (h.refreshIfModified out) ht
    exact { hts with inTx := fun _ => rfl }

theorem Sized.ensureWriteLock (h : s.Sized) (htx : s.inTransaction = true) (hs : s.ensureWriteLock out = some s') :
    s'.Sized ∧ s'.inTransaction = true := by
  unfold PagerArrays.ensureWriteLock at hs
  obtain ⟨t, ht, rfl⟩ := Option.map_eq_some_iff.mp hs
  have hflush : ∀ (u : PagerArrays α) (i : Nat) (u' : PagerArrays α), u.Sized ∧ u.inTransaction = true →
      u.flushCached (BitVec.ofNat 32 i) = some u' → u'.Sized ∧ u'.inTransaction = true := by
    rintro u i u' ⟨hu, hutx⟩ hu'
    refine ⟨hu.flushCached hu', ?_⟩
    unfold PagerArrays.flushCached PagerArrays.pagerFlush at hu'
    obtain ⟨y, -, hu'⟩ := Option.bind_eq_some_iff.mp hu'
    split at hu'
    · split at hu'
      · obtain rfl := Option.some.inj hu'
        exact hutx
      · obtain ⟨buf, -, hu'⟩ := Option.bind_eq_some_iff.mp hu'
        split at hu'
        · obtain rfl := Option.some.inj hu'
          exact hutx
        · obtain ⟨d, -, rfl⟩ := Option.map_eq_some_iff.mp hu'
          exact hutx
    · obtain rfl := Option.some.inj hu'
      exact hutx
  have htsized : t.Sized ∧ t.inTransaction = true := by
    unfold reserve at ht
    split at ht
    · obtain rfl := Option.some.inj ht
      exact ⟨h, htx⟩
    · obtain ⟨u, hu, rfl⟩ := Option.map_eq_some_iff.mp ht
      obtain ⟨hus, hutx⟩ := foldlM_keeps hflush ⟨h, htx⟩ hu
      exact ⟨{ hus with }, hutx⟩
  exact ⟨{ htsized.1 with journaled := flags_calloc _ _ htsized.1.journaled, inTx := fun _ => htsized.2 }, htsized.2⟩

theorem Sized.growShadow (h : s.Sized) (hs : s.growShadow p = some s') : s'.Sized := by
  unfold PagerArrays.growShadow at hs
  split at hs
  · obtain rfl := Option.some.inj hs
    exact h
  · obtain ⟨shadowPages, hpages, hs⟩ := Option.bind_eq_some_iff.mp hs
    obtain ⟨isShadowed, hflags, hs⟩ := Option.bind_eq_some_iff.mp hs
    obtain rfl := Option.some.inj hs
    exact { h with shadowPages := h.shadowPages.resized hpages, isShadowed := h.isShadowed.resized hflags }

theorem Sized.putShadow (h : s.Sized) (hs : s.putShadow p x b = some s') : s'.Sized := by
  unfold PagerArrays.putShadow at hs
  obtain ⟨shadowPages, hpages, hs⟩ := Option.bind_eq_some_iff.mp hs
  obtain ⟨flags, hflags, hs⟩ := Option.bind_eq_some_iff.mp hs
  obtain ⟨isShadowed, hset, hs⟩ := Option.bind_eq_some_iff.mp hs
  obtain rfl := Option.some.inj hs
  have hfilled := h.isShadowed
  rw [hflags] at hfilled
  exact { h with shadowPages := h.shadowPages.set hpages, isShadowed := HeapArray.Filled.set hfilled hset }

theorem Sized.ensureCached (h : s.Sized) (hs : s.ensureCached out fuel p = some s') : s'.Sized := by
  unfold PagerArrays.ensureCached at hs
  obtain ⟨base, -, hs⟩ := Option.bind_eq_some_iff.mp hs
  split at hs
  · obtain rfl := Option.some.inj hs
    exact h
  · obtain ⟨t, ht, rfl⟩ := Option.map_eq_some_iff.mp hs
    exact (h.getPage ht).1

theorem Sized.pagerShadowPageWrite (h : s.Sized) (hs : s.pagerShadowPageWrite out fuel p = some s') : s'.Sized := by
  unfold PagerArrays.pagerShadowPageWrite at hs
  split at hs
  · obtain rfl := Option.some.inj hs
    exact h
  next htx =>
    obtain ⟨t, ht, hs⟩ := Option.bind_eq_some_iff.mp hs
    obtain ⟨hts, -⟩ := h.ensureWriteLock (by simpa using htx) ht
    obtain ⟨dirty, hdirty, hs⟩ := Option.bind_eq_some_iff.mp hs
    obtain ⟨u, hu, hs⟩ := Option.bind_eq_some_iff.mp hs
    have hd : Sized { t with isDirty := dirty } := { hts with dirty := (flags_calloc _ _ hts.dirty).mark hdirty }
    have hus := hd.growShadow hu
    obtain ⟨flags, -, hs⟩ := Option.bind_eq_some_iff.mp hs
    obtain ⟨shadowed, -, hs⟩ := Option.bind_eq_some_iff.mp hs
    split at hs
    · obtain rfl := Option.some.inj hs
      exact hus
    · obtain ⟨v, hv, hs⟩ := Option.bind_eq_some_iff.mp hs
      obtain ⟨base, -, hs⟩ := Option.bind_eq_some_iff.mp hs
      exact (hus.ensureCached hv).putShadow hs

theorem Sized.pagerJournalPage (h : s.Sized) (hs : s.pagerJournalPage out fuel p = some s') : s'.Sized := by
  unfold PagerArrays.pagerJournalPage at hs
  obtain ⟨t, ht, hs⟩ := Option.bind_eq_some_iff.mp hs
  have hts := h.pagerShadowPageWrite ht
  split at hs
  · obtain rfl := Option.some.inj hs
    exact hts
  · obtain ⟨saved, -, hs⟩ := Option.bind_eq_some_iff.mp hs
    split at hs
    · obtain rfl := Option.some.inj hs
      exact hts
    · obtain ⟨buf, -, hs⟩ := Option.bind_eq_some_iff.mp hs
      obtain ⟨journaled, hj, hs⟩ := Option.bind_eq_some_iff.mp hs
      obtain rfl := Option.some.inj hs
      refine { hts with journaled := hts.journaled.mark hj, inTx := fun hn => hts.inTx fun hnone => hn ?_ }
      rw [hnone] at hj
      exact (Option.some.inj hj).symm

theorem Sized.flushWritten (h : s.Sized) (hs : s.flushWritten p = some s') : s'.Sized := by
  unfold PagerArrays.flushWritten at hs
  obtain ⟨y, -, hs⟩ := Option.bind_eq_some_iff.mp hs
  split at hs
  · obtain rfl := Option.some.inj hs
    exact h
  · obtain ⟨dirty, -, hs⟩ := Option.bind_eq_some_iff.mp hs
    obtain ⟨shadowed, -, hs⟩ := Option.bind_eq_some_iff.mp hs
    split at hs
    · exact h.pagerFlush hs
    · obtain rfl := Option.some.inj hs
      exact h

theorem Sized.swapIn (h : s.Sized) (hs : s.swapIn p = some s') : s'.Sized := by
  unfold PagerArrays.swapIn at hs
  obtain ⟨shadowed, -, hs⟩ := Option.bind_eq_some_iff.mp hs
  split at hs
  · obtain ⟨old, -, hs⟩ := Option.bind_eq_some_iff.mp hs
    obtain ⟨y, -, hs⟩ := Option.bind_eq_some_iff.mp hs
    obtain ⟨pages, hpages, hs⟩ := Option.bind_eq_some_iff.mp hs
    have hp : Sized { s with pages := pages } := { h with pages := h.pages.set hpages }
    exact hp.putShadow hs
  · obtain rfl := Option.some.inj hs
    exact h

theorem Sized.pagerCommit (h : s.Sized) (hs : s.pagerCommit out fuel = some s') : s'.Sized := by
  unfold PagerArrays.pagerCommit at hs
  split at hs
  · obtain rfl := Option.some.inj hs
    exact h
  · obtain ⟨writes, -, hs⟩ := Option.bind_eq_some_iff.mp hs
    split at hs
    · obtain ⟨⟨t, y⟩, ht, hs⟩ := Option.bind_eq_some_iff.mp hs
      obtain ⟨dirty, hd, hs⟩ := Option.bind_eq_some_iff.mp hs
      obtain ⟨u, hu, hs⟩ := Option.bind_eq_some_iff.mp hs
      obtain ⟨v, hv, hs⟩ := Option.bind_eq_some_iff.mp hs
      obtain rfl := Option.some.inj hs
      have hts := (h.getPage ht).1
      have hds : Sized { t with isDirty := dirty } := { hts with dirty := hts.dirty.mark hd }
      have hus : u.Sized := foldlM_keeps (fun _ _ _ h hs => h.flushWritten hs) hds hu
      have hvs : v.Sized := foldlM_keeps (fun _ _ _ h hs => h.swapIn hs) hus hv
      exact hvs.freeFlags.ended rfl _
    · obtain rfl := Option.some.inj hs
      exact h.freeFlags.ended rfl _

theorem Sized.dropShadow (h : s.Sized) (hs : s.dropShadow p = some s') : s'.Sized := by
  unfold PagerArrays.dropShadow at hs
  obtain ⟨shadowed, -, hs⟩ := Option.bind_eq_some_iff.mp hs
  split at hs
  · exact h.putShadow hs
  · obtain rfl := Option.some.inj hs
    exact h

/-- No turn of a loop over the cached pages touches the flags. -/
theorem replaceCached_journaled (hs : s.replaceCached p x = some s') : s'.pageIsJournaled = s.pageIsJournaled := by
  unfold PagerArrays.replaceCached at hs
  obtain ⟨old, -, hs⟩ := Option.bind_eq_some_iff.mp hs
  split at hs
  · obtain ⟨pages, -, hs⟩ := Option.bind_eq_some_iff.mp hs
    obtain rfl := Option.some.inj hs
    rfl
  · obtain rfl := Option.some.inj hs
    rfl

theorem Sized.dropNewPages (h : s.Sized) (hn : s.pageIsJournaled = none) (hs : s.dropNewPages = some s') :
    s'.Sized ∧ s'.pageIsJournaled = none := by
  unfold PagerArrays.dropNewPages at hs
  split at hs
  · obtain ⟨t, ht, rfl⟩ := Option.map_eq_some_iff.mp hs
    have hkeep : t.Sized ∧ t.pageIsJournaled = none := by
      refine foldlM_keeps (P := fun u : PagerArrays α => u.Sized ∧ u.pageIsJournaled = none) ?_ ⟨h, hn⟩ ht
      rintro u i u' ⟨hu, hun⟩ hu'
      exact ⟨of_returns (hu.replaceCached _ _) hu', (replaceCached_journaled hu').trans hun⟩
    exact ⟨{ hkeep.1 with }, hkeep.2⟩
  · obtain rfl := Option.some.inj hs
    exact ⟨h, hn⟩

theorem Sized.pagerRollback {journal : List (BitVec 32 × α)} (h : s.Sized) (hs : s.pagerRollback journal = some s') :
    s'.Sized := by
  unfold PagerArrays.pagerRollback at hs
  split at hs
  · obtain rfl := Option.some.inj hs
    exact h
  · obtain ⟨t, ht, hs⟩ := Option.bind_eq_some_iff.mp hs
    obtain ⟨u, hu, hs⟩ := Option.bind_eq_some_iff.mp hs
    have hts : t.Sized := foldlM_keeps (fun _ _ _ h hs => h.dropShadow hs) h ht
    have hus : u.Sized := foldlM_keeps (fun _ _ _ h hs => of_returns (h.replaceCached _ _) hs) hts hu
    obtain ⟨v, hv, hs⟩ := Option.bind_eq_some_iff.mp hs
    obtain rfl := Option.some.inj hs
    obtain ⟨hvs, hnone⟩ := hus.freeFlags.dropNewPages rfl hv
    exact hvs.ended hnone 0

theorem Sized.replaceShadow {free : Bool} (h : s.Sized) (hs : s.replaceShadow p x free = some s') : s'.Sized := by
  unfold PagerArrays.replaceShadow at hs
  split at hs
  · obtain ⟨old, -, hs⟩ := Option.bind_eq_some_iff.mp hs
    split at hs
    · obtain rfl := Option.some.inj hs
      exact h
    · obtain ⟨shadowPages, hpages, hs⟩ := Option.bind_eq_some_iff.mp hs
      have hp : Sized { s with shadowPages := shadowPages } := { h with shadowPages := h.shadowPages.set hpages }
      split at hs
      · obtain rfl := Option.some.inj hs
        exact hp
      next flags hflags =>
        split at hs
        · obtain ⟨isShadowed, hset, rfl⟩ := Option.map_eq_some_iff.mp hs
          have hfilled := h.isShadowed
          rw [hflags] at hfilled
          exact { hp with isShadowed := HeapArray.Filled.set hfilled hset }
        · obtain rfl := Option.some.inj hs
          exact hp
  · obtain rfl := Option.some.inj hs
    exact h

/-- A page is replaced in both tables. -/
theorem Sized.replaceBoth {q : BitVec 32} {y z : Option α} {free : Bool} (h : s.Sized)
    (hs : ((s.replaceCached p y).bind fun s => s.replaceShadow q z free) = some s') : s'.Sized := by
  obtain ⟨t, ht, hs⟩ := Option.bind_eq_some_iff.mp hs
  have hts : t.Sized := of_returns (h.replaceCached p y) ht
  exact hts.replaceShadow hs

theorem Sized.pagerRollbackToSavepoint {journal : List (BitVec 32 × α)} {idx : Nat} {target : BitVec 32} (h : s.Sized)
    (hs : s.pagerRollbackToSavepoint journal idx target = some s') : s'.Sized := by
  unfold PagerArrays.pagerRollbackToSavepoint at hs
  split at hs
  · obtain rfl := Option.some.inj hs
    exact h
  · obtain ⟨t, ht, hs⟩ := Option.bind_eq_some_iff.mp hs
    obtain ⟨u, hu, hs⟩ := Option.bind_eq_some_iff.mp hs
    obtain rfl := Option.some.inj hs
    have hts : t.Sized := foldlM_keeps (fun _ _ _ h hs => h.replaceBoth hs) h ht
    have hus : u.Sized := foldlM_keeps (fun _ _ _ h hs => h.replaceBoth hs) hts hu
    exact { hus with }

theorem Sized.pagerSavepoint (h : s.Sized) (hs : s.pagerSavepoint out = some s') : s'.Sized := by
  unfold PagerArrays.pagerSavepoint at hs
  obtain ⟨t, ht, rfl⟩ := Option.map_eq_some_iff.mp hs
  have hts := h.beginTransaction ht
  split
  · exact hts
  · exact { hts with }

theorem Sized.pagerCheckpoint {frames : List (BitVec 32 × α)} (h : s.Sized) (hs : s.pagerCheckpoint frames = some s') :
    s'.Sized := by
  unfold PagerArrays.pagerCheckpoint at hs
  split at hs
  · obtain rfl := Option.some.inj hs
    exact h
  · obtain ⟨t, ht, hs⟩ := Option.bind_eq_some_iff.mp hs
    have hts : t.Sized := foldlM_keeps (fun u e u' hu hu' => by
      have hn : Sized { u with numPages := if u.numPages ≤ e.1 then e.1 + 1 else u.numPages } := { hu with }
      exact of_returns (hn.replaceCached _ _) hu') h ht
    exact of_returns (hts.dropPages _ _) hs

theorem Sized.pagerSetWalMode {enableWal : Bool} {frames : List (BitVec 32 × α)} (h : s.Sized)
    (hs : s.pagerSetWalMode enableWal frames = some s') : s'.Sized := by
  unfold PagerArrays.pagerSetWalMode at hs
  split at hs
  · obtain rfl := Option.some.inj hs
    exact { h with }
  · obtain ⟨t, ht, rfl⟩ := Option.map_eq_some_iff.mp hs
    exact { h.pagerCheckpoint ht with }

/-! ## Every state of a pager -/

theorem Sized.call {c : PagerCall α} (h : s.Sized) (hs : s.call fuel c = some s') : s'.Sized := by
  cases c with
  | refresh out => exact of_returns (h.refreshIfModified out) hs
  | getPage out p =>
    obtain ⟨t, ht, rfl⟩ := Option.map_eq_some_iff.mp hs
    exact (h.getPage ht).1
  | flush p => exact h.pagerFlush hs
  | beginTransaction out => exact h.beginTransaction hs
  | ensureWriteLock out =>
    unfold PagerArrays.call at hs
    dsimp only at hs
    split at hs
    next htx => exact (h.ensureWriteLock htx hs).1
    · cases hs
  | shadowPageWrite out p => exact h.pagerShadowPageWrite hs
  | journalPage out p => exact h.pagerJournalPage hs
  | commit out => exact h.pagerCommit hs
  | rollback journal => exact h.pagerRollback hs
  | savepoint out => exact h.pagerSavepoint hs
  | rollbackToSavepoint journal idx target => exact h.pagerRollbackToSavepoint hs
  | releaseSavepoint idx =>
    obtain rfl := Option.some.inj hs
    unfold pagerReleaseSavepoint
    split
    · exact { h with }
    · exact h
  | checkpoint frames => exact h.pagerCheckpoint hs
  | setWalMode enableWal frames => exact h.pagerSetWalMode hs

theorem opened_sized {isMemory useWal : Bool} {numPages : BitVec 32} (hs : opened isMemory useWal numPages = some s) :
    s.Sized := by
  unfold opened at hs
  obtain ⟨pages, hpages, rfl⟩ := Option.map_eq_some_iff.mp hs
  have hempty : (HeapArray.malloc 0 : HeapArray (Option α)).Filled 0 := ⟨rfl, fun _ hi => absurd hi (Nat.not_lt_zero _)⟩
  have hempty' : (HeapArray.malloc 0 : HeapArray Bool).Filled 0 := ⟨rfl, fun _ hi => absurd hi (Nat.not_lt_zero _)⟩
  have hfilled : pages.Filled 32 := of_returns (P := fun b => b.Filled 32) (HeapArray.filled_malloc 32 none) hpages
  exact ⟨⟨5, by decide, by decide, rfl⟩, hfilled, flags_none _, fun hn => absurd rfl hn, flags_none _, hempty, hempty'⟩

theorem Reachable.sized (h : Reachable s) : s.Sized := by
  induction h with
  | opened h => exact opened_sized h
  | call _ hs ih => exact ih.call hs

/-- `get_page` gets the pages below `2 ^ 31`, and loops for ever on the others. -/
theorem gets_page_iff (h : Reachable s) (out : Outside α) (p : BitVec 32) : s.GetsPage out p ↔ p.toNat < 2 ^ 31 :=
  h.sized.getsPage_iff out p

theorem opened_some (isMemory useWal : Bool) (numPages : BitVec 32) :
    ∃ s : PagerArrays α, opened isMemory useWal numPages = some s ∧ s.maxPages = 32 := by
  obtain ⟨pages, hpages, -⟩ := HeapArray.filled_malloc 32 (none : Option α)
  unfold opened
  rw [hpages]
  exact ⟨_, rfl, rfl⟩

/-- A page far behind the capacity a pager starts with. -/
theorem gets_page_million : ∃ s : PagerArrays Unit, opened false false 0 = some s ∧ ∀ out, s.GetsPage out 1000000 := by
  obtain ⟨s, hs, -⟩ := opened_some false false 0
  exact ⟨s, hs, fun out => (gets_page_iff (.opened hs) out 1000000).mpr (by decide)⟩

/-- `INVALID_PAGE_NUM`, as a page of a file may hold it: the doubling never ends. -/
theorem invalid_page_loops : ∃ s : PagerArrays Unit, opened false false 0 = some s ∧
    (∀ fuel, Doubling.grow 0xFFFFFFFF fuel s.maxPages = none) ∧ ¬ ∀ out p, s.GetsPage out p := by
  obtain ⟨s, hs, hmax⟩ := opened_some false false 0
  refine ⟨s, hs, fun fuel => ?_, fun h => ?_⟩
  · rw [hmax]
    exact Doubling.grow_stuck (k := 5) rfl (by decide) (by decide) fuel
  · have hout := h ⟨false, false, 0, false, fun _ => (), ()⟩ 0xFFFFFFFF
    exact absurd (((opened_sized hs).getsPage_iff _ _).mp hout) (by decide)

end PagerArrays

end CustomDB
