import Mathlib

/-!
# Comparisons that order

A comparison orders a set weakly if it turns around with its arguments and "not greater" is transitive. It does when
elements compare as their ranks in a linear order. It still does after it is reversed, and so does the comparison by
one after another.
-/

namespace Lib.WeakOrder

variable {α β : Type} {s : Set α} {cmp cmp' : α → α → Ordering}

/-- The comparison orders the set weakly. -/
structure WeakOn (s : Set α) (cmp : α → α → Ordering) : Prop where
  swap : ∀ a ∈ s, ∀ b ∈ s, cmp b a = (cmp a b).swap
  trans : ∀ a ∈ s, ∀ b ∈ s, ∀ c ∈ s, cmp a b ≠ .gt → cmp b c ≠ .gt → cmp a c ≠ .gt

/-- A relation is a strict weak order of the set. -/
structure StrictWeak (s : Set α) (lt : α → α → Prop) : Prop where
  irrefl : ∀ a ∈ s, ¬ lt a a
  trans : ∀ a ∈ s, ∀ b ∈ s, ∀ c ∈ s, lt a b → lt b c → lt a c
  incomp : ∀ a ∈ s, ∀ b ∈ s, ∀ c ∈ s, ¬ lt a b → ¬ lt b a → ¬ lt b c → ¬ lt c b → ¬ lt a c ∧ ¬ lt c a

theorem WeakOn.lt_iff (h : WeakOn s cmp) {a b : α} (ha : a ∈ s) (hb : b ∈ s) : cmp a b = .lt ↔ cmp b a = .gt := by
  rw [h.swap a ha b hb, Ordering.swap_eq_gt]

/-- To be less is a strict weak order. -/
theorem WeakOn.strictWeak (h : WeakOn s cmp) : StrictWeak s fun a b => cmp a b = .lt := by
  have hge : ∀ a ∈ s, ∀ b ∈ s, (¬ cmp a b = .lt ↔ cmp b a ≠ .gt) := fun a ha b hb => not_congr (h.lt_iff ha hb)
  refine ⟨fun a ha hlt => ?_, fun a ha b hb c hc hab hbc => ?_, fun a ha b hb c hc hab hba hbc hcb => ?_⟩
  · have := (h.lt_iff ha ha).mp hlt
    rw [hlt] at this
    cases this
  · by_contra hac
    have hba := h.trans b hb c hc a ha (by simp [hbc]) ((hge a ha c hc).mp hac)
    exact hba ((h.lt_iff ha hb).mp hab)
  · rw [hge _ ha _ hb] at hab
    rw [hge _ hb _ ha] at hba
    rw [hge _ hb _ hc] at hbc
    rw [hge _ hc _ hb] at hcb
    exact ⟨(hge _ ha _ hc).mpr (h.trans c hc b hb a ha hbc hab), (hge _ hc _ ha).mpr (h.trans a ha b hb c hc hba hcb)⟩

/-- Elements compared as their ranks are ordered weakly. -/
theorem weakOn_of_rank [LinearOrder β] (rank : α → β) (h : ∀ a ∈ s, ∀ b ∈ s, (cmp a b).Compares (rank a) (rank b)) :
    WeakOn s cmp where
  swap a ha b hb := (h b hb a ha).inj (Ordering.compares_swap.mpr (h a ha b hb))
  trans a ha b hb c hc hab hbc := by
    rw [ne_eq, (h _ ha _ hb).eq_gt, not_lt] at hab
    rw [ne_eq, (h _ hb _ hc).eq_gt, not_lt] at hbc
    rw [ne_eq, (h _ ha _ hc).eq_gt, not_lt]
    exact hab.trans hbc

/-- Nothing is told apart. -/
theorem weakOn_eq : WeakOn s fun _ _ => .eq where
  swap _ _ _ _ := rfl
  trans _ _ _ _ _ _ h _ := h

/-- The order reversed. -/
theorem WeakOn.reversed (h : WeakOn s cmp) : WeakOn s fun a b => (cmp a b).swap where
  swap a ha b hb := by rw [h.swap a ha b hb]
  trans a ha b hb c hc hab hbc := by
    rw [← h.swap _ ha _ hb] at hab
    rw [← h.swap _ hb _ hc] at hbc
    rw [← h.swap _ ha _ hc]
    exact h.trans c hc b hb a ha hbc hab

/-- What the first comparison leaves equal is compared by the second. -/
theorem WeakOn.lex (h : WeakOn s cmp) (h' : WeakOn s cmp') : WeakOn s fun a b => (cmp a b).then (cmp' a b) where
  swap a ha b hb := by rw [h.swap a ha b hb, h'.swap a ha b hb, Ordering.swap_then]
  trans a ha b hb c hc hab hbc := by
    have hle : ∀ {o o' : Ordering}, o.then o' ≠ .gt ↔ o = .lt ∨ o = .eq ∧ o' ≠ .gt := by
      intro o o'
      cases o <;> cases o' <;> simp [Ordering.then]
    rw [hle] at hab hbc ⊢
    have hlt : ∀ a ∈ s, ∀ b ∈ s, ∀ c ∈ s, cmp a b = .lt → cmp b c ≠ .gt → cmp a c = .lt := by
      intro a ha b hb c hc hab hbc
      by_contra hac
      rw [h.lt_iff ha hc] at hac
      have hba := h.trans b hb c hc a ha hbc hac
      exact hba ((h.lt_iff ha hb).mp hab)
    rcases hab with hab | ⟨hab, hab'⟩
    · exact Or.inl (hlt a ha b hb c hc hab (by rcases hbc with h | ⟨h, -⟩ <;> simp [h]))
    · rcases hbc with hbc | ⟨hbc, hbc'⟩
      · refine Or.inl ?_
        rw [h.lt_iff ha hc]
        by_contra hca
        have hba : cmp b a = .eq := by rw [h.swap a ha b hb, hab]; rfl
        have hcb := h.trans c hc a ha b hb hca (by simp [hab])
        exact hcb ((h.lt_iff hb hc).mp hbc)
      · have hac := h.trans a ha b hb c hc (by simp [hab]) (by simp [hbc])
        have hca := h.trans c hc b hb a ha (by rw [h.swap b hb c hc, hbc]; simp) (by rw [h.swap a ha b hb, hab]; simp)
        refine Or.inr ⟨?_, h'.trans a ha b hb c hc hab' hbc'⟩
        cases hcmp : cmp a c with
        | eq => rfl
        | gt => exact absurd hcmp hac
        | lt => exact absurd ((h.lt_iff ha hc).mp hcmp) hca

end Lib.WeakOrder
