import Mathlib.Data.Nat.Basic

/-!
# Bisection

The loop `while (lo < hi) { mid = (lo + hi) / 2; if (lt(mid)) lo = mid + 1; else hi = mid; }`, with the turns it
may still take as fuel.
-/

namespace Lib.Bisect

/-- Where the loop ends that starts between `lo` and `hi`. -/
def lowerBound (lt : Nat → Bool) : Nat → Nat → Nat → Nat
  | 0, lo, _ => lo
  | fuel + 1, lo, hi =>
    if lo < hi then
      let mid := (lo + hi) / 2
      if lt mid then lowerBound lt fuel (mid + 1) hi else lowerBound lt fuel lo mid
    else lo

/-- Where `lt` holds below `k` and fails from `k` on, the loop ends at `k`. -/
theorem lowerBound_eq {lt : Nat → Bool} {k : Nat} : ∀ {fuel lo hi : Nat}, hi - lo ≤ fuel → lo ≤ k → k ≤ hi →
    (∀ i, lo ≤ i → i < k → lt i = true) → (∀ i, k ≤ i → i < hi → lt i = false) → lowerBound lt fuel lo hi = k := by
  intro fuel
  induction fuel with
  | zero =>
    intro lo hi hf hlo hhi _ _
    show lo = k
    omega
  | succ fuel ih =>
    intro lo hi hf hlo hhi hbelow habove
    unfold lowerBound
    by_cases hlt : lo < hi
    · rw [if_pos hlt]
      dsimp only
      by_cases hm : (lo + hi) / 2 < k
      · rw [if_pos (hbelow _ (by omega) hm)]
        exact ih (by omega) (by omega) hhi (fun i hi => hbelow i (by omega)) habove
      · rw [if_neg (by rw [habove _ (by omega) (by omega)]; simp)]
        exact ih (by omega) hlo (by omega) hbelow fun i hk hi => habove i hk (by omega)
    · rw [if_neg hlt]
      omega

/-- The loop does not leave the range. -/
theorem lowerBound_le (lt : Nat → Bool) : ∀ {fuel lo hi : Nat}, lo ≤ hi → lowerBound lt fuel lo hi ≤ hi := by
  intro fuel
  induction fuel with
  | zero => exact fun h => h
  | succ fuel ih =>
    intro lo hi h
    unfold lowerBound
    by_cases hlt : lo < hi
    · rw [if_pos hlt]
      dsimp only
      split
      · exact ih (by omega)
      · exact le_trans (ih (by omega)) (by omega)
    · rw [if_neg hlt]
      exact h

/-- The loop asks about places below `hi` only. -/
theorem lowerBound_congr {lt lt' : Nat → Bool} : ∀ {fuel lo hi : Nat}, (∀ i < hi, lt i = lt' i) →
    lowerBound lt fuel lo hi = lowerBound lt' fuel lo hi := by
  intro fuel
  induction fuel with
  | zero => exact fun _ => rfl
  | succ fuel ih =>
    intro lo hi h
    unfold lowerBound
    by_cases hlt : lo < hi
    · rw [if_pos hlt, if_pos hlt]
      dsimp only
      rw [h _ (by omega), ih h, ih fun i hi => h i (by omega)]
    · rw [if_neg hlt, if_neg hlt]

end Lib.Bisect
