import Mathlib.Data.BitVec

/-!
# Doubling in a word

A capacity that is doubled until it is above a number, in `w` bits. From a power of two on it gets there if and only
if the number is below the largest power of two the word holds: from there the next doubling gives 0, and 0 stays.
-/

namespace Lib.Doubling

variable {w : Nat}

/-- `while (target >= cap) cap *= 2;`, at most `fuel` turns. -/
def grow (target : BitVec w) : Nat → BitVec w → Option (BitVec w)
  | 0, _ => none
  | fuel + 1, cap => if target < cap then some cap else grow target fuel (cap + cap)

variable {target cap c : BitVec w} {fuel k : Nat}

theorem grow_zero (target : BitVec w) (fuel : Nat) : grow target fuel 0 = none := by
  induction fuel with
  | zero => rfl
  | succ fuel ih =>
    have hlt : ¬ target < (0 : BitVec w) := BitVec.not_lt_zero
    have hzero : (0 : BitVec w) + 0 = 0 := BitVec.add_zero 0
    rw [grow, if_neg hlt, hzero]
    exact ih

theorem toNat_double (hcap : cap.toNat = 2 ^ k) (hk : k + 1 < w) : (cap + cap).toNat = 2 ^ (k + 1) := by
  rw [BitVec.toNat_add, hcap, ← Nat.two_mul, Nat.mul_comm, ← Nat.pow_succ]
  exact Nat.mod_eq_of_lt (Nat.pow_lt_pow_right (by decide) hk)

/-- The largest power of two wraps. -/
theorem double_last (hcap : cap.toNat = 2 ^ k) (hk : k + 1 = w) : cap + cap = 0 := by
  apply BitVec.eq_of_toNat_eq
  rw [BitVec.toNat_add, hcap, ← Nat.two_mul, Nat.mul_comm, ← Nat.pow_succ, ← hk, Nat.mod_self]
  rfl

/-- What the loop ends with. -/
theorem grow_spec (hcap : cap.toNat = 2 ^ k) (hk : k < w) (h : grow target fuel cap = some c) :
    target < c ∧ ∃ j, k ≤ j ∧ j < w ∧ c.toNat = 2 ^ j := by
  induction fuel generalizing cap k with
  | zero => cases h
  | succ fuel ih =>
    rw [grow] at h
    split at h
    next hlt =>
      obtain rfl := Option.some.inj h
      exact ⟨hlt, k, le_refl k, hk, hcap⟩
    next hle =>
      rcases Nat.lt_or_eq_of_le (Nat.succ_le_of_lt hk) with hk' | hk'
      · obtain ⟨hlt, j, hj, hjw, hc⟩ := ih (toNat_double hcap hk') hk' h
        exact ⟨hlt, j, by omega, hjw, hc⟩
      · rw [double_last hcap hk', grow_zero] at h
        cases h

/-- The loop ends on every number below the last power of two. -/
theorem grow_ends (hcap : cap.toNat = 2 ^ k) (hk : k < w) (ht : target.toNat < 2 ^ (w - 1)) :
    ∃ c, grow target (w - k) cap = some c := by
  obtain ⟨n, hn⟩ : ∃ n, w - k = n + 1 := Nat.exists_eq_succ_of_ne_zero (by omega)
  rw [hn]
  induction n generalizing cap k with
  | zero =>
    have hlast : k = w - 1 := by omega
    have hlt : target < cap := by
      rw [BitVec.lt_def, hcap, hlast]
      exact ht
    exact ⟨cap, by rw [grow, if_pos hlt]⟩
  | succ n ih =>
    rw [grow]
    by_cases hlt : target < cap
    · exact ⟨cap, if_pos hlt⟩
    · rw [if_neg hlt]
      exact ih (toNat_double hcap (by omega)) (by omega) (by omega)

/-- On the others it never does. -/
theorem grow_stuck (hcap : cap.toNat = 2 ^ k) (hk : k < w) (ht : 2 ^ (w - 1) ≤ target.toNat) (fuel : Nat) :
    grow target fuel cap = none := by
  cases h : grow target fuel cap with
  | none => rfl
  | some c =>
    obtain ⟨hlt, j, -, hj, hc⟩ := grow_spec hcap hk h
    rw [BitVec.lt_def, hc] at hlt
    have hpow := Nat.pow_le_pow_right (show 0 < 2 by decide) (show j ≤ w - 1 by omega)
    omega

end Lib.Doubling
