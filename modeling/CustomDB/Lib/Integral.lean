import Mathlib

/-!
# Integers as doubles

The bit pattern of an integer in the format of IEEE 754, and the integer of a bit pattern. Up to 2^53 an integer is
got back from its pattern.
-/

namespace Lib.Integral

/-- The double next to an integer towards 0: sign, exponent and the 52 bits behind the leading one. -/
def encode (x : ℤ) : BitVec 64 :=
  if x = 0 then 0
  else
    BitVec.ofNat 64 ((if x < 0 then 2 ^ 63 else 0) + (1023 + x.natAbs.log2) * 2 ^ 52 +
      (x.natAbs * 2 ^ 52 / 2 ^ x.natAbs.log2 - 2 ^ 52))

/-- The integer part of a double that is at least 1 in size; 0 for 0. -/
def decode (d : BitVec 64) : ℤ :=
  if d = 0 then 0
  else
    let r := d.toNat % 2 ^ 63
    let m : ℕ := (r % 2 ^ 52 + 2 ^ 52) * 2 ^ (r / 2 ^ 52 - 1023) / 2 ^ 52
    if 2 ^ 63 ≤ d.toNat then -(m : ℤ) else m

/-- The bits behind the leading one are those of the whole number. -/
theorem mantissa {m : ℕ} (hm : m ≠ 0) (hle : m ≤ 2 ^ 53) :
    m.log2 ≤ 53 ∧ 2 ^ 52 ≤ m * 2 ^ 52 / 2 ^ m.log2 ∧ m * 2 ^ 52 / 2 ^ m.log2 < 2 ^ 53 ∧
      m * 2 ^ 52 / 2 ^ m.log2 * 2 ^ m.log2 = m * 2 ^ 52 := by
  have hlow : 2 ^ m.log2 ≤ m := Nat.log2_self_le hm
  have hhigh : m < 2 ^ (m.log2 + 1) := Nat.lt_log2_self
  have hpos : 0 < 2 ^ m.log2 := by positivity
  have he : m.log2 ≤ 53 := (Nat.pow_le_pow_iff_right (by decide)).mp (hlow.trans hle)
  refine ⟨he, ?_, ?_, ?_⟩
  · rw [Nat.le_div_iff_mul_le hpos, Nat.mul_comm]
    exact Nat.mul_le_mul_right _ hlow
  · rw [Nat.div_lt_iff_lt_mul hpos]
    calc m * 2 ^ 52 < 2 ^ (m.log2 + 1) * 2 ^ 52 := Nat.mul_lt_mul_of_pos_right hhigh (by decide)
      _ = 2 ^ 53 * 2 ^ m.log2 := by ring
  · refine Nat.div_mul_cancel ?_
    rcases Nat.lt_or_ge m.log2 53 with h | h
    · exact (Nat.pow_dvd_pow 2 (by omega)).mul_left m
    · have h53 : m.log2 = 53 := by omega
      rw [h53] at hlow
      rw [h53, le_antisymm hle hlow]
      exact dvd_mul_right ..

theorem decode_encode {x : ℤ} (h : |x| ≤ 2 ^ 53) : decode (encode x) = x := by
  unfold encode
  by_cases hx : x = 0
  · rw [if_pos hx, hx]
    exact if_pos rfl
  · rw [if_neg hx]
    obtain ⟨he, hlow, hhigh, hmul⟩ := mantissa (m := x.natAbs) (by omega) (by rw [abs_le] at h; omega)
    generalize x.natAbs.log2 = e at *
    generalize hf : x.natAbs * 2 ^ 52 / 2 ^ e = f at *
    have hsign : (if x < 0 then 2 ^ 63 else 0) = 2 ^ 63 ∧ x < 0 ∨ (if x < 0 then 2 ^ 63 else 0) = 0 ∧ 0 ≤ x := by
      rcases lt_or_ge x 0 with hneg | hneg
      · exact Or.inl ⟨if_pos hneg, hneg⟩
      · exact Or.inr ⟨if_neg (by omega), hneg⟩
    generalize (if x < 0 then 2 ^ 63 else 0) = s at *
    have hn : (BitVec.ofNat 64 (s + (1023 + e) * 2 ^ 52 + (f - 2 ^ 52))).toNat =
        s + (1023 + e) * 2 ^ 52 + (f - 2 ^ 52) := by
      rw [BitVec.toNat_ofNat, Nat.mod_eq_of_lt]
      omega
    have hne : BitVec.ofNat 64 (s + (1023 + e) * 2 ^ 52 + (f - 2 ^ 52)) ≠ 0 := by
      intro h0
      have := congrArg BitVec.toNat h0
      rw [hn] at this
      have hzero : (0 : BitVec 64).toNat = 0 := rfl
      omega
    have hr : (s + (1023 + e) * 2 ^ 52 + (f - 2 ^ 52)) % 2 ^ 63 = (1023 + e) * 2 ^ 52 + (f - 2 ^ 52) := by omega
    have hexp : ((1023 + e) * 2 ^ 52 + (f - 2 ^ 52)) / 2 ^ 52 - 1023 = e := by omega
    have hman : ((1023 + e) * 2 ^ 52 + (f - 2 ^ 52)) % 2 ^ 52 + 2 ^ 52 = f := by omega
    have hm : f * 2 ^ e / 2 ^ 52 = x.natAbs := by
      rw [hmul]
      exact Nat.mul_div_cancel _ (by decide)
    unfold decode
    rw [if_neg hne]
    dsimp only
    rw [hn, hr, hexp, hman, hm]
    rcases hsign with ⟨rfl, hneg⟩ | ⟨rfl, hneg⟩
    · rw [if_pos (by omega)]
      omega
    · rw [if_neg (by omega)]
      omega

end Lib.Integral
