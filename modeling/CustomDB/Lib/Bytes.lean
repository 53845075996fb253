import Mathlib.Data.Nat.Basic
import Mathlib.Tactic.Ring
import Mathlib.Data.List.Basic

/-!
# Little-endian integers in bytes

What `memcpy` of an integer leaves in memory on a little-endian machine, and what it reads back.
-/

namespace Lib.Bytes

/-- The `k` low bytes of `n`, the lowest first. -/
def leBytes : Nat → Nat → List UInt8
  | 0, _ => []
  | k + 1, n => UInt8.ofNat n :: leBytes k (n / 256)

/-- The number the bytes stand for. -/
def leNat : List UInt8 → Nat
  | [] => 0
  | b :: bs => b.toNat + 256 * leNat bs

@[simp] theorem length_leBytes (k n : Nat) : (leBytes k n).length = k := by
  induction k generalizing n with
  | zero => rfl
  | succ k ih => rw [leBytes, List.length_cons, ih]

theorem leNat_leBytes (k n : Nat) : leNat (leBytes k n) = n % 256 ^ k := by
  induction k generalizing n with
  | zero => rw [pow_zero, Nat.mod_one]; rfl
  | succ k ih =>
    have hb : (UInt8.ofNat n).toNat = n % 256 := by simp
    rw [leBytes, leNat, ih, hb, pow_succ, Nat.mul_comm (256 ^ k), Nat.mod_mul]

theorem leNat_lt (bs : List UInt8) : leNat bs < 256 ^ bs.length := by
  induction bs with
  | nil => exact Nat.one_pos
  | cons b bs ih =>
    have hb := b.toNat_lt
    rw [leNat, List.length_cons, pow_succ]
    omega

/-- A bit vector's bytes read back as the vector, whatever follows them. -/
theorem ofNat_leNat_leBytes {w k : Nat} (h : 2 ^ w = 256 ^ k) (x : BitVec w) (rest : List UInt8) :
    BitVec.ofNat w (leNat ((leBytes k x.toNat ++ rest).take k)) = x := by
  have htake : (leBytes k x.toNat ++ rest).take k = leBytes k x.toNat := List.take_left' (length_leBytes k _)
  rw [htake, leNat_leBytes, ← h, Nat.mod_eq_of_lt x.isLt]
  rw [BitVec.ofNat_toNat, BitVec.setWidth_eq]

end Lib.Bytes
