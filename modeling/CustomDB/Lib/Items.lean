import Mathlib.Algebra.GroupWithZero.Nat
import Mathlib.Data.List.Nodup
import Mathlib.Data.List.Perm.Subperm
import CustomDB.Lib.Memory

/-!
# Arrays in memory

Items of `w` bytes each, one behind the other from `base` on, and the two loops that shift a part of them by one place:
upwards from the last item on, downwards from the first.
-/

namespace Lib.Items

open Lib.Memory

variable {m : Mem} {base w i j k n a : Nat} {bs : List UInt8}

/-- Item `i`. -/
def item (base w : Nat) (m : Mem) (i : Nat) : List UInt8 := read m (base + w * i) w

/-- `a[i] = a[j]`. -/
def copyItem (base w : Nat) (m : Mem) (i j : Nat) : Mem := write m (base + w * i) (item base w m j)

/-- `for (i = n; i > k; i--) a[i] = a[i - 1];`. -/
def shiftUp (base w k : Nat) : Nat → Mem → Mem
  | 0, m => m
  | n + 1, m => if k < n + 1 then shiftUp base w k n (copyItem base w m (n + 1) n) else m

/-- `for (i = k; i + 1 < n; i++) a[i] = a[i + 1];`, with the turns that are left as fuel. -/
def shiftDown (base w : Nat) : Nat → Nat → Mem → Mem
  | 0, _, m => m
  | turns + 1, k, m => shiftDown base w turns (k + 1) (copyItem base w m k (k + 1))

@[simp] theorem length_item (base w : Nat) (m : Mem) (i : Nat) : (item base w m i).length = w := length_read ..

/-- Items do not overlap. -/
theorem apart_of_ne (h : i ≠ j) : base + w * i + w ≤ base + w * j ∨ base + w * j + w ≤ base + w * i := by
  rcases Nat.lt_or_gt_of_ne h with h | h
  · have := Nat.mul_le_mul_left w (show i + 1 ≤ j from h)
    rw [Nat.mul_succ] at this
    omega
  · have := Nat.mul_le_mul_left w (show j + 1 ≤ i from h)
    rw [Nat.mul_succ] at this
    omega

theorem item_write_self (hlen : bs.length = w) : item base w (write m (base + w * i) bs) i = bs := by
  have h := read_write_self m (base + w * i) bs
  rwa [hlen] at h

theorem item_write_of_ne (hlen : bs.length = w) (h : j ≠ i) : item base w (write m (base + w * i) bs) j = item base w m j :=
  read_write_apart (by rw [hlen]; exact apart_of_ne h)

theorem item_copyItem (base w : Nat) (m : Mem) (i j l : Nat) :
    item base w (copyItem base w m i j) l = if l = i then item base w m j else item base w m l := by
  split
  · next h =>
    rw [h]
    exact item_write_self (length_item ..)
  · next h => exact item_write_of_ne (length_item ..) h

/-- A copied item changes no byte outside it. -/
theorem copyItem_off (h : a < base + w * i ∨ base + w * i + w ≤ a) : copyItem base w m i j a = m a :=
  if_neg (by rw [length_item]; omega)

/-- The items above `k` move up by one place. -/
theorem item_shiftUp (base w k n : Nat) (m : Mem) (i : Nat) :
    item base w (shiftUp base w k n m) i = if k < i ∧ i ≤ n then item base w m (i - 1) else item base w m i := by
  induction n generalizing m with
  | zero =>
    rw [shiftUp, if_neg (by omega)]
  | succ n ih =>
    rw [shiftUp]
    by_cases hk : k < n + 1
    · rw [if_pos hk, ih]
      simp only [item_copyItem]
      by_cases hi : i = n + 1
      · subst hi
        rw [if_neg (by omega), if_pos rfl, if_pos (by omega)]
        rfl
      · by_cases hin : k < i ∧ i ≤ n
        · rw [if_pos hin, if_neg (by omega), if_pos (by omega)]
        · rw [if_neg hin, if_neg hi, if_neg (by omega)]
    · rw [if_neg hk, if_neg (by omega)]

theorem shiftUp_of_le (base w : Nat) (m : Mem) (h : n ≤ k) : shiftUp base w k n m = m := by
  cases n with
  | zero => rfl
  | succ n => exact if_neg (by omega)

theorem shiftUp_off (h : a < base + w * (k + 1) ∨ base + w * (n + 1) ≤ a) : shiftUp base w k n m a = m a := by
  induction n generalizing m with
  | zero => rfl
  | succ n ih =>
    rw [shiftUp]
    split
    · next hk =>
      have h1 := Nat.mul_le_mul_left w (show k + 1 ≤ n + 1 from hk)
      have h2 : w * (n + 1 + 1) = w * (n + 1) + w := Nat.mul_succ ..
      rw [ih (by omega), copyItem_off (by omega)]
    · rfl

/-- The items behind the place `k` move down by one place. -/
theorem item_shiftDown (base w turns k : Nat) (m : Mem) (i : Nat) :
    item base w (shiftDown base w turns k m) i =
      if k ≤ i ∧ i < k + turns then item base w m (i + 1) else item base w m i := by
  induction turns generalizing k m with
  | zero => rw [shiftDown, if_neg (by omega)]
  | succ turns ih =>
    rw [shiftDown, ih]
    simp only [item_copyItem]
    by_cases hi : i = k
    · subst hi
      rw [if_neg (by omega), if_pos rfl, if_pos (by omega)]
    · by_cases hin : k + 1 ≤ i ∧ i < k + 1 + turns
      · rw [if_pos hin, if_neg (by omega), if_pos (by omega)]
      · rw [if_neg hin, if_neg hi, if_neg (by omega)]

theorem shiftDown_off {turns : Nat} (h : a < base + w * k ∨ base + w * (k + turns) ≤ a) :
    shiftDown base w turns k m a = m a := by
  induction turns generalizing k m with
  | zero => rfl
  | succ turns ih =>
    have h1 : w * (k + 1) = w * k + w := Nat.mul_succ ..
    have h2 := Nat.mul_le_mul_left w (show k + 1 ≤ k + (turns + 1) by omega)
    rw [shiftDown, ih (by rw [show k + 1 + turns = k + (turns + 1) by omega]; omega), copyItem_off (by omega)]

/-! ## Spans that do not overlap -/

/-- Spans inside `[lo, hi)` that do not overlap are not longer in all. -/
theorem sum_le_of_apart {lo hi : Nat} {spans : List (Nat × Nat)} (hin : ∀ s ∈ spans, lo ≤ s.1 ∧ s.1 + s.2 ≤ hi)
    (hapart : spans.Pairwise fun s t => s.1 + s.2 ≤ t.1 ∨ t.1 + t.2 ≤ s.1) : (spans.map Prod.snd).sum ≤ hi - lo := by
  have hnodup : (spans.flatMap fun s => List.range' s.1 s.2).Nodup := by
    rw [List.nodup_flatMap]
    refine ⟨fun s _ => List.nodup_range', hapart.imp fun {s t} h => ?_⟩
    intro x hs ht
    rw [List.mem_range'_1] at hs ht
    omega
  have hsub : (spans.flatMap fun s => List.range' s.1 s.2) ⊆ List.range' lo (hi - lo) := by
    intro x hx
    obtain ⟨s, hs, hx⟩ := List.mem_flatMap.mp hx
    have := hin s hs
    rw [List.mem_range'_1] at hx ⊢
    omega
  have hle := (List.subperm_of_subset hnodup hsub).length_le
  simpa [List.length_flatMap, Function.comp_def] using hle

end Lib.Items
