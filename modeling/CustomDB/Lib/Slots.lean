import Mathlib.Data.Finset.Basic

/-!
# Growable pointer arrays

A C program keeps a `void**` with a capacity, `NULL` in the free entries, and grows it when an index
falls outside. `Slots` is that array with its capacity rule as a field: nothing is stored at or above
`cap`, so a loop over `0 .. cap` meets every entry.
-/

namespace Lib

/-- A growable array of pointers; `none` is `NULL`. -/
structure Slots (α : Type) where
  cap : Nat
  slot : Nat → Option α
  bound : ∀ i, cap ≤ i → slot i = none

namespace Slots

variable {α : Type}

/-- No entry is set. -/
def empty : Slots α := ⟨0, fun _ => none, fun _ _ => rfl⟩

/-- Store at index `i`, growing the array when it is too short. -/
def set (s : Slots α) (i : Nat) (x : α) : Slots α where
  cap := max s.cap (i + 1)
  slot j := if j = i then some x else s.slot j
  bound j hj := by
    rw [if_neg (by omega)]
    exact s.bound j (by omega)

/-- Overwrite the pointee of an entry; a `NULL` entry stays `NULL`. -/
def overwrite (s : Slots α) (i : Nat) (x : α) : Slots α where
  cap := s.cap
  slot j := if j = i then (s.slot j).map fun _ => x else s.slot j
  bound j hj := by simp [s.bound j hj]

/-- Free every entry in `[lo, hi)`. -/
def clearRange (s : Slots α) (lo hi : Nat) : Slots α where
  cap := s.cap
  slot j := if lo ≤ j ∧ j < hi then none else s.slot j
  bound j hj := by simp [s.bound j hj]

/-- Whether the loop over the capacity meets an entry. -/
def any (s : Slots α) : Bool := (List.range s.cap).any fun i => (s.slot i).isSome

@[simp] theorem slot_empty (i : Nat) : (empty : Slots α).slot i = none := rfl

@[simp] theorem slot_set (s : Slots α) (i : Nat) (x : α) (j : Nat) :
    (s.set i x).slot j = if j = i then some x else s.slot j := rfl

@[simp] theorem slot_overwrite (s : Slots α) (i : Nat) (x : α) (j : Nat) :
    (s.overwrite i x).slot j = if j = i then (s.slot j).map fun _ => x else s.slot j := rfl

@[simp] theorem slot_clearRange (s : Slots α) (lo hi j : Nat) :
    (s.clearRange lo hi).slot j = if lo ≤ j ∧ j < hi then none else s.slot j := rfl

@[simp] theorem cap_overwrite (s : Slots α) (i : Nat) (x : α) : (s.overwrite i x).cap = s.cap := rfl

theorem lt_cap (s : Slots α) {i : Nat} {x : α} (h : s.slot i = some x) : i < s.cap := by
  by_contra hge
  rw [s.bound i (by omega)] at h
  cases h

theorem any_iff (s : Slots α) : s.any = true ↔ ∃ i x, s.slot i = some x := by
  simp only [any, List.any_eq_true, List.mem_range]
  constructor
  · rintro ⟨i, -, hi⟩
    obtain ⟨x, hx⟩ := Option.isSome_iff_exists.mp hi
    exact ⟨i, x, hx⟩
  · rintro ⟨i, x, hx⟩
    exact ⟨i, s.lt_cap hx, by simp [hx]⟩

theorem any_eq_false (s : Slots α) (h : ∀ i, s.slot i = none) : s.any = false := by
  by_contra hne
  obtain ⟨i, x, hx⟩ := s.any_iff.mp (by simpa using hne)
  rw [h i] at hx
  cases hx

/-- Overwrite the pointees that `ws` addresses, first to last. -/
def overwriteAll (s : Slots α) (ws : List (Nat × α)) : Slots α :=
  ws.foldl (fun s w => s.overwrite w.1 w.2) s

theorem slot_overwriteAll (s : Slots α) (ws : List (Nat × α)) (i : Nat) :
    (s.overwriteAll ws).slot i = (s.slot i).map fun x => (ws.reverse.lookup i).getD x := by
  induction ws generalizing s with
  | nil => simp [overwriteAll]
  | cons w ws ih =>
    obtain ⟨k, x⟩ := w
    have hcons : s.overwriteAll ((k, x) :: ws) = (s.overwrite k x).overwriteAll ws := rfl
    rw [hcons, ih, slot_overwrite, List.reverse_cons, List.lookup_append]
    by_cases hi : i = k <;> cases ws.reverse.lookup i <;> cases s.slot i <;> simp [hi, List.lookup_cons, beq_eq_decide]

theorem isSome_overwriteAll (s : Slots α) (ws : List (Nat × α)) (i : Nat) :
    ((s.overwriteAll ws).slot i).isSome = (s.slot i).isSome := by
  rw [slot_overwriteAll, Option.isSome_map]

end Slots

end Lib
