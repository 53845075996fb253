import Mathlib.Data.Multiset.AddSub

/-!
# A fixed number of slots

Each slot is free or holds a value. A value goes into the first free slot and is given up by the first slot that
holds it, so the array is the multiset of the values held, as long as there is a free slot for each that comes.
-/

namespace Lib

variable {α : Type}

/-- `n` slots; `none` is a free one. -/
structure SlotArray (α : Type) (n : Nat) where
  slots : List (Option α)
  length_eq : slots.length = n
  deriving DecidableEq

namespace SlotArray

/-- Put `x` into the first free slot. -/
def putFirst (x : α) : List (Option α) → List (Option α)
  | [] => []
  | none :: l => some x :: l
  | some y :: l => some y :: putFirst x l

/-- Free the first slot that holds `x`. -/
def freeFirst [DecidableEq α] (x : α) : List (Option α) → List (Option α)
  | [] => []
  | none :: l => none :: freeFirst x l
  | some y :: l => if y = x then none :: l else some y :: freeFirst x l

variable {n : Nat} {s : SlotArray α n} {x : α} {l : List (Option α)}

theorem length_putFirst (x : α) (l : List (Option α)) : (putFirst x l).length = l.length := by
  induction l with
  | nil => rfl
  | cons o l ih =>
    cases o with
    | none => rfl
    | some y => rw [putFirst, List.length_cons, List.length_cons, ih]

theorem length_freeFirst [DecidableEq α] (x : α) (l : List (Option α)) : (freeFirst x l).length = l.length := by
  induction l with
  | nil => rfl
  | cons o l ih =>
    cases o with
    | none => rw [freeFirst, List.length_cons, List.length_cons, ih]
    | some y =>
      rw [freeFirst]
      split
      · rfl
      · rw [List.length_cons, List.length_cons, ih]

/-! ## The array -/

theorem length_put (s : SlotArray α n) (x : α) : (putFirst x s.slots).length = n :=
  (length_putFirst x s.slots).trans s.length_eq

theorem length_drop [DecidableEq α] (s : SlotArray α n) (x : α) : (freeFirst x s.slots).length = n :=
  (length_freeFirst x s.slots).trans s.length_eq

theorem length_replicate_none : (List.replicate n (none : Option α)).length = n := List.length_replicate

/-- All slots free. -/
def empty : SlotArray α n := ⟨List.replicate n none, length_replicate_none⟩

def put (s : SlotArray α n) (x : α) : SlotArray α n := ⟨putFirst x s.slots, length_put s x⟩

def drop [DecidableEq α] (s : SlotArray α n) (x : α) : SlotArray α n := ⟨freeFirst x s.slots, length_drop s x⟩

/-- There is a free slot. -/
def HasRoom (s : SlotArray α n) : Prop := none ∈ s.slots

instance [DecidableEq α] (s : SlotArray α n) : Decidable s.HasRoom := inferInstanceAs (Decidable (_ ∈ _))

/-- The values held. -/
def held (s : SlotArray α n) : Multiset α := s.slots.filterMap id

theorem mem_held : x ∈ s.held ↔ some x ∈ s.slots := by
  simp [held]

@[simp] theorem held_empty : (empty : SlotArray α n).held = 0 := by
  simp [held, empty]

theorem filterMap_putFirst (h : none ∈ l) :
    ((putFirst x l).filterMap id : Multiset α) = x ::ₘ (l.filterMap id : Multiset α) := by
  induction l with
  | nil => exact absurd h List.not_mem_nil
  | cons o l ih =>
    cases o with
    | none => rfl
    | some y =>
      have hl : none ∈ l := by simpa using h
      have hcons := congrArg (y ::ₘ ·) (ih hl)
      rw [Multiset.cons_swap] at hcons
      exact hcons

theorem held_put (h : s.HasRoom) : (s.put x).held = x ::ₘ s.held := filterMap_putFirst h

theorem putFirst_full (h : none ∉ l) : putFirst x l = l := by
  induction l with
  | nil => rfl
  | cons o l ih =>
    cases o with
    | none => exact absurd (List.mem_cons_self ..) h
    | some y => rw [putFirst, ih fun hl => h (List.mem_cons_of_mem _ hl)]

/-- Where there is no room the value is forgotten. -/
theorem held_put_full (h : ¬ s.HasRoom) : (s.put x).held = s.held :=
  congrArg (fun l : List (Option α) => (l.filterMap id : Multiset α)) (putFirst_full h)

theorem filterMap_freeFirst [DecidableEq α] (x : α) (l : List (Option α)) :
    ((freeFirst x l).filterMap id : Multiset α) = (l.filterMap id : Multiset α).erase x := by
  induction l with
  | nil => rfl
  | cons o l ih =>
    cases o with
    | none => exact ih
    | some y =>
      have hl : (((some y :: l).filterMap id : List α) : Multiset α) = y ::ₘ (l.filterMap id : Multiset α) := rfl
      rw [freeFirst, hl]
      split
      · next hy =>
        rw [hy, Multiset.erase_cons_head]
        rfl
      · next hy =>
        rw [Multiset.erase_cons_tail _ hy, ← ih]
        rfl

theorem held_drop [DecidableEq α] (s : SlotArray α n) (x : α) : (s.drop x).held = s.held.erase x :=
  filterMap_freeFirst x s.slots

end SlotArray

end Lib
