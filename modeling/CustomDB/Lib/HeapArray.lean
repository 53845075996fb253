import Mathlib.Logic.Function.Basic
import Mathlib.Data.List.Basic

/-!
# Arrays on the heap

An array of `malloc`, `calloc` and `realloc`: an access beyond its capacity and a read of an entry that was never
written are `none`.
-/

namespace Lib

/-- An array: its capacity, and the entries written so far. -/
structure HeapArray (α : Type) where
  cap : Nat
  entry : Nat → Option α

namespace HeapArray

variable {α : Type}

/-- `malloc`. -/
def malloc (n : Nat) : HeapArray α := ⟨n, fun _ => none⟩

/-- `calloc`, with `x` for the zero bytes. -/
def calloc (n : Nat) (x : α) : HeapArray α := ⟨n, fun _ => some x⟩

/-- `a[i]`. -/
def get (a : HeapArray α) (i : Nat) : Option α := if i < a.cap then a.entry i else none

/-- `a[i] = x`. -/
def set (a : HeapArray α) (i : Nat) (x : α) : Option (HeapArray α) :=
  if i < a.cap then some { a with entry := Function.update a.entry i (some x) } else none

/-- `realloc`. The entries it adds are not written yet. -/
def realloc (a : HeapArray α) (n : Nat) : HeapArray α := ⟨n, fun i => if i < a.cap then a.entry i else none⟩

/-- `for (i = start; i < stop; i++) a[i] = x;`. -/
def fill (a : HeapArray α) (start stop : Nat) (x : α) : Option (HeapArray α) :=
  (List.range' start (stop - start)).foldlM (fun a i => a.set i x) a

/-- The array has capacity `n`, and all its entries are written. -/
structure Filled (a : HeapArray α) (n : Nat) : Prop where
  cap : a.cap = n
  written : ∀ i, i < n → ∃ x, a.get i = some x

variable {a b : HeapArray α} {i n start stop : Nat} {x y : α}

theorem get_lt (h : a.get i = some x) : i < a.cap := by
  unfold get at h
  by_contra hn
  rw [if_neg hn] at h
  cases h

theorem filled_calloc (n : Nat) (x : α) : (calloc n x).Filled n := ⟨rfl, fun _ hi => ⟨x, if_pos hi⟩⟩

theorem set_some (hi : i < a.cap) (x : α) :
    ∃ b, a.set i x = some b ∧ b.cap = a.cap ∧ ∀ j, b.get j = if j = i then some x else a.get j := by
  refine ⟨_, if_pos hi, rfl, fun j => ?_⟩
  unfold get
  dsimp only
  by_cases hj : j = i
  · rw [hj, if_pos rfl, if_pos hi, Function.update_self]
  · rw [if_neg hj, Function.update_of_ne hj]

theorem set_spec (h : a.set i x = some b) :
    i < a.cap ∧ b.cap = a.cap ∧ ∀ j, b.get j = if j = i then some x else a.get j := by
  have hi : i < a.cap := by
    by_contra hn
    unfold set at h
    rw [if_neg hn] at h
    cases h
  obtain ⟨b', hb', hcap, hget⟩ := set_some hi x
  obtain rfl := Option.some.inj (hb'.symm.trans h)
  exact ⟨hi, hcap, hget⟩

theorem Filled.set (h : a.Filled n) (hs : a.set i x = some b) : b.Filled n := by
  obtain ⟨hi, hcap, hget⟩ := set_spec hs
  refine ⟨hcap.trans h.cap, fun j hj => ?_⟩
  rw [hget]
  split
  · exact ⟨x, rfl⟩
  · exact h.written j hj

/-- Writing in bounds. -/
theorem Filled.set_some (h : a.Filled n) (hi : i < n) (x : α) :
    ∃ b, a.set i x = some b ∧ b.Filled n ∧ ∀ j, b.get j = if j = i then some x else a.get j := by
  obtain ⟨b, hb, -, hget⟩ := HeapArray.set_some (show i < a.cap by rw [h.cap]; exact hi) x
  exact ⟨b, hb, h.set hb, hget⟩

/-- The loop of `fill`, in bounds. -/
theorem fill_some (a : HeapArray α) (start : Nat) (hstop : stop ≤ a.cap) (x : α) :
    ∃ b, a.fill start stop x = some b ∧ b.cap = a.cap ∧
      ∀ j, b.get j = if start ≤ j ∧ j < stop then some x else a.get j := by
  unfold fill
  obtain ⟨n, hn⟩ : ∃ n, n = stop - start := ⟨_, rfl⟩
  rw [← hn]
  induction n generalizing a start with
  | zero => exact ⟨a, rfl, rfl, fun j => by rw [if_neg (by omega)]⟩
  | succ n ih =>
    obtain ⟨b, hb, hcap, hget⟩ := HeapArray.set_some (show start < a.cap by omega) x
    obtain ⟨c, hc, hcap', hget'⟩ := ih b (start + 1) (by rw [hcap]; exact hstop) (by omega)
    refine ⟨c, ?_, hcap'.trans hcap, fun j => ?_⟩
    · rw [List.range'_succ, List.foldlM_cons, hb]
      exact hc
    · rw [hget', hget]
      by_cases hj : start + 1 ≤ j ∧ j < stop
      · rw [if_pos hj, if_pos (by omega)]
      · rw [if_neg hj]
        by_cases hj' : j = start
        · rw [if_pos hj', if_pos (by omega)]
        · rw [if_neg hj', if_neg (by omega)]

/-- A new array, with the loop over its entries. -/
theorem filled_malloc (n : Nat) (x : α) : ∃ b, (malloc n).fill 0 n x = some b ∧ b.Filled n := by
  obtain ⟨b, hb, hcap, hget⟩ := fill_some (malloc n) 0 (Nat.le_refl n) x
  exact ⟨b, hb, hcap, fun j hj => ⟨x, by rw [hget, if_pos ⟨Nat.zero_le j, hj⟩]⟩⟩

/-- An array that is enlarged, with the loop over the entries it gets. -/
theorem Filled.grown (h : a.Filled n) (hle : n ≤ stop) (x : α) :
    ∃ b, (a.realloc stop).fill n stop x = some b ∧ b.Filled stop ∧ ∀ j, j < n → b.get j = a.get j := by
  obtain ⟨b, hb, hcap, hget⟩ := fill_some (a.realloc stop) n (Nat.le_refl stop) x
  have hold : ∀ j, j < n → b.get j = a.get j := by
    intro j hj
    rw [hget, if_neg (by omega)]
    unfold get realloc
    dsimp only
    rw [if_pos (by omega), h.cap, if_pos hj]
  refine ⟨b, hb, ⟨hcap, fun j hj => ?_⟩, hold⟩
  by_cases hj' : j < n
  · obtain ⟨y, hy⟩ := h.written j hj'
    exact ⟨y, (hold j hj').trans hy⟩
  · exact ⟨x, by rw [hget, if_pos ⟨by omega, hj⟩]⟩

/-- An array that is made smaller. -/
theorem Filled.shrunk (h : a.Filled n) (hle : stop ≤ n) : (a.realloc stop).Filled stop := by
  refine ⟨rfl, fun j hj => ?_⟩
  obtain ⟨y, hy⟩ := h.written j (by omega)
  refine ⟨y, ?_⟩
  unfold get realloc
  dsimp only
  unfold get at hy
  rw [h.cap, if_pos (by omega)] at hy
  rw [if_pos hj, h.cap, if_pos (by omega), hy]

/-- Either way, if the loop over the new entries returns. -/
theorem Filled.resized (h : a.Filled n) (hb : (a.realloc stop).fill n stop x = some b) : b.Filled stop := by
  by_cases hle : n ≤ stop
  · obtain ⟨c, hc, hfilled, -⟩ := h.grown hle x
    obtain rfl := Option.some.inj (hc.symm.trans hb)
    exact hfilled
  · unfold fill at hb
    rw [Nat.sub_eq_zero_of_le (by omega)] at hb
    obtain rfl := Option.some.inj hb
    exact h.shrunk (by omega)

end HeapArray

end Lib
