import Mathlib.Order.Lattice
import Mathlib.Data.List.Basic

/-!
# Children between separators

A node as the list of its children, each with the separator behind it, the last one with the bound of the node itself.
The bounds of a child are its separator and the one before. What rotating and removing children does to such lists is
what it does to the lists of a node's children, one behind the other.
-/

namespace Lib.Separators

variable {ι κ β : Type*} [LinearOrder β] {below below' : ι → κ → Prop} {rank : κ → β} {lo lo' hi hi' mid : β} {c : ι}
  {l l₁ l₂ : List (ι × β)}

/-- All that is below the child is behind `lo` and not behind `hi`. -/
structure Spans (below : ι → κ → Prop) (rank : κ → β) (lo hi : β) (c : ι) : Prop where
  le : lo ≤ hi
  keys : ∀ k, below c k → lo < rank k ∧ rank k ≤ hi

/-- Each child spans from the separator before it to its own; the last separator is `hi`. -/
def Covers (below : ι → κ → Prop) (rank : κ → β) : β → List (ι × β) → β → Prop
  | lo, [], hi => lo = hi
  | lo, c :: l, hi => Spans below rank lo c.2 c.1 ∧ Covers below rank c.2 l hi

theorem Spans.mono (h : Spans below rank lo hi c) (hlo : lo' ≤ lo) (hhi : hi ≤ hi') : Spans below rank lo' hi' c :=
  ⟨le_trans hlo (le_trans h.le hhi), fun k hk => ⟨lt_of_le_of_lt hlo (h.keys k hk).1, le_trans (h.keys k hk).2 hhi⟩⟩

theorem Spans.congr (h : Spans below rank lo hi c) (heq : ∀ k, below' c k → below c k) : Spans below' rank lo hi c :=
  ⟨h.le, fun k hk => h.keys k (heq k hk)⟩

/-- Between equal bounds there is nothing. -/
theorem spans_self_iff : Spans below rank lo lo c ↔ ∀ k, ¬ below c k := by
  constructor
  · intro h k hk
    obtain ⟨h1, h2⟩ := h.keys k hk
    exact absurd h1 (not_lt.mpr h2)
  · exact fun h => ⟨le_refl lo, fun k hk => absurd hk (h k)⟩

@[simp] theorem covers_nil : Covers below rank lo [] hi ↔ lo = hi := Iff.rfl

@[simp] theorem covers_cons {e : ι × β} :
    Covers below rank lo (e :: l) hi ↔ Spans below rank lo e.2 e.1 ∧ Covers below rank e.2 l hi := Iff.rfl

theorem covers_append :
    Covers below rank lo (l₁ ++ l₂) hi ↔ ∃ mid, Covers below rank lo l₁ mid ∧ Covers below rank mid l₂ hi := by
  induction l₁ generalizing lo with
  | nil => simp
  | cons e l₁ ih =>
    rw [List.cons_append, covers_cons, ih]
    constructor
    · rintro ⟨hs, mid, h1, h2⟩
      exact ⟨mid, ⟨hs, h1⟩, h2⟩
    · rintro ⟨mid, ⟨hs, h1⟩, h2⟩
      exact ⟨hs, mid, h1, h2⟩

/-- The last child ends where the node does. -/
theorem covers_concat : Covers below rank lo (l ++ [(c, mid)]) hi ↔
    mid = hi ∧ ∃ b, Covers below rank lo l b ∧ Spans below rank b mid c := by
  rw [covers_append]
  constructor
  · rintro ⟨b, hl, hc, heq⟩
    exact ⟨heq, b, hl, hc⟩
  · rintro ⟨heq, b, hl, hc⟩
    exact ⟨b, hl, hc, heq⟩

theorem Covers.le (h : Covers below rank lo l hi) : lo ≤ hi := by
  induction l generalizing lo with
  | nil => exact le_of_eq h
  | cons e l ih => exact le_trans h.1.le (ih h.2)

/-- Where a node ends is said by its list. -/
theorem Covers.end_eq (h : Covers below rank lo l hi) (h' : Covers below' rank lo l hi') : hi = hi' := by
  induction l generalizing lo with
  | nil => exact (covers_nil.mp h).symm.trans h'
  | cons e l ih => exact ih h.2 h'.2

/-- Every child lies between the bounds of the node. -/
theorem Covers.spans (h : Covers below rank lo l hi) {e : ι × β} (he : e ∈ l) : Spans below rank lo hi e.1 := by
  induction l generalizing lo with
  | nil => cases he
  | cons d l ih =>
    rcases List.mem_cons.mp he with rfl | he
    · exact h.1.mono (le_refl _) (Covers.le h.2)
    · exact (ih h.2 he).mono h.1.le (le_refl _)

/-- A node spans what its children cover. -/
theorem Covers.node (h : Covers below rank lo l hi) (hbelow : ∀ k, below c k → ∃ e ∈ l, below e.1 k) :
    Spans below rank lo hi c := by
  refine ⟨h.le, fun k hk => ?_⟩
  obtain ⟨e, he, hke⟩ := hbelow k hk
  exact (h.spans he).keys k hke

theorem Covers.congr (h : Covers below rank lo l hi) (heq : ∀ e ∈ l, ∀ k, below' e.1 k → below e.1 k) :
    Covers below' rank lo l hi := by
  induction l generalizing lo with
  | nil => exact h
  | cons d l ih =>
    exact ⟨h.1.congr (heq d List.mem_cons_self), ih h.2 fun e he => heq e (List.mem_cons_of_mem _ he)⟩

/-- A node may begin earlier. -/
theorem Covers.widen (h : Covers below rank lo l hi) (hne : l ≠ []) (hlo : lo' ≤ lo) : Covers below rank lo' l hi := by
  cases l with
  | nil => exact absurd rfl hne
  | cons e l => exact ⟨h.1.mono hlo (le_refl _), h.2⟩

/-- A node may end later, if its last child does. -/
theorem Covers.extend (h : Covers below rank lo (l ++ [(c, mid)]) mid) (hle : mid ≤ hi) :
    Covers below rank lo (l ++ [(c, hi)]) hi := by
  obtain ⟨-, b, hl, hc⟩ := covers_concat.mp h
  exact covers_concat.mpr ⟨rfl, b, hl, hc.mono (le_refl _) hle⟩

/-- A child's range may go to the child before it. -/
theorem Covers.absorb {d : ι} (h : Covers below rank lo (l₁ ++ (c, mid) :: (d, hi') :: l₂) hi) :
    Covers below rank lo (l₁ ++ (c, hi') :: l₂) hi := by
  rw [covers_append] at h ⊢
  obtain ⟨b, h1, hc, hd, h2⟩ := h
  exact ⟨b, h1, hc.mono (le_refl _) hd.le, h2⟩

/-- The first child's range may go to the one behind it. -/
theorem Covers.skip (h : Covers below rank lo ((c, mid) :: l) hi) (hne : l ≠ []) : Covers below rank lo l hi :=
  h.2.widen hne h.1.le

end Lib.Separators
