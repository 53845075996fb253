import Mathlib

/-!
# Iterations

The values that a step makes one of another, up to the first at which the iteration stops, and a loop that computes
them but gives up after a number of turns.
-/

namespace Lib.Iteration

variable {α β : Type} {go : α → Prop} {step : α → α → Prop} {x y : α} {l l' : List α}

/-- The iteration from `x` on. -/
inductive Orbit (go : α → Prop) (step : α → α → Prop) : α → List α → Prop
  | last {x : α} (h : ¬ go x) : Orbit go step x [x]
  | more {x y : α} {l : List α} (h : go x) (hs : step x y) (hl : Orbit go step y l) : Orbit go step x (x :: l)

/-- At most `n` turns. -/
def bounded (go : β → Bool) (next : β → β) : ℕ → β → List β
  | 0, x => [x]
  | n + 1, x => if go x then x :: bounded go next n (next x) else [x]

theorem bounded_head (go : β → Bool) (next : β → β) (n : ℕ) (x : β) : ∃ l, bounded go next n x = x :: l := by
  cases n with
  | zero => exact ⟨[], rfl⟩
  | succ n =>
    rw [bounded]
    split
    · exact ⟨_, rfl⟩
    · exact ⟨[], rfl⟩

/-- A step that is a function leaves no choice. -/
theorem Orbit.unique (hfun : ∀ x y z, step x y → step x z → y = z) (h : Orbit go step x l) (h' : Orbit go step x l') :
    l = l' := by
  induction h generalizing l' with
  | last hstop =>
    cases h' with
    | last => rfl
    | more hgo => exact absurd hgo hstop
  | more hgo hs _ ih =>
    cases h' with
    | last hstop => exact absurd hgo hstop
    | more _ hs' hl' =>
      obtain rfl := hfun _ _ _ hs hs'
      rw [ih hl']

/-- From each of its values on, the iteration is its own end. -/
theorem Orbit.suffix (h : Orbit go step x l) (hy : y ∈ l) : ∃ m, m <:+ l ∧ Orbit go step y m := by
  induction h with
  | last hstop =>
    obtain rfl := List.mem_singleton.mp hy
    exact ⟨_, List.suffix_rfl, .last hstop⟩
  | more hgo hs hl ih =>
    rcases List.mem_cons.mp hy with rfl | hy
    · exact ⟨_, List.suffix_rfl, .more hgo hs hl⟩
    · obtain ⟨m, hm, ho⟩ := ih hy
      exact ⟨m, hm.trans (List.suffix_cons ..), ho⟩

/-- An iteration that comes to an end does not come to a value twice. -/
theorem Orbit.nodup (hfun : ∀ x y z, step x y → step x z → y = z) (h : Orbit go step x l) : l.Nodup := by
  induction h with
  | last => exact List.nodup_singleton _
  | @more x y l hgo hs hl ih =>
    refine List.nodup_cons.mpr ⟨fun hx => ?_, ih⟩
    obtain ⟨m, hm, ho⟩ := hl.suffix hx
    have hlen := hm.length_le
    rw [ho.unique hfun (.more hgo hs hl), List.length_cons] at hlen
    omega

/-- The head of an iteration is where it starts. -/
theorem Orbit.eq_cons (h : Orbit go step x l) : ∃ m, l = x :: m := by
  cases h with
  | last => exact ⟨[], rfl⟩
  | more => exact ⟨_, rfl⟩

/-- A loop whose turns are steps of the iteration has its first values. -/
theorem Orbit.bounded_eq {f : α → β} {go' : β → Bool} {next : β → β} (h : Orbit go step x l) (hnodup : l.Nodup)
    (hgo : ∀ a ∈ l, go' (f a) = true ↔ go a)
    (hnext : ∀ a ∈ l, ∀ b ∈ l, a ≠ b → step a b → next (f a) = f b) (n : ℕ) :
    bounded go' next n (f x) = (l.take (n + 1)).map f := by
  induction h generalizing n with
  | @last x hstop =>
    have hfalse : ¬ go' (f x) = true := fun ht => hstop ((hgo x List.mem_cons_self).mp ht)
    cases n with
    | zero => rfl
    | succ n =>
      rw [bounded, if_neg hfalse]
      rfl
  | @more x y l hx hs hl ih =>
    cases n with
    | zero => rfl
    | succ n =>
      obtain ⟨hnot, hnodup⟩ := List.nodup_cons.mp hnodup
      have hy : y ∈ l := by
        obtain ⟨m, rfl⟩ := hl.eq_cons
        exact List.mem_cons_self
      have hne : x ≠ y := fun he => hnot (he ▸ hy)
      rw [bounded, if_pos ((hgo x List.mem_cons_self).mpr hx),
        hnext x List.mem_cons_self y (List.mem_cons_of_mem _ hy) hne hs,
        ih hnodup (fun a ha => hgo a (List.mem_cons_of_mem _ ha))
          (fun a ha b hb => hnext a (List.mem_cons_of_mem _ ha) b (List.mem_cons_of_mem _ hb))]
      rfl

end Lib.Iteration
