import Mathlib.Data.List.Basic

/-!
# Runs of a deterministic machine

A machine steps through a list of commands. `Meets` says that every command of a run is issued in a
state it is allowed in; `Meets.invariant` carries an invariant, which may speak of the commands issued
so far, through such a run.
-/

namespace Lib.Run

variable {σ α : Type} (step : σ → α → σ)

/-- The state after the commands `as`. -/
def run (s : σ) (as : List α) : σ := as.foldl step s

/-- Every command of the run is issued where `ok` allows it. -/
def Meets (ok : σ → α → Prop) (s : σ) (as : List α) : Prop :=
  ∀ pre a post, as = pre ++ a :: post → ok (run step s pre) a

@[simp] theorem run_nil (s : σ) : run step s [] = s := rfl

@[simp] theorem run_cons (s : σ) (a : α) (as : List α) : run step s (a :: as) = run step (step s a) as := rfl

theorem run_append (s : σ) (as bs : List α) : run step s (as ++ bs) = run step (run step s as) bs :=
  List.foldl_append ..

theorem run_concat (s : σ) (as : List α) (a : α) : run step s (as ++ [a]) = step (run step s as) a := by
  rw [run_append]
  rfl

@[simp] theorem meets_nil (ok : σ → α → Prop) (s : σ) : Meets step ok s [] :=
  fun pre a post h => absurd h (by simp)

theorem meets_cons {ok : σ → α → Prop} {s : σ} {a : α} {as : List α} :
    Meets step ok s (a :: as) ↔ ok s a ∧ Meets step ok (step s a) as := by
  constructor
  · intro h
    refine ⟨h [] a as rfl, fun pre b post he => ?_⟩
    have := h (a :: pre) b post (by rw [he]; rfl)
    exact this
  · rintro ⟨h, hs⟩ pre b post he
    cases pre with
    | nil =>
      obtain ⟨rfl, -⟩ := List.cons.inj he
      exact h
    | cons c pre =>
      obtain ⟨rfl, hrest⟩ := List.cons.inj he
      exact hs pre b post hrest

/-- An invariant of allowed steps holds after the run. -/
theorem Meets.invariant {step : σ → α → σ} {ok : σ → α → Prop} {s : σ} {as : List α} (h : Meets step ok s as)
    (I : List α → σ → Prop) (h0 : I [] s)
    (hstep : ∀ pre a post, as = pre ++ a :: post → I pre (run step s pre) → ok (run step s pre) a →
      I (pre ++ [a]) (step (run step s pre) a)) : I as (run step s as) := by
  have key : ∀ post pre, as = pre ++ post → I pre (run step s pre) → I as (run step s as) := by
    intro post
    induction post with
    | nil =>
      intro pre he hI
      rw [he, List.append_nil]
      exact hI
    | cons a post ih =>
      intro pre he hI
      refine ih (pre ++ [a]) (by rw [he]; simp) ?_
      rw [run_concat]
      exact hstep pre a post he hI (h pre a post he)
  exact key as [] rfl h0

/-- Two conditions that agree wherever an invariant holds, and that keep it, are met by the same runs. -/
theorem meets_iff {step : σ → α → σ} {ok ok' : σ → α → Prop} (I : σ → Prop) (hiff : ∀ s a, I s → (ok s a ↔ ok' s a))
    (hstep : ∀ s a, I s → ok s a → I (step s a)) {s : σ} (h0 : I s) (as : List α) :
    Meets step ok s as ↔ Meets step ok' s as := by
  induction as generalizing s with
  | nil => exact ⟨fun _ => meets_nil step ok' s, fun _ => meets_nil step ok s⟩
  | cons a as ih =>
    rw [meets_cons, meets_cons, hiff s a h0]
    exact and_congr_right fun hok => ih (hstep s a h0 ((hiff s a h0).mpr hok))

theorem meets_append {ok : σ → α → Prop} {s : σ} {as bs : List α} :
    Meets step ok s (as ++ bs) ↔ Meets step ok s as ∧ Meets step ok (run step s as) bs := by
  induction as generalizing s with
  | nil => exact ⟨fun h => ⟨meets_nil step ok s, h⟩, fun h => h.2⟩
  | cons a as ih => rw [List.cons_append, meets_cons, meets_cons, ih, run_cons, and_assoc]

/-- A run cut short. -/
theorem Meets.take {step : σ → α → σ} {ok : σ → α → Prop} {s : σ} {as : List α} (h : Meets step ok s as) (k : Nat) :
    Meets step ok s (as.take k) := by
  rw [← List.take_append_drop k as] at h
  exact ((meets_append step).mp h).1

end Lib.Run
