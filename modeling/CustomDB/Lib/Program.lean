import Mathlib

/-!
# Programs over a machine

A machine has steps, each possible in some states only. A program reads the state and takes steps; it records
the steps it took, and what it leaves is the state they lead to (`Traced`). An invariant of the allowed steps
holds after every program whose steps are all allowed.
-/

namespace Lib.Program

variable {σ ι α β : Type} (step : σ → ι → Option σ)

/-- The state after the steps, where all are possible. -/
def follow (s : σ) (is : List ι) : Option σ := is.foldlM step s

/-- Every step is taken in a state that `ok` allows it in. -/
def Allowed (ok : σ → ι → Prop) (s : σ) (is : List ι) : Prop :=
  ∀ pre i post t, is = pre ++ i :: post → follow step s pre = some t → ok t i

@[simp] theorem follow_nil (s : σ) : follow step s [] = some s := rfl

@[simp] theorem follow_cons (s : σ) (i : ι) (is : List ι) :
    follow step s (i :: is) = (step s i).bind fun t => follow step t is := List.foldlM_cons ..

theorem follow_append (s : σ) (is js : List ι) :
    follow step s (is ++ js) = (follow step s is).bind fun t => follow step t js := List.foldlM_append ..

theorem follow_singleton (s : σ) (i : ι) : follow step s [i] = step s i := by
  rw [follow_cons]
  cases step s i <;> rfl

theorem allowed_cons {ok : σ → ι → Prop} {s t : σ} {i : ι} {is : List ι} (h : Allowed step ok s (i :: is))
    (ht : step s i = some t) : ok s i ∧ Allowed step ok t is := by
  refine ⟨h [] i is s rfl rfl, fun pre j post u he hu => ?_⟩
  refine h (i :: pre) j post u (by rw [he]; rfl) ?_
  rw [follow_cons, ht]
  exact hu

theorem Allowed.nil {ok : σ → ι → Prop} {s : σ} : Allowed step ok s [] := by
  intro pre i post t he
  exact absurd he (by simp)

theorem Allowed.cons {ok : σ → ι → Prop} {s : σ} {i : ι} {is : List ι} (hi : ok s i)
    (his : ∀ t, step s i = some t → Allowed step ok t is) : Allowed step ok s (i :: is) := by
  intro pre j post u he hu
  cases pre with
  | nil =>
    obtain ⟨rfl, -⟩ := List.cons.inj he
    obtain rfl := Option.some.inj hu
    exact hi
  | cons k pre =>
    obtain ⟨rfl, rfl⟩ := List.cons.inj he
    rw [follow_cons] at hu
    obtain ⟨t, ht, hu⟩ := Option.bind_eq_some_iff.mp hu
    exact his t ht pre j post u rfl hu

/-- Allowed steps keep an invariant. -/
theorem follow_invariant {step : σ → ι → Option σ} {ok : σ → ι → Prop} {I : σ → Prop}
    (hstep : ∀ s i t, I s → ok s i → step s i = some t → I t) {is : List ι} :
    ∀ {s t : σ}, I s → Allowed step ok s is → follow step s is = some t → I t := by
  induction is with
  | nil =>
    intro s t hs _ ht
    obtain rfl : s = t := Option.some.inj ht
    exact hs
  | cons i is ih =>
    intro s t hs hok ht
    rw [follow_cons] at ht
    obtain ⟨u, hu, ht⟩ := Option.bind_eq_some_iff.mp ht
    obtain ⟨hi, his⟩ := allowed_cons step hok hu
    exact ih (hstep s i u hs hi hu) his ht

/-! ## Programs -/

/-- The state and the steps taken so far. -/
structure Trace (σ ι : Type) where
  state : σ
  steps : List ι

/-- A program; `none` where it does not come to an end or takes a step that is not possible. -/
abbrev Prog (σ ι α : Type) := StateT (Trace σ ι) Option α

/-- The present state. -/
def current : Prog σ ι σ := fun r => some (r.state, r)

/-- The number of steps taken so far. -/
def elapsed : Prog σ ι Nat := fun r => some (r.steps.length, r)

/-- Take a step. -/
def take (i : ι) : Prog σ ι Unit := fun r => (step r.state i).map fun t => ((), ⟨t, r.steps ++ [i]⟩)

theorem bind_run {m : Prog σ ι α} {f : α → Prog σ ι β} {r r' : Trace σ ι} {a : α} (h : m r = some (a, r')) :
    (m >>= f) r = f a r' := by
  show (m r).bind (fun p => f p.1 p.2) = _
  rw [h]
  rfl

theorem bind_none {m : Prog σ ι α} {f : α → Prog σ ι β} {r : Trace σ ι} (h : m r = none) : (m >>= f) r = none := by
  show (m r).bind (fun p => f p.1 p.2) = _
  rw [h]
  rfl

/-- A loop none of whose turns does anything. -/
theorem forM_idle {γ : Type} {l : List γ} {f : γ → Prog σ ι PUnit} {r : Trace σ ι} (h : ∀ x ∈ l, f x r = some (⟨⟩, r)) :
    l.forM f r = some (⟨⟩, r) := by
  induction l with
  | nil => rfl
  | cons x l ih =>
    show (f x >>= fun _ => l.forM f) r = _
    rw [bind_run (h x List.mem_cons_self)]
    exact ih fun y hy => h y (List.mem_cons_of_mem _ hy)

/-- What a loop returns that stops at the first error. -/
theorem forall₂_of_mapM {γ ε : Type} {f : γ → Except ε α} {l : List γ} {as : List α} (h : l.mapM f = .ok as) :
    List.Forall₂ (fun x a => f x = .ok a) l as := by
  induction l generalizing as with
  | nil =>
    rw [List.mapM_nil] at h
    obtain rfl := Except.ok.inj h
    exact .nil
  | cons x l ih =>
    rw [List.mapM_cons] at h
    cases hx : f x with
    | error e =>
      rw [hx] at h
      cases h
    | ok a =>
      cases hl : l.mapM f with
      | error e =>
        rw [hx, hl] at h
        cases h
      | ok bs =>
        rw [hx, hl] at h
        obtain rfl := Except.ok.inj h
        exact .cons hx (ih hl)

/-- A program that changes the state by steps only, and records them. -/
def Traced (m : Prog σ ι α) : Prop :=
  ∀ r a r', m r = some (a, r') → ∃ is, r'.steps = r.steps ++ is ∧ follow step r.state is = some r'.state

variable {step}

theorem traced_pure (a : α) : Traced step (pure a : Prog σ ι α) := by
  intro r b r' h
  obtain ⟨-, rfl⟩ : a = b ∧ r = r' := by simpa [pure, StateT.pure] using h
  exact ⟨[], by simp, rfl⟩

theorem traced_bind {m : Prog σ ι α} {f : α → Prog σ ι β} (hm : Traced step m) (hf : ∀ a, Traced step (f a)) :
    Traced step (m >>= f) := by
  intro r b r'' h
  obtain ⟨⟨a, r'⟩, ha, hb⟩ := Option.bind_eq_some_iff.mp h
  obtain ⟨is, his, hs⟩ := hm r a r' ha
  obtain ⟨js, hjs, ht⟩ := hf a r' b r'' hb
  refine ⟨is ++ js, by rw [hjs, his, List.append_assoc], ?_⟩
  rw [follow_append, hs]
  exact ht

theorem traced_current : Traced step (current : Prog σ ι σ) := by
  intro r a r' h
  obtain ⟨-, rfl⟩ : r.state = a ∧ r = r' := by simpa [current] using h
  exact ⟨[], by simp, rfl⟩

theorem traced_elapsed : Traced step (elapsed : Prog σ ι Nat) := by
  intro r a r' h
  obtain ⟨-, rfl⟩ : r.steps.length = a ∧ r = r' := by simpa [elapsed] using h
  exact ⟨[], by simp, rfl⟩

theorem traced_take (i : ι) : Traced step (take step i) := by
  intro r a r' h
  obtain ⟨t, ht, h⟩ := Option.map_eq_some_iff.mp h
  obtain rfl : (⟨t, r.steps ++ [i]⟩ : Trace σ ι) = r' := (Prod.mk.inj h).2
  exact ⟨[i], rfl, by rw [follow_singleton]; exact ht⟩

theorem traced_failure : Traced step (failure : Prog σ ι α) := by
  intro r a r' h
  cases h

theorem traced_forM {γ : Type} (l : List γ) {f : γ → Prog σ ι PUnit} (hf : ∀ x, Traced step (f x)) :
    Traced step (l.forM f) := by
  induction l with
  | nil => exact traced_pure _
  | cons x l ih => exact traced_bind (hf x) fun _ => ih

/-- An invariant of the allowed steps holds after a program whose steps are all allowed. -/
theorem Traced.invariant {m : Prog σ ι α} (hm : Traced step m) {ok : σ → ι → Prop} {I : σ → Prop}
    (hstep : ∀ s i t, I s → ok s i → step s i = some t → I t) {s : σ} {a : α} {r : Trace σ ι} (hs : I s)
    (hrun : m ⟨s, []⟩ = some (a, r)) (hok : Allowed step ok s r.steps) : I r.state := by
  obtain ⟨is, his, hr⟩ := hm _ _ _ hrun
  rw [List.nil_append] at his
  rw [his] at hok
  exact follow_invariant hstep hs hok hr

end Lib.Program
