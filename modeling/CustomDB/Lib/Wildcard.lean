import Mathlib

/-!
# Patterns with wildcards

A pattern is a list of pieces: any sequence, or one character of a class. `attempt` tries what is behind a wildcard at
every place but the end of the string; it finds what the pattern means, but for two wildcards at the end.
-/

namespace Lib.Wildcard

variable {α : Type}

/-- A piece of a pattern. -/
inductive Piece (α : Type)
  | many
  | one (p : α → Bool)

/-- The strings of a pattern. -/
inductive Matches : List (Piece α) → List α → Prop
  | nil : Matches [] []
  | many (u : List α) {v : List α} {ts : List (Piece α)} : Matches ts v → Matches (.many :: ts) (u ++ v)
  | one {p : α → Bool} {a : α} {s : List α} {ts : List (Piece α)} : p a = true → Matches ts s → Matches (.one p :: ts) (a :: s)

/-- A matcher that tries the remainders of a string one by one, without the empty one. -/
def attempt : List (Piece α) → List α → Bool
  | [], s => s.isEmpty
  | .many :: ts, s => ts.isEmpty || s.tails.dropLast.any (attempt ts)
  | .one _ :: _, [] => false
  | .one p :: ts, a :: s => p a && attempt ts s

variable {ts : List (Piece α)} {s u v : List α} {a : α} {p : α → Bool}

/-! ## What a pattern means, piece by piece -/

theorem matches_nil : Matches [] s ↔ s = [] := by
  constructor
  · rintro ⟨⟩
    rfl
  · rintro rfl
    exact .nil

theorem matches_many : Matches (.many :: ts) s ↔ ∃ u v, s = u ++ v ∧ Matches ts v := by
  constructor
  · rintro (_ | ⟨u, h⟩)
    exact ⟨u, _, rfl, h⟩
  · rintro ⟨u, v, rfl, h⟩
    exact .many u h

theorem matches_one : Matches (.one p :: ts) s ↔ ∃ a v, s = a :: v ∧ p a = true ∧ Matches ts v := by
  constructor
  · rintro (_ | _ | ⟨hp, h⟩)
    exact ⟨_, _, rfl, hp, h⟩
  · rintro ⟨a, v, rfl, hp, h⟩
    exact .one hp h

theorem matches_many_only (s : List α) : Matches [.many] s := by
  have h := Matches.many s .nil
  rwa [List.append_nil] at h

/-- The empty string matches wildcards only. -/
theorem all_many (h : Matches ts []) : ∀ t ∈ ts, t = .many := by
  induction ts with
  | nil => exact fun t ht => absurd ht List.not_mem_nil
  | cons t ts ih =>
    cases t with
    | one p =>
      obtain ⟨a, v, hs, -, -⟩ := matches_one.mp h
      cases hs
    | many =>
      obtain ⟨u, v, hs, hv⟩ := matches_many.mp h
      obtain ⟨-, rfl⟩ := List.append_eq_nil_iff.mp hs.symm
      intro t ht
      rcases List.mem_cons.mp ht with rfl | ht
      · rfl
      · exact ih hv t ht

/-- Behind a wildcard at the end there may be more. -/
theorem Matches.extend (h : Matches ts s) (hlast : [.many] <:+ ts) (u : List α) : Matches ts (s ++ u) := by
  induction h with
  | nil => simp at hlast
  | @many w v ts hv ih =>
    rw [List.append_assoc]
    rcases List.suffix_cons_iff.mp hlast with heq | hlast
    · obtain ⟨-, rfl⟩ := List.cons.inj heq
      exact matches_many_only _
    · exact .many w (ih hlast)
  | @one p a s ts hp hs ih =>
    rcases List.suffix_cons_iff.mp hlast with heq | hlast
    · cases heq
    · exact .one hp (ih hlast)

/-! ## What the matcher finds -/

theorem mem_dropLast_tails : v ∈ s.tails.dropLast ↔ v ≠ [] ∧ v <:+ s := by
  induction s with
  | nil => simp
  | cons a s ih =>
    have hne : s.tails ≠ [] := by cases s <;> simp
    rw [List.tails_cons, List.dropLast_cons_of_ne_nil hne, List.mem_cons, ih, List.suffix_cons_iff]
    constructor
    · rintro (rfl | ⟨hv, h⟩)
      · exact ⟨by simp, .inl rfl⟩
      · exact ⟨hv, .inr h⟩
    · rintro ⟨hv, rfl | h⟩
      · exact .inl rfl
      · exact .inr ⟨hv, h⟩

theorem attempt_many (hts : ts ≠ []) :
    attempt (.many :: ts) s = true ↔ ∃ u v, s = u ++ v ∧ v ≠ [] ∧ attempt ts v = true := by
  have hempty : ts.isEmpty = false := by simpa using hts
  rw [attempt, hempty, Bool.false_or, List.any_eq_true]
  constructor
  · rintro ⟨v, hv, h⟩
    obtain ⟨hne, u, rfl⟩ := mem_dropLast_tails.mp hv
    exact ⟨u, v, rfl, hne, h⟩
  · rintro ⟨u, v, rfl, hne, h⟩
    exact ⟨v, mem_dropLast_tails.mpr ⟨hne, u, rfl⟩, h⟩

/-- Two wildcards are the last pieces. -/
def EndsTwice (ts : List (Piece α)) : Prop := [.many, .many] <:+ ts

theorem endsTwice_one : EndsTwice (.one p :: ts) ↔ EndsTwice ts := by
  constructor
  · intro h
    rcases List.suffix_cons_iff.mp h with heq | h
    · cases heq
    · exact h
  · exact fun h => h.trans (List.suffix_cons ..)

theorem endsTwice_many (hone : ts ≠ [.many]) : EndsTwice (.many :: ts) ↔ EndsTwice ts := by
  constructor
  · intro h
    rcases List.suffix_cons_iff.mp h with heq | h
    · exact absurd (List.cons.inj heq).2.symm hone
    · exact h
  · exact fun h => h.trans (List.suffix_cons ..)

theorem EndsTwice.last (h : EndsTwice ts) : [.many] <:+ ts := (List.suffix_cons ..).trans h

theorem not_endsTwice_single : ¬ EndsTwice [(.many : Piece α)] := by
  intro h
  have hlen := h.length_le
  simp at hlen

/-- Two or more wildcards, and nothing else, end in two. -/
theorem endsTwice_of_all (hts : ts ≠ []) (hone : ts ≠ [.many]) (h : ∀ t ∈ ts, t = .many) : EndsTwice ts := by
  have hrep : ts = List.replicate ts.length .many := List.eq_replicate_of_mem h
  obtain ⟨n, hn⟩ : ∃ n, ts.length = n + 2 := by
    match hlen : ts.length with
    | 0 => exact absurd (List.length_eq_zero_iff.mp hlen) hts
    | 1 =>
      rw [hlen] at hrep
      exact absurd hrep hone
    | n + 2 => exact ⟨n, rfl⟩
  rw [hn] at hrep
  exact ⟨List.replicate n .many, by rw [hrep, List.replicate_add]; rfl⟩

/-- The matcher is right, but that it wants one more character where two wildcards are at the end. -/
theorem attempt_iff (ts : List (Piece α)) (s : List α) :
    attempt ts s = true ↔ Matches ts s ∧ (EndsTwice ts → s ≠ [] ∧ Matches ts s.dropLast) := by
  induction ts generalizing s with
  | nil =>
    have hends : ¬ EndsTwice ([] : List (Piece α)) := fun h => by simpa using h.length_le
    rw [attempt, List.isEmpty_iff, matches_nil]
    exact ⟨fun h => ⟨h, fun h' => absurd h' hends⟩, fun h => h.1⟩
  | cons t ts ih =>
    cases t with
    | one p =>
      cases s with
      | nil =>
        refine ⟨fun h => absurd h (by simp [attempt]), fun h => ?_⟩
        obtain ⟨a, v, hs, -⟩ := matches_one.mp h.1
        cases hs
      | cons a s =>
        have hhead : Matches (.one p :: ts) (a :: s) ↔ p a = true ∧ Matches ts s :=
          ⟨fun h => by
            obtain ⟨a', v, hs, hp, hv⟩ := matches_one.mp h
            cases hs
            exact ⟨hp, hv⟩, fun h => .one h.1 h.2⟩
        rw [attempt, Bool.and_eq_true, ih, hhead, endsTwice_one, and_assoc]
        refine and_congr_right fun hp => and_congr_right fun hs => ?_
        -- the last character is not the first one: the part in front needs that one
        cases s with
        | nil =>
          refine ⟨fun h h2 => absurd rfl (h h2).1, fun h h2 => ?_⟩
          obtain ⟨a', v, heq, -⟩ := matches_one.mp (h h2).2
          cases heq
        | cons b s =>
          have hdrop : (a :: b :: s).dropLast = a :: (b :: s).dropLast := rfl
          rw [hdrop]
          constructor
          · exact fun h h2 => ⟨by simp, .one hp (h h2).2⟩
          · intro h h2
            obtain ⟨a', v, heq, -, hv⟩ := matches_one.mp (h h2).2
            obtain ⟨-, rfl⟩ := List.cons.inj heq
            exact ⟨by simp, hv⟩
    | many =>
      by_cases hts : ts = []
      · subst hts
        refine ⟨fun _ => ⟨matches_many_only s, fun h => absurd h not_endsTwice_single⟩, fun _ => rfl⟩
      · rw [attempt_many hts]
        by_cases hone : ts = [.many]
        · subst hone
          constructor
          · rintro ⟨u, v, rfl, hne, -⟩
            exact ⟨.many u (matches_many_only v), fun _ => ⟨by simp [hne], .many [] (matches_many_only _)⟩⟩
          · rintro ⟨-, h⟩
            exact ⟨[], s, rfl, (h (List.suffix_refl _)).1, rfl⟩
        · rw [endsTwice_many hone]
          constructor
          · rintro ⟨u, v, rfl, hne, hv⟩
            obtain ⟨hm, h⟩ := (ih v).mp hv
            refine ⟨.many u hm, fun h2 => ⟨by simp [hne], ?_⟩⟩
            rw [List.dropLast_append_of_ne_nil hne]
            exact .many u (h h2).2
          · rintro ⟨hm, h⟩
            by_cases h2 : EndsTwice ts
            · -- a character is over: what is behind the wildcard takes the string to its end
              obtain ⟨hs, hlast⟩ := h h2
              obtain ⟨u, w, heq, hw⟩ := matches_many.mp hlast
              have hsplit : s = u ++ (w ++ [s.getLast hs]) := by
                rw [← List.append_assoc, ← heq, List.dropLast_append_getLast hs]
              refine ⟨u, _, hsplit, by simp, (ih _).mpr ⟨hw.extend h2.last _, fun _ => ⟨by simp, ?_⟩⟩⟩
              rw [List.dropLast_concat]
              exact hw
            · obtain ⟨u, v, rfl, hv⟩ := matches_many.mp hm
              refine ⟨u, v, rfl, ?_, (ih v).mpr ⟨hv, fun h' => absurd h' h2⟩⟩
              rintro rfl
              exact h2 (endsTwice_of_all hts hone (all_many hv))

end Lib.Wildcard
