import Mathlib

/-!
# Compaction in place

A list is compacted in place: an element that is the same as one kept already is cleared, any other is moved behind
the elements kept. Every element has an output, and what should be kept are the elements whose output has not occurred
before. That is what is kept exactly if the test finds an element to be the same just when its output has occurred.
-/

namespace Lib.Compact

variable {α β : Type} [DecidableEq β] (same : α → α → Bool) (zero : α) (out : α → β)

/-- One turn, on the list and the number of elements kept. -/
def turn (s : List α × Nat) (i : Nat) : List α × Nat :=
  let e := s.1.getD i zero
  if (s.1.take s.2).any (same e) then (s.1.set i zero, s.2)
  else (if s.2 ≠ i then (s.1.set s.2 e).set i zero else s.1, s.2 + 1)

/-- The elements kept. -/
def compact (l : List α) : List α :=
  let s := (List.range l.length).foldl (turn same zero) (l, 0)
  s.1.take s.2

/-- The elements kept, in a list of their own. -/
def keep (l : List α) : List α := l.foldl (fun kept e => if kept.any (same e) then kept else kept ++ [e]) []

/-- The elements whose output has not occurred before. -/
def firsts (l : List α) : List α := (l.zipIdx.filter fun e => out e.1 ∉ (l.take e.2).map out).map Prod.fst

/-- An element is found to be the same just when its output has occurred. -/
def Tells (l : List α) : Prop :=
  ∀ pre e post, l = pre ++ e :: post → ((∃ k ∈ firsts out pre, same e k = true) ↔ out e ∈ pre.map out)

variable {same zero out} {l : List α} {e : α}

/-! ## In place and in a list of its own -/

theorem keep_snoc (l : List α) (e : α) :
    keep same (l ++ [e]) = if (keep same l).any (same e) then keep same l else keep same l ++ [e] := by
  simp [keep, List.foldl_append]

/-- After `m` turns the elements kept stand in front, and behind the first `m` nothing has changed. -/
theorem turn_range {m : Nat} (hm : m ≤ l.length) :
    ∃ s, (List.range m).foldl (turn same zero) (l, 0) = s ∧ s.1.length = l.length ∧ s.2 ≤ m ∧
      s.1.take s.2 = keep same (l.take m) ∧ s.1.drop m = l.drop m := by
  induction m with
  | zero => exact ⟨_, rfl, rfl, le_rfl, by simp [keep], rfl⟩
  | succ m ih =>
    obtain ⟨⟨xs, w⟩, hs, hlen, hw, htake, hdrop⟩ := ih (by omega)
    dsimp only at hlen hw htake hdrop
    have hmx : m < xs.length := by omega
    have he : xs.getD m zero = l[m] := by
      have h0 : (xs.drop m)[0]? = (l.drop m)[0]? := by rw [hdrop]
      rw [List.getElem?_drop, List.getElem?_drop, Nat.add_zero, List.getElem?_eq_getElem hm] at h0
      rw [List.getD_eq_getElem?_getD, h0]
      rfl
    have hdrop' : xs.drop (m + 1) = l.drop (m + 1) := by
      rw [← List.drop_drop, hdrop, List.drop_drop]
    have htake' : l.take (m + 1) = l.take m ++ [l[m]] := List.take_succ_eq_append_getElem hm
    refine ⟨_, rfl, ?_⟩
    rw [List.range_succ, List.foldl_append, hs, List.foldl_cons, List.foldl_nil, htake', keep_snoc, ← htake]
    unfold turn
    dsimp only
    rw [he]
    split
    · refine ⟨by simp [hlen], by dsimp only; omega, ?_, ?_⟩
      · exact List.take_set_of_le (by omega)
      · rw [List.drop_set_of_lt (by omega), hdrop']
    · refine ⟨by split <;> simp [hlen], by dsimp only; omega, ?_, ?_⟩
      · split
        · next hne =>
          rw [List.take_set_of_le (by omega), List.take_succ_eq_append_getElem (by simp; omega), List.getElem_set_self,
            List.take_set_of_le le_rfl]
        · next heq =>
          obtain rfl : w = m := by omega
          rw [List.take_succ_eq_append_getElem hmx, ← he, List.getD_eq_getElem _ _ hmx]
      · split
        · rw [List.drop_set_of_lt (by omega), List.drop_set_of_lt (by omega), hdrop']
        · exact hdrop'

theorem compact_eq_keep (l : List α) : compact same zero l = keep same l := by
  obtain ⟨s, hs, -, -, htake, -⟩ := @turn_range α same zero l l.length (le_refl l.length)
  unfold compact
  dsimp only
  rw [hs, htake, List.take_length]

/-! ## First occurrences -/

theorem firsts_snoc (l : List α) (e : α) :
    firsts out (l ++ [e]) = if out e ∈ l.map out then firsts out l else firsts out l ++ [e] := by
  have hfront : l.zipIdx.filter (fun e' => decide (out e'.1 ∉ ((l ++ [e]).take e'.2).map out)) =
      l.zipIdx.filter fun e' => decide (out e'.1 ∉ (l.take e'.2).map out) := by
    refine List.filter_congr fun x hx => ?_
    have hlt : x.2 < l.length := List.snd_lt_of_mem_zipIdx hx
    rw [List.take_append_of_le_length (by omega)]
  unfold firsts
  rw [List.zipIdx_append, List.filter_append, List.map_append, hfront]
  by_cases h : out e ∈ l.map out <;> simp [h]

theorem firsts_sublist (l : List α) : (firsts out l).Sublist l := by
  have h := (List.filter_sublist (p := fun e => decide (out e.1 ∉ (l.take e.2).map out)) (l := l.zipIdx)).map Prod.fst
  rwa [List.zipIdx_map_fst] at h

/-- Every output occurs among the first occurrences, and once. -/
theorem firsts_outputs (l : List α) : ((firsts out l).map out).Nodup ∧ ∀ b, b ∈ (firsts out l).map out ↔ b ∈ l.map out := by
  induction l using List.reverseRecOn with
  | nil => simp [firsts]
  | append_singleton l e ih =>
    obtain ⟨hnodup, hmem⟩ := ih
    rw [firsts_snoc]
    split
    · next h =>
      refine ⟨hnodup, fun b => ?_⟩
      rw [hmem, List.map_append, List.mem_append, List.map_singleton, List.mem_singleton]
      exact ⟨Or.inl, fun hb => hb.elim id fun hb => hb ▸ h⟩
    · next h =>
      rw [List.map_append, List.map_singleton, List.map_append, List.map_singleton]
      refine ⟨List.nodup_append.mpr ⟨hnodup, List.nodup_singleton _, ?_⟩, fun b => ?_⟩
      · intro b hb c hc hbc
        rw [List.mem_singleton.mp hc] at hbc
        exact h ((hmem _).mp (hbc ▸ hb))
      · rw [List.mem_append, List.mem_append, hmem]

/-! ## When the first occurrences are kept -/

theorem keep_subset (l : List α) : ∀ e ∈ keep same l, e ∈ l := by
  induction l using List.reverseRecOn with
  | nil => simp [keep]
  | append_singleton l e ih =>
    intro k hk
    rw [keep_snoc] at hk
    split at hk
    · exact List.mem_append_left _ (ih k hk)
    · rcases List.mem_append.mp hk with hk | hk
      · exact List.mem_append_left _ (ih k hk)
      · exact List.mem_append_right _ hk

/-- What is not kept is the same as something kept. -/
theorem same_of_notMem_keep (h : e ∈ l) (hk : e ∉ keep same l) : (keep same l).any (same e) = true := by
  induction l using List.reverseRecOn with
  | nil => cases h
  | append_singleton l x ih =>
    rw [keep_snoc] at hk ⊢
    split
    · next hx =>
      rw [if_pos hx] at hk
      rcases List.mem_append.mp h with h | h
      · exact ih h hk
      · rwa [List.mem_singleton.mp h]
    · next hx =>
      rw [if_neg hx, List.mem_append, not_or] at hk
      rcases List.mem_append.mp h with h | h
      · rw [List.any_append, ih h hk.1, Bool.true_or]
      · exact absurd h hk.2

theorem tells_snoc : Tells same out (l ++ [e]) ↔
    Tells same out l ∧ ((∃ k ∈ firsts out l, same e k = true) ↔ out e ∈ l.map out) := by
  constructor
  · intro h
    refine ⟨fun pre x post hl => h pre x (post ++ [e]) (by simp [hl]), h l e [] rfl⟩
  · rintro ⟨hl, he⟩ pre x post heq
    rcases List.eq_nil_or_concat post with rfl | ⟨post, y, rfl⟩
    · obtain ⟨rfl, hx⟩ := List.append_inj' heq rfl
      obtain rfl : e = x := by simpa using hx
      exact he
    · rw [List.concat_eq_append, ← List.cons_append, ← List.append_assoc] at heq
      obtain ⟨hl', -⟩ := List.append_inj' heq rfl
      exact hl pre x post hl'

/-- The first occurrences are kept exactly if the test tells them. -/
theorem keep_eq_firsts_iff (l : List α) : keep same l = firsts out l ↔ Tells same out l := by
  induction l using List.reverseRecOn with
  | nil => exact ⟨fun _ pre e post h => by simp at h, fun _ => rfl⟩
  | append_singleton l e ih =>
    rw [keep_snoc, firsts_snoc, tells_snoc]
    by_cases hsame : (keep same l).any (same e) = true <;> by_cases hout : out e ∈ l.map out
    · rw [if_pos hsame, if_pos hout, ih]
      refine ⟨fun h => ⟨h, iff_of_true ?_ hout⟩, And.left⟩
      rwa [← List.any_eq_true, ← ih.mpr h]
    · rw [if_pos hsame, if_neg hout]
      -- an element of the list would have the output
      constructor
      · intro h
        have hmem : e ∈ keep same l := by
          rw [h]
          exact List.mem_append_right _ (List.mem_singleton_self e)
        exact absurd (List.mem_map_of_mem (keep_subset l e hmem)) hout
      rintro ⟨hl, he⟩
      rw [ih.mpr hl] at hsame
      exact absurd (he.mp (List.any_eq_true.mp hsame)) hout
    · rw [if_neg hsame, if_pos hout]
      constructor
      · intro h
        -- the element was met before, and it is not the same as anything kept, so it was kept: it would occur twice
        have hmem : e ∈ keep same l := by
          by_contra hk
          have hfirst : e ∈ firsts out l := by
            rw [← h]
            exact List.mem_append_right _ (List.mem_singleton_self e)
          exact hsame (same_of_notMem_keep ((firsts_sublist l).subset hfirst) hk)
        have hnodup := (@firsts_outputs α β _ out l).1.of_map
        rw [← h] at hnodup
        exact absurd rfl ((List.nodup_append.mp hnodup).2.2 e hmem e (List.mem_singleton_self e))
      · rintro ⟨hl, he⟩
        rw [ih.mpr hl] at hsame
        exact absurd (List.any_eq_true.mpr (he.mpr hout)) hsame
    · rw [if_neg hsame, if_neg hout, List.append_left_inj, ih]
      refine ⟨fun h => ⟨h, iff_of_false ?_ hout⟩, And.left⟩
      rwa [← List.any_eq_true, ← ih.mpr h]

end Lib.Compact
