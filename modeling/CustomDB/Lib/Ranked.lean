import Mathlib

/-!
# Lists in the order of a rank

Insertion in front of the first element that is not below, and the run of equal elements behind it.
-/

namespace Lib.Ranked

variable {α K : Type} [LinearOrder K] {rank : α → K} {k : K} {l : List α} {a x : α} {below same : α → Bool}

/-- The ranks do not fall. -/
def Sorted (rank : α → K) (l : List α) : Prop := l.Pairwise fun a b => rank a ≤ rank b

theorem insertIdx_takeWhile (below : α → Bool) (l : List α) (a : α) :
    l.insertIdx (l.takeWhile below).length a = l.takeWhile below ++ a :: l.dropWhile below := by
  induction l with
  | nil => rfl
  | cons b l ih =>
    cases hb : below b with
    | true => simp [hb, ih]
    | false => simp [hb]

theorem drop_takeWhile (below : α → Bool) (l : List α) : l.drop (l.takeWhile below).length = l.dropWhile below := by
  induction l with
  | nil => rfl
  | cons b l ih =>
    cases hb : below b with
    | true => simp [hb, ih]
    | false => simp [hb]

/-- What a search for `k` leaves behind is not below it. -/
theorem Sorted.le_of_dropWhile (h : Sorted rank l) (hbelow : ∀ b ∈ l, below b = true ↔ rank b < k) :
    ∀ b ∈ l.dropWhile below, k ≤ rank b := by
  induction l with
  | nil => exact fun b hb => absurd hb List.not_mem_nil
  | cons c l ih =>
    have hl : ∀ b ∈ l, below b = true ↔ rank b < k := fun b hb => hbelow b (List.mem_cons_of_mem _ hb)
    have hc := hbelow c (List.mem_cons_self ..)
    cases hbc : below c with
    | true =>
      rw [List.dropWhile_cons_of_pos hbc]
      exact ih (List.Pairwise.of_cons h) hl
    | false =>
      have hkc : k ≤ rank c := not_lt.mp fun hlt => by
        rw [hc.mpr hlt] at hbc
        cases hbc
      rw [List.dropWhile_cons_of_neg (by simp [hbc])]
      intro b hb
      rcases List.mem_cons.mp hb with rfl | hb
      · exact hkc
      · exact le_trans hkc (List.rel_of_pairwise_cons h hb)

/-- An element of the rank that was looked for keeps the order. -/
theorem Sorted.insert (h : Sorted rank l) (hbelow : ∀ b ∈ l, below b = true ↔ rank b < k) (ha : rank a = k) :
    Sorted rank (l.insertIdx (l.takeWhile below).length a) := by
  have hle := h.le_of_dropWhile hbelow
  have hsplit : (l.takeWhile below ++ l.dropWhile below).Pairwise fun a b => rank a ≤ rank b := by
    rw [List.takeWhile_append_dropWhile]
    exact h
  obtain ⟨htake, hdrop, hcross⟩ := List.pairwise_append.mp hsplit
  rw [insertIdx_takeWhile]
  refine List.pairwise_append.mpr ⟨htake, List.pairwise_cons.mpr ⟨fun b hb => ?_, hdrop⟩, fun c hc b hb => ?_⟩
  · rw [ha]
    exact hle b hb
  · rcases List.mem_cons.mp hb with rfl | hb
    · rw [ha]
      exact le_of_lt ((hbelow c (List.takeWhile_subset _ hc)).mp (List.mem_takeWhile_imp hc))
    · exact hcross c hc b hb

theorem mem_takeWhile_of_le (h : Sorted rank l) (hle : ∀ b ∈ l, k ≤ rank b) (hsame : ∀ b ∈ l, rank b = k → same b = true)
    (hx : x ∈ l) (hk : rank x = k) : x ∈ l.takeWhile same := by
  induction l with
  | nil => exact absurd hx List.not_mem_nil
  | cons c l ih =>
    have hck : rank c = k := by
      refine le_antisymm ?_ (hle c (List.mem_cons_self ..))
      rcases List.mem_cons.mp hx with rfl | hx
      · exact hk.le
      · exact le_trans (List.rel_of_pairwise_cons h hx) hk.le
    rw [List.takeWhile_cons_of_pos (hsame c (List.mem_cons_self ..) hck)]
    rcases List.mem_cons.mp hx with rfl | hx
    · exact List.mem_cons_self ..
    · exact List.mem_cons_of_mem _ (ih (List.Pairwise.of_cons h) (fun b hb => hle b (List.mem_cons_of_mem _ hb))
        (fun b hb => hsame b (List.mem_cons_of_mem _ hb)) hx)

/-- All elements of the rank looked for are in the run behind the search. -/
theorem Sorted.mem_run (h : Sorted rank l) (hbelow : ∀ b ∈ l, below b = true ↔ rank b < k)
    (hsame : ∀ b ∈ l, rank b = k → same b = true) (hx : x ∈ l) (hk : rank x = k) :
    x ∈ (l.drop (l.takeWhile below).length).takeWhile same := by
  have hsub : (l.dropWhile below).Sublist l := (List.dropWhile_suffix below).sublist
  rw [drop_takeWhile]
  refine mem_takeWhile_of_le (List.Pairwise.sublist hsub h) (h.le_of_dropWhile hbelow)
    (fun b hb => hsame b (hsub.subset hb)) ?_ hk
  have hmem : x ∈ l.takeWhile below ++ l.dropWhile below := by
    rw [List.takeWhile_append_dropWhile]
    exact hx
  rcases List.mem_append.mp hmem with htake | hdrop
  · exact absurd ((hbelow x hx).mp (List.mem_takeWhile_imp htake)) (by rw [hk]; exact lt_irrefl k)
  · exact hdrop

/-- Where nothing is below, the elements of the rank looked for come first. -/
theorem Sorted.takeWhile_eq_filter (h : Sorted rank l) (hle : ∀ b ∈ l, k ≤ rank b)
    (hsame : ∀ b ∈ l, same b = true ↔ rank b = k) : l.takeWhile same = l.filter same := by
  induction l with
  | nil => rfl
  | cons c l ih =>
    have hl := fun b hb => hsame b (List.mem_cons_of_mem c hb)
    cases hc : same c with
    | true =>
      rw [List.takeWhile_cons_of_pos hc, List.filter_cons_of_pos hc]
      congr 1
      exact ih (List.Pairwise.of_cons h) (fun b hb => hle b (List.mem_cons_of_mem c hb)) hl
    | false =>
      have hne : ¬same c = true := by simp [hc]
      have hlt : k < rank c := by
        apply lt_of_le_of_ne (hle c List.mem_cons_self)
        intro he
        exact hne ((hsame c List.mem_cons_self).mpr he.symm)
      rw [List.takeWhile_cons_of_neg hne, List.filter_cons_of_neg hne]
      symm
      apply List.filter_eq_nil_iff.mpr
      intro b hb hsb
      have hcb := List.rel_of_pairwise_cons h hb
      rw [(hl b hb).mp hsb] at hcb
      exact absurd hlt (not_lt.mpr hcb)

/-- The run behind the search is all elements of the rank looked for. -/
theorem Sorted.run_eq_filter (h : Sorted rank l) (hbelow : ∀ b ∈ l, below b = true ↔ rank b < k)
    (hsame : ∀ b ∈ l, same b = true ↔ rank b = k) : (l.dropWhile below).takeWhile same = l.filter same := by
  have hsub : (l.dropWhile below).Sublist l := (List.dropWhile_suffix below).sublist
  have hnone : (l.takeWhile below).filter same = [] := by
    apply List.filter_eq_nil_iff.mpr
    intro b hb hsb
    have hmem := List.takeWhile_subset _ hb
    have hlt := (hbelow b hmem).mp (List.mem_takeWhile_imp hb)
    rw [(hsame b hmem).mp hsb] at hlt
    exact lt_irrefl k hlt
  have hall : l.filter same = (l.dropWhile below).filter same := by
    conv_lhs => rw [← List.takeWhile_append_dropWhile (p := below) (l := l)]
    rw [List.filter_append, hnone, List.nil_append]
  rw [hall]
  apply Sorted.takeWhile_eq_filter (List.Pairwise.sublist hsub h) (h.le_of_dropWhile hbelow)
  intro b hb
  exact hsame b (hsub.subset hb)

/-- A symmetric relation after an insertion. -/
theorem pairwise_insertIdx {R : α → α → Prop} (hsymm : ∀ a b, R a b → R b a) (n : Nat) (h : l.Pairwise R)
    (ha : ∀ b ∈ l, R a b) : (l.insertIdx n a).Pairwise R := by
  by_cases hn : n ≤ l.length
  · exact ((List.perm_insertIdx a l hn).pairwise_iff fun hab => hsymm _ _ hab).mpr (List.pairwise_cons.mpr ⟨ha, h⟩)
  · rw [List.insertIdx_of_length_lt (by omega)]
    exact h

end Lib.Ranked
