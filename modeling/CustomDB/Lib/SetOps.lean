import Mathlib

/-!
# Set operations on lists

UNION ALL, UNION, INTERSECT and EXCEPT as operations on multisets, a chain of them evaluated from left to right, and the
loops that compute them on lists: appending, sorting and dropping neighbours that are equal, and keeping an element of
the first list, once, that the second list has or does not have.
-/

namespace Lib.SetOps

inductive SetOp where
  | unionAll | union | intersect | except
  deriving DecidableEq, Repr

section Meaning

variable {α : Type} [DecidableEq α]

/-- The result of an operation. All but UNION ALL give an element once. -/
def SetOp.apply (op : SetOp) (s t : Multiset α) : Multiset α :=
  match op with
  | .unionAll => s + t
  | .union => (s + t).dedup
  | .intersect => s.dedup.filter (· ∈ t)
  | .except => s.dedup.filter (· ∉ t)

/-- A chain from left to right. -/
def chain (s : Multiset α) (rest : List (SetOp × Multiset α)) : Multiset α :=
  rest.foldl (fun r e => e.1.apply r e.2) s

/-- An element is in the result of the sets. -/
def SetOp.Holds (op : SetOp) (p q : Prop) : Prop :=
  match op with
  | .unionAll | .union => p ∨ q
  | .intersect => p ∧ q
  | .except => p ∧ ¬ q

variable {op : SetOp} {s t r : Multiset α} {x : α}

theorem mem_apply : x ∈ op.apply s t ↔ op.Holds (x ∈ s) (x ∈ t) := by
  cases op <;> simp [SetOp.apply, SetOp.Holds]

theorem apply_nodup (h : op ≠ .unionAll) : (op.apply s t).Nodup := by
  cases op with
  | unionAll => exact absurd rfl h
  | union => exact Multiset.nodup_dedup _
  | intersect => exact (Multiset.nodup_dedup _).filter _
  | except => exact (Multiset.nodup_dedup _).filter _

/-- Bags are equal; of sets, no element occurs twice and the elements are the same. -/
theorem apply_eq_iff : op.apply s t = r ↔
    if op = .unionAll then r = s + t else r.Nodup ∧ ∀ x, x ∈ r ↔ op.Holds (x ∈ s) (x ∈ t) := by
  split
  · next h =>
    subst h
    exact eq_comm
  · next h =>
    constructor
    · rintro rfl
      exact ⟨apply_nodup h, fun x => mem_apply⟩
    · rintro ⟨hr, hmem⟩
      exact ((apply_nodup h).ext hr).mpr fun x => mem_apply.trans (hmem x).symm

end Meaning

section Loops

variable {α : Type} [DecidableEq α] (le : α → α → Bool)

/-- The elements of `l` that are in `r`, or are not, each once. -/
def pickDistinct (wanted : Bool) (l r : List α) : List α :=
  l.foldl (fun res x => if decide (x ∈ r) = wanted ∧ x ∉ res then res ++ [x] else res) []

/-- The loops, on two lists. -/
def execute (op : SetOp) (l r : List α) : List α :=
  match op with
  | .unionAll => l ++ r
  | .union => ((l ++ r).mergeSort le).destutter (· ≠ ·)
  | .intersect => pickDistinct true l r
  | .except => pickDistinct false l r

variable {le} {l r : List α} {x : α}

theorem pickDistinct_spec (wanted : Bool) (l r : List α) :
    (pickDistinct wanted l r).Nodup ∧ ∀ x, x ∈ pickDistinct wanted l r ↔ x ∈ l ∧ decide (x ∈ r) = wanted := by
  unfold pickDistinct
  induction l using List.reverseRecOn with
  | nil => simp
  | append_singleton l y ih =>
    obtain ⟨hnodup, hmem⟩ := ih
    rw [List.foldl_append, List.foldl_cons, List.foldl_nil]
    split
    · next h =>
      refine ⟨List.nodup_append.mpr ⟨hnodup, List.nodup_singleton _, ?_⟩, fun x => ?_⟩
      · intro a ha b hb hab
        rw [List.mem_singleton.mp hb] at hab
        exact h.2 (hab ▸ ha)
      · rw [List.mem_append, hmem, List.mem_singleton, List.mem_append, List.mem_singleton]
        constructor
        · rintro (⟨hx, hw⟩ | rfl)
          · exact ⟨Or.inl hx, hw⟩
          · exact ⟨Or.inr rfl, h.1⟩
        · rintro ⟨hx | rfl, hw⟩
          · exact Or.inl ⟨hx, hw⟩
          · exact Or.inr rfl
    · next h =>
      refine ⟨hnodup, fun x => ?_⟩
      rw [hmem, List.mem_append, List.mem_singleton]
      refine ⟨fun ⟨hx, hw⟩ => ⟨Or.inl hx, hw⟩, ?_⟩
      rintro ⟨hx | rfl, hw⟩
      · exact ⟨hx, hw⟩
      · by_contra hnot
        exact h ⟨hw, fun hin => hnot ((hmem x).mp hin)⟩

theorem mem_destutter' (l : List α) (a : α) : ∀ x ∈ a :: l, x ∈ l.destutter' (· ≠ ·) a := by
  induction l generalizing a with
  | nil => simp
  | cons b l ih =>
    intro x hx
    by_cases hab : a ≠ b
    · rw [List.destutter'_cons_pos l hab]
      rcases List.mem_cons.mp hx with rfl | hx
      · exact List.mem_cons_self
      · exact List.mem_cons_of_mem _ (ih b x hx)
    · rw [List.destutter'_cons_neg l hab]
      obtain rfl : a = b := not_not.mp hab
      rcases List.mem_cons.mp hx with rfl | hx
      · exact ih x x List.mem_cons_self
      · exact ih a x hx

theorem mem_destutter (l : List α) (x : α) : x ∈ l.destutter (· ≠ ·) ↔ x ∈ l := by
  refine ⟨fun h => (List.destutter_sublist _ l).subset h, fun h => ?_⟩
  cases l with
  | nil => cases h
  | cons a l => exact mem_destutter' l a x h

/-- In a sorted list equal elements are neighbours. -/
theorem nodup_destutter (hanti : ∀ a b, le a b = true → le b a = true → a = b)
    (htrans : ∀ a b c, le a b = true → le b c = true → le a c = true) (hl : l.Pairwise fun a b => le a b = true) :
    (l.destutter (· ≠ ·)).Nodup := by
  have hsorted := hl.sublist (List.destutter_sublist (· ≠ ·) l)
  have hchain : (l.destutter (· ≠ ·)).IsChain fun a b => le a b = true ∧ a ≠ b :=
    List.isChain_iff_getElem.mpr fun i hi => ⟨List.isChain_iff_getElem.mp hsorted.isChain i hi,
      List.isChain_iff_getElem.mp (List.isChain_destutter (· ≠ ·) l) i hi⟩
  have htrans' : IsTrans α fun a b => le a b = true ∧ a ≠ b := ⟨fun a b c hab hbc => by
    refine ⟨htrans a b c hab.1 hbc.1, fun hac => hab.2 ?_⟩
    subst hac
    exact hanti a b hab.1 hbc.1⟩
  exact (List.isChain_iff_pairwise.mp hchain).imp And.right

/-- The loops compute the operation. -/
theorem execute_eq (hanti : ∀ a b, le a b = true → le b a = true → a = b)
    (htrans : ∀ a b c, le a b = true → le b c = true → le a c = true) (htotal : ∀ a b, le a b || le b a)
    (op : SetOp) (l r : List α) : (execute le op l r : Multiset α) = op.apply (l : Multiset α) r := by
  refine (apply_eq_iff.mpr ?_).symm
  cases op with
  | unionAll => simp [execute]
  | union =>
    rw [if_neg (by simp)]
    refine ⟨nodup_destutter hanti htrans (List.pairwise_mergeSort htrans htotal _), fun x => ?_⟩
    rw [execute, Multiset.mem_coe, mem_destutter, List.mem_mergeSort, List.mem_append]
    rfl
  | intersect =>
    rw [if_neg (by simp)]
    obtain ⟨hnodup, hmem⟩ := pickDistinct_spec true l r
    refine ⟨hnodup, fun x => ?_⟩
    rw [execute, Multiset.mem_coe, hmem]
    simp [SetOp.Holds]
  | except =>
    rw [if_neg (by simp)]
    obtain ⟨hnodup, hmem⟩ := pickDistinct_spec false l r
    refine ⟨hnodup, fun x => ?_⟩
    rw [execute, Multiset.mem_coe, hmem]
    simp [SetOp.Holds]

end Loops

/-! ## Printing -/

section Map

variable {α β : Type} [DecidableEq α] [DecidableEq β] {f : α → β} {op : SetOp} {s t : Multiset α}

/-- An operation can be made on what elements are printed as, where those of both sides are printed differently. -/
theorem apply_map (hf : Set.InjOn f {x | x ∈ s ∨ x ∈ t}) : op.apply (s.map f) (t.map f) = (op.apply s t).map f := by
  refine apply_eq_iff.mpr ?_
  split
  · next h => rw [h, SetOp.apply, Multiset.map_add]
  · next h =>
    have hsub : ∀ x, op.Holds (x ∈ s) (x ∈ t) → x ∈ s ∨ x ∈ t := by
      intro x hx
      cases op with
      | unionAll => exact hx
      | union => exact hx
      | intersect => exact Or.inl hx.1
      | except => exact Or.inl hx.1
    refine ⟨Multiset.Nodup.map_on (fun x hx y hy he => hf (hsub x (mem_apply.mp hx)) (hsub y (mem_apply.mp hy)) he)
      (apply_nodup h), fun y => ?_⟩
    have hmap : ∀ x, x ∈ s ∨ x ∈ t → ((f x ∈ s.map f ↔ x ∈ s) ∧ (f x ∈ t.map f ↔ x ∈ t)) := by
      intro x hx
      refine ⟨⟨fun h => ?_, Multiset.mem_map_of_mem f⟩, ⟨fun h => ?_, Multiset.mem_map_of_mem f⟩⟩
      · obtain ⟨z, hz, he⟩ := Multiset.mem_map.mp h
        exact hf (Or.inl hz) hx he ▸ hz
      · obtain ⟨z, hz, he⟩ := Multiset.mem_map.mp h
        exact hf (Or.inr hz) hx he ▸ hz
    rw [Multiset.mem_map]
    constructor
    · rintro ⟨x, hx, rfl⟩
      have hx := mem_apply.mp hx
      have hm := hmap x (hsub x hx)
      rwa [hm.1, hm.2]
    · intro hy
      have hex : ∃ x, (x ∈ s ∨ x ∈ t) ∧ f x = y := by
        have hor : y ∈ s.map f ∨ y ∈ t.map f := by
          cases op with
          | unionAll => exact hy
          | union => exact hy
          | intersect => exact Or.inl hy.1
          | except => exact Or.inl hy.1
        rcases hor with h | h <;> obtain ⟨x, hx, he⟩ := Multiset.mem_map.mp h
        · exact ⟨x, Or.inl hx, he⟩
        · exact ⟨x, Or.inr hx, he⟩
      obtain ⟨x, hx, rfl⟩ := hex
      have hm := hmap x hx
      rw [hm.1, hm.2] at hy
      exact ⟨x, mem_apply.mpr hy, rfl⟩

end Map

end Lib.SetOps
