import Mathlib

/-!
# Numbers and ranks

The elements `0, …, n - 1` fall into classes, and in each class some are before others. A numbering counts every class
from 1 on without gaps and follows the order, a rank is one more than the number of elements before, a dense rank one
more than the number of their keys. Counting only what comes earlier in the list, in the same class and, for both
ranks, before, gives all three exactly if the list is ordered already and no two elements before a third have one key.
-/

namespace Lib.Ranking

open Finset

variable {κ : Type} [DecidableEq κ] (n : ℕ) (same same' before before' : ℕ → ℕ → Prop) (key : ℕ → κ)
  [DecidableRel same] [DecidableRel same'] [DecidableRel before] [DecidableRel before']

/-- The class of an element. -/
def peers (i : ℕ) : Finset ℕ := {j ∈ range n | same j i}

/-- The elements of the class that are before an element. -/
def ahead (i : ℕ) : Finset ℕ := {j ∈ peers n same i | before j i}

/-- Each class is numbered from 1 on, along the order. -/
structure Numbers (f : ℕ → ℕ) : Prop where
  onto : ∀ i < n, Set.BijOn f (peers n same i) (Icc 1 (peers n same i).card)
  along : ∀ i < n, ∀ j ∈ ahead n same before i, f j < f i

/-- One more than the number of elements before. -/
def Ranks (f : ℕ → ℕ) : Prop := ∀ i < n, f i = 1 + (ahead n same before i).card

/-- One more than the number of keys before. -/
def DenseRanks (f : ℕ → ℕ) : Prop := ∀ i < n, f i = 1 + ((ahead n same before i).image key).card

/-- The number of earlier elements of the class and one. -/
def position (i : ℕ) : ℕ := 1 + Nat.count (fun j => same' j i) i

/-- The number of earlier elements of the class that are before, and one. -/
def placed (i : ℕ) : ℕ := 1 + Nat.count (fun j => same' j i ∧ before' j i) i

/-- The list is ordered in each class, the comparison that is made sees it, and what is before one element has keys of
its own. -/
structure Arranged : Prop where
  apart : ∀ i < n, ∀ j < n, same' i j → same i j
  sorted : ∀ j < n, ∀ i < j, same i j → ¬ before j i
  seen : ∀ j < n, ∀ i < j, same i j → before i j → before' i j
  distinct : ∀ i < n, Set.InjOn key (ahead n same before i)

variable {n same same' before before' key} {i j : ℕ}

@[simp] theorem mem_peers : j ∈ peers n same i ↔ j < n ∧ same j i := by simp [peers]

@[simp] theorem mem_ahead : j ∈ ahead n same before i ↔ j < n ∧ same j i ∧ before j i := by simp [ahead, and_assoc]

omit [DecidableEq κ] [DecidableRel same'] [DecidableRel before'] in
/-- Only the elements of the list matter. -/
theorem Numbers.congr {f g : ℕ → ℕ} (h : ∀ i < n, f i = g i) (hf : Numbers n same before f) : Numbers n same before g where
  onto i hi := (hf.onto i hi).congr fun j hj => h j (mem_peers.mp hj).1
  along i hi j hj := by
    rw [← h i hi, ← h j (mem_ahead.mp hj).1]
    exact hf.along i hi j hj

theorem position_pos : 1 ≤ position same' i := Nat.le_add_right 1 _

section Position

variable (hs : Equivalence same)

include hs

theorem count_class (h : same i j) (m : ℕ) : Nat.count (fun k => same k i) m = Nat.count (fun k => same k j) m := by
  have hiff : ∀ k, same k i ↔ same k j := fun k => ⟨fun hk => hs.trans hk h, fun hk => hs.trans hk (hs.symm h)⟩
  simp [hiff]

theorem position_lt (h : same i j) (hij : i < j) : position same i < position same j := by
  unfold position
  rw [count_class hs h]
  have := Nat.count_strict_mono (p := fun k => same k j) h hij
  omega

theorem position_le_card (hi : i < n) : position same i ≤ (peers n same i).card := by
  have hlt : Nat.count (fun k => same k i) i < Nat.count (fun k => same k i) n := Nat.count_strict_mono (hs.refl i) hi
  rw [Nat.count_eq_card_filter_range _ n] at hlt
  unfold position peers
  omega

theorem position_injOn : Set.InjOn (position same) (peers n same i) := by
  intro j hj k hk h
  obtain ⟨-, hj⟩ := mem_peers.mp hj
  obtain ⟨-, hk⟩ := mem_peers.mp hk
  rcases lt_trichotomy j k with hjk | hjk | hjk
  · exact absurd h (position_lt hs (hs.trans hj (hs.symm hk)) hjk).ne
  · exact hjk
  · exact absurd h.symm (position_lt hs (hs.trans hk (hs.symm hj)) hjk).ne

theorem peers_eq (h : same i j) : peers n same i = peers n same j := by
  ext k
  rw [mem_peers, mem_peers]
  exact and_congr_right fun _ => ⟨fun hk => hs.trans hk h, fun hk => hs.trans hk (hs.symm h)⟩

/-- The positions in a class are the numbers from 1 on. -/
theorem position_bijOn : Set.BijOn (position same) (peers n same i) (Icc 1 (peers n same i).card) := by
  have hmaps : Set.MapsTo (position same) (peers n same i) (Icc 1 (peers n same i).card) := by
    intro j hj
    obtain ⟨hjn, hj⟩ := mem_peers.mp hj
    rw [mem_coe, mem_Icc, ← peers_eq hs hj]
    exact ⟨position_pos, position_le_card hs hjn⟩
  refine ⟨hmaps, position_injOn hs, surjOn_of_injOn_of_card_le _ hmaps (position_injOn hs) ?_⟩
  simp

end Position

/-! ## From the arrangement to the ranks -/

section Arranged

variable (hs : Equivalence same) (hs' : Equivalence same') (hsame : ∀ i j, same i j → same' i j)
  (hseen : ∀ i j, before' i j → before i j ∨ before j i)

omit [DecidableEq κ] [DecidableRel same'] [DecidableRel before'] in
include hsame in
theorem Arranged.iff_same (h : Arranged n same same' before before' key) (hi : i < n) (hj : j < n) :
    same' j i ↔ same j i :=
  ⟨h.apart _ hj _ hi, hsame _ _⟩

theorem count_congr_lt {p q : ℕ → Prop} [DecidablePred p] [DecidablePred q] {m : ℕ} (h : ∀ k < m, p k ↔ q k) :
    Nat.count p m = Nat.count q m :=
  le_antisymm (Nat.count_mono_left fun k hk => (h k hk).mp) (Nat.count_mono_left fun k hk => (h k hk).mpr)

omit [DecidableEq κ] [DecidableRel before'] in
include hsame in
theorem Arranged.position_eq (h : Arranged n same same' before before' key) (hi : i < n) :
    position same' i = position same i :=
  congrArg (1 + ·) (count_congr_lt fun _ hk => h.iff_same hsame hi (hk.trans hi))

/-- In an ordered list what is before comes earlier. -/
theorem ahead_eq (hs : Equivalence same) (hirr : ∀ i, ¬ before i i)
    (hsorted : ∀ j < n, ∀ i < j, same i j → ¬ before j i) (hi : i < n) :
    ahead n same before i = {j ∈ range i | same j i ∧ before j i} := by
  ext j
  rw [mem_ahead, mem_filter, mem_range]
  constructor
  · rintro ⟨hj, hsj, hb⟩
    refine ⟨?_, hsj, hb⟩
    rcases lt_trichotomy j i with h | rfl | h
    · exact h
    · exact absurd hb (hirr _)
    · exact absurd hb (hsorted j hj i h (hs.symm hsj))
  · rintro ⟨hj, h⟩
    exact ⟨hj.trans hi, h⟩

omit [DecidableEq κ] in
include hs hsame hseen in
theorem Arranged.placed_eq (h : Arranged n same same' before before' key) (hirr : ∀ i, ¬ before i i) (hi : i < n) :
    placed same' before' i = 1 + (ahead n same before i).card := by
  rw [ahead_eq hs hirr h.sorted hi, ← Nat.count_eq_card_filter_range]
  refine congrArg (1 + ·) (count_congr_lt fun j hj => ?_)
  rw [h.iff_same hsame hi (hj.trans hi)]
  refine and_congr_right fun hsj => ⟨fun hb => ?_, h.seen i hi j hj hsj⟩
  exact (hseen j i hb).resolve_right (h.sorted i hi j hj hsj)

/-! ## From the ranks to the arrangement -/

include hs hs' hsame in
/-- Two classes taken for one give a number too large. -/
theorem Numbers.apart (h : Numbers n same before (position same')) : ∀ i < n, ∀ j < n, same' i j → same i j := by
  have hlt : ∀ j < n, ∀ i < j, same' i j → same i j := by
    intro j hj i hij hs'ij
    by_contra hne
    obtain ⟨last, hlast, hmax⟩ := exists_max_image (peers n same j) id ⟨j, mem_peers.mpr ⟨hj, hs.refl j⟩⟩
    obtain ⟨hln, hlj⟩ := mem_peers.mp hlast
    have hjl : j ≤ last := hmax j (mem_peers.mpr ⟨hj, hs.refl j⟩)
    have hle : position same' last ≤ (peers n same j).card := (mem_Icc.mp ((h.onto j hj).mapsTo hlast)).2
    -- all of the class but the last, and `i`, are counted
    have hsub : insert i ((peers n same j).erase last) ⊆ {k ∈ range last | same' k last} := by
      intro k hk
      rw [mem_filter, mem_range]
      rcases mem_insert.mp hk with rfl | hk
      · exact ⟨hij.trans_le hjl, hs'.trans hs'ij (hsame _ _ (hs.symm hlj))⟩
      · obtain ⟨hkl, hk⟩ := mem_erase.mp hk
        obtain ⟨-, hkj⟩ := mem_peers.mp hk
        exact ⟨lt_of_le_of_ne (hmax k hk) hkl, hsame _ _ (hs.trans hkj (hs.symm hlj))⟩
    have hnot : i ∉ (peers n same j).erase last := fun hi => hne (mem_peers.mp (mem_of_mem_erase hi)).2
    have hcard := card_le_card hsub
    rw [card_insert_of_notMem hnot, card_erase_of_mem hlast, ← Nat.count_eq_card_filter_range] at hcard
    have hpos : 0 < (peers n same j).card := card_pos.mpr ⟨last, hlast⟩
    unfold position at hle
    omega
  intro i hi j hj hij
  rcases lt_trichotomy i j with h | rfl | h
  · exact hlt j hj i h hij
  · exact hs.refl i
  · exact hs.symm (hlt i hi j h (hs'.symm hij))

include hs hs' hsame in
theorem Numbers.sorted (h : Numbers n same before (position same')) : ∀ j < n, ∀ i < j, same i j → ¬ before j i := by
  intro j hj i hij hsij hb
  have hlt := h.along i (hij.trans hj) j (mem_ahead.mpr ⟨hj, hs.symm hsij, hb⟩)
  have hlt' := position_lt hs' (hsame _ _ hsij) hij
  omega

theorem seen_of_ranks (hs : Equivalence same) (hirr : ∀ i, ¬ before i i)
    (hapart : ∀ i < n, ∀ j < n, same' i j → same i j) (hsorted : ∀ j < n, ∀ i < j, same i j → ¬ before j i)
    (hseen : ∀ i j, before' i j → before i j ∨ before j i) (h : Ranks n same before (placed same' before')) :
    ∀ j < n, ∀ i < j, same i j → before i j → before' i j := by
  intro j hj i hij hsij hb
  have hr := h j hj
  rw [ahead_eq hs hirr hsorted hj] at hr
  unfold placed at hr
  rw [Nat.count_eq_card_filter_range] at hr
  have hsub : {k ∈ range j | same' k j ∧ before' k j} ⊆ {k ∈ range j | same k j ∧ before k j} := by
    intro k hk
    obtain ⟨hk, hsk, hbk⟩ := mem_filter.mp hk
    have hsk := hapart k ((mem_range.mp hk).trans hj) j hj hsk
    exact mem_filter.mpr ⟨hk, hsk, (hseen k j hbk).resolve_right (hsorted j hj k (mem_range.mp hk) hsk)⟩
  have heq := eq_of_subset_of_card_le hsub (by omega)
  have hmem : i ∈ {k ∈ range j | same' k j ∧ before' k j} := by
    rw [heq]
    exact mem_filter.mpr ⟨mem_range.mpr hij, hsij, hb⟩
  exact (mem_filter.mp hmem).2.2

include hs hs' hsame hseen in
/-- Counting what comes earlier numbers and ranks the list exactly if it is arranged. -/
theorem ranks_iff (hirr : ∀ i, ¬ before i i) :
    (Numbers n same before (position same') ∧ Ranks n same before (placed same' before') ∧
      DenseRanks n same before key (placed same' before')) ↔ Arranged n same same' before before' key := by
  constructor
  · rintro ⟨hnum, hrank, hdense⟩
    have hapart := hnum.apart hs hs' hsame
    have hsorted := hnum.sorted hs hs' hsame
    refine ⟨hapart, hsorted, seen_of_ranks hs hirr hapart hsorted hseen hrank, fun i hi => ?_⟩
    have hcard : ((ahead n same before i).image key).card = (ahead n same before i).card := by
      have h1 := hrank i hi
      have h2 := hdense i hi
      omega
    exact card_image_iff.mp hcard
  · intro h
    have hplaced : ∀ i < n, placed same' before' i = 1 + (ahead n same before i).card := fun i hi =>
      h.placed_eq hs hsame hseen hirr hi
    refine ⟨⟨fun i hi => ?_, fun i hi j hj => ?_⟩, hplaced, fun i hi => ?_⟩
    · have heq : Set.EqOn (position same) (position same') (peers n same i) := fun j hj =>
        (h.position_eq hsame (mem_peers.mp hj).1).symm
      exact (position_bijOn hs).congr heq
    · obtain ⟨hjn, hsj, hb⟩ := mem_ahead.mp hj
      rw [h.position_eq hsame hi, h.position_eq hsame hjn]
      apply position_lt hs hsj
      rcases lt_trichotomy j i with hlt | rfl | hlt
      · exact hlt
      · exact absurd hb (hirr _)
      · exact absurd hb (h.sorted j hjn i hlt (hs.symm hsj))
    · rw [hplaced i hi, card_image_of_injOn (h.distinct i hi)]

end Arranged

end Lib.Ranking
