import Mathlib

/-!
# Joins of two lists

The join of two lists by a test of pairs: every pair that passes, and what is kept of an element without a partner.
Another order of the lists is another order of the join; another test gives the same join exactly if it passes the same
pairs. A table of buckets holds a list, bucket by bucket.
-/

namespace Lib.Join

variable {α β γ : Type} {p q : α → β → Bool} {L L' : List α} {R R' : List β}

/-- What two partners make, and what is made of an element without a partner where it is kept. -/
structure Kind (α β γ : Type) where
  pair : α → β → γ
  left : α → γ
  right : β → γ
  keepLeft : Bool
  keepRight : Bool

variable (k : Kind α β γ)

/-- What an element of the first list makes with its partners. -/
def partnered (p : α → β → Bool) (R : List β) (l : α) : List γ :=
  (R.filter (p l)).map (k.pair l) ++ if k.keepLeft && (R.filter (p l)).isEmpty then [k.left l] else []

/-- What is kept of the second list. -/
def leftover (p : α → β → Bool) (L : List α) (R : List β) : List γ :=
  if k.keepRight then (R.filter fun r => !L.any fun l => p l r).map k.right else []

/-- The join: every element of the first list against every element of the second. -/
def join (p : α → β → Bool) (L : List α) (R : List β) : List γ := L.flatMap (partnered k p R) ++ leftover k p L R

theorem isEmpty_perm {l l' : List β} (h : l.Perm l') : l.isEmpty = l'.isEmpty := by
  rw [Bool.eq_iff_iff, List.isEmpty_iff, List.isEmpty_iff, ← List.length_eq_zero_iff, h.length_eq, List.length_eq_zero_iff]

theorem partnered_perm (h : R.Perm R') (l : α) : (partnered k p R l).Perm (partnered k p R' l) := by
  unfold partnered
  rw [isEmpty_perm (h.filter (p l))]
  exact ((h.filter (p l)).map _).append_right _

theorem leftover_perm (hL : L.Perm L') (hR : R.Perm R') : (leftover k p L R).Perm (leftover k p L' R') := by
  have hany : ∀ r, (L.any fun l => p l r) = L'.any fun l => p l r := fun r => by
    rw [Bool.eq_iff_iff, List.any_eq_true, List.any_eq_true]
    simp only [hL.mem_iff]
  unfold leftover
  split
  · simp only [hany]
    exact (hR.filter _).map _
  · exact .refl _

theorem join_perm (hL : L.Perm L') (hR : R.Perm R') : (join k p L R).Perm (join k p L' R') :=
  (List.Perm.flatMap hL fun l _ => partnered_perm k hR l).append (leftover_perm k hL hR)

theorem join_congr (h : ∀ l ∈ L, ∀ r ∈ R, p l r = q l r) : join k p L R = join k q L R := by
  have hpartners : ∀ l ∈ L, R.filter (p l) = R.filter (q l) := fun l hl => List.filter_congr (h l hl)
  have hleft : L.flatMap (partnered k p R) = L.flatMap (partnered k q R) := by
    refine List.flatMap_congr fun l hl => ?_
    unfold partnered
    rw [hpartners l hl]
  have hright : (R.filter fun r => !L.any fun l => p l r) = R.filter fun r => !L.any fun l => q l r := by
    refine List.filter_congr fun r hr => ?_
    have hany : (L.any fun l => p l r) = L.any fun l => q l r := by
      rw [Bool.eq_iff_iff, List.any_eq_true, List.any_eq_true]
      exact exists_congr fun l => and_congr_right fun hl => by rw [h l hl r hr]
    rw [hany]
  unfold join leftover
  rw [hleft, hright]

/-- Partners can be told from what is made of a single element, and from other partners. -/
structure Kind.Telling (p : α → β → Bool) (L : List α) (R : List β) (f : γ → Bool) : Prop where
  pair : ∀ l ∈ L, ∀ r ∈ R, p l r = true → f (k.pair l r) = true
  left : ∀ l ∈ L, f (k.left l) = false
  right : ∀ r ∈ R, f (k.right r) = false
  inj : ∀ l ∈ L, ∀ r ∈ R, ∀ l' ∈ L, ∀ r' ∈ R, k.pair l r = k.pair l' r' → l = l' ∧ r = r'

variable {k}

/-- Of two elements the partners are in the join, and no others. -/
theorem Kind.Telling.mem_iff {f : γ → Bool} (h : k.Telling p L R f) {l : α} {r : β} (hl : l ∈ L) (hr : r ∈ R)
    (hf : f (k.pair l r) = true) : k.pair l r ∈ join k p L R ↔ p l r = true := by
  constructor
  · intro hmem
    rcases List.mem_append.mp hmem with hmem | hmem
    · obtain ⟨l', hl', hmem⟩ := List.mem_flatMap.mp hmem
      rcases List.mem_append.mp hmem with hmem | hmem
      · obtain ⟨r', hr', he⟩ := List.mem_map.mp hmem
        obtain ⟨hr', hp⟩ := List.mem_filter.mp hr'
        obtain ⟨rfl, rfl⟩ := h.inj l' hl' r' hr' l hl r hr he
        exact hp
      · split at hmem
        · rw [List.mem_singleton.mp hmem, h.left l' hl'] at hf
          cases hf
        · cases hmem
    · unfold leftover at hmem
      split at hmem
      · obtain ⟨r', hr', he⟩ := List.mem_map.mp hmem
        rw [← he, h.right r' (List.mem_filter.mp hr').1] at hf
        cases hf
      · cases hmem
  · intro hp
    refine List.mem_append_left _ (List.mem_flatMap.mpr ⟨l, hl, List.mem_append_left _ ?_⟩)
    exact List.mem_map_of_mem (List.mem_filter.mpr ⟨hr, hp⟩)

/-- Two tests give the same join, up to its order, exactly if they pass the same pairs. -/
theorem join_perm_iff {f : γ → Bool} (hp : k.Telling p L R f) (hq : k.Telling q L R f) :
    (join k p L R).Perm (join k q L R) ↔ ∀ l ∈ L, ∀ r ∈ R, p l r = q l r := by
  constructor
  · intro h l hl r hr
    rw [Bool.eq_iff_iff]
    constructor
    · intro hpass
      have hf := hp.pair l hl r hr hpass
      exact (hq.mem_iff hl hr hf).mp (h.mem_iff.mp ((hp.mem_iff hl hr hf).mpr hpass))
    · intro hpass
      have hf := hq.pair l hl r hr hpass
      exact (hp.mem_iff hl hr hf).mp (h.mem_iff.mpr ((hq.mem_iff hl hr hf).mpr hpass))
  · intro h
    rw [join_congr k h]

/-! ## Buckets -/

/-- The elements of a bucket. -/
def bucket (key : β → Nat) (R : List β) (b : Nat) : List β := (R.filter fun r => key r = b).reverse

/-- All buckets together hold the list. -/
theorem buckets_perm (key : β → Nat) (n : Nat) (h : ∀ r ∈ R, key r < n) :
    ((List.range n).flatMap (bucket key R)).Perm R := by
  induction n generalizing R with
  | zero =>
    have hnil : R = [] := List.eq_nil_iff_forall_not_mem.mpr fun r hr => absurd (h r hr) (Nat.not_lt_zero _)
    rw [hnil]
    exact .refl _
  | succ n ih =>
    rw [List.range_succ, List.flatMap_append, List.flatMap_singleton]
    have hrest : ∀ r ∈ R.filter fun r => key r ≠ n, key r < n := fun r hr => by
      obtain ⟨hr, hne⟩ := List.mem_filter.mp hr
      have hlt := h r hr
      have hne : key r ≠ n := of_decide_eq_true hne
      omega
    have hsame : (List.range n).flatMap (bucket key R) = (List.range n).flatMap (bucket key (R.filter fun r => key r ≠ n)) := by
      refine List.flatMap_congr fun b hb => ?_
      have hlt := List.mem_range.mp hb
      unfold bucket
      rw [List.filter_filter]
      congr 1
      refine List.filter_congr fun r _ => ?_
      rw [Bool.eq_iff_iff, Bool.and_eq_true, decide_eq_true_iff, decide_eq_true_iff]
      constructor
      · intro he
        exact ⟨he, by omega⟩
      · exact fun h => h.1
    rw [hsame]
    have hsplit : (R.filter (fun r => key r ≠ n) ++ R.filter fun r => key r = n).Perm R := by
      have hpart := List.filter_append_perm (fun r => decide (key r ≠ n)) R
      have hnot : (fun r => !decide (key r ≠ n)) = fun r => decide (key r = n) := by
        funext r
        simp
      rwa [hnot] at hpart
    exact ((ih hrest).append (List.reverse_perm _)).trans hsplit

theorem bucket_filter (key : β → Nat) (b : Nat) (f : β → Bool) :
    ((bucket key R b).filter f).Perm (R.filter fun r => f r && decide (key r = b)) := by
  unfold bucket
  rw [List.filter_reverse, List.filter_filter]
  exact List.reverse_perm _

/-- What is left over in the buckets is what is left over. -/
theorem buckets_filter (key : β → Nat) (n : Nat) (h : ∀ r ∈ R, key r < n) (f : β → Bool) :
    ((List.range n).flatMap fun b => (bucket key R b).filter f).Perm (R.filter f) := by
  rw [← List.filter_flatMap]
  exact (buckets_perm key n h).filter f

end Lib.Join
