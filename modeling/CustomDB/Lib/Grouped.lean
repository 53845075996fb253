import CustomDB.Lib.Compact

/-!
# Grouping by a key

Elements are put into buckets one by one: into the first bucket whose key is the same, or into a new one behind the
others. A bucket accumulates its elements. Where being the same is an equivalence of the keys, there is one bucket for
each key, in the order in which the keys occur, and it has accumulated the elements with that key.
-/

namespace Lib.Grouped

open Lib.Compact

variable {α κ β : Type} (same : κ → κ → Bool) (key : α → κ) (start : β) (step : β → α → β)

/-- An element goes into its bucket. -/
def place (bs : List (κ × β)) (a : α) : List (κ × β) :=
  match bs.findIdx? fun b => same b.1 (key a) with
  | some i => bs.modify i fun b => (b.1, step b.2 a)
  | none => bs ++ [(key a, step start a)]

/-- The buckets of a list. -/
def buckets (l : List α) : List (κ × β) := l.foldl (place same key start step) []

/-- The keys in the order in which they occur. -/
def keys (l : List α) : List κ := keep (fun k k' => same k' k) (l.map key)

/-- The elements with a key. -/
def members (l : List α) (k : κ) : List α := l.filter fun a => same k (key a)

/-- Being the same is an equivalence of the keys of the list. -/
structure Equiv (l : List α) : Prop where
  refl : ∀ a ∈ l, same (key a) (key a) = true
  symm : ∀ k k', same k k' = true → same k' k = true
  trans : ∀ k k' k'', same k k' = true → same k' k'' = true → same k k'' = true

variable {same key start step} {l : List α} {a : α} {k k' : κ}

theorem keys_snoc (l : List α) (a : α) :
    keys same key (l ++ [a]) =
      if (keys same key l).any (same · (key a)) then keys same key l else keys same key l ++ [key a] := by
  rw [keys, List.map_append, List.map_singleton, keep_snoc]
  rfl

theorem Equiv.front (h : Equiv same key (l ++ [a])) : Equiv same key l :=
  ⟨fun b hb => h.refl b (List.mem_append_left _ hb), h.symm, h.trans⟩

/-- A key is the key of an element. -/
theorem mem_keys (hk : k ∈ keys same key l) : ∃ a ∈ l, key a = k := List.mem_map.mp (keep_subset _ k hk)

/-- The key of an element is the same as one of the keys. -/
theorem keys_cover (h : Equiv same key l) (ha : a ∈ l) : ∃ k ∈ keys same key l, same k (key a) = true := by
  by_cases hk : key a ∈ keys same key l
  · exact ⟨_, hk, h.refl a ha⟩
  · exact List.any_eq_true.mp (same_of_notMem_keep (List.mem_map_of_mem ha) hk)

/-- The keys are different. -/
theorem keys_pairwise (l : List α) : (keys same key l).Pairwise fun k k' => same k k' = false := by
  induction l using List.reverseRecOn with
  | nil => exact List.Pairwise.nil
  | append_singleton l a ih =>
    rw [keys_snoc]
    split
    · exact ih
    · next hnone =>
      refine List.pairwise_append.mpr ⟨ih, List.pairwise_singleton _ _, fun k hk k' hk' => ?_⟩
      rw [List.mem_singleton.mp hk']
      by_contra hsame
      exact hnone (List.any_eq_true.mpr ⟨k, hk, by simpa using hsame⟩)

theorem keys_inj (h : Equiv same key l) (hk : k ∈ keys same key l) (hk' : k' ∈ keys same key l)
    (hs : same k k' = true) : k = k' := by
  have hne : ∀ {x y : κ}, same x y = false → same x y = true → x = y := fun h h' => by simp [h] at h'
  have hpair := @keys_pairwise _ _ same key l
  exact List.Pairwise.forall_of_forall_of_flip (R := fun x y => same x y = true → x = y) (fun _ _ _ => rfl)
    (hpair.imp hne) (hpair.imp fun {x y} hxy hyx => (hne hxy (h.symm _ _ hyx)).symm) hk hk' hs

theorem members_snoc (l : List α) (a : α) (k : κ) :
    members same key (l ++ [a]) k = members same key l k ++ if same k (key a) then [a] else [] := by
  simp [members, List.filter_append, List.filter_singleton]

/-- The same keys have the same members. -/
theorem members_congr (h : Equiv same key l) (hs : same k k' = true) : members same key l k = members same key l k' :=
  List.filter_congr fun _ _ => Bool.eq_iff_iff.mpr
    ⟨fun ha => h.trans _ _ _ (h.symm _ _ hs) ha, fun ha => h.trans _ _ _ hs ha⟩

/-- To change the first element that passes a test is to change every one, where there is only one. -/
theorem modify_findIdx {γ : Type} (p : γ → Bool) (f : γ → γ) {i : Nat} {bs : List γ} (hi : bs.findIdx? p = some i)
    (hone : bs.Pairwise fun x y => p x = true → p y = false) : bs.modify i f = bs.map fun b => if p b then f b else b := by
  induction bs generalizing i with
  | nil => simp at hi
  | cons b bs ih =>
    obtain ⟨hb, hone⟩ := List.pairwise_cons.mp hone
    rw [List.findIdx?_cons] at hi
    split at hi
    · next hp =>
      obtain rfl := Option.some.inj hi
      rw [List.modify_zero_cons, List.map_cons, if_pos hp]
      congr 1
      refine (List.map_id bs).symm.trans (List.map_congr_left fun x hx => ?_)
      rw [if_neg (by simp [hb x hx hp])]
      rfl
    · next hp =>
      obtain ⟨j, hj, rfl⟩ := Option.map_eq_some_iff.mp hi
      rw [List.modify_succ_cons, List.map_cons, if_neg hp, ih hj hone]

/-- There is one bucket for each key, and it has accumulated the elements with that key. -/
theorem buckets_eq (h : Equiv same key l) :
    buckets same key start step l =
      (keys same key l).map fun k => (k, (members same key l k).foldl step start) := by
  induction l using List.reverseRecOn with
  | nil => rfl
  | append_singleton l a ih =>
    have hfind : ((keys same key l).map fun k => (k, (members same key l k).foldl step start)).findIdx?
        (fun b => same b.1 (key a)) = (keys same key l).findIdx? (same · (key a)) := by
      rw [List.findIdx?_map]
      rfl
    rw [buckets, List.foldl_append, ← buckets, ih h.front, List.foldl_cons, List.foldl_nil, keys_snoc]
    unfold place
    rw [hfind]
    cases hi : (keys same key l).findIdx? (same · (key a)) with
    | none =>
      have hnone : ∀ k ∈ keys same key l, same k (key a) = false := List.findIdx?_eq_none_iff.mp hi
      have hany : ¬ (keys same key l).any (same · (key a)) = true := by
        rw [List.any_eq_true]
        rintro ⟨k, hk, hsame⟩
        rw [hnone k hk] at hsame
        cases hsame
      rw [if_neg hany, List.map_append, List.map_singleton, members_snoc, if_pos (h.refl a (by simp))]
      -- a member would have put its key among the keys
      have hnew : members same key l (key a) = [] := by
        refine List.filter_eq_nil_iff.mpr fun b hb hab => ?_
        obtain ⟨k, hk, hkb⟩ := keys_cover h.front hb
        have := h.trans _ _ _ hkb (h.symm _ _ hab)
        rw [hnone k hk] at this
        cases this
      rw [hnew]
      refine congrArg (· ++ _) (List.map_congr_left fun k hk => ?_)
      rw [members_snoc, if_neg (by simp [hnone k hk]), List.append_nil]
    | some i =>
      have hany : (keys same key l).any (same · (key a)) = true := by
        by_contra hany
        rw [List.any_eq_true] at hany
        have : (keys same key l).findIdx? (same · (key a)) = none :=
          List.findIdx?_eq_none_iff.mpr fun k hk => by
            by_contra hsame
            exact hany ⟨k, hk, by simpa using hsame⟩
        rw [this] at hi
        cases hi
      have hone : ((keys same key l).map fun k => (k, (members same key l k).foldl step start)).Pairwise
          fun x y => same x.1 (key a) = true → same y.1 (key a) = false := by
        refine List.pairwise_map.mpr ((keys_pairwise l).imp fun {k k'} hkk hk => ?_)
        by_contra hk'
        have := h.trans _ _ _ hk (h.symm _ _ (by simpa using hk'))
        rw [hkk] at this
        cases this
      dsimp only
      rw [if_pos hany, modify_findIdx (fun b => same b.1 (key a)) _ (hfind.trans hi) hone, List.map_map]
      refine List.map_congr_left fun k _ => ?_
      dsimp only [Function.comp]
      rw [members_snoc]
      by_cases hsame : same k (key a) = true
      · rw [if_pos hsame, if_pos hsame, List.foldl_append, List.foldl_cons, List.foldl_nil]
      · rw [if_neg hsame, if_neg hsame, List.append_nil]

end Lib.Grouped
