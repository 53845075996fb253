import CustomDB.Lib.Overlay
import Mathlib.Data.List.Pairwise

/-!
# Hash maps of chains

A map from numbers to values as an array of `n` chains, a key being in the chain of its remainder. A store walks the
chain and replaces the value where the key is there already, else it puts a new cell in front.
-/

namespace Lib.Chained

open Lib.Overlay

variable {α : Type} {n : Nat} {k : Nat} {x : α} {chain : List (Nat × α)} {buckets : Nat → List (Nat × α)}

/-! ## One chain -/

/-- The chain with the value of `k` replaced; `none` where the walk comes to the end. -/
def replace (k : Nat) (x : α) : List (Nat × α) → Option (List (Nat × α))
  | [] => none
  | e :: chain => if e.1 = k then some ((k, x) :: chain) else (replace k x chain).map (e :: ·)

/-- A store to a chain. -/
def putChain (k : Nat) (x : α) (chain : List (Nat × α)) : List (Nat × α) := (replace k x chain).getD ((k, x) :: chain)

theorem replace_some {new : List (Nat × α)} (h : replace k x chain = some new) :
    new.map Prod.fst = chain.map Prod.fst ∧ ∀ j, new.lookup j = if j = k then some x else chain.lookup j := by
  induction chain generalizing new with
  | nil => cases h
  | cons e chain ih =>
    obtain ⟨i, y⟩ := e
    unfold replace at h
    split at h
    next hk =>
      obtain rfl : i = k := hk
      obtain rfl := Option.some.inj h
      refine ⟨rfl, fun j => ?_⟩
      by_cases hj : j = i
      · rw [if_pos hj, List.lookup_cons, beq_iff_eq.mpr hj]
      · rw [if_neg hj, List.lookup_cons, List.lookup_cons, beq_eq_false_iff_ne.mpr hj]
    next hk =>
      obtain ⟨rest, hrest, rfl⟩ := Option.map_eq_some_iff.mp h
      obtain ⟨hkeys, hlookup⟩ := ih hrest
      refine ⟨by rw [List.map_cons, List.map_cons, hkeys], fun j => ?_⟩
      rw [List.lookup_cons, List.lookup_cons, hlookup]
      by_cases hj : j = i
      · have hjk : j ≠ k := fun he => hk (hj.symm.trans he)
        rw [beq_iff_eq.mpr hj, if_neg hjk, if_neg hjk]
      · rw [beq_eq_false_iff_ne.mpr hj]

theorem replace_none (h : replace k x chain = none) : ∀ e ∈ chain, e.1 ≠ k := by
  induction chain with
  | nil => exact fun e he => absurd he List.not_mem_nil
  | cons d chain ih =>
    unfold replace at h
    split at h
    · cases h
    next hk =>
      intro e he
      rcases List.mem_cons.mp he with rfl | he
      · exact hk
      · exact ih (Option.map_eq_none_iff.mp h) e he

theorem lookup_putChain (k : Nat) (x : α) (chain : List (Nat × α)) (j : Nat) :
    (putChain k x chain).lookup j = if j = k then some x else chain.lookup j := by
  unfold putChain
  cases hr : replace k x chain with
  | some new => exact (replace_some hr).2 j
  | none =>
    rw [Option.getD_none, List.lookup_cons]
    by_cases hj : j = k
    · rw [if_pos hj, beq_iff_eq.mpr hj]
    · rw [if_neg hj, beq_eq_false_iff_ne.mpr hj]

theorem nodup_putChain (h : (chain.map Prod.fst).Nodup) : ((putChain k x chain).map Prod.fst).Nodup := by
  unfold putChain
  cases hr : replace k x chain with
  | some new =>
    rw [Option.getD_some, (replace_some hr).1]
    exact h
  | none =>
    refine List.nodup_cons.mpr ⟨fun hm => ?_, h⟩
    obtain ⟨e, he, hk⟩ := List.mem_map.mp hm
    exact replace_none hr e he hk

theorem mem_putChain {e : Nat × α} (h : e ∈ putChain k x chain) : e.1 = k ∨ ∃ d ∈ chain, d.1 = e.1 := by
  unfold putChain at h
  cases hr : replace k x chain with
  | some new =>
    rw [hr] at h
    have hm : e.1 ∈ new.map Prod.fst := List.mem_map_of_mem h
    rw [(replace_some hr).1] at hm
    exact Or.inr (List.mem_map.mp hm)
  | none =>
    rw [hr] at h
    rcases List.mem_cons.mp h with rfl | h
    · exact Or.inl rfl
    · exact Or.inr ⟨e, h, rfl⟩

/-! ## The buckets -/

/-- A store. -/
def put (n k : Nat) (x : α) (buckets : Nat → List (Nat × α)) : Nat → List (Nat × α) :=
  Function.update buckets (k % n) (putChain k x (buckets (k % n)))

/-- The value of a key. -/
def find (n : Nat) (buckets : Nat → List (Nat × α)) (k : Nat) : Option α := (buckets (k % n)).lookup k

/-- The cells, bucket by bucket. -/
def toList (n : Nat) (buckets : Nat → List (Nat × α)) : List (Nat × α) := (List.range n).flatMap buckets

/-- A key is in one cell at most, in the chain of its remainder. -/
structure Sound (n : Nat) (buckets : Nat → List (Nat × α)) : Prop where
  nodup : ∀ b, ((buckets b).map Prod.fst).Nodup
  home : ∀ b, ∀ e ∈ buckets b, e.1 % n = b

theorem Sound.empty (n : Nat) : Sound n (fun _ => ([] : List (Nat × α))) :=
  ⟨fun _ => List.nodup_nil, fun _ _ he => absurd he List.not_mem_nil⟩

theorem Sound.put (h : Sound n buckets) (k : Nat) (x : α) : Sound n (put n k x buckets) := by
  refine ⟨fun b => ?_, fun b e he => ?_⟩
  · by_cases hb : b = k % n
    · rw [hb, Chained.put, Function.update_self]
      exact nodup_putChain (h.nodup _)
    · rw [Chained.put, Function.update_of_ne hb]
      exact h.nodup b
  · by_cases hb : b = k % n
    · rw [hb, Chained.put, Function.update_self] at he
      rcases mem_putChain he with hk | ⟨d, hd, hk⟩
      · rw [hb, hk]
      · rw [hb, ← hk]
        exact h.home _ d hd
    · rw [Chained.put, Function.update_of_ne hb] at he
      exact h.home b e he

theorem find_put (n k : Nat) (x : α) (buckets : Nat → List (Nat × α)) (j : Nat) :
    find n (put n k x buckets) j = if j = k then some x else find n buckets j := by
  unfold find put
  by_cases hb : j % n = k % n
  · rw [hb, Function.update_self, lookup_putChain]
  · have hj : j ≠ k := fun he => hb (by rw [he])
    rw [Function.update_of_ne hb, if_neg hj]

theorem Sound.nodup_toList (h : Sound n buckets) : ((toList n buckets).map Prod.fst).Nodup := by
  unfold toList
  rw [List.map_flatMap, List.nodup_flatMap]
  refine ⟨fun b _ => h.nodup b, List.nodup_range.imp_of_mem fun {a b} _ _ hab => ?_⟩
  intro k ha hb
  obtain ⟨d, hd, rfl⟩ := List.mem_map.mp ha
  obtain ⟨e, he, hk⟩ := List.mem_map.mp hb
  have hhome := h.home b e he
  rw [hk, h.home a d hd] at hhome
  exact hab hhome

theorem Sound.lookup_toList (h : Sound n buckets) (hn : 0 < n) (k : Nat) :
    (toList n buckets).lookup k = find n buckets k := by
  cases hf : find n buckets k with
  | some x =>
    have hm : (k, x) ∈ toList n buckets :=
      List.mem_flatMap.mpr ⟨k % n, List.mem_range.mpr (Nat.mod_lt k hn), mem_of_lookup hf⟩
    exact lookup_of_mem h.nodup_toList hm
  | none =>
    refine lookup_eq_none.mpr fun e he hk => ?_
    obtain ⟨b, -, he⟩ := List.mem_flatMap.mp he
    have hb := h.home b e he
    rw [hk] at hb
    subst hb
    exact lookup_eq_none.mp hf e he hk

/-- The order of the cells does not matter. -/
theorem Sound.lookup_reverse (h : Sound n buckets) (hn : 0 < n) (k : Nat) :
    (toList n buckets).reverse.lookup k = find n buckets k := by
  rw [← h.lookup_toList hn]
  have hnd : ((toList n buckets).reverse.map Prod.fst).Nodup := by
    rw [List.map_reverse]
    exact List.nodup_reverse.mpr h.nodup_toList
  cases hf : (toList n buckets).lookup k with
  | some x => exact lookup_of_mem hnd (List.mem_reverse.mpr (mem_of_lookup hf))
  | none => exact lookup_eq_none.mpr fun e he => lookup_eq_none.mp hf e (List.mem_reverse.mp he)

end Lib.Chained
