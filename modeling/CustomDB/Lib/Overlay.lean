import Mathlib.Data.List.Basic
import Mathlib.Data.List.Nodup

/-!
# Writes that take effect one at a time

A list of keyed writes over a map. When an observer can stop the list anywhere, what it finds is the map of
before or the map of after only if at most one of the writes changes what it finds. Two values may count as the
same without being equal: each key has its own equivalence.
-/

namespace Lib.Overlay

variable {ι α : Type} [DecidableEq ι]

/-- The map `base` with the writes `ws` over it. -/
def overlay (ws : List (ι × α)) (base : ι → α) (i : ι) : α := (ws.lookup i).getD (base i)

theorem lookup_eq_none {ws : List (ι × α)} {i : ι} : ws.lookup i = none ↔ ∀ e ∈ ws, e.1 ≠ i := by
  rw [List.lookup_eq_none_iff]
  constructor
  · intro h e he hi
    simpa [hi] using h e he
  · intro h e he
    simpa using fun hi => h e he hi.symm

theorem mem_of_lookup {ws : List (ι × α)} {i : ι} {x : α} (h : ws.lookup i = some x) : (i, x) ∈ ws := by
  obtain ⟨l₁, l₂, he, -⟩ := List.lookup_eq_some_iff.mp h
  rw [he]
  exact List.mem_append_right _ (List.mem_cons_self ..)

theorem lookup_of_mem {ws : List (ι × α)} (hnd : (ws.map Prod.fst).Nodup) {e : ι × α} (h : e ∈ ws) :
    ws.lookup e.1 = some e.2 := by
  induction ws with
  | nil => exact absurd h List.not_mem_nil
  | cons d ws ih =>
    rw [List.map_cons, List.nodup_cons] at hnd
    rcases List.mem_cons.mp h with rfl | h
    · rw [List.lookup_cons, beq_self_eq_true]
    · have hne : (e.1 == d.1) = false :=
        beq_eq_false_iff_ne.mpr fun he => hnd.1 (he ▸ List.mem_map.mpr ⟨e, h, rfl⟩)
      rw [List.lookup_cons, hne]
      exact ih hnd.2 h

/-- Values read through a partial map. -/
theorem lookup_filterMap {β : Type} {ws : List (ι × α)} (hnd : (ws.map Prod.fst).Nodup) (g : α → Option β) (i : ι) :
    (ws.filterMap fun e => (g e.2).map fun y => (e.1, y)).lookup i = (ws.lookup i).bind g := by
  induction ws with
  | nil => rfl
  | cons d ws ih =>
    rw [List.map_cons, List.nodup_cons] at hnd
    have hrest := ih hnd.2
    by_cases hi : i = d.1
    · have hnone : ws.lookup i = none := lookup_eq_none.mpr fun e he hk => hnd.1 (List.mem_map.mpr ⟨e, he, hk.trans hi⟩)
      rw [hnone] at hrest
      rw [List.lookup_cons, beq_iff_eq.mpr hi, List.filterMap_cons]
      cases hg : g d.2 with
      | none => exact hrest.trans hg.symm
      | some y =>
        rw [Option.map_some, List.lookup_cons, beq_iff_eq.mpr hi]
        exact hg.symm
    · rw [List.lookup_cons, beq_eq_false_iff_ne.mpr hi, List.filterMap_cons]
      cases g d.2 with
      | none => exact hrest
      | some y =>
        rw [Option.map_some, List.lookup_cons, beq_eq_false_iff_ne.mpr hi]
        exact hrest

/-- The writes seen by a prefix are seen by the whole list. -/
theorem lookup_take {ws : List (ι × α)} {k : Nat} {i : ι} {x : α} (h : (ws.take k).lookup i = some x) :
    ws.lookup i = some x := by
  obtain ⟨l₁, l₂, he, hn⟩ := List.lookup_eq_some_iff.mp h
  refine List.lookup_eq_some_iff.mpr ⟨l₁, l₂ ++ ws.drop k, ?_, hn⟩
  rw [← List.cons_append, ← List.append_assoc, ← he, List.take_append_drop]

theorem overlay_of_mem {ws : List (ι × α)} (hnd : (ws.map Prod.fst).Nodup) (base : ι → α) {e : ι × α} (h : e ∈ ws) :
    overlay ws base e.1 = e.2 := by
  rw [overlay, lookup_of_mem hnd h]
  rfl

theorem overlay_of_not_mem {ws : List (ι × α)} (base : ι → α) {i : ι} (h : ∀ e ∈ ws, e.1 ≠ i) :
    overlay ws base i = base i := by
  rw [overlay, lookup_eq_none.mpr h]
  rfl

/-- What a key shows under a list of writes is one of them or the map below. -/
theorem overlay_cases (ws : List (ι × α)) (base : ι → α) (i : ι) :
    (i, overlay ws base i) ∈ ws ∨ (∀ e ∈ ws, e.1 ≠ i) ∧ overlay ws base i = base i := by
  cases h : ws.lookup i with
  | some x =>
    left
    rw [overlay, h]
    exact mem_of_lookup h
  | none =>
    have hn := lookup_eq_none.mp h
    exact Or.inr ⟨hn, overlay_of_not_mem base hn⟩

/-! ## Stopping anywhere -/

variable (r : ι → α → α → Prop)

/-- Wherever the writes stop, the map over `base` is the one of before or the one of after, which has all the
writes over `base'`. -/
def Atomic (before base base' : ι → α) (ws : List (ι × α)) : Prop :=
  ∀ k, (∀ i, r i (overlay (ws.take k) base i) (before i)) ∨
    ∀ i, r i (overlay (ws.take k) base i) (overlay ws base' i)

/-- Nothing changes, or one key does and the map below stays as it was. -/
def AtMostOne (before base' : ι → α) (ws : List (ι × α)) : Prop :=
  (∀ e ∈ ws, r e.1 e.2 (before e.1)) ∨
    ∃ a, (∀ e ∈ ws, e.1 ≠ a → r e.1 e.2 (before e.1)) ∧ ∀ i, (∀ e ∈ ws, e.1 ≠ i) → r i (base' i) (before i)

variable {r} {before base base' : ι → α} {ws : List (ι × α)}

/-- Stopping between two writes that change their keys shows one and not the other. -/
theorem not_atomic_of_two (hr : ∀ i, Equivalence (r i)) (hnd : (ws.map Prod.fst).Nodup)
    (hbase : ∀ i, r i (base i) (before i)) {l₁ l₂ : List (ι × α)} {e f : ι × α} (hsplit : ws = l₁ ++ f :: l₂)
    (he : e ∈ l₁) (hec : ¬ r e.1 e.2 (before e.1)) (hfc : ¬ r f.1 f.2 (before f.1)) :
    ¬ Atomic r before base base' ws := by
  intro h
  have htake : ws.take l₁.length = l₁ := by rw [hsplit, List.take_left]
  have hnd' : (l₁.map Prod.fst).Nodup ∧ ∀ d ∈ l₁, d.1 ≠ f.1 := by
    rw [hsplit, List.map_append, List.nodup_append] at hnd
    refine ⟨hnd.1, fun d hd => hnd.2.2 d.1 (List.mem_map.mpr ⟨d, hd, rfl⟩) f.1 ?_⟩
    exact List.mem_map.mpr ⟨f, List.mem_cons_self .., rfl⟩
  have hk := h l₁.length
  rw [htake] at hk
  rcases hk with hk | hk
  · refine hec ?_
    have := hk e.1
    rwa [overlay_of_mem hnd'.1 base he] at this
  · refine hfc ?_
    have := hk f.1
    rw [overlay_of_not_mem base hnd'.2, overlay_of_mem hnd base' (by rw [hsplit]; simp)] at this
    exact (hr _).trans ((hr _).symm this) (hbase _)

theorem Atomic.atMostOne (hr : ∀ i, Equivalence (r i)) (hnd : (ws.map Prod.fst).Nodup)
    (hbase : ∀ i, r i (base i) (before i)) (h : Atomic r before base base' ws) : AtMostOne r before base' ws := by
  by_cases hall : ∀ e ∈ ws, r e.1 e.2 (before e.1)
  · exact Or.inl hall
  · push Not at hall
    obtain ⟨e, he, hec⟩ := hall
    refine Or.inr ⟨e.1, fun f hf hfe => ?_, fun i hi => ?_⟩
    · by_contra hfc
      -- one of the two comes first, and the writes can stop before the other
      obtain ⟨l₁, l₂, hsplit⟩ := List.append_of_mem hf
      have hmem : e ∈ l₁ ++ f :: l₂ := hsplit ▸ he
      rcases List.mem_append.mp hmem with he₁ | he₂
      · exact not_atomic_of_two hr hnd hbase hsplit he₁ hec hfc h
      · rcases List.mem_cons.mp he₂ with hef | he₂
        · exact hfe (by rw [hef])
        · obtain ⟨m₁, m₂, hm⟩ := List.append_of_mem he₂
          have hsplit' : ws = (l₁ ++ f :: m₁) ++ e :: m₂ := by rw [hsplit, hm]; simp
          exact not_atomic_of_two hr hnd hbase hsplit' (by simp) hfc hec h
    · have hlen := h ws.length
      rw [List.take_length] at hlen
      rcases hlen with hk | hk
      · have := hk e.1
        rw [overlay_of_mem hnd base he] at this
        exact absurd this hec
      · have := hk i
        rw [overlay_of_not_mem base hi, overlay_of_not_mem base' hi] at this
        exact (hr i).trans ((hr i).symm this) (hbase i)

theorem AtMostOne.atomic (hr : ∀ i, Equivalence (r i)) (hbase : ∀ i, r i (base i) (before i))
    (h : AtMostOne r before base' ws) : Atomic r before base base' ws := by
  intro k
  have hsub : ∀ {e : ι × α}, e ∈ ws.take k → e ∈ ws := fun he => List.mem_of_mem_take he
  rcases h with hall | ⟨a, hrest, hbelow⟩
  · left
    intro i
    rcases overlay_cases (ws.take k) base i with hm | ⟨-, he⟩
    · exact hall _ (hsub hm)
    · rw [he]
      exact hbase i
  · by_cases ha : ∃ e ∈ ws.take k, e.1 = a
    · -- the change is in: every other key shows the same before and after
      right
      intro i
      cases hl : (ws.take k).lookup i with
      | some x =>
        rw [overlay, overlay, hl, lookup_take hl]
        exact (hr i).refl _
      | none =>
        have hnone := lookup_eq_none.mp hl
        rw [overlay_of_not_mem base hnone]
        refine (hr i).trans (hbase i) ((hr i).symm ?_)
        rcases overlay_cases ws base' i with hm | ⟨hn, he⟩
        · refine hrest _ hm fun hia => ?_
          obtain ⟨e, he, hea⟩ := ha
          exact hnone e he (hea.trans hia.symm)
        · rw [he]
          exact hbelow i hn
    · left
      intro i
      rcases overlay_cases (ws.take k) base i with hm | ⟨-, he⟩
      · exact hrest _ (hsub hm) fun hia => ha ⟨_, hm, hia⟩
      · rw [he]
        exact hbase i

/-- The exact condition: the map below already is the one of after, or it is the one of before and at most one
write changes its key. -/
theorem atomic_iff (hr : ∀ i, Equivalence (r i)) (hnd : (ws.map Prod.fst).Nodup) :
    Atomic r before base base' ws ↔
      (∀ i, r i (base i) (overlay ws base' i)) ∨ (∀ i, r i (base i) (before i)) ∧ AtMostOne r before base' ws := by
  constructor
  · intro h
    have h0 := h 0
    rw [List.take_zero] at h0
    rcases h0 with h0 | h0
    · exact Or.inr ⟨h0, h.atMostOne hr hnd h0⟩
    · exact Or.inl h0
  · rintro (hafter | ⟨hbase, hone⟩)
    · intro k
      right
      intro i
      cases hl : (ws.take k).lookup i with
      | some x =>
        rw [overlay, overlay, hl, lookup_take hl]
        exact (hr i).refl _
      | none =>
        rw [overlay_of_not_mem base (lookup_eq_none.mp hl)]
        exact hafter i
    · exact hone.atomic hr hbase

end Lib.Overlay
