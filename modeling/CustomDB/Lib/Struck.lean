import Mathlib

/-!
# Striking out the first of a run

A list is searched by keys: for a key `i` some elements are below it, and behind the last of them the elements with
the key `i` make up its run. To strike out `i` is to hide the first element shown in the run and to put it in front of
the run. When the keys of some of the elements are struck out one by one, these elements are hidden exactly if, key by
key, they are the first of the run.
-/

namespace Lib.Struck

variable {α ι : Type} [DecidableEq ι] (below : ι → α → Bool) (key : α → ι) (shown : α → Bool)

/-- The run of a key. -/
def run (i : ι) (l : List α) : List α := (l.dropWhile (below i)).takeWhile fun v => key v = i

/-- What is shown of the run. -/
def seen (i : ι) (l : List α) : List α := (run below key i l).filter shown

/-- For each key the elements below it come first, and elements of one run are below the same keys. -/
structure Searched (l : List α) : Prop where
  split : ∀ i, ∀ v ∈ l.dropWhile (below i), below i v = false
  alike : ∀ i j u v, key u = i → key v = i → below i u = false → below i v = false → below j u = below j v

/-- A list cut at the run of a key. -/
structure Zones (i : ι) (l pre mid post : List α) : Prop where
  eq : l = pre ++ (mid ++ post)
  before : ∀ u ∈ pre, below i u = true
  found : ∀ u ∈ mid, below i u = false ∧ key u = i
  behind : ∀ u ∈ post, below i u = false
  stop : ∀ u, post.head? = some u → key u ≠ i

/-- Nothing of the run is shown, or its first element shown is struck out. -/
inductive Strikes (i : ι) (l : List α) : List α → Prop where
  | miss (h : seen below key shown i l = []) : Strikes i l l
  | hit {pre hidden rest post : List α} {v v' : α} (hz : Zones below key i l pre (hidden ++ v :: rest) post)
      (hhidden : ∀ u ∈ hidden, shown u = false) (hv : shown v = true) (hv' : shown v' = false) (hkey : key v' = key v)
      (hbelow : ∀ j, below j v' = below j v) : Strikes i l (pre ++ (v' :: (hidden ++ rest) ++ post))

variable {below key shown} {i j : ι} {l l' pre mid post : List α}

/-! ## Cuts -/

theorem dropWhile_cons_append {p : α → Bool} {u : α} (hu : p u = false) (l post : List α) :
    (l ++ u :: post).dropWhile p = l.dropWhile p ++ u :: post := by
  rw [List.dropWhile_append, List.dropWhile_cons_of_neg (by rw [hu]; exact Bool.false_ne_true)]
  split
  next he => rw [List.isEmpty_iff.mp he, List.nil_append]
  next => rfl

theorem takeWhile_cons_append {p : α → Bool} {u : α} (hu : p u = false) (l post : List α) :
    (l ++ u :: post).takeWhile p = l.takeWhile p := by
  induction l with
  | nil => rw [List.nil_append, List.takeWhile_cons_of_neg (by rw [hu]; exact Bool.false_ne_true), List.takeWhile_nil]
  | cons x l ih =>
    cases hx : p x with
    | true => rw [List.cons_append, List.takeWhile_cons_of_pos hx, List.takeWhile_cons_of_pos hx, ih]
    | false =>
      have hne : ¬ p x = true := by
        rw [hx]
        exact Bool.false_ne_true
      rw [List.cons_append, List.takeWhile_cons_of_neg hne, List.takeWhile_cons_of_neg hne]

theorem dropWhile_cut {p : α → Bool} (hpre : ∀ u ∈ pre, p u = true) (hpost : ∀ u ∈ post, p u = false) :
    (pre ++ post).dropWhile p = post := by
  rw [List.dropWhile_append_of_pos hpre]
  cases post with
  | nil => rfl
  | cons u post => rw [List.dropWhile_cons_of_neg (by rw [hpost u List.mem_cons_self]; exact Bool.false_ne_true)]

/-- What comes before an element that is dropped is dropped. -/
theorem dropped_before {p : α → Bool} {v : α} (hs : ∀ u ∈ (pre ++ v :: post).dropWhile p, p u = false) (hv : p v = true) :
    ∀ u ∈ pre, p u = true := by
  induction pre with
  | nil => exact fun u hu => absurd hu List.not_mem_nil
  | cons x pre ih =>
    cases hx : p x with
    | true =>
      rw [List.cons_append, List.dropWhile_cons_of_pos hx] at hs
      intro u hu
      rcases List.mem_cons.mp hu with rfl | hu
      · exact hx
      · exact ih hs u hu
    | false =>
      rw [List.cons_append, List.dropWhile_cons_of_neg (by rw [hx]; exact Bool.false_ne_true)] at hs
      have hfalse := hs v (List.mem_cons_of_mem _ (List.mem_append_right _ List.mem_cons_self))
      rw [hv] at hfalse
      cases hfalse

theorem Zones.run_eq (h : Zones below key i l pre mid post) : run below key i l = mid := by
  have hdrop : l.dropWhile (below i) = mid ++ post := by
    rw [h.eq]
    exact dropWhile_cut h.before fun u hu => (List.mem_append.mp hu).elim (fun hm => (h.found u hm).1) (h.behind u)
  rw [run, hdrop, List.takeWhile_append_of_pos fun u hu => decide_eq_true (h.found u hu).2]
  cases hp : post with
  | nil => rw [List.takeWhile_nil, List.append_nil]
  | cons u rest =>
    have hu : key u ≠ i := h.stop u (hp ▸ rfl)
    rw [List.takeWhile_cons_of_neg (by rw [decide_eq_true_eq]; exact hu), List.append_nil]

theorem Searched.zones (h : Searched below key l) (i : ι) :
    ∃ pre post, Zones below key i l pre (run below key i l) post := by
  refine ⟨l.takeWhile (below i), (l.dropWhile (below i)).dropWhile fun v => decide (key v = i), ?_, fun u hu => ?_,
    fun u hu => ⟨?_, ?_⟩, fun u hu => ?_, fun u hu hk => ?_⟩
  · rw [run, List.takeWhile_append_dropWhile, List.takeWhile_append_dropWhile]
  · exact List.mem_takeWhile_imp hu
  · exact h.split i u ((List.takeWhile_sublist _).subset hu)
  · exact of_decide_eq_true (List.mem_takeWhile_imp (p := fun v => decide (key v = i)) hu)
  · exact h.split i u ((List.dropWhile_sublist _).subset hu)
  · have hne := List.head?_dropWhile_not (fun v => decide (key v = i)) (l.dropWhile (below i))
    rw [hu] at hne
    exact of_decide_eq_false hne hk

/-! ## One strike -/

section Hit

variable {hidden rest : List α} {v v' : α}

omit [DecidableEq ι] in
theorem Zones.struck (h : Zones below key i l pre (hidden ++ v :: rest) post) (hkey : key v' = key v)
    (hbelow : ∀ j, below j v' = below j v) :
    Zones below key i (pre ++ (v' :: (hidden ++ rest) ++ post)) pre (v' :: (hidden ++ rest)) post := by
  refine ⟨rfl, h.before, fun u hu => ?_, h.behind, h.stop⟩
  have hv := h.found v (List.mem_append_right _ List.mem_cons_self)
  rcases List.mem_cons.mp hu with rfl | hu
  · exact ⟨(hbelow i).trans hv.1, hkey.trans hv.2⟩
  · rcases List.mem_append.mp hu with hu | hu
    · exact h.found u (List.mem_append_left _ hu)
    · exact h.found u (List.mem_append_right _ (List.mem_cons_of_mem _ hu))

/-- The run of another key, and what is behind its split. -/
theorem Searched.struck_other (hs : Searched below key l) (h : Zones below key i l pre (hidden ++ v :: rest) post)
    (hkey : key v' = key v) (hbelow : ∀ j, below j v' = below j v) (j : ι) :
    (j ≠ i → run below key j (pre ++ (v' :: (hidden ++ rest) ++ post)) = run below key j l) ∧
      ∀ u ∈ (pre ++ (v' :: (hidden ++ rest) ++ post)).dropWhile (below j), below j u = false := by
  have hmid : ∀ u ∈ hidden ++ v :: rest, below j u = below j v := fun u hu =>
    hs.alike i j u v (h.found u hu).2 (h.found v (List.mem_append_right _ List.mem_cons_self)).2 (h.found u hu).1
      (h.found v (List.mem_append_right _ List.mem_cons_self)).1
  have hsplit := hs.split j
  have heq := h.eq
  cases hv : below j v with
  | true =>
    -- the run of `i` is below `j`, and so is what comes before it
    have hbefore : ∀ u ∈ pre ++ hidden, below j u = true := by
      refine @dropped_before α (pre ++ hidden) (rest ++ post) (below j) v ?_ hv
      have hl : l = (pre ++ hidden) ++ v :: (rest ++ post) := by
        rw [heq]
        simp only [List.append_assoc, List.cons_append]
      rwa [← hl]
    have hmidtrue : ∀ u ∈ hidden ++ v :: rest, below j u = true := fun u hu => (hmid u hu).trans hv
    have hl : l.dropWhile (below j) = post.dropWhile (below j) := by
      rw [heq, List.dropWhile_append_of_pos fun u hu => hbefore u (List.mem_append_left _ hu),
        List.dropWhile_append_of_pos hmidtrue]
    have hl' : (pre ++ (v' :: (hidden ++ rest) ++ post)).dropWhile (below j) = post.dropWhile (below j) := by
      rw [List.dropWhile_append_of_pos fun u hu => hbefore u (List.mem_append_left _ hu),
        List.dropWhile_append_of_pos fun u hu => ?_]
      rcases List.mem_cons.mp hu with rfl | hu
      · exact (hbelow j).trans hv
      · rcases List.mem_append.mp hu with hu | hu
        · exact hmidtrue u (List.mem_append_left _ hu)
        · exact hmidtrue u (List.mem_append_right _ (List.mem_cons_of_mem _ hu))
    rw [run, run, hl, hl']
    rw [hl] at hsplit
    exact ⟨fun _ => rfl, hsplit⟩
  | false =>
    -- the split of `j` is in front of the run of `i`, which ends the run of `j`
    have hl' : (pre ++ (v' :: (hidden ++ rest) ++ post)).dropWhile (below j) =
        pre.dropWhile (below j) ++ (v' :: (hidden ++ rest) ++ post) := dropWhile_cons_append ((hbelow j).trans hv) _ _
    have hl : l.dropWhile (below j) = pre.dropWhile (below j) ++ ((hidden ++ v :: rest) ++ post) := by
      rw [heq]
      cases hidden with
      | nil => exact dropWhile_cons_append hv _ _
      | cons u hidden => exact dropWhile_cons_append ((hmid u List.mem_cons_self).trans hv) _ _
    constructor
    · intro hj
      have hstop : ∀ u, key u = i → decide (key u = j) = false := fun u hu =>
        decide_eq_false fun hk => hj (hk.symm.trans hu)
      have hvi : key v = i := (h.found v (List.mem_append_right _ List.mem_cons_self)).2
      have ht' : run below key j (pre ++ (v' :: (hidden ++ rest) ++ post)) = (pre.dropWhile (below j)).takeWhile fun u => key u = j := by
        rw [run, hl']
        exact takeWhile_cons_append (p := fun u => decide (key u = j)) (hstop v' (hkey.trans hvi)) _ _
      have ht : run below key j l = (pre.dropWhile (below j)).takeWhile fun u => key u = j := by
        rw [run, hl]
        cases hidden with
        | nil => exact takeWhile_cons_append (p := fun u => decide (key u = j)) (hstop v hvi) _ _
        | cons u hidden => exact takeWhile_cons_append (p := fun u => decide (key u = j)) (hstop u (h.found u List.mem_cons_self).2) _ _
      rw [ht', ht]
    · intro u hu
      rw [hl'] at hu
      rw [hl] at hsplit
      rcases List.mem_append.mp hu with hu | hu
      · exact hsplit u (List.mem_append_left _ hu)
      · rcases List.mem_append.mp hu with hu | hu
        · rcases List.mem_cons.mp hu with rfl | hu
          · exact (hbelow j).trans hv
          · rcases List.mem_append.mp hu with hu | hu
            · exact (hmid u (List.mem_append_left _ hu)).trans hv
            · exact (hmid u (List.mem_append_right _ (List.mem_cons_of_mem _ hu))).trans hv
        · exact hsplit u (List.mem_append_right _ (List.mem_append_right _ hu))

end Hit

/-- What a strike does: the run of `i` loses the first element shown, the other runs are as they were. -/
theorem Strikes.spec (h : Strikes below key shown i l l') (hs : Searched below key l) :
    Searched below key l' ∧ seen below key shown i l' = (seen below key shown i l).tail ∧
      (∀ j, j ≠ i → seen below key shown j l' = seen below key shown j l) ∧
      (l.filter shown).Perm ((seen below key shown i l).take 1 ++ l'.filter shown) := by
  cases h with
  | miss hm => exact ⟨hs, by rw [hm, List.tail_nil], fun _ _ => rfl, by rw [hm]; exact List.Perm.refl _⟩
  | @hit pre hidden rest post v v' hz hhidden hv hv' hkey hbelow =>
    have hother := hs.struck_other hz hkey hbelow
    have hnone : hidden.filter shown = [] := List.filter_eq_nil_iff.mpr fun u hu => by
      rw [hhidden u hu]
      exact Bool.false_ne_true
    have hseen : seen below key shown i l = v :: rest.filter shown := by
      rw [seen, hz.run_eq, List.filter_append, hnone, List.nil_append, List.filter_cons_of_pos hv]
    have hne : ¬ shown v' = true := by
      rw [hv']
      exact Bool.false_ne_true
    refine ⟨⟨fun j => (hother j).2, hs.alike⟩, ?_, fun j hj => ?_, ?_⟩
    · rw [hseen, seen, (hz.struck hkey hbelow).run_eq, List.filter_cons_of_neg hne, List.filter_append, hnone]
      rfl
    · rw [seen, seen, (hother j).1 hj]
    · have hl : l.filter shown = pre.filter shown ++ v :: (rest.filter shown ++ post.filter shown) := by
        rw [hz.eq, List.filter_append, List.filter_append, List.filter_append, hnone, List.filter_cons_of_pos hv]
        rfl
      have hl' : (pre ++ (v' :: (hidden ++ rest) ++ post)).filter shown =
          pre.filter shown ++ (rest.filter shown ++ post.filter shown) := by
        rw [List.filter_append, List.filter_append, List.filter_cons_of_neg hne, List.filter_append, hnone]
        rfl
      rw [hseen, hl, hl']
      exact List.perm_middle

/-! ## An insertion -/

/-- Where the keys are ordered, a new element in front of the run of its key leaves the other runs alone. -/
theorem Searched.insert (hs : Searched below key l) {σ : Type} [LinearOrder σ] {rank : ι → σ}
    (hrank : ∀ i j, rank i = rank j → i = j) (hbelow : ∀ j v, below j v = true ↔ rank (key v) < rank j) (x : α) :
    Searched below key (l.takeWhile (below (key x)) ++ x :: l.dropWhile (below (key x))) ∧ ∀ j, j ≠ key x →
      run below key j (l.takeWhile (below (key x)) ++ x :: l.dropWhile (below (key x))) = run below key j l := by
  have hcut : l.takeWhile (below (key x)) ++ l.dropWhile (below (key x)) = l := List.takeWhile_append_dropWhile
  have hnot : ∀ j v, below j v = false ↔ rank j ≤ rank (key v) := fun j v => by
    rw [← not_lt, ← hbelow, Bool.not_eq_true]
  have hpre : ∀ u ∈ l.takeWhile (below (key x)), rank (key u) < rank (key x) := fun u hu =>
    (hbelow _ u).mp (List.mem_takeWhile_imp hu)
  have htail : ∀ u ∈ l.dropWhile (below (key x)), rank (key x) ≤ rank (key u) := fun u hu =>
    (hnot _ u).mp (hs.split (key x) u hu)
  set pre := l.takeWhile (below (key x))
  set tail := l.dropWhile (below (key x))
  have hboth : ∀ j, (∀ u ∈ (pre ++ x :: tail).dropWhile (below j), below j u = false) ∧
      (j ≠ key x → run below key j (pre ++ x :: tail) = run below key j l) := by
    intro j
    have hsplit := hs.split j
    by_cases hj : rank (key x) < rank j
    · -- the new element is below `j`, and so is what comes before it
      have hx : below j x = true := (hbelow j x).mpr hj
      have hpj : ∀ u ∈ pre, below j u = true := fun u hu => (hbelow j u).mpr ((hpre u hu).trans hj)
      have hdrop : (pre ++ x :: tail).dropWhile (below j) = l.dropWhile (below j) := by
        rw [← hcut, List.dropWhile_append_of_pos hpj, List.dropWhile_append_of_pos hpj, List.dropWhile_cons_of_pos hx]
      refine ⟨?_, fun _ => ?_⟩
      · rw [hdrop]
        exact hsplit
      · rw [run, run, hdrop]
    · have hle := not_lt.mp hj
      have hx : below j x = false := (hnot j x).mpr hle
      have htj : ∀ u ∈ tail, below j u = false := fun u hu => (hnot j u).mpr (hle.trans (htail u hu))
      have hdrop : (pre ++ x :: tail).dropWhile (below j) = pre.dropWhile (below j) ++ x :: tail :=
        dropWhile_cons_append hx _ _
      have hl : l.dropWhile (below j) = pre.dropWhile (below j) ++ tail := by
        rw [← hcut]
        cases ht : tail with
        | nil => rw [List.append_nil, List.append_nil]
        | cons u rest => exact dropWhile_cons_append (htj u (ht ▸ List.mem_cons_self)) _ _
      constructor
      · intro u hu
        rw [hdrop] at hu
        rw [hl] at hsplit
        rcases List.mem_append.mp hu with hu | hu
        · exact hsplit u (List.mem_append_left _ hu)
        · rcases List.mem_cons.mp hu with rfl | hu
          · exact hx
          · exact htj u hu
      · intro hne
        have hstop : ∀ u, rank (key x) ≤ rank (key u) → decide (key u = j) = false := fun u hu =>
          decide_eq_false fun hk => hne (hrank _ _ (le_antisymm hle (hk ▸ hu)))
        rw [run, run, hdrop, hl, takeWhile_cons_append (p := fun u => decide (key u = j)) (hstop x (le_refl _))]
        cases ht : tail with
        | nil => rw [List.append_nil]
        | cons u rest =>
          exact (takeWhile_cons_append (p := fun u => decide (key u = j))
            (hstop u (htail u (ht ▸ List.mem_cons_self))) _ _).symm
  exact ⟨⟨fun j => (hboth j).1, hs.alike⟩, fun j => (hboth j).2⟩

/-! ## Strikes one after the other -/

variable (below key shown) in
/-- The keys struck out, the first one first. -/
inductive StrikesAll : List ι → List α → List α → Prop where
  | nil (l : List α) : StrikesAll [] l l
  | cons {i : ι} {is : List ι} {l m l' : List α} (h : Strikes below key shown i l m) (hs : StrikesAll is m l') :
      StrikesAll (i :: is) l l'

theorem take_one_append_take {β : Type} (n : Nat) (s : List β) : s.take 1 ++ s.tail.take n = s.take (n + 1) := by
  cases s with
  | nil => rw [List.take_nil, List.tail_nil, List.take_nil, List.take_nil, List.append_nil]
  | cons x s => rfl

theorem filter_key_of_sublist {s : List α} (hs : s.Sublist (run below key i l)) (j : ι) :
    s.filter (fun v => key v = j) = if j = i then s else [] := by
  have hkey : ∀ v ∈ s, key v = i := fun v hv =>
    of_decide_eq_true (List.mem_takeWhile_imp (p := fun v => decide (key v = i)) (hs.subset hv))
  split
  next hj => exact List.filter_eq_self.mpr fun v hv => decide_eq_true ((hkey v hv).trans hj.symm)
  next hj =>
    refine List.filter_eq_nil_iff.mpr fun v hv hk => hj ?_
    exact (of_decide_eq_true hk).symm.trans (hkey v hv)

/-- What is gone after all of them: of each key as many as it was struck out, the first of its run. -/
theorem StrikesAll.spec {is : List ι} (h : StrikesAll below key shown is l l') (hs : Searched below key l) :
    ∃ gone, (l.filter shown).Perm (gone ++ l'.filter shown) ∧
      ∀ j, gone.filter (fun v => key v = j) = (seen below key shown j l).take (is.count j) := by
  induction h with
  | nil l => exact ⟨[], List.Perm.refl _, fun j => by rw [List.count_nil, List.take_zero, List.filter_nil]⟩
  | @cons i is l m l' h hrest ih =>
    obtain ⟨hm, htail, hothers, hperm⟩ := h.spec hs
    obtain ⟨gone, hgone, hcount⟩ := ih hm
    refine ⟨(seen below key shown i l).take 1 ++ gone, ?_, fun j => ?_⟩
    · rw [List.append_assoc]
      exact hperm.trans (List.Perm.append_left _ hgone)
    · have hsub : ((seen below key shown i l).take 1).Sublist (run below key i l) :=
        (List.take_sublist _ _).trans List.filter_sublist
      rw [List.filter_append, filter_key_of_sublist hsub, hcount]
      by_cases hj : j = i
      · subst hj
        rw [if_pos rfl, htail, List.count_cons_self, take_one_append_take]
      · rw [if_neg hj, List.nil_append, hothers j hj, List.count_cons_of_ne fun he => hj he.symm]

/-! ## When the right elements are gone -/

section Exact

variable {β : Type} {ρ : α → β} {κ : β → ι} {pick : β → Bool}

theorem perm_of_filter_key {s t : List α} (h : ∀ i, s.filter (fun v => key v = i) = t.filter (fun v => key v = i)) :
    s.Perm t := by
  classical
  refine List.perm_iff_count.mpr fun a => ?_
  have ha : decide (key a = key a) = true := decide_eq_true rfl
  rw [← List.count_filter (p := fun v => decide (key v = key a)) ha, h,
    List.count_filter (p := fun v => decide (key v = key a)) ha]

theorem count_map_key (s : List α) (i : ι) : (s.map key).count i = (s.filter fun v => key v = i).length := by
  rw [List.count, List.countP_map, List.countP_eq_length_filter]
  rfl

/-- A key is as frequent in lists that look alike. -/
theorem length_filter_key {s t : List α} (h : (s.map ρ).Perm (t.map ρ)) (i : ι) :
    (s.filter fun v => κ (ρ v) = i).length = (t.filter fun v => κ (ρ v) = i).length := by
  have hcount := h.countP_eq (fun b => decide (κ b = i))
  rwa [List.countP_map, List.countP_map, List.countP_eq_length_filter, List.countP_eq_length_filter] at hcount

/-- The picked elements of a key are the first of its run, if as many of the first are picked. -/
theorem Searched.prefix_of_take (hs : Searched below (fun v => κ (ρ v)) l) {i : ι} {k : Nat}
    (hk : (((l.filter shown).filter fun v => pick (ρ v)).filter fun v => κ (ρ v) = i).length = k)
    (hlen : ((seen below (fun v => κ (ρ v)) shown i l).take k).length = k)
    (hpick : ∀ v ∈ (seen below (fun v => κ (ρ v)) shown i l).take k, pick (ρ v) = true) :
    ((l.filter shown).filter fun v => pick (ρ v)).filter (fun v => κ (ρ v) = i) <+: seen below (fun v => κ (ρ v)) shown i l := by
  obtain ⟨pre, post, hz⟩ := hs.zones i
  set S := seen below (fun v => κ (ρ v)) shown i l with hS
  have hparts : l.filter shown = pre.filter shown ++ (S.take k ++ (S.drop k ++ post.filter shown)) := by
    rw [← List.append_assoc (S.take k), List.take_append_drop, hS, seen, ← List.filter_append, ← List.filter_append, ← hz.eq]
  have hfirst : ((S.take k).filter fun v => pick (ρ v)).filter (fun v => κ (ρ v) = i) = S.take k := by
    rw [List.filter_eq_self.mpr hpick]
    have hsub : (S.take k).Sublist (run below (fun v => κ (ρ v)) i l) := (List.take_sublist _ _).trans List.filter_sublist
    exact (filter_key_of_sublist hsub i).trans (if_pos rfl)
  rw [hparts] at hk ⊢
  simp only [List.filter_append, hfirst, List.length_append, hlen] at hk ⊢
  have hnil : ∀ {s : List α}, s.length = 0 → s = [] := fun h => List.eq_nil_of_length_eq_zero h
  rw [hnil (show (List.filter _ (List.filter _ (pre.filter shown))).length = 0 by omega),
    hnil (show (List.filter _ (List.filter _ (S.drop k))).length = 0 by omega),
    hnil (show (List.filter _ (List.filter _ (post.filter shown))).length = 0 by omega), List.nil_append, List.append_nil,
    List.append_nil]
  exact List.take_prefix _ _

/-- The elements shown at the end look like those that were not picked exactly if the picked ones of each key are the
first of its run. -/
theorem exact_iff (hs : Searched below (fun v => κ (ρ v)) l)
    (h : StrikesAll below (fun v => κ (ρ v)) shown (((l.filter shown).filter fun v => pick (ρ v)).map fun v => κ (ρ v)) l l') :
    ((l'.filter shown).map ρ).Perm (((l.filter shown).filter fun v => !pick (ρ v)).map ρ) ↔
      ∀ i, ((l.filter shown).filter fun v => pick (ρ v)).filter (fun v => κ (ρ v) = i) <+:
        seen below (fun v => κ (ρ v)) shown i l := by
  obtain ⟨gone, hgone, htake⟩ := h.spec hs
  set picked := (l.filter shown).filter fun v => pick (ρ v) with hpicked
  set others := (l.filter shown).filter fun v => !pick (ρ v) with hothers
  have hsplit : (picked ++ others).Perm (l.filter shown) := List.filter_append_perm _ _
  constructor
  · intro hp i
    have hrows : (gone.map ρ).Perm (picked.map ρ) := by
      have hall : (gone.map ρ ++ (l'.filter shown).map ρ).Perm (picked.map ρ ++ others.map ρ) := by
        rw [← List.map_append, ← List.map_append]
        exact (hgone.symm.trans hsplit.symm).map ρ
      exact (List.perm_append_right_iff _).mp (hall.trans (List.Perm.append_left _ hp.symm))
    have hlen := @length_filter_key α ι _ β ρ κ gone picked hrows i
    rw [htake, count_map_key] at hlen
    refine hs.prefix_of_take rfl hlen fun v hv => ?_
    rw [← count_map_key, ← htake] at hv
    have hmem := hrows.mem_iff.mp (List.mem_map_of_mem (List.mem_of_mem_filter hv))
    obtain ⟨u, hu, he⟩ := List.mem_map.mp hmem
    rw [← he]
    exact (List.mem_filter.mp hu).2
  · intro hp
    have hsame : gone.Perm picked := perm_of_filter_key fun i => by
      rw [htake, count_map_key]
      exact (List.prefix_iff_eq_take.mp (hp i)).symm
    have hall : (picked ++ l'.filter shown).Perm (picked ++ others) :=
      ((List.Perm.append_right _ hsame.symm).trans hgone.symm).trans hsplit.symm
    exact ((List.perm_append_left_iff _).mp hall).map ρ

end Exact

end Lib.Struck
