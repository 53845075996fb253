import CustomDB.Tree.Fenced
import CustomDB.Tree.SuccessorSpec

/-!
# Looking up a key

`btree_find` comes to the row with the key wherever the separators bound the keys of the subtrees; a search that ends
in a leaf without the key ends on a row with another one, or on none.
-/

namespace CustomDB

open Lib Lib.Fences

namespace Tree

variable {C : Type} [Cell C] {s : Store C} {h d p : Nat} {key : Int} {t k : Part C} {kids k₁ k₂ : List (Part C)}
  {cells c₁ c₂ : List C} {n : Node C} {seps : List Int} {c : C} {l₁ l₂ : List (Nat × List C)}

namespace Store

omit [Cell C] in
/-- The row the cursor is on. -/
def rowAt (s : Store C) (cur : Cursor) : Option C :=
  if cur.endOfTable then none else (s.node cur.pageNum).cells[cur.cellNum]?

/-- `btree_find`, and the comparison with the key that its callers make. -/
def lookup (s : Store C) (depth : Nat) (key : Int) : Option C :=
  ((s.btreeFind depth key).bind s.rowAt).filter fun c => Cell.key c = key

end Store

open Store

/-! ## Inner nodes -/

/-- The search goes to the child that has the row. -/
theorem Forks.route (hf : Forks n (k₁ ++ k :: k₂) seps) (hc : c ∈ k.rows) :
    n.internalNodeFindChild (Cell.key c) = k₁.length := by
  have hcount := hf.count
  rw [List.length_append, List.length_cons] at hcount
  have hfences := hf.fences
  rw [← List.take_append_drop k₁.length seps, List.map_append, List.map_cons] at hfences
  obtain ⟨hfront, hbehind⟩ := hfences.around (by rw [List.length_map, List.length_take]; omega) hc
  have hsep : ∀ i (hi : i < seps.length), (n.slots i).2 = seps[i] := fun i hi => hf.sep i _ (List.getElem?_eq_getElem hi)
  unfold Node.internalNodeFindChild
  rw [hf.numKeys]
  refine Bisect.lowerBound_eq (by omega) (Nat.zero_le _) (by omega) (fun i _ hi => ?_) fun i hi hlt => ?_
  · have hlt : i < seps.length := by omega
    rw [hsep i hlt]
    refine decide_eq_true (hfront _ (List.mem_iff_getElem.mpr ⟨i, ?_, ?_⟩))
    · rw [List.length_take]
      omega
    · rw [List.getElem_take]
  · rw [hsep i hlt]
    refine decide_eq_false (not_lt.mpr (hbehind _ (List.mem_iff_getElem.mpr ⟨i - k₁.length, ?_, ?_⟩)))
    · rw [List.length_drop]
      omega
    · rw [List.getElem_drop]
      congr 1
      omega

/-- The search goes to a child, to the one that has a row with the key if there is one. -/
theorem Forks.step (hf : Forks n kids seps) (key : Int) :
    ∃ k ∈ kids, n.internalNodeChild (n.internalNodeFindChild key) = some k.page ∧
      ∀ c ∈ kids.flatMap Part.rows, Cell.key c = key → c ∈ k.rows := by
  have hle : n.internalNodeFindChild key ≤ n.numKeys := Bisect.lowerBound_le _ (Nat.zero_le _)
  rw [hf.numKeys] at hle
  have hlt : n.internalNodeFindChild key < kids.length := by
    rw [hf.count]
    omega
  refine ⟨kids[n.internalNodeFindChild key], List.getElem_mem hlt, hf.child _ _ (List.getElem?_eq_getElem hlt), ?_⟩
  rintro c hc rfl
  obtain ⟨k, hk, hck⟩ := List.mem_flatMap.mp hc
  obtain ⟨k₁, k₂, rfl⟩ := List.append_of_mem hk
  have hroute := hf.route hck
  have hat : (k₁ ++ k :: k₂)[n.internalNodeFindChild (Cell.key c)]? = some k := by
    rw [hroute, List.getElem?_append_right (le_refl _), Nat.sub_self]
    rfl
  rw [List.getElem?_eq_getElem hlt] at hat
  rw [Option.some.inj hat]
  exact hck

/-- Down to a leaf. -/
theorem Guided.descend (hs : Guided s (h + 1) t) (hd : h < d) (key : Int) :
    ∃ x ∈ t.leaves, s.internalNodeFind d t.page key = some (s.leafNodeNavigate x.1 key) ∧
      ∀ c ∈ t.rows, Cell.key c = key → c ∈ x.2 := by
  induction h generalizing t d with
  | zero =>
    obtain ⟨d, rfl⟩ := Nat.exists_eq_succ_of_ne_zero (Nat.ne_of_gt hd)
    obtain ⟨kids, seps, hf, ht, hk⟩ := hs
    obtain ⟨k, hm, hchild, hrow⟩ := hf.step key
    obtain ⟨htype, hleaf⟩ := (hk k hm).1
    rw [ht]
    refine ⟨(k.page, (s.node k.page).cells), List.mem_flatMap.mpr ⟨k, hm, ?_⟩, ?_, fun c hc hkey => ?_⟩
    · rw [hleaf]
      exact List.mem_singleton_self _
    · rw [internalNodeFind, page_join, hchild]
      simp only [Option.bind_eq_bind, Option.bind_some]
      rw [htype]
      rfl
    · rw [rows_join] at hc
      have hck := hrow c hc hkey
      rwa [hleaf, rows_leaf] at hck
  | succ h ih =>
    obtain ⟨d, rfl⟩ := Nat.exists_eq_succ_of_ne_zero (Nat.ne_of_gt (lt_of_le_of_lt (Nat.zero_le _) hd))
    obtain ⟨kids, seps, hf, ht, hk⟩ := hs
    obtain ⟨k, hm, hchild, hrow⟩ := hf.step key
    obtain ⟨x, hx, hfind, hmem⟩ := ih (hk k hm).1 (Nat.lt_of_succ_lt_succ hd)
    have htype : (s.node k.page).nodeType = .internal := by
      obtain ⟨_, _, hfk, _⟩ := (hk k hm).1
      exact hfk.nodeType
    rw [ht]
    refine ⟨x, List.mem_flatMap.mpr ⟨k, hm, hx⟩, ?_, fun c hc hkey => ?_⟩
    · rw [internalNodeFind, page_join, hchild]
      simp only [Option.bind_eq_bind, Option.bind_some]
      rw [htype]
      exact hfind
    · rw [rows_join] at hc
      exact hmem c (hrow c hc hkey) hkey

theorem SearchTree.descend (hw : SearchTree s h t) (hd : h < d) (key : Int) :
    ∃ x ∈ t.leaves, s.btreeFind d key = some (s.leafNodeNavigate x.1 key) ∧ ∀ c ∈ t.rows, Cell.key c = key → c ∈ x.2 := by
  have hs := hw.guided
  cases h with
  | zero =>
    obtain ⟨htype, hleaf⟩ := hs
    refine ⟨(t.page, (s.node t.page).cells), ?_, ?_, fun c hc _ => ?_⟩
    · rw [hleaf]
      exact List.mem_singleton_self _
    · rw [btreeFind, ← hw.root, htype]
    · rw [hleaf, rows_leaf] at hc
      exact hc
  | succ h =>
    obtain ⟨x, hx, hfind, hmem⟩ := hs.descend (lt_trans (Nat.lt_succ_self h) hd) key
    obtain ⟨_, _, hf, _⟩ := hs
    refine ⟨x, hx, ?_, hmem⟩
    rw [btreeFind, ← hw.root, hf.nodeType]
    exact hfind

/-! ## Leaves -/

/-- The search in a leaf comes to the first row that is not below the key. -/
theorem leafNodeFind_place (hc : n.cells = c₁ ++ c₂) (h₁ : ∀ c ∈ c₁, Cell.key c < key) (h₂ : ∀ c ∈ c₂, key ≤ Cell.key c) :
    n.leafNodeFind key = c₁.length := by
  have hlen : n.cells.length = c₁.length + c₂.length := by rw [hc, List.length_append]
  have hget : ∀ i, (n.cells.map Cell.key).getD i 0 = ((c₁ ++ c₂)[i]?.map Cell.key).getD 0 := fun i => by
    rw [hc, List.getD_eq_getElem?_getD, List.getElem?_map]
  refine Bisect.lowerBound_eq (by omega) (Nat.zero_le _) (by omega) (fun i _ hi => ?_) fun i hi hlt => ?_
  · rw [hget, List.getElem?_append_left hi, List.getElem?_eq_getElem hi]
    exact decide_eq_true (h₁ _ (List.getElem_mem hi))
  · have hj : i - c₁.length < c₂.length := by omega
    rw [hget, List.getElem?_append_right hi, List.getElem?_eq_getElem hj]
    exact decide_eq_false (not_lt.mpr (h₂ _ (List.getElem_mem hj)))

/-- A row that is on the leaf is found. -/
theorem leafNodeNavigate_row (hs : Sorted (s.node p).cells) (hc : c ∈ (s.node p).cells) :
    s.rowAt (s.leafNodeNavigate p (Cell.key c)) = some c := by
  obtain ⟨c₁, c₂, hsplit⟩ := List.append_of_mem hc
  rw [hsplit] at hs
  obtain ⟨-, htail, hlt⟩ := List.pairwise_append.mp hs
  have hfind : (s.node p).leafNodeFind (Cell.key c) = c₁.length := by
    refine leafNodeFind_place hsplit (fun e he => hlt e he c List.mem_cons_self) fun e he => ?_
    rcases List.mem_cons.mp he with rfl | he
    · exact le_refl _
    · exact le_of_lt ((List.pairwise_cons.mp htail).1 e he)
  have hlen : ¬ (s.node p).cells.length ≤ c₁.length := by
    rw [hsplit, List.length_append, List.length_cons]
    omega
  unfold leafNodeNavigate
  rw [hfind, if_neg hlen]
  unfold rowAt
  rw [if_neg Bool.false_ne_true, hsplit, List.getElem?_append_right (le_refl _), Nat.sub_self]
  rfl

/-- The row the search ends on is a row of the tree. -/
theorem SearchTree.navigate_row (hw : SearchTree s h t) {x : Nat × List C} (hx : x ∈ t.leaves)
    (hc : s.rowAt (s.leafNodeNavigate x.1 key) = some c) :
    ∃ l₁ cs l₂, t.leaves = l₁ ++ ((s.leafNodeNavigate x.1 key).pageNum, cs) :: l₂ ∧
      cs[(s.leafNodeNavigate x.1 key).cellNum]? = some c := by
  have hleaf : ∀ y : Nat × List C, y ∈ t.leaves → ∀ i : Nat, (s.node y.1).cells[i]? = some c →
      ∃ l₁ cs l₂, t.leaves = l₁ ++ (y.1, cs) :: l₂ ∧ cs[i]? = some c := by
    intro y hy i hi
    rw [(hw.guided.leaf_cells y hy).2] at hi
    obtain ⟨l₁, l₂, hl⟩ := List.append_of_mem hy
    exact ⟨l₁, y.2, l₂, hl, hi⟩
  unfold leafNodeNavigate at hc ⊢
  dsimp only at hc ⊢
  split at hc
  · split at hc
    · cases hc
    next hlen hne =>
      -- the next leaf is one of the tree
      rw [if_pos hlen, if_neg hne]
      obtain ⟨l₁, l₂, hl⟩ := List.append_of_mem hx
      have hchain := hw.chained
      rw [hl, List.map_append, List.map_cons] at hchain
      rcases Chained.next_leaf hchain with ⟨-, hzero⟩ | ⟨l, hnext, -⟩
      · exact absurd hzero hne
      obtain ⟨y, l₃, rfl, hy, -⟩ := List.map_eq_cons_iff.mp hnext
      unfold rowAt at hc
      dsimp only at hc ⊢
      split at hc
      · cases hc
      · rw [← hy] at hc ⊢
        refine hleaf y ?_ 0 hc
        rw [hl]
        exact List.mem_append_right _ (List.mem_cons_of_mem _ List.mem_cons_self)
  next hlen =>
    rw [if_neg hlen]
    exact hleaf x hx _ hc

theorem SearchTree.navigate_mem (hw : SearchTree s h t) {x : Nat × List C} (hx : x ∈ t.leaves)
    (hc : s.rowAt (s.leafNodeNavigate x.1 key) = some c) : c ∈ t.rows := by
  obtain ⟨l₁, cs, l₂, hl, hi⟩ := hw.navigate_row hx hc
  have hcs : c ∈ cs := List.mem_of_getElem? hi
  refine List.mem_flatMap.mpr ⟨((s.leafNodeNavigate x.1 key).pageNum, cs), ?_, hcs⟩
  rw [hl]
  exact List.mem_append_right _ List.mem_cons_self

/-! ## The lookup -/

theorem Sorted.find_eq {rows : List C} (hs : Sorted rows) (hc : c ∈ rows) :
    rows.find? (fun e => Cell.key e = Cell.key c) = some c := by
  obtain ⟨r₁, r₂, rfl⟩ := List.append_of_mem hc
  obtain ⟨-, -, hlt⟩ := List.pairwise_append.mp hs
  rw [List.find?_eq_some_iff_append]
  refine ⟨decide_eq_true rfl, r₁, r₂, rfl, fun e he => ?_⟩
  have hne := ne_of_lt (hlt e he c List.mem_cons_self)
  simpa using hne

theorem SearchTree.leaf_sorted (hw : SearchTree s h t) {x : Nat × List C} (hx : x ∈ t.leaves) : Sorted x.2 := by
  obtain ⟨l₁, l₂, hl⟩ := List.append_of_mem hx
  have hs := hw.sorted
  unfold Part.rows at hs
  rw [hl, List.flatMap_append, List.flatMap_cons] at hs
  exact hs.sublist ((List.sublist_append_left ..).trans (List.sublist_append_right ..))

/-- A lookup in a search tree is one among its rows. -/
theorem SearchTree.lookup_eq (hw : SearchTree s h t) (hd : h < d) (key : Int) :
    s.lookup d key = t.rows.find? fun c => Cell.key c = key := by
  obtain ⟨x, hx, hfind, hmem⟩ := hw.descend hd key
  unfold lookup
  rw [hfind, Option.bind_some]
  by_cases hex : ∃ c ∈ t.rows, Cell.key c = key
  · obtain ⟨c, hc, rfl⟩ := hex
    have hcells := (hw.guided.leaf_cells x hx).2
    have hrow : s.rowAt (s.leafNodeNavigate x.1 (Cell.key c)) = some c := by
      refine leafNodeNavigate_row ?_ ?_ <;> rw [hcells]
      · exact hw.leaf_sorted hx
      · exact hmem c hc rfl
    rw [hrow, hw.sorted.find_eq hc]
    exact if_pos (decide_eq_true rfl)
  · have hnone : t.rows.find? (fun c => Cell.key c = key) = none :=
      List.find?_eq_none.mpr fun c hc => by simpa using fun hkey => hex ⟨c, hc, hkey⟩
    rw [hnone]
    cases hrow : s.rowAt (s.leafNodeNavigate x.1 key) with
    | none => rfl
    | some c =>
      have hc := hw.navigate_mem hx hrow
      exact if_neg fun hkey => hex ⟨c, hc, of_decide_eq_true hkey⟩

end Tree

end CustomDB
