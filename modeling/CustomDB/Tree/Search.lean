import CustomDB.Tree.Family

/-!
# Where a new key belongs

`btree_find` goes to the one leaf between whose neighbours the key lies, and to the place among its cells.
-/

namespace CustomDB

open Lib

namespace Tree

variable {C : Type} [Cell C] {s : Store C} {h d p : Nat} {key : Int} {t k : Part C} {kids k₁ k₂ : List (Part C)}
  {cells c₁ c₂ : List C} {n : Node C} {f : Frame C} {fs gs : List (Frame C)}

open Store

/-- The key lies between the rows to the left of the subtree and those to the right, and not behind the last row of
the subtree unless there is nothing more to the right. -/
structure Belongs (key : Int) (t : Part C) (fs : List (Frame C)) : Prop where
  below : ∀ x ∈ before fs, ∀ c ∈ x.2, Cell.key c < key
  above : ∀ x ∈ after fs, ∀ c ∈ x.2, key < Cell.key c
  last : Rightmost fs ∨ t.rows ≠ [] ∧ key ≤ t.maxKey

/-- The slots that the search takes in the frames. -/
def Found (s : Store C) (key : Int) (fs : List (Frame C)) : Prop :=
  ∀ f ∈ fs, (s.node f.page).internalNodeFindChild key = f.left.length

/-! ## Cells -/

theorem exists_place (hs : Sorted cells) (hne : ∀ c ∈ cells, Cell.key c ≠ key) :
    ∃ c₁ c₂, cells = c₁ ++ c₂ ∧ (∀ c ∈ c₁, Cell.key c < key) ∧ ∀ c ∈ c₂, key < Cell.key c := by
  induction cells with
  | nil => exact ⟨[], [], rfl, fun c hc => absurd hc List.not_mem_nil, fun c hc => absurd hc List.not_mem_nil⟩
  | cons c cells ih =>
    obtain ⟨hc, hs⟩ := List.pairwise_cons.mp hs
    have hkey := hne c (List.mem_cons_self ..)
    by_cases hlt : Cell.key c < key
    · obtain ⟨c₁, c₂, rfl, h₁, h₂⟩ := ih hs fun x hx => hne x (List.mem_cons_of_mem _ hx)
      refine ⟨c :: c₁, c₂, rfl, fun x hx => ?_, h₂⟩
      rcases List.mem_cons.mp hx with rfl | hx
      · exact hlt
      · exact h₁ x hx
    · have hgt : key < Cell.key c := by omega
      refine ⟨[], c :: cells, rfl, fun x hx => absurd hx List.not_mem_nil, fun x hx => ?_⟩
      rcases List.mem_cons.mp hx with rfl | hx
      · exact hgt
      · exact lt_trans hgt (hc x hx)

theorem leafNodeFind_eq (hc : n.cells = c₁ ++ c₂) (h₁ : ∀ c ∈ c₁, Cell.key c < key) (h₂ : ∀ c ∈ c₂, key < Cell.key c) :
    n.leafNodeFind key = c₁.length := by
  have hlen : n.cells.length = c₁.length + c₂.length := by rw [hc, List.length_append]
  have hget : ∀ i, (n.cells.map Cell.key).getD i 0 = ((c₁ ++ c₂)[i]?.map Cell.key).getD 0 := fun i => by
    rw [hc, List.getD_eq_getElem?_getD, List.getElem?_map]
  refine Bisect.lowerBound_eq (by omega) (Nat.zero_le _) (by omega) (fun i _ hi => ?_) fun i hi hlt => ?_
  · rw [hget, List.getElem?_append_left hi, List.getElem?_eq_getElem hi]
    exact decide_eq_true (h₁ _ (List.getElem_mem hi))
  · have hj : i - c₁.length < c₂.length := by omega
    rw [hget, List.getElem?_append_right hi, List.getElem?_eq_getElem hj]
    exact decide_eq_false (not_lt.mpr (le_of_lt (h₂ _ (List.getElem_mem hj))))

/-! ## Children -/

/-- The first child whose largest key is not below the key, or the last child. -/
theorem exists_child (key : Int) (hne : kids ≠ []) :
    ∃ k₁ k k₂, kids = k₁ ++ k :: k₂ ∧ (∀ x ∈ k₁, x.maxKey < key) ∧ (k₂ = [] ∨ key ≤ k.maxKey) := by
  induction kids with
  | nil => exact absurd rfl hne
  | cons k kids ih =>
    by_cases hle : key ≤ k.maxKey
    · exact ⟨[], k, kids, rfl, fun x hx => absurd hx List.not_mem_nil, Or.inr hle⟩
    by_cases hnil : kids = []
    · exact ⟨[], k, kids, rfl, fun x hx => absurd hx List.not_mem_nil, Or.inl hnil⟩
    obtain ⟨k₁, x, k₂, rfl, h₁, h₂⟩ := ih hnil
    refine ⟨k :: k₁, x, k₂, rfl, fun y hy => ?_, h₂⟩
    rcases List.mem_cons.mp hy with rfl | hy
    · exact not_le.mp hle
    · exact h₁ y hy

omit [Cell C] in
theorem mem_rows_of_leaves {x : Nat × List C} (hx : x ∈ kids.flatMap Part.leaves) {c : C} (hc : c ∈ x.2) :
    ∃ k ∈ kids, c ∈ k.rows := by
  obtain ⟨k, hk, hx⟩ := List.mem_flatMap.mp hx
  exact ⟨k, hk, List.mem_flatMap.mpr ⟨x, hx, hc⟩⟩

/-- One level down. -/
theorem Belongs.child (hl : Links n kids) (hs : Sorted (kids.flatMap Part.rows)) (ht : t = Part.join p kids)
    (hb : Belongs key t fs) :
    ∃ k₁ k k₂, kids = k₁ ++ k :: k₂ ∧ n.internalNodeFindChild key = k₁.length ∧ Belongs key k (⟨p, k₁, k₂⟩ :: fs) := by
  obtain ⟨x, hx, -, hxm⟩ := hl.getLast
  obtain ⟨k₁, k, k₂, rfl, h₁, h₂⟩ := exists_child key (List.ne_nil_of_mem hxm)
  have hrows : ∀ y ∈ k₁ ++ k :: k₂, Sorted y.rows := fun y hy => by
    obtain ⟨l, r, he⟩ := List.append_of_mem hy
    rw [he, List.flatMap_append, List.flatMap_cons] at hs
    exact hs.sublist ((List.sublist_append_left ..).trans (List.sublist_append_right ..))
  have hkne : k₂ ≠ [] → k.rows ≠ [] := fun hne => by
    have hl' := hl
    rw [← append_singleton_append] at hl'
    exact hl'.rows_ne hne (List.mem_append_right _ (List.mem_singleton_self k))
  refine ⟨k₁, k, k₂, rfl, ?_, fun y hy c hc => ?_, fun y hy c hc => ?_, ?_⟩
  · refine hl.findChild (List.cons_ne_nil _ _) h₁ fun y hy => ?_
    rcases h₂ with rfl | hle
    · exact absurd hy List.not_mem_nil
    have hne := hl.dropLast_rows_ne hy
    rcases List.mem_cons.mp (List.mem_of_mem_dropLast hy) with rfl | hm
    · exact hle
    · exact le_of_lt (lt_of_le_of_lt hle ((hs.maxKey_lt (hkne (List.ne_nil_of_mem hm))).2 y hm hne))
  · rcases List.mem_append.mp hy with hy | hy
    · exact hb.below y hy c hc
    · obtain ⟨l, hl₁, hcl⟩ := mem_rows_of_leaves hy hc
      exact lt_of_le_of_lt ((hrows l (List.mem_append_left _ hl₁)).le_lastKey hcl) (h₁ l hl₁)
  · rcases List.mem_append.mp hy with hy | hy
    · obtain ⟨l, hl₂, hcl⟩ := mem_rows_of_leaves hy hc
      rcases h₂ with rfl | hle
      · exact absurd hl₂ List.not_mem_nil
      obtain ⟨e, he, hek⟩ := lastKey_mem (hkne (List.ne_nil_of_mem hl₂))
      rw [List.flatMap_append, List.flatMap_cons] at hs
      have hpair := (List.pairwise_append.mp (List.pairwise_append.mp hs).2.1).2.2 e he c
        (List.mem_flatMap.mpr ⟨l, hl₂, hcl⟩)
      rw [Part.maxKey, hek] at hle
      exact lt_of_le_of_lt hle hpair
    · exact hb.above y hy c hc
  · by_cases hnil : k₂ = []
    · subst hnil
      rcases hb.last with hr | ⟨hne, hle⟩
      · refine Or.inl fun g hg => ?_
        rcases List.mem_cons.mp hg with rfl | hg
        · rfl
        · exact hr g hg
      · -- the last child has the largest key, or no rows at all
        rw [ht, rows_join, List.flatMap_append, List.flatMap_singleton] at hne
        rw [ht, Part.maxKey, rows_join, List.flatMap_append, List.flatMap_singleton] at hle
        by_cases hk : k.rows = []
        · rw [hk, List.append_nil] at hne hle
          obtain ⟨c, hc, hck⟩ := lastKey_mem hne
          obtain ⟨l, hl₁, hcl⟩ := List.mem_flatMap.mp hc
          have := (hrows l (List.mem_append_left _ hl₁)).le_lastKey hcl
          have := h₁ l hl₁
          rw [Part.maxKey] at this
          omega
        · rw [lastKey_append _ hk] at hle
          exact Or.inr ⟨hk, hle⟩
    · exact Or.inr ⟨hkne hnil, h₂.resolve_left hnil⟩

/-! ## The descent -/

theorem Sub.internal (hs : Sub s (h + 1) t) : (s.node t.page).nodeType = .internal := by
  obtain ⟨kids, hl, -⟩ := hs
  exact hl.nodeType

/-- The child where the key belongs, and the frame around it. -/
theorem Sub.step (hs : Sub s (h + 1) t) (ha : Above s (h + 1) t fs) (hrows : Sorted t.rows) (hb : Belongs key t fs) :
    ∃ f k, f.fill k = t ∧ Above s h k (f :: fs) ∧ Sub s h k ∧ Sorted k.rows ∧ Belongs key k (f :: fs) ∧
      Found s key [f] ∧ (s.node t.page).internalNodeChild ((s.node t.page).internalNodeFindChild key) = some k.page := by
  obtain ⟨kids, hl, hle, ht, hk⟩ := hs
  have hrows' : Sorted (kids.flatMap Part.rows) := by
    rw [ht, rows_join] at hrows
    exact hrows
  obtain ⟨k₁, k, k₂, rfl, hfind, hbk⟩ := hb.child hl hrows' ht
  have hkm : k ∈ k₁ ++ k :: k₂ := List.mem_append_right _ (List.mem_cons_self ..)
  have hget : (k₁ ++ k :: k₂)[k₁.length]? = some k := by
    rw [List.getElem?_append_right (le_refl _), Nat.sub_self]
    rfl
  refine ⟨⟨t.page, k₁, k₂⟩, k, ht.symm, ⟨hl, hle, fun x hx => hk x ((sublist_append_cons ..).mem hx), (hk k hkm).2.1,
    (hk k hkm).2.2, ?_⟩, (hk k hkm).1, ?_, hbk, ?_, ?_⟩
  · have hfill : Frame.fill ⟨t.page, k₁, k₂⟩ k = t := ht.symm
    rw [hfill]
    exact ha
  · rw [List.flatMap_append, List.flatMap_cons] at hrows'
    exact hrows'.sublist ((List.sublist_append_left ..).trans (List.sublist_append_right ..))
  · intro g hg
    obtain rfl := List.mem_singleton.mp hg
    exact hfind
  · rw [hfind]
    exact hl.child hget

/-- From an inner node down to a leaf. -/
theorem Sub.descend (hs : Sub s (h + 1) t) (ha : Above s (h + 1) t fs) (hrows : Sorted t.rows) (hb : Belongs key t fs)
    (hd : h < d) :
    ∃ gs p, gs.length = h + 1 ∧ plug (Part.leaf p (s.node p).cells) (gs ++ fs) = plug t fs ∧
      Above s 0 (Part.leaf p (s.node p).cells) (gs ++ fs) ∧ Sub s 0 (Part.leaf p (s.node p).cells) ∧
      Belongs key (Part.leaf p (s.node p).cells) (gs ++ fs) ∧ Found s key gs ∧
      s.internalNodeFind d t.page key = some (s.leafNodeNavigate p key) := by
  induction h generalizing t fs d with
  | zero =>
    obtain ⟨d, rfl⟩ := Nat.exists_eq_succ_of_ne_zero (Nat.ne_of_gt hd)
    obtain ⟨f, k, hfill, hak, hk, -, hbk, hf, hchild⟩ := hs.step ha hrows hb
    obtain ⟨htype, hleaf⟩ := hk
    rw [hleaf] at hak hbk hfill
    refine ⟨[f], k.page, rfl, ?_, hak, ⟨htype, rfl⟩, hbk, hf, ?_⟩
    · rw [List.singleton_append, plug, hfill]
    · rw [internalNodeFind, hchild]
      simp only [Option.bind_eq_bind, Option.bind_some]
      rw [htype]
      rfl
  | succ h ih =>
    obtain ⟨d, rfl⟩ := Nat.exists_eq_succ_of_ne_zero (Nat.ne_of_gt (lt_of_le_of_lt (Nat.zero_le _) hd))
    obtain ⟨f, k, hfill, hak, hk, hkrows, hbk, hf, hchild⟩ := hs.step ha hrows hb
    obtain ⟨gs, p, hlen, hplug, hap, hsub, hbp, hgs, hfind⟩ := ih hk hak hkrows hbk (Nat.lt_of_succ_lt_succ hd)
    have happ : gs ++ f :: fs = (gs ++ [f]) ++ fs := by rw [List.append_assoc, List.singleton_append]
    rw [happ] at hplug hap hbp
    refine ⟨gs ++ [f], p, ?_, ?_, hap, hsub, hbp, fun g hg => ?_, ?_⟩
    · rw [List.length_append, hlen, List.length_singleton]
    · rw [hplug, plug, hfill]
    · rcases List.mem_append.mp hg with hg | hg
      · exact hgs g hg
      · exact hf g hg
    · rw [internalNodeFind, hchild]
      simp only [Option.bind_eq_bind, Option.bind_some]
      rw [hk.internal]
      exact hfind

/-! ## The cursor -/

omit [Cell C] in
theorem after_rightmost (hr : Rightmost fs) : after fs = [] := by
  induction fs with
  | nil => rfl
  | cons f fs ih =>
    rw [after, hr f (List.mem_cons_self ..), ih fun g hg => hr g (List.mem_cons_of_mem _ hg)]
    rfl

omit [Cell C] in
theorem Chained.last {ps : List Nat} (hc : Chained s (ps ++ [p])) : (s.node p).nextLeaf = 0 := by
  obtain ⟨a, hc⟩ := hc
  induction ps generalizing a with
  | nil =>
    obtain ⟨rfl, -, hc⟩ := hc
    exact hc
  | cons q ps ih => exact ih _ hc.2.2

/-- A place in a leaf is never taken for one in the next leaf. -/
theorem leafNodeNavigate_eq (hc : (s.node p).cells = c₁ ++ c₂) (h₁ : ∀ c ∈ c₁, Cell.key c < key)
    (h₂ : ∀ c ∈ c₂, key < Cell.key c) (hb : Belongs key (Part.leaf p (s.node p).cells) fs)
    (hch : Chained s ((plug (Part.leaf p (s.node p).cells) fs).leaves.map Prod.fst)) :
    s.leafNodeNavigate p key = ⟨p, c₁.length, c₂.isEmpty⟩ := by
  have hfind := leafNodeFind_eq hc h₁ h₂
  rw [leafNodeNavigate, hfind, hc, List.length_append]
  dsimp only
  by_cases hnil : c₂ = []
  · subst hnil
    rw [List.length_nil, Nat.add_zero, if_pos (le_refl _)]
    have hright : Rightmost fs := by
      refine hb.last.resolve_right fun hn => ?_
      obtain ⟨hne, hle⟩ := hn
      rw [Part.maxKey, rows_leaf, hc, List.append_nil] at hle
      rw [rows_leaf, hc, List.append_nil] at hne
      obtain ⟨c, hcm, hck⟩ := lastKey_mem hne
      have := h₁ c hcm
      omega
    have hlast : (s.node p).nextLeaf = 0 := by
      rw [plug_leaves, after_rightmost hright, List.append_nil, List.map_append] at hch
      exact hch.last
    rw [if_pos hlast]
    rfl
  · have hpos := List.length_pos_iff.mpr hnil
    rw [if_neg (by omega)]
    cases c₂ with
    | nil => exact absurd rfl hnil
    | cons c c₂ => rfl

/-- Where the cursor of a new key is. -/
theorem WellFormed.find (hw : WellFormed s h t) (hne : ∀ c ∈ t.rows, Cell.key c ≠ key) (hd : h < d) :
    ∃ fs p c₁ c₂, (s.node p).cells = c₁ ++ c₂ ∧ (∀ c ∈ c₁, Cell.key c < key) ∧ (∀ c ∈ c₂, key < Cell.key c) ∧
      fs.length = h ∧ plug (Part.leaf p (s.node p).cells) fs = t ∧ Above s 0 (Part.leaf p (s.node p).cells) fs ∧
      Sub s 0 (Part.leaf p (s.node p).cells) ∧ Belongs key (Part.leaf p (s.node p).cells) fs ∧ Found s key fs ∧
      s.btreeFind d key = some ⟨p, c₁.length, c₂.isEmpty⟩ := by
  have hroot : Above s h t [] := ⟨hw.root, hw.isRoot⟩
  have hb : Belongs key t [] :=
    ⟨fun x hx => absurd hx List.not_mem_nil, fun x hx => absurd hx List.not_mem_nil,
      Or.inl fun f hf => absurd hf List.not_mem_nil⟩
  obtain ⟨fs, p, hlen, hplug, ha, hs, hbp, hf, hfind⟩ : ∃ fs p, fs.length = h ∧
      plug (Part.leaf p (s.node p).cells) fs = t ∧ Above s 0 (Part.leaf p (s.node p).cells) fs ∧
      Sub s 0 (Part.leaf p (s.node p).cells) ∧ Belongs key (Part.leaf p (s.node p).cells) fs ∧ Found s key fs ∧
      s.btreeFind d key = some (s.leafNodeNavigate p key) := by
    have hsub := hw.sub
    cases h with
    | zero =>
      have hleaf := hsub.2
      refine ⟨[], t.page, rfl, hleaf.symm, hleaf ▸ hroot, hleaf ▸ hsub, hleaf ▸ hb,
        fun f hf => absurd hf List.not_mem_nil, ?_⟩
      rw [btreeFind, ← hw.root, hsub.1]
    | succ h =>
      obtain ⟨gs, p, hlen, hplug, ha, hs, hbp, hf, hfind⟩ := hsub.descend hroot hw.sorted hb
        (lt_trans (Nat.lt_succ_self h) hd)
      rw [List.append_nil] at hplug ha hbp
      refine ⟨gs, p, hlen, hplug, ha, hs, hbp, hf, ?_⟩
      rw [btreeFind, ← hw.root, hsub.internal]
      exact hfind
  have hrows : ∀ c ∈ (s.node p).cells, c ∈ t.rows := fun c hc => by
    rw [← hplug, plug_rows, rows_leaf]
    exact List.mem_append_left _ (List.mem_append_right _ hc)
  have hsorted : Sorted (s.node p).cells := by
    have := hw.sorted
    rw [← hplug, plug_rows, rows_leaf] at this
    exact this.sublist ((List.sublist_append_right ..).trans (List.sublist_append_left ..))
  obtain ⟨c₁, c₂, hc, h₁, h₂⟩ := exists_place hsorted fun c hc => hne c (hrows c hc)
  refine ⟨fs, p, c₁, c₂, hc, h₁, h₂, hlen, hplug, ha, hs, hbp, hf, ?_⟩
  rw [hfind, leafNodeNavigate_eq hc h₁ h₂ hbp (by rw [hplug]; exact hw.chained)]

end Tree

end CustomDB
