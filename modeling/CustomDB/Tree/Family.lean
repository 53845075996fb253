import CustomDB.Tree.Alloc

/-!
# Siblings

Subtrees of one height side by side, and what a slot of their parent says of them. A new one takes its place among
them by its largest key, which `internal_node_insert` reads off its last leaf.
-/

namespace CustomDB

open Lib

namespace Tree

variable {C : Type} [Cell C]

/-- Subtrees of height `h` in the order of their keys, on pages of their own. -/
structure Family (s : Store C) (h : Nat) (kids : List (Part C)) : Prop where
  sub : ∀ k ∈ kids, Sub s h k
  nodup : (kids.flatMap Part.pages).Nodup
  taken : ∀ q ∈ kids.flatMap Part.pages, Taken s q
  sorted : Sorted (kids.flatMap Part.rows)

/-- The fields of a page that a change of the cells and slots keeps. -/
structure SameHead (n n' : Node C) : Prop where
  parent : n'.parent = n.parent
  isRoot : n'.isRoot = n.isRoot
  nextLeaf : n'.nextLeaf = n.nextLeaf

variable {s s' : Store C} {h p i : Nat} {a b k : Part C} {kids k₁ k₂ : List (Part C)} {n n' : Node C}

omit [Cell C] in
theorem SameHead.refl (n : Node C) : SameHead n n := ⟨rfl, rfl, rfl⟩

omit [Cell C] in
theorem SameHead.trans {m : Node C} (h : SameHead n n') (h' : SameHead n' m) : SameHead n m :=
  ⟨h'.parent.trans h.parent, h'.isRoot.trans h.isRoot, h'.nextLeaf.trans h.nextLeaf⟩

/-! ## Lists of siblings -/

omit [Cell C] in
theorem append_cons_cons (k₁ k₂ : List (Part C)) (a b : Part C) : k₁ ++ [a] ++ b :: k₂ = k₁ ++ a :: b :: k₂ := by
  rw [List.append_assoc, List.singleton_append]

omit [Cell C] in
theorem append_singleton_append (k₁ k₂ : List (Part C)) (a : Part C) : k₁ ++ [a] ++ k₂ = k₁ ++ a :: k₂ := by
  rw [List.append_assoc, List.singleton_append]

omit [Cell C] in
theorem sublist_append_cons (k₁ k₂ : List (Part C)) (b : Part C) : (k₁ ++ k₂).Sublist (k₁ ++ b :: k₂) :=
  (List.sublist_cons_self b k₂).append_left k₁

/-! ## Keys -/

theorem Sorted.lastKey_lt {r₁ r₂ : List C} (hs : Sorted (r₁ ++ r₂)) (h₁ : r₁ ≠ []) (h₂ : r₂ ≠ []) :
    Node.lastKey r₁ < Node.lastKey r₂ := by
  obtain ⟨c, hc, hck⟩ := lastKey_mem h₁
  obtain ⟨d, hd, hdk⟩ := lastKey_mem h₂
  rw [hck, hdk]
  exact (List.pairwise_append.mp hs).2.2 c hc d hd

theorem Sorted.maxKey_lt (hs : Sorted ((k₁ ++ b :: k₂).flatMap Part.rows)) (hb : b.rows ≠ []) :
    (∀ k ∈ k₁, k.rows ≠ [] → k.maxKey < b.maxKey) ∧ ∀ k ∈ k₂, k.rows ≠ [] → b.maxKey < k.maxKey := by
  constructor
  · intro k hk hne
    obtain ⟨l, r, rfl⟩ := List.append_of_mem hk
    refine Sorted.lastKey_lt (hs.sublist ?_) hne hb
    rw [List.flatMap_append, List.flatMap_append, List.flatMap_cons, List.flatMap_cons]
    exact ((List.sublist_append_left ..).trans (List.sublist_append_right ..)).append (List.sublist_append_left ..)
  · intro k hk hne
    obtain ⟨l, r, rfl⟩ := List.append_of_mem hk
    refine Sorted.lastKey_lt (hs.sublist ?_) hb hne
    rw [List.flatMap_append, List.flatMap_cons, List.flatMap_append, List.flatMap_cons]
    refine List.Sublist.trans ?_ (List.sublist_append_right ..)
    exact (List.Sublist.refl _).append ((List.sublist_append_left ..).trans (List.sublist_append_right ..))

/-- The key of a row of one sibling lies between the largest keys of the others. -/
theorem Sorted.between (hs : Sorted ((k₁ ++ b :: k₂).flatMap Part.rows)) {c : C} (hc : c ∈ b.rows) :
    (∀ k ∈ k₁, k.rows ≠ [] → k.maxKey < Cell.key c) ∧ Cell.key c ≤ b.maxKey ∧
      ∀ k ∈ k₂, k.rows ≠ [] → Cell.key c < k.maxKey := by
  have hb : b.rows ≠ [] := List.ne_nil_of_mem hc
  have hrows : b.rows.Sublist ((k₁ ++ b :: k₂).flatMap Part.rows) := by
    rw [List.flatMap_append, List.flatMap_cons]
    exact (List.sublist_append_left ..).trans (List.sublist_append_right ..)
  have hle : Cell.key c ≤ b.maxKey := Sorted.le_lastKey (hs.sublist hrows) hc
  refine ⟨fun k hk hne => ?_, hle, fun k hk hne => lt_of_le_of_lt hle ((hs.maxKey_lt hb).2 k hk hne)⟩
  obtain ⟨e, he, hek⟩ := lastKey_mem hne
  rw [List.flatMap_append, List.flatMap_cons] at hs
  rw [Part.maxKey, hek]
  exact (List.pairwise_append.mp hs).2.2 e (List.mem_flatMap.mpr ⟨k, hk, he⟩) c (List.mem_append_left _ hc)

/-- Only the last child may be without rows. -/
theorem Links.rows_ne (hl : Links n (k₁ ++ k₂)) (hne : k₂ ≠ []) (hk : k ∈ k₁) : k.rows ≠ [] := by
  have hcount := hl.count
  have hpos := List.length_pos_iff.mpr hne
  rw [List.length_append] at hcount
  obtain ⟨i, hi, rfl⟩ := List.getElem_of_mem hk
  refine (hl.slot i k₁[i] (by omega) ?_).2
  rw [List.getElem?_append_left hi]
  exact List.getElem?_eq_getElem hi

theorem Links.dropLast_rows_ne (hl : Links n (k₁ ++ k₂)) (hk : k ∈ k₂.dropLast) : k.rows ≠ [] := by
  have hne : k₂ ≠ [] := fun hn => by
    rw [hn] at hk
    exact List.not_mem_nil hk
  rw [← List.dropLast_append_getLast hne, ← List.append_assoc] at hl
  exact hl.rows_ne (List.cons_ne_nil _ _) (List.mem_append_right _ hk)

/-- The slot of the sibling in which a row lies. -/
theorem Links.findRow (hl : Links n (k₁ ++ b :: k₂)) (hs : Sorted ((k₁ ++ b :: k₂).flatMap Part.rows)) {c : C}
    (hc : c ∈ b.rows) : n.internalNodeFindChild (Cell.key c) = k₁.length := by
  obtain ⟨hbefore, hle, hafter⟩ := hs.between hc
  refine hl.findChild (List.cons_ne_nil _ _) (fun k hk => hbefore k hk (hl.rows_ne (List.cons_ne_nil _ _) hk))
    fun k hk => ?_
  rcases List.mem_cons.mp (List.mem_of_mem_dropLast hk) with rfl | hm
  · exact hle
  · exact le_of_lt (hafter k hm (hl.dropLast_rows_ne hk))

/-! ## Families -/

theorem Family.sublist (hf : Family s h kids) (hk : k₁.Sublist kids) : Family s h k₁ := by
  have hmap : ∀ {β : Type} (f : Part C → List β), (k₁.flatMap f).Sublist (kids.flatMap f) := fun f => hk.flatMap f
  exact ⟨fun k hm => hf.sub k (hk.mem hm), hf.nodup.sublist (hmap _), fun q hq => hf.taken q ((hmap _).mem hq),
    hf.sorted.sublist (hmap _)⟩

omit [Cell C] in
theorem mem_pages (hk : k ∈ kids) {q : Nat} (hq : q ∈ k.pages) : q ∈ kids.flatMap Part.pages :=
  List.mem_flatMap.mpr ⟨k, hk, hq⟩

theorem Family.page_mem (hf : Family s h kids) (hk : k ∈ kids) : k.page ∈ kids.flatMap Part.pages :=
  mem_pages hk (hf.sub k hk).page_mem

/-- Two siblings share no page. -/
theorem Family.page_ne (hf : Family s h (k₁ ++ b :: k₂)) (hk : k ∈ k₁ ++ k₂) : ∀ q ∈ k.pages, q ∉ b.pages := by
  have hnd := hf.nodup
  rw [List.flatMap_append, List.flatMap_cons] at hnd
  have hnd := (List.perm_append_comm_assoc ..).nodup_iff.mp hnd
  rw [← List.flatMap_append] at hnd
  intro q hq hb
  exact (List.nodup_append.mp hnd).2.2 q hb q (mem_pages hk hq) rfl

theorem Family.page_unique (hf : Family s h kids) (ha : a ∈ kids) (hb : b ∈ kids) {q : Nat} (hqa : q ∈ a.pages)
    (hqb : q ∈ b.pages) : a = b := by
  obtain ⟨k₁, k₂, rfl⟩ := List.append_of_mem hb
  rcases List.mem_append.mp ha with hm | hm
  · exact absurd hqb (hf.page_ne (List.mem_append_left _ hm) q hqa)
  · rcases List.mem_cons.mp hm with rfl | hm
    · rfl
    · exact absurd hqb (hf.page_ne (List.mem_append_right _ hm) q hqa)

theorem Family.page_ne_page (hf : Family s h (k₁ ++ k₂)) (ha : a ∈ k₁) (hb : b ∈ k₂) : a.page ≠ b.page := by
  have hnd := hf.nodup
  rw [List.flatMap_append] at hnd
  exact (List.nodup_append.mp hnd).2.2 _ (mem_pages ha (hf.sub a (List.mem_append_left _ ha)).page_mem) _
    (mem_pages hb (hf.sub b (List.mem_append_right _ hb)).page_mem)

/-- The pages under the tops stay, and of the tops all but the parent pointer. -/
theorem Family.congr (hf : Family s h kids) (ht : ∀ q, Taken s q → Taken s' q)
    (hin : ∀ k ∈ kids, ∀ q ∈ k.pages, q ≠ k.page → s'.node q = s.node q)
    (htop : ∀ k ∈ kids, Alike (s.node k.page) (s'.node k.page)) : Family s' h kids :=
  ⟨fun k hk => (hf.sub k hk).frame ((List.nodup_flatMap.mp hf.nodup).1 k hk) (hin k hk) (htop k hk), hf.nodup,
    fun q hq => ht q (hf.taken q hq), hf.sorted⟩

theorem Family.of_tops (hf : Family s h kids) (ht : ∀ q, Taken s q → Taken s' q)
    (hin : ∀ q ∈ kids.flatMap Part.pages, q ∉ kids.map Part.page → s'.node q = s.node q)
    (htop : ∀ k ∈ kids, Alike (s.node k.page) (s'.node k.page)) : Family s' h kids := by
  refine hf.congr ht (fun k hk q hq hqk => hin q (mem_pages hk hq) fun hmem => ?_) htop
  obtain ⟨l, hl, rfl⟩ := List.mem_map.mp hmem
  exact hqk (hf.page_unique hl hk (hf.sub l hl).page_mem hq ▸ rfl)

theorem Family.maxKey (hf : Family s h kids) (hk : k ∈ kids) (he : k.Ends) {d j : Nat} (hd : h < d)
    (ha : Allocates s j) : s.getNodeMaxKey d k.page = some k.maxKey :=
  (hf.sub k hk).getNodeMaxKey_ends (fun q hq => ha.valid (hf.taken q (mem_pages hk hq))) hd he

/-- `get_node_max_key` of an inner node. -/
theorem Links.maxKey (hl : Links (s.node p) kids) (hf : Family s h kids) (hk : kids.getLast? = some k) (he : k.Ends)
    {d j : Nat} (hd : h + 1 < d) (ha : Allocates s j) : s.getNodeMaxKey d p = some k.maxKey := by
  obtain ⟨d, rfl⟩ := Nat.exists_eq_succ_of_ne_zero (Nat.ne_of_gt (lt_of_le_of_lt (Nat.zero_le _) hd))
  obtain ⟨r, hr, hrc, hmem⟩ := hl.getLast
  obtain rfl := Option.some.inj (hk.symm.trans hr)
  have hvalid := ha.valid (hf.taken _ (hf.page_mem hmem))
  rw [Store.getNodeMaxKey, hl.nodeType]
  dsimp only
  rw [hrc, if_neg (by omega)]
  exact hf.maxKey hmem he (by omega) ha

theorem Links.child {i : Nat} (hl : Links n kids) (hk : kids[i]? = some k) : n.internalNodeChild i = some k.page := by
  obtain ⟨hik, -⟩ := List.getElem?_eq_some_iff.mp hk
  rw [hl.count] at hik
  rw [Node.internalNodeChild, if_neg (by omega)]
  by_cases hi : i = n.numKeys
  · subst hi
    rw [if_pos rfl, hl.last k hk]
  · rw [if_neg hi, (hl.slot i k (by omega) hk).1]

/-! ## A new slot -/

/-- The first child. -/
theorem Links.first (htype : n.nodeType = .internal) (hnum : n.numKeys = 0) :
    Links { n with rightChild := b.page } [b] := by
  refine ⟨htype, ?_, fun i k hi => ?_, fun k hk => ?_⟩
  · rw [hnum]
    rfl
  · rw [hnum] at hi
    exact absurd hi (Nat.not_lt_zero i)
  · rw [hnum] at hk
    obtain rfl := Option.some.inj hk
    rfl

/-- The first children. -/
theorem Links.take (hl : Links n kids) (hk : kids[i]? = some k) (hi : i ≤ n.numKeys) :
    Links { n with numKeys := i, rightChild := k.page } (kids.take (i + 1)) := by
  have hcount := hl.count
  refine ⟨hl.nodeType, ?_, fun m l hm hl' => ?_, fun l hl' => ?_⟩
  · rw [List.length_take]
    dsimp only
    omega
  · dsimp only at hm ⊢
    rw [List.getElem?_take_of_lt (by omega)] at hl'
    exact hl.slot m l (by omega) hl'
  · dsimp only at hl' ⊢
    rw [List.getElem?_take_of_lt (by omega)] at hl'
    obtain rfl := Option.some.inj (hk.symm.trans hl')
    rfl

/-- A child after the last one. -/
theorem Links.append (hl : Links n (k₁ ++ [a])) (ha : a.rows ≠ []) :
    Links { n with numKeys := n.numKeys + 1, slots := Function.update n.slots n.numKeys (a.page, a.maxKey),
                   rightChild := b.page } (k₁ ++ [a] ++ [b]) := by
  have hcount := hl.count
  have hlen : (k₁ ++ [a]).length = n.numKeys + 1 := hcount
  rw [List.length_append, List.length_singleton] at hcount
  refine ⟨hl.nodeType, ?_, fun i k hi hk => ?_, fun k hk => ?_⟩
  · rw [List.length_append, hlen]
    rfl
  · dsimp only at hi ⊢
    rw [List.getElem?_append_left (by omega)] at hk
    by_cases hin : i = n.numKeys
    · rw [hin] at hk ⊢
      have hka : (k₁ ++ [a])[n.numKeys]? = some a := by
        rw [List.getElem?_append_right (by omega), show n.numKeys - k₁.length = 0 by omega]
        rfl
      obtain rfl := Option.some.inj (hka.symm.trans hk)
      rw [Function.update_self]
      exact ⟨rfl, ha⟩
    · rw [Function.update_of_ne hin]
      exact hl.slot i k (by omega) hk
  · dsimp only at hk ⊢
    rw [List.getElem?_append_right (by omega), hlen, Nat.sub_self] at hk
    obtain rfl := Option.some.inj hk
    rfl

/-- A child before another one. -/
theorem Links.insert (hl : Links n (k₁ ++ k₂)) (hne : k₂ ≠ []) (hb : b.rows ≠ []) :
    Links { n with numKeys := n.numKeys + 1,
                   slots := Function.update (shiftSlots n.slots k₁.length n.numKeys) k₁.length (b.page, b.maxKey) }
      (k₁ ++ b :: k₂) := by
  have hcount := hl.count
  have hpos := List.length_pos_iff.mpr hne
  rw [List.length_append] at hcount
  -- the children behind the new one
  have hafter : ∀ i, k₁.length < i → (k₁ ++ b :: k₂)[i]? = (k₁ ++ k₂)[i - 1]? := by
    intro i hi
    rw [List.getElem?_append_right (by omega), List.getElem?_append_right (by omega),
      show i - k₁.length = (i - 1 - k₁.length) + 1 by omega, List.getElem?_cons_succ]
  refine ⟨hl.nodeType, ?_, fun i k hi hk => ?_, fun k hk => ?_⟩
  · rw [List.length_append, List.length_cons]
    dsimp only
    omega
  · dsimp only at hi ⊢
    rcases Nat.lt_trichotomy i k₁.length with hlt | heq | hgt
    · rw [Function.update_of_ne (by omega), shiftSlots, if_neg (by omega)]
      rw [List.getElem?_append_left hlt] at hk
      refine hl.slot i k (by omega) ?_
      rw [List.getElem?_append_left hlt]
      exact hk
    · subst heq
      rw [List.getElem?_append_right (le_refl _), Nat.sub_self] at hk
      obtain rfl := Option.some.inj hk
      rw [Function.update_self]
      exact ⟨rfl, hb⟩
    · rw [Function.update_of_ne (by omega), shiftSlots, if_pos ⟨hgt, by omega⟩]
      rw [hafter i hgt] at hk
      exact hl.slot (i - 1) k (by omega) hk
  · dsimp only at hk ⊢
    rw [hafter _ (by omega), Nat.add_sub_cancel] at hk
    exact hl.last k hk

end Tree

end CustomDB
