import CustomDB.Tree.Root

/-!
# Up the tree

A node that splits leaves a new node for its parent; the climb ends at a node with room, or at a new root.
-/

namespace CustomDB

open Lib

namespace Tree

variable {C : Type} [Cell C] {s t u v : Store C} {h d j m o p w : Nat} {key : Int} {a b k : Part C}
  {kids k₁ k₂ l r : List (Part C)} {n n' : Node C} {f : Frame C} {fs : List (Frame C)}

open Store

/-! ## The halves as subtrees -/

theorem Halved.family (hv : Halved s t o w l r) (hf : Family s h (l ++ r)) (ho : o ∉ (l ++ r).flatMap Part.pages)
    (hw : w ∉ (l ++ r).flatMap Part.pages) : Family t h (l ++ r) := by
  refine hf.of_tops (fun q hq => taken_of_file hv.file hq) (fun q hq hqk => ?_) fun k hk => ?_
  · exact hv.rest q (fun hn => ho (hn ▸ hq)) (fun hn => hw (hn ▸ hq)) hqk
  · rcases List.mem_append.mp hk with hm | hm
    · rw [hv.oldKids k hm]
      exact alike_under ..
    · rw [hv.newKids k hm]
      exact alike_under ..

theorem Halved.sub (hv : Halved s t o w l r) (hf : Family t h (l ++ r))
    (hflag : ∀ k ∈ l ++ r, (s.node k.page).isRoot = false) :
    Sub t (h + 1) (Part.join o l) ∧ Sub t (h + 1) (Part.join w r) := by
  constructor
  · refine ⟨l, hv.old.1, hv.old.2.1, rfl, fun k hk => ⟨hf.sub k (List.mem_append_left _ hk), ?_, ?_⟩⟩
    · rw [hv.oldKids k hk]
      rfl
    · rw [hv.oldKids k hk]
      exact hflag k (List.mem_append_left _ hk)
  · refine ⟨r, hv.new.1, hv.new.2.1, rfl, fun k hk => ⟨hf.sub k (List.mem_append_right _ hk), ?_, ?_⟩⟩
    · rw [hv.newKids k hk]
      rfl
    · rw [hv.newKids k hk]
      exact hflag k (List.mem_append_right _ hk)

theorem Halved.extends (hv : Halved s t o w l r) : Extends s t := by
  refine ⟨fun q hq => taken_of_file hv.file hq, fun q _ => ?_, by rw [hv.file]⟩
  by_cases hqo : q = o
  · rw [hqo]
    exact hv.old.2.2.nextLeaf
  by_cases hqw : q = w
  · rw [hqw]
    exact hv.new.2.2.nextLeaf
  by_cases hqk : q ∈ (l ++ r).map Part.page
  · obtain ⟨k, hk, rfl⟩ := List.mem_map.mp hqk
    rcases List.mem_append.mp hk with hk | hk
    · rw [hv.oldKids k hk]
      rfl
    · rw [hv.newKids k hk]
      rfl
  · rw [hv.rest q hqo hqw hqk]

theorem Links.ends (hl : Links n kids) (hs : ∀ k ∈ kids, Sub s h k) (he : ∀ k, kids.getLast? = some k → k.Ends) :
    (Part.join p kids).Ends := by
  obtain ⟨k, hk, -, hmem⟩ := hl.getLast
  rw [Part.Ends, lastCells_join hk (hs k hmem).leaves_ne]
  exact he k hk

theorem Family.sub_join (hf : Family s h kids) (hk : Links (s.node p) kids) (hle : (s.node p).numKeys ≤ internalNodeMaxKeys)
    (hpar : ∀ k ∈ kids, (s.node k.page).parent = p) (hflag : ∀ k ∈ kids, (s.node k.page).isRoot = false) :
    Sub s (h + 1) (Part.join p kids) :=
  ⟨kids, hk, hle, rfl, fun k hm => ⟨hf.sub k hm, hpar k hm, hflag k hm⟩⟩

/-- The pages of a subtree are valid page numbers. -/
theorem Family.valid (hf : Family s h kids) (hp : Taken s p) (ha : Allocates s j) :
    ∀ q ∈ (Part.join p kids).pages, q ≠ 0 ∧ q ≠ invalidPageNum := by
  intro q hq
  rcases List.mem_cons.mp hq with rfl | hq
  · exact ha.valid hp
  · exact ha.valid (hf.taken q hq)

theorem maxKey_join (hk : kids.getLast? = some k) (he : k.Ends) : (Part.join p kids).maxKey = k.maxKey := by
  have hne : k.leaves ≠ [] := fun hn => he (by rw [Part.lastCells, hn]; rfl)
  have hlast : (Part.join p kids).lastCells = k.lastCells := lastCells_join hk hne
  have hends : (Part.join p kids).Ends := by
    rw [Part.Ends, hlast]
    exact he
  rw [← hends.rows_ne.2, hlast, he.rows_ne.2]

/-! ## Splitting a full node -/

/-- The node on page `p` is full, and `b` belongs between its children `k₁` and `k₂`. -/
structure Full (s : Store C) (h p : Nat) (b : Part C) (k₁ k₂ : List (Part C)) : Prop where
  links : Links (s.node p) (k₁ ++ k₂)
  full : (s.node p).numKeys = internalNodeMaxKeys
  family : Family s h (k₁ ++ b :: k₂)
  taken : Taken s p
  apart : p ∉ (k₁ ++ b :: k₂).flatMap Part.pages
  ends : b.Ends ∧ ∀ k ∈ (k₁ ++ k₂).drop (internalNodeMaxKeys / 2), k.Ends
  parent : ∀ k ∈ k₁ ++ k₂, (s.node k.page).parent = p
  isRoot : ∀ k ∈ k₁ ++ b :: k₂, (s.node k.page).isRoot = false

theorem Full.last_ends (hv : Full s h p b k₁ k₂) : ∀ k, (k₁ ++ k₂).getLast? = some k → k.Ends := by
  intro k hk
  have hlen : (k₁ ++ k₂).length = internalNodeMaxKeys + 1 := by rw [hv.links.count, hv.full]
  refine hv.ends.2 k ?_
  obtain ⟨ks, hks⟩ := List.getLast?_eq_some_iff.mp hk
  rw [hks] at hlen ⊢
  rw [List.length_append, List.length_singleton] at hlen
  rw [List.drop_append_of_le_length (by rw [Nat.add_right_cancel hlen]; decide)]
  exact List.mem_append_right _ (List.mem_singleton_self k)

theorem Full.maxKey (hv : Full s h p b k₁ k₂) (ha : Allocates s j) (hd : h + 1 < d) :
    s.getNodeMaxKey d p = some (Part.join p (k₁ ++ k₂)).maxKey := by
  have hf := hv.family.sublist (sublist_append_cons k₁ k₂ b)
  have hsub := hf.sub_join hv.links (le_of_eq hv.full) hv.parent fun k hk =>
    hv.isRoot k ((sublist_append_cons k₁ k₂ b).mem hk)
  exact hsub.getNodeMaxKey_ends (hf.valid hv.taken ha) hd (hv.links.ends hf.sub hv.last_ends)

theorem Full.congr (hv : Full s h p b k₁ k₂) (ht : ∀ q, Taken s q → Taken u q)
    (hin : ∀ q, Taken s q → u.node q = s.node q) : Full u h p b k₁ k₂ := by
  have hpage : ∀ k ∈ k₁ ++ b :: k₂, u.node k.page = s.node k.page := fun k hk =>
    hin _ (hv.family.taken _ (hv.family.page_mem hk))
  have hp := hin p hv.taken
  refine ⟨by rw [hp]; exact hv.links, by rw [hp]; exact hv.full, ?_, ht p hv.taken, hv.apart, hv.ends, fun k hk => ?_,
    fun k hk => ?_⟩
  · exact hv.family.congr ht (fun k hk q hq _ => hin q (hv.family.taken _ (mem_pages hk hq))) fun k hk =>
      Alike.of_eq (hpage k hk)
  · rw [hpage k ((sublist_append_cons k₁ k₂ b).mem hk)]
    exact hv.parent k hk
  · rw [hpage k hk]
    exact hv.isRoot k hk

/-- The children of a full node go to its page and to an empty one. -/
theorem Full.halved (hv : Full s h o b k₁ k₂) (hw : Taken s w) (hwk : w ∉ (k₁ ++ b :: k₂).flatMap Part.pages)
    (how : o ≠ w)
    (hempty : (s.node w).nodeType = .internal ∧ (s.node w).numKeys = 0 ∧ (s.node w).rightChild = invalidPageNum)
    (ha : Allocates s j) (hd : h + 1 < d) :
    ∃ t u maxAfter l r, s.moveHalf (internalNodeInsert d (m + 1)) o w = some t ∧
      t.getNodeMaxKey d o = some maxAfter ∧
      internalNodeInsert d (m + 1) t (if b.maxKey < maxAfter then o else w) b.page = some u ∧
      l ++ r = k₁ ++ b :: k₂ ∧ Halved s u o w l r ∧ Sub u (h + 1) (Part.join o l) ∧ Sub u (h + 1) (Part.join w r) ∧
      (Part.join o l).Ends ∧ (Part.join w r).Ends ∧ u.getNodeMaxKey d o = some (Part.join o l).maxKey := by
  have hsub := sublist_append_cons k₁ k₂ b
  have hsplit : Splitting s h o w (k₁ ++ k₂) :=
    ⟨hv.links, hv.full, hv.family.sublist hsub, ⟨hv.taken, fun hn => hv.apart ((hsub.flatMap _).mem hn)⟩,
      ⟨hw, fun hn => hwk ((hsub.flatMap _).mem hn)⟩, how, hv.ends.2, hempty⟩
  obtain ⟨t, u, maxAfter, l, r, ht, hmax, hu, hlr, hh⟩ :=
    halves (m := m) hsplit hv.family hv.apart hwk hv.ends.1 hv.parent ha hd
  have hfu := hh.family (hlr ▸ hv.family) (hlr ▸ hv.apart) (hlr ▸ hwk)
  obtain ⟨hl, hr⟩ := hh.sub hfu (hlr ▸ hv.isRoot)
  have hlend := hh.old.1.ends (p := o) (fun k hk => hfu.sub k (List.mem_append_left _ hk)) hh.ends.1
  have hrend := hh.new.1.ends (p := w) (fun k hk => hfu.sub k (List.mem_append_right _ hk)) hh.ends.2
  refine ⟨t, u, maxAfter, l, r, ht, hmax, hu, hlr, hh, hl, hr, hlend, hrend, ?_⟩
  exact hl.getNodeMaxKey_ends ((hfu.sublist (List.sublist_append_left ..)).valid (taken_of_file hh.file hv.taken)
    (allocates_of_file hh.file ha)) hd hlend

/-! ## A split below the root -/

/-- The two halves of the full node on page `p`, seen from the store before. -/
structure Split (s u : Store C) (h p w : Nat) (l r : List (Part C)) (j : Nat) : Prop where
  new : ¬ Taken s w ∧ Taken u w
  keeps : Extends s u
  allocates : Allocates u j
  old : Sub u (h + 1) (Part.join p l) ∧ (Part.join p l).Ends
  upper : Sub u (h + 1) (Part.join w r) ∧ (Part.join w r).Ends
  head : SameHead (s.node p) (u.node p)
  isRoot : (u.node w).isRoot = false
  rest : ∀ q, Taken s q → q ≠ p → q ∉ (l ++ r).map Part.page → u.node q = s.node q

theorem splitAndInsert_below (hv : Full s h p b k₁ k₂) (hroot : (s.node p).isRoot = false)
    (hg : (s.node p).parent ≠ p) (ha : Allocates s (j + 1)) (hd : h + 1 < d) :
    ∃ u w l r, l ++ r = k₁ ++ b :: k₂ ∧ Split s u h p w l r j ∧
      s.internalNodeSplitAndInsert (internalNodeInsert d (m + 1)) d p b.page =
        internalNodeInsert d (m + 1) (u.modify (s.node p).parent fun n =>
          n.updateInternalNodeKey (Part.join p (k₁ ++ k₂)).maxKey (Part.join p l).maxKey) (s.node p).parent w := by
  have hfresh := getUnusedPageNum_fresh ha
  have holdmax := hv.maxKey ha hd
  have hbm : b ∈ k₁ ++ b :: k₂ := List.mem_append_right _ (List.mem_cons_self ..)
  have hcmax := hv.family.maxKey hbm hv.ends.1 (lt_of_le_of_lt (Nat.le_succ h) hd) ha
  obtain ⟨w, s₁, hget⟩ : ∃ w s₁, s.getUnusedPageNum = (w, s₁) := ⟨_, _, rfl⟩
  rw [hget] at hfresh
  dsimp only at hfresh
  obtain ⟨s₂, hs₂⟩ : ∃ s₂, s₂ = s₁.modify w Node.initializeInternalNode := ⟨_, rfl⟩
  have hmod : s₂ = (s₁.getPage w).put w (s₁.node w).initializeInternalNode := hs₂
  have hwp : w ≠ p := fun hn => hfresh.new (hn ▸ hv.taken)
  have hwk : w ∉ (k₁ ++ b :: k₂).flatMap Part.pages := fun hn => hfresh.new (hv.family.taken w hn)
  have htaken : ∀ q, Taken s q ∨ q = w → Taken s₂ q := by
    rw [hmod]
    rintro q (hq | rfl)
    · exact hfresh.keeps q hq
    · exact hfresh.taken
  have hkeep : ∀ q, Taken s q → s₂.node q = s.node q := fun q hq => by
    have hqw : q ≠ w := fun hn => hfresh.new (hn ▸ hq)
    rw [hmod, put_node_of_ne hqw, getPage_node, hfresh.node q hqw]
  have hnew : s₂.node w = (s₁.node w).initializeInternalNode := by rw [hmod, put_node_same]
  have ha₂ : Allocates s₂ j := by
    rw [hmod]
    exact hfresh.allocates.put
  have hv₂ : Full s₂ h p b k₁ k₂ := hv.congr (fun q hq => htaken q (Or.inl hq)) hkeep
  obtain ⟨t, u, maxAfter, l, r, ht, hmax, hu, hlr, hh, hl, hr, hlend, hrend, hnewmax⟩ :=
    hv₂.halved (m := m) (htaken w (Or.inr rfl)) hwk hwp.symm (by rw [hnew]; exact ⟨rfl, rfl, rfl⟩) ha₂ hd
  have hpar : (u.node p).parent = (s.node p).parent := by
    rw [hh.old.2.2.parent, hkeep p hv.taken]
  have hext : Extends s s₂ := by
    rw [hmod]
    exact hfresh.extends.trans (Extends.put rfl)
  refine ⟨u, w, l, r, hlr, ⟨⟨hfresh.new, taken_of_file hh.file (htaken w (Or.inr rfl))⟩, hext.trans hh.extends,
    allocates_of_file hh.file ha₂, ⟨hl, hlend⟩, ⟨hr, hrend⟩, ?_, ?_, fun q hq hqp hqk => ?_⟩, ?_⟩
  · rw [← hkeep p hv.taken]
    exact hh.old.2.2
  · rw [hh.new.2.2.isRoot, hnew]
    rfl
  · rw [hh.rest q hqp (fun hn => hfresh.new (hn ▸ hq)) hqk, hkeep q hq]
  · have hp₁ : s₁.node p = s.node p := hfresh.node p hwp.symm
    have hsplit : s₁.splitPages d p w = some (s₂, (s.node p).parent, p) := by
      rw [splitPages, hp₁, if_neg (by rw [hroot]; decide), hs₂]
      rfl
    rw [internalNodeSplitAndInsert, holdmax, hcmax, hget]
    simp only [Option.bind_eq_bind, Option.bind_some]
    rw [hsplit]
    simp only [Option.bind_some]
    rw [ht]
    simp only [Option.bind_some]
    rw [hmax]
    simp only [Option.bind_some]
    rw [hu]
    simp only [Option.bind_some]
    rw [hnewmax]
    simp only [Option.bind_some]
    rw [hp₁, if_neg (by rw [hroot]; decide), node_modify_of_ne hg.symm, hpar]

/-! ## A split of the root -/

/-- The root is over two new pages. -/
structure Grown (s v : Store C) (h o w : Nat) (l r : List (Part C)) : Prop where
  new : ¬ Taken s o ∧ ¬ Taken s w ∧ o ≠ w
  sub : Sub v (h + 2) (Part.join s.rootPageNum [Part.join o l, Part.join w r])
  isRoot : (v.node s.rootPageNum).isRoot = true
  taken : Taken v o ∧ Taken v w
  keeps : Extends s v

theorem Raised.extends (hr : Raised s v o w key kids n j) (hn : n.nextLeaf = (s.node w).nextLeaf) : Extends s v := by
  refine ⟨fun q hq => hr.taken q (Or.inl hq), fun q hq => ?_, hr.root⟩
  by_cases hqr : q = s.rootPageNum
  · rw [hqr]
    exact hr.head.2.2
  by_cases hqw : q = w
  · rw [hqw, hr.right]
    exact hn
  by_cases hqk : q ∈ kids.map Part.page
  · obtain ⟨k, hk, rfl⟩ := List.mem_map.mp hqk
    rw [hr.tops k hk]
    rfl
  · rw [hr.rest q hq hqr hqw hqk]

/-- The full node has moved to page `o`. -/
theorem Raised.full (hr : Raised s v o w key (k₁ ++ k₂) n j) (hv : Full s h s.rootPageNum b k₁ k₂)
    (hw : w ∉ (k₁ ++ b :: k₂).flatMap Part.pages) : Full v h o b k₁ k₂ := by
  have hsub := sublist_append_cons k₁ k₂ b
  have hbm : b ∈ k₁ ++ b :: k₂ := List.mem_append_right _ (List.mem_cons_self ..)
  have hb : b.page ∉ (k₁ ++ k₂).map Part.page := fun hn => by
    obtain ⟨k, hk, hkb⟩ := List.mem_map.mp hn
    exact hv.family.page_ne hk k.page (hv.family.sub k (hsub.mem hk)).page_mem (hkb ▸ (hv.family.sub b hbm).page_mem)
  have hrest : ∀ q ∈ (k₁ ++ b :: k₂).flatMap Part.pages, q ∉ (k₁ ++ k₂).map Part.page → v.node q = s.node q :=
    fun q hq hqk => hr.rest q (hv.family.taken q hq) (fun hn => hv.apart (hn ▸ hq)) (fun hn => hw (hn ▸ hq)) hqk
  refine ⟨?_, ?_, ?_, hr.taken o (Or.inr rfl), fun hn => hr.new (hv.family.taken o hn), hv.ends, fun k hk => ?_,
    fun k hk => ?_⟩
  · rw [hr.left]
    exact Alike.links ⟨_, _, rfl⟩ hv.links
  · rw [hr.left]
    exact hv.full
  · refine hv.family.of_tops (fun q hq => hr.taken q (Or.inl hq)) (fun q hq hqk => ?_) fun k hk => ?_
    · exact hrest q hq fun hn => hqk ((hsub.map _).mem hn)
    · rcases mem_append_cons hk with hk | rfl
      · rw [hr.tops k hk]
        exact alike_under ..
      · exact Alike.of_eq (hrest _ (hv.family.page_mem hk) hb)
  · rw [hr.tops k hk]
    rfl
  · rcases mem_append_cons hk with hk | rfl
    · rw [hr.tops k hk]
      exact hv.isRoot k (hsub.mem hk)
    · rw [hrest _ (hv.family.page_mem hk) hb]
      exact hv.isRoot k hk

theorem splitAndInsert_root (hv : Full s h s.rootPageNum b k₁ k₂) (hroot : (s.node s.rootPageNum).isRoot = true)
    (ha : Allocates s (j + 2)) (hd : h + 1 < d) :
    ∃ v o w l r, l ++ r = k₁ ++ b :: k₂ ∧ Grown s v h o w l r ∧
      s.internalNodeSplitAndInsert (internalNodeInsert d (m + 1)) d s.rootPageNum b.page = some v := by
  have hfresh := getUnusedPageNum_fresh ha
  have holdmax := hv.maxKey ha hd
  have hbm : b ∈ k₁ ++ b :: k₂ := List.mem_append_right _ (List.mem_cons_self ..)
  have hcmax := hv.family.maxKey hbm hv.ends.1 (lt_of_le_of_lt (Nat.le_succ h) hd) ha
  have hsub := sublist_append_cons k₁ k₂ b
  obtain ⟨w, s₁, hget⟩ : ∃ w s₁, s.getUnusedPageNum = (w, s₁) := ⟨_, _, rfl⟩
  rw [hget] at hfresh
  dsimp only at hfresh
  have hwp : w ≠ s.rootPageNum := fun hn => hfresh.new (hn ▸ hv.taken)
  have hwk : w ∉ (k₁ ++ b :: k₂).flatMap Part.pages := fun hn => hfresh.new (hv.family.taken w hn)
  have hkeep : ∀ q, Taken s q → (s₁.getPage w).node q = s.node q := fun q hq =>
    hfresh.node q fun hn => hfresh.new (hn ▸ hq)
  have hv₁ : Full (s₁.getPage w) h s.rootPageNum b k₁ k₂ := hv.congr hfresh.keeps hkeep
  have hroot₁ : (s₁.getPage w).rootPageNum = s.rootPageNum := hfresh.root
  obtain ⟨x, hx, -, hxm⟩ := hv.links.getLast
  obtain ⟨o, v₁, hnew, hr⟩ := createNewRoot_internal (hroot₁.symm ▸ hv₁.links) (hv₁.family.sublist hsub)
    (hroot₁.symm ▸ hv₁.taken) (hroot₁.symm ▸ fun hn => hv.apart ((hsub.flatMap _).mem hn)) hx (hv.last_ends x hx)
    hfresh.taken (hroot₁.symm ▸ hwp) (fun hn => hwk ((hsub.flatMap _).mem hn)) hfresh.allocates hd
  have hv₂ := hr.full (hroot₁.symm ▸ hv₁) hwk
  have hoT : ¬ Taken s o := fun hn => hr.new (hfresh.keeps o hn)
  have how : o ≠ w := fun hn => hr.new (hn ▸ hfresh.taken)
  have hop : o ≠ s.rootPageNum := fun hn => hoT (hn ▸ hv.taken)
  obtain ⟨t, u, maxAfter, l, r, ht, hmax, hu, hlr, hh, hl, hru, hlend, hrend, hnewmax⟩ :=
    hv₂.halved (m := m) (hr.taken w (Or.inl hfresh.taken)) hwk how (by rw [hr.right]; exact ⟨rfl, rfl, rfl⟩)
      hr.allocates hd
  have hlinks := hr.links (Part.join o (k₁ ++ k₂)) (Part.join w r) rfl (maxKey_join hx (hv.last_ends x hx))
    (hv₂.links.ends (p := o) (fun k hk => hv₂.family.sub k (hsub.mem hk)) hv.last_ends).rows_ne.1 rfl
  rw [hroot₁] at hlinks
  have hpages : s.rootPageNum ∉ (l ++ r).flatMap Part.pages := hlr ▸ hv.apart
  have hru' : u.node s.rootPageNum = v₁.node s.rootPageNum := hh.rest _ hop.symm hwp.symm fun hn => by
    obtain ⟨k, hk, hkr⟩ := List.mem_map.mp hn
    exact hpages (hkr ▸ (hlr ▸ hv.family).page_mem hk)
  have hext : Extends s v₁ := hfresh.extends.trans (hr.extends rfl)
  have hut : Taken u s.rootPageNum := hh.extends.taken _ (hext.taken _ hv.taken)
  refine ⟨u.put s.rootPageNum ((u.node s.rootPageNum).updateInternalNodeKey
    (Part.join s.rootPageNum (k₁ ++ k₂)).maxKey (Part.join o l).maxKey), o, w, l, r, hlr, ⟨⟨hoT, hfresh.new, how⟩,
    ⟨[Part.join o l, Part.join w r], ?_, ?_, rfl, ?_⟩, ?_, ⟨?_, ?_⟩, ?_⟩, ?_⟩
  · rw [page_join, put_node_same, hru']
    have hfind : (v₁.node s.rootPageNum).internalNodeFindChild (Part.join s.rootPageNum (k₁ ++ k₂)).maxKey = 0 :=
      Links.findChild (show Links _ ([] ++ _) from hlinks) (List.cons_ne_nil _ _)
        (fun k hk => absurd hk List.not_mem_nil) fun k hk => le_of_eq (List.mem_singleton.mp hk ▸ rfl)
    exact Links.updateKey (show Links _ ([] ++ _ :: [_]) from hlinks) hfind rfl fun _ => ⟨hlend.rows_ne.1, rfl⟩
  · rw [page_join, put_node_same, hru']
    have hnum : (v₁.node s.rootPageNum).numKeys = 1 := hroot₁ ▸ hr.head.2.1
    show (v₁.node s.rootPageNum).numKeys ≤ internalNodeMaxKeys
    rw [hnum]
    decide
  · have hnd : (o :: l.flatMap Part.pages).Nodup ∧ (w :: r.flatMap Part.pages).Nodup := by
      have hn := (hlr ▸ hv.family.nodup : ((l ++ r).flatMap Part.pages).Nodup)
      have ho := (hlr ▸ hv₂.apart : o ∉ (l ++ r).flatMap Part.pages)
      have hw := (hlr ▸ hwk : w ∉ (l ++ r).flatMap Part.pages)
      rw [List.flatMap_append] at hn ho hw
      obtain ⟨hnl, hnr, -⟩ := List.nodup_append.mp hn
      exact ⟨List.nodup_cons.mpr ⟨fun hm => ho (List.mem_append_left _ hm), hnl⟩,
        List.nodup_cons.mpr ⟨fun hm => hw (List.mem_append_right _ hm), hnr⟩⟩
    have hne : ∀ q ∈ (l ++ r).flatMap Part.pages, q ≠ s.rootPageNum := fun q hq hn => hpages (hn ▸ hq)
    intro k hk
    rcases List.mem_cons.mp hk with rfl | hk
    · refine ⟨hl.congr hnd.1 fun q hq => put_node_of_ne ?_, ?_, ?_⟩
      · rcases List.mem_cons.mp hq with rfl | hq
        · exact hop
        · exact hne q (by rw [List.flatMap_append]; exact List.mem_append_left _ hq)
      · rw [page_join, put_node_of_ne hop, hh.old.2.2.parent, hr.left, hroot₁]
        rfl
      · rw [page_join, put_node_of_ne hop, hh.old.2.2.isRoot, hr.left]
    · obtain rfl := List.mem_singleton.mp hk
      refine ⟨hru.congr hnd.2 fun q hq => put_node_of_ne ?_, ?_, ?_⟩
      · rcases List.mem_cons.mp hq with rfl | hq
        · exact hwp
        · exact hne q (by rw [List.flatMap_append]; exact List.mem_append_right _ hq)
      · rw [page_join, put_node_of_ne hwp, hh.new.2.2.parent, hr.right, hroot₁]
        rfl
      · rw [page_join, put_node_of_ne hwp, hh.new.2.2.isRoot, hr.right]
        rfl
  · rw [put_node_same, hru']
    exact hroot₁ ▸ hr.head.1
  · exact hh.extends.taken _ (hr.taken o (Or.inr rfl))
  · exact hh.extends.taken _ (hr.taken w (Or.inl hfresh.taken))
  · exact (hext.trans hh.extends).trans (Extends.put rfl)
  · have hp₁ : s₁.node s.rootPageNum = s.node s.rootPageNum := hkeep _ hv.taken
    have hr₁ : s₁.rootPageNum = s.rootPageNum := hfresh.root
    have hvr : v₁.rootPageNum = s.rootPageNum := hext.root
    have hsplit : s₁.splitPages d s.rootPageNum w = some (v₁, s.rootPageNum, o) := by
      rw [splitPages, hp₁, if_pos hroot, ← createNewRoot_getPage, hnew]
      simp only [Option.bind_eq_bind, Option.bind_some, pure]
      rw [hvr, hlinks.child (i := 0) rfl]
      rfl
    rw [internalNodeSplitAndInsert, holdmax, hcmax, hget]
    simp only [Option.bind_eq_bind, Option.bind_some]
    rw [hsplit]
    simp only [Option.bind_some]
    rw [ht]
    simp only [Option.bind_some]
    rw [hmax]
    simp only [Option.bind_some]
    rw [hu]
    simp only [Option.bind_some]
    rw [hnewmax]
    simp only [Option.bind_some]
    rw [hp₁, if_pos hroot, modify_of_taken hut]

end Tree

end CustomDB
