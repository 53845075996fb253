import CustomDB.Tree.Family

/-!
# Linking a subtree into its parent

`internal_node_insert` into a node with room, and the two halves of a node without.
-/

namespace CustomDB

open Lib

namespace Tree

variable {C : Type} [Cell C] {s s' : Store C} {h p d m j : Nat} {a b k : Part C}
  {kids k₁ k₂ : List (Part C)} {n n' : Node C}

open Store

/-! ## A node with room -/

omit [Cell C] in
theorem alike_under (n : Node C) (q : Nat) : Alike n (n.under q) := ⟨q, n.isRoot, rfl⟩

/-- The children as they are once the new one has its parent and the node has changed. -/
theorem Family.put (hf : Family s h (k₁ ++ b :: k₂)) (hnot : p ∉ (k₁ ++ b :: k₂).flatMap Part.pages) (q : Nat) :
    Family ((s.put b.page ((s.node b.page).under q)).put p n) h (k₁ ++ b :: k₂) := by
  have hbm : b ∈ k₁ ++ b :: k₂ := List.mem_append_right _ (List.mem_cons_self ..)
  have hne : ∀ q ∈ (k₁ ++ b :: k₂).flatMap Part.pages, q ≠ p := fun q hq hn => hnot (hn ▸ hq)
  refine hf.congr (fun _ ht => ht) (fun k hk q hq hqk => ?_) fun k hk => ?_
  · rw [put_node_of_ne (hne q (mem_pages hk hq))]
    by_cases hqb : q = b.page
    · rcases List.mem_append.mp hk with hm | hm
      · exact absurd (hqb ▸ (hf.sub b hbm).page_mem) (hf.page_ne (List.mem_append_left _ hm) q hq)
      · rcases List.mem_cons.mp hm with rfl | hm
        · exact absurd hqb hqk
        · exact absurd (hqb ▸ (hf.sub b hbm).page_mem) (hf.page_ne (List.mem_append_right _ hm) q hq)
    · exact put_node_of_ne hqb
  · rw [put_node_of_ne (hne _ (hf.page_mem hk))]
    by_cases hkb : k.page = b.page
    · rw [hkb, put_node_same]
      exact alike_under ..
    · rw [put_node_of_ne hkb]
      exact Alike.refl _

theorem internalNodeInsert_first (hp : Taken s p) (hc : Taken s b.page) (hne : b.page ≠ p)
    (hnum : (s.node p).numKeys = 0) (hright : (s.node p).rightChild = invalidPageNum) {cmax : Int}
    (hmax : s.getNodeMaxKey d b.page = some cmax) :
    internalNodeInsert d (m + 1) s p b.page =
      some ((s.put b.page ((s.node b.page).under p)).put p { s.node p with rightChild := b.page }) := by
  rw [internalNodeInsert, hmax]
  simp only [Option.bind_eq_bind, Option.bind_some, pure]
  rw [setParent_of_taken hc, put_node_of_ne hne.symm, if_neg (by rw [hnum]; decide), if_pos hright,
    modify_of_taken (taken_put.mpr hp), put_node_of_ne hne.symm]

/-- The new child finds its place by its largest key. -/
theorem internalNodeInsert_room (hl : Links (s.node p) (k₁ ++ k₂)) (hroom : (s.node p).numKeys < internalNodeMaxKeys)
    (hf : Family s h (k₁ ++ b :: k₂)) (hp : Taken s p) (hnot : p ∉ (k₁ ++ b :: k₂).flatMap Part.pages) (hb : b.Ends)
    (hlast : ∀ k, (k₁ ++ k₂).getLast? = some k → k.Ends) (ha : Allocates s j) (hd : h < d) :
    ∃ n', internalNodeInsert d (m + 1) s p b.page =
        some ((s.put b.page ((s.node b.page).under p)).put p n') ∧
      Links n' (k₁ ++ b :: k₂) ∧ SameHead (s.node p) n' ∧ n'.numKeys = (s.node p).numKeys + 1 := by
  have hbm : b ∈ k₁ ++ b :: k₂ := List.mem_append_right _ (List.mem_cons_self ..)
  have hbp : b.page ≠ p := fun hn => hnot (hn ▸ hf.page_mem hbm)
  have hbt : Taken s b.page := hf.taken _ (hf.page_mem hbm)
  obtain ⟨r, hr, hrc, hrm⟩ := hl.getLast
  have hrm' : r ∈ k₁ ++ b :: k₂ := (List.sublist_append_right [b] k₂).append_left k₁ |>.mem hrm
  have hrend := hlast r hr
  have hvalid := ha.valid (hf.taken _ (hf.page_mem hrm'))
  have hlt := hf.sorted.maxKey_lt hb.rows_ne.1
  rw [internalNodeInsert, hf.maxKey hbm hb hd ha]
  simp only [Option.bind_eq_bind, Option.bind_some, pure]
  rw [setParent_of_taken hbt, put_node_of_ne hbp.symm, if_neg (by omega), hrc, if_neg hvalid.2,
    modify_of_taken (taken_put.mpr hp), put_node_of_ne hbp.symm]
  rw [(hf.put hnot p).maxKey hrm' hrend hd ha.put.put]
  simp only [Option.bind_some]
  by_cases hk₂ : k₂ = []
  · subst hk₂
    rw [List.append_nil] at hl hr hrm
    obtain ⟨k₀, rfl⟩ := List.getLast?_eq_some_iff.mp hr
    rw [if_pos (hlt.1 r hrm hrend.rows_ne.1), modify_of_taken (taken_put.mpr (taken_put.mpr hp)), put_node_same,
      put_put_same]
    exact ⟨_, rfl, hl.append hrend.rows_ne.1, ⟨rfl, rfl, rfl⟩, rfl⟩
  · have hfind : (s.node p).internalNodeFindChild b.maxKey = k₁.length := by
      refine hl.findChild hk₂ (fun k hk => ?_) fun k hk => ?_
      · exact hlt.1 k hk (hl.rows_ne hk₂ hk)
      · exact le_of_lt (hlt.2 k (List.mem_of_mem_dropLast hk) (hl.dropLast_rows_ne hk))
    have hrk : b.maxKey < r.maxKey := by
      refine hlt.2 r ?_ hrend.rows_ne.1
      rw [List.getLast?_append_of_ne_nil _ hk₂] at hr
      exact List.mem_of_getLast? hr
    rw [if_neg (not_lt.mpr (le_of_lt hrk)), modify_of_taken (taken_put.mpr (taken_put.mpr hp)), put_node_same,
      put_put_same, hfind]
    exact ⟨_, rfl, hl.insert hk₂ hb.rows_ne.1, ⟨rfl, rfl, rfl⟩, rfl⟩

/-! ## A full node -/

/-- A full node on page `o` with the children `kids`, and an empty one on page `w`. -/
structure Splitting (s : Store C) (h o w : Nat) (kids : List (Part C)) : Prop where
  links : Links (s.node o) kids
  full : (s.node o).numKeys = internalNodeMaxKeys
  family : Family s h kids
  old : Taken s o ∧ o ∉ kids.flatMap Part.pages
  new : Taken s w ∧ w ∉ kids.flatMap Part.pages
  ne : o ≠ w
  ends : ∀ k ∈ kids.drop (internalNodeMaxKeys / 2), k.Ends
  empty : (s.node w).nodeType = .internal ∧ (s.node w).numKeys = 0 ∧ (s.node w).rightChild = invalidPageNum

/-- The children from `i` on are under page `w`. -/
structure Moved (s s' : Store C) (o w : Nat) (kids : List (Part C)) (i : Nat) : Prop where
  file : s' = { s with node := s'.node }
  head : SameHead (s.node w) (s'.node w)
  moved : ∀ k ∈ kids.drop i, s'.node k.page = (s.node k.page).under w
  rest : ∀ q, q ≠ o → q ≠ w → q ∉ (kids.drop i).map Part.page → s'.node q = s.node q

/-- Between two turns of the loop. -/
structure Moving (s s' : Store C) (o w : Nat) (kids : List (Part C)) (i : Nat) : Prop extends Moved s s' o w kids i where
  old : s'.node o = { s.node o with numKeys := i, rightChild := invalidPageNum }
  new : Links (s'.node w) (kids.drop i)

variable {o w i : Nat}

theorem Splitting.length (hs : Splitting s h o w kids) : kids.length = internalNodeMaxKeys + 1 := by
  rw [hs.links.count, hs.full]

omit [Cell C] in
theorem taken_of_file (hfile : s' = { s with node := s'.node }) {q : Nat} (hq : Taken s q) : Taken s' q := by
  rw [hfile]
  exact hq

omit [Cell C] in
theorem allocates_of_file (hfile : s' = { s with node := s'.node }) (ha : Allocates s j) : Allocates s' j := by
  rw [hfile]
  exact ⟨ha.nodup, ha.free, ha.reserved, ha.room⟩

theorem Moved.family (hm : Moved s s' o w k₁ i) (hf : Family s h kids) (hsub : ∀ k ∈ k₁, k ∈ kids)
    (ho : o ∉ kids.flatMap Part.pages) (hw : w ∉ kids.flatMap Part.pages) : Family s' h kids := by
  have hne : ∀ q ∈ kids.flatMap Part.pages, q ≠ o ∧ q ≠ w := fun q hq =>
    ⟨fun hn => ho (hn ▸ hq), fun hn => hw (hn ▸ hq)⟩
  refine hf.of_tops (fun q hq => taken_of_file hm.file hq) (fun q hq hqk => ?_) fun k hk => ?_
  · obtain ⟨hqo, hqw⟩ := hne q hq
    refine hm.rest q hqo hqw fun hmem => hqk ?_
    obtain ⟨l, hl, rfl⟩ := List.mem_map.mp hmem
    exact List.mem_map_of_mem (hsub l (List.mem_of_mem_drop hl))
  · by_cases hd : k.page ∈ (k₁.drop i).map Part.page
    · obtain ⟨l, hl, hlk⟩ := List.mem_map.mp hd
      rw [← hlk, hm.moved l hl]
      exact alike_under ..
    · obtain ⟨hko, hkw⟩ := hne _ (hf.page_mem hk)
      rw [hm.rest _ hko hkw hd]
      exact Alike.refl _

/-- One child more, and a change of the old node. -/
theorem Moved.next (hm : Moved s s' o w kids (i + 1)) (hs : Splitting s h o w kids) (hk : kids[i]? = some k)
    (hn : SameHead (s'.node w) n') (f : Node C → Node C) {t : Store C}
    (ht : t = (((s'.put k.page ((s'.node k.page).under w)).put w n').setParent k.page w).modify o f) :
    Moved s t o w kids i ∧ t.node o = f (s'.node o) ∧ t.node w = n' := by
  obtain ⟨hik, hki⟩ := List.getElem?_eq_some_iff.mp hk
  have hdrop : kids.drop i = k :: kids.drop (i + 1) := by rw [List.drop_eq_getElem_cons hik, hki]
  have hmem : k ∈ kids := List.mem_of_getElem? hk
  have hne : ∀ l ∈ kids, l.page ≠ o ∧ l.page ≠ w := fun l hl =>
    ⟨fun hn => hs.old.2 (hn ▸ hs.family.page_mem hl), fun hn => hs.new.2 (hn ▸ hs.family.page_mem hl)⟩
  obtain ⟨hko, hkw⟩ := hne k hmem
  have hlow : k.page ∉ (kids.drop (i + 1)).map Part.page := fun hn => by
    obtain ⟨l, hl, hlk⟩ := List.mem_map.mp hn
    have hf : Family s h ([] ++ k :: kids.drop (i + 1)) := hdrop ▸ hs.family.sublist (List.drop_sublist ..)
    have hlm : l ∈ [] ++ kids.drop (i + 1) := hl
    exact hf.page_ne hlm l.page (hf.sub l (List.mem_cons_of_mem _ hl)).page_mem
      (hlk ▸ (hf.sub k (List.mem_cons_self ..)).page_mem)
  have hkeep : s'.node k.page = s.node k.page := hm.rest _ hko hkw hlow
  have hkt : Taken s' k.page := taken_of_file hm.file (hs.family.taken _ (hs.family.page_mem hmem))
  rw [setParent_of_taken (taken_put.mpr (taken_put.mpr hkt)),
    modify_of_taken (taken_put.mpr (taken_put.mpr (taken_put.mpr (taken_of_file hm.file hs.old.1))))] at ht
  subst ht
  refine ⟨⟨?_, ?_, fun l hl => ?_, fun q hqo hqw hq => ?_⟩, ?_, ?_⟩
  · rw [hm.file]
    rfl
  · rw [put_node_of_ne hs.ne.symm, put_node_of_ne hkw.symm, put_node_same]
    exact hm.head.trans hn
  · obtain ⟨hlo, hlw⟩ := hne l (List.mem_of_mem_drop hl)
    rw [put_node_of_ne hlo]
    rw [hdrop] at hl
    rcases List.mem_cons.mp hl with rfl | hl
    · rw [put_node_same, put_node_of_ne hkw, put_node_same, hkeep]
      rfl
    · have hlk : l.page ≠ k.page := fun hn => hlow (hn ▸ List.mem_map_of_mem hl)
      rw [put_node_of_ne hlk, put_node_of_ne hlw, put_node_of_ne hlk]
      exact hm.moved l hl
  · rw [hdrop] at hq
    obtain ⟨hqk, hq⟩ := not_or.mp fun hn => hq (List.mem_cons.mpr hn)
    rw [put_node_of_ne hqo, put_node_of_ne hqk, put_node_of_ne hqw, put_node_of_ne hqk]
    exact hm.rest q hqo hqw hq
  · rw [put_node_same, put_node_of_ne hko.symm, put_node_of_ne hs.ne, put_node_of_ne hko.symm]
  · rw [put_node_of_ne hs.ne.symm, put_node_of_ne hkw.symm, put_node_same]

/-- One turn of the loop. -/
theorem Moving.step (hm : Moving s s' o w kids (i + 1)) (hs : Splitting s h o w kids)
    (hi : internalNodeMaxKeys / 2 ≤ i ∧ i < internalNodeMaxKeys) (ha : Allocates s j) (hd : h < d) :
    ∃ (k : Part C) (t : Store C), (s'.node o).internalNodeChild i = some k.page ∧
      internalNodeInsert d (m + 1) s' w k.page = some t ∧
      Moving s ((t.setParent k.page w).modify o fun n => { n with numKeys := n.numKeys - 1 }) o w kids i := by
  have hlen := hs.length
  have hik : i < kids.length := by omega
  have hdrop : kids.drop i = kids[i] :: kids.drop (i + 1) := List.drop_eq_getElem_cons hik
  have hslot := (hs.links.slot i kids[i] (by rw [hs.full]; exact hi.2) (List.getElem?_eq_getElem hik)).1
  have hends : ∀ k ∈ kids.drop i, k.Ends := fun k hk => hs.ends k (List.drop_subset_drop_left _ hi.1 hk)
  have hf : Family s' h ([] ++ kids[i] :: kids.drop (i + 1)) := by
    rw [List.nil_append, ← hdrop]
    exact (hm.family hs.family (fun _ hk => hk) hs.old.2 hs.new.2).sublist (List.drop_sublist ..)
  have hsub : ∀ q ∈ ([] ++ kids[i] :: kids.drop (i + 1)).flatMap Part.pages, q ∈ kids.flatMap Part.pages := by
    rw [List.nil_append, ← hdrop]
    exact fun q hq => ((List.drop_sublist ..).flatMap _).mem hq
  have hcount := hm.new.count
  rw [List.length_drop, hlen] at hcount
  have hroom : (s'.node w).numKeys < internalNodeMaxKeys := by omega
  obtain ⟨n', hins, hl, hhead, -⟩ := internalNodeInsert_room (m := m) (p := w) (b := kids[i])
    (show Links _ ([] ++ _) from hm.new) hroom hf (taken_of_file hm.file hs.new.1) (fun hq => hs.new.2 (hsub w hq))
    (hends _ (hdrop ▸ List.mem_cons_self ..))
    (fun k hk => hends k (hdrop ▸ List.mem_cons_of_mem _ (List.mem_of_getLast? hk)))
    (allocates_of_file hm.file ha) hd
  obtain ⟨hmoved, hold, hnew⟩ := hm.toMoved.next hs (List.getElem?_eq_getElem hik) hhead
    (fun n => { n with numKeys := n.numKeys - 1 }) rfl
  refine ⟨kids[i], _, ?_, hins, hmoved, ?_, ?_⟩
  · rw [Node.internalNodeChild, hm.old, if_neg (by dsimp only; omega), if_neg (by dsimp only; omega)]
    dsimp only
    rw [hslot]
  · rw [hold, hm.old]
    rfl
  · rw [hnew, hdrop]
    exact hl

/-- The loop. -/
theorem Moving.loop (hs : Splitting s h o w kids) (ha : Allocates s j) (hd : h < d) {c : Nat}
    (hc : c < internalNodeMaxKeys / 2) (hv : Moving s s' o w kids (internalNodeMaxKeys / 2 + c + 1)) :
    ∃ t, s'.moveCells (internalNodeInsert d (m + 1)) o w c = some t ∧
      Moving s t o w kids (internalNodeMaxKeys / 2 + 1) := by
  induction c generalizing s' with
  | zero => exact ⟨s', rfl, hv⟩
  | succ c ih =>
    have hi : internalNodeMaxKeys / 2 ≤ internalNodeMaxKeys / 2 + (c + 1) ∧
        internalNodeMaxKeys / 2 + (c + 1) < internalNodeMaxKeys := by
      unfold internalNodeMaxKeys at hc ⊢
      omega
    obtain ⟨k, t, hchild, hins, hv⟩ := hv.step (m := m) hs hi ha hd
    obtain ⟨t', hloop, hv⟩ := ih (by omega) hv
    refine ⟨t', ?_, hv⟩
    rw [moveCells, hchild]
    simp only [Option.bind_eq_bind, Option.bind_some]
    rw [hins]
    exact hloop

/-- The right child goes first. -/
theorem Moving.start (hs : Splitting s h o w kids) (ha : Allocates s j) (hd : h < d) :
    ∃ t, internalNodeInsert d (m + 1) s w (s.node o).rightChild = some t ∧
      Moving s ((t.setParent (s.node o).rightChild w).modify o fun n => { n with rightChild := invalidPageNum }) o w
        kids internalNodeMaxKeys := by
  have hlen := hs.length
  have hik : internalNodeMaxKeys < kids.length := by omega
  have hget : kids[internalNodeMaxKeys]? = some kids[internalNodeMaxKeys] := List.getElem?_eq_getElem hik
  have hmem := List.getElem_mem hik
  have hright : (s.node o).rightChild = kids[internalNodeMaxKeys].page := hs.links.last _ (by rw [hs.full]; exact hget)
  have hdrop : kids.drop internalNodeMaxKeys = [kids[internalNodeMaxKeys]] := by
    rw [List.drop_eq_getElem_cons hik, List.drop_of_length_le (by omega)]
  have hpage := hs.family.page_mem hmem
  have hpw : kids[internalNodeMaxKeys].page ≠ w := fun hn => hs.new.2 (hn ▸ hpage)
  have hend : kids[internalNodeMaxKeys].Ends := by
    refine hs.ends _ (List.drop_subset_drop_left _ (show internalNodeMaxKeys / 2 ≤ internalNodeMaxKeys by decide) ?_)
    rw [hdrop]
    exact List.mem_singleton_self _
  have hbase : Moved s s o w kids (internalNodeMaxKeys + 1) := by
    have hnil : kids.drop (internalNodeMaxKeys + 1) = [] := List.drop_of_length_le (by omega)
    refine ⟨rfl, SameHead.refl _, fun k hk => ?_, fun _ _ _ _ => rfl⟩
    rw [hnil] at hk
    exact absurd hk List.not_mem_nil
  have hins := internalNodeInsert_first (d := d) (m := m) hs.new.1 (hs.family.taken _ hpage) hpw
    hs.empty.2.1 hs.empty.2.2 (hs.family.maxKey hmem hend hd ha)
  obtain ⟨hmoved, hold, hnew⟩ := hbase.next hs hget 
    (show SameHead _ { s.node w with rightChild := kids[internalNodeMaxKeys].page } from ⟨rfl, rfl, rfl⟩) (fun n => { n with rightChild := invalidPageNum }) rfl
  rw [hright]
  refine ⟨_, hins, hmoved, ?_, ?_⟩
  · rw [hold, ← hs.full]
  · rw [hnew, hdrop]
    exact Links.first hs.empty.1 hs.empty.2.1

/-- The upper half of the children has moved. -/
theorem moveHalf_eq (hs : Splitting s h o w kids) (ha : Allocates s j) (hd : h < d) :
    ∃ t, s.moveHalf (internalNodeInsert d (m + 1)) o w = some t ∧
      Moved s t o w kids (internalNodeMaxKeys / 2 + 1) ∧ Links (t.node o) (kids.take (internalNodeMaxKeys / 2 + 1)) ∧
      Links (t.node w) (kids.drop (internalNodeMaxKeys / 2 + 1)) ∧ SameHead (s.node o) (t.node o) := by
  have hlen := hs.length
  obtain ⟨t₀, hins, hv⟩ := Moving.start (m := m) hs ha hd
  obtain ⟨t, hloop, hv⟩ := Moving.loop (m := m) hs ha hd
    (c := internalNodeMaxKeys - 1 - internalNodeMaxKeys / 2) (by decide) hv
  have hik : internalNodeMaxKeys / 2 < kids.length := by
    rw [hlen]
    decide
  have hget : kids[internalNodeMaxKeys / 2]? = some kids[internalNodeMaxKeys / 2] := List.getElem?_eq_getElem hik
  have hslot := (hs.links.slot _ _ (by rw [hs.full]; decide) hget).1
  have hchild : (t.node o).internalNodeChild ((t.node o).numKeys - 1) = some kids[internalNodeMaxKeys / 2].page := by
    rw [hv.old, Node.internalNodeChild]
    dsimp only
    rw [if_neg (by omega), if_neg (by omega), Nat.add_sub_cancel, hslot]
  refine ⟨t.put o { s.node o with numKeys := internalNodeMaxKeys / 2, rightChild := kids[internalNodeMaxKeys / 2].page },
    ?_, ⟨?_, ?_, fun k hk => ?_, fun q hqo hqw hq => ?_⟩, ?_, ?_, ?_⟩
  · rw [moveHalf, hins]
    simp only [Option.bind_eq_bind, Option.bind_some]
    rw [hloop]
    simp only [Option.bind_some]
    rw [hchild]
    simp only [Option.bind_some, pure]
    rw [modify_of_taken (taken_of_file hv.file hs.old.1), hv.old]
    rfl
  · rw [hv.file]
    rfl
  · rw [put_node_of_ne hs.ne.symm]
    exact hv.head
  · have hko : k.page ≠ o := fun hn => hs.old.2 (hn ▸ hs.family.page_mem (List.mem_of_mem_drop hk))
    rw [put_node_of_ne hko]
    exact hv.moved k hk
  · rw [put_node_of_ne hqo]
    exact hv.rest q hqo hqw hq
  · rw [put_node_same]
    exact hs.links.take hget (by rw [hs.full]; decide)
  · rw [put_node_of_ne hs.ne.symm]
    exact hv.new
  · rw [put_node_same]
    exact ⟨rfl, rfl, rfl⟩

/-- The children are shared out between the two nodes. -/
structure Halved (s t : Store C) (o w : Nat) (l r : List (Part C)) : Prop where
  file : t = { s with node := t.node }
  old : Links (t.node o) l ∧ (t.node o).numKeys ≤ internalNodeMaxKeys ∧ SameHead (s.node o) (t.node o)
  new : Links (t.node w) r ∧ (t.node w).numKeys ≤ internalNodeMaxKeys ∧ SameHead (s.node w) (t.node w)
  oldKids : ∀ k ∈ l, t.node k.page = (s.node k.page).under o
  newKids : ∀ k ∈ r, t.node k.page = (s.node k.page).under w
  rest : ∀ q, q ≠ o → q ≠ w → q ∉ (l ++ r).map Part.page → t.node q = s.node q
  ends : (∀ k, l.getLast? = some k → k.Ends) ∧ ∀ k, r.getLast? = some k → k.Ends

/-- The pages of the children after the new one has gone to page `e`. -/
theorem Moved.tops {t : Store C} (hm : Moved s t o w (k₁ ++ k₂) i) (hs : Splitting s h o w (k₁ ++ k₂))
    (hf : Family s h (k₁ ++ b :: k₂)) (hbo : b.page ≠ o) (hbw : b.page ≠ w)
    (hpar : ∀ k ∈ k₁ ++ k₂, (s.node k.page).parent = o) {e : Nat} (he : e = o ∨ e = w)
    (n' : Node C) :
    (∀ k ∈ (k₁ ++ k₂).take i, ((t.put b.page ((t.node b.page).under e)).put e n').node k.page = (s.node k.page).under o) ∧
    (∀ k ∈ (k₁ ++ k₂).drop i, ((t.put b.page ((t.node b.page).under e)).put e n').node k.page = (s.node k.page).under w) ∧
    ((t.put b.page ((t.node b.page).under e)).put e n').node b.page = (s.node b.page).under e ∧
    ∀ q, q ≠ o → q ≠ w → q ∉ (k₁ ++ b :: k₂).map Part.page →
      ((t.put b.page ((t.node b.page).under e)).put e n').node q = s.node q := by
  have hene : ∀ q, q ≠ o → q ≠ w → q ≠ e := by
    intro q ho hw
    rcases he with rfl | rfl
    · exact ho
    · exact hw
  have hne : ∀ k ∈ k₁ ++ k₂, k.page ≠ o ∧ k.page ≠ w ∧ k.page ≠ b.page := fun k hk =>
    ⟨fun hn => hs.old.2 (hn ▸ hs.family.page_mem hk), fun hn => hs.new.2 (hn ▸ hs.family.page_mem hk),
      fun hn => hf.page_ne hk _ (hs.family.sub k hk).page_mem
        (hn ▸ (hf.sub b (List.mem_append_right _ (List.mem_cons_self ..))).page_mem)⟩
  refine ⟨fun k hk => ?_, fun k hk => ?_, ?_, fun q hqo hqw hq => ?_⟩
  · have hkm := List.mem_of_mem_take hk
    obtain ⟨hko, hkw, hkb⟩ := hne k hkm
    have hup : k.page ∉ ((k₁ ++ k₂).drop i).map Part.page := fun hn => by
      obtain ⟨l, hl, hlk⟩ := List.mem_map.mp hn
      have hf' := hs.family
      rw [← List.take_append_drop i (k₁ ++ k₂)] at hf'
      exact hf'.page_ne_page hk hl hlk.symm
    rw [put_node_of_ne (hene _ hko hkw), put_node_of_ne hkb, hm.rest _ hko hkw hup, Node.under, ← hpar k hkm]
  · obtain ⟨hko, hkw, hkb⟩ := hne k (List.mem_of_mem_drop hk)
    rw [put_node_of_ne (hene _ hko hkw), put_node_of_ne hkb]
    exact hm.moved k hk
  · have hup : b.page ∉ ((k₁ ++ k₂).drop i).map Part.page := fun hn => by
      obtain ⟨l, hl, hlk⟩ := List.mem_map.mp hn
      exact (hne l (List.mem_of_mem_drop hl)).2.2 hlk
    rw [put_node_of_ne (hene _ hbo hbw), put_node_same, hm.rest _ hbo hbw hup]
  · rw [List.map_append, List.map_cons] at hq
    have hqb : q ≠ b.page := fun hn => hq (List.mem_append_right _ (hn ▸ List.mem_cons_self ..))
    have hup : q ∉ ((k₁ ++ k₂).drop i).map Part.page := fun hn => by
      obtain ⟨l, hl, rfl⟩ := List.mem_map.mp hn
      rcases List.mem_append.mp (List.mem_of_mem_drop hl) with hl | hl
      · exact hq (List.mem_append_left _ (List.mem_map_of_mem hl))
      · exact hq (List.mem_append_right _ (List.mem_cons_of_mem _ (List.mem_map_of_mem hl)))
    rw [put_node_of_ne (hene _ hqo hqw), put_node_of_ne hqb, hm.rest _ hqo hqw hup]

omit [Cell C] in
theorem mem_append_cons (hk : k ∈ k₁ ++ b :: k₂) : k ∈ k₁ ++ k₂ ∨ k = b := by
  rcases List.mem_append.mp hk with hk | hk
  · exact Or.inl (List.mem_append_left _ hk)
  · exact (List.mem_cons.mp hk).symm.imp_left fun h => List.mem_append_right _ h

omit [Cell C] in
theorem ends_append_cons (hb : b.Ends) (hl : ∀ k, (k₁ ++ k₂).getLast? = some k → k.Ends) :
    ∀ k, (k₁ ++ b :: k₂).getLast? = some k → k.Ends := by
  intro k hk
  rw [List.getLast?_append_of_ne_nil _ (List.cons_ne_nil _ _)] at hk
  by_cases hne : k₂ = []
  · subst hne
    obtain rfl := Option.some.inj hk
    exact hb
  · refine hl k ?_
    rw [List.getLast?_append_of_ne_nil _ hne, ← hk]
    exact (List.getLast?_append_of_ne_nil [b] hne).symm

/-- The new child is in its place. -/
theorem Moved.halved {t u : Store C} (hm : Moved s t o w (k₁ ++ k₂) i) (hs : Splitting s h o w (k₁ ++ k₂))
    (hf : Family s h (k₁ ++ b :: k₂)) (hbo : b.page ≠ o) (hbw : b.page ≠ w)
    (hpar : ∀ k ∈ k₁ ++ k₂, (s.node k.page).parent = o) (hold : SameHead (s.node o) (t.node o)) {e : Nat}
    (he : e = o ∨ e = w) (hn : SameHead (t.node e) n') (hu : u = (t.put b.page ((t.node b.page).under e)).put e n')
    {l r : List (Part C)} (hsplit : l ++ r = k₁ ++ b :: k₂)
    (hlow : ∀ k ∈ l, k ∈ (k₁ ++ k₂).take i ∨ k = b ∧ e = o) (hup : ∀ k ∈ r, k ∈ (k₁ ++ k₂).drop i ∨ k = b ∧ e = w)
    (hl : Links (u.node o) l ∧ (u.node o).numKeys ≤ internalNodeMaxKeys)
    (hr : Links (u.node w) r ∧ (u.node w).numKeys ≤ internalNodeMaxKeys)
    (hends : (∀ k, l.getLast? = some k → k.Ends) ∧ ∀ k, r.getLast? = some k → k.Ends) : Halved s u o w l r := by
  obtain ⟨htake, hdrop, hb, hother⟩ := hm.tops hs hf hbo hbw hpar he n'
  rw [← hu] at htake hdrop hb hother
  refine ⟨?_, ⟨hl.1, hl.2, hold.trans ?_⟩, ⟨hr.1, hr.2, hm.head.trans ?_⟩, fun k hk => ?_, fun k hk => ?_,
    fun q hqo hqw hq => ?_, hends⟩
  · rw [hu, hm.file]
    rfl
  · rw [hu]
    rcases he with rfl | rfl
    · rw [put_node_same]
      exact hn
    · rw [put_node_of_ne hs.ne, put_node_of_ne hbo.symm]
      exact SameHead.refl _
  · rw [hu]
    rcases he with rfl | rfl
    · rw [put_node_of_ne hs.ne.symm, put_node_of_ne hbw.symm]
      exact SameHead.refl _
    · rw [put_node_same]
      exact hn
  · rcases hlow k hk with hk | ⟨rfl, rfl⟩
    · exact htake k hk
    · exact hb
  · rcases hup k hk with hk | ⟨rfl, rfl⟩
    · exact hdrop k hk
    · exact hb
  · rw [hsplit] at hq
    exact hother q hqo hqw hq

/-- The largest key of the lower half says where the new child goes. -/
theorem halves (hs : Splitting s h o w (k₁ ++ k₂)) (hf : Family s h (k₁ ++ b :: k₂))
    (ho : o ∉ (k₁ ++ b :: k₂).flatMap Part.pages) (hw : w ∉ (k₁ ++ b :: k₂).flatMap Part.pages) (hb : b.Ends)
    (hpar : ∀ k ∈ k₁ ++ k₂, (s.node k.page).parent = o) (ha : Allocates s j) (hd : h + 1 < d) :
    ∃ t t' maxAfter l r, s.moveHalf (internalNodeInsert d (m + 1)) o w = some t ∧
      t.getNodeMaxKey d o = some maxAfter ∧
      internalNodeInsert d (m + 1) t (if b.maxKey < maxAfter then o else w) b.page = some t' ∧
      l ++ r = k₁ ++ b :: k₂ ∧ Halved s t' o w l r := by
  have hbm : b ∈ k₁ ++ b :: k₂ := List.mem_append_right _ (List.mem_cons_self ..)
  have hbo : b.page ≠ o := fun hn => ho (hn ▸ hf.page_mem hbm)
  have hbw : b.page ≠ w := fun hn => hw (hn ▸ hf.page_mem hbm)
  have hsub : (k₁ ++ k₂).Sublist (k₁ ++ b :: k₂) := (List.sublist_cons_self b k₂).append_left k₁
  obtain ⟨t, ht, hm, hold, hnew, hhead⟩ := moveHalf_eq (d := d) (m := m) hs ha (lt_of_le_of_lt (Nat.le_succ h) hd)
  have hft : Family t h (k₁ ++ b :: k₂) := hm.family hf (fun k hk => hsub.mem hk) ho hw
  have hat := allocates_of_file hm.file ha
  have hlen := hs.length
  have hik : internalNodeMaxKeys / 2 < (k₁ ++ k₂).length := by
    rw [hlen]
    decide
  have hlast : ((k₁ ++ k₂).take (internalNodeMaxKeys / 2 + 1)).getLast? = some (k₁ ++ k₂)[internalNodeMaxKeys / 2] := by
    rw [List.take_succ_eq_append_getElem hik, List.getLast?_concat]
  have hxend : (k₁ ++ k₂)[internalNodeMaxKeys / 2].Ends := by
    refine hs.ends _ ?_
    rw [List.drop_eq_getElem_cons hik]
    exact List.mem_cons_self ..
  have hmax := hold.maxKey (hft.sublist ((List.take_sublist ..).trans hsub)) hlast hxend hd hat
  have hdrop : ∀ k, ((k₁ ++ k₂).drop (internalNodeMaxKeys / 2 + 1)).getLast? = some k → k.Ends := fun k hk =>
    hs.ends k (List.drop_subset_drop_left _ (Nat.le_succ _) (List.mem_of_getLast? hk))
  have hlt := hf.sorted.maxKey_lt hb.rows_ne.1
  have hkeyso : (t.node o).numKeys = internalNodeMaxKeys / 2 := by
    have hcount := hold.count
    rw [List.length_take, hlen] at hcount
    unfold internalNodeMaxKeys at hcount ⊢
    omega
  have hkeysw : (t.node w).numKeys = internalNodeMaxKeys - (internalNodeMaxKeys / 2 + 1) := by
    have hcount := hnew.count
    rw [List.length_drop, hlen] at hcount
    unfold internalNodeMaxKeys at hcount ⊢
    omega
  refine ⟨t, ?_⟩
  by_cases hpos : k₁.length ≤ internalNodeMaxKeys / 2
  · -- the new child goes to the lower half
    have hx : b.maxKey < (k₁ ++ k₂)[internalNodeMaxKeys / 2].maxKey := by
      refine hlt.2 _ ?_ hxend.rows_ne.1
      rw [List.getElem_append_right hpos]
      exact List.getElem_mem _
    have htake : (k₁ ++ k₂).take (internalNodeMaxKeys / 2 + 1) =
        k₁ ++ k₂.take (internalNodeMaxKeys / 2 + 1 - k₁.length) := by
      rw [List.take_append, List.take_of_length_le (by omega)]
    have hrest : (k₁ ++ k₂).drop (internalNodeMaxKeys / 2 + 1) = k₂.drop (internalNodeMaxKeys / 2 + 1 - k₁.length) := by
      rw [List.drop_append, List.drop_of_length_le (by omega), List.nil_append]
    have hin : (k₁ ++ b :: k₂.take (internalNodeMaxKeys / 2 + 1 - k₁.length)).Sublist (k₁ ++ b :: k₂) :=
      ((List.take_sublist ..).cons_cons b).append_left k₁
    rw [htake] at hold hlast
    obtain ⟨n', hins, hl, hh, hkeys⟩ := internalNodeInsert_room (m := m) hold (by rw [hkeyso]; decide) (hft.sublist hin)
      (taken_of_file hm.file hs.old.1) (fun hq => ho ((hin.flatMap _).mem hq)) hb
      (fun k hk => Option.some.inj (hlast.symm.trans hk) ▸ hxend) hat (lt_of_le_of_lt (Nat.le_succ h) hd)
    refine ⟨_, _, k₁ ++ b :: k₂.take (internalNodeMaxKeys / 2 + 1 - k₁.length),
      k₂.drop (internalNodeMaxKeys / 2 + 1 - k₁.length), ht, hmax, ?_, ?_,
      hm.halved hs hf hbo hbw hpar hhead (Or.inl rfl) hh rfl ?_ (fun k hk => ?_) (fun k hk => ?_) ?_ ?_ ⟨?_, ?_⟩⟩
    · rw [if_pos hx]
      exact hins
    · rw [List.append_assoc, List.cons_append, List.take_append_drop]
    · rw [List.append_assoc, List.cons_append, List.take_append_drop]
    · rw [htake]
      exact (mem_append_cons hk).imp_right fun h => ⟨h, rfl⟩
    · exact Or.inl (hrest ▸ hk)
    · rw [put_node_same]
      exact ⟨hl, by rw [hkeys, hkeyso]; decide⟩
    · rw [put_node_of_ne hs.ne.symm, put_node_of_ne hbw.symm, ← hrest]
      exact ⟨hnew, by rw [hkeysw]; decide⟩
    · exact ends_append_cons hb fun k hk => Option.some.inj (hlast.symm.trans hk) ▸ hxend
    · rw [← hrest]
      exact hdrop
  · -- the new child goes to the upper half
    have hx : (k₁ ++ k₂)[internalNodeMaxKeys / 2].maxKey < b.maxKey := by
      refine hlt.1 _ ?_ hxend.rows_ne.1
      rw [List.getElem_append_left (by omega)]
      exact List.getElem_mem _
    have hrest : (k₁ ++ k₂).drop (internalNodeMaxKeys / 2 + 1) = k₁.drop (internalNodeMaxKeys / 2 + 1) ++ k₂ :=
      List.drop_append_of_le_length (by omega)
    have htake : (k₁ ++ k₂).take (internalNodeMaxKeys / 2 + 1) = k₁.take (internalNodeMaxKeys / 2 + 1) :=
      List.take_append_of_le_length (by omega)
    have hin : (k₁.drop (internalNodeMaxKeys / 2 + 1) ++ b :: k₂).Sublist (k₁ ++ b :: k₂) :=
      (List.drop_sublist ..).append_right _
    rw [hrest] at hnew hdrop
    obtain ⟨n', hins, hl, hh, hkeys⟩ := internalNodeInsert_room (m := m) hnew (by rw [hkeysw]; decide) (hft.sublist hin)
      (taken_of_file hm.file hs.new.1) (fun hq => hw ((hin.flatMap _).mem hq)) hb hdrop hat
      (lt_of_le_of_lt (Nat.le_succ h) hd)
    refine ⟨_, _, k₁.take (internalNodeMaxKeys / 2 + 1), k₁.drop (internalNodeMaxKeys / 2 + 1) ++ b :: k₂, ht, hmax,
      ?_, ?_, hm.halved hs hf hbo hbw hpar hhead (Or.inr rfl) hh rfl ?_ (fun k hk => ?_) (fun k hk => ?_) ?_ ?_ ⟨?_, ?_⟩⟩
    · rw [if_neg (not_lt.mpr (le_of_lt hx))]
      exact hins
    · rw [← List.append_assoc, List.take_append_drop]
    · rw [← List.append_assoc, List.take_append_drop]
    · exact Or.inl (htake ▸ hk)
    · rw [hrest]
      exact (mem_append_cons hk).imp_right fun h => ⟨h, rfl⟩
    · rw [put_node_of_ne hs.ne, put_node_of_ne hbo.symm, ← htake]
      exact ⟨hold, by rw [hkeyso]; decide⟩
    · rw [put_node_same]
      exact ⟨hl, by rw [hkeys, hkeysw]; decide⟩
    · intro k hk
      rw [← htake, hlast] at hk
      exact Option.some.inj hk ▸ hxend
    · exact ends_append_cons hb hdrop

end Tree

end CustomDB
