import CustomDB.Tree.Climb

/-!
# A subtree without a slot

After a split the left half has the old slot and the right half has none: `Pending`. Linking it in ends the
insertion, or leaves the same situation one level up.
-/

namespace CustomDB

open Lib

namespace Tree

variable {C : Type} [Cell C] {s u : Store C} {h d j m w : Nat} {a b k : Part C} {l r : List (Part C)} {n : Node C}
  {f g : Frame C} {fs : List (Frame C)}

open Store

/-- Of the children whose largest key a climb through these nodes reads, the last leaf is not empty. -/
def Filled : List (Frame C) → Prop
  | [] => True
  | f :: fs =>
    if f.left.length + f.right.length < internalNodeMaxKeys then ∀ k, f.right.getLast? = some k → k.Ends
    else (∀ k ∈ f.left.drop (internalNodeMaxKeys / 2), k.Ends) ∧
      (∀ k ∈ f.right.drop (internalNodeMaxKeys / 2 - (f.left.length + 1)), k.Ends) ∧ Filled fs

/-- `b` comes next to `a` below the frame `f`, but has no slot there. -/
structure Pending (s : Store C) (h : Nat) (a b : Part C) (f : Frame C) (fs : List (Frame C)) : Prop where
  links : Links (s.node f.page) (f.left ++ a :: f.right)
  fits : (s.node f.page).numKeys ≤ internalNodeMaxKeys
  family : Family s h (f.left ++ a :: b :: f.right)
  parent : ∀ k ∈ f.left ++ a :: f.right, (s.node k.page).parent = f.page
  isRoot : ∀ k ∈ f.left ++ a :: b :: f.right, (s.node k.page).isRoot = false
  ends : a.Ends ∧ b.Ends
  above : Above s (h + 1) (Part.join f.page (f.left ++ a :: b :: f.right)) fs
  nodup : (f.page :: (f.left ++ a :: b :: f.right).flatMap Part.pages ++ outer fs).Nodup
  taken : Taken s f.page ∧ ∀ q ∈ outer fs, Taken s q
  sorted : Sorted (plug (Part.join f.page (f.left ++ a :: b :: f.right)) fs).rows

/-- The insertion has ended with the tree `t` of height `h`. -/
structure Regrown (s s' : Store C) (h : Nat) (t : Part C) (leaves : List (Nat × List C)) : Prop where
  sub : Sub s' h t
  root : t.page = s'.rootPageNum
  isRoot : (s'.node t.page).isRoot = true
  leaves : t.leaves = leaves
  nodup : t.pages.Nodup
  taken : ∀ q ∈ t.pages, Taken s' q
  keeps : Extends s s'

theorem Pending.apart (hp : Pending s h a b f fs) : f.page ∉ (f.left ++ a :: b :: f.right).flatMap Part.pages :=
  fun hn => (List.nodup_cons.mp (List.nodup_append.mp hp.nodup).1).1 hn

theorem Pending.apart_outer (hp : Pending s h a b f fs) :
    ∀ q ∈ outer fs, q ≠ f.page ∧ q ∉ (f.left ++ a :: b :: f.right).flatMap Part.pages := by
  have hd := (List.nodup_append.mp hp.nodup).2.2
  exact fun q hq => ⟨fun hn => hd f.page (List.mem_cons_self ..) q hq hn.symm,
    fun hn => hd q (List.mem_cons_of_mem _ hn) q hq rfl⟩

omit [Cell C] in
theorem mem_second (l r : List (Part C)) (a b : Part C) : b ∈ l ++ a :: b :: r :=
  List.mem_append_right _ (List.mem_cons_of_mem _ (List.mem_cons_self ..))

/-! ## The end of the climb -/

theorem Pending.plug (hp : Pending s h a b f fs) {s' : Store C}
    (hs : Sub s' (h + 1) (Part.join f.page (f.left ++ a :: b :: f.right)))
    (hin : ∀ q ∈ outer fs, s'.node q = s.node q) (hhead : SameHead (s.node f.page) (s'.node f.page))
    (hkeeps : Extends s s') :
    Regrown s s' (h + 1 + fs.length) (plug (Part.join f.page (f.left ++ a :: b :: f.right)) fs)
      (Tree.plug (Part.join f.page (f.left ++ a :: b :: f.right)) fs).leaves := by
  have hab := hp.above.congr (List.nodup_append.mp hp.nodup).2.1 hin hkeeps.root hhead.parent hhead.isRoot
  obtain ⟨hsub, hpage, hflag⟩ := hab.plug hs
  have hperm := plug_pages (Part.join f.page (f.left ++ a :: b :: f.right)) fs
  refine ⟨hsub, hpage, hflag, rfl, hperm.nodup_iff.mpr hp.nodup, fun q hq => hkeeps.taken q ?_, hkeeps⟩
  rcases List.mem_append.mp (hperm.mem_iff.mp hq) with hq | hq
  · rcases List.mem_cons.mp hq with rfl | hq
    · exact hp.taken.1
    · exact hp.family.taken q hq
  · exact hp.taken.2 q hq

/-- The parent has room. -/
theorem Pending.room (hp : Pending s h a b f fs) (hroom : (s.node f.page).numKeys < internalNodeMaxKeys)
    (hf : ∀ k, f.right.getLast? = some k → k.Ends) (ha : Allocates s j) (hd : h < d) :
    ∃ s', internalNodeInsert d (m + 1) s f.page b.page = some s' ∧
      Regrown s s' (h + 1 + fs.length) (Tree.plug (Part.join f.page (f.left ++ a :: b :: f.right)) fs)
        (Tree.plug (Part.join f.page (f.left ++ a :: b :: f.right)) fs).leaves := by
  have hlast : ∀ k, (f.left ++ [a] ++ f.right).getLast? = some k → k.Ends := by
    intro k hk
    by_cases hr : f.right = []
    · rw [hr, List.append_nil, List.getLast?_concat] at hk
      exact Option.some.inj hk ▸ hp.ends.1
    · rw [List.getLast?_append_of_ne_nil _ hr] at hk
      exact hf k hk
  have hfam := hp.family
  have hapart := hp.apart
  rw [← append_cons_cons] at hfam hapart
  have hlinks := hp.links
  rw [← append_singleton_append] at hlinks
  obtain ⟨n', hins, hl, hhead, hnum⟩ := internalNodeInsert_room (m := m) hlinks hroom hfam hp.taken.1 hapart hp.ends.2
    hlast ha hd
  have hbp : b.page ≠ f.page := fun hn => hp.apart (hn ▸ hp.family.page_mem (mem_second ..))
  have hkids := hfam.put (n := n') hapart f.page
  rw [append_cons_cons] at hl hkids
  refine ⟨_, hins, hp.plug ?_ (fun q hq => ?_) ?_ ?_⟩
  · refine ⟨_, ?_, ?_, rfl, fun k hk => ⟨hkids.sub k hk, ?_⟩⟩
    · rw [page_join, put_node_same]
      exact hl
    · rw [page_join, put_node_same, hnum]
      exact hroom
    · have hkp : k.page ≠ f.page := fun hn => hp.apart (hn ▸ hp.family.page_mem hk)
      rw [put_node_of_ne hkp]
      by_cases hkb : k.page = b.page
      · rw [hkb, put_node_same]
        exact ⟨rfl, hp.isRoot b (mem_second ..)⟩
      · rw [put_node_of_ne hkb]
        refine ⟨hp.parent k ?_, hp.isRoot k hk⟩
        rw [← append_cons_cons] at hk
        rcases mem_append_cons hk with hk | rfl
        · rwa [append_singleton_append] at hk
        · exact absurd rfl hkb
  · obtain ⟨hqp, hqk⟩ := hp.apart_outer q hq
    have hqb : q ≠ b.page := fun hn => hqk (hn ▸ hp.family.page_mem (mem_second ..))
    rw [put_node_of_ne hqp, put_node_of_ne hqb]
  · rw [put_node_same]
    exact hhead
  · refine (Extends.put (n := (s.node b.page).under f.page) rfl).trans (Extends.put ?_)
    rw [put_node_of_ne hbp.symm]
    exact hhead.nextLeaf

/-! ## A full parent -/

theorem internalNodeInsert_full {p : Nat} {cmax : Int} (hmax : s.getNodeMaxKey d b.page = some cmax)
    (hfull : (s.node p).numKeys = internalNodeMaxKeys) (hb : Taken s b.page) (hne : b.page ≠ p) :
    internalNodeInsert d (m + 1) s p b.page = (s.put b.page ((s.node b.page).under p)).internalNodeSplitAndInsert
      (internalNodeInsert d m) d p b.page := by
  rw [internalNodeInsert, hmax]
  simp only [Option.bind_eq_bind, Option.bind_some, pure]
  rw [setParent_of_taken hb, put_node_of_ne hne.symm, if_pos (le_of_eq hfull.symm)]

omit [Cell C] in
theorem drop_append_singleton {i : Nat} (hk : k ∈ (l ++ [a] ++ r).drop i) :
    k ∈ l.drop i ∨ k = a ∨ k ∈ r.drop (i - (l.length + 1)) := by
  rw [List.drop_append, List.length_append, List.length_singleton] at hk
  rcases List.mem_append.mp hk with hk | hk
  · rw [List.drop_append] at hk
    rcases List.mem_append.mp hk with hk | hk
    · exact Or.inl hk
    · exact Or.inr (Or.inl (List.mem_singleton.mp (List.mem_of_mem_drop hk)))
  · exact Or.inr (Or.inr hk)

theorem Pending.count (hp : Pending s h a b f fs) : (s.node f.page).numKeys = f.left.length + f.right.length := by
  have hcount := hp.links.count
  rw [List.length_append, List.length_cons] at hcount
  omega

theorem Pending.full (hp : Pending s h a b f fs) (hfull : (s.node f.page).numKeys = internalNodeMaxKeys)
    (hf : Filled (f :: fs)) :
    Full (s.put b.page ((s.node b.page).under f.page)) h f.page b (f.left ++ [a]) f.right := by
  have hbp : b.page ≠ f.page := fun hn => hp.apart (hn ▸ hp.family.page_mem (mem_second ..))
  rw [Filled, if_neg (by rw [← hp.count, hfull]; exact lt_irrefl _)] at hf
  refine ⟨?_, ?_, ?_, hp.taken.1, ?_, ⟨hp.ends.2, fun k hk => ?_⟩, fun k hk => ?_, fun k hk => ?_⟩
  · rw [put_node_of_ne hbp.symm, append_singleton_append]
    exact hp.links
  · rw [put_node_of_ne hbp.symm]
    exact hfull
  · rw [append_cons_cons]
    refine hp.family.of_tops (fun _ hq => hq) (fun q hq hqk => put_node_of_ne fun hn => hqk ?_) fun k hk => ?_
    · rw [hn]
      exact List.mem_map_of_mem (mem_second ..)
    · by_cases hkb : k.page = b.page
      · rw [hkb, put_node_same]
        exact alike_under ..
      · exact Alike.of_eq (put_node_of_ne hkb)
  · rw [append_cons_cons]
    exact hp.apart
  · rcases drop_append_singleton hk with hk | rfl | hk
    · exact hf.1 k hk
    · exact hp.ends.1
    · exact hf.2.1 k hk
  · have hkb : k.page ≠ b.page := by
      have hfam := hp.family
      rw [← append_cons_cons] at hfam
      exact fun hn => hfam.page_ne hk k.page (hfam.sub k ((sublist_append_cons ..).mem hk)).page_mem
        (hn ▸ (hp.family.sub b (mem_second ..)).page_mem)
    rw [put_node_of_ne hkb]
    rw [append_singleton_append] at hk
    exact hp.parent k hk
  · rw [append_cons_cons] at hk
    by_cases hkb : k.page = b.page
    · rw [hkb, put_node_same]
      exact hp.isRoot b (mem_second ..)
    · rw [put_node_of_ne hkb]
      exact hp.isRoot k hk

theorem Pending.split (hp : Pending s h a b f fs) (hfull : (s.node f.page).numKeys = internalNodeMaxKeys)
    (ha : Allocates s j) (hd : h < d) :
    internalNodeInsert d (m + 1) s f.page b.page = (s.put b.page ((s.node b.page).under f.page)).internalNodeSplitAndInsert
      (internalNodeInsert d m) d f.page b.page :=
  internalNodeInsert_full (hp.family.maxKey (mem_second ..) hp.ends.2 hd ha) hfull
    (hp.family.taken _ (hp.family.page_mem (mem_second ..)))
    fun hn => hp.apart (hn ▸ hp.family.page_mem (mem_second ..))

/-- The full parent is the root. -/
theorem Pending.root (hp : Pending s h a b f []) (hfull : (s.node f.page).numKeys = internalNodeMaxKeys)
    (hf : Filled [f]) (ha : Allocates s (j + 2)) (hd : h + 1 < d) :
    ∃ s' t, internalNodeInsert d (m + 2) s f.page b.page = some s' ∧
      Regrown s s' (h + 2) t (Tree.plug (Part.join f.page (f.left ++ a :: b :: f.right)) []).leaves := by
  obtain ⟨hpage, hflag⟩ := hp.above
  rw [page_join] at hpage hflag
  have hv := hp.full hfull hf
  have hbp : b.page ≠ f.page := fun hn => hp.apart (hn ▸ hp.family.page_mem (mem_second ..))
  rw [hp.split hfull ha (lt_of_le_of_lt (Nat.le_succ h) hd)]
  rw [hpage] at hv hbp ⊢
  rw [hpage] at hflag
  obtain ⟨v, o, w, l, r, hlr, hg, hv'⟩ := splitAndInsert_root (m := m) hv
    (by rw [put_root, put_node_of_ne hbp.symm]; exact hflag) ha.put hd
  rw [append_cons_cons] at hlr
  have hkeeps : Extends s v := (Extends.put (n := (s.node b.page).under s.rootPageNum) rfl).trans hg.keeps
  have hperm : (Part.join s.rootPageNum [Part.join o l, Part.join w r]).pages.Perm
      (o :: w :: s.rootPageNum :: (f.left ++ a :: b :: f.right).flatMap Part.pages) := by
    rw [← hlr, List.perm_iff_count]
    intro q
    simp only [Part.join, List.flatMap_cons, List.flatMap_nil, List.flatMap_append, List.count_cons, List.count_append,
      List.count_nil]
    omega
  have hnd := (List.nodup_append.mp hp.nodup).1
  rw [hpage] at hnd
  have ht : ∀ q ∈ s.rootPageNum :: (f.left ++ a :: b :: f.right).flatMap Part.pages, Taken s q := by
    intro q hq
    rcases List.mem_cons.mp hq with rfl | hq
    · exact hpage ▸ hp.taken.1
    · exact hp.family.taken q hq
  refine ⟨v, _, hv', hg.sub, hkeeps.root.symm, hg.isRoot, ?_, ?_, fun q hq => ?_, hkeeps⟩
  · rw [Tree.plug, ← hlr]
    simp only [Part.join, List.flatMap_cons, List.flatMap_nil, List.flatMap_append, List.append_nil]
  · refine hperm.nodup_iff.mpr (List.nodup_cons.mpr ⟨fun hn => ?_, List.nodup_cons.mpr ⟨fun hn => ?_, hnd⟩⟩)
    · rcases List.mem_cons.mp hn with hn | hn
      · exact hg.new.2.2 hn
      · exact hg.new.1 (ht o hn)
    · exact hg.new.2.1 (ht w hn)
  · rcases List.mem_cons.mp (hperm.mem_iff.mp hq) with rfl | hq
    · exact hg.taken.1
    · rcases List.mem_cons.mp hq with rfl | hq
      · exact hg.taken.2
      · exact hkeeps.taken q (ht q hq)

/-! ## From one level to the next -/

/-- The subtree `t` below the frame `g` has become `a` on its own page and `b` on another. -/
structure Separated (s u : Store C) (h : Nat) (t a b : Part C) (g : Frame C) (fs : List (Frame C)) (oldKey : Int) :
    Prop where
  around : Above s h t (g :: fs)
  page : a.page = t.page
  sub : Sub u h a ∧ Sub u h b
  ends : a.Ends ∧ b.Ends
  head : (u.node t.page).parent = (s.node t.page).parent ∧ (u.node t.page).isRoot = (s.node t.page).isRoot
  isRoot : (u.node b.page).isRoot = false
  keep : ∀ q ∈ outer (g :: fs), u.node q = s.node q
  root : u.rootPageNum = s.rootPageNum
  nodup : (a.pages ++ b.pages ++ outer (g :: fs)).Nodup
  taken : ∀ q ∈ a.pages ++ b.pages ++ outer (g :: fs), Taken u q
  sorted : Sorted (plug (Part.join g.page (g.left ++ a :: b :: g.right)) fs).rows
  sameEnd : ¬ Rightmost fs → SameEnd (g.fill t).rows (Part.join g.page (g.left ++ a :: b :: g.right)).rows
  find : (s.node g.page).internalNodeFindChild oldKey = g.left.length

omit [Cell C] in
theorem pages_second (g : Frame C) (fs : List (Frame C)) (a b : Part C) :
    (g.page :: (g.left ++ a :: b :: g.right).flatMap Part.pages ++ outer fs).Perm
      (a.pages ++ b.pages ++ outer (g :: fs)) := by
  rw [List.perm_iff_count]
  intro q
  simp only [outer, List.flatMap_cons, List.flatMap_append, List.count_cons, List.count_append, List.cons_append]
  omega

/-- With the new key of `a` in its slot only `b` is left to be linked in. -/
theorem Separated.pending {t : Part C} {oldKey : Int} (hv : Separated s u h t a b g fs oldKey) :
    Pending (u.put g.page ((u.node g.page).updateInternalNodeKey oldKey a.maxKey)) h a b g fs := by
  obtain ⟨hlg, hleg, hkg, hparg, hrootg, hag⟩ := hv.around
  obtain ⟨x, hx⟩ : ∃ x, x = u.put g.page ((u.node g.page).updateInternalNodeKey oldKey a.maxKey) := ⟨_, rfl⟩
  have hperm := pages_second g fs a b
  have hnodup := hperm.nodup_iff.mpr hv.nodup
  obtain ⟨hgnot, hndk⟩ := List.nodup_cons.mp (List.nodup_append.mp hnodup).1
  have hpage : x.node g.page = (s.node g.page).updateInternalNodeKey oldKey a.maxKey := by
    rw [hx, put_node_same, hv.keep _ (List.mem_cons_self ..)]
  have hother : ∀ q, q ≠ g.page → x.node q = u.node q := fun q hq => by rw [hx, put_node_of_ne hq]
  have htaken : ∀ q ∈ g.page :: (g.left ++ a :: b :: g.right).flatMap Part.pages ++ outer fs, Taken x q := by
    rw [hx]
    exact fun q hq => hv.taken q (hperm.mem_iff.mp hq)
  have hout := (List.nodup_append.mp hv.nodup).2.1
  rw [outer] at hout
  obtain ⟨hgout, hndfs⟩ := List.nodup_cons.mp hout
  have hside : ∀ q ∈ (g.left ++ g.right).flatMap Part.pages ++ outer fs, x.node q = s.node q := fun q hq => by
    rw [hother q fun hn => hgout (hn ▸ hq), hv.keep q (List.mem_cons_of_mem _ hq)]
  have hkid : ∀ k ∈ g.left ++ g.right, ∀ q ∈ k.pages, x.node q = s.node q := fun k hk q hq =>
    hside q (List.mem_append_left _ (mem_pages hk hq))
  -- what a child of `g` is now
  have hchild : ∀ k ∈ g.left ++ a :: b :: g.right, k ∈ g.left ++ g.right ∨ k = a ∨ k = b := by
    intro k hk
    rw [← append_cons_cons] at hk
    rcases mem_append_cons hk with hk | rfl
    · rw [append_singleton_append] at hk
      exact (mem_append_cons hk).imp_right Or.inl
    · exact Or.inr (Or.inr rfl)
  have hmem : ∀ k ∈ g.left ++ a :: b :: g.right, ∀ q ∈ k.pages, q ≠ g.page := fun k hk q hq hn =>
    hgnot (hn ▸ mem_pages hk hq)
  have ham : a ∈ g.left ++ a :: b :: g.right := List.mem_append_right _ (List.mem_cons_self ..)
  have hap := hmem a ham _ hv.sub.1.page_mem
  have hbp := hmem b (mem_second ..) _ hv.sub.2.page_mem
  rw [← hx]
  refine ⟨?_, ?_, ⟨fun k hk => ?_, hndk, fun q hq => ?_, ?_⟩, fun k hk => ?_, fun k hk => ?_, hv.ends, ?_, hnodup,
    ⟨htaken _ (List.mem_cons_self ..), fun q hq => htaken q (List.mem_append_right _ hq)⟩, hv.sorted⟩
  · rw [hpage]
    exact hlg.updateKey hv.find hv.page fun _ => ⟨hv.ends.1.rows_ne.1, rfl⟩
  · rw [hpage]
    exact hleg
  · have hnd := (List.nodup_flatMap.mp hndk).1 k hk
    have hin : ∀ q ∈ k.pages, x.node q = u.node q := fun q hq => hother q (hmem k hk q hq)
    rcases hchild k hk with hm | rfl | rfl
    · exact (hkg k hm).1.congr hnd (hkid k hm)
    · exact hv.sub.1.congr hnd hin
    · exact hv.sub.2.congr hnd hin
  · exact htaken q (List.mem_append_left _ (List.mem_cons_of_mem _ hq))
  · have hs := hv.sorted
    rw [plug_rows, rows_join] at hs
    exact hs.sublist ((List.sublist_append_right ..).trans (List.sublist_append_left ..))
  · rcases mem_append_cons hk with hm | rfl
    · rw [hkid k hm _ (hkg k hm).1.page_mem]
      exact (hkg k hm).2.1
    · rw [hother _ hap, hv.page, hv.head.1]
      exact hparg
  · rcases hchild k hk with hm | rfl | rfl
    · rw [hkid k hm _ (hkg k hm).1.page_mem]
      exact (hkg k hm).2.2
    · rw [hother _ hap, hv.page, hv.head.2]
      exact hrootg
    · rw [hother _ hbp]
      exact hv.isRoot
  · have hreplaced : Above s (h + 1) (Part.join g.page (g.left ++ a :: b :: g.right)) fs := hag.replace rfl hv.sameEnd
    refine hreplaced.congr (List.nodup_append.mp hndfs).2.1 (fun q hq => hside q (List.mem_append_right _ hq)) ?_ ?_ ?_
    · rw [hx]
      exact hv.root
    · rw [page_join, hpage]
      rfl
    · rw [page_join, hpage]
      rfl

theorem find_above {t : Part C} (ha : Above s h t (g :: fs)) (hs : Sorted (plug t (g :: fs)).rows) {c : C}
    (hc : c ∈ t.rows) : (s.node g.page).internalNodeFindChild (Cell.key c) = g.left.length := by
  rw [Tree.plug, plug_rows, Frame.fill, rows_join] at hs
  exact ha.1.findRow (hs.sublist ((List.sublist_append_right ..).trans (List.sublist_append_left ..))) hc

omit [Cell C] in
theorem leaves_split (p o w : Nat) (k₁ k₂ l r : List (Part C)) :
    (Part.join p (k₁ ++ Part.join o l :: Part.join w r :: k₂)).leaves =
      (Part.join p (k₁ ++ Part.join o (l ++ r) :: k₂)).leaves := by
  simp only [Part.join, List.flatMap_append, List.flatMap_cons, List.append_assoc]

/-- The full parent is below `g`: the same situation one level up. -/
theorem Pending.up (hp : Pending s h a b f (g :: fs)) (hfull : (s.node f.page).numKeys = internalNodeMaxKeys)
    (hf : Filled (f :: g :: fs)) (ha : Allocates s (j + 1)) (hd : h + 1 < d) :
    ∃ x a' b', Pending x (h + 1) a' b' g fs ∧ Allocates x j ∧ Extends s x ∧
      internalNodeInsert d (m + 2) s f.page b.page = internalNodeInsert d (m + 1) x g.page b'.page ∧
      (Tree.plug (Part.join g.page (g.left ++ a' :: b' :: g.right)) fs).leaves =
        (Tree.plug (Part.join f.page (f.left ++ a :: b :: f.right)) (g :: fs)).leaves := by
  obtain ⟨-, -, -, hparg, hrootg, -⟩ := hp.above
  rw [page_join] at hparg hrootg
  have hv := hp.full hfull hf
  have hbp : b.page ≠ f.page := fun hn => hp.apart (hn ▸ hp.family.page_mem (mem_second ..))
  obtain ⟨hgf, -⟩ := hp.apart_outer g.page (List.mem_cons_self ..)
  have hnode : (s.put b.page ((s.node b.page).under f.page)).node f.page = s.node f.page := put_node_of_ne hbp.symm
  obtain ⟨u, w, l, r, hlr, hsp, hins⟩ := splitAndInsert_below (m := m) hv (by rw [hnode]; exact hrootg)
    (by rw [hnode, hparg]; exact hgf) ha.put hd
  rw [hnode, hparg] at hins
  rw [append_cons_cons] at hlr
  have hgu : Taken u g.page := hsp.keeps.taken _ (hp.taken.2 _ (List.mem_cons_self ..))
  rw [modify_of_taken hgu] at hins
  have hleaves := leaves_split g.page f.page w g.left g.right l r
  rw [hlr] at hleaves
  have hrows : (Part.join g.page (g.left ++ Part.join f.page l :: Part.join w r :: g.right)).rows =
      (Part.join g.page (g.left ++ Part.join f.page (f.left ++ a :: b :: f.right) :: g.right)).rows := by
    rw [Part.rows, hleaves, Part.rows]
  obtain ⟨c, hc, hck⟩ : ∃ c ∈ (Part.join f.page (f.left ++ a :: b :: f.right)).rows,
      (Part.join f.page (f.left ++ [a] ++ f.right)).maxKey = Cell.key c := by
    have hne : (Part.join f.page (f.left ++ [a] ++ f.right)).rows ≠ [] := by
      rw [rows_join, List.flatMap_append, List.flatMap_append, List.flatMap_singleton]
      exact List.append_ne_nil_of_left_ne_nil (List.append_ne_nil_of_right_ne_nil _ hp.ends.1.rows_ne.1) _
    obtain ⟨c, hc, hck⟩ := lastKey_mem hne
    refine ⟨c, ?_, hck⟩
    rw [rows_join] at hc ⊢
    rw [← append_cons_cons]
    exact ((sublist_append_cons ..).flatMap _).mem hc
  have hold : ∀ q ∈ f.page :: (f.left ++ a :: b :: f.right).flatMap Part.pages ++ outer (g :: fs), Taken s q := by
    intro q hq
    rcases List.mem_append.mp hq with hq | hq
    · rcases List.mem_cons.mp hq with rfl | hq
      · exact hp.taken.1
      · exact hp.family.taken q hq
    · exact hp.taken.2 q hq
  have hperm : ((Part.join f.page l).pages ++ (Part.join w r).pages ++ outer (g :: fs)).Perm
      (w :: (f.page :: (f.left ++ a :: b :: f.right).flatMap Part.pages ++ outer (g :: fs))) := by
    rw [← hlr, List.perm_iff_count]
    intro q
    simp only [Part.join, List.flatMap_append, List.count_cons, List.count_append, List.cons_append]
    omega
  have hsep : Separated s u (h + 1) (Part.join f.page (f.left ++ a :: b :: f.right)) (Part.join f.page l)
      (Part.join w r) g fs (Part.join f.page (f.left ++ [a] ++ f.right)).maxKey := by
    refine ⟨hp.above, rfl, ⟨hsp.old.1, hsp.upper.1⟩, ⟨hsp.old.2, hsp.upper.2⟩, ⟨?_, ?_⟩, hsp.isRoot, fun q hq => ?_,
      hsp.keeps.root, hperm.nodup_iff.mpr (List.nodup_cons.mpr ⟨fun hn => hsp.new.1 (hold w hn), hp.nodup⟩),
      fun q hq => ?_, ?_, fun _ => ?_, ?_⟩
    · rw [page_join, hsp.head.parent, hnode]
    · rw [page_join, hsp.head.isRoot, hnode]
    · obtain ⟨hqf, hqk⟩ := hp.apart_outer q hq
      have hqb : q ≠ b.page := fun hn => hqk (hn ▸ hp.family.page_mem (mem_second ..))
      rw [hsp.rest q (hp.taken.2 q hq) hqf (fun hn => hqk ?_), put_node_of_ne hqb]
      rw [hlr] at hn
      obtain ⟨k, hk, rfl⟩ := List.mem_map.mp hn
      exact hp.family.page_mem hk
    · rcases List.mem_cons.mp (hperm.mem_iff.mp hq) with rfl | hq
      · exact hsp.new.2
      · exact hsp.keeps.taken q (hold q hq)
    · have hs := hp.sorted
      rw [Tree.plug, plug_rows] at hs
      rw [plug_rows, hrows]
      exact hs
    · have hne : (g.fill (Part.join f.page (f.left ++ a :: b :: f.right))).rows ≠ [] := by
        rw [rows_fill]
        exact List.append_ne_nil_of_left_ne_nil (List.append_ne_nil_of_right_ne_nil _ (List.ne_nil_of_mem hc)) _
      refine ⟨hne, ?_, ?_⟩
      · rw [hrows]
        exact hne
      · rw [hrows]
        rfl
    · rw [hck]
      exact find_above hp.above hp.sorted hc
  refine ⟨_, Part.join f.page l, Part.join w r, hsep.pending, hsp.allocates.put, ?_, ?_, ?_⟩
  · exact ((Extends.put (n := (s.node b.page).under f.page) rfl).trans hsp.keeps).trans (Extends.put rfl)
  · rw [hp.split hfull ha (lt_of_le_of_lt (Nat.le_succ h) hd), hins]
    rfl
  · rw [plug_leaves, hleaves, Tree.plug, plug_leaves]
    rfl

/-! ## The climb -/

/-- Linking `b` in ends with a tree whose leaves are those of before with `b`'s in their place. -/
theorem Pending.insert (hp : Pending s h a b f fs) (hf : Filled (f :: fs)) (ha : Allocates s (fs.length + 2))
    (hd : h + fs.length + 1 < d) (hm : fs.length + 2 ≤ m) :
    ∃ s' h' t, internalNodeInsert d m s f.page b.page = some s' ∧
      Regrown s s' h' t (Tree.plug (Part.join f.page (f.left ++ a :: b :: f.right)) fs).leaves := by
  induction fs generalizing s h a b f m with
  | nil =>
    obtain ⟨m, rfl⟩ := Nat.exists_eq_add_of_le' hm
    rw [List.length_nil, Nat.add_zero] at hd
    have hd₁ : h < d := by omega
    rcases Nat.lt_or_ge (s.node f.page).numKeys internalNodeMaxKeys with hroom | hfull
    · rw [Filled, if_pos (by rw [← hp.count]; exact hroom)] at hf
      obtain ⟨s', hins, hr⟩ := hp.room (m := m + 1) hroom hf ha hd₁
      exact ⟨s', _, _, hins, hr⟩
    · obtain ⟨s', t, hins, hr⟩ := hp.root (m := m) (le_antisymm hp.fits hfull) hf ha hd
      exact ⟨s', _, t, hins, hr⟩
  | cons g fs ih =>
    rw [List.length_cons] at ha hd hm
    obtain ⟨m, rfl⟩ := Nat.exists_eq_add_of_le' (show 2 ≤ m by omega)
    have hd₁ : h < d := by omega
    have hd₂ : h + 1 < d := by omega
    have hd₃ : h + 1 + fs.length + 1 < d := by omega
    have hm₁ : fs.length + 2 ≤ m + 1 := by omega
    rcases Nat.lt_or_ge (s.node f.page).numKeys internalNodeMaxKeys with hroom | hfull
    · rw [Filled, if_pos (by rw [← hp.count]; exact hroom)] at hf
      obtain ⟨s', hins, hr⟩ := hp.room (m := m + 1) hroom hf ha hd₁
      exact ⟨s', _, _, hins, hr⟩
    · have hfull := le_antisymm hp.fits hfull
      obtain ⟨x, a', b', hx, hax, hkeeps, hins, hleaves⟩ := hp.up (m := m) hfull hf ha hd₂
      rw [Filled, if_neg (by rw [← hp.count, hfull]; exact lt_irrefl _)] at hf
      obtain ⟨s', h', t, hins', hr⟩ := ih hx hf.2.2 hax hd₃ hm₁
      refine ⟨s', h', t, hins.trans hins', hr.sub, hr.root, hr.isRoot, ?_, hr.nodup, hr.taken, hkeeps.trans hr.keeps⟩
      rw [hr.leaves, hleaves]

end Tree

end CustomDB
