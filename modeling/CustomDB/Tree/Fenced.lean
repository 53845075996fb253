import CustomDB.Lib.Fences
import CustomDB.Tree.Unlink

/-!
# Trees with separators that only bound

A deletion lowers the separator of the leaf's own parent at most, so that the separators further up are no longer the
largest keys of the subtrees to their left. They still bound these keys, and that is what a search needs. `SearchTree`
is a tree with such separators; every well-formed tree is one.
-/

namespace CustomDB

open Lib Lib.Fences

namespace Tree

variable {C : Type} [Cell C]

/-- An inner node has the children `kids`, with the separators `seps` between them as fences. -/
structure Forks (n : Node C) (kids : List (Part C)) (seps : List Int) : Prop where
  nodeType : n.nodeType = .internal
  numKeys : n.numKeys = seps.length
  child : ∀ (i : Nat) (k : Part C), kids[i]? = some k → n.internalNodeChild i = some k.page
  sep : ∀ (i : Nat) (x : Int), seps[i]? = some x → (n.slots i).2 = x
  fences : Fenced Cell.key (kids.map Part.rows) seps

/-- `t` is a subtree of height `h` with separators that bound. -/
def Guided (s : Store C) : Nat → Part C → Prop
  | 0, t => (s.node t.page).nodeType = .leaf ∧ t = Part.leaf t.page (s.node t.page).cells
  | h + 1, t => ∃ kids seps, Forks (s.node t.page) kids seps ∧ t = Part.join t.page kids ∧
      ∀ k ∈ kids, Guided s h k ∧ (s.node k.page).parent = t.page ∧ (s.node k.page).isRoot = false

/-- `k` is such a subtree under page `p`. -/
def Ward (s : Store C) (h p : Nat) (k : Part C) : Prop :=
  Guided s h k ∧ (s.node k.page).parent = p ∧ (s.node k.page).isRoot = false

/-- The frames are inner nodes of the tree around a subtree `t` of height `h`. -/
def Around (s : Store C) : Nat → Part C → List (Frame C) → Prop
  | _, t, [] => t.page = s.rootPageNum ∧ (s.node t.page).isRoot = true
  | h, t, f :: fs => (∃ seps, Forks (s.node f.page) (f.left ++ t :: f.right) seps) ∧
      (∀ k ∈ f.left ++ f.right, Ward s h f.page k) ∧ (s.node t.page).parent = f.page ∧
      (s.node t.page).isRoot = false ∧ Around s (h + 1) (f.fill t) fs

/-- The tree of the table, of height `h`, with separators that bound. -/
structure SearchTree (s : Store C) (h : Nat) (t : Part C) : Prop where
  guided : Guided s h t
  root : t.page = s.rootPageNum
  page_ne : t.page ≠ 0
  isRoot : (s.node t.page).isRoot = true
  sorted : Sorted t.rows
  chained : Chained s (t.leaves.map Prod.fst)
  nodup : t.pages.Nodup

variable {s s' : Store C} {h p q i : Nat} {t t' k : Part C} {kids k₁ k₂ : List (Part C)} {n n' : Node C} {f : Frame C}
  {fs gs : List (Frame C)} {seps : List Int} {c : C}

/-! ## Reading a subtree -/

theorem Forks.count (hf : Forks n kids seps) : kids.length = seps.length + 1 := by
  have hlen := hf.fences.length
  rwa [List.length_map] at hlen

theorem Forks.kids_ne (hf : Forks n kids seps) : kids ≠ [] := by
  intro hn
  have hcount := hf.count
  rw [hn] at hcount
  cases hcount

omit [Cell C] in
theorem getElem?_of_pages {kids' : List (Part C)} (hp : kids'.map Part.page = kids.map Part.page)
    (hget : kids'[i]? = some k) : ∃ k₀, kids[i]? = some k₀ ∧ k₀.page = k.page := by
  have hmap : (kids'.map Part.page)[i]? = (kids.map Part.page)[i]? := by rw [hp]
  rw [List.getElem?_map, List.getElem?_map, hget] at hmap
  obtain ⟨k₀, hk₀, hpage⟩ := Option.map_eq_some_iff.mp hmap.symm
  exact ⟨k₀, hk₀, hpage⟩

/-- The children may be others on the same pages. -/
theorem Forks.repage {kids' : List (Part C)} (hf : Forks n kids seps) (hp : kids'.map Part.page = kids.map Part.page)
    (hfences : Fenced Cell.key (kids'.map Part.rows) seps) : Forks n kids' seps := by
  refine ⟨hf.nodeType, hf.numKeys, fun i k hget => ?_, hf.sep, hfences⟩
  obtain ⟨k₀, hk₀, hpage⟩ := getElem?_of_pages hp hget
  rw [hf.child i k₀ hk₀, hpage]

theorem Forks.shrink (hf : Forks n (k₁ ++ t :: k₂) seps) (hp : t'.page = t.page) (hrows : t'.rows ⊆ t.rows) :
    Forks n (k₁ ++ t' :: k₂) seps := by
  refine hf.repage (by rw [List.map_append, List.map_append, List.map_cons, List.map_cons, hp]) ?_
  have hfences := hf.fences
  rw [List.map_append, List.map_cons] at hfences ⊢
  exact hfences.shrink hrows

theorem set_middle (xs ys : List Int) (x y : Int) : (xs ++ x :: ys).set xs.length y = xs ++ y :: ys := by
  simp

/-- The same, with another separator. -/
theorem Forks.setKey {kids' : List (Part C)} {y : Int} (hf : Forks n kids seps)
    (hp : kids'.map Part.page = kids.map Part.page) (hfences : Fenced Cell.key (kids'.map Part.rows) (seps.set i y)) :
    Forks (n.setKey i y) kids' (seps.set i y) := by
  have hsame := (sameKids_setKey n i y).toSameKids
  refine ⟨hf.nodeType, ?_, fun j k hget => ?_, fun j z hz => ?_, hfences⟩
  · rw [hsame.numKeys, hf.numKeys, List.length_set]
  · obtain ⟨k₀, hk₀, hpage⟩ := getElem?_of_pages hp hget
    rw [hsame.child, hf.child j k₀ hk₀, hpage]
  · unfold Node.setKey
    dsimp only
    rw [List.getElem?_set] at hz
    by_cases hj : i = j
    · subst hj
      rw [if_pos rfl] at hz
      rw [Function.update_self]
      split at hz
      · exact Option.some.inj hz
      · cases hz
    · rw [if_neg hj] at hz
      rw [Function.update_of_ne (Ne.symm hj)]
      exact hf.sep j z hz

theorem Guided.page_mem (hs : Guided s h t) : t.page ∈ t.pages := by
  cases h with
  | zero =>
    rw [hs.2]
    exact List.mem_singleton_self _
  | succ h =>
    obtain ⟨kids, seps, -, ht, -⟩ := hs
    rw [ht]
    exact List.mem_cons_self ..

theorem Guided.leaf_pages (hs : Guided s h t) : ∀ x ∈ t.leaves, x.1 ∈ t.pages := by
  induction h generalizing t with
  | zero =>
    rw [hs.2]
    intro x hx
    obtain rfl := List.mem_singleton.mp hx
    exact List.mem_singleton_self _
  | succ h ih =>
    obtain ⟨kids, seps, -, ht, hk⟩ := hs
    rw [ht]
    intro x hx
    obtain ⟨k, hm, hx⟩ := List.mem_flatMap.mp hx
    exact List.mem_cons_of_mem _ (List.mem_flatMap.mpr ⟨k, hm, ih (hk k hm).1 x hx⟩)

/-- The leaves are pages of the store, with the cells they have there. -/
theorem Guided.leaf_cells (hs : Guided s h t) : ∀ x ∈ t.leaves, (s.node x.1).nodeType = .leaf ∧ (s.node x.1).cells = x.2 := by
  induction h generalizing t with
  | zero =>
    rw [hs.2]
    intro x hx
    obtain rfl := List.mem_singleton.mp hx
    exact ⟨hs.1, rfl⟩
  | succ h ih =>
    obtain ⟨kids, seps, -, ht, hk⟩ := hs
    rw [ht]
    intro x hx
    obtain ⟨k, hm, hx⟩ := List.mem_flatMap.mp hx
    exact ih (hk k hm).1 x hx

/-- A subtree reads its own pages only, and nothing of the parent pointer and the root flag of its top. -/
theorem Guided.frame (hs : Guided s h t) (hnd : t.pages.Nodup) (hin : ∀ q ∈ t.pages, q ≠ t.page → s'.node q = s.node q)
    (htop : Alike (s.node t.page) (s'.node t.page)) : Guided s' h t := by
  induction h generalizing t with
  | zero =>
    obtain ⟨q, b, he⟩ := htop
    refine ⟨?_, ?_⟩
    · rw [he]
      exact hs.1
    · rw [he]
      exact hs.2
  | succ h ih =>
    obtain ⟨kids, seps, hf, ht, hk⟩ := hs
    refine ⟨kids, seps, ?_, ht, fun k hmem => ?_⟩
    · obtain ⟨q, b, he⟩ := htop
      rw [he]
      exact ⟨hf.nodeType, hf.numKeys, hf.child, hf.sep, hf.fences⟩
    · obtain ⟨hsub, hpar, hroot⟩ := hk k hmem
      rw [ht] at hnd
      obtain ⟨hnot, hnd⟩ := List.nodup_cons.mp hnd
      have hmemp : ∀ q ∈ k.pages, q ∈ kids.flatMap Part.pages := fun q hq => List.mem_flatMap.mpr ⟨k, hmem, hq⟩
      have hsame : ∀ q ∈ k.pages, s'.node q = s.node q := fun q hq => hin q (by
        rw [ht]
        exact List.mem_cons_of_mem _ (hmemp q hq)) fun hn => hnot (hn ▸ hmemp q hq)
      rw [hsame _ hsub.page_mem]
      exact ⟨ih hsub ((List.nodup_flatMap.mp hnd).1 k hmem) (fun q hq _ => hsame q hq)
        (Alike.of_eq (hsame _ hsub.page_mem)), hpar, hroot⟩

theorem Ward.congr (hc : Ward s h p k) (hnd : k.pages.Nodup) (hin : ∀ q ∈ k.pages, s'.node q = s.node q) :
    Ward s' h p k := by
  have htop := hin _ hc.1.page_mem
  refine ⟨hc.1.frame hnd (fun q hq _ => hin q hq) (Alike.of_eq htop), ?_, ?_⟩ <;> rw [htop]
  · exact hc.2.1
  · exact hc.2.2

/-! ## Plugging -/

/-- The lowest frame and the subtree it is around. -/
theorem Around.fill (ha : Around s h t (f :: fs)) (hs : Guided s h t) : Guided s (h + 1) (f.fill t) := by
  obtain ⟨⟨seps, hf⟩, hk, hpar, hroot, -⟩ := ha
  refine ⟨f.left ++ t :: f.right, seps, hf, rfl, fun k hmem => ?_⟩
  rcases mem_append_cons hmem with hm | rfl
  · exact hk k hm
  · exact ⟨hs, hpar, hroot⟩

theorem Around.plug (ha : Around s h t fs) (hs : Guided s h t) : Guided s (h + fs.length) (plug t fs) ∧
    (plug t fs).page = s.rootPageNum ∧ (s.node (Tree.plug t fs).page).isRoot = true := by
  induction fs generalizing h t with
  | nil => exact ⟨hs, ha⟩
  | cons f fs ih =>
    rw [List.length_cons, Nat.add_comm fs.length 1, ← Nat.add_assoc]
    exact ih ha.2.2.2.2 (ha.fill hs)

/-- Another subtree without further rows, where the pages of the frames are as they were. -/
theorem Around.replace (ha : Around s h t fs) (hnd : (outer fs).Nodup) (hp : t'.page = t.page)
    (hrows : t'.rows ⊆ t.rows) (hin : ∀ q ∈ outer fs, s'.node q = s.node q) (hroot : s'.rootPageNum = s.rootPageNum)
    (hpar : (s'.node t.page).parent = (s.node t.page).parent)
    (hflag : (s'.node t.page).isRoot = (s.node t.page).isRoot) : Around s' h t' fs := by
  induction fs generalizing h t t' with
  | nil =>
    rw [Around, hp, hroot, hflag]
    exact ha
  | cons f fs ih =>
    obtain ⟨⟨seps, hf⟩, hk, hpt, hrt, ha⟩ := ha
    rw [outer] at hnd hin
    obtain ⟨hnot, hnd⟩ := List.nodup_cons.mp hnd
    obtain ⟨hnd₁, hnd₂, -⟩ := List.nodup_append.mp hnd
    have hpage : s'.node f.page = s.node f.page := hin _ (List.mem_cons_self ..)
    refine ⟨⟨seps, ?_⟩, fun k hmem => ?_, by rw [hp, hpar]; exact hpt, by rw [hp, hflag]; exact hrt,
      ih ha hnd₂ rfl ?_ (fun q hq => hin q (List.mem_cons_of_mem _ (List.mem_append_right _ hq)))
        (congrArg Node.parent hpage) (congrArg Node.isRoot hpage)⟩
    · rw [hpage]
      exact hf.shrink hp hrows
    · exact (hk k hmem).congr ((List.nodup_flatMap.mp hnd₁).1 k hmem) fun q hq =>
        hin q (List.mem_cons_of_mem _ (List.mem_append_left _ (List.mem_flatMap.mpr ⟨k, hmem, hq⟩)))
    · rw [rows_fill, rows_fill]
      exact fun c hc => by
        simp only [List.mem_append] at hc ⊢
        rcases hc with (hc | hc) | hc
        · exact Or.inl (Or.inl hc)
        · exact Or.inl (Or.inr (hrows hc))
        · exact Or.inr hc

/-! ## The tree with another subtree -/

omit [Cell C] in
theorem Apart.kid_nodup (hnd : Apart t (f :: fs)) (hk : k ∈ f.left ++ f.right) : k.pages.Nodup := by
  have houter : (outer (f :: fs)).Nodup := (List.nodup_append.mp hnd).2.1
  rw [outer] at houter
  exact (List.nodup_flatMap.mp (List.nodup_append.mp (List.nodup_cons.mp houter).2).1).1 k hk

omit [Cell C] in
theorem Apart.replace (hnd : Apart t fs) (hpages : t'.pages ⊆ t.pages) (hnd' : t'.pages.Nodup) : Apart t' fs := by
  obtain ⟨-, houter, hdisj⟩ := List.nodup_append.mp hnd
  exact List.nodup_append.mpr ⟨hnd', houter, fun a ha b hb => hdisj a (hpages ha) b hb⟩

/-- What a write to a subtree has to leave for the tree to be a search tree still: no rows and no pages are new, the
pages of the frames are as they were, and so is the place of the subtree. -/
structure Rewritten (s s' : Store C) (h : Nat) (t t' : Part C) (fs : List (Frame C)) : Prop where
  guided : Guided s' h t'
  page : t'.page = t.page
  pages : t'.pages ⊆ t.pages
  nodup : t'.pages.Nodup
  rows : t'.rows.Sublist t.rows
  frames : ∀ q ∈ outer fs, s'.node q = s.node q
  root : s'.rootPageNum = s.rootPageNum
  parent : (s'.node t.page).parent = (s.node t.page).parent
  isRoot : (s'.node t.page).isRoot = (s.node t.page).isRoot

theorem Rewritten.around (hr : Rewritten s s' h t t' fs) (ha : Around s h t fs) (hnd : Apart t fs) : Around s' h t' fs :=
  ha.replace (List.nodup_append.mp hnd).2.1 hr.page hr.rows.subset hr.frames hr.root hr.parent hr.isRoot

/-- No page of the tree is new. -/
theorem Rewritten.plug_subset (hr : Rewritten s s' h t t' fs) : (plug t' fs).pages ⊆ (plug t fs).pages := by
  intro q hq
  rw [(plug_pages t' fs).mem_iff, List.mem_append] at hq
  rw [(plug_pages t fs).mem_iff, List.mem_append]
  exact hq.imp_left fun hm => hr.pages hm

theorem Rewritten.searchTree {h' : Nat} (hr : Rewritten s s' h t t' fs) (ha : Around s h t fs) (hnd : Apart t fs)
    (hw : SearchTree s h' (plug t fs)) (hchain : Chained s' ((plug t' fs).leaves.map Prod.fst)) :
    SearchTree s' (h + fs.length) (plug t' fs) := by
  obtain ⟨hg, hpage, hroot⟩ := (hr.around ha hnd).plug hr.guided
  refine ⟨hg, hpage, ?_, hroot, ?_, hchain, (plug_pages t' fs).nodup_iff.mpr (hnd.replace hr.pages hr.nodup)⟩
  · rw [hpage, hr.root, ← hw.root]
    exact hw.page_ne
  refine List.Pairwise.sublist ?_ hw.sorted
  rw [plug_rows, plug_rows]
  exact (hr.rows.append_left _).append_right _

/-! ## Leaves -/

/-- Every leaf has a path to the root. -/
theorem Guided.locate {x : Nat × List C} {l₁ l₂ : List (Nat × List C)} (hs : Guided s h t) (ha : Around s h t fs)
    (hleaves : t.leaves = l₁ ++ x :: l₂) :
    ∃ gs, plug (Part.leaf x.1 x.2) gs = plug t fs ∧ Around s 0 (Part.leaf x.1 x.2) gs ∧ Guided s 0 (Part.leaf x.1 x.2) ∧
      gs.length = h + fs.length ∧ before gs = before fs ++ l₁ ∧ after gs = l₂ ++ after fs := by
  induction h generalizing t fs l₁ l₂ with
  | zero =>
    obtain ⟨htype, hleaf⟩ := hs
    rw [hleaf] at hleaves
    have hone : [(t.page, (s.node t.page).cells)] = l₁ ++ x :: l₂ := hleaves
    cases l₁ with
    | nil =>
      obtain ⟨rfl, rfl⟩ := List.cons.inj hone
      have ht : Part.leaf t.page (s.node t.page).cells = t := hleaf.symm
      refine ⟨fs, by rw [ht], ?_, ⟨htype, rfl⟩, (Nat.zero_add _).symm, (List.append_nil _).symm, rfl⟩
      rw [ht]
      exact ha
    | cons y l₁ =>
      have hnil := (List.cons.inj hone).2
      exact absurd hnil.symm (List.append_ne_nil_of_right_ne_nil _ (List.cons_ne_nil _ _))
  | succ h ih =>
    obtain ⟨kids, seps, hf, ht, hk⟩ := hs
    rw [ht] at hleaves
    have hflat : kids.flatMap Part.leaves = l₁ ++ x :: l₂ := hleaves
    obtain ⟨k₁, k, k₂, m₁, m₂, rfl, hkl, rfl, rfl⟩ := split_flatMap hflat
    have hkm : k ∈ k₁ ++ k :: k₂ := List.mem_append_right _ List.mem_cons_self
    have hfill : Frame.fill ⟨t.page, k₁, k₂⟩ k = t := ht.symm
    have haround : Around s h k (⟨t.page, k₁, k₂⟩ :: fs) :=
      ⟨⟨seps, hf⟩, fun x hx => hk x ((sublist_append_cons ..).mem hx), (hk k hkm).2.1, (hk k hkm).2.2,
        by rw [hfill]; exact ha⟩
    obtain ⟨gs, hplug, hag, hsg, hlen, hb, haf⟩ := ih (hk k hkm).1 haround hkl
    refine ⟨gs, ?_, hag, hsg, ?_, ?_, ?_⟩
    · rw [hplug, plug, hfill]
    · rw [hlen, List.length_cons]
      omega
    · rw [hb, before, List.append_assoc]
    · rw [haf, after, List.append_assoc]

theorem SearchTree.locate {x : Nat × List C} {l₁ l₂ : List (Nat × List C)} (hw : SearchTree s h t)
    (hleaves : t.leaves = l₁ ++ x :: l₂) :
    ∃ fs, plug (Part.leaf x.1 x.2) fs = t ∧ Around s 0 (Part.leaf x.1 x.2) fs ∧ Guided s 0 (Part.leaf x.1 x.2) ∧
      Apart (Part.leaf x.1 x.2) fs ∧ fs.length = h ∧ before fs = l₁ ∧ after fs = l₂ := by
  have htop : Around s h t [] := ⟨hw.root, hw.isRoot⟩
  obtain ⟨fs, hplug, ha, hs, hlen, hb, haf⟩ := hw.guided.locate htop hleaves
  refine ⟨fs, hplug, ha, hs, ?_, hlen, hb, haf.trans (List.append_nil _)⟩
  have hperm := plug_pages (Part.leaf x.1 x.2) fs
  rw [hplug] at hperm
  exact hperm.nodup_iff.mp hw.nodup

/-! ## A well-formed tree -/

/-- The largest keys of the children in front of the last are fences. -/
theorem fenced_of_sorted {last : Part C} (hs : Sorted ((kids ++ [last]).flatMap Part.rows)) (hne : ∀ k ∈ kids, k.rows ≠ []) :
    Fenced Cell.key ((kids ++ [last]).map Part.rows) (kids.map Part.maxKey) := by
  induction kids with
  | nil => trivial
  | cons k kids ih =>
    rw [List.cons_append, List.flatMap_cons] at hs
    obtain ⟨hk, hrest, hlt⟩ := List.pairwise_append.mp hs
    obtain ⟨d, hd, hkey⟩ := lastKey_mem (hne k List.mem_cons_self)
    have hbehind : ∀ c ∈ (kids ++ [last]).flatMap Part.rows, k.maxKey < Cell.key c := by
      intro c hc
      rw [Part.maxKey, hkey]
      exact hlt d hd c hc
    rw [List.cons_append, List.map_cons, List.map_cons, fenced_cons]
    refine ⟨fun c hc => Sorted.le_lastKey hk hc, fun c hc => ?_, fun y hy => ?_,
      ih hrest fun x hx => hne x (List.mem_cons_of_mem _ hx)⟩
    · rw [← List.flatMap_def] at hc
      exact hbehind c hc
    · obtain ⟨x, hx, rfl⟩ := List.mem_map.mp hy
      obtain ⟨e, he, hmax⟩ := lastKey_mem (hne x (List.mem_cons_of_mem _ hx))
      rw [Part.maxKey, Part.maxKey, hmax]
      exact le_of_lt (hbehind e (List.mem_flatMap.mpr ⟨x, List.mem_append_left _ hx, he⟩))

theorem Links.forks (hl : Links n kids) (hs : Sorted (kids.flatMap Part.rows)) :
    Forks n kids (kids.dropLast.map Part.maxKey) := by
  have hne : kids ≠ [] := by
    intro hn
    have hcount := hl.count
    rw [hn, List.length_nil] at hcount
    omega
  have hsplit := List.dropLast_append_getLast hne
  have hlen : kids.dropLast.length = n.numKeys := by
    rw [List.length_dropLast, hl.count, Nat.add_sub_cancel]
  have hslot : ∀ i k, kids.dropLast[i]? = some k → n.slots i = (k.page, k.maxKey) ∧ k.rows ≠ [] := by
    intro i k hk
    have hi : i < n.numKeys := by
      rw [← hlen]
      exact (List.getElem?_eq_some_iff.mp hk).1
    refine hl.slot i k hi ?_
    rw [← hsplit, List.getElem?_append_left (by rw [hlen]; exact hi)]
    exact hk
  refine ⟨hl.nodeType, by rw [List.length_map, hlen], fun i k hk => hl.child hk, fun i x hx => ?_, ?_⟩
  · rw [List.getElem?_map] at hx
    obtain ⟨k, hk, rfl⟩ := Option.map_eq_some_iff.mp hx
    rw [(hslot i k hk).1]
  · rw [← hsplit] at hs
    have hf := fenced_of_sorted hs fun k hk => by
      obtain ⟨i, hi⟩ := List.getElem?_of_mem hk
      exact (hslot i k hi).2
    rwa [hsplit] at hf

theorem Sub.guided (hs : Sub s h t) (hrows : Sorted t.rows) : Guided s h t := by
  induction h generalizing t with
  | zero => exact hs
  | succ h ih =>
    obtain ⟨kids, hl, -, ht, hk⟩ := hs
    rw [ht, rows_join] at hrows
    refine ⟨kids, _, hl.forks hrows, ht, fun k hm => ⟨ih (hk k hm).1 ?_, (hk k hm).2⟩⟩
    obtain ⟨l, r, rfl⟩ := List.append_of_mem hm
    rw [List.flatMap_append, List.flatMap_cons] at hrows
    exact hrows.sublist ((List.sublist_append_left ..).trans (List.sublist_append_right ..))

/-- Every well-formed tree is a search tree. -/
theorem WellFormed.searchTree (hw : WellFormed s h t) (hroot : s.rootPageNum ≠ 0) : SearchTree s h t :=
  ⟨hw.sub.guided hw.sorted, hw.root, hw.root ▸ hroot, hw.isRoot, hw.sorted, hw.chained, hw.nodup⟩

end Tree

end CustomDB
