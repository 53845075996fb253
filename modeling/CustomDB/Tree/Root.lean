import CustomDB.Tree.Link

/-!
# A new root

`create_new_root` keeps the root on its page: the content moves to a new page, and the root becomes the parent of
that page and of the one on its right.
-/

namespace CustomDB

open Lib

namespace Tree

variable {C : Type} [Cell C] {s u : Store C} {h d j l p r : Nat} {key : Int} {a b k t : Part C}
  {kids k₁ k₂ : List (Part C)} {n n' : Node C}

open Store

/-! ## The children of the page -/

/-- The subtrees `kids` are under page `p` now. -/
structure Adopted (s u : Store C) (p : Nat) (kids : List (Part C)) : Prop where
  file : u = { s with node := u.node }
  tops : ∀ k ∈ kids, u.node k.page = (s.node k.page).under p
  rest : ∀ q, q ∉ kids.map Part.page → u.node q = s.node q

theorem adoptChildren_eq (hl : Links (s.node p) kids) (hf : Family s h kids) (hp : p ∉ kids.flatMap Part.pages) :
    ∃ u, s.adoptChildren p = some u ∧ Adopted s u p kids := by
  have hmain : ∀ m, m ≤ kids.length → ∃ u, (List.range m).foldlM (fun s i => do
      let child ← (s.node p).internalNodeChild i
      return s.setParent child p) s = some u ∧ Adopted s u p (kids.take m) := by
    intro m
    induction m with
    | zero => exact fun _ => ⟨s, rfl, rfl, fun k hk => absurd hk List.not_mem_nil, fun _ _ => rfl⟩
    | succ m ih =>
      intro hm
      obtain ⟨u, hu, ha⟩ := ih (by omega)
      have hget : kids[m]? = some kids[m] := List.getElem?_eq_getElem hm
      have hmem : kids[m] ∈ kids := List.getElem_mem hm
      have htake : kids.take (m + 1) = kids.take m ++ [kids[m]] := List.take_succ_eq_append_getElem hm
      have hpage : u.node p = s.node p := ha.rest p fun hn => by
        obtain ⟨k, hk, hkp⟩ := List.mem_map.mp hn
        exact hp (hkp ▸ hf.page_mem (List.mem_of_mem_take hk))
      have hlow : ∀ k ∈ kids.take m, k.page ≠ kids[m].page := fun k hk =>
        (hf.sublist (htake ▸ List.take_sublist ..)).page_ne_page hk (List.mem_singleton_self _)
      have hkeep : u.node kids[m].page = s.node kids[m].page := ha.rest _ fun hn => by
        obtain ⟨k, hk, hkp⟩ := List.mem_map.mp hn
        exact hlow k hk hkp
      have ht : Taken u kids[m].page := taken_of_file ha.file (hf.taken _ (hf.page_mem hmem))
      refine ⟨u.put kids[m].page ((u.node kids[m].page).under p), ?_, ?_, fun k hk => ?_, fun q hq => ?_⟩
      · rw [List.range_succ, List.foldlM_append, hu]
        simp only [Option.bind_eq_bind, Option.bind_some, List.foldlM_cons, List.foldlM_nil, pure]
        rw [hpage, hl.child hget]
        simp only [Option.bind_some]
        rw [setParent_of_taken ht]
      · rw [ha.file]
        rfl
      · rw [htake] at hk
        rcases List.mem_append.mp hk with hk | hk
        · rw [put_node_of_ne (hlow k hk)]
          exact ha.tops k hk
        · rw [List.mem_singleton.mp hk, put_node_same, hkeep]
      · rw [htake, List.map_append] at hq
        obtain ⟨hq, hqm⟩ := not_or.mp fun hn => hq (List.mem_append.mpr hn)
        have hqk : q ≠ kids[m].page := fun hn => hqm (hn ▸ List.mem_singleton_self _)
        rw [put_node_of_ne hqk, ha.rest q hq]
  obtain ⟨u, hu, ha⟩ := hmain kids.length (le_refl _)
  rw [List.take_length] at ha
  refine ⟨u, ?_, ha⟩
  rw [adoptChildren, ← hl.count]
  exact hu

/-! ## The root over two pages -/

/-- The root is the parent of the pages `l` and `r`; `key` is the largest key on the left. -/
structure Rooted (s u : Store C) (l r : Nat) (key : Int) : Prop where
  file : u = { s with node := u.node }
  links : ∀ a b : Part C, a.page = l → a.maxKey = key → a.rows ≠ [] → b.page = r → Links (u.node s.rootPageNum) [a, b]
  head : (u.node s.rootPageNum).isRoot = true ∧ (u.node s.rootPageNum).numKeys = 1 ∧
    (u.node s.rootPageNum).nextLeaf = (s.node s.rootPageNum).nextLeaf
  left : u.node l = (s.node l).under s.rootPageNum
  right : u.node r = (s.node r).under s.rootPageNum
  rest : ∀ q, q ≠ s.rootPageNum → q ≠ l → q ≠ r → u.node q = s.node q

/-- The root over the pages `l` and `r`. -/
def overNode (n : Node C) (l r : Nat) (key : Int) : Node C :=
  { n.initializeInternalNode with
    isRoot := true
    numKeys := 1
    slots := Function.update n.slots 0 (l, key)
    rightChild := r }

theorem rootOver_eq (hroot : Taken s s.rootPageNum) (hl : Taken s l) (hr : Taken s r) (hlr : l ≠ r)
    (hlo : l ≠ s.rootPageNum) (hro : r ≠ s.rootPageNum)
    (hmax : ∀ n, (s.put s.rootPageNum n).getNodeMaxKey d l = some key) :
    ∃ u, s.rootOver d l r = some u ∧ Rooted s u l r key := by
  refine ⟨((s.put s.rootPageNum (overNode (s.node s.rootPageNum) l r key)).put l ((s.node l).under s.rootPageNum)).put r
    ((s.node r).under s.rootPageNum), ?_, ?_⟩
  · rw [rootOver]
    dsimp only
    rw [modify_of_taken hroot, hmax]
    simp only [Option.bind_eq_bind, Option.bind_some, pure]
    rw [modify_of_taken (taken_put.mpr hroot), put_node_same, put_put_same, setParent_of_taken (taken_put.mpr hl),
      setParent_of_taken (taken_put.mpr (taken_put.mpr hr)), put_node_of_ne hlo, put_node_of_ne hlr.symm,
      put_node_of_ne hro]
    dsimp only
    rw [Function.update_self, Function.update_idem]
    rfl
  · refine ⟨rfl, fun a b hal hak ha hbr => ?_, ?_, ?_, ?_, fun q hq hql hqr => ?_⟩
    · rw [put_node_of_ne hro.symm, put_node_of_ne hlo.symm, put_node_same]
      refine ⟨rfl, rfl, fun i k hi hk => ?_, fun k hk => ?_⟩
      · obtain rfl : i = 0 := Nat.lt_one_iff.mp hi
        obtain rfl := Option.some.inj hk
        rw [overNode]
        dsimp only
        rw [Function.update_self, hal, hak]
        exact ⟨rfl, ha⟩
      · obtain rfl := Option.some.inj hk
        exact hbr.symm
    · rw [put_node_of_ne hro.symm, put_node_of_ne hlo.symm, put_node_same]
      exact ⟨rfl, rfl, rfl⟩
    · rw [put_node_of_ne hlr, put_node_same]
    · rw [put_node_same]
    · rw [put_node_of_ne hqr, put_node_of_ne hql, put_node_of_ne hq]

/-! ## Moving the root's content -/

/-- The content of the root is on page `l`, with its children there, and page `r` holds `m`. -/
structure Copied (s u : Store C) (l r : Nat) (kids : List (Part C)) (m : Node C) : Prop where
  file : u = { s with node := u.node }
  left : u.node l = { s.node s.rootPageNum with isRoot := false }
  right : u.node r = m
  tops : ∀ k ∈ kids, u.node k.page = (s.node k.page).under l
  rest : ∀ q, q ≠ l → q ≠ r → q ∉ kids.map Part.page → u.node q = s.node q

omit [Cell C] in
theorem copyRoot_leaf (htype : (s.node s.rootPageNum).nodeType = .leaf) (hl : Taken s l) (hlr : l ≠ r) :
    ∃ u, s.copyRoot l r = some u ∧ Copied s u l r [] (s.node r) := by
  refine ⟨s.put l { s.node s.rootPageNum with isRoot := false }, ?_, rfl, put_node_same, put_node_of_ne hlr.symm,
    fun k hk => absurd hk List.not_mem_nil, fun q hq _ _ => put_node_of_ne hq⟩
  have hnot : ¬ (s.node s.rootPageNum).nodeType = .internal := by
    rw [htype]
    decide
  rw [copyRoot]
  dsimp only
  rw [if_neg hnot, modify_of_taken hl, put_node_same, if_neg hnot]

theorem copyRoot_internal (hk : Links (s.node s.rootPageNum) kids) (hf : Family s h kids) (hl : Taken s l)
    (hr : Taken s r) (hlr : l ≠ r) (hlo : s.rootPageNum ≠ l) (hro : s.rootPageNum ≠ r)
    (hlk : l ∉ kids.flatMap Part.pages) (hrk : r ∉ kids.flatMap Part.pages) :
    ∃ u, s.copyRoot l r = some u ∧ Copied s u l r kids (s.node r).initializeInternalNode := by
  have hne : ∀ q ∈ kids.flatMap Part.pages, q ≠ l ∧ q ≠ r := fun q hq =>
    ⟨fun hn => hlk (hn ▸ hq), fun hn => hrk (hn ▸ hq)⟩
  have hkeep : ∀ q ∈ kids.flatMap Part.pages, ((s.put r (s.node r).initializeInternalNode).put l
      { s.node s.rootPageNum with isRoot := false }).node q = s.node q := fun q hq => by
    rw [put_node_of_ne (hne q hq).1, put_node_of_ne (hne q hq).2]
  have hf' : Family ((s.put r (s.node r).initializeInternalNode).put l { s.node s.rootPageNum with isRoot := false })
      h kids :=
    hf.congr (fun _ hq => hq) (fun k hk q hq _ => hkeep q (mem_pages hk hq)) fun k hk =>
      Alike.of_eq (hkeep _ (hf.page_mem hk))
  have hlinks : Links (((s.put r (s.node r).initializeInternalNode).put l
      { s.node s.rootPageNum with isRoot := false }).node l) kids := by
    rw [put_node_same]
    exact Alike.links ⟨_, false, rfl⟩ hk
  obtain ⟨u, hu, ha⟩ := adoptChildren_eq hlinks hf' hlk
  have hlt : l ∉ kids.map Part.page := fun hn => by
    obtain ⟨k, hk, hkl⟩ := List.mem_map.mp hn
    exact hlk (hkl ▸ hf.page_mem hk)
  have hrt : r ∉ kids.map Part.page := fun hn => by
    obtain ⟨k, hk, hkl⟩ := List.mem_map.mp hn
    exact hrk (hkl ▸ hf.page_mem hk)
  refine ⟨u, ?_, ?_, ?_, ?_, fun k hk => ?_, fun q hql hqr hq => ?_⟩
  · rw [copyRoot]
    dsimp only
    rw [if_pos hk.nodeType, modify_of_taken hr, modify_of_taken (taken_put.mpr hl),
      modify_of_taken (taken_put.mpr (taken_put.mpr hl)), put_put_same, put_node_of_ne hlo, put_node_of_ne hro,
      if_pos hlinks.nodeType]
    exact hu
  · rw [ha.file]
    rfl
  · rw [ha.rest l hlt, put_node_same]
  · rw [ha.rest r hrt, put_node_of_ne hlr.symm, put_node_same]
  · rw [ha.tops k hk, hkeep _ (hf.page_mem hk)]
  · rw [ha.rest q hq, put_node_of_ne hql, put_node_of_ne hqr]

/-! ## The new root -/

/-- The root's old content is on a new page `l`, under the root as page `r` is. -/
structure Raised (s u : Store C) (l r : Nat) (key : Int) (kids : List (Part C)) (m : Node C) (j : Nat) : Prop where
  new : ¬ Taken s l
  taken : ∀ q, Taken s q ∨ q = l → Taken u q
  allocates : Allocates u j
  root : u.rootPageNum = s.rootPageNum
  links : ∀ a b : Part C, a.page = l → a.maxKey = key → a.rows ≠ [] → b.page = r → Links (u.node s.rootPageNum) [a, b]
  head : (u.node s.rootPageNum).isRoot = true ∧ (u.node s.rootPageNum).numKeys = 1 ∧
    (u.node s.rootPageNum).nextLeaf = (s.node s.rootPageNum).nextLeaf
  left : u.node l = { s.node s.rootPageNum with isRoot := false, parent := s.rootPageNum }
  right : u.node r = m.under s.rootPageNum
  tops : ∀ k ∈ kids, u.node k.page = (s.node k.page).under l
  rest : ∀ q, Taken s q → q ≠ s.rootPageNum → q ≠ r → q ∉ kids.map Part.page → u.node q = s.node q

/-- Both parts together, on the page that was handed out. -/
theorem Copied.raised {s₁ u : Store C} {m : Node C} (hfresh : Fresh s l s₁ j)
    (hget : s.getUnusedPageNum = (l, s₁)) (hr : Taken s r) (hroot : Taken s s.rootPageNum) (hro : r ≠ s.rootPageNum)
    (hcopy : (s₁.getPage l).copyRoot l r = some u) (hu : Copied (s₁.getPage l) u l r kids m)
    (hrk : s.rootPageNum ∉ kids.map Part.page) (hlk : l ∉ kids.map Part.page) (hrk' : r ∉ kids.map Part.page)
    (htk : ∀ k ∈ kids, Taken s k.page) (hmax : ∀ n, (u.put s.rootPageNum n).getNodeMaxKey d l = some key) :
    ∃ v, s.createNewRoot d r = some v ∧ Raised s v l r key kids m j := by
  have hlr : l ≠ r := fun hn => hfresh.new (hn ▸ hr)
  have hlo : l ≠ s.rootPageNum := fun hn => hfresh.new (hn ▸ hroot)
  have hkeep : ∀ q, Taken s q → (s₁.getPage l).node q = s.node q := fun q hq =>
    hfresh.node q fun hn => hfresh.new (hn ▸ hq)
  have hur : u.rootPageNum = s.rootPageNum := by
    rw [hu.file]
    exact hfresh.root
  have htaken : ∀ q, Taken (s₁.getPage l) q → Taken u q := fun q hq => taken_of_file hu.file hq
  have hroot₁ := hfresh.root
  obtain ⟨v, hv, hover⟩ := rootOver_eq (d := d) (hur ▸ htaken _ (hfresh.keeps _ hroot)) (htaken _ hfresh.taken)
    (htaken _ (hfresh.keeps _ hr)) hlr (hur ▸ hlo) (hur ▸ hro) (hur ▸ hmax)
  have hrest : ∀ q, Taken s q → q ≠ r → q ∉ kids.map Part.page → u.node q = s.node q := fun q hq hqr hqk => by
    rw [hu.rest q (fun hn => hfresh.new (hn ▸ hq)) hqr hqk, hkeep q hq]
  refine ⟨v, ?_, hfresh.new, fun q hq => taken_of_file hover.file (htaken q ?_), ?_, ?_, ?_, ?_, ?_, ?_, fun k hk => ?_,
    fun q hq hqo hqr hqk => ?_⟩
  · rw [createNewRoot, getPage_of_taken hr, hget]
    dsimp only
    simp only [Option.bind_eq_bind]
    rw [hcopy]
    exact hv
  · rcases hq with hq | rfl
    · exact hfresh.keeps q hq
    · exact hfresh.taken
  · exact allocates_of_file hover.file (allocates_of_file hu.file hfresh.allocates)
  · rw [hover.file]
    exact hur
  · rw [← hur]
    exact hover.links
  · have hhead := hover.head
    rw [hur, hrest _ hroot hro.symm hrk] at hhead
    exact hhead
  · rw [hover.left, hu.left, hur, getPage_root, hroot₁, hkeep _ hroot]
    rfl
  · rw [hover.right, hu.right, hur]
  · have hne : ∀ q, q ∉ kids.map Part.page → k.page ≠ q := fun q hq hn => hq (hn ▸ List.mem_map_of_mem hk)
    rw [hover.rest _ (hur ▸ hne _ hrk) (hne _ hlk) (hne _ hrk'), hu.tops k hk, hkeep _ (htk k hk)]
  · rw [hover.rest q (hur ▸ hqo) (fun hn => hfresh.new (hn ▸ hq)) hqr, hrest q hq hqr hqk]

omit [Cell C] in
theorem getPage_getPage : (s.getPage p).getPage p = s.getPage p := by
  unfold Store.getPage
  dsimp only
  rw [max_assoc, max_self]

theorem createNewRoot_getPage : (s.getPage r).createNewRoot d r = s.createNewRoot d r := by
  rw [createNewRoot, createNewRoot, getPage_getPage]

/-- The root was a leaf. -/
theorem createNewRoot_leaf (htype : (s.node s.rootPageNum).nodeType = .leaf) (ht : Taken s s.rootPageNum)
    (hr : Taken s r) (hro : r ≠ s.rootPageNum) (ha : Allocates s (j + 1)) (hd : 0 < d) :
    ∃ l v, s.createNewRoot d r = some v ∧
      Raised s v l r (Node.lastKey (s.node s.rootPageNum).cells) [] (s.node r) j := by
  have hfresh := getUnusedPageNum_fresh ha
  have hlr : s.getUnusedPageNum.1 ≠ r := fun hn => hfresh.new (hn ▸ hr)
  have hlo : s.getUnusedPageNum.1 ≠ s.rootPageNum := fun hn => hfresh.new (hn ▸ ht)
  have hkeep : ∀ q, Taken s q → (s.getUnusedPageNum.2.getPage s.getUnusedPageNum.1).node q = s.node q := fun q hq =>
    hfresh.node q fun hn => hfresh.new (hn ▸ hq)
  have hroot : (s.getUnusedPageNum.2.getPage s.getUnusedPageNum.1).rootPageNum = s.rootPageNum := hfresh.root
  obtain ⟨u, hu, hcopied⟩ := copyRoot_leaf (by rw [hroot, hkeep _ ht]; exact htype) hfresh.taken hlr
  have hleft := hcopied.left
  rw [hroot, hkeep _ ht] at hleft
  rw [hkeep _ hr] at hcopied
  obtain ⟨d, rfl⟩ := Nat.exists_eq_succ_of_ne_zero (Nat.ne_of_gt hd)
  refine ⟨_, hcopied.raised hfresh rfl hr ht hro hu List.not_mem_nil List.not_mem_nil List.not_mem_nil
    (fun k hk => absurd hk List.not_mem_nil) fun n => ?_⟩
  rw [Store.getNodeMaxKey, put_node_of_ne hlo, hleft]
  dsimp only
  rw [htype]

/-- The root was an inner node. -/
theorem createNewRoot_internal (hk : Links (s.node s.rootPageNum) kids) (hf : Family s h kids)
    (ht : Taken s s.rootPageNum) (hok : s.rootPageNum ∉ kids.flatMap Part.pages) (hlast : kids.getLast? = some k)
    (hend : k.Ends) (hr : Taken s r) (hro : r ≠ s.rootPageNum) (hrk : r ∉ kids.flatMap Part.pages)
    (ha : Allocates s (j + 1)) (hd : h + 1 < d) :
    ∃ l v, s.createNewRoot d r = some v ∧ Raised s v l r k.maxKey kids (s.node r).initializeInternalNode j := by
  have hfresh := getUnusedPageNum_fresh ha
  have hlr : s.getUnusedPageNum.1 ≠ r := fun hn => hfresh.new (hn ▸ hr)
  have hlo : s.getUnusedPageNum.1 ≠ s.rootPageNum := fun hn => hfresh.new (hn ▸ ht)
  have hlk : s.getUnusedPageNum.1 ∉ kids.flatMap Part.pages := fun hn => hfresh.new (hf.taken _ hn)
  have hkeep : ∀ q, Taken s q → (s.getUnusedPageNum.2.getPage s.getUnusedPageNum.1).node q = s.node q := fun q hq =>
    hfresh.node q fun hn => hfresh.new (hn ▸ hq)
  have hroot : (s.getUnusedPageNum.2.getPage s.getUnusedPageNum.1).rootPageNum = s.rootPageNum := hfresh.root
  have hf₁ : Family (s.getUnusedPageNum.2.getPage s.getUnusedPageNum.1) h kids :=
    hf.congr hfresh.keeps (fun k hk q hq _ => hkeep q (hf.taken _ (mem_pages hk hq))) fun k hk =>
      Alike.of_eq (hkeep _ (hf.taken _ (hf.page_mem hk)))
  obtain ⟨u, hu, hcopied⟩ := copyRoot_internal (by rw [hroot, hkeep _ ht]; exact hk) hf₁ hfresh.taken
    (hfresh.keeps _ hr) hlr (by rw [hroot]; exact hlo.symm) (by rw [hroot]; exact hro.symm) hlk hrk
  have hleft := hcopied.left
  rw [hroot, hkeep _ ht] at hleft
  rw [hkeep _ hr] at hcopied
  have htop : ∀ q, q ∉ kids.flatMap Part.pages → q ∉ kids.map Part.page := fun q hq hn => by
    obtain ⟨k, hk, hkq⟩ := List.mem_map.mp hn
    exact hq (hkq ▸ hf.page_mem hk)
  refine ⟨_, hcopied.raised hfresh rfl hr ht hro hu (htop _ hok) (htop _ hlk) (htop _ hrk)
    (fun k hk => hf.taken _ (hf.page_mem hk)) fun n => ?_⟩
  have hlinks : Links ((u.put s.rootPageNum n).node s.getUnusedPageNum.1) kids := by
    rw [put_node_of_ne hlo, hleft]
    exact Alike.links ⟨_, false, rfl⟩ hk
  have hfile : u.put s.rootPageNum n =
      { s.getUnusedPageNum.2.getPage s.getUnusedPageNum.1 with node := (u.put s.rootPageNum n).node } := by
    rw [hcopied.file]
    rfl
  have hne : ∀ q ∈ kids.flatMap Part.pages, q ≠ s.rootPageNum ∧ q ≠ s.getUnusedPageNum.1 ∧ q ≠ r := fun q hq =>
    ⟨fun hn => hok (hn ▸ hq), fun hn => hlk (hn ▸ hq), fun hn => hrk (hn ▸ hq)⟩
  have hfu : Family (u.put s.rootPageNum n) h kids := by
    refine hf₁.of_tops (fun q hq => taken_of_file hfile hq) (fun q hq hqk => ?_) fun k hk => ?_
    · obtain ⟨hqo, hql, hqr⟩ := hne q hq
      rw [put_node_of_ne hqo, hcopied.rest q hql hqr hqk]
    · rw [put_node_of_ne (hne _ (hf.page_mem hk)).1, hcopied.tops k hk]
      exact alike_under ..
  exact hlinks.maxKey hfu hlast hend hd (allocates_of_file hfile hfresh.allocates)

end Tree

end CustomDB
