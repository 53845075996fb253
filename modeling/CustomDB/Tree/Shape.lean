import CustomDB.Tree.Insert
import CustomDB.Lib.Linked

/-!
# What a tree is

A subtree is known by its pages and by its leaves in order. `Sub` reads one off the store, level by level;
`WellFormed` is the tree of a table. Under the parent pointer and the root flag of its top page a subtree depends
on its own pages only.
-/

namespace CustomDB

open Lib

namespace Tree

variable {C : Type} [Cell C]

/-- A subtree: its top page, all its pages, and its leaves in order with their cells. -/
structure Part (C : Type) where
  page : Nat
  pages : List Nat
  leaves : List (Nat × List C)

namespace Part

omit [Cell C] in
def rows (t : Part C) : List C := t.leaves.flatMap Prod.snd

/-- The cells of the last leaf. -/
def lastCells (t : Part C) : List C := (t.leaves.getLast?.map Prod.snd).getD []

/-- The last leaf is not empty. -/
def Ends (t : Part C) : Prop := t.lastCells ≠ []

def maxKey (t : Part C) : Int := Node.lastKey t.rows

def leaf (p : Nat) (cells : List C) : Part C := ⟨p, [p], [(p, cells)]⟩

def join (p : Nat) (kids : List (Part C)) : Part C := ⟨p, p :: kids.flatMap pages, kids.flatMap leaves⟩

end Part

/-- An inner node has the children `kids`; each separator is the largest key of the child to its left. -/
structure Links (n : Node C) (kids : List (Part C)) : Prop where
  nodeType : n.nodeType = .internal
  count : kids.length = n.numKeys + 1
  slot : ∀ (i : Nat) (k : Part C), i < n.numKeys → kids[i]? = some k → n.slots i = (k.page, k.maxKey) ∧ k.rows ≠ []
  last : ∀ k : Part C, kids[n.numKeys]? = some k → n.rightChild = k.page

/-- `t` is a subtree of height `h`. -/
def Sub (s : Store C) : Nat → Part C → Prop
  | 0, t => (s.node t.page).nodeType = .leaf ∧ t = Part.leaf t.page (s.node t.page).cells
  | h + 1, t => ∃ kids, Links (s.node t.page) kids ∧ (s.node t.page).numKeys ≤ internalNodeMaxKeys ∧
      t = Part.join t.page kids ∧
      ∀ k ∈ kids, Sub s h k ∧ (s.node k.page).parent = t.page ∧ (s.node k.page).isRoot = false

/-- `k` is a subtree under page `p`. -/
def Child (s : Store C) (h p : Nat) (k : Part C) : Prop :=
  Sub s h k ∧ (s.node k.page).parent = p ∧ (s.node k.page).isRoot = false

/-- Rows in strictly ascending order of their keys. -/
def Sorted (rows : List C) : Prop := rows.Pairwise fun a b => Cell.key a < Cell.key b

/-- The leaves are linked in order, and the last one ends the chain. -/
def Chained (s : Store C) (pages : List Nat) : Prop :=
  ∃ a, Linked.Chain (fun p => (s.node p).nextLeaf) (fun p => p = 0) a pages

/-- The tree of the table, of height `h`. -/
structure WellFormed (s : Store C) (h : Nat) (t : Part C) : Prop where
  sub : Sub s h t
  root : t.page = s.rootPageNum
  isRoot : (s.node t.page).isRoot = true
  sorted : Sorted t.rows
  chained : Chained s (t.leaves.map Prod.fst)
  nodup : t.pages.Nodup

/-- Page `p` has been handed out. -/
def Taken (s : Store C) (p : Nat) : Prop := p ≠ 0 ∧ p < s.numPages ∧ p ∉ s.freelist

/-- The allocator: it can hand out `n` pages more before the page numbers run out. -/
structure Allocates (s : Store C) (n : Nat) : Prop where
  nodup : s.freelist.Nodup
  free : ∀ p ∈ s.freelist, p ≠ 0 ∧ p < s.numPages
  reserved : 0 < s.reservedCatalogPages
  room : max s.numPages s.reservedCatalogPages + n ≤ invalidPageNum

/-! ## Keys of subtrees -/

omit [Cell C] in
@[simp] theorem page_join (p : Nat) (kids : List (Part C)) : (Part.join p kids).page = p := rfl

omit [Cell C] in
theorem rows_join (p : Nat) (kids : List (Part C)) : (Part.join p kids).rows = kids.flatMap Part.rows :=
  List.flatMap_assoc

omit [Cell C] in
@[simp] theorem rows_leaf (p : Nat) (cells : List C) : (Part.leaf p cells).rows = cells := List.flatMap_singleton ..

theorem lastKey_append (a : List C) {b : List C} (hb : b ≠ []) : Node.lastKey (a ++ b) = Node.lastKey b := by
  unfold Node.lastKey
  rw [List.getLast?_append]
  cases hl : b.getLast? with
  | none => exact absurd (List.getLast?_eq_none_iff.mp hl) hb
  | some x => rfl

/-- The last key is the key of a row. -/
theorem lastKey_mem {rows : List C} (h : rows ≠ []) : ∃ c ∈ rows, Node.lastKey rows = Cell.key c := by
  refine ⟨rows.getLast h, List.getLast_mem h, ?_⟩
  rw [Node.lastKey, List.getLast?_eq_getLast_of_ne_nil h]
  rfl

theorem Sorted.le_lastKey {rows : List C} (h : Sorted rows) {c : C} (hc : c ∈ rows) :
    Cell.key c ≤ Node.lastKey rows := by
  have hne := List.ne_nil_of_mem hc
  have hsplit : rows = rows.dropLast ++ [rows.getLast hne] := (List.dropLast_append_getLast hne).symm
  have hlast : Node.lastKey rows = Cell.key (rows.getLast hne) := by
    rw [Node.lastKey, List.getLast?_eq_getLast_of_ne_nil hne]
    rfl
  rw [hlast]
  rw [hsplit] at hc
  rcases List.mem_append.mp hc with hc | hc
  · have hs : Sorted (rows.dropLast ++ [rows.getLast hne]) := hsplit ▸ h
    exact le_of_lt ((List.pairwise_append.mp hs).2.2 c hc _ (List.mem_singleton_self _))
  · rw [List.mem_singleton.mp hc]

theorem Part.Ends.rows_ne {t : Part C} (h : t.Ends) : t.rows ≠ [] ∧ Node.lastKey t.lastCells = t.maxKey := by
  unfold Part.Ends Part.lastCells at h
  unfold Part.lastCells Part.maxKey Part.rows
  cases hl : t.leaves.getLast? with
  | none =>
    rw [hl] at h
    exact absurd rfl h
  | some x =>
    rw [hl] at h
    obtain ⟨l, hlv⟩ := List.getLast?_eq_some_iff.mp hl
    rw [hlv, List.flatMap_append, List.flatMap_singleton]
    have hx : x.2 ≠ [] := h
    exact ⟨List.append_ne_nil_of_right_ne_nil _ hx, (lastKey_append _ hx).symm⟩

omit [Cell C] in
theorem lastCells_join {p : Nat} {kids : List (Part C)} {k : Part C} (hk : kids.getLast? = some k)
    (hne : k.leaves ≠ []) : (Part.join p kids).lastCells = k.lastCells := by
  obtain ⟨l, rfl⟩ := List.getLast?_eq_some_iff.mp hk
  unfold Part.lastCells Part.join
  dsimp only
  rw [List.flatMap_append, List.flatMap_singleton, List.getLast?_append]
  cases hl : k.leaves.getLast? with
  | none => exact absurd (List.getLast?_eq_none_iff.mp hl) hne
  | some x => rfl

/-! ## Reading a subtree -/

variable {s s' : Store C} {h p : Nat} {t k : Part C} {kids : List (Part C)} {n : Node C}

theorem Links.getLast (hl : Links n kids) : ∃ k, kids.getLast? = some k ∧ n.rightChild = k.page ∧ k ∈ kids := by
  have hlt : n.numKeys < kids.length := by rw [hl.count]; omega
  have hget : kids[n.numKeys]? = some kids[n.numKeys] := List.getElem?_eq_getElem hlt
  refine ⟨kids[n.numKeys], ?_, hl.last _ hget, List.getElem_mem hlt⟩
  rw [List.getLast?_eq_getElem?, hl.count]
  exact hget

theorem Sub.leaves_ne (hs : Sub s h t) : t.leaves ≠ [] := by
  induction h generalizing t with
  | zero =>
    rw [hs.2]
    exact List.cons_ne_nil _ _
  | succ h ih =>
    obtain ⟨kids, hl, -, ht, hk⟩ := hs
    obtain ⟨k, -, -, hmem⟩ := hl.getLast
    have hne := ih (hk k hmem).1
    rw [ht]
    intro hn
    exact hne (List.flatMap_eq_nil_iff.mp hn k hmem)

theorem Sub.page_mem (hs : Sub s h t) : t.page ∈ t.pages := by
  cases h with
  | zero =>
    rw [hs.2]
    exact List.mem_singleton_self _
  | succ h =>
    obtain ⟨kids, -, -, ht, -⟩ := hs
    rw [ht]
    exact List.mem_cons_self ..

theorem Sub.leaf_pages (hs : Sub s h t) : ∀ q ∈ t.leaves.map Prod.fst, q ∈ t.pages := by
  induction h generalizing t with
  | zero =>
    rw [hs.2]
    exact fun q hq => hq
  | succ h ih =>
    obtain ⟨kids, -, -, ht, hk⟩ := hs
    rw [ht]
    intro q hq
    obtain ⟨x, hx, rfl⟩ := List.mem_map.mp hq
    obtain ⟨k, hmem, hx⟩ := List.mem_flatMap.mp hx
    exact List.mem_cons_of_mem _ (List.mem_flatMap.mpr ⟨k, hmem, ih (hk k hmem).1 _ (List.mem_map.mpr ⟨x, hx, rfl⟩)⟩)

/-- `get_node_max_key` reads the last leaf. -/
theorem Sub.getNodeMaxKey (hs : Sub s h t) (hp : ∀ q ∈ t.pages, q ≠ 0 ∧ q ≠ invalidPageNum) {depth : Nat}
    (hd : h < depth) : s.getNodeMaxKey depth t.page = some (Node.lastKey t.lastCells) := by
  induction h generalizing t depth with
  | zero =>
    obtain ⟨depth, rfl⟩ := Nat.exists_eq_succ_of_ne_zero (Nat.ne_of_gt hd)
    rw [Store.getNodeMaxKey, hs.1]
    have hc : t.lastCells = (s.node t.page).cells := by
      rw [hs.2]
      rfl
    rw [hc]
  | succ h ih =>
    obtain ⟨depth, rfl⟩ := Nat.exists_eq_succ_of_ne_zero (Nat.ne_of_gt (lt_of_le_of_lt (Nat.zero_le _) hd))
    obtain ⟨kids, hl, -, ht, hk⟩ := hs
    obtain ⟨k, hlast, hrc, hmem⟩ := hl.getLast
    have hkp : ∀ q ∈ k.pages, q ≠ 0 ∧ q ≠ invalidPageNum := fun q hq => hp q (by
      rw [ht]
      exact List.mem_cons_of_mem _ (List.mem_flatMap.mpr ⟨k, hmem, hq⟩))
    have hsub := (hk k hmem).1
    have hvalid := hkp _ hsub.page_mem
    rw [Store.getNodeMaxKey, hl.nodeType]
    dsimp only
    rw [hrc, if_neg (by omega), ih hsub hkp (by omega)]
    rw [ht, lastCells_join hlast hsub.leaves_ne]

theorem Sub.getNodeMaxKey_ends (hs : Sub s h t) (hp : ∀ q ∈ t.pages, q ≠ 0 ∧ q ≠ invalidPageNum) {depth : Nat}
    (hd : h < depth) (he : t.Ends) : s.getNodeMaxKey depth t.page = some t.maxKey := by
  rw [hs.getNodeMaxKey hp hd, he.rows_ne.2]

/-! ## Frames -/

/-- Two pages that differ in the parent pointer and the root flag at most. -/
def Alike (n n' : Node C) : Prop := ∃ q b, n' = { n with parent := q, isRoot := b }

omit [Cell C] in
theorem Alike.refl (n : Node C) : Alike n n := ⟨n.parent, n.isRoot, rfl⟩

omit [Cell C] in
theorem Alike.of_eq {n' : Node C} (h : n' = n) : Alike n n' := h ▸ Alike.refl n

theorem Alike.links {n' : Node C} (h : Alike n n') (hl : Links n kids) : Links n' kids := by
  obtain ⟨q, b, rfl⟩ := h
  exact ⟨hl.nodeType, hl.count, hl.slot, hl.last⟩

/-- A subtree reads its own pages only. -/
theorem Sub.frame (hs : Sub s h t) (hnd : t.pages.Nodup) (hin : ∀ q ∈ t.pages, q ≠ t.page → s'.node q = s.node q)
    (htop : Alike (s.node t.page) (s'.node t.page)) : Sub s' h t := by
  induction h generalizing t with
  | zero =>
    obtain ⟨q, b, he⟩ := htop
    refine ⟨?_, ?_⟩
    · rw [he]
      exact hs.1
    · rw [he]
      exact hs.2
  | succ h ih =>
    obtain ⟨kids, hl, hle, ht, hk⟩ := hs
    refine ⟨kids, htop.links hl, ?_, ht, fun k hmem => ?_⟩
    · obtain ⟨q, b, he⟩ := htop
      rw [he]
      exact hle
    · obtain ⟨hsub, hpar, hroot⟩ := hk k hmem
      rw [ht] at hnd
      obtain ⟨hnot, hnd⟩ := List.nodup_cons.mp hnd
      have hmemp : ∀ q ∈ k.pages, q ∈ kids.flatMap Part.pages := fun q hq => List.mem_flatMap.mpr ⟨k, hmem, hq⟩
      have hsame : ∀ q ∈ k.pages, s'.node q = s.node q := fun q hq => hin q (by
        rw [ht]
        exact List.mem_cons_of_mem _ (hmemp q hq)) fun hn => hnot (hn ▸ hmemp q hq)
      rw [hsame _ hsub.page_mem]
      exact ⟨ih hsub ((List.nodup_flatMap.mp hnd).1 k hmem) (fun q hq _ => hsame q hq)
        (Alike.of_eq (hsame _ hsub.page_mem)), hpar, hroot⟩

theorem Sub.congr (hs : Sub s h t) (hnd : t.pages.Nodup) (hin : ∀ q ∈ t.pages, s'.node q = s.node q) : Sub s' h t :=
  hs.frame hnd (fun q hq _ => hin q hq) (Alike.of_eq (hin _ hs.page_mem))

theorem Child.congr (hc : Child s h p k) (hnd : k.pages.Nodup) (hin : ∀ q ∈ k.pages, s'.node q = s.node q) :
    Child s' h p k := by
  refine ⟨hc.1.congr hnd hin, ?_, ?_⟩ <;> rw [hin _ hc.1.page_mem]
  · exact hc.2.1
  · exact hc.2.2

/-! ## Separators -/

/-- The first separator that is not below `key`. -/
theorem Links.findChild {k₁ k₂ : List (Part C)} (hl : Links n (k₁ ++ k₂)) (hne : k₂ ≠ []) {key : Int}
    (hlt : ∀ k ∈ k₁, k.maxKey < key) (hge : ∀ k ∈ k₂.dropLast, key ≤ k.maxKey) :
    n.internalNodeFindChild key = k₁.length := by
  have hcount := hl.count
  have hpos := List.length_pos_iff.mpr hne
  rw [List.length_append] at hcount
  refine Bisect.lowerBound_eq (by omega) (Nat.zero_le _) (by omega) (fun i _ hi => ?_) (fun i hi hlt' => ?_)
  · have hget : (k₁ ++ k₂)[i]? = some k₁[i] := by
      rw [List.getElem?_append_left hi]
      exact List.getElem?_eq_getElem hi
    rw [(hl.slot i _ (by omega) hget).1]
    exact decide_eq_true (hlt _ (List.getElem_mem hi))
  · have hj : i - k₁.length < k₂.dropLast.length := by
      rw [List.length_dropLast]
      omega
    have hget : (k₁ ++ k₂)[i]? = some k₂.dropLast[i - k₁.length] := by
      rw [List.getElem?_append_right hi, List.getElem_dropLast]
      exact List.getElem?_eq_getElem _
    rw [(hl.slot i _ hlt' hget).1]
    exact decide_eq_false (not_lt.mpr (hge _ (List.getElem_mem hj)))

/-- A child is replaced by another one on the same page. -/
theorem Links.swap {k₁ k₂ : List (Part C)} {t' : Part C} {n' : Node C} (hl : Links n (k₁ ++ t :: k₂))
    (htype : n'.nodeType = n.nodeType) (hnum : n'.numKeys = n.numKeys) (hright : n'.rightChild = n.rightChild)
    (hpage : t'.page = t.page) (hslot : ∀ i, i ≠ k₁.length → n'.slots i = n.slots i)
    (hat : k₂ ≠ [] → n'.slots k₁.length = (t'.page, t'.maxKey) ∧ t'.rows ≠ []) : Links n' (k₁ ++ t' :: k₂) := by
  have hcount : k₁.length + (k₂.length + 1) = n.numKeys + 1 := by
    have := hl.count
    rwa [List.length_append, List.length_cons] at this
  have hother : ∀ i, i ≠ k₁.length → (k₁ ++ t' :: k₂)[i]? = (k₁ ++ t :: k₂)[i]? := by
    intro i hi
    rcases Nat.lt_or_ge i k₁.length with hlt | hge
    · rw [List.getElem?_append_left hlt, List.getElem?_append_left hlt]
    · rw [List.getElem?_append_right hge, List.getElem?_append_right hge]
      obtain ⟨m, hm⟩ := Nat.exists_eq_succ_of_ne_zero (show i - k₁.length ≠ 0 by omega)
      rw [hm, List.getElem?_cons_succ, List.getElem?_cons_succ]
  have hhole : ∀ u : Part C, (k₁ ++ u :: k₂)[k₁.length]? = some u := by
    intro u
    rw [List.getElem?_append_right (le_refl _), Nat.sub_self]
    rfl
  refine ⟨htype.trans hl.nodeType, ?_, fun i k hi hk => ?_, fun k hk => ?_⟩
  · rw [List.length_append, List.length_cons, hnum]
    exact hcount
  · rw [hnum] at hi
    by_cases hik : i = k₁.length
    · subst hik
      obtain rfl := Option.some.inj ((hhole t').symm.trans hk)
      refine hat fun hn => ?_
      rw [hn, List.length_nil] at hcount
      omega
    · rw [hslot i hik]
      exact hl.slot i k hi ((hother i hik).symm.trans hk)
  · rw [hnum] at hk
    rw [hright]
    by_cases hik : n.numKeys = k₁.length
    · rw [hik] at hk
      obtain rfl := Option.some.inj ((hhole t').symm.trans hk)
      rw [hpage]
      exact hl.last t (by rw [hik]; exact hhole t)
    · exact hl.last k ((hother _ hik).symm.trans hk)

/-- The slot before the last child holds the page and the key of its child. -/
theorem Links.slot_at {k₁ k₂ : List (Part C)} (hl : Links n (k₁ ++ t :: k₂)) (hne : k₂ ≠ []) :
    n.slots k₁.length = (t.page, t.maxKey) ∧ t.rows ≠ [] := by
  have hcount := hl.count
  have hpos := List.length_pos_iff.mpr hne
  rw [List.length_append, List.length_cons] at hcount
  refine hl.slot _ t (by omega) ?_
  rw [List.getElem?_append_right (le_refl _), Nat.sub_self]
  rfl

/-- Only the key of the child at `k₁.length` changes, if it has one. -/
theorem Links.updateKey {k₁ k₂ : List (Part C)} {t' : Part C} (hl : Links n (k₁ ++ t :: k₂)) {oldKey newKey : Int}
    (hfind : n.internalNodeFindChild oldKey = k₁.length) (hpage : t'.page = t.page)
    (hnew : k₂ ≠ [] → t'.rows ≠ [] ∧ t'.maxKey = newKey) :
    Links (n.updateInternalNodeKey oldKey newKey) (k₁ ++ t' :: k₂) := by
  unfold Node.updateInternalNodeKey
  rw [hfind]
  refine hl.swap rfl rfl rfl hpage (fun i hi => Function.update_of_ne hi _ _) fun hne => ?_
  obtain ⟨hrows, hkey⟩ := hnew hne
  dsimp only
  rw [Function.update_self, (hl.slot_at hne).1, hpage, hkey]
  exact ⟨rfl, hrows⟩

/-- The child on page `t.page` may be another one with the same largest key. -/
theorem Links.replace {k₁ k₂ : List (Part C)} {t' : Part C} (hl : Links n (k₁ ++ t :: k₂)) (hpage : t'.page = t.page)
    (hkey : k₂ ≠ [] → t'.rows ≠ [] ∧ t'.maxKey = t.maxKey) : Links n (k₁ ++ t' :: k₂) := by
  refine hl.swap rfl rfl rfl hpage (fun _ _ => rfl) fun hne => ?_
  rw [(hl.slot_at hne).1, hpage, (hkey hne).2]
  exact ⟨rfl, (hkey hne).1⟩

end Tree

end CustomDB
