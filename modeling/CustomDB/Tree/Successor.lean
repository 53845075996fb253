import CustomDB.Tree.Delete
import CustomDB.Tree.Search

/-!
# The cursor behind a deletion

`btree_delete` moves its cursor to the row behind the deleted one first, and then looks for an underflow on the page
the cursor has come to. Here is when the cursor is still on that row afterwards.
-/

namespace CustomDB

open Lib

namespace Tree

variable {C : Type} [Cell C]

namespace Store

/-- `q` is a page of the tree. -/
inductive Reaches (s : Store C) : Nat → Prop
  | root : Reaches s s.rootPageNum
  | child {p q i : Nat} (hp : Reaches s p) (htype : (s.node p).nodeType = .internal)
      (hc : (s.node p).internalNodeChild i = some q) : Reaches s q

/-- The cursor is on the first of the rows `post` in the tree, or at the end if there is none. -/
def OnSuccessor (s : Store C) (cur : Cursor) : List C → Prop
  | [] => cur.endOfTable = true
  | y :: _ => cur.endOfTable = false ∧ Reaches s cur.pageNum ∧ (s.node cur.pageNum).nodeType = .leaf ∧
      (s.node cur.pageNum).cells[cur.cellNum]? = some y

/-! ## Where the underflow is looked for -/

/-- The page the cursor comes to. -/
def movedTo (s : Store C) (cur : Cursor) : Nat :=
  if cur.cellNum + 1 < (s.node cur.pageNum).cells.length ∨ (s.node cur.pageNum).nextLeaf = 0 then cur.pageNum
  else (s.node cur.pageNum).nextLeaf

/-- The cells page `q` has without the deleted one. -/
def cellsLeft (s : Store C) (cur : Cursor) (q : Nat) : Nat :=
  if q = cur.pageNum then (s.node q).cells.length - 1 else (s.node q).cells.length

/-- The index of `q` among the children of its parent. -/
def childIndex (s : Store C) (q : Nat) : Option Nat := (s.node (s.node q).parent).findChildIndex q

/-- The sibling an underflow of `q` is settled with: the one to the left, else the one to the right. -/
def neighbour (s : Store C) (q : Nat) : Option Nat :=
  let parent := s.node (s.node q).parent
  (s.childIndex q).bind fun i =>
    if 0 < i then parent.internalNodeChild (i - 1)
    else if i < parent.numKeys then parent.internalNodeChild (i + 1)
    else none

/-- The inner node can lose a child without being merged: it is the root, or it has keys to spare, or the sibling it
turns to has. -/
def CanLose (s : Store C) (p : Nat) : Prop :=
  (s.node p).isRoot = true ∨ internalNodeMinKeys < (s.node p).numKeys ∨
    ∀ n, s.neighbour p = some n → internalNodeMinKeys < (s.node n).numKeys

/-- Page `q` has cells enough, or its sibling lends it one, or the parent can lose one of the two. -/
def Settles (s : Store C) (cur : Cursor) (q : Nat) : Prop :=
  (s.node q).isRoot = true ∨ leafNodeMinCells ≤ s.cellsLeft cur q ∨
    ∀ n, s.neighbour q = some n → leafNodeMinCells < s.cellsLeft cur n ∨ s.CanLose (s.node q).parent

/-- The first cell of page `q` stays the first, and the page stays in the tree: it has cells enough, or it is a first
child that gets its sibling's first cell, or all of them without being the last child of the root. -/
def StaysFirst (s : Store C) (cur : Cursor) (q : Nat) : Prop :=
  (s.node q).isRoot = true ∨ leafNodeMinCells ≤ s.cellsLeft cur q ∨
    s.childIndex q = some 0 ∧ ∀ n, s.neighbour q = some n → leafNodeMinCells < s.cellsLeft cur n ∨
      s.CanLose (s.node q).parent ∧ ¬ ((s.node (s.node q).parent).isRoot = true ∧ (s.node (s.node q).parent).numKeys = 1)

/-- An inner node of the tree that is not the root has two keys at least. -/
def Occupied (s : Store C) : Prop :=
  ∀ q, s.Reaches q → (s.node q).nodeType = .internal → (s.node q).isRoot = false → 2 ≤ (s.node q).numKeys

/-- What keeps the cursor on the rows `post` behind the deleted one. -/
def KeepsSuccessor (s : Store C) (cur : Cursor) : List C → Prop
  | [] => s.Settles cur (s.movedTo cur)
  | _ :: _ => (cur.cellNum + 1 < (s.node cur.pageNum).cells.length ∨ (s.node (s.node cur.pageNum).nextLeaf).cells ≠ []) ∧
      s.StaysFirst cur (s.movedTo cur)

end Store

/-! ## Nodes with the same children -/

/-- The children are the same. -/
structure SameKids (n n' : Node C) : Prop where
  nodeType : n'.nodeType = n.nodeType
  numKeys : n'.numKeys = n.numKeys
  rightChild : n'.rightChild = n.rightChild
  slots : ∀ i, (n'.slots i).1 = (n.slots i).1

/-- The place in the tree is the same, too. -/
structure SamePlace (n n' : Node C) : Prop extends SameKids n n' where
  isRoot : n'.isRoot = n.isRoot
  parent : n'.parent = n.parent

variable {n n' m : Node C} {s s' u : Store C} {h p q i : Nat} {t k : Part C} {f : Frame C} {fs : List (Frame C)}
  {k₁ k₂ : List (Part C)}

omit [Cell C] in
theorem SameKids.refl (n : Node C) : SameKids n n := ⟨rfl, rfl, rfl, fun _ => rfl⟩

omit [Cell C] in
theorem SamePlace.refl (n : Node C) : SamePlace n n := ⟨.refl n, rfl, rfl⟩

omit [Cell C] in
theorem SameKids.trans (h : SameKids n n') (h' : SameKids n' m) : SameKids n m :=
  ⟨h'.nodeType.trans h.nodeType, h'.numKeys.trans h.numKeys, h'.rightChild.trans h.rightChild,
    fun i => (h'.slots i).trans (h.slots i)⟩

omit [Cell C] in
theorem SamePlace.trans (h : SamePlace n n') (h' : SamePlace n' m) : SamePlace n m :=
  ⟨h.toSameKids.trans h'.toSameKids, h'.isRoot.trans h.isRoot, h'.parent.trans h.parent⟩

omit [Cell C] in
theorem SameKids.child (h : SameKids n n') (i : Nat) : n'.internalNodeChild i = n.internalNodeChild i := by
  unfold Node.internalNodeChild
  rw [h.numKeys, h.rightChild, h.slots]

omit [Cell C] in
theorem SameKids.findChild (h : SameKids n n') (p : Nat) : n'.findChildIndex p = n.findChildIndex p := by
  unfold Node.findChildIndex
  simp only [h.numKeys, h.child]

omit [Cell C] in
/-- A key that is set is no child. -/
theorem sameKids_setKey (n : Node C) (i : Nat) (key : Int) : SamePlace n (n.setKey i key) := by
  refine ⟨⟨rfl, rfl, rfl, fun j => ?_⟩, rfl, rfl⟩
  unfold Node.setKey
  dsimp only
  by_cases hj : j = i
  · rw [hj, Function.update_self]
  · rw [Function.update_of_ne hj]

omit [Cell C] in
theorem samePlace_updateKey (n : Node C) (old new : Int) : SamePlace n (n.updateInternalNodeKey old new) :=
  sameKids_setKey n _ new

/-! ## A path through the tree -/

/-- A subtree is reached where the nodes above it have the children they had. -/
theorem Above.reaches (ha : Above s h t fs) (hroot : s'.rootPageNum = s.rootPageNum)
    (hkids : ∀ f ∈ fs, SameKids (s.node f.page) (s'.node f.page)) : s'.Reaches t.page := by
  induction fs generalizing h t with
  | nil =>
    rw [ha.1, ← hroot]
    exact .root
  | cons f fs ih =>
    obtain ⟨hl, -, -, -, -, ha⟩ := ha
    have hup : s'.Reaches f.page := ih ha fun g hg => hkids g (List.mem_cons_of_mem _ hg)
    have hsame := hkids f List.mem_cons_self
    have hat : (f.left ++ t :: f.right)[f.left.length]? = some t := by
      rw [List.getElem?_append_right (le_refl _), Nat.sub_self]
      rfl
    exact .child hup (hsame.nodeType.trans hl.nodeType) ((hsame.child _).trans (hl.child hat))

theorem split_flatMap {α β : Type} {g : α → List β} {x : β} {l : List α} {l₁ l₂ : List β} (h : l.flatMap g = l₁ ++ x :: l₂) :
    ∃ a k b m₁ m₂, l = a ++ k :: b ∧ g k = m₁ ++ x :: m₂ ∧ l₁ = a.flatMap g ++ m₁ ∧ l₂ = m₂ ++ b.flatMap g := by
  induction l generalizing l₁ with
  | nil => exact absurd h.symm (List.append_ne_nil_of_right_ne_nil _ (List.cons_ne_nil _ _))
  | cons k l ih =>
    have hlater : ∀ l₁', l.flatMap g = l₁' ++ x :: l₂ → l₁ = g k ++ l₁' → ∃ a j b m₁ m₂, k :: l = a ++ j :: b ∧
        g j = m₁ ++ x :: m₂ ∧ l₁ = a.flatMap g ++ m₁ ∧ l₂ = m₂ ++ b.flatMap g := by
      rintro l₁' hl rfl
      obtain ⟨a, j, b, m₁, m₂, rfl, hj, rfl, hl₂⟩ := ih hl
      exact ⟨k :: a, j, b, m₁, m₂, rfl, hj, by rw [List.flatMap_cons, List.append_assoc], hl₂⟩
    rw [List.flatMap_cons] at h
    rcases List.append_eq_append_iff.mp h with ⟨l₁', hl₁, hl⟩ | ⟨c, hk, hc⟩
    · exact hlater l₁' hl hl₁
    · cases c with
      | nil => exact hlater [] hc.symm (by rw [hk, List.append_nil, List.append_nil])
      | cons y c =>
        obtain ⟨rfl, rfl⟩ := List.cons.inj hc
        exact ⟨[], k, l, l₁, c, rfl, hk, rfl, rfl⟩

/-- Every leaf has a path to the root. -/
theorem Sub.locate {x : Nat × List C} {l₁ l₂ : List (Nat × List C)} (hs : Sub s h t) (ha : Above s h t fs)
    (hleaves : t.leaves = l₁ ++ x :: l₂) :
    ∃ gs, plug (Part.leaf x.1 x.2) gs = plug t fs ∧ Above s 0 (Part.leaf x.1 x.2) gs ∧ Sub s 0 (Part.leaf x.1 x.2) ∧
      before gs = before fs ++ l₁ ∧ after gs = l₂ ++ after fs := by
  induction h generalizing t fs l₁ l₂ with
  | zero =>
    obtain ⟨htype, hleaf⟩ := hs
    rw [hleaf] at hleaves
    have hone : [(t.page, (s.node t.page).cells)] = l₁ ++ x :: l₂ := hleaves
    cases l₁ with
    | nil =>
      obtain ⟨rfl, rfl⟩ := List.cons.inj hone
      have ht : Part.leaf t.page (s.node t.page).cells = t := hleaf.symm
      refine ⟨fs, by rw [ht], ?_, ⟨htype, rfl⟩, (List.append_nil _).symm, rfl⟩
      rw [ht]
      exact ha
    | cons y l₁ =>
      have hnil := (List.cons.inj hone).2
      exact absurd hnil.symm (List.append_ne_nil_of_right_ne_nil _ (List.cons_ne_nil _ _))
  | succ h ih =>
    obtain ⟨kids, hl, hle, ht, hk⟩ := hs
    rw [ht] at hleaves
    have hflat : kids.flatMap Part.leaves = l₁ ++ x :: l₂ := hleaves
    obtain ⟨k₁, k, k₂, m₁, m₂, rfl, hkl, rfl, rfl⟩ := split_flatMap hflat
    have hkm : k ∈ k₁ ++ k :: k₂ := List.mem_append_right _ List.mem_cons_self
    have hfill : Frame.fill ⟨t.page, k₁, k₂⟩ k = t := ht.symm
    have habove : Above s h k (⟨t.page, k₁, k₂⟩ :: fs) :=
      ⟨hl, hle, fun x hx => hk x ((sublist_append_cons ..).mem hx), (hk k hkm).2.1, (hk k hkm).2.2,
        by rw [hfill]; exact ha⟩
    obtain ⟨gs, hplug, hag, hsg, hb, haf⟩ := ih (hk k hkm).1 habove hkl
    refine ⟨gs, ?_, hag, hsg, ?_, ?_⟩
    · rw [hplug, plug, hfill]
    · rw [hb, before, List.append_assoc]
    · rw [haf, after, List.append_assoc]

/-! ## Children of a frame -/

/-- The pages of a subtree and of the frames around it are different. -/
abbrev Apart (t : Part C) (fs : List (Frame C)) : Prop := (t.pages ++ outer fs).Nodup

omit [Cell C] in
theorem Apart.up (h : Apart t (f :: fs)) : Apart (f.fill t) fs := by
  have hperm : ((f.fill t).pages ++ outer fs).Perm (t.pages ++ outer (f :: fs)) :=
    (plug_pages (f.fill t) fs).symm.trans (plug_pages t (f :: fs))
  exact hperm.nodup_iff.mpr h

omit [Cell C] in
theorem mem_outer (hf : f ∈ fs) : f.page ∈ outer fs := by
  induction fs with
  | nil => exact absurd hf List.not_mem_nil
  | cons g fs ih =>
    rcases List.mem_cons.mp hf with rfl | hf
    · exact List.mem_cons_self
    · exact List.mem_cons_of_mem _ (List.mem_append_right _ (ih hf))

omit [Cell C] in
theorem Apart.ne (hnd : Apart t fs) (hp : p ∈ t.pages) (hq : q ∈ outer fs) : p ≠ q :=
  fun he => (List.nodup_append.mp hnd).2.2 p hp q hq he

omit [Cell C] in
/-- The other children of the frame. -/
theorem Apart.kid (hnd : Apart t (f :: fs)) (hp : p ∈ t.pages) (hk : k ∈ f.left ++ f.right) (hq : q ∈ k.pages) : p ≠ q :=
  hnd.ne hp (List.mem_cons_of_mem _ (List.mem_append_left _ (List.mem_flatMap.mpr ⟨k, hk, hq⟩)))

omit [Cell C] in
theorem Apart.own (hnd : Apart t (f :: fs)) (hp : p ∈ t.pages) : p ≠ f.page := hnd.ne hp List.mem_cons_self

omit [Cell C] in
theorem Apart.kid_own (hnd : Apart t (f :: fs)) (hk : k ∈ f.left ++ f.right) (hq : q ∈ k.pages) : q ≠ f.page := by
  have houter : (outer (f :: fs)).Nodup := (List.nodup_append.mp hnd).2.1
  rintro rfl
  exact (List.nodup_cons.mp houter).1 (List.mem_append_left _ (List.mem_flatMap.mpr ⟨k, hk, hq⟩))

omit [Cell C] in
theorem page_mem_fill (f : Frame C) (t : Part C) : f.page ∈ (f.fill t).pages := List.mem_cons_self

omit [Cell C] in
theorem mem_fill (hk : k ∈ f.left ++ t :: f.right) (hq : q ∈ k.pages) : q ∈ (f.fill t).pages :=
  List.mem_cons_of_mem _ (List.mem_flatMap.mpr ⟨k, hk, hq⟩)

omit [Cell C] in
theorem hole (f : Frame C) (t : Part C) : (f.left ++ t :: f.right)[f.left.length]? = some t := by
  rw [List.getElem?_append_right (le_refl _), Nat.sub_self]
  rfl

/-- `find_child_index` finds the child a frame is around. -/
theorem Above.childIndex (ha : Above s h t (f :: fs)) (hs : Sub s h t) (hnd : Apart t (f :: fs)) :
    s.childIndex t.page = some f.left.length := by
  obtain ⟨hl, -, hk, hpar, -, -⟩ := ha
  have hcount := hl.count
  rw [List.length_append, List.length_cons] at hcount
  unfold Store.childIndex Node.findChildIndex
  rw [hpar, List.find?_range_eq_some]
  refine ⟨decide_eq_true (hl.child (hole f t)), List.mem_range.mpr (by omega), fun j hj => ?_⟩
  have hmem : f.left[j] ∈ f.left ++ f.right := List.mem_append_left _ (List.getElem_mem hj)
  have hget : (f.left ++ t :: f.right)[j]? = some f.left[j] := by
    rw [List.getElem?_append_left hj]
    exact List.getElem?_eq_getElem hj
  have hne := hnd.kid hs.page_mem hmem (hk _ hmem).1.page_mem
  rw [hl.child hget]
  simpa using hne.symm

/-- The sibling an underflow is settled with: none, the one to the right, or the one to the left. -/
theorem Above.sibling (ha : Above s h t (f :: fs)) (hs : Sub s h t) (hnd : Apart t (f :: fs)) :
    (f.left = [] ∧ (s.node f.page).numKeys = 0 ∧ s.neighbour t.page = none) ∨
    (f.left = [] ∧ 0 < (s.node f.page).numKeys ∧ ∃ b ∈ f.right, (s.node f.page).internalNodeChild 1 = some b.page ∧
      s.neighbour t.page = some b.page) ∨
    (0 < f.left.length ∧ ∃ a ∈ f.left, (s.node f.page).internalNodeChild (f.left.length - 1) = some a.page ∧
      s.neighbour t.page = some a.page) := by
  have hindex := ha.childIndex hs hnd
  obtain ⟨hl, -, -, hpar, -, -⟩ := ha
  have hcount := hl.count
  rw [List.length_append, List.length_cons] at hcount
  have heq : s.neighbour t.page = if 0 < f.left.length then (s.node f.page).internalNodeChild (f.left.length - 1)
      else if f.left.length < (s.node f.page).numKeys then (s.node f.page).internalNodeChild (f.left.length + 1)
      else none := by
    unfold Store.neighbour
    dsimp only
    rw [hindex, hpar, Option.bind_some]
  rw [heq]
  rcases List.eq_nil_or_concat f.left with hnil | ⟨l, a, hla⟩
  · rw [hnil] at hl hcount ⊢
    rw [List.length_nil] at hcount ⊢
    rw [if_neg (Nat.lt_irrefl 0)]
    cases hr : f.right with
    | nil =>
      rw [hr, List.length_nil] at hcount
      exact Or.inl ⟨rfl, by omega, if_neg (by omega)⟩
    | cons b r =>
      rw [hr] at hl hcount
      rw [List.length_cons] at hcount
      have hchild : (s.node f.page).internalNodeChild (0 + 1) = some b.page := hl.child rfl
      rw [if_pos (by omega)]
      exact Or.inr (Or.inl ⟨rfl, by omega, b, List.mem_cons_self, hchild, hchild⟩)
  · rw [List.concat_eq_append] at hla
    have hpos : 0 < f.left.length := by
      rw [hla, List.length_append, List.length_singleton]
      omega
    have hchild : (s.node f.page).internalNodeChild (f.left.length - 1) = some a.page := by
      refine hl.child ?_
      rw [hla, List.length_append, List.length_singleton, Nat.add_sub_cancel, List.append_assoc,
        List.getElem?_append_right (le_refl _), Nat.sub_self]
      rfl
    rw [if_pos hpos]
    exact Or.inr (Or.inr ⟨hpos, a, by rw [hla]; exact List.mem_append_right _ List.mem_cons_self, hchild, hchild⟩)

end Tree

end CustomDB
