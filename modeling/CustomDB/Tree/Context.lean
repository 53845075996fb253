import CustomDB.Tree.Shape

/-!
# A tree around a subtree

The inner nodes from the parent of a subtree up to the root, each with its other children: what `btree_insert`
climbs through. A subtree can be replaced as long as its largest key stays, or it is the rightmost one.
-/

namespace CustomDB

open Lib

namespace Tree

variable {C : Type} [Cell C]

/-- An inner node around one of its children. -/
structure Frame (C : Type) where
  page : Nat
  left : List (Part C)
  right : List (Part C)

omit [Cell C] in
def Frame.fill (f : Frame C) (t : Part C) : Part C := Part.join f.page (f.left ++ t :: f.right)

/-- The whole tree around `t`; the frames are those from the parent of `t` up. -/
def plug (t : Part C) : List (Frame C) → Part C
  | [] => t
  | f :: fs => plug (f.fill t) fs

/-- The frames are inner nodes of the tree around a subtree `t` of height `h`, whose own pages count only as the
child the lowest frame has there. -/
def Above (s : Store C) : Nat → Part C → List (Frame C) → Prop
  | _, t, [] => t.page = s.rootPageNum ∧ (s.node t.page).isRoot = true
  | h, t, f :: fs => Links (s.node f.page) (f.left ++ t :: f.right) ∧ (s.node f.page).numKeys ≤ internalNodeMaxKeys ∧
      (∀ k ∈ f.left ++ f.right, Child s h f.page k) ∧ (s.node t.page).parent = f.page ∧
      (s.node t.page).isRoot = false ∧ Above s (h + 1) (f.fill t) fs

/-- The leaves to the left. -/
def before : List (Frame C) → List (Nat × List C)
  | [] => []
  | f :: fs => before fs ++ f.left.flatMap Part.leaves

/-- The leaves to the right. -/
def after : List (Frame C) → List (Nat × List C)
  | [] => []
  | f :: fs => f.right.flatMap Part.leaves ++ after fs

/-- The pages of the frames and of their other children. -/
def outer : List (Frame C) → List Nat
  | [] => []
  | f :: fs => f.page :: (f.left ++ f.right).flatMap Part.pages ++ outer fs

/-- Nothing lies to the right. -/
def Rightmost (fs : List (Frame C)) : Prop := ∀ f ∈ fs, f.right = []

variable {s s' : Store C} {h : Nat} {t t' : Part C} {f : Frame C} {fs : List (Frame C)} {key : Int}

/-! ## Plugging -/

omit [Cell C] in
theorem plug_leaves (t : Part C) (fs : List (Frame C)) : (plug t fs).leaves = before fs ++ t.leaves ++ after fs := by
  induction fs generalizing t with
  | nil => simp [plug, before, after]
  | cons f fs ih =>
    rw [plug, ih, before, after]
    simp [Frame.fill, Part.join]

omit [Cell C] in
theorem plug_rows (t : Part C) (fs : List (Frame C)) :
    (plug t fs).rows = (before fs).flatMap Prod.snd ++ t.rows ++ (after fs).flatMap Prod.snd := by
  rw [Part.rows, plug_leaves, List.flatMap_append, List.flatMap_append, Part.rows]

omit [Cell C] in
theorem plug_pages (t : Part C) (fs : List (Frame C)) : (plug t fs).pages.Perm (t.pages ++ outer fs) := by
  induction fs generalizing t with
  | nil => simp [plug, outer]
  | cons f fs ih =>
    rw [plug, outer]
    refine (ih (f.fill t)).trans ?_
    have hfill : (f.fill t).pages = f.page :: (f.left.flatMap Part.pages ++ (t.pages ++ f.right.flatMap Part.pages)) := by
      simp [Frame.fill, Part.join]
    have hother : (f.left ++ f.right).flatMap Part.pages = f.left.flatMap Part.pages ++ f.right.flatMap Part.pages :=
      List.flatMap_append
    rw [hfill, hother, ← List.append_assoc t.pages]
    refine List.Perm.append_right _ ?_
    refine (List.Perm.cons f.page (List.perm_append_comm_assoc ..)).trans ?_
    exact List.perm_middle.symm

omit [Cell C] in
theorem rows_fill (f : Frame C) (t : Part C) :
    (f.fill t).rows = f.left.flatMap Part.rows ++ t.rows ++ f.right.flatMap Part.rows := by
  rw [Frame.fill, rows_join, List.flatMap_append, List.flatMap_cons, List.append_assoc]

/-- The lowest frame and the subtree it is around. -/
theorem Above.fill (ha : Above s h t (f :: fs)) (hs : Sub s h t) : Sub s (h + 1) (f.fill t) := by
  obtain ⟨hl, hle, hk, hpar, hroot, -⟩ := ha
  refine ⟨f.left ++ t :: f.right, hl, hle, rfl, fun k hmem => ?_⟩
  rcases List.mem_append.mp hmem with hm | hm
  · exact hk k (List.mem_append_left _ hm)
  · rcases List.mem_cons.mp hm with rfl | hm
    · exact ⟨hs, hpar, hroot⟩
    · exact hk k (List.mem_append_right _ hm)

theorem Above.plug (ha : Above s h t fs) (hs : Sub s h t) : Sub s (h + fs.length) (plug t fs) ∧
    (plug t fs).page = s.rootPageNum ∧ (s.node (Tree.plug t fs).page).isRoot = true := by
  induction fs generalizing h t with
  | nil => exact ⟨hs, ha⟩
  | cons f fs ih =>
    rw [List.length_cons, Nat.add_comm fs.length 1, ← Nat.add_assoc]
    exact ih ha.2.2.2.2.2 (ha.fill hs)

/-- The leaves on both sides are on pages of the frames. -/
theorem Above.leaf_pages (ha : Above s h t fs) : ∀ x ∈ before fs ++ after fs, x.1 ∈ outer fs := by
  induction fs generalizing h t with
  | nil => exact fun x hx => absurd hx List.not_mem_nil
  | cons f fs ih =>
    obtain ⟨-, -, hk, -, -, ha⟩ := ha
    have hside : ∀ x ∈ (f.left ++ f.right).flatMap Part.leaves, x.1 ∈ outer (f :: fs) := by
      intro x hx
      obtain ⟨k, hm, hx⟩ := List.mem_flatMap.mp hx
      have hp := (hk k hm).1.leaf_pages x.1 (List.mem_map_of_mem hx)
      exact List.mem_cons_of_mem _ (List.mem_append_left _ (List.mem_flatMap.mpr ⟨k, hm, hp⟩))
    have hup : ∀ x ∈ before fs ++ after fs, x.1 ∈ outer (f :: fs) := fun x hx =>
      List.mem_cons_of_mem _ (List.mem_append_right _ (ih ha x hx))
    rw [List.flatMap_append] at hside
    intro x hx
    rw [before, after] at hx
    rcases List.mem_append.mp hx with hx | hx
    · rcases List.mem_append.mp hx with hx | hx
      · exact hup x (List.mem_append_left _ hx)
      · exact hside x (List.mem_append_left _ hx)
    · rcases List.mem_append.mp hx with hx | hx
      · exact hside x (List.mem_append_right _ hx)
      · exact hup x (List.mem_append_right _ hx)

/-! ## Replacing the subtree -/

/-- The rows end with the same key. -/
def SameEnd (a b : List C) : Prop := a ≠ [] ∧ b ≠ [] ∧ Node.lastKey b = Node.lastKey a

theorem SameEnd.append {a b : List C} (h : SameEnd a b) (l r : List C) : SameEnd (l ++ a ++ r) (l ++ b ++ r) := by
  obtain ⟨ha, hb, he⟩ := h
  refine ⟨by simp [ha], by simp [hb], ?_⟩
  by_cases hr : r = []
  · rw [hr, List.append_nil, List.append_nil, lastKey_append l ha, lastKey_append l hb, he]
  · rw [lastKey_append _ hr, lastKey_append _ hr]

theorem Above.replace (ha : Above s h t fs) (hp : t'.page = t.page) (he : ¬ Rightmost fs → SameEnd t.rows t'.rows) :
    Above s h t' fs := by
  induction fs generalizing h t t' with
  | nil =>
    rw [Above, hp]
    exact ha
  | cons f fs ih =>
    obtain ⟨hl, hle, hk, hpar, hroot, ha⟩ := ha
    have hright : f.right ≠ [] → SameEnd t.rows t'.rows := fun hne =>
      he fun hr => hne (hr f (List.mem_cons_self ..))
    refine ⟨hl.replace hp fun hne => ⟨(hright hne).2.1, (hright hne).2.2⟩, hle, hk, ?_, ?_, ih ha rfl fun hn => ?_⟩
    · rw [hp]
      exact hpar
    · rw [hp]
      exact hroot
    · rw [rows_fill, rows_fill]
      exact (he fun hr => hn fun g hg => hr g (List.mem_cons_of_mem _ hg)).append _ _

/-- The frames read their own pages only, and of the subtree the fields of its parent and of the root flag. -/
theorem Above.congr (ha : Above s h t fs) (hnd : (outer fs).Nodup) (hin : ∀ q ∈ outer fs, s'.node q = s.node q)
    (hroot : s'.rootPageNum = s.rootPageNum) (hpar : (s'.node t.page).parent = (s.node t.page).parent)
    (hflag : (s'.node t.page).isRoot = (s.node t.page).isRoot) : Above s' h t fs := by
  induction fs generalizing h t with
  | nil =>
    rw [Above, hroot, hflag]
    exact ha
  | cons f fs ih =>
    obtain ⟨hl, hle, hk, hp, hr, ha⟩ := ha
    rw [outer] at hnd hin
    obtain ⟨hnot, hnd⟩ := List.nodup_cons.mp hnd
    obtain ⟨hnd₁, hnd₂, -⟩ := List.nodup_append.mp hnd
    have hpage : s'.node f.page = s.node f.page := hin _ (List.mem_cons_self ..)
    refine ⟨by rw [hpage]; exact hl, by rw [hpage]; exact hle, fun k hmem => ?_, hpar.trans hp, hflag.trans hr,
      ih ha hnd₂ (fun q hq => hin q (List.mem_cons_of_mem _ (List.mem_append_right _ hq))) ?_ ?_⟩
    · exact (hk k hmem).congr ((List.nodup_flatMap.mp hnd₁).1 k hmem) fun q hq =>
        hin q (List.mem_cons_of_mem _ (List.mem_append_left _ (List.mem_flatMap.mpr ⟨k, hmem, hq⟩)))
    · exact congrArg Node.parent hpage
    · exact congrArg Node.isRoot hpage

end Tree

end CustomDB
