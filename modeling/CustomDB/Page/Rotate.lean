import CustomDB.Page.InnerSpec
import CustomDB.Page.Split

/-!
# Rebalancing keeps the separators

A borrow from the left and the removal of a child keep the invariant, a borrow from the right does so only where nothing
lies between the first two separators of the right node.
-/

namespace CustomDB

namespace Page

open Lib.Bytes Lib.Memory Lib.Items Lib.Separators

variable {m m' : Mem} {i n x right : Nat} {key : List UInt8} {cells : List (Nat × List UInt8)} {ops : WhereOps}
  {c : ColumnType} {s s' : Pages} {p q : Nat} {k : List UInt8}

/-! ## Rotations -/

section Rotations

variable {parent left right last mcp rightR : Nat} {pre post init cellsR : List (Nat × List UInt8)} {kl : List UInt8} {q : Nat}

theorem internalNodeChild_lt (h : internalNodeChild m i = some q) : q < 2 ^ 32 := by
  unfold internalNodeChild at h
  split at h
  · cases h
  · split at h
    · rw [← Option.some.inj h]
      exact u32_lt _ _
    · rw [← Option.some.inj h]
      exact u32_lt _ _

/-- A page with a new parent. -/
theorem setNodeParent_self (s : Pages) (p : Nat) (hx : x < 2 ^ 32) : nodeParent (setNodeParent s p x p) = x := by
  rw [setNodeParent, Function.update_self]
  exact u32_setU32 _ _ hx

theorem setNodeParent_same (s : Pages) (p x r : Nat) : SameNode (s r) (setNodeParent s p x r) := by
  unfold setNodeParent
  by_cases hr : r = p
  · subst hr
    rw [Function.update_self]
    exact sameNode_setU32 _ _
  · rw [Function.update_of_ne hr]
    exact SameNode.refl _

theorem Siblings.ne (h : Siblings s parent i left right) : left ≠ right := by
  rintro rfl
  have hl := h.leftAt
  have hr := h.rightAt
  rw [← getElem?_children] at hl hr
  have hi := (List.getElem?_inj (List.getElem?_eq_some_iff.mp hl).1 h.nodup).mp (hl.trans hr.symm)
  omega

/-- `internal_borrow_from_left` moves the last child of the left node, and its separator, through the parent. -/
theorem Siblings.borrowFromLeft (h : Siblings s parent pre.length left right)
    (hP : IsInner (s parent) (pre ++ (left, k) :: post) last) (hL : IsInner (s left) (init ++ [(q, kl)]) mcp)
    (hR : IsInner (s right) cellsR rightR) :
    ∃ s', internalBorrowFromLeft s right left parent (pre.length + 1) = some s' ∧
      IsInner (s' parent) (pre ++ (left, kl) :: post) last ∧ IsInner (s' left) init q ∧
      IsInner (s' right) ((mcp, k) :: cellsR) rightR ∧ Elsewhere s s' parent left right ∧ nodeParent (s' mcp) = right := by
  have hmcp : mcp ∈ children (s left) := by
    rw [hL.children_eq]
    exact List.mem_append_right _ (List.mem_singleton_self mcp)
  obtain ⟨hm1, hm2, hm3⟩ := h.apart mcp mcp (Or.inl hmcp) (.refl mcp)
  obtain ⟨ht1, ht2⟩ := h.top
  have hne := h.ne
  obtain ⟨hcl, hcr⟩ := h.counts
  unfold internalNodeMaxKeys at hcl hcr
  rw [hL.header.count, List.length_append, List.length_singleton] at hcl
  rw [hR.header.count] at hcr
  have hln : internalNodeNumKeys (s left) = init.length + 1 := by rw [hL.header.count, List.length_append, List.length_singleton]
  obtain ⟨hq, hkl, hq32, hkl32⟩ := hL.cell (show (init ++ [(q, kl)])[init.length]? = some (q, kl) by simp)
  obtain ⟨-, hk, -, hk32⟩ := hP.cell (show (pre ++ (left, k) :: post)[pre.length]? = some (left, k) by simp)
  have hchild : internalNodeChild (s left) init.length = some q := by
    rw [internalNodeChild, if_neg (by omega), if_neg (by omega), hq]
  have hkey : internalNodeKey (setNumKeys (setRightChild (s left) q) init.length) init.length = kl := by
    have hcell := (innerCell_setNumKeys (setRightChild (s left) q) init.length init.length).trans
      (innerCell_setRightChild (s left) q init.length)
    exact (congrArg Prod.snd hcell).trans hkl
  unfold internalBorrowFromLeft
  dsimp only
  rw [hln, hL.header.right, hR.header.count, Nat.add_sub_cancel, Nat.add_sub_cancel, if_neg (Nat.succ_ne_zero _), hk]
  generalize hs1 : Function.update s right (putInnerCell (setNumKeys (shiftUp internalNodeHeaderSize internalNodeCellSize 0
    cellsR.length (s right)) (cellsR.length + 1)) 0 mcp k) = s1
  have hs1' : ∀ r, r ≠ right → s1 r = s r := fun r hr => by rw [← hs1, Function.update_of_ne hr]
  have hs2 : ∀ r, r ≠ mcp → setNodeParent s1 mcp right r = s1 r := fun r hr => Function.update_of_ne hr _ _
  rw [hs2 left (Ne.symm hm2), hs1' left hne, hchild, Option.map_some, hkey]
  refine ⟨_, rfl, ?_, ?_, ?_, fun r h1 h2 h3 => ?_, ?_⟩
  · rw [Function.update_self, Function.update_of_ne (Ne.symm ht1), hs2 parent (Ne.symm hm1), hs1' parent (Ne.symm ht2)]
    exact hP.setKey hkl32
  · rw [Function.update_of_ne ht1, Function.update_self]
    exact hL.dropLast hq32 (by omega)
  · rw [Function.update_of_ne ht2, Function.update_of_ne (Ne.symm hne), hs2 right (Ne.symm hm3), ← hs1, Function.update_self]
    exact hR.gainFirst (by omega) hL.right_lt hk32
  · rw [Function.update_of_ne h1, Function.update_of_ne h2, ← hs1' r h3]
    exact setNodeParent_same _ _ _ _
  · rw [Function.update_of_ne hm1, Function.update_of_ne hm2]
    exact setNodeParent_self s1 mcp (internalNodeChild_lt h.rightAt)

/-- `internal_borrow_from_right` moves the first child of the right node. The parent gets the separator that is the first
one after the shift, where there is one. -/
theorem Siblings.borrowFromRight {cellsL : List (Nat × List UInt8)} {rightL : Nat} {kr : List UInt8}
    (h : Siblings s parent pre.length left right) (hP : IsInner (s parent) (pre ++ (left, k) :: post) last)
    (hL : IsInner (s left) cellsL rightL) (hR : IsInner (s right) ((q, kr) :: cellsR) rightR) :
    ∃ s', internalBorrowFromRight s left right parent pre.length = some s' ∧
      IsInner (s' parent) (pre ++ (left, (cellsR.head?.map Prod.snd).getD kr) :: post) last ∧
      IsInner (s' left) (cellsL ++ [(rightL, k)]) q ∧ IsInner (s' right) cellsR rightR ∧
      Elsewhere s s' parent left right ∧ nodeParent (s' q) = left := by
  have hmcp : q ∈ children (s right) := by
    rw [hR.children_eq]
    exact List.mem_append_left _ List.mem_cons_self
  obtain ⟨hm1, hm2, hm3⟩ := h.apart q q (Or.inr (Or.inl hmcp)) (.refl q)
  obtain ⟨ht1, ht2⟩ := h.top
  have hne := h.ne
  obtain ⟨hcl, hcr⟩ := h.counts
  unfold internalNodeMaxKeys at hcl hcr
  rw [hL.header.count] at hcl
  rw [hR.header.count, List.length_cons] at hcr
  have hrn : internalNodeNumKeys (s right) = cellsR.length + 1 := hR.header.count
  obtain ⟨hq, hkr, hq32, hkr32⟩ := hR.cell (show ((q, kr) :: cellsR)[0]? = some (q, kr) from rfl)
  obtain ⟨-, hk, -, hk32⟩ := hP.cell (show (pre ++ (left, k) :: post)[pre.length]? = some (left, k) by simp)
  have hchild : internalNodeChild (s right) 0 = some q := by
    rw [internalNodeChild, if_neg (by omega), if_neg (by omega), hq]
  generalize hright' : setNumKeys (shiftDown internalNodeHeaderSize internalNodeCellSize cellsR.length 0 (s right))
    cellsR.length = right'
  have hlist : IsInner right' cellsR rightR := by
    have herase := @IsInner.erase _ _ [] cellsR _ hR (by simp; omega)
    rw [List.length_nil, Nat.zero_add, List.nil_append] at herase
    rwa [← hright']
  have hkey : internalNodeKey right' 0 = (cellsR.head?.map Prod.snd).getD kr := by
    cases cellsR with
    | nil =>
      have hcell := innerCell_setNumKeys (shiftDown internalNodeHeaderSize internalNodeCellSize 0 0 (s right)) 0 0
      rw [← hright']
      exact (congrArg Prod.snd hcell).trans hkr
    | cons e cellsR => exact (hlist.cell (show (e :: cellsR)[0]? = some e from rfl)).2.1
  have hkey32 : ((cellsR.head?.map Prod.snd).getD kr).length = internalNodeKeySize := by
    rw [← hkey]
    exact length_internalNodeKey _ _
  unfold internalBorrowFromRight
  dsimp only
  rw [hrn, hL.header.count, hL.header.right, if_neg (Nat.succ_ne_zero _), hchild, Option.map_some, Nat.add_sub_cancel, hk]
  generalize hs1 : Function.update s left (setRightChild (putInnerCell (setNumKeys (s left) (cellsL.length + 1))
    cellsL.length rightL k) q) = s1
  have hs1' : ∀ r, r ≠ left → s1 r = s r := fun r hr => by rw [← hs1, Function.update_of_ne hr]
  have hs2 : ∀ r, r ≠ q → setNodeParent s1 q left r = s1 r := fun r hr => Function.update_of_ne hr _ _
  rw [hs2 right (Ne.symm hm3), hs1' right (Ne.symm hne), hright', hkey]
  refine ⟨_, rfl, ?_, ?_, ?_, fun r h1 h2 h3 => ?_, ?_⟩
  · rw [Function.update_self, Function.update_of_ne (Ne.symm ht2), hs2 parent (Ne.symm hm1), hs1' parent (Ne.symm ht1)]
    exact hP.setKey hkey32
  · rw [Function.update_of_ne ht1, Function.update_of_ne hne, hs2 left (Ne.symm hm2), ← hs1, Function.update_self]
    exact hL.gainLast (by omega) hL.right_lt hq32 hk32
  · rw [Function.update_of_ne ht2, Function.update_self]
    exact hlist
  · rw [Function.update_of_ne h1, Function.update_of_ne h3, ← hs1' r h2]
    exact setNodeParent_same _ _ _ _
  · rw [Function.update_of_ne hm1, Function.update_of_ne hm3]
    exact setNodeParent_self s1 q (internalNodeChild_lt h.leftAt)

variable {β : Type*} [LinearOrder β] {rank : List UInt8 → β} {lo hi : β}

omit [LinearOrder β] in
/-- The head of what stands behind the left child. -/
theorem Siblings.tail (rank : List UInt8 → β) (hi : β) (h : (post.map Prod.fst ++ [last]).head? = some right) :
    ∃ b postS, spansOf rank post last hi = (right, b) :: postS := by
  have hmap := map_fst_spansOf rank post last hi
  cases hs : spansOf rank post last hi with
  | nil => exact absurd hs (by simp [spansOf])
  | cons e postS =>
    rw [hs, List.map_cons] at hmap
    rw [← hmap, List.head?_cons] at h
    exact ⟨e.2, postS, by rw [← Option.some.inj h]⟩

/-- A borrow from the left keeps the invariant. -/
theorem borrowFromLeft_rotated (h : Siblings s parent i left right) (hleaves : LeavesLaidOut s)
    (hinv : Separated rank ops c s lo hi parent i left right) (hkeys : internalNodeNumKeys (s left) ≠ 0) :
    ∃ s', internalBorrowFromLeft s right left parent (i + 1) = some s' ∧
      Rotated rank ops c s s' lo hi parent i left right (internalNodeRightChild (s left)) right := by
  obtain ⟨pre, k, post, last, hP, rfl, hhead⟩ := h.cut
  obtain ⟨b, postS, htail⟩ := Siblings.tail rank hi hhead
  have hL := isInner_of h.inner.2.1
  have hR := isInner_of h.inner.2.2
  rcases List.eq_nil_or_concat (innerCells (s left)) with hnil | ⟨init, ⟨q, kl⟩, hcells⟩
  · exact absurd (by rw [← length_innerCells, hnil, List.length_nil]) hkeys
  rw [List.concat_eq_append] at hcells
  rw [hcells] at hL
  obtain ⟨s', hop, hP', hL', hR', helse, hadopt⟩ := h.borrowFromLeft hP hL hR
  have hkids : children (s' left) ++ children (s' right) = children (s left) ++ children (s right) := by
    rw [hL'.children_eq, hR'.children_eq, hL.children_eq, hR.children_eq]
    simp
  obtain ⟨x, hpre, hpost, h2, h3⟩ := (separated_iff hP hL hR htail).mp hinv
  rw [spansOf_append, covers_append] at h2
  obtain ⟨y, h2, hmoved, -⟩ := h2
  obtain ⟨rfl, -⟩ := covers_concat.mp h2
  refine ⟨s', hop, ?_, ?_, hkids, helse, hadopt⟩
  · exact (h.separated_after hleaves hP htail hpre hpost helse hP' hL' hR' hkids).mpr ⟨h2, hmoved, h3⟩
  · rw [hP'.children_eq, hP.children_eq]
    simp

/-- A borrow from the right keeps the invariant exactly where the right node has one separator, or no key between its
first two. -/
theorem borrowFromRight_rotated_iff (h : Siblings s parent i left right) (hleaves : LeavesLaidOut s)
    (hinv : Separated rank ops c s lo hi parent i left right) (hkeys : internalNodeNumKeys (s right) ≠ 0) :
    (∃ s' q, internalBorrowFromRight s left right parent i = some s' ∧ internalNodeChild (s right) 0 = some q ∧
        Rotated rank ops c s s' lo hi parent i left right q left) ↔
      internalNodeNumKeys (s right) = 1 ∨ ∀ q k, internalNodeChild (s right) 1 = some q → ¬ KeyBelow ops c s q k := by
  obtain ⟨pre, k, post, last, hP, rfl, hhead⟩ := h.cut
  obtain ⟨b, postS, htail⟩ := Siblings.tail rank hi hhead
  have hL := isInner_of h.inner.2.1
  have hR := isInner_of h.inner.2.2
  generalize innerCells (s left) = cellsL at hL
  generalize internalNodeRightChild (s left) = rightL at hL
  cases hcells : innerCells (s right) with
  | nil => exact absurd (by rw [← length_innerCells, hcells, List.length_nil]) hkeys
  | cons e cellsR =>
    obtain ⟨q, kr⟩ := e
    rw [hcells] at hR
    generalize internalNodeRightChild (s right) = rightR at hR
    obtain ⟨s', hop, hP', hL', hR', helse, hadopt⟩ := h.borrowFromRight hP hL hR
    have hkids : children (s' left) ++ children (s' right) = children (s left) ++ children (s right) := by
      rw [hL'.children_eq, hR'.children_eq, hL.children_eq, hR.children_eq]
      simp
    have hsiblings : children (s' parent) = children (s parent) := by
      rw [hP'.children_eq, hP.children_eq]
      simp
    have hfirst : internalNodeChild (s right) 0 = some q := by
      rw [← getElem?_children, hR.children_eq]
      rfl
    obtain ⟨x, hpre, hpost, h2, hmoved, h3⟩ := (separated_iff hP hL hR htail).mp hinv
    have hrot : (∃ t r, internalBorrowFromRight s left right parent pre.length = some t ∧
        internalNodeChild (s right) 0 = some r ∧ Rotated rank ops c s t lo hi parent pre.length left right r left) ↔
        Separated rank ops c s' lo hi parent pre.length left right := by
      constructor
      · rintro ⟨t, r, ht, -, hr⟩
        obtain rfl := Option.some.inj (hop.symm.trans ht)
        exact hr.separated
      · exact fun hs => ⟨s', q, hop, hfirst, hs, hsiblings, hkids, helse, hadopt⟩
    rw [hrot, h.separated_after hleaves hP htail hpre hpost helse hP' hL' hR' hkids, spansOf_append, covers_append,
      hR.header.count]
    cases cellsR with
    | nil =>
      refine ⟨fun _ => Or.inl rfl, fun _ => ⟨⟨rank k, h2, hmoved, rfl⟩, h3⟩⟩
    | cons e cellsR =>
      obtain ⟨q1, k1⟩ := e
      obtain ⟨hfirst', h3⟩ := h3
      have hsecond : internalNodeChild (s right) 1 = some q1 := by
        rw [← getElem?_children, hR.children_eq]
        rfl
      have hle : rank kr ≤ rank k1 := hfirst'.le
      constructor
      · rintro ⟨-, hsecond', -⟩
        refine Or.inr fun q' k' hq' => ?_
        obtain rfl := Option.some.inj (hsecond.symm.trans hq')
        exact spans_self_iff.mp hsecond' k'
      · rintro (hone | hnone)
        · simp at hone
        · exact ⟨⟨rank k, h2, hmoved.mono (le_refl _) hle, rfl⟩, spans_self_iff.mpr fun k' => hnone q1 k' hsecond, h3⟩

end Rotations

/-! ## Taking a child out -/

section Removal

variable {β : Type*} [LinearOrder β] {rank : List UInt8 → β} {lo hi : β} {idx : Nat} {below : Nat → List UInt8 → Prop}

/-- The parent without the child: its children, and what they cover. -/
structure Without (rank : List UInt8 → β) (m m' : Mem) (idx : Nat) (right' : Nat) (cells' : List (Nat × List UInt8)) : Prop where
  node : IsInner m' cells' right'
  children : cells'.map Prod.fst ++ [right'] = (children m).eraseIdx idx
  covers : ∀ (below : Nat → List UInt8 → Prop) (lo hi : β), Covers below rank lo (childSpans rank m hi) hi →
    Covers below rank lo (spansOf rank cells' right' hi) hi

omit [LinearOrder β] in
theorem spansOf_ne_nil : spansOf rank cells right hi ≠ [] := by simp [spansOf]

theorem removeChildCell_last {init : List (Nat × List UInt8)} (h : IsInner m (init ++ [(q, k)]) right)
    (hn : init.length < 2 ^ 32) :
    Without rank m (removeChildCell m (init.length + 1)) (init.length + 1) q init := by
  have hcount : internalNodeNumKeys m = init.length + 1 := by rw [h.header.count, List.length_append, List.length_singleton]
  obtain ⟨hq, -, hq32, -⟩ := h.cell (show (init ++ [(q, k)])[init.length]? = some (q, k) by simp)
  refine ⟨?_, ?_, fun below lo hi hc => ?_⟩
  · unfold removeChildCell
    dsimp only
    rw [hcount, if_pos rfl, Nat.add_sub_cancel, hq]
    exact h.dropLast hq32 hn
  · rw [h.children_eq, List.eraseIdx_append_of_length_le (by simp)]
    simp
  · rw [h.childSpans_eq, spansOf_append] at hc
    obtain ⟨y, h1, hlast⟩ := covers_append.mp hc
    obtain ⟨rfl, -⟩ := covers_concat.mp h1
    exact h1.extend hlast.le

theorem removeChildCell_first {post : List (Nat × List UInt8)} (h : IsInner m ((q, k) :: post) right)
    (hn : post.length < 2 ^ 32) : Without rank m (removeChildCell m 0) 0 right post := by
  have hcount : internalNodeNumKeys m = post.length + 1 := h.header.count
  refine ⟨?_, ?_, fun below lo hi hc => ?_⟩
  · have herase := @IsInner.erase _ _ [] post _ h (by simpa using hn)
    rw [List.length_nil, Nat.zero_add, List.nil_append] at herase
    unfold removeChildCell
    dsimp only
    rw [hcount, if_neg (Nat.succ_ne_zero _).symm, if_neg (lt_irrefl 0), Nat.add_sub_cancel, Nat.sub_zero]
    exact herase
  · rw [h.children_eq]
    rfl
  · rw [h.childSpans_eq] at hc
    exact hc.skip spansOf_ne_nil

theorem removeChildCell_middle {pre post : List (Nat × List UInt8)} {d : Nat} {kd : List UInt8}
    (h : IsInner m (pre ++ (d, kd) :: (q, k) :: post) right) (hn : pre.length + post.length + 1 < 2 ^ 32) :
    Without rank m (removeChildCell m (pre.length + 1)) (pre.length + 1) right (pre ++ (d, k) :: post) := by
  have hcount : internalNodeNumKeys m = pre.length + post.length + 2 := by
    rw [h.header.count, List.length_append, List.length_cons, List.length_cons]
    omega
  obtain ⟨-, hk, -, hk32⟩ := h.cell (show (pre ++ (d, kd) :: (q, k) :: post)[pre.length + 1]? = some (q, k) by
    rw [List.getElem?_append_right (by omega), Nat.add_sub_cancel_left]
    rfl)
  refine ⟨?_, ?_, fun below lo hi hc => ?_⟩
  · have hset := h.setKey hk32
    rw [show pre ++ (d, k) :: (q, k) :: post = (pre ++ [(d, k)]) ++ (q, k) :: post by simp] at hset
    have herase := hset.erase (by rw [List.length_append, List.length_singleton]; omega)
    rw [List.length_append, List.length_singleton] at herase
    unfold removeChildCell
    dsimp only
    rw [hcount, if_neg (by omega), if_pos (Nat.succ_pos _), Nat.add_sub_cancel, hk,
      show pre.length + post.length + 2 - 1 - (pre.length + 1) = post.length by omega,
      show pre.length + post.length + 2 - 1 = pre.length + 1 + post.length by omega]
    rw [List.append_assoc, List.singleton_append] at herase
    exact herase
  · have herase : ∀ l : List Nat, (pre.map Prod.fst ++ d :: q :: l).eraseIdx (pre.length + 1) = pre.map Prod.fst ++ d :: l := by
      intro l
      rw [List.eraseIdx_append_of_length_le (by simp), List.length_map, Nat.add_sub_cancel_left]
      rfl
    rw [h.children_eq]
    simp only [List.map_append, List.map_cons, List.append_assoc, List.cons_append, herase]
  · rw [h.childSpans_eq] at hc
    have hlists : ∀ e : List (Nat × List UInt8), spansOf rank (pre ++ e) right hi =
        (pre.map fun e => (e.1, rank e.2)) ++ spansOf rank e right hi := fun e => by simp [spansOf]
    rw [hlists] at hc ⊢
    exact Covers.absorb hc

/-- Taking a child out: its range goes to the child before it, or to the one behind the first. -/
theorem removeChildCell_spec (h : IsInternal m) (hidx : idx ≤ internalNodeNumKeys m) (hkeys : internalNodeNumKeys m ≠ 0) :
    ∃ cells' right', Without rank m (removeChildCell m idx) idx right' cells' := by
  have hm := isInner_of h
  have hlen := length_innerCells m
  have hlt : internalNodeNumKeys m < 2 ^ 32 := u32_lt m 8
  generalize innerCells m = cells at hm hlen
  by_cases hlast : idx = cells.length
  · rcases List.eq_nil_or_concat cells with rfl | ⟨init, ⟨q, k⟩, rfl⟩
    · exact absurd hlen.symm hkeys
    rw [List.concat_eq_append] at hm hlast hlen
    rw [List.length_append, List.length_singleton] at hlast hlen
    rw [hlast]
    exact ⟨init, q, removeChildCell_last hm (by omega)⟩
  · have hget : idx < cells.length := by omega
    have hcut := (List.take_append_drop idx cells).symm
    rw [List.drop_eq_getElem_cons hget] at hcut
    rcases List.eq_nil_or_concat (cells.take idx) with hnil | ⟨pre, ⟨d, kd⟩, hpre⟩
    · obtain rfl : idx = 0 := by
        have := congrArg List.length hnil
        rw [List.length_take, List.length_nil] at this
        omega
      rw [hnil, List.nil_append] at hcut
      rw [hcut] at hm
      exact ⟨_, _, removeChildCell_first hm (by rw [List.length_drop]; omega)⟩
    · rw [List.concat_eq_append] at hpre
      have hplen : idx = pre.length + 1 := by
        have := congrArg List.length hpre
        rw [List.length_take, min_eq_left (by omega), List.length_append, List.length_singleton] at this
        exact this
      rw [hpre, List.append_assoc, List.singleton_append] at hcut
      rw [hcut] at hm
      have hdrop : (cells.drop (idx + 1)).length + (idx + 1) = cells.length := by
        rw [List.length_drop]
        omega
      generalize cells[idx] = e at hm
      generalize cells.drop (idx + 1) = post at hm hdrop
      rw [hplen]
      exact ⟨_, _, removeChildCell_middle hm (by omega)⟩

omit [LinearOrder β] in
/-- The root flag stays. -/
theorem isNodeRoot_removeChildCell (m : Mem) (idx : Nat) : isNodeRoot (removeChildCell m idx) = isNodeRoot m := by
  have hkey : ∀ (m : Mem) (i j : Nat), setInternalNodeKey m i (internalNodeKey m j) 1 = m 1 := fun m i j =>
    setInternalNodeKey_off (length_internalNodeKey _ _) (Or.inl (by unfold internalNodeCell; omega))
  have hbyte : removeChildCell m idx 1 = m 1 := by
    unfold removeChildCell
    dsimp only
    split
    · rw [setNumKeys, setU32_off (by omega), setRightChild, setU32_off (by omega)]
    · rw [setNumKeys, setU32_off (by omega), shiftDown_off (Or.inl (by unfold internalNodeHeaderSize; omega))]
      split
      · exact hkey _ _ _
      · rfl
  rw [isNodeRoot, hbyte, isNodeRoot]

/-- The children get their parent, and nothing else changes. -/
theorem adoptChildren_spec {t : Pages} (hx : x < 2 ^ 32) (hself : ∀ q ∈ children (s p), q ≠ p) (hn : n ≤ internalNodeNumKeys (s p) + 1)
    (ht : (List.range n).foldlM (fun t i => (internalNodeChild (t p) i).map fun child => setNodeParent t child x) s = some t) :
    t p = s p ∧ (∀ r, SameNode (s r) (t r)) ∧ ∀ i < n, ∀ q, internalNodeChild (s p) i = some q → nodeParent (t q) = x := by
  induction n generalizing t with
  | zero =>
    obtain rfl := Option.some.inj ht
    exact ⟨rfl, fun r => SameNode.refl _, fun i hi => absurd hi (Nat.not_lt_zero i)⟩
  | succ n ih =>
    rw [List.range_succ, List.foldlM_append] at ht
    obtain ⟨t1, ht1, ht⟩ := Option.bind_eq_some_iff.mp ht
    obtain ⟨hp, hsame, hdone⟩ := ih (by omega) ht1
    rw [List.foldlM_cons, hp] at ht
    obtain ⟨t2, ht2, ht⟩ := Option.bind_eq_some_iff.mp ht
    obtain rfl := Option.some.inj ht
    obtain ⟨child, hchild, rfl⟩ := Option.map_eq_some_iff.mp ht2
    have hne := hself child (mem_children.mpr ⟨n, hchild⟩)
    refine ⟨?_, fun r a ha => ?_, fun i hi q hq => ?_⟩
    · rw [setNodeParent, Function.update_of_ne (Ne.symm hne), hp]
    · rw [setNodeParent_same t1 child x r a ha, hsame r a ha]
    · by_cases hqc : q = child
      · rw [hqc]
        exact setNodeParent_self t1 child hx
      · have hin : i ≠ n := by
          rintro rfl
          exact hqc (Option.some.inj (hq.symm.trans hchild))
        rw [setNodeParent, Function.update_of_ne hqc]
        exact hdone i (by omega) q hq

/-- The loop runs through. -/
theorem adoptChildren_isSome (hself : ∀ q ∈ children (s p), q ≠ p) (hx : x < 2 ^ 32) :
    ∃ t, adoptChildren s p x = some t ∧ t p = s p ∧ (∀ r, SameNode (s r) (t r)) ∧
      ∀ q ∈ children (s p), nodeParent (t q) = x := by
  have hrun : ∀ n ≤ internalNodeNumKeys (s p) + 1, ∃ t, (List.range n).foldlM (fun t i =>
      (internalNodeChild (t p) i).map fun child => setNodeParent t child x) s = some t := by
    intro n hn
    induction n with
    | zero => exact ⟨s, rfl⟩
    | succ n ih =>
      obtain ⟨t, ht⟩ := ih (by omega)
      have hp := (adoptChildren_spec hx hself (by omega) ht).1
      have hsome : ∃ q, internalNodeChild (s p) n = some q := by
        rw [internalNodeChild, if_neg (by omega)]
        split
        · exact ⟨_, rfl⟩
        · exact ⟨_, rfl⟩
      obtain ⟨q, hq⟩ := hsome
      refine ⟨setNodeParent t q x, ?_⟩
      rw [List.range_succ, List.foldlM_append, ht]
      show ((internalNodeChild (t p) n).map fun child => setNodeParent t child x).bind _ = _
      rw [hp, hq]
      rfl
  obtain ⟨t, ht⟩ := hrun _ (le_refl _)
  obtain ⟨hp, hsame, hdone⟩ := adoptChildren_spec hx hself (le_refl _) ht
  refine ⟨t, ht, hp, hsame, fun q hq => ?_⟩
  obtain ⟨i, hi⟩ := mem_children.mp hq
  refine hdone i ?_ q hi
  by_contra hge
  rw [internalNodeChild, if_pos (by omega)] at hi
  cases hi

/-- The root that takes its child's place has the child's list. -/
theorem copyToRoot_isInner {root child : Mem} (h : IsInner child cells right) (hn : cells.length ≤ internalNodeMaxKeys) :
    IsInner (copyToRoot root child) cells right := by
  have hcopy : ∀ a, a ≠ 1 → a < pageSize → copyToRoot root child a = child a := by
    intro a h1 h2
    rw [copyToRoot, write_off (by simp; omega), write_read, if_pos (by omega)]
  unfold internalNodeMaxKeys at hn
  have hheader : Header (copyToRoot root child) cells.length right := by
    refine ⟨?_, ?_, ?_⟩
    · rw [IsInternal, hcopy 0 (by omega) (by decide)]
      exact h.header.inner
    · rw [← h.header.count]
      exact u32_congr fun a h1 h2 => hcopy a (by omega) (by unfold pageSize; omega)
    · rw [← h.header.right]
      exact u32_congr fun a h1 h2 => hcopy a (by omega) (by unfold pageSize; omega)
  refine ⟨hheader, innerCells_eq hheader.count fun i e he => ?_⟩
  have hi := (List.getElem?_eq_some_iff.mp he).1
  rw [← h.cells] at he
  obtain ⟨-, rfl⟩ := innerCell_of_getElem? he
  exact innerCell_congr fun a h1 h2 => hcopy a (by unfold internalNodeCell at h1; omega)
    (by unfold internalNodeCell at h2; unfold pageSize; omega)

variable {parent left i rootPageNum : Nat}

/-- No child's subtree reaches the parent. -/
theorem Siblings.avoid (h : Siblings s parent i left right) {r : Nat} (hq : q ∈ children (s parent)) (hr : Reach s q r) :
    r ≠ parent := by
  have hstep : ∀ q, q = left ∨ q = right → Reach s q r → r ≠ parent := by
    intro q hq hr
    cases hr with
    | refl =>
      rcases hq with rfl | rfl
      · exact h.top.1
      · exact h.top.2
    | step hn hc hr =>
      have hmem := mem_children.mpr ⟨_, hc⟩
      rcases hq with rfl | rfl
      · exact (h.apart _ r (Or.inl hmem) hr).1
      · exact (h.apart _ r (Or.inr (Or.inl hmem)) hr).1
  by_cases hl : q = left
  · exact hstep q (Or.inl hl) hr
  · by_cases hrt : q = right
    · exact hstep q (Or.inr hrt) hr
    · exact (h.apart q r (Or.inr (Or.inr ⟨hq, hl, hrt⟩)) hr).1

-- the cells stand for themselves here: evaluating them is slow
seal innerCells in
/-- What is taken out of the parent leaves the invariant. -/
theorem Siblings.removed (h : Siblings s parent i left right) (hleaves : LeavesLaidOut s)
    (hinv : Separates rank ops c s lo hi parent) (hidx : idx ≤ internalNodeNumKeys (s parent))
    (hkeys : internalNodeNumKeys (s parent) ≠ 0) :
    Removed rank ops c s (Function.update s parent (removeChildCell (s parent) idx)) lo hi parent idx := by
  obtain ⟨cells', right', hw⟩ := @removeChildCell_spec _ β _ rank idx h.inner.1 hidx hkeys
  have hnode : IsInner (Function.update s parent (removeChildCell (s parent) idx) parent) cells' right' := by
    rw [Function.update_self]
    exact hw.node
  have hchildren := hnode.children_eq.trans hw.children
  refine ⟨?_, hchildren, fun r hr => Function.update_of_ne hr _ _⟩
  rw [Separates, hnode.childSpans_eq]
  refine (hw.covers _ lo hi hinv).congr fun e he k => (Page.keyBelow_iff hleaves fun r hr a _ => ?_).mp
  have hmem : e.1 ∈ (children (s parent)).eraseIdx idx := by
    rw [← hchildren, hnode.children_eq, ← map_fst_spansOf rank _ _ hi]
    exact List.mem_map_of_mem he
  rw [Function.update_of_ne (h.avoid (List.mem_of_mem_eraseIdx hmem) hr)]

seal innerCells in
/-- A root that keeps one child takes its place. -/
theorem Siblings.collapsed (h : Siblings s parent i left right) (hleaves : LeavesLaidOut s)
    (hinv : Separated rank ops c s lo hi parent i left right) (hone : internalNodeNumKeys (s parent) = 1) (hidx : idx ≤ 1)
    (hroot : rootPageNum < 2 ^ 32) {s1 : Pages} (hs1 : s1 = Function.update s parent (removeChildCell (s parent) idx))
    {s2 : Pages} (hs2 : s2 = Function.update s1 parent (copyToRoot (s1 parent) (s1 (internalNodeRightChild (s1 parent))))) :
    IsInternal (s2 parent) ∧ ∃ t, adoptChildren s2 parent rootPageNum = some t ∧
      Collapsed rank ops c s t lo hi parent idx rootPageNum := by
  obtain ⟨pre, k, post, last, hP, rfl, hhead⟩ := h.cut
  have hlen := hP.header.count
  rw [hone, List.length_append, List.length_cons] at hlen
  obtain rfl : pre = [] := List.eq_nil_of_length_eq_zero (by omega)
  obtain rfl : post = [] := List.eq_nil_of_length_eq_zero (by omega)
  obtain rfl : last = right := Option.some.inj hhead
  have hL := isInner_of h.inner.2.1
  have hR := isInner_of h.inner.2.2
  obtain ⟨x, rfl, -, h2, h3⟩ := (separated_iff hP hL hR rfl).mp hinv
  have hchildren : children (s parent) = [left, last] := hP.children_eq
  -- the child that is left, and what it covers in the bounds of the root
  obtain ⟨child, herase, hmem, hinner, hcount, hcovers⟩ : ∃ child, (children (s parent)).eraseIdx idx = [child] ∧
      child ∈ children (s parent) ∧ IsInternal (s child) ∧ internalNodeNumKeys (s child) ≤ internalNodeMaxKeys ∧
      Covers (KeyBelow ops c s) rank lo (childSpans rank (s child) hi) hi := by
    rw [hchildren]
    rcases Nat.le_one_iff_eq_zero_or_eq_one.mp hidx with rfl | rfl
    · exact ⟨last, rfl, by simp, h.inner.2.2, h.counts.2, h3.widen spansOf_ne_nil (Covers.le h2)⟩
    · exact ⟨left, rfl, by simp, h.inner.2.1, h.counts.1, Covers.extend h2 (Covers.le h3)⟩
  have hremoved : Removed rank ops c s _ lo hi parent idx := h.removed hleaves hinv.atParent (by omega) (by omega)
  rw [← hs1] at hremoved
  have hright : internalNodeRightChild (s1 parent) = child := by
    have heq := hremoved.children.trans herase
    rw [children] at heq
    have hnil : (innerCells (s1 parent)).map Prod.fst = [] := by
      have := congrArg List.length heq
      rw [List.length_append, List.length_singleton, List.length_singleton] at this
      exact List.eq_nil_of_length_eq_zero (by omega)
    rw [hnil, List.nil_append] at heq
    exact (List.cons.inj heq).1
  have hself : ∀ q ∈ children (s child), ∀ r, Reach s q r → r ≠ parent := by
    intro q hq r hr
    obtain ⟨j, hj⟩ := mem_children.mp hq
    exact h.avoid hmem (.step hinner hj hr)
  rw [hright, hremoved.elsewhere child (h.avoid hmem (.refl child))] at hs2
  have hnode : IsInner (s2 parent) (innerCells (s child)) (internalNodeRightChild (s child)) := by
    rw [hs2, Function.update_self]
    exact copyToRoot_isInner (isInner_of hinner) (by rwa [length_innerCells])
  have hkids : children (s2 parent) = children (s child) := hnode.children_eq
  obtain ⟨t, ht, htp, hsame, hadopted⟩ := @adoptChildren_isSome rootPageNum s2 parent (fun q hq => by
    rw [hkids] at hq
    exact hself q hq q (.refl q)) hroot
  refine ⟨hnode.header.inner, t, ht, ?_, ?_, ?_⟩
  · rw [Separates, htp, hnode.childSpans_eq]
    refine hcovers.congr fun e he k => (Page.keyBelow_iff hleaves fun r hr a ha => ?_).mp
    have hq : e.1 ∈ children (s child) := by
      rw [(isInner_of hinner).children_eq, ← map_fst_spansOf rank _ _ hi]
      exact List.mem_map_of_mem he
    have hr' := hself e.1 hq r hr
    rw [hsame r a ha, hs2, Function.update_of_ne hr', hremoved.elsewhere r hr']
  · rw [htp, hkids, herase, List.flatMap_singleton]
  · intro q hq
    rw [htp] at hq
    exact hadopted q hq

seal innerCells in
/-- `internal_remove_child`, up to its call of `handle_internal_underflow`. -/
theorem internalRemoveChild_spec (h : Siblings s parent i left right) (hleaves : LeavesLaidOut s)
    (hinv : Separated rank ops c s lo hi parent i left right) (hidx : idx ≤ internalNodeNumKeys (s parent))
    (hroot : rootPageNum < 2 ^ 32) (underflow : Pages → Nat → Option Pages) :
    ∃ s', (internalRemoveChild underflow s rootPageNum parent idx = some s' ∨
        internalRemoveChild underflow s rootPageNum parent idx = underflow s' parent) ∧
      if isNodeRoot (s parent) ∧ internalNodeNumKeys (s parent) = 1 then
        Collapsed rank ops c s s' lo hi parent idx rootPageNum
      else Removed rank ops c s s' lo hi parent idx := by
  have hkeys : internalNodeNumKeys (s parent) ≠ 0 := by
    intro h0
    have hr := h.rightAt
    rw [internalNodeChild, if_pos (by omega)] at hr
    cases hr
  have hremoved := h.removed hleaves hinv.atParent hidx hkeys
  have hrootFlag := isNodeRoot_removeChildCell (s parent) idx
  obtain ⟨cells', right', hw⟩ := @removeChildCell_spec _ β _ rank idx h.inner.1 hidx hkeys
  have hcount : internalNodeNumKeys (removeChildCell (s parent) idx) + 1 = internalNodeNumKeys (s parent) := by
    have hlen := congrArg List.length hw.children
    rw [List.length_append, List.length_map, List.length_singleton, List.length_eraseIdx_of_lt, children, List.length_append,
      List.length_map, length_innerCells, List.length_singleton] at hlen
    · rw [hw.node.header.count]
      omega
    · rw [children, List.length_append, List.length_map, length_innerCells, List.length_singleton]
      omega
  unfold internalRemoveChild
  dsimp only
  rw [if_neg (by omega)]
  generalize hs1 : Function.update s parent (removeChildCell (s parent) idx) = s1 at hremoved
  have hs1p : s1 parent = removeChildCell (s parent) idx := by rw [← hs1, Function.update_self]
  rw [hs1p, hrootFlag]
  by_cases hc : isNodeRoot (s parent) ∧ internalNodeNumKeys (s parent) = 1
  · obtain ⟨hinner, t, ht, hcollapsed⟩ := h.collapsed hleaves hinv hc.2 (by omega) hroot hs1.symm rfl
    rw [hs1p] at hinner ht
    rw [if_pos ⟨hc.1, by omega⟩, if_pos hinner, ht]
    exact ⟨t, Or.inl rfl, by rw [if_pos hc]; exact hcollapsed⟩
  · rw [if_neg (fun h => hc ⟨h.1, by omega⟩)]
    refine ⟨s1, ?_, by rw [if_neg hc]; exact hremoved⟩
    split
    · exact Or.inr rfl
    · exact Or.inl rfl

end Removal

/-! ## The three functions together -/

/-- Rebalancing keeps the invariant exactly where the right node has one separator, or no key between its first two: the
borrow from the right takes the separator behind the shift for the one before it. -/
theorem rebalances_iff {β : Type*} [LinearOrder β] (rank : List UInt8 → β) {lo hi : β} {parent left right : Nat}
    (h : Siblings s parent i left right) (hleaves : LeavesLaidOut s)
    (hinv : Separated rank ops c s lo hi parent i left right) (hleft : internalNodeNumKeys (s left) ≠ 0)
    (hright : internalNodeNumKeys (s right) ≠ 0) :
    Rebalances rank ops c s lo hi parent i left right ↔
      internalNodeNumKeys (s right) = 1 ∨ ∀ q k, internalNodeChild (s right) 1 = some q → ¬ KeyBelow ops c s q k := by
  rw [← borrowFromRight_rotated_iff h hleaves hinv hright]
  refine ⟨fun hr => hr.fromRight, fun hr => ⟨borrowFromLeft_rotated h hleaves hinv hleft, hr, ?_⟩⟩
  intro idx rootPageNum underflow hidx hroot
  exact internalRemoveChild_spec h hleaves hinv hidx hroot underflow

/-! ## A parent with a full node on its right -/

/-- The key of an INT row. -/
def intKey (v : Nat) : List UInt8 := rawCol0Key .int { Value.init with intVal := BitVec.ofNat 32 v }

/-- The order of INT keys. -/
def intRank (k : List UInt8) : Int := (rawInt k).toInt

theorem intRank_intKey {v : Nat} (hv : v < 2 ^ 31) : intRank (intKey v) = v := by
  rw [intRank, intKey, rawCol0Key, rawInt_keyBuf]
  show (BitVec.ofNat 32 v).toInt = v
  have hnat : (BitVec.ofNat 32 v).toNat = v := Nat.mod_eq_of_lt (by omega)
  rw [BitVec.toInt_eq_toNat_of_lt (by omega), hnat]

theorem length_intKey (v : Nat) : (intKey v).length = internalNodeKeySize := by
  rw [intKey, rawCol0Key, keyBuf, List.length_append, List.length_replicate, length_leBytes]
  rfl

/-- A leaf with one INT row. -/
def intLeaf (v : Nat) : Mem := leafOf [[2, 1, UInt8.ofNat v]]

/-- A leaf without rows. -/
def noLeaf : Mem := initializeLeafNode fun _ => 0

theorem isLeaf_noLeaf : IsLeaf noLeaf := by
  rw [IsLeaf, noLeaf, initializeLeafNode, setU16_off (by decide), setU32_off (by decide)]
  rfl

theorem intLeaf_layout (v : Nat) : IsLeaf (intLeaf v) ∧ Layout (intLeaf v) ∧ leafNodeNumCells (intLeaf v) = 1 ∧
    Page.cells (intLeaf v) = [[2, 1, UInt8.ofNat v]] := by
  have hfits : Fits [[2, 1, UInt8.ofNat v]] := by simp [Fits, slotAt, leafNodeHeaderSize, pageSize]
  have hsizes : ∀ c ∈ [[2, 1, UInt8.ofNat v]], 1 ≤ c.length ∧ c.length ≤ maxLocalPayload := by simp [maxLocalPayload]
  obtain ⟨hl, hc, hn⟩ := leafOf_spec hfits hsizes
  refine ⟨?_, hl, hn, hc⟩
  rw [IsLeaf, intLeaf, leafOf, (populate_spec _ hfits hsizes).2.2]
  exact isLeaf_noLeaf

theorem leafKey_intLeaf (ops : WhereOps) {v : Nat} (hv : v < 128) : leafKey ops .int (intLeaf v) 0 = intKey v := by
  obtain ⟨-, -, hn, hc⟩ := intLeaf_layout v
  have hcell := getElem?_cells (m := intLeaf v) (i := 0) (by rw [hn]; exact Nat.one_pos)
  rw [hc] at hcell
  have hread := Option.some.inj hcell
  unfold leafKey
  generalize intLeaf v = m at hread
  generalize leafNodeSlot m 0 = slot at hread
  obtain ⟨off, size⟩ := slot
  obtain rfl : 3 = size := by
    have := congrArg List.length hread
    rwa [length_cellOf] at this
  rw [cellOf] at hread
  dsimp only at hread
  have hpart : ∀ i, i + 1 ≤ 3 → read m (off + i) 1 = ([2, 1, UInt8.ofNat v].drop i).take 1 := fun i hi => by
    rw [read_part hi, ← hread]
  have hvarint : ∀ w, w < 128 → ∀ a, read m a 1 = [w.toUInt8] → getVarint (read m a 10) = (w, 1) := fun w hw a ha => by
    have h := @getVarint_read m a w (by omega) (by rw [putVarint_small hw]; exact Nat.le_add_left 1 9) (by rw [putVarint_small hw]; exact ha)
    rwa [putVarint_small hw] at h
  have hhdr : getVarint (read m off 10) = (2, 1) := hvarint 2 (by decide) off (hpart 0 (by decide))
  have hserial : getVarint (read m (off + 1) 10) = (1, 1) := hvarint 1 (by decide) (off + 1) (hpart 1 (by decide))
  have hbody : read m (off + 2 % 2 ^ 32) (packedLength 1) = [UInt8.ofNat v] := hpart 2 (by decide)
  have hstub : ¬ CellIsOverflowStub 3 := by decide
  have hvalue : ∀ v < 128, (BitVec.ofNat 8 (leNat [UInt8.ofNat v])).signExtend 32 = BitVec.ofNat 32 v := by decide
  unfold extractCol0FromPackedRecord
  dsimp only
  rw [if_neg hstub, hhdr, hserial]
  dsimp only
  rw [hbody, show packedValue ops.toFloatOps .int 1 [UInt8.ofNat v] = { Value.init with
    intVal := (BitVec.ofNat 8 (leNat [UInt8.ofNat v])).signExtend 32 } from rfl, hvalue v hv]
  rfl

/-- A node with given cells. -/
def innerOf : List (Nat × List UInt8) → Nat → Mem
  | [], right => setRightChild (setNumKeys (fun _ => 0) 0) right
  | (x, key) :: cells, right =>
    putInnerCell (setNumKeys (shiftUp internalNodeHeaderSize internalNodeCellSize 0 cells.length (innerOf cells right))
      (cells.length + 1)) 0 x key

theorem innerOf_isInner (hlen : cells.length < 2 ^ 32) (hright : right < 2 ^ 32)
    (hcells : ∀ e ∈ cells, e.1 < 2 ^ 32 ∧ e.2.length = internalNodeKeySize) : IsInner (innerOf cells right) cells right := by
  induction cells with
  | nil =>
    have hzero : Header (fun _ => 0) 0 0 := ⟨rfl, by decide, by decide⟩
    have hheader := (hzero.setNumKeys (x := 0) (by decide)).setRightChild hright
    exact ⟨hheader, innerCells_eq hheader.count fun i e he => by cases he⟩
  | cons e cells ih =>
    rw [List.length_cons] at hlen
    obtain ⟨hx, hkey⟩ := hcells e List.mem_cons_self
    exact (ih (by omega) fun d hd => hcells d (List.mem_cons_of_mem _ hd)).gainFirst hlen hx hkey

/-- The children at `v + 9` to `v + n + 8`, a leaf with the key `w` at each page `w + 9`. -/
def leafCells : Nat → Nat → List (Nat × List UInt8)
  | _, 0 => []
  | v, n + 1 => (v + 9, intKey v) :: leafCells (v + 1) n

theorem length_leafCells (v n : Nat) : (leafCells v n).length = n := by
  induction n generalizing v with
  | zero => rfl
  | succ n ih => rw [leafCells, List.length_cons, ih]

theorem mem_leafCells {v n : Nat} {e : Nat × List UInt8} (h : e ∈ leafCells v n) :
    v + 9 ≤ e.1 ∧ e.1 < v + n + 9 ∧ e.2.length = internalNodeKeySize := by
  induction n generalizing v with
  | zero => cases h
  | succ n ih =>
    rcases List.mem_cons.mp h with rfl | h
    · exact ⟨le_refl _, by dsimp only; omega, length_intKey v⟩
    · obtain ⟨h1, h2, h3⟩ := ih h
      exact ⟨by omega, by omega, h3⟩

/-- The parent at page 1, its children at 2 and 3, a leaf with the key `p - 9` at each page `p` below them; but `m` is
the leaf at page 27, the second one of the node at 3. -/
def tallPages (m : Mem) : Pages := fun p =>
  if p = 1 then innerOf [(2, intKey 16)] 3
  else if p = 2 then innerOf (leafCells 1 15) 25
  else if p = 3 then innerOf (leafCells 17 17) 43
  else if p = 27 then m
  else intLeaf (p - 9)

theorem leafCells_isInner {v n : Nat} (h : v + n < 2 ^ 16) : IsInner (innerOf (leafCells v n) (v + n + 9)) (leafCells v n)
    (v + n + 9) := by
  refine innerOf_isInner (by rw [length_leafCells]; omega) (by omega) fun e he => ?_
  obtain ⟨-, h2, h3⟩ := mem_leafCells he
  exact ⟨by omega, h3⟩

/-- What the leaf at page 27 has to be: its keys behind 17 and not behind 18. -/
structure Fitting (ops : WhereOps) (m : Mem) : Prop where
  leaf : IsLeaf m
  layout : Layout m
  keys : ∀ i < leafNodeNumCells m, 17 < intRank (leafKey ops .int m i) ∧ intRank (leafKey ops .int m i) ≤ 18

theorem tallPages_leaf (hm : Fitting ops m) (hp : 10 ≤ p) (h44 : p < 44) : IsLeaf (tallPages m p) ∧
    ∀ i < leafNodeNumCells (tallPages m p), ((p - 10 : Nat) : Int) < intRank (leafKey ops .int (tallPages m p) i) ∧
      intRank (leafKey ops .int (tallPages m p) i) ≤ ((p - 9 : Nat) : Int) := by
  unfold tallPages
  rw [if_neg (by omega), if_neg (by omega), if_neg (by omega)]
  by_cases h27 : p = 27
  · subst h27
    rw [if_pos rfl]
    exact ⟨hm.leaf, hm.keys⟩
  · rw [if_neg h27]
    obtain ⟨hl, -, hn, -⟩ := intLeaf_layout (p - 9)
    refine ⟨hl, fun i hi => ?_⟩
    obtain rfl : i = 0 := by omega
    rw [leafKey_intLeaf ops (by omega), intRank_intKey (by omega)]
    omega

/-- A leaf has nothing below it but its keys. -/
theorem tallPages_spans (hm : Fitting ops m) (hp : 10 ≤ p) (h44 : p < 44) :
    Spans (KeyBelow ops .int (tallPages m)) intRank ((p - 10 : Nat) : Int) ((p - 9 : Nat) : Int) p := by
  obtain ⟨hl, hkeys⟩ := tallPages_leaf hm hp h44
  refine ⟨by omega, fun k hk => ?_⟩
  cases hk with
  | leaf _ hi => exact hkeys _ hi
  | inner hn _ _ => exact absurd hl (not_isLeaf hn)

theorem tallPages_covers (hm : Fitting ops m) {v n : Nat} (hv : 0 < v) (hn : v + n < 35) :
    Covers (KeyBelow ops .int (tallPages m)) intRank ((v - 1 : Nat) : Int)
      (spansOf intRank (leafCells v n) (v + n + 9) ((v + n : Nat) : Int)) ((v + n : Nat) : Int) := by
  induction n generalizing v with
  | zero =>
    have h := tallPages_spans hm (p := v + 9) (by omega) (by omega)
    exact ⟨by simpa using h, rfl⟩
  | succ n ih =>
    have h := tallPages_spans hm (p := v + 9) (by omega) (by omega)
    have htail := ih (v := v + 1) (by omega) (by omega)
    rw [show v + 1 + n = v + (n + 1) by omega, Nat.add_sub_cancel] at htail
    rw [show v + 9 - 10 = v - 1 by omega, Nat.add_sub_cancel] at h
    rw [← intRank_intKey (by omega : v < 2 ^ 31)] at h htail
    rw [leafCells, spansOf_cons, covers_cons]
    dsimp only
    exact ⟨h, htail⟩

theorem tallPages_inner (m : Mem) : IsInner (tallPages m 1) [(2, intKey 16)] 3 ∧
    IsInner (tallPages m 2) (leafCells 1 15) 25 ∧ IsInner (tallPages m 3) (leafCells 17 17) 43 := by
  refine ⟨?_, leafCells_isInner (v := 1) (n := 15) (by decide), leafCells_isInner (v := 17) (n := 17) (by decide)⟩
  refine innerOf_isInner (by decide) (by decide) fun e he => ?_
  obtain rfl := List.mem_singleton.mp he
  exact ⟨by decide, length_intKey 16⟩

theorem tallPages_reach (hm : Fitting ops m) {r : Nat} (hp : 10 ≤ p) (h44 : p < 44) (h : Reach (tallPages m) p r) : r = p := by
  cases h with
  | refl => rfl
  | step hn _ _ => exact absurd (tallPages_leaf hm hp h44).1 (not_isLeaf hn)

theorem mem_children_leafCells {v n : Nat} (h : IsInner m (leafCells v n) (v + n + 9)) (hq : q ∈ children m) :
    v + 9 ≤ q ∧ q ≤ v + n + 9 := by
  rw [h.children_eq, List.mem_append, List.mem_map, List.mem_singleton] at hq
  rcases hq with ⟨e, he, rfl⟩ | rfl
  · obtain ⟨h1, h2, -⟩ := mem_leafCells he
    exact ⟨h1, by omega⟩
  · exact ⟨by omega, le_refl _⟩

theorem tallPages_siblings (hm : Fitting ops m) : Siblings (tallPages m) 1 0 2 3 := by
  obtain ⟨hP, hL, hR⟩ := tallPages_inner m
  have hchildren : children (tallPages m 1) = [2, 3] := hP.children_eq
  refine ⟨⟨hP.header.inner, hL.header.inner, hR.header.inner⟩, ?_, ?_, ⟨?_, ?_⟩, ?_, by decide, ?_⟩
  · rw [← getElem?_children, hchildren]
    rfl
  · rw [← getElem?_children, hchildren]
    rfl
  · rw [hL.header.count, length_leafCells]
    decide
  · rw [hR.header.count, length_leafCells]
    decide
  · rw [hchildren]
    decide
  · intro q r hq hr
    have hrange : 10 ≤ q ∧ q < 44 := by
      rcases hq with hq | hq | ⟨hq, h2, h3⟩
      · have := mem_children_leafCells (v := 1) (n := 15) hL hq
        omega
      · have := mem_children_leafCells (v := 17) (n := 17) hR hq
        omega
      · rw [hchildren] at hq
        simp only [List.mem_cons, List.not_mem_nil, or_false] at hq
        omega
    obtain rfl := tallPages_reach hm hrange.1 hrange.2 hr
    omega

theorem tallPages_separated (hm : Fitting ops m) : Separated intRank ops .int (tallPages m) 0 34 1 0 2 3 := by
  obtain ⟨hP, hL, hR⟩ := tallPages_inner m
  rw [← List.nil_append [_]] at hP
  refine (separated_iff hP hL hR rfl).mpr ⟨0, rfl, rfl, ?_, ?_⟩
  · rw [intRank_intKey (by decide)]
    exact tallPages_covers hm (v := 1) (n := 15) (by decide) (by decide)
  · rw [intRank_intKey (by decide)]
    exact tallPages_covers hm (v := 17) (n := 17) (by decide) (by decide)

theorem tallPages_laidOut (hm : Fitting ops m) : LeavesLaidOut (tallPages m) := by
  obtain ⟨hP, hL, hR⟩ := tallPages_inner m
  intro p hp
  by_cases h1 : p = 1
  · subst h1
    exact absurd hp (not_isLeaf hP.header.inner)
  by_cases h2 : p = 2
  · subst h2
    exact absurd hp (not_isLeaf hL.header.inner)
  by_cases h3 : p = 3
  · subst h3
    exact absurd hp (not_isLeaf hR.header.inner)
  unfold tallPages
  rw [if_neg h1, if_neg h2, if_neg h3]
  split
  · exact hm.layout
  · exact (intLeaf_layout _).2.1

theorem tallPages_second (m : Mem) : internalNodeChild (tallPages m 3) 1 = some 27 := by
  rw [← getElem?_children, (tallPages_inner m).2.2.children_eq]
  rfl

theorem fitting_intLeaf (ops : WhereOps) : Fitting ops (intLeaf 18) := by
  obtain ⟨hl, hlayout, hn, -⟩ := intLeaf_layout 18
  refine ⟨hl, hlayout, fun i hi => ?_⟩
  obtain rfl : i = 0 := by omega
  rw [leafKey_intLeaf ops (by decide), intRank_intKey (by decide)]
  decide

theorem fitting_noLeaf (ops : WhereOps) : Fitting ops noLeaf := by
  refine ⟨isLeaf_noLeaf, layout_initializeLeafNode _, fun i hi => ?_⟩
  rw [noLeaf, (initializeLeafNode_spec _).1] at hi
  cases hi

/-- The second leaf of the right node has no rows: the three functions do what they have to. -/
theorem rebalances_empty_leaf : Rebalances intRank ieeeOps .int (tallPages noLeaf) 0 34 1 0 2 3 := by
  have hm := fitting_noLeaf ieeeOps
  obtain ⟨-, hL, hR⟩ := tallPages_inner noLeaf
  refine (rebalances_iff intRank (tallPages_siblings hm) (tallPages_laidOut hm) (tallPages_separated hm) ?_ ?_).mpr
    (Or.inr fun q k hq hk => ?_)
  · rw [hL.header.count, length_leafCells]
    decide
  · rw [hR.header.count, length_leafCells]
    decide
  · rw [tallPages_second] at hq
    obtain rfl := Option.some.inj hq
    cases hk with
    | leaf _ hi =>
      rw [show tallPages noLeaf 27 = noLeaf from rfl, noLeaf, (initializeLeafNode_spec _).1] at hi
      cases hi
    | inner hn _ _ => exact not_isLeaf hn isLeaf_noLeaf

/-- The left node has 15 separators, the right one 17, and the second leaf of the right node holds the key 18: after the
borrow from the right the separator in the parent is 18. -/
theorem borrow_takes_the_wrong_separator : Siblings (tallPages (intLeaf 18)) 1 0 2 3 ∧ LeavesLaidOut (tallPages (intLeaf 18)) ∧
    Separated intRank ieeeOps .int (tallPages (intLeaf 18)) 0 34 1 0 2 3 ∧
    ¬ ∃ s' q, internalBorrowFromRight (tallPages (intLeaf 18)) 2 3 1 0 = some s' ∧
      internalNodeChild (tallPages (intLeaf 18) 3) 0 = some q ∧
      Rotated intRank ieeeOps .int (tallPages (intLeaf 18)) s' 0 34 1 0 2 3 q 2 := by
  have hm := fitting_intLeaf ieeeOps
  obtain ⟨-, -, hR⟩ := tallPages_inner (intLeaf 18)
  have hkeys : internalNodeNumKeys (tallPages (intLeaf 18) 3) = 17 := hR.header.count
  refine ⟨tallPages_siblings hm, tallPages_laidOut hm, tallPages_separated hm, ?_⟩
  rw [borrowFromRight_rotated_iff (tallPages_siblings hm) (tallPages_laidOut hm) (tallPages_separated hm) (by omega)]
  rintro (h | h)
  · omega
  · obtain ⟨hl, -, hn, -⟩ := intLeaf_layout 18
    exact h 27 _ (tallPages_second _) (.leaf (i := 0) hl (lt_of_lt_of_eq Nat.one_pos hn.symm))

end Page

end CustomDB
