import CustomDB.Lib.Linked
import CustomDB.Tree.Reads

/-!
# Leaves an insertion leaves alone

Whatever `internal_node_insert` does on its way up, a leaf keeps its cells and its place in the chain: only the new
root and pages just handed out are written as a whole.
-/

namespace CustomDB

namespace Tree

variable {C : Type}

/-- What a page is as a leaf. -/
def Node.leafPart (n : Node C) : NodeType × List C × Nat := (n.nodeType, n.cells, n.nextLeaf)

/-- In `s` the pages `T` are handed out, are not the root, and are the leaves they are in `s₀`. -/
structure Spared (T : Nat → Prop) (s₀ s : Store C) : Prop where
  taken : ∀ q, T q → Taken s q
  root : ¬ T s.rootPageNum
  leaf : ∀ q, T q → (s.node q).leafPart = (s₀.node q).leafPart

variable {T : Nat → Prop} {s₀ s s' : Store C} {p q w : Nat} {f : Node C → Node C}

theorem Taken.getPage (h : Taken s q) (p : Nat) : Taken (s.getPage p) q :=
  ⟨h.1, lt_of_lt_of_le h.2.1 (le_max_left _ _), h.2.2⟩

theorem Taken.modify (h : Taken s q) : Taken (s.modify p f) q := h.getPage p

theorem node_modify_self : (s.modify p f).node p = f (s.node p) := Function.update_self ..

theorem Spared.refl (ht : ∀ q, T q → Taken s q) (hr : ¬ T s.rootPageNum) : Spared T s s := ⟨ht, hr, fun _ _ => rfl⟩

namespace Spared

theorem getPage (h : Spared T s₀ s) (p : Nat) : Spared T s₀ (s.getPage p) :=
  ⟨fun q hq => (h.taken q hq).getPage p, h.root, h.leaf⟩

/-- A store to the fields of an inner node. -/
theorem modify (h : Spared T s₀ s) (hf : (f (s.node p)).leafPart = (s.node p).leafPart) : Spared T s₀ (s.modify p f) := by
  refine ⟨fun q hq => (h.taken q hq).modify, h.root, fun q hq => ?_⟩
  by_cases hqp : q = p
  · subst hqp
    rw [node_modify_self, hf, h.leaf q hq]
  · rw [node_modify_of_ne hqp, h.leaf q hq]

/-- A store to another page. -/
theorem modify_off (h : Spared T s₀ s) (hp : ¬ T p) : Spared T s₀ (s.modify p f) := by
  refine ⟨fun q hq => (h.taken q hq).modify, h.root, fun q hq => ?_⟩
  have hqp : q ≠ p := fun hn => hp (hn ▸ hq)
  rw [node_modify_of_ne hqp, h.leaf q hq]

theorem setParent (h : Spared T s₀ s) (p parent : Nat) : Spared T s₀ (s.setParent p parent) := h.modify rfl

/-- The page handed out is none of them. -/
theorem getUnusedPageNum (h : Spared T s₀ s) (hu : s.getUnusedPageNum = (w, s')) : ¬ T w ∧ Spared T s₀ s' := by
  unfold Store.getUnusedPageNum at hu
  cases hfree : s.freelist with
  | nil =>
    rw [hfree] at hu
    obtain ⟨rfl, rfl⟩ := Prod.mk.inj hu
    exact ⟨fun hw => absurd (h.taken _ hw).2.1 (not_lt.mpr (le_max_left _ _)), h⟩
  | cons p rest =>
    rw [hfree] at hu
    obtain ⟨rfl, rfl⟩ := Prod.mk.inj hu
    have hp : ¬ T p := fun hp => (h.taken p hp).2.2 (hfree ▸ List.mem_cons_self ..)
    refine ⟨hp, fun q hq => ?_, h.root, fun q hq => ?_⟩
    · obtain ⟨hz, hlt, hq⟩ := h.taken q hq
      exact ⟨hz, hlt, fun hm => hq (hfree ▸ List.mem_cons_of_mem _ hm)⟩
    · have hqp : q ≠ p := fun hn => hp (hn ▸ hq)
      show (Function.update s.node p Node.zero q).leafPart = _
      rw [Function.update_of_ne hqp, h.leaf q hq]

/-- A loop whose turns spare the leaves. -/
theorem foldlM {α : Type} {l : List α} {turn : Store C → α → Option (Store C)} (h : Spared T s₀ s)
    (hturn : ∀ t a t', Spared T s₀ t → turn t a = some t' → Spared T s₀ t') (hs : l.foldlM turn s = some s') :
    Spared T s₀ s' := by
  induction l generalizing s with
  | nil =>
    obtain rfl := Option.some.inj hs
    exact h
  | cons a l ih =>
    rw [List.foldlM_cons] at hs
    obtain ⟨t, ht, hs⟩ := Option.bind_eq_some_iff.mp hs
    exact ih (hturn s a t h ht) hs

theorem adoptChildren (h : Spared T s₀ s) (hs : s.adoptChildren p = some s') : Spared T s₀ s' := by
  refine h.foldlM (fun t i t' ht ht' => ?_) hs
  obtain ⟨child, -, ht'⟩ := Option.bind_eq_some_iff.mp ht'
  obtain rfl := Option.some.inj ht'
  exact ht.setParent child p

variable [Cell C]

omit [Cell C] in
theorem copyRoot {left right : Nat} (h : Spared T s₀ s) (hl : ¬ T left) (hr : ¬ T right)
    (hs : s.copyRoot left right = some s') : Spared T s₀ s' := by
  unfold Store.copyRoot at hs
  dsimp only at hs
  have hinit : Spared T s₀ (if (s.node s.rootPageNum).nodeType = .internal then
      (s.modify right Node.initializeInternalNode).modify left Node.initializeInternalNode else s) := by
    split
    · exact (h.modify_off hr).modify_off hl
    · exact h
  generalize (if (s.node s.rootPageNum).nodeType = .internal then
      (s.modify right Node.initializeInternalNode).modify left Node.initializeInternalNode else s) = u at hs hinit
  have hcopy : Spared T s₀ (u.modify left fun _ => { u.node s.rootPageNum with isRoot := false }) := hinit.modify_off hl
  split at hs
  · exact hcopy.adoptChildren hs
  · obtain rfl := Option.some.inj hs
    exact hcopy

theorem rootOver {depth left right : Nat} (h : Spared T s₀ s) (hs : s.rootOver depth left right = some s') :
    Spared T s₀ s' := by
  obtain ⟨lmax, -, hs⟩ := Option.bind_eq_some_iff.mp hs
  obtain rfl := Option.some.inj hs
  have hinit := h.modify_off (f := fun n => { n.initializeInternalNode with
    isRoot := true, numKeys := 1, slots := Function.update n.slots 0 (left, (n.slots 0).2) }) h.root
  exact ((hinit.modify rfl).setParent left _).setParent right _

theorem createNewRoot {depth right : Nat} (h : Spared T s₀ s) (hr : ¬ T right)
    (hs : s.createNewRoot depth right = some s') : Spared T s₀ s' := by
  unfold Store.createNewRoot at hs
  obtain ⟨left, u, hu⟩ : ∃ left u, (s.getPage right).getUnusedPageNum = (left, u) := ⟨_, _, rfl⟩
  dsimp only at hs
  rw [hu] at hs
  obtain ⟨v, hv, hs⟩ := Option.bind_eq_some_iff.mp hs
  obtain ⟨hleft, hu⟩ := (h.getPage right).getUnusedPageNum hu
  exact ((hu.getPage left).copyRoot hleft hr hv).rootOver hs

/-- An insertion into inner nodes that spares the leaves. -/
abbrev Sparing (T : Nat → Prop) (s₀ : Store C) (insert : Store C → Nat → Nat → Option (Store C)) : Prop :=
  ∀ s p child s', Spared T s₀ s → insert s p child = some s' → Spared T s₀ s'

variable {insert : Store C → Nat → Nat → Option (Store C)} {oldPage newPage parentPage childPage depth : Nat}

omit [Cell C] in
theorem moveCells (hins : Sparing T s₀ insert) {k : Nat} (h : Spared T s₀ s)
    (hs : s.moveCells insert oldPage newPage k = some s') : Spared T s₀ s' := by
  induction k generalizing s with
  | zero =>
    obtain rfl := Option.some.inj hs
    exact h
  | succ k ih =>
    obtain ⟨cur, -, hs⟩ := Option.bind_eq_some_iff.mp hs
    obtain ⟨u, hu, hs⟩ := Option.bind_eq_some_iff.mp hs
    exact ih (((hins s newPage cur u h hu).setParent cur newPage).modify rfl) hs

theorem splitPages {v : Store C × Nat × Nat} (h : Spared T s₀ s) (hn : ¬ T newPage)
    (hs : s.splitPages depth oldPage newPage = some v) : Spared T s₀ v.1 := by
  unfold Store.splitPages at hs
  split at hs
  · obtain ⟨u, hu, hs⟩ := Option.bind_eq_some_iff.mp hs
    obtain ⟨old, -, hs⟩ := Option.bind_eq_some_iff.mp hs
    obtain rfl := Option.some.inj hs
    exact h.createNewRoot hn hu
  · obtain rfl := Option.some.inj hs
    exact h.modify_off hn

omit [Cell C] in
theorem moveHalf (hins : Sparing T s₀ insert) (h : Spared T s₀ s)
    (hs : s.moveHalf insert oldPage newPage = some s') : Spared T s₀ s' := by
  obtain ⟨u, hu, hs⟩ := Option.bind_eq_some_iff.mp hs
  obtain ⟨v, hv, hs⟩ := Option.bind_eq_some_iff.mp hs
  obtain ⟨last, -, hs⟩ := Option.bind_eq_some_iff.mp hs
  obtain rfl := Option.some.inj hs
  have hright := ((hins s newPage _ u h hu).setParent (s.node oldPage).rightChild newPage).modify
    (p := oldPage) (f := fun n => { n with rightChild := invalidPageNum }) rfl
  exact (hright.moveCells hins hv).modify rfl

theorem internalNodeSplitAndInsert (hins : Sparing T s₀ insert) (h : Spared T s₀ s)
    (hs : Store.internalNodeSplitAndInsert insert s depth parentPage childPage = some s') : Spared T s₀ s' := by
  unfold Store.internalNodeSplitAndInsert at hs
  obtain ⟨oldMax, -, hs⟩ := Option.bind_eq_some_iff.mp hs
  obtain ⟨cmax, -, hs⟩ := Option.bind_eq_some_iff.mp hs
  obtain ⟨newPage, u, hu⟩ : ∃ newPage u, s.getUnusedPageNum = (newPage, u) := ⟨_, _, rfl⟩
  rw [hu] at hs
  obtain ⟨hnew, hu⟩ := h.getUnusedPageNum hu
  obtain ⟨⟨v, parent, old⟩, hv, hs⟩ := Option.bind_eq_some_iff.mp hs
  obtain ⟨w, hw, hs⟩ := Option.bind_eq_some_iff.mp hs
  obtain ⟨maxAfter, -, hs⟩ := Option.bind_eq_some_iff.mp hs
  obtain ⟨x, hx, hs⟩ := Option.bind_eq_some_iff.mp hs
  obtain ⟨newOldMax, -, hs⟩ := Option.bind_eq_some_iff.mp hs
  have hmoved := (hu.splitPages hnew hv).moveHalf hins hw
  have hput := (hins w _ childPage x hmoved hx).modify
    (p := parent) (f := fun n => n.updateInternalNodeKey oldMax newOldMax) rfl
  split at hs
  · obtain rfl := Option.some.inj hs
    exact hput
  · exact hins _ _ newPage s' hput hs

theorem internalNodeInsert (fuel : Nat) : Sparing T s₀ (Store.internalNodeInsert depth fuel) := by
  induction fuel with
  | zero =>
    intro s p child s' _ hs
    cases hs
  | succ fuel ih =>
    intro s p child s' h hs
    unfold Store.internalNodeInsert at hs
    obtain ⟨cmax, -, hs⟩ := Option.bind_eq_some_iff.mp hs
    have hset := h.setParent child p
    dsimp only at hs
    split at hs
    · exact hset.internalNodeSplitAndInsert ih hs
    split at hs
    · obtain rfl := Option.some.inj hs
      exact hset.modify rfl
    obtain ⟨rcmax, -, hs⟩ := Option.bind_eq_some_iff.mp hs
    split at hs <;> obtain rfl := Option.some.inj hs
    · exact (hset.modify rfl).modify rfl
    · exact (hset.modify rfl).modify rfl

end Spared

/-! ## The leaf itself -/

variable [Cell C] {cursor : Cursor} {row : C} {depth : Nat}

open Store

/-- Where the leaf takes the row, only its cells change. -/
theorem leafNodeInsert_fits (hfit : s.FitsLeaf cursor row) (hs : s.leafNodeInsert depth cursor row = some s') :
    (∀ q, Taken s q → Taken s' q) ∧
      (s'.node cursor.pageNum).leafPart = ((s.node cursor.pageNum).nodeType,
        (s.node cursor.pageNum).cells.insertIdx cursor.cellNum row, (s.node cursor.pageNum).nextLeaf) ∧
      ∀ q, q ≠ cursor.pageNum → s'.node q = s.node q := by
  unfold Store.leafNodeInsert at hs
  dsimp only at hs
  split at hs
  · obtain rfl := Option.some.inj hs
    exact ⟨fun q hq => hq.modify, by rw [node_modify_self]; rfl, fun q hq => node_modify_of_ne hq⟩
  next hroom =>
    have hfit : (s.node cursor.pageNum).leafNodeDefragment.HasRoom (Cell.size row) := hfit.resolve_left hroom
    rw [node_modify_self, if_pos hfit] at hs
    obtain rfl := Option.some.inj hs
    refine ⟨fun q hq => hq.modify.modify, ?_, fun q hq => ?_⟩
    · rw [node_modify_self, node_modify_self]
      rfl
    · rw [node_modify_of_ne hq, node_modify_of_ne hq]

/-- The cells of a full leaf with the new one. -/
abbrev Store.crowded (s : Store C) (cursor : Cursor) (row : C) : List C :=
  (s.node cursor.pageNum).cells.insertIdx cursor.cellNum row

/-- What the split of the leaf leaves of the pages `T`: its upper half is on the new page `w` behind it. -/
structure Parted (T : Nat → Prop) (s s' : Store C) (cursor : Cursor) (row : C) (w : Nat) : Prop where
  taken : ∀ q, T q → Taken s' q
  rest : ∀ q, T q → q ≠ cursor.pageNum → (s'.node q).leafPart = (s.node q).leafPart
  new : ¬ T w
  upper : T cursor.pageNum → Taken s' w
  left : T cursor.pageNum → (s'.node cursor.pageNum).leafPart =
    (.leaf, (s.crowded cursor row).take ((s.crowded cursor row).length / 2), w)
  right : T cursor.pageNum → (s'.node w).leafPart =
    (.leaf, (s.crowded cursor row).drop ((s.crowded cursor row).length / 2), (s.node cursor.pageNum).nextLeaf)

omit [Cell C] in
/-- Spared pages stay as the split left them. -/
theorem Parted.spared {u : Store C} (h : Parted T s u cursor row w)
    (hs : Spared (fun q => T q ∨ T cursor.pageNum ∧ q = w) u s') : Parted T s s' cursor row w := by
  have hpage : T cursor.pageNum → (s'.node cursor.pageNum).leafPart = (u.node cursor.pageNum).leafPart :=
    fun hp => hs.leaf _ (Or.inl hp)
  refine ⟨fun q hq => hs.taken q (Or.inl hq), fun q hq hne => ?_, h.new, fun hp => hs.taken w (Or.inr ⟨hp, rfl⟩),
    fun hp => ?_, fun hp => ?_⟩
  · rw [hs.leaf q (Or.inl hq), h.rest q hq hne]
  · rw [hpage hp, h.left hp]
  · rw [hs.leaf w (Or.inr ⟨hp, rfl⟩), h.right hp]

/-- The halves right after the cells are divided. -/
theorem divideCells_parted {s₁ u : Store C} (hfresh : Fresh s w s₁ 0) (ht : ∀ q, T q → Taken s q)
    (hu : s₁.divideCells cursor.pageNum w cursor.cellNum row = some u) :
    Parted T s u cursor row w ∧ u.rootPageNum = s.rootPageNum ∧
      (T cursor.pageNum → (u.node cursor.pageNum).isRoot = (s.node cursor.pageNum).isRoot) := by
  have hnew : ¬ T w := fun hw => hfresh.new (ht w hw)
  have hne : ∀ q, T q → q ≠ w := fun q hq hn => hnew (hn ▸ hq)
  unfold Store.divideCells at hu
  dsimp only at hu
  split at hu
  · cases hu
  obtain rfl := Option.some.inj hu
  refine ⟨⟨fun q hq => ?_, fun q hq hqp => ?_, hnew, fun hp => ?_, fun hp => ?_, fun hp => ?_⟩, hfresh.root,
    fun hp => ?_⟩
  · have hw := hfresh.keeps q (ht q hq)
    exact Taken.modify (Taken.modify hw)
  · rw [node_modify_of_ne (hne q hq), node_modify_of_ne hqp, node_modify_of_ne (hne q hq), hfresh.node q (hne q hq)]
  · exact Taken.modify (Taken.modify hfresh.taken)
  · have hpw := hne _ hp
    rw [node_modify_of_ne hpw, node_modify_self, node_modify_of_ne hpw, hfresh.node _ hpw]
    rfl
  · have hpw := hne _ hp
    rw [node_modify_self, node_modify_of_ne hpw.symm, node_modify_self, node_modify_of_ne hpw, hfresh.node _ hpw]
    rfl
  · have hpw := hne _ hp
    rw [node_modify_of_ne hpw, node_modify_self, node_modify_of_ne hpw, hfresh.node _ hpw]

/-- Where the leaf is not the root, the way up leaves the halves and the other leaves alone. -/
theorem leafNodeSplitAndInsert_parted (ht : ∀ q, T q → Taken s q) (hroot : ¬ T s.rootPageNum) (ha : Allocates s 1)
    (hrt : Taken s s.rootPageNum) (hflag : T cursor.pageNum → (s.node cursor.pageNum).isRoot = false)
    (hs : s.leafNodeSplitAndInsert depth cursor row = some s') : ∃ w, Parted T s s' cursor row w := by
  have hfresh := getUnusedPageNum_fresh ha
  unfold Store.leafNodeSplitAndInsert at hs
  obtain ⟨oldMax, -, hs⟩ := Option.bind_eq_some_iff.mp hs
  obtain ⟨w, s₁, hget⟩ : ∃ w s₁, s.getUnusedPageNum = (w, s₁) := ⟨_, _, rfl⟩
  rw [hget] at hs hfresh
  obtain ⟨u, hu, hs⟩ := Option.bind_eq_some_iff.mp hs
  obtain ⟨hparted, hur, hur'⟩ := divideCells_parted hfresh ht hu
  refine ⟨w, hparted.spared ?_⟩
  have hspared : Spared (fun q => T q ∨ T cursor.pageNum ∧ q = w) u u := by
    refine Spared.refl (fun q hq => ?_) ?_
    · rcases hq with hq | ⟨hp, rfl⟩
      · exact hparted.taken q hq
      · exact hparted.upper hp
    · rw [hur]
      rintro (hq | ⟨-, hq⟩)
      · exact hroot hq
      · exact hfresh.new (hq ▸ hrt)
  split at hs
  next hr =>
    refine hspared.createNewRoot ?_ hs
    rintro (hw | ⟨hp, -⟩)
    · exact hparted.new hw
    · rw [hur' hp, hflag hp] at hr
      cases hr
  next =>
    obtain ⟨newOldMax, -, hs⟩ := Option.bind_eq_some_iff.mp hs
    exact Spared.internalNodeInsert depth _ _ _ _ (hspared.modify rfl) hs

end Tree

end CustomDB
