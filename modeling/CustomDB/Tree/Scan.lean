import CustomDB.Tree.Delete
import CustomDB.Tree.Spared

/-!
# A scan and the writes under it

A cursor is a page and a cell index, and `cursor_advance` goes from cell to cell along the leaves. What it has still
to come to are the cells from there on as the tree is by then; `Standing` says which these are.
-/

namespace CustomDB

open Lib

namespace Tree

variable {C R : Type}

namespace Store

/-- `btree_start` below page `p`, in at most `depth` levels. -/
def btreeStart (s : Store C) : Nat → Nat → Option Cursor
  | 0, _ => none
  | depth + 1, p =>
    match (s.node p).nodeType with
    | .leaf => some ⟨p, 0, (s.node p).cells.isEmpty⟩
    | .internal => do
      let child ← (s.node p).internalNodeChild 0
      btreeStart s depth child

/-- `cursor_advance`. -/
def cursorAdvance (s : Store C) (cur : Cursor) : Cursor :=
  if (s.node cur.pageNum).cells.length ≤ cur.cellNum + 1 then
    if (s.node cur.pageNum).nextLeaf = 0 then ⟨cur.pageNum, cur.cellNum + 1, true⟩
    else ⟨(s.node cur.pageNum).nextLeaf, 0, cur.endOfTable⟩
  else ⟨cur.pageNum, cur.cellNum + 1, cur.endOfTable⟩

/-- The cells from the cursor on, `l` being the leaves behind its own. -/
def cellsFrom (s : Store C) (cur : Cursor) (l : List Nat) : List C :=
  (s.node cur.pageNum).cells.drop cur.cellNum ++ l.flatMap fun q => (s.node q).cells

end Store

/-- The cursor is on a cell, and the leaves `l` come behind it. -/
structure Ahead (s : Store C) (cur : Cursor) (l : List Nat) : Prop where
  chain : Linked.Chain (fun q => (s.node q).nextLeaf) (fun q => q = 0) (s.node cur.pageNum).nextLeaf l
  onCell : cur.cellNum < (s.node cur.pageNum).cells.length
  filled : ∀ q ∈ l, (s.node q).cells ≠ []
  leaf : ∀ q ∈ cur.pageNum :: l, (s.node q).nodeType = .leaf
  taken : ∀ q ∈ cur.pageNum :: l, Taken s q

/-- The cursor has the cells `cs` before it. -/
def Standing (s : Store C) (cur : Cursor) (cs : List C) : Prop :=
  cur.endOfTable = true ∧ cs = [] ∨ cur.endOfTable = false ∧ ∃ l, Ahead s cur l ∧ cs = s.cellsFrom cur l

variable {s s' : Store C} {cur : Cursor} {cs cs' : List C} {l : List Nat}

theorem Standing.unique (h : Standing s cur cs) (h' : Standing s cur cs') : cs = cs' := by
  rcases h with ⟨he, rfl⟩ | ⟨he, l, hl, rfl⟩ <;> rcases h' with ⟨he', rfl⟩ | ⟨he', l', hl', rfl⟩
  · rfl
  · exact absurd (he.symm.trans he') (by decide)
  · exact absurd (he'.symm.trans he) (by decide)
  · rw [hl.chain.unique hl'.chain]

/-- A cursor that is not at the end is on the first cell, and the advance leaves the others. -/
theorem Standing.advance (h : Standing s cur cs) (he : cur.endOfTable = false) :
    ∃ c rest, cs = c :: rest ∧ (s.node cur.pageNum).cells[cur.cellNum]? = some c ∧
      Standing s (s.cursorAdvance cur) rest := by
  rcases h with ⟨hn, -⟩ | ⟨-, l, hl, rfl⟩
  · exact absurd (hn.symm.trans he) (by decide)
  have hon := hl.onCell
  refine ⟨(s.node cur.pageNum).cells[cur.cellNum],
    (s.node cur.pageNum).cells.drop (cur.cellNum + 1) ++ l.flatMap fun q => (s.node q).cells, ?_,
    List.getElem?_eq_getElem hon, ?_⟩
  · rw [Store.cellsFrom, List.drop_eq_getElem_cons hon, List.cons_append]
  unfold Store.cursorAdvance
  by_cases hend : (s.node cur.pageNum).cells.length ≤ cur.cellNum + 1
  · rw [if_pos hend, List.drop_of_length_le hend, List.nil_append]
    by_cases hz : (s.node cur.pageNum).nextLeaf = 0
    · rw [if_pos hz]
      cases l with
      | nil => exact Or.inl ⟨rfl, rfl⟩
      | cons p l => exact absurd hz hl.chain.2.1
    · rw [if_neg hz]
      obtain ⟨m, rfl, hm⟩ := hl.chain.head hz
      refine Or.inr ⟨he, m, ⟨hm, List.length_pos_iff.mpr (hl.filled _ List.mem_cons_self), fun q hq => ?_,
        fun q hq => hl.leaf q (List.mem_cons_of_mem _ hq), fun q hq => hl.taken q (List.mem_cons_of_mem _ hq)⟩, ?_⟩
      · exact hl.filled q (List.mem_cons_of_mem _ hq)
      · rw [Store.cellsFrom, List.drop_zero, List.flatMap_cons]
  · rw [if_neg hend]
    exact Or.inr ⟨he, l, ⟨hl.chain, not_le.mp hend, hl.filled, hl.leaf, hl.taken⟩, rfl⟩

/-! ## The leaves after a write -/

variable {shows : C → Option R} {new : Nat → List C}

/-- The leaves ahead have the cells `new` now, in the same chain. -/
theorem Ahead.rewritten (h : Ahead s cur l) (ht : ∀ q, Taken s q → Taken s' q)
    (hpart : ∀ q ∈ cur.pageNum :: l, (s'.node q).leafPart = (.leaf, new q, (s.node q).nextLeaf))
    (hcell : cur.cellNum < (new cur.pageNum).length) (hfilled : ∀ q ∈ l, new q ≠ []) :
    Ahead s' cur l ∧ s'.cellsFrom cur l = (new cur.pageNum).drop cur.cellNum ++ l.flatMap new := by
  have htype : ∀ q ∈ cur.pageNum :: l, (s'.node q).nodeType = .leaf := fun q hq => congrArg Prod.fst (hpart q hq)
  have hcells : ∀ q ∈ cur.pageNum :: l, (s'.node q).cells = new q := fun q hq => congrArg (fun x => x.2.1) (hpart q hq)
  have hnext : ∀ q ∈ cur.pageNum :: l, (s'.node q).nextLeaf = (s.node q).nextLeaf :=
    fun q hq => congrArg (fun x => x.2.2) (hpart q hq)
  have hl : ∀ q ∈ l, q ∈ cur.pageNum :: l := fun q hq => List.mem_cons_of_mem _ hq
  have hown := hcells _ List.mem_cons_self
  refine ⟨⟨?_, by rwa [hown], fun q hq => by rw [hcells q (hl q hq)]; exact hfilled q hq, htype,
    fun q hq => ht q (h.taken q hq)⟩, ?_⟩
  · rw [hnext _ List.mem_cons_self]
    exact h.chain.congr fun q hq => hnext q (hl q hq)
  · rw [Store.cellsFrom, hown]
    exact congrArg _ (List.flatMap_congr fun q hq => hcells q (hl q hq))

/-- What is shown of the cells ahead depends on what is shown of each leaf. -/
theorem shown_append (hq : ((new cur.pageNum).drop cur.cellNum).filterMap shows =
      ((s.node cur.pageNum).cells.drop cur.cellNum).filterMap shows)
    (hl : ∀ q ∈ l, (new q).filterMap shows = (s.node q).cells.filterMap shows) :
    ((new cur.pageNum).drop cur.cellNum ++ l.flatMap new).filterMap shows = (s.cellsFrom cur l).filterMap shows := by
  rw [Store.cellsFrom, List.filterMap_append, List.filterMap_append, hq, List.filterMap_flatMap, List.filterMap_flatMap]
  exact congrArg _ (List.flatMap_congr hl)

/-! ## A new cell among those shown -/

/-- A cell that is not shown changes nothing that is shown. -/
theorem shown_insertIdx {row : C} (hrow : shows row = none) (cells : List C) (i : Nat) :
    (cells.insertIdx i row).filterMap shows = cells.filterMap shows := by
  induction cells generalizing i with
  | nil =>
    cases i with
    | zero => rw [List.insertIdx_zero, List.filterMap_cons_none hrow]
    | succ i => rfl
  | cons c cells ih =>
    cases i with
    | zero => rw [List.insertIdx_zero, List.filterMap_cons_none hrow]
    | succ i =>
      rw [List.insertIdx_succ_cons, List.filterMap_cons, List.filterMap_cons, ih i]

/-- The same from cell `j` on. Before `j` it moves another cell to `j`. -/
theorem shown_drop_insertIdx {row : C} (hrow : shows row = none) (cells : List C) (i j : Nat)
    (hbefore : i < j → ∀ c, cells[j - 1]? = some c → shows c = none) :
    ((cells.insertIdx i row).drop j).filterMap shows = (cells.drop j).filterMap shows := by
  induction cells generalizing i j with
  | nil =>
    cases i with
    | zero =>
      cases j with
      | zero => exact shown_insertIdx hrow [] 0
      | succ j => rw [List.insertIdx_zero, List.drop_succ_cons, List.drop_nil, List.drop_nil]
    | succ i => rfl
  | cons c cells ih =>
    cases j with
    | zero => exact shown_insertIdx hrow (c :: cells) i
    | succ j =>
      cases i with
      | zero =>
        -- the cell that was before `j` is at `j` now
        rw [List.insertIdx_zero, List.drop_succ_cons]
        have hmoved := hbefore (Nat.succ_pos j)
        rw [Nat.add_sub_cancel] at hmoved
        by_cases hj : j < (c :: cells).length
        · rw [List.drop_eq_getElem_cons hj, List.filterMap_cons_none (hmoved _ (List.getElem?_eq_getElem hj))]
        · have hj := not_lt.mp hj
          rw [List.drop_of_length_le hj, List.drop_of_length_le (le_trans hj (Nat.le_succ j))]
      | succ i =>
        rw [List.insertIdx_succ_cons, List.drop_succ_cons, List.drop_succ_cons]
        refine ih i j fun hij d hd => ?_
        refine hbefore (Nat.succ_lt_succ hij) d ?_
        obtain ⟨j, rfl⟩ := Nat.exists_eq_succ_of_ne_zero (Nat.ne_of_gt (Nat.zero_lt_of_lt hij))
        exact hd

/-- A cell in the place of one that is shown as the same. -/
theorem shown_drop_set {row c : C} (cells : List C) (i j : Nat) (hc : cells[i]? = some c) (hrow : shows row = shows c) :
    ((cells.set i row).drop j).filterMap shows = (cells.drop j).filterMap shows := by
  obtain ⟨hi, rfl⟩ := List.getElem?_eq_some_iff.mp hc
  have hmap : (cells.set i row).map shows = cells.map shows := by
    rw [List.map_set, hrow, ← List.map_set, List.set_getElem_self]
  have hdrop := congrArg (fun l => (l.drop j).filterMap id) hmap
  rwa [← List.map_drop, ← List.map_drop, List.filterMap_map, List.filterMap_map, Function.id_comp] at hdrop

/-! ## Insertion -/

variable [Cell C] {cursor : Cursor} {row : C} {depth : Nat}

theorem leafNodeFind_le (n : Node C) (key : Int) : n.leafNodeFind key ≤ n.cells.length :=
  Bisect.lowerBound_le _ (Nat.zero_le _)

theorem leafNodeNavigate_le (s : Store C) (p : Nat) (key : Int) :
    (s.leafNodeNavigate p key).cellNum ≤ (s.node (s.leafNodeNavigate p key).pageNum).cells.length := by
  unfold Store.leafNodeNavigate
  dsimp only
  split
  · split
    · exact leafNodeFind_le _ key
    · exact Nat.zero_le _
  · exact leafNodeFind_le _ key

/-- `btree_find` does not leave the leaf. -/
theorem btreeFind_le {key : Int} (h : s.btreeFind depth key = some cursor) :
    cursor.cellNum ≤ (s.node cursor.pageNum).cells.length := by
  have hinner : ∀ depth p, s.internalNodeFind depth p key = some cursor →
      cursor.cellNum ≤ (s.node cursor.pageNum).cells.length := by
    intro depth
    induction depth with
    | zero =>
      intro p h
      cases h
    | succ depth ih =>
      intro p h
      obtain ⟨child, -, h⟩ := Option.bind_eq_some_iff.mp h
      split at h
      · obtain rfl := Option.some.inj h
        exact leafNodeNavigate_le s child key
      · exact ih child h
  unfold Store.btreeFind at h
  split at h
  · obtain rfl := Option.some.inj h
    exact leafNodeNavigate_le s _ key
  · exact hinner depth _ h

/-- The full leaf the row belongs on is not the root, and it is not split before the cell of the cursor `cur`. -/
structure SplitsAside (s : Store C) (cur cursor : Cursor) (row : C) : Prop where
  inner : (s.node s.rootPageNum).nodeType = .internal
  notRoot : (s.node cursor.pageNum).isRoot = false
  rootTaken : Taken s s.rootPageNum
  taken : Taken s cursor.pageNum
  allocates : Allocates s 1
  half : cursor.pageNum = cur.pageNum → cur.cellNum < (s.crowded cursor row).length / 2

/-- The row may be stored at `cursor` under a scan that is at `cur`: it is not shown, it moves nothing to `cur` that
is, and a split leaves `cur` where it is. -/
structure InsertsAside (shows : C → Option R) (s : Store C) (cur cursor : Cursor) (row : C) : Prop where
  unseen : shows row = none
  before : cursor.pageNum = cur.pageNum → cursor.cellNum < cur.cellNum →
    ∀ c, (s.node cur.pageNum).cells[cur.cellNum - 1]? = some c → shows c = none
  split : ¬ s.FitsLeaf cursor row → SplitsAside s cur cursor row

/-- The cells of each leaf with the row put in. -/
def Store.withRow (s : Store C) (cursor : Cursor) (row : C) (q : Nat) : List C :=
  if q = cursor.pageNum then s.crowded cursor row else (s.node q).cells

theorem InsertsAside.shown (h : InsertsAside shows s cur cursor row) (l : List Nat) :
    ((s.withRow cursor row cur.pageNum).drop cur.cellNum ++ l.flatMap (s.withRow cursor row)).filterMap shows =
      (s.cellsFrom cur l).filterMap shows := by
  refine shown_append ?_ fun q _ => ?_
  · unfold Store.withRow
    split
    next hp =>
      rw [Store.crowded, ← hp]
      refine shown_drop_insertIdx h.unseen _ _ _ fun hlt => ?_
      exact h.before hp.symm hlt
    · rfl
  · unfold Store.withRow
    split
    next hq =>
      rw [Store.crowded, hq]
      exact shown_insertIdx h.unseen _ _
    · rfl

omit [Cell C] in
theorem crowded_length (hcell : cursor.cellNum ≤ (s.node cursor.pageNum).cells.length) :
    (s.crowded cursor row).length = (s.node cursor.pageNum).cells.length + 1 :=
  List.length_insertIdx_of_le_length hcell _

/-- Where the leaf takes the row, the leaves ahead are the same. -/
theorem Ahead.insert_fits (h : Ahead s cur l) (hcell : cursor.cellNum ≤ (s.node cursor.pageNum).cells.length)
    (hfit : s.FitsLeaf cursor row) (hs : s.leafNodeInsert depth cursor row = some s') :
    Ahead s' cur l ∧ s'.cellsFrom cur l =
      (s.withRow cursor row cur.pageNum).drop cur.cellNum ++ l.flatMap (s.withRow cursor row) := by
  obtain ⟨ht, hown, hother⟩ := leafNodeInsert_fits hfit hs
  have hlen : ∀ q, (s.node q).cells.length ≤ (s.withRow cursor row q).length := by
    intro q
    unfold Store.withRow
    split
    next hq =>
      rw [crowded_length hcell, hq]
      exact Nat.le_succ _
    · exact le_rfl
  refine h.rewritten ht (fun q hq => ?_) (lt_of_lt_of_le h.onCell (hlen _)) fun q hq => ?_
  · unfold Store.withRow
    by_cases hqp : q = cursor.pageNum
    · subst hqp
      rw [if_pos rfl, hown, h.leaf _ hq]
    · rw [if_neg hqp, hother q hqp, Node.leafPart, h.leaf q hq]
  · have hpos := List.length_pos_iff.mpr (h.filled q hq)
    exact List.length_pos_iff.mp (lt_of_lt_of_le hpos (hlen q))

/-- The leaves ahead with the new one. -/
def splitAhead (cur cursor : Cursor) (w : Nat) (l : List Nat) : List Nat :=
  (if cur.pageNum = cursor.pageNum then [w] else []) ++ l.flatMap fun q => if q = cursor.pageNum then [cursor.pageNum, w] else [q]

theorem mem_splitAhead {w q : Nat} (hq : q ∈ cur.pageNum :: splitAhead cur cursor w l) :
    q ∈ cur.pageNum :: l ∨ cursor.pageNum ∈ cur.pageNum :: l ∧ q = w := by
  unfold splitAhead at hq
  rcases List.mem_cons.mp hq with rfl | hq
  · exact Or.inl List.mem_cons_self
  rcases List.mem_append.mp hq with hq | hq
  · split at hq
    next hp =>
      obtain rfl := List.mem_singleton.mp hq
      exact Or.inr ⟨hp ▸ List.mem_cons_self, rfl⟩
    · cases hq
  obtain ⟨x, hx, hq⟩ := List.mem_flatMap.mp hq
  split at hq
  next hp =>
    subst hp
    rcases List.mem_cons.mp hq with rfl | hq
    · exact Or.inl (List.mem_cons_of_mem _ hx)
    · exact Or.inr ⟨List.mem_cons_of_mem _ hx, List.mem_singleton.mp hq⟩
  next =>
    obtain rfl := List.mem_singleton.mp hq
    exact Or.inl (List.mem_cons_of_mem _ hx)

section Split

variable {w : Nat}

omit [Cell C] in
/-- The halves of the leaf have the cells between them. -/
theorem Parted.withRow {T : Nat → Prop} (h : Parted T s s' cursor row w) {q : Nat} (hq : T q) :
    ((if q = cursor.pageNum then [cursor.pageNum, w] else [q]).flatMap fun q => (s'.node q).cells) =
      s.withRow cursor row q := by
  unfold Store.withRow
  by_cases hp : q = cursor.pageNum
  · subst hp
    have hleft : (s'.node cursor.pageNum).cells = _ := congrArg (fun x => x.2.1) (h.left hq)
    have hright : (s'.node w).cells = _ := congrArg (fun x => x.2.1) (h.right hq)
    rw [if_pos rfl, if_pos rfl, List.flatMap_cons, List.flatMap_singleton, hleft, hright]
    exact List.take_append_drop ..
  · rw [if_neg hp, if_neg hp, List.flatMap_singleton]
    exact congrArg (fun x => x.2.1) (h.rest q hq hp)

omit [Cell C] in
theorem Ahead.parted_chain (h : Ahead s cur l) (hs : Parted (· ∈ cur.pageNum :: l) s s' cursor row w) :
    Linked.Chain (fun q => (s'.node q).nextLeaf) (fun q => q = 0) (s'.node cur.pageNum).nextLeaf
      (splitAhead cur cursor w l) := by
  have hleft : cursor.pageNum ∈ cur.pageNum :: l → (s'.node cursor.pageNum).nextLeaf = w :=
    fun hp => congrArg (fun x => x.2.2) (hs.left hp)
  have hright : cursor.pageNum ∈ cur.pageNum :: l → (s'.node w).nextLeaf = (s.node cursor.pageNum).nextLeaf :=
    fun hp => congrArg (fun x => x.2.2) (hs.right hp)
  have hrest : ∀ q ∈ cur.pageNum :: l, q ≠ cursor.pageNum → (s'.node q).nextLeaf = (s.node q).nextLeaf :=
    fun q hq hne => congrArg (fun x => x.2.2) (hs.rest q hq hne)
  have hl : ∀ q ∈ l, q ∈ cur.pageNum :: l := fun q hq => List.mem_cons_of_mem _ hq
  have hbehind : Linked.Chain (fun q => (s'.node q).nextLeaf) (fun q => q = 0) (s.node cur.pageNum).nextLeaf
      (l.flatMap fun q => if q = cursor.pageNum then [cursor.pageNum, w] else [q]) :=
    h.chain.splice (fun hp => (hs.upper (hl _ hp)).1) (fun hp => hleft (hl _ hp)) (fun hp => hright (hl _ hp))
      fun q hq hne => hrest q (hl q hq) hne
  unfold splitAhead
  by_cases hp : cur.pageNum = cursor.pageNum
  · have hmem : cursor.pageNum ∈ cur.pageNum :: l := hp ▸ List.mem_cons_self
    have hown : (s'.node cur.pageNum).nextLeaf = w := by
      rw [hp]
      exact hleft hmem
    have hnew : (s'.node w).nextLeaf = (s.node cur.pageNum).nextLeaf := by
      rw [hp]
      exact hright hmem
    rw [if_pos hp, hown]
    refine ⟨rfl, (hs.upper hmem).1, ?_⟩
    show Linked.Chain _ _ (s'.node w).nextLeaf _
    rw [hnew]
    exact hbehind
  · rw [if_neg hp, hrest _ List.mem_cons_self hp]
    exact hbehind

omit [Cell C] in
/-- Where the leaf is split, the new leaf comes between. -/
theorem Ahead.insert_parted (h : Ahead s cur l) (hs : Parted (· ∈ cur.pageNum :: l) s s' cursor row w)
    (hcell : cursor.cellNum ≤ (s.node cursor.pageNum).cells.length)
    (hhalf : cursor.pageNum = cur.pageNum → cur.cellNum < (s.crowded cursor row).length / 2) :
    Ahead s' cur (splitAhead cur cursor w l) ∧ s'.cellsFrom cur (splitAhead cur cursor w l) =
      (s.withRow cursor row cur.pageNum).drop cur.cellNum ++ l.flatMap (s.withRow cursor row) := by
  have hlen : (s.crowded cursor row).length = (s.node cursor.pageNum).cells.length + 1 := crowded_length hcell
  have hleft : cursor.pageNum ∈ cur.pageNum :: l → (s'.node cursor.pageNum).cells =
      (s.crowded cursor row).take ((s.crowded cursor row).length / 2) := fun hp => congrArg (fun x => x.2.1) (hs.left hp)
  have hright : cursor.pageNum ∈ cur.pageNum :: l → (s'.node w).cells =
      (s.crowded cursor row).drop ((s.crowded cursor row).length / 2) := fun hp => congrArg (fun x => x.2.1) (hs.right hp)
  have hrest : ∀ q ∈ cur.pageNum :: l, q ≠ cursor.pageNum → (s'.node q).cells = (s.node q).cells :=
    fun q hq hne => congrArg (fun x => x.2.1) (hs.rest q hq hne)
  have hcur : cur.pageNum ∈ cur.pageNum :: l := List.mem_cons_self
  -- a leaf ahead has a cell, so that both halves have one
  have hpos : ∀ q ∈ cur.pageNum :: l, 0 < (s.node q).cells.length := by
    intro q hq
    rcases List.mem_cons.mp hq with rfl | hq
    · exact Nat.zero_lt_of_lt h.onCell
    · exact List.length_pos_iff.mpr (h.filled q hq)
  have hfilled : ∀ q ∈ cur.pageNum :: splitAhead cur cursor w l, (s'.node q).cells ≠ [] := by
    intro q hq
    refine List.length_pos_iff.mp ?_
    rcases mem_splitAhead hq with hq | ⟨hp, rfl⟩
    · by_cases hqp : q = cursor.pageNum
      · subst hqp
        have := hpos _ hq
        rw [hleft hq, List.length_take, hlen]
        omega
      · rw [hrest q hq hqp]
        exact hpos q hq
    · have := hpos _ hp
      rw [hright hp, List.length_drop, hlen]
      omega
  refine ⟨⟨h.parted_chain hs, ?_, fun q hq => hfilled q (List.mem_cons_of_mem _ hq), fun q hq => ?_, fun q hq => ?_⟩, ?_⟩
  · by_cases hp : cur.pageNum = cursor.pageNum
    · have hlt := hhalf hp.symm
      rw [hp, hleft (hp ▸ hcur), List.length_take]
      omega
    · rw [hrest _ hcur hp]
      exact h.onCell
  · rcases mem_splitAhead hq with hq | ⟨hp, rfl⟩
    · by_cases hqp : q = cursor.pageNum
      · subst hqp
        exact congrArg Prod.fst (hs.left hq)
      · exact (congrArg Prod.fst (hs.rest q hq hqp)).trans (h.leaf q hq)
    · exact congrArg Prod.fst (hs.right hp)
  · rcases mem_splitAhead hq with hq | ⟨hp, rfl⟩
    · exact hs.taken q hq
    · exact hs.upper hp
  · have hrows : (l.flatMap fun q => if q = cursor.pageNum then [cursor.pageNum, w] else [q]).flatMap
        (fun q => (s'.node q).cells) = l.flatMap (s.withRow cursor row) := by
      rw [List.flatMap_assoc]
      exact List.flatMap_congr fun q hq => hs.withRow (List.mem_cons_of_mem _ hq)
    have hown := hs.withRow hcur
    unfold Store.cellsFrom splitAhead
    rw [List.flatMap_append, hrows, ← List.append_assoc, ← hown]
    refine congrArg (· ++ _) ?_
    by_cases hp : cur.pageNum = cursor.pageNum
    · have hlt := hhalf hp.symm
      have hle : cur.cellNum ≤ (s'.node cur.pageNum).cells.length := by
        rw [hp, hleft (hp ▸ hcur), List.length_take]
        omega
      rw [if_pos hp, if_pos hp, ← hp]
      exact (List.drop_append_of_le_length hle).symm
    · rw [if_neg hp, if_neg hp, List.flatMap_nil, List.flatMap_singleton, List.append_nil]

/-- A split after `leaf_node_defragment` is one before it. -/
theorem Parted.of_defragment {T : Nat → Prop}
    (h : Parted T (s.modify cursor.pageNum Node.leafNodeDefragment) s' cursor row w) : Parted T s s' cursor row w := by
  have hnode : ∀ q, ((s.modify cursor.pageNum Node.leafNodeDefragment).node q).leafPart = (s.node q).leafPart := by
    intro q
    by_cases hq : q = cursor.pageNum
    · subst hq
      rw [node_modify_self]
      rfl
    · rw [node_modify_of_ne hq]
  have hcells : (s.modify cursor.pageNum Node.leafNodeDefragment).crowded cursor row = s.crowded cursor row :=
    congrArg (fun x => x.2.1.insertIdx cursor.cellNum row) (hnode cursor.pageNum)
  have hnext : ((s.modify cursor.pageNum Node.leafNodeDefragment).node cursor.pageNum).nextLeaf =
      (s.node cursor.pageNum).nextLeaf := congrArg (fun x => x.2.2) (hnode cursor.pageNum)
  have hleft := h.left
  have hright := h.right
  rw [hcells] at hleft hright
  rw [hnext] at hright
  exact ⟨h.taken, fun q hq hne => (h.rest q hq hne).trans (hnode q), h.new, h.upper, hleft, hright⟩

/-- The split of a full leaf under a scan. -/
theorem Ahead.split (h : Ahead s cur l) (hfit : ¬ s.FitsLeaf cursor row) (ha : SplitsAside s cur cursor row)
    (hs : s.leafNodeInsert depth cursor row = some s') :
    ∃ w, Parted (· ∈ cur.pageNum :: l) s s' cursor row w := by
  obtain ⟨hroom, hroom'⟩ := not_or.mp hfit
  unfold Store.leafNodeInsert at hs
  dsimp only at hs
  rw [if_neg hroom, node_modify_self, if_neg hroom'] at hs
  have halloc : Allocates (s.modify cursor.pageNum Node.leafNodeDefragment) 1 := by
    rw [modify_of_taken ha.taken]
    exact ha.allocates.put
  have hroot : ¬ s.rootPageNum ∈ cur.pageNum :: l := fun hm => by
    have htype := ha.inner
    rw [h.leaf _ hm] at htype
    cases htype
  obtain ⟨w, hw⟩ := leafNodeSplitAndInsert_parted (T := (· ∈ cur.pageNum :: l)) (fun q hq => (h.taken q hq).modify) hroot
    halloc ha.rootTaken.modify (fun _ => by rw [node_modify_self]; exact ha.notRoot) hs
  exact ⟨w, hw.of_defragment⟩

end Split

/-- A row stored aside leaves the rows shown ahead as they are. -/
theorem Standing.insert {key : Int} (h : Standing s cur cs) (hf : s.btreeFind depth key = some cursor)
    (ha : cur.endOfTable = false → InsertsAside shows s cur cursor row)
    (hs : s.leafNodeInsert depth cursor row = some s') :
    ∃ cs', Standing s' cur cs' ∧ cs'.filterMap shows = cs.filterMap shows := by
  rcases h with ⟨he, rfl⟩ | ⟨he, l, hl, rfl⟩
  · exact ⟨[], Or.inl ⟨he, rfl⟩, rfl⟩
  have ha := ha he
  have hcell := btreeFind_le hf
  by_cases hfit : s.FitsLeaf cursor row
  · obtain ⟨hahead, hcells⟩ := hl.insert_fits hcell hfit hs
    exact ⟨_, Or.inr ⟨he, l, hahead, rfl⟩, by rw [hcells, ha.shown]⟩
  · obtain ⟨w, hw⟩ := hl.split hfit (ha.split hfit) hs
    obtain ⟨hahead, hcells⟩ := hl.insert_parted hw hcell (ha.split hfit).half
    exact ⟨_, Or.inr ⟨he, _, hahead, rfl⟩, by rw [hcells, ha.shown]⟩

/-! ## Another end for a version -/

/-- `btree_delete` of a version and `btree_insert_with_mvcc` of the same row, as DELETE and UPDATE end a version. -/
def Store.restamp (depth : Nat) (s : Store C) (cursor : Cursor) (row : C) : Option (Store C) := do
  let deleted ← s.btreeDelete depth cursor
  let found ← deleted.1.btreeFind depth (Cell.key row)
  deleted.1.leafNodeInsert depth found row

/-- Where `btree_delete` looks for an underflow. -/
def Store.underflowPage (s : Store C) (cursor : Cursor) : Nat := ((s.eraseCell cursor).afterDelete cursor).pageNum

/-- The version is shown as before, its leaf takes part in no underflow without it, and `btree_find` comes back to
its slot, where there is room. -/
structure RestampsInPlace (shows : C → Option R) (depth : Nat) (s : Store C) (cursor : Cursor) (row : C) : Prop where
  same : ∃ c, (s.node cursor.pageNum).cells[cursor.cellNum]? = some c ∧ shows row = shows c
  filled : ((s.eraseCell cursor).node (s.underflowPage cursor)).isRoot = true ∨
    leafNodeMinCells ≤ ((s.eraseCell cursor).node (s.underflowPage cursor)).cells.length
  back : ∃ e, (s.eraseCell cursor).btreeFind depth (Cell.key row) = some ⟨cursor.pageNum, cursor.cellNum, e⟩
  fits : (s.eraseCell cursor).FitsLeaf cursor row

theorem eraseCell_leaves (s : Store C) (cursor : Cursor) :
    (∀ q, Taken s q → Taken (s.eraseCell cursor) q) ∧
      ((s.eraseCell cursor).node cursor.pageNum).leafPart = ((s.node cursor.pageNum).nodeType,
        (s.node cursor.pageNum).cells.eraseIdx cursor.cellNum, (s.node cursor.pageNum).nextLeaf) ∧
      ∀ q, q ≠ cursor.pageNum → ((s.eraseCell cursor).node q).leafPart = (s.node q).leafPart := by
  -- the parent's key is no part of a leaf
  have hkey : ∀ (t : Store C) (p q : Nat) (a b : Int),
      ((t.modify p fun n => n.updateInternalNodeKey a b).node q).leafPart = (t.node q).leafPart := by
    intro t p q a b
    by_cases hq : q = p
    · subst hq
      rw [node_modify_self]
      rfl
    · rw [node_modify_of_ne hq]
  unfold Store.eraseCell
  dsimp only
  split
  · refine ⟨fun q hq => hq.modify.modify, ?_, fun q hq => ?_⟩
    · rw [hkey, node_modify_self]
      rfl
    · rw [hkey, node_modify_of_ne hq]
  · refine ⟨fun q hq => hq.modify, ?_, fun q hq => ?_⟩
    · rw [node_modify_self]
      rfl
    · rw [node_modify_of_ne hq]

/-- Without an underflow `btree_delete` takes the cell out and no more. -/
theorem RestampsInPlace.btreeDelete (h : RestampsInPlace shows depth s cursor row) :
    s.btreeDelete depth cursor = some (s.eraseCell cursor, (s.eraseCell cursor).afterDelete cursor) := by
  obtain ⟨c, hc, -⟩ := h.same
  have hlt := (List.getElem?_eq_some_iff.mp hc).1
  have hstays : (s.eraseCell cursor).leafNodeHandleUnderflow depth (s.underflowPage cursor) = some (s.eraseCell cursor) := by
    unfold Store.leafNodeHandleUnderflow
    by_cases hroot : ((s.eraseCell cursor).node (s.underflowPage cursor)).isRoot = true
    · rw [if_pos hroot]
    · rw [if_neg hroot, if_pos (h.filled.resolve_left hroot)]
  unfold Store.btreeDelete
  rw [if_neg (not_le.mpr hlt)]
  dsimp only
  rw [Store.underflowPage] at hstays
  rw [hstays]
  rfl

/-- The cells of each leaf with the row in the cell's place. -/
def Store.withEnd (s : Store C) (cursor : Cursor) (row : C) (q : Nat) : List C :=
  if q = cursor.pageNum then (s.node cursor.pageNum).cells.set cursor.cellNum row else (s.node q).cells

omit [Cell C] in
theorem withEnd_length (s : Store C) (cursor : Cursor) (row : C) (q : Nat) :
    (s.withEnd cursor row q).length = (s.node q).cells.length := by
  unfold Store.withEnd
  split
  next hq => rw [List.length_set, hq]
  · rfl

/-- A version that gets its end in place leaves the rows shown ahead as they are. -/
theorem Standing.restamp (h : Standing s cur cs)
    (ha : cur.endOfTable = false → RestampsInPlace shows depth s cursor row)
    (hs : s.restamp depth cursor row = some s') :
    ∃ cs', Standing s' cur cs' ∧ cs'.filterMap shows = cs.filterMap shows := by
  rcases h with ⟨he, rfl⟩ | ⟨he, l, hl, rfl⟩
  · exact ⟨[], Or.inl ⟨he, rfl⟩, rfl⟩
  have ha := ha he
  obtain ⟨c, hc, hrow⟩ := ha.same
  obtain ⟨e, hback⟩ := ha.back
  obtain ⟨hlt, -⟩ := List.getElem?_eq_some_iff.mp hc
  unfold Store.restamp at hs
  rw [ha.btreeDelete, Option.bind_eq_bind, Option.bind_some, hback] at hs
  have hins : (s.eraseCell cursor).leafNodeInsert depth ⟨cursor.pageNum, cursor.cellNum, e⟩ row = some s' := hs
  obtain ⟨ht, hown, hother⟩ := leafNodeInsert_fits ha.fits hins
  obtain ⟨ht₁, hown₁, hother₁⟩ := eraseCell_leaves s cursor
  have hshown : ∀ q j, ((s.withEnd cursor row q).drop j).filterMap shows = ((s.node q).cells.drop j).filterMap shows := by
    intro q j
    unfold Store.withEnd
    split
    next hq =>
      subst hq
      exact shown_drop_set _ _ j hc hrow
    · rfl
  have hpart : ∀ q ∈ cur.pageNum :: l, (s'.node q).leafPart = (.leaf, s.withEnd cursor row q, (s.node q).nextLeaf) := by
    intro q hq
    unfold Store.withEnd
    by_cases hp : q = cursor.pageNum
    · subst hp
      have htype := congrArg Prod.fst hown₁
      have hcells := congrArg (fun x => x.2.1) hown₁
      have hnext := congrArg (fun x => x.2.2) hown₁
      dsimp only [Node.leafPart] at htype hcells hnext
      rw [if_pos rfl, hown, htype, hcells, hnext, hl.leaf _ hq, List.insertIdx_eraseIdx_self (Nat.ne_of_lt hlt)]
    · rw [if_neg hp, hother q hp, hother₁ q hp, Node.leafPart, hl.leaf q hq]
  obtain ⟨hahead, hcells⟩ := hl.rewritten (fun q hq => ht q (ht₁ q hq)) hpart
    (by rw [withEnd_length]; exact hl.onCell)
    fun q hq => List.length_pos_iff.mp (by rw [withEnd_length]; exact List.length_pos_iff.mpr (hl.filled q hq))
  refine ⟨_, Or.inr ⟨he, l, hahead, rfl⟩, ?_⟩
  rw [hcells]
  exact shown_append (hshown _ _) fun q _ => hshown q 0

end Tree

end CustomDB
