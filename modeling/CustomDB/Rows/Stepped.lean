import CustomDB.Lib.Program
import CustomDB.Rows.Table
import CustomDB.Tree.InsertSpec
import CustomDB.Tree.Scan

/-!
# A SELECT taken row by row

`dbms_step` of a SELECT that neither sorts nor cuts its rows keeps a cursor from one call to the next. Between two
calls the same connection may write to the table, and the cursor stays the page and the cell index it is.
-/

namespace CustomDB

open Lib Lib.Program CustomDB.Tree

variable {ops : FloatOps}

/-! ## The statement -/

/-- What a stepped SELECT tests a row with: the columns of its table, its snapshot, and what `eval_where_clause`
returns for a row, the database being what it is. `depth` bounds the levels of the tree. -/
structure SteppedSelect (ops : FloatOps) where
  cols : List ColumnType
  snapshotXid : Nat
  evalWhereClause : Store (PackedRecord ops) → List Value → Bool
  depth : Nat

namespace SteppedSelect

variable (q : SteppedSelect ops)

/-- The row of a cell, if `row_is_visible_and_active` and the WHERE clause let it through. -/
def rowOf (s : Store (PackedRecord ops)) (now : Nat) (cell : PackedRecord ops) : Option (List Value) :=
  let read := deserializeRowWithMvcc ops q.cols cell.bytes
  let version : Version := ⟨read.1, read.2.1.exp.toNat, read.2.1.xmin.toNat, read.2.1.xmax.toNat⟩
  if version.visible q.snapshotXid now && q.evalWhereClause s read.1 then some read.1 else none

/-- The loop of `dbms_step`, in at most `fuel` turns: the next row, or the end. -/
def stepLoop (s : Store (PackedRecord ops)) (now : Nat) : Nat → Cursor → Option (Option (List Value) × Cursor)
  | 0, _ => none
  | fuel + 1, cur =>
    if cur.endOfTable then some (none, cur)
    else do
      let cell ← (s.node cur.pageNum).cells[cur.cellNum]?
      match q.rowOf s now cell with
      | some row => return (some row, s.cursorAdvance cur)
      | none => stepLoop s now fuel (s.cursorAdvance cur)

end SteppedSelect

/-- What INSERT, UPDATE and DELETE do to the tree of the table: store a new version at the cursor `btree_find`
returns for its key, or end the version at a cursor. -/
inductive TreeWrite (ops : FloatOps) where
  | insert (row : PackedRecord ops)
  | restamp (cursor : Cursor) (row : PackedRecord ops)

/-- One write. -/
def TreeWrite.run (depth : Nat) (s : Store (PackedRecord ops)) : TreeWrite ops → Option (Store (PackedRecord ops))
  | .insert row => do
    let cursor ← s.btreeFind depth (Cell.key row)
    s.leafNodeInsert depth cursor row
  | .restamp cursor row => s.restamp depth cursor row

/-- The table, `btree_cur` and the rows returned so far. `btree_cur` is NULL after DBMS_DONE. -/
structure Stepping (ops : FloatOps) where
  store : Store (PackedRecord ops)
  btreeCur : Option Cursor
  returned : List (List Value)

/-- A call of `dbms_step` at the time `now`, or a write to the table. -/
inductive StepEvent (ops : FloatOps) where
  | step (now fuel : Nat)
  | write (w : TreeWrite ops)

namespace SteppedSelect

variable (q : SteppedSelect ops)

/-- The event, where it is possible. -/
def event (st : Stepping ops) : StepEvent ops → Option (Stepping ops)
  | .step now fuel =>
    match st.btreeCur with
    | none => some st
    | some cur => do
      let r ← q.stepLoop st.store now fuel cur
      match r.1 with
      | some row => return { st with btreeCur := some r.2, returned := st.returned ++ [row] }
      | none => return { st with btreeCur := none }
  | .write w => do
    let s ← w.run q.depth st.store
    return { st with store := s }

end SteppedSelect

/-! ## The loop -/

variable {q : SteppedSelect ops} {s : Store (PackedRecord ops)} {cur : Cursor} {cs : List (PackedRecord ops)} {now : Nat}

theorem stepLoop_end {fuel : Nat} (he : cur.endOfTable = true) : q.stepLoop s now (fuel + 1) cur = some (none, cur) :=
  if_pos he

theorem stepLoop_cell {fuel : Nat} {c : PackedRecord ops} (he : cur.endOfTable = false)
    (hc : (s.node cur.pageNum).cells[cur.cellNum]? = some c) :
    q.stepLoop s now (fuel + 1) cur =
      match q.rowOf s now c with
      | some row => some (some row, s.cursorAdvance cur)
      | none => q.stepLoop s now fuel (s.cursorAdvance cur) := by
  have hn : ¬ cur.endOfTable = true := by simp [he]
  rw [SteppedSelect.stepLoop, if_neg hn, hc]
  rfl

/-- What the loop returns is the next row that is shown, or the end. -/
theorem Tree.Standing.stepLoop {fuel : Nat} {o : Option (List Value)} {cur' : Cursor} (h : Standing s cur cs)
    (hs : q.stepLoop s now fuel cur = some (o, cur')) :
    ∃ cs', Standing s cur' cs' ∧ cs.filterMap (q.rowOf s now) = o.toList ++ cs'.filterMap (q.rowOf s now) ∧
      cs' <:+ cs ∧ (o = none → cs' = []) := by
  induction fuel generalizing cur cs with
  | zero => cases hs
  | succ fuel ih =>
    cases he : cur.endOfTable with
    | true =>
      rw [stepLoop_end he] at hs
      obtain ⟨rfl, rfl⟩ := Prod.mk.inj (Option.some.inj hs)
      rcases h with ⟨-, rfl⟩ | ⟨hn, -⟩
      · exact ⟨[], Or.inl ⟨he, rfl⟩, rfl, List.suffix_rfl, fun _ => rfl⟩
      · exact absurd (hn.symm.trans he) (by decide)
    | false =>
      obtain ⟨c, rest, rfl, hc, hrest⟩ := h.advance he
      rw [stepLoop_cell he hc] at hs
      cases hr : q.rowOf s now c with
      | some row =>
        rw [hr] at hs
        obtain ⟨rfl, rfl⟩ := Prod.mk.inj (Option.some.inj hs)
        exact ⟨rest, hrest, List.filterMap_cons_some hr, List.suffix_cons .., fun hn => by cases hn⟩
      | none =>
        rw [hr] at hs
        obtain ⟨cs', hahead, hrows, hsuf, hnone⟩ := ih hrest hs
        rw [List.filterMap_cons_none hr]
        exact ⟨cs', hahead, hrows, hsuf.trans (List.suffix_cons ..), hnone⟩

/-- The loop returns, whatever it may read as rows. -/
theorem Tree.Standing.stepLoop_isSome {fuel : Nat} (h : Standing s cur cs) (hf : cs.length < fuel) :
    (q.stepLoop s now fuel cur).isSome = true := by
  induction fuel generalizing cur cs with
  | zero => exact absurd hf (Nat.not_lt_zero _)
  | succ fuel ih =>
    cases he : cur.endOfTable with
    | true =>
      rw [stepLoop_end he]
      rfl
    | false =>
      obtain ⟨c, rest, rfl, hc, hrest⟩ := h.advance he
      rw [stepLoop_cell he hc]
      cases q.rowOf s now c with
      | some row => rfl
      | none => exact ih hrest (Nat.lt_of_succ_lt_succ hf)

/-! ## The statement under writes -/

/-- `btree_start` puts the cursor before the cells `cs` of the table, which are in key order. -/
structure Opens (depth : Nat) (s : Store (PackedRecord ops)) (cur : Cursor) (cs : List (PackedRecord ops)) : Prop where
  start : s.btreeStart depth s.rootPageNum = some cur
  standing : Standing s cur cs
  /-- A table without cells is a single leaf. -/
  empty : cur.endOfTable = true → (s.node cur.pageNum).nextLeaf = 0
  sorted : cs.Pairwise fun a b => Cell.key a ≤ Cell.key b

/-- The statement right after `btree_start`. -/
def Stepping.opened (s : Store (PackedRecord ops)) (cur : Cursor) : Stepping ops := ⟨s, some cur, []⟩

/-- The event leaves the rows ahead of the cursor as they were shown by `rowOf` at first: at a step none of them has
expired, and the WHERE clause comes out the same; a row is stored where it is not shown and moves no row shown before
to the cursor; a version gets its end in place. -/
def Undisturbed (q : SteppedSelect ops) (rowOf : PackedRecord ops → Option (List Value)) (st : Stepping ops) :
    StepEvent ops → Prop
  | .step now _ => ∀ cur cs, st.btreeCur = some cur → Standing st.store cur cs →
      ∀ c ∈ cs, q.rowOf st.store now c = rowOf c
  | .write (.insert row) => ∀ cur cursor, st.btreeCur = some cur → cur.endOfTable = false →
      st.store.btreeFind q.depth (Cell.key row) = some cursor → InsertsAside rowOf st.store cur cursor row
  | .write (.restamp cursor row) => ∀ cur, st.btreeCur = some cur → cur.endOfTable = false →
      RestampsInPlace rowOf q.depth st.store cursor row

/-- The rows of the cells `cs` that are still to be returned. -/
def RowsLeft (rowOf : PackedRecord ops → Option (List Value)) (cs : List (PackedRecord ops)) (st : Stepping ops) : Prop :=
  match st.btreeCur with
  | none => st.returned = cs.filterMap rowOf
  | some cur => ∃ ahead, Standing st.store cur ahead ∧ st.returned ++ ahead.filterMap rowOf = cs.filterMap rowOf

variable {rowOf : PackedRecord ops → Option (List Value)} {st st' : Stepping ops}

/-- A step returns the next of the rows left, and after the last one it is done. -/
theorem RowsLeft.step (h : RowsLeft rowOf cs st) {fuel : Nat} (hok : Undisturbed q rowOf st (.step now fuel))
    (hs : q.event st (.step now fuel) = some st') : RowsLeft rowOf cs st' := by
  unfold SteppedSelect.event at hs
  unfold RowsLeft at h
  cases hc : st.btreeCur with
  | none =>
    rw [hc] at hs
    obtain rfl := Option.some.inj hs
    unfold RowsLeft
    rw [hc] at h ⊢
    exact h
  | some cur =>
    rw [hc] at hs h
    obtain ⟨ahead, hahead, hrows⟩ := h
    obtain ⟨⟨o, cur'⟩, hloop, hs⟩ := Option.bind_eq_some_iff.mp hs
    obtain ⟨rest, hrest, hnext, hsuf, hnone⟩ := hahead.stepLoop hloop
    have hsame := hok cur ahead hc hahead
    rw [List.filterMap_congr hsame, List.filterMap_congr fun c hm => hsame c (hsuf.subset hm)] at hnext
    cases o with
    | some row =>
      obtain rfl := Option.some.inj hs
      refine ⟨rest, hrest, ?_⟩
      show st.returned ++ [row] ++ rest.filterMap rowOf = cs.filterMap rowOf
      rw [← hrows, hnext, List.append_assoc]
      rfl
    | none =>
      obtain rfl := Option.some.inj hs
      show st.returned = cs.filterMap rowOf
      rw [← hrows, hnext, hnone rfl]
      exact (List.append_nil _).symm

/-- A write aside of the cursor leaves the rows left as they are. -/
theorem RowsLeft.write (h : RowsLeft rowOf cs st) {w : TreeWrite ops} (hok : Undisturbed q rowOf st (.write w))
    (hs : q.event st (.write w) = some st') : RowsLeft rowOf cs st' := by
  obtain ⟨t, ht, hs⟩ := Option.bind_eq_some_iff.mp hs
  obtain rfl := Option.some.inj hs
  unfold RowsLeft at h ⊢
  cases hc : st.btreeCur with
  | none =>
    rw [hc] at h
    exact h
  | some cur =>
    rw [hc] at h
    obtain ⟨ahead, hahead, hrows⟩ := h
    have hahead' : ∃ cs', Standing t cur cs' ∧ cs'.filterMap rowOf = ahead.filterMap rowOf := by
      cases w with
      | insert row =>
        obtain ⟨cursor, hf, ht⟩ := Option.bind_eq_some_iff.mp ht
        exact hahead.insert hf (fun he => hok cur cursor hc he hf) ht
      | restamp cursor row => exact hahead.restamp (hok cur hc) ht
    obtain ⟨cs', hcs', hshown⟩ := hahead'
    exact ⟨cs', hcs', by rw [hshown]; exact hrows⟩

theorem RowsLeft.event (h : RowsLeft rowOf cs st) {e : StepEvent ops} (hok : Undisturbed q rowOf st e)
    (hs : q.event st e = some st') : RowsLeft rowOf cs st' := by
  cases e with
  | step now fuel => exact h.step hok hs
  | write w => exact h.write hok hs

/-- The rows returned are those shown of a first part of the cells, each once and in key order, and of all cells when
the statement is done. -/
def Delivers (rowOf : PackedRecord ops → Option (List Value)) (cs : List (PackedRecord ops)) (st : Stepping ops) : Prop :=
  ∃ seen rest, cs = seen ++ rest ∧ st.returned = seen.filterMap rowOf ∧
    (seen.Pairwise fun a b => Cell.key a ≤ Cell.key b) ∧ (st.btreeCur = none → rest.filterMap rowOf = [])

theorem RowsLeft.delivers (h : RowsLeft rowOf cs st) (hsorted : cs.Pairwise fun a b => Cell.key a ≤ Cell.key b) :
    Delivers rowOf cs st := by
  unfold RowsLeft at h
  cases hc : st.btreeCur with
  | none =>
    rw [hc] at h
    exact ⟨cs, [], (List.append_nil cs).symm, h, hsorted, fun _ => rfl⟩
  | some cur =>
    rw [hc] at h
    obtain ⟨ahead, -, hrows⟩ := h
    obtain ⟨seen, rest, rfl, hseen, -⟩ := List.filterMap_eq_append_iff.mp hrows.symm
    refine ⟨seen, rest, rfl, hseen.symm, (List.pairwise_append.mp hsorted).1, fun hn => ?_⟩
    rw [hc] at hn
    cases hn

theorem RowsLeft.returns (h : RowsLeft rowOf cs st) (q : SteppedSelect ops) (now : Nat) :
    ∃ turns, ∀ fuel, turns < fuel → (q.event st (.step now fuel)).isSome = true := by
  unfold RowsLeft at h
  cases hc : st.btreeCur with
  | none =>
    refine ⟨0, fun fuel _ => ?_⟩
    unfold SteppedSelect.event
    rw [hc]
    rfl
  | some cur =>
    rw [hc] at h
    obtain ⟨ahead, hahead, -⟩ := h
    refine ⟨ahead.length, fun fuel hf => ?_⟩
    have hsome : (q.stepLoop st.store now fuel cur).isSome = true := hahead.stepLoop_isSome hf
    obtain ⟨⟨o, cur'⟩, hloop⟩ := Option.isSome_iff_exists.mp hsome
    unfold SteppedSelect.event
    rw [hc]
    dsimp only
    rw [hloop]
    cases o <;> rfl

/-- A version with the key `id` in a table of one INT column. -/
def keyRow (id : BitVec 32) (xmin xmax : BitVec 64) : PackedRecord zeroOps :=
  ⟨(serializeRowWithMvcc zeroOps [.int] [{ Value.init with intVal := id }] 0 xmin xmax).getD []⟩

/-- Three versions of an earlier transaction. -/
def threeRows : List (PackedRecord zeroOps) := [keyRow 10 1 0, keyRow 20 1 0, keyRow 30 1 0]

/-- The only leaf of a table, with the cells. -/
def oneLeaf (cells : List (PackedRecord zeroOps)) (p : Nat) : Node (PackedRecord zeroOps) :=
  if p = 33 then ⟨.leaf, true, 0, cells, 0, Node.packed cells, 0, 0, fun _ => (0, 0)⟩ else Node.zero

/-- A table of three rows. -/
def smallTable : Store (PackedRecord zeroOps) := ⟨oneLeaf threeRows, 34, [], 33, 33⟩

/-- SELECT of the whole table, at the snapshot of that transaction. -/
def selectAll : SteppedSelect zeroOps := ⟨[.int], 1, fun _ _ => true, 3⟩

theorem smallTable_opens : Opens 3 smallTable ⟨33, 0, false⟩ threeRows := by
  refine ⟨rfl, Or.inr ⟨rfl, [], ⟨rfl, by decide, fun q hq => absurd hq List.not_mem_nil, fun q hq => ?_, fun q hq => ?_⟩,
    rfl⟩, fun he => absurd he (by decide), by decide +kernel⟩
  · obtain rfl := List.mem_singleton.mp hq
    rfl
  · obtain rfl := List.mem_singleton.mp hq
    exact ⟨by decide, by decide, List.not_mem_nil⟩

/-- Whether a statement is done, and the keys of the rows it has returned. -/
def Stepping.seen (st : Stepping zeroOps) : Bool × List (List (BitVec 32)) :=
  (st.btreeCur.isNone, st.returned.map fun row => row.map Value.intVal)

/-- The table after the row 20 got its end. -/
def endedTable : Store (PackedRecord zeroOps) :=
  (smallTable.restamp 3 ⟨33, 1, false⟩ (keyRow 20 1 2)).getD smallTable

theorem restamp_in_place :
    RestampsInPlace (selectAll.rowOf smallTable 100) 3 smallTable ⟨33, 1, false⟩ (keyRow 20 1 2) :=
  ⟨⟨keyRow 20 1 0, rfl, by decide +kernel⟩, Or.inl (by decide +kernel), ⟨false, by decide +kernel⟩,
    by decide +kernel⟩

theorem insert_aside {cursor : Cursor} (hf : endedTable.btreeFind 3 (Cell.key (keyRow 40 2 0)) = some cursor) :
    InsertsAside (selectAll.rowOf smallTable 100) endedTable ⟨33, 0, false⟩ cursor (keyRow 40 2 0) := by
  have hcursor : endedTable.btreeFind 3 (Cell.key (keyRow 40 2 0)) = some ⟨33, 3, true⟩ := by decide +kernel
  obtain rfl := Option.some.inj (hcursor.symm.trans hf)
  refine ⟨by decide +kernel, fun _ hlt => absurd hlt (by decide), fun hfit => absurd ?_ hfit⟩
  decide +kernel

end CustomDB
