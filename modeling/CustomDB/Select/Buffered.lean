import CustomDB.Select.Access
import CustomDB.Select.Distinct
import CustomDB.Select.Sort

/-!
# A SELECT in steps

`run_select_vm` sorts, deduplicates and cuts the rows it has selected and prints them; `dbms_step` scans the table at
its first call, does the same to what it has found, and hands out one row a call. Where LIMIT alone decides how many
rows are needed it stops the scan early.
-/

namespace CustomDB

/-- LIMIT and OFFSET. -/
structure SelectCut where
  hasLimit : Bool
  limitVal : BitVec 32
  hasOffset : Bool
  offsetVal : BitVec 32

namespace SelectCut

variable (cut : SelectCut)

/-- `offset`. -/
def offset : BitVec 32 := if cut.hasOffset && (0#32).slt cut.offsetVal then cut.offsetVal else 0

/-- `limit`, for so many entries. -/
def limit (count : Nat) : Nat :=
  min (if cut.hasLimit && !cut.limitVal.slt 0 then (cut.offset + cut.limitVal).toNat else count) count

/-- The entries that are printed or handed out. -/
def slice {α : Type} (entries : List α) : List α := (entries.take (cut.limit entries.length)).drop cut.offset.toNat

end SelectCut

/-- A SELECT on one table, and what it takes from outside. -/
structure SelectQuery where
  env : SelectEnv
  list : SelectList
  cut : SelectCut
  wc : WhereClause
  /-- `qsort` with `compare_row_sort_entries`. -/
  qsort : List RowSortEntry → List RowSortEntry

namespace SelectQuery

variable (q : SelectQuery)

/-- Sort and deduplicate. -/
def arrange (cols : List Column) (entries : List RowSortEntry) : List RowSortEntry :=
  let entries := if q.list.hasOrderBy && 1 < entries.length then q.qsort entries else entries
  deduplicateDistinctEntries q.env q.list cols entries

/-- The entries `run_select_vm` prints. -/
def printed (db : RowDb) (t : RowTable) (snapshot now : Nat) (indexes : Nat → RowTable) : List RowSortEntry :=
  let rows := selectedRows q.env.ops db t snapshot now q.wc indexes
  q.cut.slice (q.arrange t.tableDef.columns (rows.map (selectedEntry q.env q.list t.tableDef.columns)))

/-- `need_buffering`. -/
def needBuffering : Bool := q.list.hasOrderBy || q.cut.hasLimit || q.cut.hasOffset || q.list.isDistinct

/-- `needed_count`. -/
def neededCount : Nat :=
  if !q.list.hasOrderBy && !q.list.isDistinct && q.cut.hasLimit then (q.cut.offset + q.cut.limitVal).toNat else 2 ^ 32 - 1

/-- The loop that fills `buffered_rows`. -/
def fill (db : RowDb) (t : RowTable) (snapshot now : Nat) : List Version → List RowSortEntry → List RowSortEntry
  | [], buffered => buffered
  | v :: vs, buffered =>
    if v.visible snapshot now && evalWhereClause q.env.ops db t v.values q.wc then
      let buffered := buffered ++ [selectedEntry q.env q.list t.tableDef.columns v.values]
      if q.neededCount ≤ buffered.length then buffered else fill db t snapshot now vs buffered
    else fill db t snapshot now vs buffered

end SelectQuery

/-- The fields of a statement that steps through buffered rows. -/
structure BufferedStmt where
  executed : Bool
  bufferedRows : List RowSortEntry
  currentBufferedIdx : Nat
  bufferedLimit : Nat

/-- As `dbms_prepare_v2` and `dbms_reset` leave it. -/
def BufferedStmt.fresh : BufferedStmt := ⟨false, [], 0, 0⟩

/-- What a call of `dbms_step` finds: the database, the table of the statement, the snapshot and the time. -/
structure StepInput where
  db : RowDb
  table : RowTable
  snapshot : Nat
  now : Nat

namespace SelectQuery

variable (q : SelectQuery)

/-- The first call. -/
def execute (b : BufferedStmt) (i : StepInput) : BufferedStmt :=
  if b.executed then b
  else
    let entries := q.arrange i.table.tableDef.columns (q.fill i.db i.table i.snapshot i.now i.table.cells [])
    ⟨true, entries, q.cut.offset.toNat, q.cut.limit entries.length⟩

/-- `dbms_step` with `use_buffered_rows`: the row of DBMS_ROW, or DBMS_DONE. -/
def step (b : BufferedStmt) (i : StepInput) : BufferedStmt × Option (List Value) :=
  let b := q.execute b i
  if b.currentBufferedIdx < b.bufferedLimit then
    ({ b with currentBufferedIdx := b.currentBufferedIdx + 1 },
      some (b.bufferedRows.getD b.currentBufferedIdx RowSortEntry.zero).row)
  else ({ b with bufferedRows := [] }, none)

/-- What a sequence of calls returns. -/
def steps : BufferedStmt → List StepInput → List (Option (List Value))
  | _, [] => []
  | b, i :: is => (q.step b i).2 :: steps (q.step b i).1 is

end SelectQuery

/-! ## The scan that stops early -/

variable {q : SelectQuery} {db : RowDb} {t : RowTable} {snapshot now : Nat} {b : BufferedStmt} {i : StepInput}
  {is : List StepInput} {entries : List RowSortEntry}

/-- The entries of the versions that pass. -/
def SelectQuery.found (q : SelectQuery) (db : RowDb) (t : RowTable) (snapshot now : Nat) (vs : List Version) :
    List RowSortEntry :=
  (passingRows q.env.ops db t snapshot now q.wc vs).map (selectedEntry q.env q.list t.tableDef.columns)

/-- The loop takes as many as are needed, but one at least. -/
theorem fill_eq (vs : List Version) (buffered : List RowSortEntry) (hlt : buffered.length < max q.neededCount 1) :
    q.fill db t snapshot now vs buffered = (buffered ++ q.found db t snapshot now vs).take (max q.neededCount 1) := by
  induction vs generalizing buffered with
  | nil =>
    have hnil : q.found db t snapshot now [] = [] := rfl
    rw [hnil, List.append_nil, List.take_of_length_le hlt.le]
    rfl
  | cons v vs ih =>
    unfold SelectQuery.fill
    by_cases hpass : v.visible snapshot now && evalWhereClause q.env.ops db t v.values q.wc
    · have hfound : q.found db t snapshot now (v :: vs) =
          selectedEntry q.env q.list t.tableDef.columns v.values :: q.found db t snapshot now vs := by
        unfold SelectQuery.found
        rw [passingRows_filter, passingRows_filter, List.filter_cons, if_pos hpass, List.map_cons, List.map_cons]
      rw [if_pos hpass, hfound, List.append_cons buffered _ (q.found db t snapshot now vs)]
      dsimp only
      have hlen : (buffered ++ [selectedEntry q.env q.list t.tableDef.columns v.values]).length = buffered.length + 1 := by
        rw [List.length_append, List.length_singleton]
      split
      next hfull =>
        have hmax : max q.neededCount 1 = (buffered ++ [selectedEntry q.env q.list t.tableDef.columns v.values]).length := by
          omega
        rw [hmax, List.take_left]
      next => exact ih _ (by omega)
    · have hfound : q.found db t snapshot now (v :: vs) = q.found db t snapshot now vs := by
        unfold SelectQuery.found
        rw [passingRows_filter, passingRows_filter, List.filter_cons, if_neg hpass]
      rw [if_neg hpass, hfound, ih buffered hlt]

/-- What is not needed is cut off anyway. -/
theorem slice_take {α : Type} {cut : SelectCut} (hlimit : cut.hasLimit = true) (hpos : cut.limitVal.slt 0 = false)
    (l : List α) : cut.slice (l.take (max (cut.offset + cut.limitVal).toNat 1)) = cut.slice l := by
  have hcut : ∀ n, cut.limit n = min (cut.offset + cut.limitVal).toNat n := by
    intro n
    unfold SelectCut.limit
    rw [hlimit, hpos]
    rfl
  unfold SelectCut.slice
  rw [hcut, hcut, List.length_take, List.take_take]
  congr 1
  rw [List.take_eq_take_iff]
  omega

/-- The buffer is cut to what a whole scan is cut to. -/
theorem slice_fill (hlimit : q.cut.hasLimit = true → q.cut.limitVal.slt 0 = false)
    (hcount : (q.found db t snapshot now t.cells).length < 2 ^ 32 - 1) (cols : List Column) :
    q.cut.slice (q.arrange cols (q.fill db t snapshot now t.cells [])) =
      q.cut.slice (q.arrange cols (q.found db t snapshot now t.cells)) := by
  rw [fill_eq _ _ (by rw [List.length_nil]; omega), List.nil_append]
  unfold SelectQuery.neededCount
  split
  next hearly =>
    simp only [Bool.and_eq_true, Bool.not_eq_true'] at hearly
    obtain ⟨⟨hsort, hdistinct⟩, hlim⟩ := hearly
    have hplain : ∀ es, q.arrange cols es = es := by
      intro es
      unfold SelectQuery.arrange deduplicateDistinctEntries
      rw [hsort, hdistinct]
      rfl
    rw [hplain, hplain]
    exact slice_take hlim (hlimit hlim) _
  next => rw [List.take_of_length_le (by omega)]

/-! ## The calls -/

/-- Behind the first call the rows are handed out in turn. -/
theorem steps_executed (hb : b.executed = true) : q.steps b is = (List.range is.length).map fun k =>
    if b.currentBufferedIdx + k < b.bufferedLimit then
      some (b.bufferedRows.getD (b.currentBufferedIdx + k) RowSortEntry.zero).row
    else none := by
  induction is generalizing b with
  | nil => rfl
  | cons i is ih =>
    have hexec : q.execute b i = b := if_pos hb
    unfold SelectQuery.steps SelectQuery.step
    rw [hexec, List.length_cons, List.range_succ_eq_map, List.map_cons, List.map_map]
    dsimp only
    split
    next hlt =>
      rw [ih (b := { b with currentBufferedIdx := b.currentBufferedIdx + 1 }) hb]
      dsimp only
      rw [Nat.add_zero b.currentBufferedIdx, if_pos hlt]
      congr 1
      refine List.map_congr_left fun k _ => ?_
      dsimp only [Function.comp_apply]
      rw [Nat.succ_eq_add_one, Nat.add_right_comm, Nat.add_assoc]
    next hge =>
      rw [ih (b := { b with bufferedRows := [] }) hb]
      dsimp only
      rw [Nat.add_zero b.currentBufferedIdx, if_neg hge]
      congr 1
      refine List.map_congr_left fun k _ => ?_
      dsimp only [Function.comp_apply]
      rw [if_neg (by omega), if_neg (by omega)]

theorem getElem?_cutSlice {α : Type} (cut : SelectCut) (l : List α) (k : Nat) : (cut.slice l)[k]? =
    if cut.offset.toNat + k < cut.limit l.length then l[cut.offset.toNat + k]? else none := by
  unfold SelectCut.slice
  rw [List.getElem?_drop, List.getElem?_take]

/-- The calls hand out the buffer, cut, and then nothing. -/
theorem steps_fresh : q.steps .fresh (i :: is) = (List.range (is.length + 1)).map fun k =>
    ((q.cut.slice (q.arrange i.table.tableDef.columns (q.fill i.db i.table i.snapshot i.now i.table.cells [])))[k]?).map
      RowSortEntry.row := by
  have hexec : q.steps .fresh (i :: is) = q.steps (q.execute .fresh i) (i :: is) := by
    have hsame : q.execute (q.execute .fresh i) i = q.execute .fresh i := if_pos rfl
    unfold SelectQuery.steps SelectQuery.step
    rw [hsame]
  have hfirst : q.execute .fresh i =
      let entries := q.arrange i.table.tableDef.columns (q.fill i.db i.table i.snapshot i.now i.table.cells [])
      ⟨true, entries, q.cut.offset.toNat, q.cut.limit entries.length⟩ := rfl
  rw [hexec, hfirst, steps_executed rfl, List.length_cons]
  refine List.map_congr_left fun k _ => ?_
  dsimp only
  rw [getElem?_cutSlice]
  split
  next hlt =>
    have hle := lt_of_lt_of_le hlt (Nat.min_le_right ..)
    rw [List.getElem?_eq_getElem hle, List.getD_eq_getElem _ _ hle]
    rfl
  next => rfl

/-! ## The two interfaces -/

/-- `select * from t where id = 1 and a > 5 limit 1`. -/
def limitOne : SelectQuery where
  env := plainSelect
  list := ⟨[], false, false, ⟨[], false, .notSet⟩, []⟩
  cut := ⟨true, 1, false, 0⟩
  wc := keyClause
  qsort entries := entries.mergeSort fun a b => compareRowSortEntries plainSelect.ops a b ≠ .gt

end CustomDB
