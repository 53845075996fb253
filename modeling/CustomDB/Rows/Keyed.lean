import CustomDB.Sql.Digits
import CustomDB.Rows.Update

/-!
# The rows with a key

Two rows have the same key where the columns of the primary key compare equal. An INT key is looked for by its number, by
INSERT as well as by the DELETE and the UPDATE that a conflict runs with a WHERE clause on its text.
-/

namespace CustomDB

open Lib Lib.Program

/-! ## The rows with a key -/

/-- Two rows agree on the columns of the primary key. -/
def TableDef.sameKey (ops : WhereOps) (d : TableDef) (u w : List Value) : Bool :=
  d.keyCols.all fun c => compareValues ops (d.typeOf c) (u.getD c Value.init) (w.getD c Value.init) = .eq

section Keyed

variable (ops : WhereOps) (t : RowTable) (new : List Value) (txn now : Nat)

/-- The visible versions with the key of a row. -/
def keyedRows : List Version := (t.shown txn now).cells.filter fun v => t.tableDef.sameKey ops v.values new

/-- The visible rows with another key. -/
def unkeyedRows : List (List Value × Nat) :=
  ((t.shown txn now).cells.filter fun v => !t.tableDef.sameKey ops v.values new).map fun v => (v.values, v.expireAt)

/-- A table whose column 0 is INT and nowhere NULL. -/
structure RowTable.IntKeyed : Prop where
  column : ∃ col, t.tableDef.columns[0]? = some col ∧ col.type = .int
  cells : ∀ v ∈ t.cells, (v.col 0).isNull = false

end Keyed

section IntKey

variable {ops : WhereOps} {t : RowTable} {new : List Value} {txn now : Nat} {target : Value}

theorem RowTable.IntKeyed.typeOf (h : t.IntKeyed) : t.tableDef.typeOf 0 = .int := by
  obtain ⟨col, hcol, hint⟩ := h.column
  unfold TableDef.typeOf
  rw [hcol, ← hint]
  rfl

theorem signOf_slt_eq (a b : BitVec 32) : signOf (b.slt a) (a.slt b) = .eq ↔ a = b := by
  rw [← BitVec.toInt_inj, BitVec.slt_eq_decide, BitVec.slt_eq_decide]
  unfold signOf
  by_cases hgt : b.toInt < a.toInt
  · have hlt : ¬a.toInt < b.toInt := by omega
    simp [hgt, hlt]
    omega
  · by_cases hlt : a.toInt < b.toInt
    · simp [hgt, hlt]
      omega
    · simp [hgt, hlt]
      omega

theorem compareValues_int {a b : Value} (ha : a.isNull = false) (hb : b.isNull = false) :
    compareValues ops .int a b = .eq ↔ a.intVal = b.intVal := by
  unfold compareValues
  simp only [ha, hb, Bool.and_self, Bool.false_eq_true, if_false]
  exact signOf_slt_eq a.intVal b.intVal

/-- The rows with an INT key are those with its number. -/
theorem sameKey_int (hk : t.IntKeyed) (hsingle : ¬1 < t.tableDef.pkCols.length) {u w : List Value}
    (hu : (u.getD 0 Value.init).isNull = false) (hw : (w.getD 0 Value.init).isNull = false) :
    t.tableDef.sameKey ops u w = decide ((u.getD 0 Value.init).intVal = (w.getD 0 Value.init).intVal) := by
  unfold TableDef.sameKey TableDef.keyCols
  rw [if_neg hsingle, List.all_cons, List.all_nil, Bool.and_true, hk.typeOf, decide_eq_decide]
  exact compareValues_int hu hw

/-- The cells of a table with INT keys are in their order. -/
theorem RowTable.Searchable.sorted (ht : t.Searchable ops) (hc : t.tableDef.typeOf 0 = .int) :
    Ranked.Sorted (fun v : Version => v.id.toInt) t.cells := by
  have hbelow := @belowId_int ops t.tableDef hc
  have hsorted : ∀ l : List Version, (∀ id, ∀ v ∈ l.dropWhile (t.tableDef.belowId ops id), t.tableDef.belowId ops id v = false) →
      l.Pairwise fun u v => u.id.toInt ≤ v.id.toInt := by
    intro l
    induction l with
    | nil => exact fun _ => List.Pairwise.nil
    | cons u l ih =>
      intro hsplit
      refine List.pairwise_cons.mpr ⟨fun v hv => ?_, ih fun id v hv => hsplit id v ?_⟩
      · have hself : ¬t.tableDef.belowId ops u.id u = true := by
          rw [hbelow]
          omega
        have hnot := hsplit u.id v (by rw [List.dropWhile_cons_of_neg hself]; exact List.mem_cons_of_mem _ hv)
        rw [Bool.eq_false_iff, ne_eq, hbelow] at hnot
        omega
      · by_cases hu : t.tableDef.belowId ops id u = true
        · rw [List.dropWhile_cons_of_pos hu]
          exact hv
        · rw [List.dropWhile_cons_of_neg hu]
          exact List.mem_cons_of_mem _ ((List.dropWhile_sublist _).subset hv)
  exact hsorted t.cells ht.split

/-- The run of an INT key is all cells with it. -/
theorem run_int (ht : t.Searchable ops) (hc : t.tableDef.typeOf 0 = .int) (id : BitVec 32) :
    Struck.run (t.tableDef.belowId ops) Version.id id t.cells = t.cells.filter fun v => v.id = id := by
  refine (ht.sorted hc).run_eq_filter (k := id.toInt) (fun v _ => belowId_int hc id v) fun v _ => ?_
  rw [decide_eq_true_iff, BitVec.toInt_inj]

theorem keyTaken_int (ht : t.Searchable ops) (hk : t.IntKeyed) (hnull : target.isNull = false) :
    keyTaken ops t txn target = true ↔ ∃ v ∈ t.cells, v.live txn = true ∧ v.id = target.intVal := by
  have hsame : ∀ v ∈ t.cells, compareValues ops (t.tableDef.typeOf 0) (v.col 0) target = .eq ↔ v.id = target.intVal := by
    intro v hv
    rw [hk.typeOf]
    exact compareValues_int (hk.cells v hv) hnull
  have hrun : keyRun ops t target =
      t.cells.filter fun v => compareValues ops (t.tableDef.typeOf 0) (v.col 0) target = .eq := by
    unfold keyRun
    rw [btreeFind_int hk.typeOf, Ranked.drop_takeWhile]
    refine (ht.sorted hk.typeOf).run_eq_filter (k := target.intVal.toInt) (fun v _ => belowId_int hk.typeOf _ v) fun v hv => ?_
    rw [decide_eq_true_iff, hsame v hv, BitVec.toInt_inj]
  unfold keyTaken
  rw [hrun, List.any_eq_true]
  constructor
  · rintro ⟨v, hv, hlive⟩
    obtain ⟨hmem, heq⟩ := List.mem_filter.mp hv
    exact ⟨v, hmem, hlive, (hsame v hmem).mp (of_decide_eq_true heq)⟩
  · rintro ⟨v, hmem, hlive, hid⟩
    exact ⟨v, List.mem_filter.mpr ⟨hmem, decide_eq_true ((hsame v hmem).mpr hid)⟩, hlive⟩

end IntKey

/-! ## The WHERE clause of a conflict -/

theorem strcasecmp_self (s : Text) : strcasecmp s s = .eq := by
  unfold strcasecmp
  induction s.map tolower with
  | nil => rfl
  | cons b s ih => simp [strcmp, ih]

section KeyWhere

variable {env : DmlEnv} {db : RowDb} {t : RowTable} {new values : List Value} {txn now : Nat} {target : Value}

/-- The clause on the text of an INT key holds of the rows with its number. -/
theorem rowMatches_keyWhere (hk : t.IntKeyed) (hnull : (values.getD 0 Value.init).isNull = false) :
    rowMatches env db t values (keyWhere t target) = decide ((values.getD 0 Value.init).intVal = target.intVal) := by
  obtain ⟨col, hcol, hint⟩ := hk.column
  have hwhere : keyWhere t target = whereEq col.name.str (printInt target.intVal) := by
    have hlen := length_printInt target.intVal
    unfold keyWhere
    rw [hcol, if_pos hk.typeOf, List.take_of_length_le (by unfold maxRawVal; omega)]
    rfl
  have hidx : findColumnCI t.tableDef.columns col.name.str = some 0 := by
    unfold findColumnCI
    cases hcols : t.tableDef.columns with
    | nil => simp [hcols] at hcol
    | cons c cs =>
      obtain rfl : c = col := by simpa [hcols] using hcol
      simp [List.findIdx?_cons, strcasecmp_self]
  have hcond : evalCond env.ops db.subTables t.tableDef.columns values
      { SingleCond.zero with colName := col.name.str, rawVal := printInt target.intVal } =
      evalOnColumn env.ops { SingleCond.zero with colName := col.name.str, rawVal := printInt target.intVal } col
        (values.getD 0 Value.init) := by
    simp [evalCond, SingleCond.zero, hidx, hcol]
  rw [hwhere]
  unfold rowMatches evalWhereClauseCols whereEq
  simp only [List.map_cons, List.map_nil, hcond]
  rw [if_neg (by simp)]
  simp only [List.headD_cons, List.tail_cons, List.zip_nil_right, Connective.foldLeft]
  unfold evalOnColumn
  simp only [SingleCond.zero, hint, hnull, compareTyped, filterValue, opHolds, atoi_printInt]
  simp [signOf_slt_eq]

/-- The rows that DELETE and UPDATE are meant for are those with the key. -/
theorem matchingRows_keyWhere (hk : t.IntKeyed) (hsingle : ¬1 < t.tableDef.pkCols.length)
    (hnew : (new.getD 0 Value.init).isNull = false) (htarget : target.intVal = (new.getD 0 Value.init).intVal) :
    matchingRows env db t (keyWhere t target) txn now = keyedRows env.ops t new txn now ∧
      otherRows env db t (keyWhere t target) txn now = unkeyedRows env.ops t new txn now := by
  have hsame : ∀ v ∈ (t.shown txn now).cells,
      rowMatches env db t v.values (keyWhere t target) = t.tableDef.sameKey env.ops v.values new := by
    intro v hv
    have hnull := hk.cells v (List.mem_of_mem_filter hv)
    rw [rowMatches_keyWhere hk hnull, sameKey_int hk hsingle hnull hnew, htarget]
  constructor
  · apply List.filter_congr hsame
  · unfold otherRows unkeyedRows
    rw [List.filter_congr fun v hv => congrArg (fun b => !b) (hsame v hv)]

/-- The search for an INT key finds the visible rows with it, and no others. -/
theorem seen_int (ht : t.Searchable env.ops) (hk : t.IntKeyed) (hsingle : ¬1 < t.tableDef.pkCols.length)
    (hnew : (new.getD 0 Value.init).isNull = false) :
    t.seen env.ops txn now (new.getD 0 Value.init).intVal = keyedRows env.ops t new txn now := by
  unfold RowTable.seen Struck.seen keyedRows RowTable.shown
  rw [run_int ht hk.typeOf, List.filter_filter, List.filter_filter]
  apply List.filter_congr
  intro v hv
  rw [sameKey_int hk hsingle (hk.cells v hv) hnew, Bool.and_comm]
  rfl

end KeyWhere

end CustomDB
