import CustomDB.Rows.Keyed
import CustomDB.Sql.Joined
import CustomDB.Select.Entry

/-!
# Access paths

`run_select_vm` scans the table, or searches it for a key that the WHERE clause asks for, or searches an index and
then the table for each entry. A search for the key selects what the scan does; a search in an index does exactly if
it comes to one entry for each row that the scan selects.
-/

namespace CustomDB

open Lib Lib.Connective

/-! ## The choice -/

/-- `AccessPathType`, with the column and the condition of the seek. -/
inductive AccessPath where
  | scan
  | pkSeek (cond : SingleCond)
  | indexSeek (col : Nat) (cond : SingleCond)
  deriving DecidableEq

/-- A condition with a value to look for. -/
def SingleCond.hasValue (c : SingleCond) : Bool :=
  !c.isSubquery && c.rawVal ≠ [] && strcasecmp c.rawVal kwNull ≠ .eq && c.op ≠ .isNull && c.op ≠ .isNotNull

/-- An operator that a search can start from. -/
def CompOp.seeks (op : CompOp) : Bool := op = .eq || op = .gt || op = .gte

/-- `all_and`. -/
def WhereClause.allAnd (wc : WhereClause) : Bool :=
  (List.range (wc.conds.length - 1)).all fun i => wc.logicOps.getD i .and = .and

/-- An index that a search may use. -/
def Column.searched (col : Column) : Bool :=
  col.hasIndex && col.indexRootPage ≠ 0 && !col.idxIsPartial && !col.idxIsExpr

namespace TableDef

variable (d : TableDef)

/-- The condition on column 0. -/
def pkCond (wc : WhereClause) : Option SingleCond :=
  wc.conds.find? fun c => c.hasValue && d.columns[0]?.any (fun col => col.name.str = c.colName) && c.op.seeks

/-- The column behind the first that a condition can search. -/
def indexCol (c : SingleCond) : Option Nat :=
  if c.hasValue then
    ((d.columns.zipIdx.drop 1).find? fun ci => ci.1.searched && ci.1.name.str = c.colName && c.op.seeks).map Prod.snd
  else none

/-- The choice of `run_select_vm`. -/
def accessPath (wc : WhereClause) : AccessPath :=
  if wc.hasWhere && wc.conds ≠ [] && wc.allAnd then
    match d.pkCond wc with
    | some c => .pkSeek c
    | none =>
      match wc.conds.findSome? fun c => (d.indexCol c).map fun i => (i, c) with
      | some (i, c) => .indexSeek i c
      | none => .scan
  else .scan

end TableDef

/-! ## The paths -/

section Paths

variable (ops : WhereOps) (db : RowDb) (t : RowTable) (snapshot now : Nat) (wc : WhereClause)

/-- `value_from_raw`. -/
def valueFromRaw (type : ColumnType) (raw : Text) (isNull : Bool) : Value :=
  if isNull || raw = [] then { Value.init with isNull := true }
  else
    match type with
    | .float => { Value.init with floatVal := ops.narrow (ops.atof raw), doubleVal := ops.atof raw }
    | type => filterValue ops type raw

/-- The rows of the versions that are visible and pass the WHERE clause. -/
def passingRows (vs : List Version) : List (List Value) :=
  vs.filterMap fun v => if v.visible snapshot now && evalWhereClause ops db t v.values wc then some v.values else none

/-- The search for one key: the first visible version that has it decides. -/
def pkRow (target : Value) : Option (List Value) :=
  (((keyRun ops t target).find? fun v => v.visible snapshot now).filter fun v =>
    evalWhereClause ops db t v.values wc).map Version.values

/-- ACCESS_PK_SEEK. -/
def pkSeekRows (cond : SingleCond) : List (List Value) :=
  let target := valueFromRaw ops (t.tableDef.typeOf 0) cond.rawVal false
  if cond.op = .eq then (pkRow ops db t snapshot now wc target).toList
  else passingRows ops db t snapshot now wc (t.cells.drop (t.btreeFind ops target))

/-- The entries ACCESS_INDEX_SEEK goes through, in the index `idx` on a column of the given type. -/
def soughtEntries (idx : RowTable) (type : ColumnType) (cond : SingleCond) : List Version :=
  let target := valueFromRaw ops type cond.rawVal false
  let entries := idx.cells.drop (idx.btreeFind ops target)
  if cond.op = .eq then entries.takeWhile fun e => compareValues ops type (e.col 0) target = .eq else entries

/-- ACCESS_INDEX_SEEK. -/
def indexSeekRows (idx : RowTable) (type : ColumnType) (cond : SingleCond) : List (List Value) :=
  (soughtEntries ops idx type cond).filterMap fun e => pkRow ops db t snapshot now wc (e.col 1)

/-- The rows `run_select_vm` selects, `indexes` being the trees of the indexes. -/
def selectedRows (indexes : Nat → RowTable) : List (List Value) :=
  match t.tableDef.accessPath wc with
  | .scan => runSelectVm ops db t snapshot now wc
  | .pkSeek cond => pkSeekRows ops db t snapshot now wc cond
  | .indexSeek i cond => indexSeekRows ops db t snapshot now wc (indexes i) (t.tableDef.typeOf i) cond

end Paths

/-! ## A clause joined by AND -/

variable {ops : WhereOps} {db : RowDb} {t : RowTable} {snapshot now : Nat} {wc : WhereClause} {cond c : SingleCond}
  {values : List Value} {v : Version}

/-- A row that passes meets each of the conditions. -/
theorem WhereClause.Joined.holds (hj : wc.Joined) (hand : wc.allAnd = true) (hwhere : wc.hasWhere = true)
    (hpass : evalWhereClause ops db t values wc = true) :
    ∀ c ∈ wc.conds, evalCond ops db.subTables t.tableDef.columns values c = true := by
  unfold evalWhereClause evalWhereClauseCols at hpass
  rw [hwhere] at hpass
  cases hconds : wc.conds with
  | nil => exact fun c hc => absurd hc List.not_mem_nil
  | cons c cs =>
    rw [hconds, if_neg (by simp)] at hpass
    simp only [List.map_cons, List.headD_cons, List.tail_cons] at hpass
    have hlen := hj.ops
    rw [hconds, List.length_cons] at hlen
    have hops : ∀ x ∈ wc.logicOps.zip (cs.map (evalCond ops db.subTables t.tableDef.columns values)), x.1 = .and := by
      intro x hx
      obtain ⟨i, hi, rfl⟩ := List.mem_iff_getElem.mp hx
      rw [List.length_zip, List.length_map] at hi
      rw [List.getElem_zip]
      have hall := List.all_eq_true.mp hand i (List.mem_range.mpr (by rw [hconds, List.length_cons]; omega))
      rw [List.getD_eq_getElem _ _ (by omega)] at hall
      exact of_decide_eq_true hall
    obtain ⟨hc, hcs⟩ := foldLeft_and _ _ hops hpass
    intro e he
    rcases List.mem_cons.mp he with rfl | he
    · exact hc
    · obtain ⟨i, hi, rfl⟩ := List.mem_iff_getElem.mp he
      have hz : i < (wc.logicOps.zip (cs.map (evalCond ops db.subTables t.tableDef.columns values))).length := by
        rw [List.length_zip, List.length_map]
        omega
      have hat := hcs _ (List.getElem_mem hz)
      rwa [List.getElem_zip, List.getElem_map] at hat

/-! ## The condition on the key -/

theorem findColumnCI_first {cols : List Column} {col : Column} (hcol : cols[0]? = some col) :
    findColumnCI cols col.name.str = some 0 := by
  unfold findColumnCI
  cases cols with
  | nil => cases hcol
  | cons c cs =>
    obtain rfl := Option.some.inj hcol
    rw [List.findIdx?_cons, strcasecmp_self]
    rfl

/-- The condition of a search for the key, with the value it looks for. -/
structure KeyCond (t : RowTable) (wc : WhereClause) (cond : SingleCond) : Prop where
  mem : cond ∈ wc.conds
  hasValue : cond.hasValue = true
  seeks : cond.op.seeks = true
  column : ∃ col, t.tableDef.columns[0]? = some col ∧ col.name.str = cond.colName

theorem accessPath_pkSeek (h : t.tableDef.accessPath wc = .pkSeek cond) :
    wc.hasWhere = true ∧ wc.allAnd = true ∧ KeyCond t wc cond := by
  unfold TableDef.accessPath at h
  split at h
  next hc =>
    simp only [Bool.and_eq_true] at hc
    refine ⟨hc.1.1, hc.2, ?_⟩
    cases hp : t.tableDef.pkCond wc with
    | none =>
      rw [hp] at h
      dsimp only at h
      split at h <;> cases h
    | some c =>
      rw [hp] at h
      obtain rfl := AccessPath.pkSeek.inj h
      have hsome := List.find?_some hp
      simp only [Bool.and_eq_true] at hsome
      obtain ⟨⟨hval, hcol⟩, hop⟩ := hsome
      obtain ⟨col, hcol, hname⟩ := (Option.any_eq_true _ _).mp hcol
      exact ⟨List.mem_of_find?_eq_some hp, hval, hop, col, hcol, of_decide_eq_true hname⟩
  next => cases h

theorem CompOp.seeks_cases {op : CompOp} (h : op.seeks = true) : op = .eq ∨ op = .gt ∨ op = .gte := by
  unfold CompOp.seeks at h
  simpa [or_assoc] using h

theorem evalOnColumn_int {col : Column} {actual : Value} (hint : col.type = .int) (hnull : actual.isNull = false)
    (hop : cond.op.seeks = true) : evalOnColumn ops cond col actual =
      opHolds cond.op (signOf ((atoi cond.rawVal).slt actual.intVal) (actual.intVal.slt (atoi cond.rawVal))) := by
  unfold evalOnColumn
  rw [hint, hnull]
  rcases CompOp.seeks_cases hop with he | he | he <;> rw [he] <;> rfl

theorem opHolds_key {op : CompOp} {a k : BitVec 32} (hop : op.seeks = true)
    (h : opHolds op (signOf (k.slt a) (a.slt k)) = true) : (op = .eq → a = k) ∧ k.toInt ≤ a.toInt := by
  rw [BitVec.slt_eq_decide, BitVec.slt_eq_decide] at h
  rcases CompOp.seeks_cases hop with rfl | rfl | rfl
  · have heq : a = k := (signOf_slt_eq a k).mp (by rw [BitVec.slt_eq_decide, BitVec.slt_eq_decide]; exact of_decide_eq_true h)
    exact ⟨fun _ => heq, by rw [heq]⟩
  · refine ⟨fun he => (by cases he), ?_⟩
    by_contra hlt
    have hgt : ¬k.toInt < a.toInt := by omega
    simp [opHolds, signOf, hgt, not_le.mp hlt] at h
  · refine ⟨fun he => (by cases he), ?_⟩
    by_contra hlt
    have hgt : ¬k.toInt < a.toInt := by omega
    simp [opHolds, signOf, hgt, not_le.mp hlt] at h

/-- On a row that passes the condition holds of the INT key. -/
theorem KeyCond.key (hkc : KeyCond t wc cond) (hk : t.IntKeyed) (hj : wc.Joined)
    (hnull : (values.getD 0 Value.init).isNull = false) (hname : cond.colName ≠ [])
    (hc : evalCond ops db.subTables t.tableDef.columns values cond = true) :
    (cond.op = .eq → (values.getD 0 Value.init).intVal = atoi cond.rawVal) ∧
      (atoi cond.rawVal).toInt ≤ (values.getD 0 Value.init).intVal.toInt := by
  obtain ⟨col, hcol, hcn⟩ := hkc.column
  obtain ⟨col', hcol', hint⟩ := hk.column
  obtain rfl := Option.some.inj (hcol.symm.trans hcol')
  have hplain : ¬(cond.isExists || cond.isNotExists) = true := fun he => hname (hj.exist cond hkc.mem he)
  have hval := hkc.hasValue
  unfold SingleCond.hasValue at hval
  simp only [Bool.and_eq_true, Bool.not_eq_true', decide_eq_true_eq] at hval
  obtain ⟨⟨⟨⟨hsub, -⟩, -⟩, -⟩, -⟩ := hval
  unfold evalCond at hc
  rw [if_neg hplain, ← hcn, findColumnCI_first hcol, Option.some_or] at hc
  dsimp only [Option.bind_some] at hc
  rw [hcol, Option.map_some] at hc
  dsimp only at hc
  rw [hsub, if_neg Bool.false_ne_true, evalOnColumn_int hint hnull hkc.seeks] at hc
  exact opHolds_key hkc.seeks hc

/-! ## The search for the key -/

/-- The cells with a number as their key. -/
theorem keyRun_int (ht : t.Searchable ops) (hk : t.IntKeyed) {target : Value} (hnull : target.isNull = false) :
    keyRun ops t target = t.cells.filter fun v => v.id = target.intVal := by
  have hsame : ∀ v ∈ t.cells, compareValues ops (t.tableDef.typeOf 0) (v.col 0) target = .eq ↔ v.id = target.intVal := by
    intro v hv
    rw [hk.typeOf]
    exact compareValues_int (hk.cells v hv) hnull
  unfold keyRun
  rw [btreeFind_int hk.typeOf, Ranked.drop_takeWhile,
    (ht.sorted hk.typeOf).run_eq_filter (fun v _ => belowId_int hk.typeOf target.intVal v) fun v hv => by
      rw [decide_eq_true_iff, hsame v hv, BitVec.toInt_inj]]
  exact List.filter_congr fun v hv => decide_eq_decide.mpr (hsame v hv)

/-- No two visible versions have the same key. -/
def RowTable.OneVisible (t : RowTable) (snapshot now : Nat) : Prop := ((t.shown snapshot now).cells.map Version.id).Nodup

instance (t : RowTable) (snapshot now : Nat) : Decidable (t.OneVisible snapshot now) :=
  inferInstanceAs (Decidable (List.Nodup _))

theorem RowTable.OneVisible.eq (hone : t.OneVisible snapshot now) {u : Version} (hu : u ∈ t.cells) (hv : v ∈ t.cells)
    (huv : u.visible snapshot now = true) (hvv : v.visible snapshot now = true) (hid : u.id = v.id) : u = v :=
  List.inj_on_of_nodup_map hone (List.mem_filter.mpr ⟨hu, huv⟩) (List.mem_filter.mpr ⟨hv, hvv⟩) hid

/-- The first visible version with a key is the only one. -/
theorem find_visible (ht : t.Searchable ops) (hk : t.IntKeyed) (hone : t.OneVisible snapshot now) {target : Value}
    (hnull : target.isNull = false) (hv : v ∈ t.cells) (hvis : v.visible snapshot now = true)
    (hid : v.id = target.intVal) : (keyRun ops t target).find? (fun v => v.visible snapshot now) = some v := by
  rw [keyRun_int ht hk hnull]
  have hmem : v ∈ t.cells.filter fun v => v.id = target.intVal := List.mem_filter.mpr ⟨hv, decide_eq_true hid⟩
  cases hf : (t.cells.filter fun v => v.id = target.intVal).find? fun v => v.visible snapshot now with
  | none => exact absurd hvis (List.find?_eq_none.mp hf v hmem)
  | some u =>
    obtain ⟨hu, huid⟩ := List.mem_filter.mp (List.mem_of_find?_eq_some hf)
    have huv : u.visible snapshot now = true := List.find?_some (p := fun v : Version => v.visible snapshot now) hf
    rw [hone.eq hu hv huv hvis ((of_decide_eq_true huid).trans hid.symm)]

/-- A search for a key finds the row of the visible version that has it. -/
theorem pkRow_int (ht : t.Searchable ops) (hk : t.IntKeyed) (hone : t.OneVisible snapshot now) {target : Value}
    (hnull : target.isNull = false) {row : List Value} : pkRow ops db t snapshot now wc target = some row ↔
      ∃ v ∈ t.cells, v.visible snapshot now = true ∧ evalWhereClause ops db t v.values wc = true ∧
        v.id = target.intVal ∧ v.values = row := by
  unfold pkRow
  constructor
  · intro h
    obtain ⟨v, hv, rfl⟩ := Option.map_eq_some_iff.mp h
    obtain ⟨hfind, hpass⟩ := Option.filter_eq_some_iff.mp hv
    have hmem := List.mem_of_find?_eq_some hfind
    rw [keyRun_int ht hk hnull] at hmem
    obtain ⟨hmem, hid⟩ := List.mem_filter.mp hmem
    have hvis : v.visible snapshot now = true := List.find?_some (p := fun v : Version => v.visible snapshot now) hfind
    exact ⟨v, hmem, hvis, hpass, of_decide_eq_true hid, rfl⟩
  · rintro ⟨v, hv, hvis, hpass, hid, rfl⟩
    rw [find_visible ht hk hone hnull hv hvis hid, Option.filter_some, if_pos hpass]
    rfl

/-! ## The search for the key selects what the scan does -/

theorem runSelectVm_passing : runSelectVm ops db t snapshot now wc = passingRows ops db t snapshot now wc t.cells := rfl

/-- What does not pass may be left out. -/
theorem passingRows_append (vs ws : List Version) : passingRows ops db t snapshot now wc (vs ++ ws) =
    passingRows ops db t snapshot now wc vs ++ passingRows ops db t snapshot now wc ws := List.filterMap_append ..

theorem passingRows_nil {vs : List Version} (h : ∀ v ∈ vs, evalWhereClause ops db t v.values wc = false) :
    passingRows ops db t snapshot now wc vs = [] := by
  unfold passingRows
  rw [List.filterMap_eq_nil_iff]
  intro v hv
  rw [h v hv, Bool.and_false]
  exact if_neg Bool.false_ne_true

theorem valueFromRaw_int {raw : Text} (h : raw ≠ []) :
    valueFromRaw ops .int raw false = { Value.init with intVal := atoi raw } := by
  unfold valueFromRaw
  rw [Bool.false_or, if_neg (by simpa using h)]
  rfl

theorem passingRows_filter (vs : List Version) : passingRows ops db t snapshot now wc vs =
    (vs.filter fun v => v.visible snapshot now && evalWhereClause ops db t v.values wc).map Version.values := by
  unfold passingRows
  rw [← List.filterMap_eq_map, List.filterMap_filter]
  rfl

/-- Of the versions that pass at most one is visible with a key. -/
theorem OneVisible.passing (hone : t.OneVisible snapshot now) {k : BitVec 32}
    (hkey : ∀ v ∈ t.cells, evalWhereClause ops db t v.values wc = true → v.id = k) :
    (t.cells.filter fun v => v.visible snapshot now && evalWhereClause ops db t v.values wc).length ≤ 1 := by
  have hsub : ((t.cells.filter fun v => v.visible snapshot now && evalWhereClause ops db t v.values wc).map
      Version.id).Nodup := by
    refine List.Nodup.sublist (List.Sublist.map _ ?_) hone
    exact List.monotone_filter_right _ fun v hv => (Bool.and_eq_true_iff.mp hv).1
  have hall : ∀ x ∈ (t.cells.filter fun v => v.visible snapshot now && evalWhereClause ops db t v.values wc).map
      Version.id, x = k := by
    intro x hx
    obtain ⟨v, hv, rfl⟩ := List.mem_map.mp hx
    obtain ⟨hmem, hpass⟩ := List.mem_filter.mp hv
    exact hkey v hmem (Bool.and_eq_true_iff.mp hpass).2
  have hrep := List.eq_replicate_of_mem hall
  rw [hrep, List.nodup_replicate, List.length_map] at hsub
  exact hsub

/-- A search for the key selects the rows of the scan, in the same order. -/
theorem pkSeek_eq_scan (ht : t.Searchable ops) (hk : t.IntKeyed) (hone : t.OneVisible snapshot now) (hj : wc.Joined)
    (hname : cond.colName ≠ []) (hpath : t.tableDef.accessPath wc = .pkSeek cond) :
    pkSeekRows ops db t snapshot now wc cond = runSelectVm ops db t snapshot now wc := by
  obtain ⟨hwhere, hand, hkc⟩ := accessPath_pkSeek hpath
  have hraw : cond.rawVal ≠ [] := by
    have hval := hkc.hasValue
    unfold SingleCond.hasValue at hval
    simp only [Bool.and_eq_true, decide_eq_true_eq] at hval
    exact hval.1.1.1.2
  have hkey : ∀ v ∈ t.cells, evalWhereClause ops db t v.values wc = true →
      (cond.op = .eq → v.id = atoi cond.rawVal) ∧ (atoi cond.rawVal).toInt ≤ v.id.toInt := fun v hv hpass =>
    hkc.key hk hj (hk.cells v hv) hname (hj.holds hand hwhere hpass cond hkc.mem)
  unfold pkSeekRows
  rw [hk.typeOf, valueFromRaw_int hraw, runSelectVm_passing]
  dsimp only
  split
  next heq =>
    rw [passingRows_filter]
    have hlen := OneVisible.passing hone fun v hv hpass => (hkey v hv hpass).1 heq
    have hrow : ∀ row, pkRow ops db t snapshot now wc { Value.init with intVal := atoi cond.rawVal } = some row ↔ _ :=
      fun row => pkRow_int ht hk hone rfl
    cases hf : t.cells.filter fun v => v.visible snapshot now && evalWhereClause ops db t v.values wc with
    | nil =>
      have hnone : pkRow ops db t snapshot now wc { Value.init with intVal := atoi cond.rawVal } = none := by
        refine Option.eq_none_iff_forall_ne_some.mpr fun row hsome => ?_
        obtain ⟨v, hv, hvis, hpass, -, -⟩ := (hrow row).mp hsome
        exact List.filter_eq_nil_iff.mp hf v hv (by rw [hvis, hpass]; rfl)
      rw [hnone]
      rfl
    | cons v vs =>
      rw [hf, List.length_cons] at hlen
      have hvs : vs = [] := List.length_eq_zero_iff.mp (by omega)
      obtain ⟨hv, hpass⟩ := List.mem_filter.mp (hf ▸ List.mem_cons_self : v ∈ t.cells.filter _)
      obtain ⟨hvis, hpass⟩ := Bool.and_eq_true_iff.mp hpass
      rw [(hrow v.values).mpr ⟨v, hv, hvis, hpass, (hkey v hv hpass).1 heq, rfl⟩, hvs]
      rfl
  next =>
    -- the cells in front of the cursor have smaller keys
    have hfront : passingRows ops db t snapshot now wc
        (t.cells.take (t.btreeFind ops { Value.init with intVal := atoi cond.rawVal })) = [] := by
      refine passingRows_nil fun v hv => Bool.eq_false_iff.mpr fun hpass => ?_
      rw [btreeFind_int hk.typeOf, ← List.prefix_iff_eq_take.mp (List.takeWhile_prefix _)] at hv
      have hbelow := (belowId_int hk.typeOf _ v).mp (List.mem_takeWhile_imp hv)
      have hle := (hkey v (List.takeWhile_subset _ hv) hpass).2
      exact absurd hle (not_le.mpr hbelow)
    conv_rhs => rw [← List.take_append_drop (t.btreeFind ops { Value.init with intVal := atoi cond.rawVal }) t.cells]
    rw [passingRows_append, hfront, List.nil_append]

/-! ## The search in an index -/

/-- The entry has the id of the version. -/
def Version.entryOf (v e : Version) : Bool := !(e.col 1).isNull && (e.col 1).intVal = v.id

/-- NULL is no key. -/
theorem pkRow_null (hk : t.IntKeyed) {target : Value} (hnull : target.isNull = true) :
    pkRow ops db t snapshot now wc target = none := by
  have hrun : keyRun ops t target = [] := by
    unfold keyRun
    cases hd : t.cells.drop (t.btreeFind ops target) with
    | nil => rfl
    | cons u us =>
      have hu : u ∈ t.cells := List.mem_of_mem_drop (hd ▸ List.mem_cons_self : u ∈ t.cells.drop _)
      refine List.takeWhile_cons_of_neg ?_
      unfold compareValues
      simp [hk.cells u hu, hnull]
  unfold pkRow
  rw [hrun]
  rfl

/-- The entries that lead to the row of a version are those with its id. -/
theorem pkRow_entryOf (ht : t.Searchable ops) (hk : t.IntKeyed) (hone : t.OneVisible snapshot now) (hv : v ∈ t.cells)
    (hvis : v.visible snapshot now = true) (hpass : evalWhereClause ops db t v.values wc = true) (e : Version) :
    pkRow ops db t snapshot now wc (e.col 1) = some v.values ↔ v.entryOf e = true := by
  unfold Version.entryOf
  cases hnull : (e.col 1).isNull with
  | true =>
    rw [pkRow_null hk hnull]
    exact iff_of_false nofun (by simp)
  | false =>
    rw [pkRow_int ht hk hone hnull, Bool.not_false, Bool.true_and, decide_eq_true_iff]
    constructor
    · rintro ⟨u, -, -, -, hid, hrow⟩
      rw [← hid]
      unfold Version.id Version.col
      rw [hrow]
    · exact fun hid => ⟨v, hv, hvis, hpass, hid.symm, rfl⟩

theorem OneVisible.nodup_values (hone : t.OneVisible snapshot now) : (runSelectVm ops db t snapshot now wc).Nodup := by
  rw [runSelectVm_passing, passingRows_filter]
  refine List.Nodup.of_map (fun row : List Value => (row.getD 0 Value.init).intVal) ?_
  rw [List.map_map]
  refine List.Nodup.sublist (List.Sublist.map _ ?_) hone
  exact List.monotone_filter_right _ fun v hv => (Bool.and_eq_true_iff.mp hv).1

/-- A search in an index selects the rows of the scan exactly if it goes through one entry for each of them. -/
theorem indexSeek_perm_iff (ht : t.Searchable ops) (hk : t.IntKeyed) (hone : t.OneVisible snapshot now) (idx : RowTable)
    (type : ColumnType) (cond : SingleCond) :
    (indexSeekRows ops db t snapshot now wc idx type cond).Perm (runSelectVm ops db t snapshot now wc) ↔
      ∀ v ∈ t.cells, v.visible snapshot now = true → evalWhereClause ops db t v.values wc = true →
        (soughtEntries ops idx type cond).countP v.entryOf = 1 := by
  have hcount : ∀ row, (indexSeekRows ops db t snapshot now wc idx type cond).count row =
      (soughtEntries ops idx type cond).countP fun e => pkRow ops db t snapshot now wc (e.col 1) = some row := by
    intro row
    unfold indexSeekRows
    rw [List.count_eq_countP, List.countP_filterMap]
    refine List.countP_congr fun e _ => ?_
    cases pkRow ops db t snapshot now wc (e.col 1) <;> simp
  have hrow : ∀ row, row ∈ runSelectVm ops db t snapshot now wc ↔ ∃ v ∈ t.cells, v.visible snapshot now = true ∧
      evalWhereClause ops db t v.values wc = true ∧ v.values = row := by
    intro row
    rw [runSelectVm_passing, passingRows_filter, List.mem_map]
    simp only [List.mem_filter, Bool.and_eq_true]
    exact ⟨fun ⟨v, ⟨hv, hvis, hpass⟩, hr⟩ => ⟨v, hv, hvis, hpass, hr⟩,
      fun ⟨v, hv, hvis, hpass, hr⟩ => ⟨v, ⟨hv, hvis, hpass⟩, hr⟩⟩
  have hentry : ∀ v ∈ t.cells, v.visible snapshot now = true → evalWhereClause ops db t v.values wc = true →
      (indexSeekRows ops db t snapshot now wc idx type cond).count v.values =
        (soughtEntries ops idx type cond).countP v.entryOf := by
    intro v hv hvis hpass
    rw [hcount]
    refine List.countP_congr fun e _ => ?_
    rw [decide_eq_true_iff]
    exact pkRow_entryOf ht hk hone hv hvis hpass e
  have hnodup := @OneVisible.nodup_values ops db t snapshot now wc hone
  rw [List.perm_iff_count]
  constructor
  · intro h v hv hvis hpass
    rw [← hentry v hv hvis hpass, h]
    exact List.count_eq_one_of_mem hnodup ((hrow _).mpr ⟨v, hv, hvis, hpass, rfl⟩)
  · intro h row
    by_cases hmem : row ∈ runSelectVm ops db t snapshot now wc
    · rw [List.count_eq_one_of_mem hnodup hmem]
      obtain ⟨v, hv, hvis, hpass, rfl⟩ := (hrow row).mp hmem
      rw [hentry v hv hvis hpass, h v hv hvis hpass]
    · rw [List.count_eq_zero_of_not_mem hmem, hcount, List.countP_eq_zero]
      intro e _ hsome
      have hsome := of_decide_eq_true hsome
      cases hnull : (e.col 1).isNull with
      | true =>
        rw [pkRow_null hk hnull] at hsome
        cases hsome
      | false =>
        obtain ⟨v, hv, hvis, hpass, -, hr⟩ := (pkRow_int ht hk hone hnull).mp hsome
        exact hmem ((hrow row).mpr ⟨v, hv, hvis, hpass, hr⟩)

/-! ## The paths agree -/

/-- A table with INT keys in their order can be searched. -/
theorem searchable_of_sorted (hc : t.tableDef.typeOf 0 = .int) (hs : Ranked.Sorted (fun v : Version => v.id.toInt) t.cells)
    (hstored : ∀ v ∈ t.cells, t.tableDef.storedRow ops.toFloatOps v.values = v.values) : t.Searchable ops := by
  refine ⟨hstored, fun id v hv => Bool.eq_false_iff.mpr fun hb => ?_⟩
  have hle := hs.le_of_dropWhile (k := id.toInt) (fun v _ => belowId_int hc id v) v hv
  exact absurd ((belowId_int hc id v).mp hb) (not_lt.mpr hle)

theorem idName_fits : ([105, 100] : List UInt8).length < 32 := by decide

def indexedPairColumns : List Column :=
  [intColumn [105, 100] idName_fits, { columnA with hasIndex := true, indexRootPage := 40 }]

theorem indexedPairColumns_le : indexedPairColumns.length ≤ maxColumns := by decide

/-- Two INT columns `id` and `a`, with an index on `a`. -/
def indexedPair : TableDef :=
  { compositeKey with columns := indexedPairColumns, columns_le := indexedPairColumns_le, pkCols := [] }

/-- The row (1, 10) after an UPDATE to (1, 20), and the row (2, 30). -/
def updatedPairs : RowTable := ⟨indexedPair, [⟨(pairRow 1 20).values, 0, 2, 0⟩, ⟨(pairRow 1 10).values, 0, 1, 2⟩, pairRow 2 30]⟩

/-- The index on `a`, with the entry that the UPDATE has left behind. -/
def updatedIndex : RowTable := ⟨indexedPair, [pairRow 10 1, pairRow 20 1, pairRow 30 2]⟩

theorem updatedPairs_searchable : updatedPairs.Searchable intOps :=
  searchable_of_sorted rfl (by unfold Ranked.Sorted; decide) (by decide)

theorem updatedPairs_keyed : updatedPairs.IntKeyed := ⟨⟨_, rfl, rfl⟩, by decide⟩

/-- `where id = 1 and a > 5`. -/
def whereKey : Text := ascii ['w', 'h', 'e', 'r', 'e', ' ', 'i', 'd', ' ', '=', ' ', '1', ' ', 'a', 'n', 'd', ' ', 'a', ' ', '>', ' ', '5']

/-- `a > 5`. -/
def aboveFive : SingleCond := { SingleCond.zero with colName := [97], op := .gt, rawVal := [53] }

def keyClause : WhereClause :=
  ⟨true, [{ SingleCond.zero with colName := [105, 100], rawVal := [49] }, aboveFive], [.and]⟩

theorem keyClause_path :
    indexedPair.accessPath keyClause = .pkSeek { SingleCond.zero with colName := [105, 100], rawVal := [49] } := by decide

end CustomDB
