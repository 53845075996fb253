import CustomDB.Sql.InsertText
import CustomDB.Rows.Delete

/-!
# What INSERT stores

One row of VALUES beside the row that SELECT returns of it. The statement says which text each column is given, by its
column list where it has one; `run_insert_vm` takes the texts by their places.
-/

namespace CustomDB

open Lib Lib.Program

/-- `MAX_REGISTERS`. -/
def maxRegisters : Nat := 16

/-- The statement made of a row of values. -/
def insertStmt (vs : List ValueToken) (expires : Nat) : InsertStmt where
  numValues := vs.length
  rawValues := vs.map ValueToken.raw
  dynRawValues := vs.map ValueToken.dyn
  rawIsNull := vs.map ValueToken.isNull
  boundValues := none
  conflictAction := .abort
  expiresSec := expires
  setPairs := []

/-- `run_insert_vm` with its register file: column `i` is loaded into register `i + 1`, so that a row of as many columns
as there are registers is written past them. -/
def runInsert (env : DmlEnv) (call : Call) (depth i : Nat) (s : InsertStmt) : Dml DmlResult := do
  let t ← tableAt i
  let db ← current
  match insertOutcome env.ops db t (s.autoincrement t) with
  | .row _ => if t.tableDef.columns.length < maxRegisters then runInsertVm env call depth i s else failure
  | _ => runInsertVm env call depth i s

/-- `execute_statement` on a text that is an INSERT of one row. -/
def executeInsert (env : DmlEnv) (call : Call) (depth : Nat) (p : Text) (expires : Nat) : Dml DmlResult :=
  match prepareInsert p with
  | none => failure
  | some q => do
    let db ← current
    match db.findTable q.tableName, q.rows with
    | none, _ => return .tableNotFound
    | some i, [vs] => runInsert env call depth i (insertStmt vs expires)
    | some _, _ => failure

/-! ## What is written for a column -/

section Wanted

variable (q : ParsedInsert) (t : RowTable) (vs : List ValueToken) (k : Nat) (col : Column)

/-- The value for column `k`: the one at its place in the column list, or at its own where there is none. -/
def ParsedInsert.valueOf : Option ValueToken :=
  if q.colList = [] then vs[k]?
  else (q.colList.findIdx? fun name => t.tableDef.findColumn name = some k).bind fun j => vs[j]?

/-- The next number of an AUTOINCREMENT column. -/
def RowTable.nextId : BitVec 32 :=
  t.cells.foldl (fun m v => if m.slt (v.col k).intVal then (v.col k).intVal else m) 0 + 1

/-- The text that column `k` shall have; `none` is NULL. -/
def ParsedInsert.wanted : Option Text :=
  match q.valueOf t vs k with
  | none =>
    if col.isAutoincrement then some (printInt (t.nextId k))
    else if col.hasDefault then some col.defaultVal.str
    else none
  | some v =>
    if col.isAutoincrement && (v.isNull || atoi v.text = 0) then some (printInt (t.nextId k))
    else if v.isNull then none
    else some v.text

end Wanted

section Columns

variable (ops : WhereOps) (c : ColumnType)

/-- The value is a text converted to its type. -/
def HoldsText (v : Value) : Option Text → Prop
  | none => v.isNull = true
  | some w =>
    v.isNull = false ∧
    match c with
    | .int => v.intVal = atoi w
    | .bool => v.boolVal = boolOf w
    | .float => v.floatVal = ops.narrow (ops.atof w)
    | .double | .numeric | .decimal => v.doubleVal = ops.atof w
    | .blob | .datetime | .date | .time | .timestamp | .text | .varchar | .vector => v.textVal = w

/-- Two texts are the same value of a type; a BOOL column must not be given true. -/
def Agrees : Option Text → Option Text → Prop
  | none, none => True
  | some a, some b =>
    match c with
    | .int => atoi a = atoi b
    | .bool => boolOf b = false
    | .float => ops.narrow (ops.atof a) = ops.narrow (ops.atof b)
    | .double | .numeric | .decimal => ops.atof a = ops.atof b
    | .blob | .datetime | .date | .time | .timestamp | .text | .varchar | .vector => a = b
  | _, _ => False

end Columns

/-! ## One column -/

section Column

variable {ops : WhereOps} {s : InsertStmt} {k : Nat} {col : Column} {a : Text} {v : Value}

/-- A literal is stored as its text converted, except that a BOOL column is false. -/
theorem literalRegister_holds (hzero : ∀ d, nonzero d = false → ops.widen (ops.narrow d) = d)
    (h : literalRegister ops col a = .ok v) (b : Text) :
    HoldsText ops col.type (v.stored ops.toFloatOps col.type) (some b) ↔ Agrees ops col.type (some a) (some b) := by
  unfold literalRegister at h
  cases hc : col.type with
  | int =>
    rw [hc] at h
    obtain rfl := Except.ok.inj h
    exact and_iff_right rfl
  | bool =>
    rw [hc] at h
    obtain rfl := Except.ok.inj h
    exact (and_iff_right rfl).trans eq_comm
  | float =>
    rw [hc] at h
    obtain rfl := Except.ok.inj h
    refine (and_iff_right rfl).trans (Eq.congr_left ?_)
    show ops.narrow (if nonzero (ops.atof a) then ops.atof a else ops.widen (ops.narrow (ops.atof a))) = _
    split
    next => rfl
    next hnz => rw [hzero _ (Bool.eq_false_iff.mpr hnz)]
  | double | numeric | decimal =>
    rw [hc] at h
    obtain rfl := Except.ok.inj h
    exact and_iff_right rfl
  | blob | text | vector =>
    rw [hc] at h
    obtain rfl := Except.ok.inj h
    rw [Value.stored_text ?_ rfl rfl]
    · exact and_iff_right rfl
    · unfold IsText
      decide
  | datetime | date | time | timestamp | varchar =>
    rw [hc] at h
    dsimp only at h
    split at h
    · cases h
    · obtain rfl := Except.ok.inj h
      rw [Value.stored_text ?_ rfl rfl]
      · exact and_iff_right rfl
      · unfold IsText
        decide

theorem literalRegister_isNull (h : literalRegister ops col a = .ok v) : v.isNull = false := by
  unfold literalRegister at h
  cases hc : col.type with
  | int | bool | float | double | numeric | decimal | blob | text | vector =>
    rw [hc] at h
    obtain rfl := Except.ok.inj h
    rfl
  | datetime | date | time | timestamp | varchar =>
    rw [hc] at h
    dsimp only at h
    split at h
    · cases h
    · obtain rfl := Except.ok.inj h
      rfl

/-- A column of the row that INSERT stores holds what is wanted of it exactly if the text taken for it is the same
value. -/
theorem register_holds (hzero : ∀ d, nonzero d = false → ops.widen (ops.narrow d) = d) (hb : s.boundValues = none)
    (h : register ops s k col = .ok v) (w : Option Text) :
    HoldsText ops col.type (v.stored ops.toFloatOps col.type) w ↔ Agrees ops col.type (s.given k col) w := by
  unfold register at h
  rw [hb] at h
  dsimp only at h
  cases hg : s.given k col with
  | none =>
    rw [hg] at h
    obtain rfl := Except.ok.inj h
    rw [Value.stored_null rfl]
    cases w with
    | none => exact iff_of_true rfl trivial
    | some b => exact iff_of_false (fun hh => Bool.false_ne_true hh.1.symm) id
  | some a =>
    rw [hg] at h
    cases w with
    | none =>
      refine iff_of_false (fun hh => ?_) id
      have hnull : (v.stored ops.toFloatOps col.type).isNull = true := hh
      rw [Value.stored_isNull, literalRegister_isNull h] at hnull
      exact Bool.false_ne_true hnull
    | some b => exact literalRegister_holds hzero h b

end Column

/-! ## The row -/

section Row

variable {env : DmlEnv} {call : Call} {depth i : Nat} {r : Trace RowDb RowStep} {t : RowTable} {s : InsertStmt}
  {values : List Value}

theorem loadRegister_ok {ops : WhereOps} {db : RowDb} {k : Nat} {col : Column} {v : Value}
    (h : loadRegister ops db s k col = .ok v) : register ops s k col = .ok v := by
  unfold loadRegister at h
  dsimp only at h
  split at h
  · cases h
  · split at h
    · cases h
    · split at h
      · cases h
      · exact h

/-- The row that is accepted has the registers of its columns. -/
theorem insertOutcome_registers {ops : WhereOps} {db : RowDb} (h : insertOutcome ops db t s = .row values) {k : Nat}
    {col : Column} (hcol : t.tableDef.columns[k]? = some col) :
    register ops s k col = .ok (values.getD k Value.init) := by
  have hload : loadRegisters ops db s t.tableDef = .ok values := by
    unfold insertOutcome at h
    split at h
    · cases h
    next values' hvalues =>
      rw [hvalues]
      split at h
      · cases h
      · split at h <;> split at h <;> first | cases h; rfl | cases h
  obtain ⟨hlt, rfl⟩ := List.getElem?_eq_some_iff.mp hcol
  have hall := forall₂_of_mapM hload
  obtain ⟨hlen, hget⟩ := List.forall₂_iff_get.mp hall
  rw [List.length_zipIdx] at hlen
  have hk := hget k (by rw [List.length_zipIdx]; exact hlt) (hlen ▸ hlt)
  simp only [List.get_eq_getElem, List.getElem_zipIdx, Nat.zero_add] at hk
  rw [List.getD_eq_getElem _ _ (hlen ▸ hlt)]
  exact loadRegister_ok hk

theorem autoincrement_boundValues (s : InsertStmt) (t : RowTable) : (s.autoincrement t).boundValues = s.boundValues := by
  unfold InsertStmt.autoincrement
  split
  · dsimp only
    split <;> rfl
  · rfl

theorem expireAt_le (t : RowTable) (s : InsertStmt) (now : Nat) : expireAt t s now = 0 ∨ now ≤ expireAt t s now := by
  unfold expireAt
  generalize (if 0 < s.expiresSec then s.expiresSec else t.tableDef.defaultTtl.toNat) = ttl
  dsimp only
  split
  · exact Or.inr (Nat.le_add_right _ _)
  · exact Or.inl rfl

theorem visible_of_new {v : Version} {snapshot now : Nat} (hexpire : v.expireAt = 0 ∨ now ≤ v.expireAt)
    (hxmin : v.xmin ≤ snapshot) (hxmax : v.xmax = 0) : v.visible snapshot now = true := by
  have hactive : (v.expireAt = 0 ∨ now = 0) ∨ now ≤ v.expireAt := by omega
  unfold Version.visible Version.alive Version.live
  simpa [hxmin, hxmax] using hactive

/-- A version that is visible is one row more, and the others stay as they are. -/
theorem btreeInsert_rows (ops : WhereOps) (t : RowTable) (key : Value) {v : Version} {snapshot now : Nat}
    (hv : v.visible snapshot now = true) : ((t.btreeInsert ops key v).rows snapshot now).Perm
      ((t.tableDef.storedRow ops.toFloatOps v.values, v.expireAt) :: t.rows snapshot now) := by
  set w : Version := { v with values := t.tableDef.storedRow ops.toFloatOps v.values } with hw
  have hshown : w.visible snapshot now = true := hv
  have hperm := ((btreeInsert_perm ops t key v).filter fun v => v.visible snapshot now).map
    fun v : Version => (v.values, v.expireAt)
  rw [← hw, List.filter_cons, if_pos hshown] at hperm
  exact hperm

/-- The version that INSERT stores. -/
def newVersion (env : DmlEnv) (r : Trace RowDb RowStep) (t : RowTable) (s : InsertStmt) (values : List Value) : Version :=
  ⟨values, expireAt t s (startTime env r), r.state.txnXid, 0⟩

/-- An accepted INSERT puts its row into the table. -/
theorem runInsertVm_accepted (hi : r.state.tables[i]? = some t) (hq : Untriggered env t.tableDef .insert)
    (hacc : insertOutcome env.ops r.state t (s.autoincrement t) = .row values) :
    ∃ r', runInsertVm env call depth i s r = some (.success, r') ∧ r'.state.tables = r.state.tables.set i
      (t.btreeInsert env.ops (values.headD Value.init) (newVersion env r t (s.autoincrement t) values)) := by
  obtain ⟨auto, r₁, hbegin, hsame, hi₁, htxn, htimeNow⟩ := beginAuto_table env hi
  have hacc₁ : insertOutcome env.ops r₁.state t (s.autoincrement t) = .row values := by
    rw [← hacc]
    unfold insertOutcome loadRegisters loadRegister RowDb.findTable
    rw [hsame.tables, htxn]
  set now := startTime env r with hnow
  set u := t.btreeInsert env.ops (values.headD Value.init) (newVersion env r t (s.autoincrement t) values) with hu
  have hemit : emit env (.insert i (s.autoincrement t) now) r₁ =
      some ((), ⟨r₁.state.setTable i u, r₁.steps ++ [.insert i (s.autoincrement t) now]⟩) := by
    unfold emit take
    show Option.map _ ((r₁.state.tables[i]?).bind _) = _
    rw [hi₁]
    show Option.map _ (match insertOutcome env.ops r₁.state t (s.autoincrement t) with | .row values => _ | _ => _) = _
    rw [hacc₁, hu, newVersion, ← htxn]
    rfl
  have hset : RowsSet r₁ ⟨r₁.state.setTable i u, r₁.steps ++ [.insert i (s.autoincrement t) now]⟩ i u := ⟨rfl, rfl⟩
  obtain ⟨r₃, hcommit, htables⟩ := commitAuto_run env auto
    ⟨r₁.state.setTable i u, r₁.steps ++ [.insert i (s.autoincrement t) now]⟩
  have hi₃ : r₃.state.tables[i]? = some u := by rw [htables]; exact hset.getElem hi₁
  refine ⟨r₃, ?_, by rw [htables, hset.tables, hsame.tables]⟩
  unfold runInsertVm
  rw [bind_run hbegin, bind_run (fireTriggers_run hi₁ hq _ _ _), bind_run (tableAt_run hi₁),
    bind_run (show current r₁ = some (r₁.state, r₁) from rfl), hacc₁]
  dsimp only
  rw [bind_run htimeNow, bind_run hemit, bind_run hcommit, bind_run (fireTriggers_run hi₃ hq _ _ _)]
  rfl

/-- What an accepted INSERT leaves of the table. -/
theorem runInsertVm_rows (hi : r.state.tables[i]? = some t) (hq : Untriggered env t.tableDef .insert)
    (hacc : insertOutcome env.ops r.state t (s.autoincrement t) = .row values) :
    ∃ r' t', runInsertVm env call depth i s r = some (.success, r') ∧ r'.state.tables[i]? = some t' ∧
      (t'.rows r.state.txnXid (startTime env r)).Perm
        ((t.tableDef.storedRow env.ops.toFloatOps values, expireAt t (s.autoincrement t) (startTime env r)) ::
          t.rows r.state.txnXid (startTime env r)) := by
  obtain ⟨r', hrun, htables⟩ := @runInsertVm_accepted env call depth i r t s values hi hq hacc
  have hvisible : (newVersion env r t (s.autoincrement t) values).visible r.state.txnXid (startTime env r) = true :=
    visible_of_new (expireAt_le t _ _) (le_refl r.state.txnXid) rfl
  refine ⟨r', _, hrun, ?_, btreeInsert_rows env.ops t (values.headD Value.init) hvisible⟩
  rw [htables]
  exact List.getElem?_set_self (List.getElem?_eq_some_iff.mp hi).1

end Row

/-! ## INSERT, then SELECT -/

/-- INSERT succeeds, and the rows that SELECT returns then are one more than before: one that holds in each column what
was written for it. -/
def SelectsWritten (env : DmlEnv) (call : Call) (depth i : Nat) (r : Trace RowDb RowStep) (t : RowTable) (p : Text)
    (q : ParsedInsert) (vs : List ValueToken) (expires : Nat) : Prop :=
  ∃ r' t' row, executeInsert env call depth p expires r = some (.success, r') ∧ r'.state.tables[i]? = some t' ∧
    (t'.rows r.state.txnXid (startTime env r)).Perm (row :: t.rows r.state.txnXid (startTime env r)) ∧
    ∀ k col, t.tableDef.columns[k]? = some col → HoldsText env.ops col.type (row.1.getD k Value.init) (q.wanted t vs k col)

theorem head_eq_of_perm {α : Type} {a b : α} {l : List α} (h : (a :: l).Perm (b :: l)) : a = b :=
  List.singleton_perm_singleton.mp ((List.perm_append_right_iff l).mp h)

section Main

variable {env : DmlEnv} {call : Call} {depth i : Nat} {r : Trace RowDb RowStep} {t : RowTable} {s : InsertStmt}
  {values : List Value}

theorem runInsert_fits (hi : r.state.tables[i]? = some t)
    (hacc : insertOutcome env.ops r.state t (s.autoincrement t) = .row values)
    (hfit : t.tableDef.columns.length < maxRegisters) :
    runInsert env call depth i s r = runInsertVm env call depth i s r := by
  unfold runInsert
  rw [bind_run (tableAt_run hi), bind_run (show current r = some (r.state, r) from rfl), hacc]
  dsimp only
  rw [if_pos hfit]

theorem runInsert_past (hi : r.state.tables[i]? = some t)
    (hacc : insertOutcome env.ops r.state t (s.autoincrement t) = .row values)
    (hpast : ¬ t.tableDef.columns.length < maxRegisters) : runInsert env call depth i s r = none := by
  unfold runInsert
  rw [bind_run (tableAt_run hi), bind_run (show current r = some (r.state, r) from rfl), hacc]
  dsimp only
  rw [if_neg hpast]
  rfl

end Main

/-! ## A column list out of order -/

/-- Floats as the upper halves of doubles. -/
def wideOps : WhereOps :=
  { intOps with widen := fun f => f.setWidth 64 <<< 32, narrow := fun d => (d >>> 32).setWidth 32 }

theorem wideOps_zero (d : BitVec 64) (hd : nonzero d = false) : wideOps.widen (wideOps.narrow d) = d := by
  have hsign : ¬ d = 0#64 → d = 9223372036854775808#64 := by simpa [nonzero] using hd
  by_cases h0 : d = 0
  · rw [h0]
    decide
  · rw [hsign h0]
    decide

/-- Nothing outside the rows, and floats. -/
def floatEnv : DmlEnv := { rowsEnv with ops := wideOps }

/-- `t (id INT, a INT, PRIMARY KEY (id, a))`, empty. -/
def emptyPairs : RowTable := ⟨compositeKey, []⟩
def emptyPairsDb : RowDb := ⟨[emptyPairs], none, false, 0, false⟩

/-- INSERT INTO t VALUES (1,2), and INSERT INTO t(a,id) VALUES (1,2). -/
def insertPlain : Text :=
  ascii ['I', 'N', 'S', 'E', 'R', 'T', ' ', 'I', 'N', 'T', 'O', ' ', 't', ' ', 'V', 'A', 'L', 'U', 'E', 'S', ' ',
    '(', '1', ',', '2', ')']
def insertSwapped : Text :=
  ascii ['I', 'N', 'S', 'E', 'R', 'T', ' ', 'I', 'N', 'T', 'O', ' ', 't', '(', 'a', ',', 'i', 'd', ')', ' ',
    'V', 'A', 'L', 'U', 'E', 'S', ' ', '(', '1', ',', '2', ')']

/-- A literal that fits into the array. -/
def token (b : UInt8) : ValueToken := ⟨[b], none, false⟩

def plainParsed : ParsedInsert := ⟨[116], [], [[token 49, token 50]], []⟩
def swappedParsed : ParsedInsert := ⟨[116], [[97], [105, 100]], [[token 49, token 50]], []⟩

theorem emptyPairs_untriggered : Untriggered floatEnv emptyPairs.tableDef .insert :=
  ⟨fun _ h => absurd h List.not_mem_nil, rfl⟩

/-- The rows after an INSERT. -/
def insertedRows (p : Text) : Option (DmlResult × List (List (List (BitVec 32) × Nat))) :=
  (executeInsert floatEnv (run floatEnv 0) 0 p 0 ⟨emptyPairsDb, []⟩).map fun r =>
    (r.1, r.2.state.tables.map fun t => (t.rows 1 0).map rowInts)

theorem emptyPairs_accepts : ∃ values, insertOutcome floatEnv.ops emptyPairsDb emptyPairs
    ((insertStmt [token 49, token 50] 0).autoincrement emptyPairs) = .row values :=
  ⟨[{ Value.init with intVal := 1 }, { Value.init with intVal := 2 }], rfl⟩

end CustomDB
