import CustomDB.Rows.Copied
import CustomDB.Rows.Traced

/-!
# INSERT ... SELECT

The loop goes through every cell of the source, whatever its trailers say, and runs an INSERT for each that satisfies
WHERE, into the table that the WHERE clause of the next turn may read.
-/

namespace CustomDB

open Lib Lib.Program

/-! ## INSERT succeeds only where the row is accepted -/

theorem mapM_error {α β ε : Type} {f : α → Except ε β} {l : List α} {e : ε} (h : l.mapM f = .error e) :
    ∃ x ∈ l, f x = .error e := by
  induction l with
  | nil =>
    rw [List.mapM_nil] at h
    cases h
  | cons x l ih =>
    rw [List.mapM_cons] at h
    cases hx : f x with
    | error e' =>
      rw [hx] at h
      obtain rfl := Except.error.inj h
      exact ⟨x, List.mem_cons_self, hx⟩
    | ok b =>
      cases hl : l.mapM f with
      | error e' =>
        rw [hx, hl] at h
        obtain rfl := Except.error.inj h
        obtain ⟨y, hy, he⟩ := ih hl
        exact ⟨y, List.mem_cons_of_mem _ hy, he⟩
      | ok bs =>
        rw [hx, hl] at h
        cases h

theorem literalRegister_error {ops : WhereOps} {col : Column} {raw : Text} {e : DmlResult}
    (h : literalRegister ops col raw = .error e) : e = .badSchema := by
  unfold literalRegister at h
  cases hc : col.type with
  | int | bool | float | double | numeric | decimal | blob | text | vector =>
    rw [hc] at h
    cases h
  | datetime | date | time | timestamp | varchar =>
    rw [hc] at h
    dsimp only at h
    split at h
    · exact (Except.error.inj h).symm
    · cases h

/-- A check that fails is no success. -/
theorem loadRegister_error {ops : WhereOps} {db : RowDb} {s : InsertStmt} {k : Nat} {col : Column} {e : DmlResult}
    (h : loadRegister ops db s k col = .error e) : e ≠ .success := by
  unfold loadRegister at h
  dsimp only at h
  split at h
  · obtain rfl := Except.error.inj h
    decide
  · split at h
    · obtain rfl := Except.error.inj h
      decide
    · split at h
      · obtain rfl := Except.error.inj h
        decide
      · unfold register at h
        split at h
        · cases h
        · split at h
          · cases h
          · rw [literalRegister_error h]
            decide

theorem insertOutcome_refused {ops : WhereOps} {db : RowDb} {t : RowTable} {s : InsertStmt} {e : DmlResult}
    (h : insertOutcome ops db t s = .refused e) : e ≠ .success := by
  unfold insertOutcome at h
  split at h
  next e' hload =>
    obtain rfl := InsertOutcome.refused.inj h
    obtain ⟨ci, -, he⟩ := mapM_error hload
    exact loadRegister_error he
  next =>
    split at h
    · obtain rfl := InsertOutcome.refused.inj h
      decide
    · split at h
      · split at h
        · obtain rfl := InsertOutcome.refused.inj h
          decide
        · cases h
      · split at h <;> cases h

theorem autoincrement_conflictAction (s : InsertStmt) (t : RowTable) :
    (s.autoincrement t).conflictAction = s.conflictAction := by
  unfold InsertStmt.autoincrement
  split
  · dsimp only
    split <;> rfl
  · rfl

section Runs

variable {env : DmlEnv} {call : Call} {depth i source : Nat} {r r' : Trace RowDb RowStep} {t src : RowTable} {s : InsertStmt}

theorem insertOutcome_same {ops : WhereOps} {db db' : RowDb} (htables : db'.tables = db.tables) (htxn : db'.txnXid = db.txnXid) :
    insertOutcome ops db' t s = insertOutcome ops db t s := by
  unfold insertOutcome loadRegisters loadRegister RowDb.findTable
  rw [htables, htxn]

/-- INSERT comes to the end of its checks. -/
theorem runInsertVm_refused {result e : DmlResult} (hi : r.state.tables[i]? = some t) (hq : Untriggered env t.tableDef .insert)
    (hout : insertOutcome env.ops r.state t (s.autoincrement t) = .refused e)
    (hrun : runInsertVm env call depth i s r = some (result, r')) : result = e := by
  obtain ⟨auto, r₁, hbegin, hsame, hi₁, htxn, -⟩ := beginAuto_table env hi
  unfold runInsertVm at hrun
  rw [bind_run hbegin, bind_run (fireTriggers_run hi₁ hq _ _ _), bind_run (tableAt_run hi₁),
    bind_run (show current r₁ = some (r₁.state, r₁) from rfl), insertOutcome_same hsame.tables htxn, hout] at hrun
  obtain ⟨⟨u, r₂⟩, -, hresult⟩ := Option.bind_eq_some_iff.mp hrun
  exact (Prod.mk.inj (Option.some.inj hresult)).1.symm

/-- INSERT comes to a conflict, in an open transaction. -/
theorem runInsertVm_conflict {target : Value} (hi : r.state.tables[i]? = some t) (hq : Untriggered env t.tableDef .insert)
    (hout : insertOutcome env.ops r.state t (s.autoincrement t) = .conflict target) :
    ∃ auto r₁, RowsSame r r₁ ∧ r₁.state.begun.isSome = true ∧ env.time r₁.steps.length = startTime env r ∧
      runInsertVm env call depth i s r = resolveConflict env call depth auto i (s.autoincrement t) t target r₁ := by
  obtain ⟨auto, r₁, hbegin, hsame, hi₁, htxn, htimeNow⟩ := beginAuto_table env hi
  have htime : env.time r₁.steps.length = startTime env r := (Prod.mk.inj (Option.some.inj htimeNow)).1
  refine ⟨auto, r₁, hsame, (beginAuto_open env hbegin).1, htime, ?_⟩
  unfold runInsertVm
  rw [bind_run hbegin, bind_run (fireTriggers_run hi₁ hq _ _ _), bind_run (tableAt_run hi₁),
    bind_run (show current r₁ = some (r₁.state, r₁) from rfl), insertOutcome_same hsame.tables htxn, hout]

theorem runInsertVm_success (hi : r.state.tables[i]? = some t) (hq : Untriggered env t.tableDef .insert)
    (habort : s.conflictAction = .abort) (hrun : runInsertVm env call depth i s r = some (.success, r')) :
    ∃ values, insertOutcome env.ops r.state t (s.autoincrement t) = .row values := by
  cases hout : insertOutcome env.ops r.state t (s.autoincrement t) with
  | row values => exact ⟨values, rfl⟩
  | refused e => exact absurd (runInsertVm_refused hi hq hout hrun).symm (insertOutcome_refused hout)
  | conflict target =>
    obtain ⟨auto, r₁, -, -, -, hconflict⟩ := @runInsertVm_conflict env call depth i r t s target hi hq hout
    rw [hconflict] at hrun
    unfold resolveConflict at hrun
    rw [autoincrement_conflictAction, habort] at hrun
    obtain ⟨⟨u, r₂⟩, -, hresult⟩ := Option.bind_eq_some_iff.mp hrun
    cases (Prod.mk.inj (Option.some.inj hresult)).1

/-- What a successful INSERT did. -/
theorem runInsertVm_done (hi : r.state.tables[i]? = some t) (hq : Untriggered env t.tableDef .insert)
    (habort : s.conflictAction = .abort) (hrun : runInsertVm env call depth i s r = some (.success, r')) :
    ∃ values, insertOutcome env.ops r.state t (s.autoincrement t) = .row values ∧ r'.state.tables = r.state.tables.set i
      (t.btreeInsert env.ops (values.headD Value.init) (newVersion env r t (s.autoincrement t) values)) := by
  obtain ⟨values, hacc⟩ := runInsertVm_success hi hq habort hrun
  obtain ⟨r₁, hrun₁, htables⟩ := @runInsertVm_accepted env call depth i r t s values hi hq hacc
  obtain rfl : r₁ = r' := (Prod.mk.inj (Option.some.inj (hrun₁.symm.trans hrun))).2
  exact ⟨values, hacc, htables⟩

end Runs

/-! ## The loop -/

/-- The table has its rows and new ones besides, which stay visible for the transactions from `txn` on. -/
def Gains (now txn : Nat) (rows : List (List Value)) (t t' : RowTable) : Prop :=
  ∃ news : List Version, t'.cells.Perm (news ++ t.cells) ∧ news.map Version.values = rows ∧
    ∀ w ∈ news, w.xmax = 0 ∧ w.xmin ≤ txn ∧ (w.expireAt = 0 ∨ now ≤ w.expireAt)

section Loop

variable {env : DmlEnv} {depth i source now : Nat} {wc : WhereClause} {src : RowTable} {m : List Value → Bool} {d : TableDef}

theorem Gains.rows {txn snapshot : Nat} {rows : List (List Value)} {t t' : RowTable} (h : Gains now txn rows t t')
    (hs : txn ≤ snapshot) : ((t'.rows snapshot now).map Prod.fst).Perm (rows ++ (t.rows snapshot now).map Prod.fst) := by
  obtain ⟨news, hperm, rfl, hnews⟩ := h
  have hvisible : ∀ w ∈ news, w.visible snapshot now = true := fun w hw => by
    obtain ⟨hmax, hmin, hexpire⟩ := hnews w hw
    exact visible_of_new hexpire (le_trans hmin hs) hmax
  have hfst : ∀ u : RowTable, (u.rows snapshot now).map Prod.fst =
      (u.cells.filter fun v => v.visible snapshot now).map Version.values := fun u => List.map_map
  have hshown := (hperm.filter fun v => v.visible snapshot now).map Version.values
  rw [List.filter_append, List.filter_eq_self.mpr hvisible, List.map_append] at hshown
  rw [hfst, hfst]
  exact hshown

/-- Where the target stands when the loop turns: its definition and key are as they were, and the WHERE clause of the
source reads nothing that the loop changes. -/
structure Turning (env : DmlEnv) (i source now : Nat) (wc : WhereClause) (src : RowTable) (m : List Value → Bool) (d : TableDef)
    (r : Trace RowDb RowStep) (t : RowTable) : Prop where
  target : r.state.tables[i]? = some t
  tableDef : t.tableDef = d
  source : r.state.tables[source]? = some src
  reads : ∀ db : RowDb, (∃ u, db.tables = r.state.tables.set i u) → ∀ values, rowMatches env db src values wc = m values
  later : now ≤ env.time r.steps.length

theorem Turning.matches {r : Trace RowDb RowStep} {t : RowTable} (h : Turning env i source now wc src m d r t) (values : List Value) :
    rowMatches env r.state src values wc = m values := by
  obtain ⟨hlt, rfl⟩ := List.getElem?_eq_some_iff.mp h.target
  exact h.reads r.state ⟨_, (List.set_getElem_self hlt).symm⟩ values

/-- One more row, then the others. -/
theorem Gains.cons {txn txn' : Nat} {row : List Value} {rows : List (List Value)} {t u t' : RowTable}
    (h : Gains now txn [row] t u) (h' : Gains now txn' rows u t') (hle : txn ≤ txn') : Gains now txn' (row :: rows) t t' := by
  obtain ⟨ws, hws, hrow, hnew⟩ := h
  obtain ⟨news, hnews, hrows, hall⟩ := h'
  refine ⟨ws ++ news, ?_, by rw [List.map_append, hrow, hrows]; rfl, fun w hw => ?_⟩
  · have hperm : t'.cells.Perm (news ++ (ws ++ t.cells)) := hnews.trans (List.Perm.append_left news hws)
    rw [← List.append_assoc] at hperm
    exact hperm.trans (List.perm_append_comm.append_right _)
  · rcases List.mem_append.mp hw with hw | hw
    · obtain ⟨hmax, hmin, hexpire⟩ := hnew w hw
      exact ⟨hmax, le_trans hmin hle, hexpire⟩
    · exact hall w hw

/-- One turn that inserts. -/
theorem insertRow_gains {fuel : Nat} {r r₁ : Trace RowDb RowStep} {t : RowTable} {v : Version} (hne : i ≠ source)
    (hclock : ∀ m n, m ≤ n → env.time m ≤ env.time n) (hq : Untriggered env d .insert)
    (hlen : src.tableDef.columns.length = d.columns.length) (hkey : KeepsId env d src.tableDef v.values)
    (h : Turning env i source now wc src m d r t)
    (hrun : run env fuel depth (.insert i (selectedRow env d src.tableDef v.values)) r = some (.success, r₁)) :
    ∃ u, Gains now r₁.state.txnXid [copiedRow env d src.tableDef v.values] t u ∧ Turning env i source now wc src m d r₁ u := by
  obtain ⟨hlater, htxn⟩ := Steps.later (steps_run fuel depth _) hrun
  cases fuel with
  | zero => cases hrun
  | succ fuel =>
    obtain rfl := h.tableDef
    obtain ⟨values, hacc, htables⟩ := runInsertVm_done h.target hq rfl hrun
    rw [selectedRow_autoincrement rfl hlen hkey] at hacc htables
    have hnow : now ≤ startTime env r := h.later.trans (le_startTime hclock r)
    have hlt := (List.getElem?_eq_some_iff.mp h.target).1
    refine ⟨_, ⟨_, (btreeInsert_perm env.ops t _ _).trans (List.Perm.refl ([_] ++ t.cells)), ?_, fun w hw => ?_⟩,
      ⟨by rw [htables]; exact List.getElem?_set_self hlt, rfl, ?_, fun db hdb => ?_, ?_⟩⟩
    · exact congrArg (fun row => [row]) (storedRow_copied rfl hlen hacc)
    · rw [List.mem_singleton.mp hw]
      refine ⟨rfl, htxn, ?_⟩
      exact (expireAt_le t _ (startTime env r)).imp id hnow.trans
    · rw [htables, List.getElem?_set_ne hne]
      exact h.source
    · obtain ⟨u, hu⟩ := hdb
      exact h.reads db ⟨u, by rw [hu, htables, List.set_set]⟩
    · exact h.later.trans (hclock _ _ hlater)

theorem copyRows_gains (hne : i ≠ source) (hclock : ∀ m n, m ≤ n → env.time m ≤ env.time n)
    (hq : Untriggered env d .insert) (hlen : src.tableDef.columns.length = d.columns.length)
    (hkeys : ∀ v ∈ src.cells, m v.values = true → KeepsId env d src.tableDef v.values) (fuel : Nat) :
    ∀ (cursor : Nat) (r r' : Trace RowDb RowStep) (t : RowTable), Turning env i source now wc src m d r t →
      run env fuel depth (.copy i source wc cursor) r = some (.success, r') →
      ∃ t', r'.state.tables[i]? = some t' ∧ Gains now r'.state.txnXid
        (((src.cells.drop cursor).filter fun v => m v.values).map fun v => copiedRow env d src.tableDef v.values) t t' := by
  induction fuel with
  | zero =>
    intro cursor r r' t _ hrun
    cases hrun
  | succ fuel ih =>
    intro cursor r r' t h hrun
    change copyRows env (run env fuel) depth i source wc cursor r = some (.success, r') at hrun
    unfold copyRows at hrun
    rw [bind_run (show current r = some (r.state, r) from rfl), bind_run (tableAt_run h.source)] at hrun
    cases hcell : src.cells[cursor]? with
    | none =>
      rw [hcell] at hrun
      obtain rfl : r = r' := (Prod.mk.inj (Option.some.inj hrun)).2
      rw [List.drop_eq_nil_of_le (List.getElem?_eq_none_iff.mp hcell)]
      exact ⟨t, h.target, [], List.Perm.refl _, rfl, fun w hw => absurd hw List.not_mem_nil⟩
    | some v =>
      obtain ⟨hlt, hv⟩ := List.getElem?_eq_some_iff.mp hcell
      have hmem : v ∈ src.cells := List.mem_of_getElem? hcell
      rw [hcell] at hrun
      dsimp only at hrun
      rw [List.drop_eq_getElem_cons hlt, hv, h.matches] at *
      cases hm : m v.values with
      | false =>
        rw [hm, if_neg Bool.false_ne_true] at hrun
        rw [List.filter_cons_of_neg (by rw [hm]; exact Bool.false_ne_true)]
        exact ih (cursor + 1) r r' t h hrun
      | true =>
        rw [hm, if_pos rfl, bind_run (tableAt_run h.target), h.tableDef] at hrun
        set s := selectedRow env d src.tableDef v.values with hs
        obtain ⟨⟨result, r₁⟩, hinsert, hrun⟩ := Option.bind_eq_some_iff.mp hrun
        dsimp only at hrun
        by_cases hsuccess : result = .success
        · subst hsuccess
          rw [if_pos rfl] at hrun
          obtain ⟨u, hgains, hturning⟩ := insertRow_gains hne hclock hq hlen (hkeys v hmem hm) h hinsert
          have hcursor : cursorIn env src src cursor = cursor := if_pos rfl
          rw [bind_run (tableAt_run hturning.source), hcursor] at hrun
          obtain ⟨t', ht', hrest⟩ := ih (cursor + 1) r₁ r' u hturning hrun
          refine ⟨t', ht', ?_⟩
          rw [List.filter_cons_of_pos (by rw [hm]), List.map_cons]
          exact hgains.cons hrest (Steps.later (steps_run fuel depth (.copy i source wc (cursor + 1))) hrun).2
        · rw [if_neg hsuccess] at hrun
          exact absurd (Prod.mk.inj (Option.some.inj hrun)).1 hsuccess

end Loop

/-! ## The whole statement -/

section Whole

variable (env : DmlEnv) (i : Nat) (wc : WhereClause) (r r' : Trace RowDb RowStep) (t src : RowTable)

/-- The versions of the source that satisfy WHERE, at the start. -/
def selectedCells : List Version := src.cells.filter fun v => rowMatches env r.state src v.values wc

/-- The target shows, besides its own rows, the visible rows of the source that satisfy WHERE. -/
def CopiesSelected : Prop :=
  ∃ t', r'.state.tables[i]? = some t' ∧ ∀ snapshot, r'.state.txnXid ≤ snapshot →
    ((t'.rows snapshot (env.time r.steps.length)).map Prod.fst).Perm
      (((selectedCells env wc r src).filter fun v => v.visible r.state.txnXid (env.time r.steps.length)).map Version.values ++
        (t.rows snapshot (env.time r.steps.length)).map Prod.fst)

/-- WHERE reads nothing of the target, AUTOINCREMENT replaces no key, and a row fits into the registers. -/
structure ReadsApart : Prop where
  reads : ∀ db : RowDb, (∃ u, db.tables = r.state.tables.set i u) → ∀ values,
    rowMatches env db src values wc = rowMatches env r.state src values wc
  keys : ∀ v ∈ selectedCells env wc r src, KeepsId env t.tableDef src.tableDef v.values
  fits : t.tableDef.columns.length < maxRegisters

/-- Each version that satisfies WHERE is visible, and all its values come through the texts. -/
def AllSurvive : Prop :=
  ∀ v ∈ selectedCells env wc r src, v.visible r.state.txnXid (env.time r.steps.length) = true ∧
    ∀ k col, t.tableDef.columns[k]? = some col → (v.values.getD k Value.init).Survives env col

/-- The rows of a table as its cells are read. -/
structure RowTable.Read (ops : WhereOps) (t : RowTable) : Prop where
  stored : ∀ v ∈ t.cells, t.tableDef.storedRow ops.toFloatOps v.values = v.values
  lengths : ∀ v ∈ t.cells, ∀ x ∈ v.values, x.textLen = x.textVal.length

variable {env i wc r r' t src}

end Whole

/-! ## NULL is copied as 0 -/

/-- Table s with the columns of t, empty or with the one row (1, NULL). -/
def sourceDef : TableDef := { compositeKey with name := CharArray.ofStr [115] (by decide) }
def nullPair : Version := ⟨[{ Value.init with intVal := 1 }, { Value.init with isNull := true }], 0, 1, 0⟩
def copyDb (vs : List Version) : RowDb := ⟨[emptyPairs, ⟨sourceDef, vs⟩], none, false, 1, false⟩

/-- INSERT INTO t SELECT * FROM s: what it reports, the transaction after it, and which columns of the rows of both tables
are NULL. -/
def copiedPairs (vs : List Version) : Option (DmlResult × Nat × List (List (List Bool))) :=
  (run floatEnv 4 0 (.copy 0 1 noWhere 0) ⟨copyDb vs, []⟩).map fun r =>
    (r.1, r.2.state.txnXid, r.2.state.tables.map fun t => (t.rows 3 0).map fun row => row.1.map Value.isNull)

theorem copyDb_apart (vs : List Version) : ReadsApart floatEnv 0 noWhere ⟨copyDb vs, []⟩ emptyPairs ⟨sourceDef, vs⟩ :=
  ⟨fun _ _ _ => rfl, fun _ _ h => absurd h Bool.false_ne_true, by decide⟩

theorem floatEnv_reprints : Reprints floatEnv := ⟨fun _ => rfl, fun _ => List.cons_ne_nil _ _, wideOps_zero⟩

theorem pairRow_read (id a : BitVec 32) : (RowTable.mk sourceDef [pairRow id a]).Read floatEnv.ops := by
  refine ⟨fun v hv => ?_, fun v hv x hx => ?_⟩
  · obtain rfl := List.mem_singleton.mp hv
    rfl
  · obtain rfl := List.mem_singleton.mp hv
    rcases List.mem_cons.mp hx with rfl | hx
    · rfl
    · obtain rfl := List.mem_singleton.mp hx
      rfl

end CustomDB
