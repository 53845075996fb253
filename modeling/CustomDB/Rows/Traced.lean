import CustomDB.Rows.Dml

/-!
# Statements take steps

Whatever a session changes, it changes by the steps it records: one lemma for each function, given the calls.
-/

namespace CustomDB

open Lib Lib.Program

variable {env : DmlEnv} {call : Call} {depth : Nat}

/-- A program that takes steps of the database. -/
abbrev Steps {α : Type} (env : DmlEnv) (m : Dml α) : Prop := Traced (RowDb.step env) m

theorem steps_emit (s : RowStep) : Steps env (emit env s) := traced_take s

theorem steps_tableAt (i : Nat) : Steps env (tableAt i) := by
  refine traced_bind traced_current fun db => ?_
  split
  · exact traced_pure _
  · exact traced_failure

theorem steps_timeNow : Steps env (timeNow env) := traced_bind traced_elapsed fun _ => traced_pure _

theorem steps_beginAuto : Steps env (beginAuto env) := by
  refine traced_bind traced_current fun db => ?_
  split
  · exact traced_pure _
  · exact traced_bind (steps_emit _) fun _ => traced_pure _

theorem steps_endAuto (auto : Bool) (l : List RowStep) : Steps env (endAuto env auto l) := by
  refine traced_bind traced_current fun db => ?_
  split
  · exact traced_forM l fun s => steps_emit s
  · exact traced_pure _

/-- A call whose result is not used. -/
theorem steps_ignore {α : Type} {m : Dml α} (hm : Steps env m) : Steps env (do let _ ← m; pure () : Dml Unit) :=
  traced_bind hm fun _ => traced_pure _

section Calls

variable (hcall : ∀ depth task, Steps env (call depth task))

include hcall

theorem steps_recordHistory (i : Nat) (old new : Option (List Value)) (event : TriggerEvent) :
    Steps env (recordHistory env call depth i old new event) := by
  refine traced_bind (steps_tableAt i) fun t => traced_bind traced_current fun db => ?_
  split
  · exact traced_pure _
  · refine traced_bind (steps_tableAt _) fun hist => traced_bind steps_timeNow fun now => ?_
    exact steps_ignore (hcall _ _)

theorem steps_fireTriggers (i : Nat) (old new : Option (List Value)) (timing : TriggerTiming) (event : TriggerEvent) :
    Steps env (fireTriggers env call depth i old new timing event) := by
  unfold fireTriggers
  split
  · refine traced_bind (traced_forM _ fun trigger => ?_) fun _ => traced_bind (steps_tableAt i) fun t => ?_
    · refine traced_bind (steps_tableAt i) fun t => ?_
      split
      · split
        · exact steps_ignore (hcall _ _)
        · exact traced_pure _
      · exact traced_pure _
    · split
      · exact steps_recordHistory hcall i old new event
      · exact traced_pure _
  · exact traced_pure _

theorem steps_resolveConflict (auto : Bool) (i : Nat) (s : InsertStmt) (t : RowTable) (target : Value) :
    Steps env (resolveConflict env call depth auto i s t target) := by
  unfold resolveConflict
  split
  · exact traced_bind (steps_endAuto _ _) fun _ => traced_pure _
  · exact traced_bind (hcall _ _) fun _ => traced_bind (hcall _ _) fun r => traced_bind (steps_endAuto _ _) fun _ =>
      traced_pure r
  · exact traced_bind (hcall _ _) fun r => traced_bind (steps_endAuto _ _) fun _ => traced_pure r
  · exact traced_bind (steps_endAuto _ _) fun _ => traced_pure _

theorem steps_runInsertVm (i : Nat) (s : InsertStmt) : Steps env (runInsertVm env call depth i s) := by
  refine traced_bind steps_beginAuto fun auto => traced_bind (steps_fireTriggers hcall _ _ _ _ _) fun _ =>
    traced_bind (steps_tableAt i) fun t => traced_bind traced_current fun db => ?_
  split
  · exact traced_bind (steps_endAuto _ _) fun _ => traced_pure _
  · exact steps_resolveConflict hcall _ _ _ _ _
  · exact traced_bind steps_timeNow fun now => traced_bind (steps_emit _) fun _ => traced_bind (steps_endAuto _ _) fun _ =>
      traced_bind (steps_fireTriggers hcall _ _ _ _ _) fun _ => traced_pure _

omit hcall in
theorem steps_forReferences (i : Nat) (cascades : Column → Bool) {act : Nat → Column → TableDef → Dml Unit}
    (hact : ∀ t col d, Steps env (act t col d)) : Steps env (forReferences i cascades act) := by
  refine traced_bind traced_current fun db => traced_forM _ fun t => ?_
  refine traced_bind (steps_tableAt t) fun child => traced_bind (steps_tableAt i) fun parent => ?_
  split
  · exact traced_pure _
  · refine traced_forM _ fun c => traced_bind (steps_tableAt t) fun child => traced_bind (steps_tableAt i) fun parent => ?_
    split
    · split
      · exact hact _ _ _
      · exact traced_pure _
    · exact traced_pure _

omit hcall in
theorem steps_seekCursor (t : RowTable) (id : BitVec 32) (txn now : Nat) : Steps env (seekCursor env t id txn now) := by
  unfold seekCursor
  split
  · exact traced_failure
  · exact traced_pure _

theorem steps_deleteRow (i : Nat) (id : BitVec 32) (txn now : Nat) : Steps env (deleteRow env call depth i id txn now) := by
  refine traced_bind (steps_tableAt i) fun t => traced_bind (steps_seekCursor t id txn now) fun found => ?_
  split
  · exact traced_pure _
  · refine traced_bind (steps_fireTriggers hcall _ _ _ _ _) fun _ => traced_bind ?_ fun _ =>
      traced_bind (steps_tableAt i) fun t' => traced_bind (steps_emit _) fun _ => steps_fireTriggers hcall _ _ _ _ _
    exact steps_forReferences _ _ fun _ _ _ => steps_ignore (hcall _ _)

theorem steps_runDeleteVm (i : Nat) (wc : WhereClause) : Steps env (runDeleteVm env call depth i wc) := by
  refine traced_bind steps_beginAuto fun auto => traced_bind traced_current fun db =>
    traced_bind steps_timeNow fun now => traced_bind (steps_tableAt i) fun t => ?_
  split
  · exact traced_pure _
  · refine traced_bind (traced_forM _ fun id => steps_deleteRow hcall i id _ now) fun _ => ?_
    dsimp only
    split
    · exact traced_bind (steps_emit _) fun _ => traced_bind (steps_endAuto _ _) fun _ => traced_pure _
    · exact traced_bind (steps_endAuto _ _) fun _ => traced_pure _

theorem steps_updateRow (i : Nat) (pairs : List SetPair) (id : BitVec 32) (txn now : Nat) :
    Steps env (updateRow env call depth i pairs id txn now) := by
  refine traced_bind (steps_tableAt i) fun t => traced_bind (steps_seekCursor t id txn now) fun found => ?_
  split
  · exact traced_pure _
  · split
    · exact traced_pure _
    · refine traced_bind (steps_fireTriggers hcall _ _ _ _ _) fun _ => traced_bind (steps_tableAt i) fun t' =>
        traced_bind (steps_emit _) fun _ => traced_bind ?_ fun _ =>
          traced_bind (steps_fireTriggers hcall _ _ _ _ _) fun _ => traced_pure _
      exact steps_forReferences _ _ fun _ _ _ => steps_ignore (hcall _ _)

theorem steps_updateRows (i : Nat) (pairs : List SetPair) (txn now : Nat) (ids : List (BitVec 32)) :
    Steps env (updateRows env call depth i pairs txn now ids) := by
  induction ids with
  | nil => exact traced_pure _
  | cons id ids ih =>
    refine traced_bind (steps_updateRow hcall i pairs id txn now) fun more => ?_
    split
    · exact ih
    · exact traced_pure _

theorem steps_runUpdateVm (i : Nat) (pairs : List SetPair) (wc : WhereClause) :
    Steps env (runUpdateVm env call depth i pairs wc) := by
  refine traced_bind steps_beginAuto fun auto => traced_bind traced_current fun db =>
    traced_bind steps_timeNow fun now => traced_bind (steps_tableAt i) fun t =>
      traced_bind (steps_updateRows hcall _ _ _ _ _) fun more => ?_
  split
  · exact traced_bind (steps_endAuto _ _) fun _ => traced_pure _
  · exact traced_pure _

theorem steps_insertMultiRows (i : Nat) (s : InsertStmt) (rows : List MultiRow) :
    Steps env (insertMultiRows call depth i s rows) := by
  induction rows with
  | nil => exact traced_pure _
  | cons row rows ih =>
    refine traced_bind (hcall _ _) fun r => ?_
    split
    · exact ih
    · exact traced_pure _

theorem steps_copyRows (i source : Nat) (wc : WhereClause) (cursor : Nat) :
    Steps env (copyRows env call depth i source wc cursor) := by
  refine traced_bind traced_current fun db => traced_bind (steps_tableAt source) fun src => ?_
  split
  · exact traced_pure _
  · split
    · refine traced_bind (steps_tableAt i) fun t => traced_bind (hcall _ _) fun r => ?_
      split
      · exact traced_bind (steps_tableAt source) fun src' => hcall _ _
      · exact traced_pure _
    · exact hcall _ _

omit hcall in
theorem steps_runAlterTable (i : Nat) (action : AlterAction) : Steps env (runAlterTable env i action) := by
  refine traced_bind steps_beginAuto fun auto => traced_bind (steps_tableAt i) fun t => traced_bind traced_current fun db => ?_
  split
  · exact traced_bind (steps_emit _) fun _ => traced_bind (steps_endAuto _ _) fun _ => traced_pure _
  · exact traced_bind (steps_endAuto _ _) fun _ => traced_pure _

omit hcall in
theorem steps_onTable (name : Text) {act : Nat → Dml DmlResult} (hact : ∀ i, Steps env (act i)) :
    Steps env (onTable name act) := by
  refine traced_bind traced_current fun db => ?_
  split
  · exact hact _
  · exact traced_pure _

theorem steps_executeStatement (s : Statement) : Steps env (executeStatement env call depth s) := by
  cases s with
  | insert name s => exact steps_onTable name fun i => hcall _ _
  | insertMulti name s rows => exact steps_onTable name fun i => steps_insertMultiRows hcall i s rows
  | insertSelect name source wc => exact steps_onTable name fun i => steps_onTable source fun src => hcall _ _
  | update name pairs wc => exact steps_onTable name fun i => hcall _ _
  | delete name wc => exact steps_onTable name fun i => hcall _ _
  | alterTable name action => exact steps_onTable name fun i => steps_runAlterTable i action
  | begin => exact traced_bind (steps_emit _) fun _ => traced_pure _
  | commit => exact traced_bind (steps_emit _) fun _ => traced_pure _
  | rollback => exact traced_bind (steps_emit _) fun _ => traced_pure _
  | query => exact traced_pure _

end Calls

theorem steps_run (fuel : Nat) : ∀ depth task, Steps env (run env fuel depth task) := by
  induction fuel with
  | zero => exact fun _ _ => traced_failure
  | succ fuel ih =>
    intro depth task
    cases task with
    | insert i s => exact steps_runInsertVm ih i s
    | delete i wc => exact steps_runDeleteVm ih i wc
    | update i pairs wc => exact steps_runUpdateVm ih i pairs wc
    | copy i source wc cursor => exact steps_copyRows ih i source wc cursor
    | execute s => exact steps_executeStatement ih s

/-- A session leaves the state its steps lead to. -/
theorem steps_session (fuel : Nat) (ops : List ClientOp) : Steps env (session env fuel ops) := by
  refine traced_forM _ fun op => ?_
  cases op with
  | execute s => exact steps_ignore (steps_run fuel _ _)
  | catalogLoad => exact steps_emit _
  | reopen => exact traced_bind (steps_emit _) fun _ => steps_emit _

/-! ## What no step changes back -/

/-- A step leaves the setting alone, and LSNs do not go back. -/
theorem step_settings {s s' : RowDb} {a : RowStep} (h : s.step env a = some s') :
    s'.autoVacuum = s.autoVacuum ∧ s.walLsn ≤ s'.walLsn := by
  have hset : ∀ (i : Nat) (f : RowTable → RowTable), ((s.tables[i]?).bind fun t => some (s.setTable i (f t))) = some s' →
      s'.autoVacuum = s.autoVacuum ∧ s.walLsn ≤ s'.walLsn := by
    intro i f h
    obtain ⟨t, -, h⟩ := Option.bind_eq_some_iff.mp h
    obtain rfl := Option.some.inj h
    exact ⟨rfl, le_refl _⟩
  cases a with
  | insert i st now =>
    obtain ⟨t, -, h⟩ := Option.bind_eq_some_iff.mp h
    split at h
    · obtain rfl := Option.some.inj h
      exact ⟨rfl, le_refl _⟩
    · cases h
  | alter i action =>
    obtain ⟨t, -, h⟩ := Option.bind_eq_some_iff.mp h
    unfold RowDb.altered at h
    split at h
    · split at h
      · cases h
      · obtain rfl := Option.some.inj h
        exact ⟨rfl, le_refl _⟩
    · split at h
      · obtain rfl := Option.some.inj h
        exact ⟨rfl, le_refl _⟩
      · cases h
    · obtain ⟨c, -, rfl⟩ := Option.map_eq_some_iff.mp h
      exact ⟨rfl, le_refl _⟩
  | retire i cursor id old txn now => exact hset i (fun t => t.retired env.ops cursor id old txn) h
  | revise i cursor id old values txn now =>
    exact hset i (fun t => (t.retired env.ops cursor id old txn).btreeInsert env.ops (values.headD Value.init)
      ⟨values, old.expireAt, txn, 0⟩) h
  | begin | rollback =>
    unfold RowDb.step at h
    dsimp only at h
    split at h
    all_goals
      obtain rfl := Option.some.inj h
      exact ⟨rfl, le_refl _⟩
  | commit =>
    unfold RowDb.step at h
    dsimp only at h
    split at h
    · obtain rfl := Option.some.inj h
      refine ⟨rfl, ?_⟩
      dsimp only
      split
      · exact Nat.le_succ _
      · exact le_refl _
    · obtain rfl := Option.some.inj h
      exact ⟨rfl, le_refl _⟩
  | catalogSave | vacuum | catalogLoad =>
    obtain rfl := Option.some.inj h
    exact ⟨rfl, le_refl _⟩

theorem follow_settings {is : List RowStep} {s s' : RowDb} (h : follow (RowDb.step env) s is = some s') :
    s'.autoVacuum = s.autoVacuum ∧ s.walLsn ≤ s'.walLsn := by
  induction is generalizing s with
  | nil =>
    obtain rfl := Option.some.inj h
    exact ⟨rfl, le_refl _⟩
  | cons a is ih =>
    rw [follow_cons] at h
    obtain ⟨u, hu, h⟩ := Option.bind_eq_some_iff.mp h
    obtain ⟨hvac, hlsn⟩ := step_settings hu
    exact ⟨(ih h).1.trans hvac, hlsn.trans (ih h).2⟩

/-- After a program as many steps are taken, and the transactions are as late, as before it, at least. -/
theorem Steps.later {α : Type} {m : Dml α} (hm : Steps env m) {r r' : Trace RowDb RowStep} {a : α} (h : m r = some (a, r')) :
    r.steps.length ≤ r'.steps.length ∧ r.state.txnXid ≤ r'.state.txnXid := by
  obtain ⟨is, hsteps, hfollow⟩ := hm r a r' h
  rw [hsteps, List.length_append]
  exact ⟨Nat.le_add_right _ _, Nat.succ_le_succ (follow_settings hfollow).2⟩

end CustomDB
