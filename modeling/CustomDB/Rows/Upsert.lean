import CustomDB.Rows.Alter
import CustomDB.Rows.InsertSelect
import CustomDB.Rows.Reap
import CustomDB.Rows.Retry

/-!
# One row for each key

A live version with the key of the row to insert is a conflict. `run_insert_vm` leaves it as it is, deletes its row and
starts again, or updates its row; for a composite key it fails, whatever the statement says of a conflict.
-/

namespace CustomDB

open Lib Lib.Program

/-! ## What a conflict shall leave -/

section Spec

variable (env : DmlEnv) (i : Nat) (db : RowDb) (t : RowTable) (s : InsertStmt) (new : List Value) (txn now : Nat)

/-- The row that shall have the key of an old one: itself, itself with the SET list, or the new row. -/
def UpsertedRow (old : Version) (row : List Value × Nat) : Prop :=
  match s.conflictAction with
  | .ignore => row = (old.values, old.expireAt)
  | .update => ∃ values, applySets env t.tableDef old.values s.setPairs = some values ∧
      row = (t.tableDef.storedRow env.ops.toFloatOps values, old.expireAt)
  | _ => row.1 = new

/-- INSERT succeeds and leaves the rows with other keys, and one row more: the new one where no visible row had its key, and
else one with the key that shall have it. -/
def KeepsOneRow (result : DmlResult) (db' : RowDb) : Prop :=
  result = .success ∧ ∃ t' row, db'.tables = db.tables.set i t' ∧
    (t'.rows txn now).Perm (row :: unkeyedRows env.ops t new txn now) ∧
    match keyedRows env.ops t new txn now with
    | [] => row.1 = new
    | old :: _ => t.tableDef.sameKey env.ops row.1 new = true ∧ UpsertedRow env t s new old row

/-- The key of the row is an INT in column 0, and it is the one that INSERT looks for. -/
structure SeeksInt : Prop where
  keyed : t.IntKeyed
  target : (targetPk env.ops t s).isNull = false
  given : (new.getD 0 Value.init).isNull = false
  same : (targetPk env.ops t s).intVal = (new.getD 0 Value.init).intVal

/-- The row fits into the registers and passes the checks of its columns, INSERT looks for the key that it has, and at most
one visible row has it. -/
structure OneKey (values : List Value) : Prop where
  fits : t.tableDef.columns.length < maxRegisters
  loads : loadRegisters env.ops db s t.tableDef = .ok values
  unique : uniqueTaken env.ops t txn s = false
  single : ¬1 < t.tableDef.pkCols.length → SeeksInt env t s new
  composite : 1 < t.tableDef.pkCols.length → ∀ v ∈ t.cells, (t.tableDef.keyCols.all fun c => !decide (c < s.numValues) ||
    compareValues env.ops (t.tableDef.typeOf c) (v.col c) (newKeyVal env.ops t s c) = .eq) = t.tableDef.sameKey env.ops v.values new
  once : (keyedRows env.ops t new txn now).length ≤ 1

/-- No live version has a composite key. A conflict of an INT key is with a visible row; if it is to be replaced, with visible
rows only, and no row restricts the DELETE; if it is to be updated, the SET list names columns and leaves the key. -/
def UpsertExact : Prop :=
  if 1 < t.tableDef.pkCols.length then compositeTaken env.ops t txn s = false
  else keyTaken env.ops t txn (targetPk env.ops t s) = true →
    match s.conflictAction with
    | .ignore => keyedRows env.ops t new txn now ≠ []
    | .update => ∃ old ∈ keyedRows env.ops t new txn now, ∃ values, applySets env t.tableDef old.values s.setPairs = some values ∧
        t.tableDef.sameKey env.ops (t.tableDef.storedRow env.ops.toFloatOps values) new = true
    | _ => restricts env db t (keyWhere t (targetPk env.ops t s)) txn now = false ∧
        ∀ v ∈ t.cells, v.live txn = true → t.tableDef.sameKey env.ops v.values new = true → v.visible txn now = true

end Spec

/-! ## The rows beside the key -/

section Rows

variable {ops : WhereOps} {t t' : RowTable} {new : List Value} {txn now : Nat} {old : Version}

theorem live_of_visible {v : Version} (h : v.visible txn now = true) : v.live txn = true := by
  simp only [Version.visible, Version.alive, Bool.and_eq_true] at h
  exact h.2.2

theorem keyedRows_nil (h : ∀ v ∈ t.cells, v.live txn = true → t.tableDef.sameKey ops v.values new = false) :
    keyedRows ops t new txn now = [] := by
  apply List.filter_eq_nil_iff.mpr
  intro v hv
  obtain ⟨hmem, hvisible⟩ := List.mem_filter.mp hv
  simp [h v hmem (live_of_visible hvisible)]

theorem rows_keyed (ops : WhereOps) (t : RowTable) (new : List Value) (txn now : Nat) : (t.rows txn now).Perm
    ((keyedRows ops t new txn now).map (fun v => (v.values, v.expireAt)) ++ unkeyedRows ops t new txn now) := by
  have hperm := List.filter_append_perm (fun v : Version => t.tableDef.sameKey ops v.values new) (t.shown txn now).cells
  have hrows := (hperm.map fun v => (v.values, v.expireAt)).symm
  rw [List.map_append] at hrows
  exact hrows

/-- Beside the rows with other keys there are as many as have the key. -/
theorem length_keyed {row : List Value × Nat} (h : (t.rows txn now).Perm (row :: unkeyedRows ops t new txn now)) :
    (keyedRows ops t new txn now).length = 1 := by
  have hlen := h.length_eq.symm.trans (rows_keyed ops t new txn now).length_eq
  rw [List.length_cons, List.length_append, List.length_map] at hlen
  omega

theorem keyedRows_one (h : keyedRows ops t new txn now ≠ []) (honce : (keyedRows ops t new txn now).length ≤ 1) :
    ∃ old, keyedRows ops t new txn now = [old] := by
  have hpos := List.length_pos_iff.mpr h
  exact List.length_eq_one_iff.mp (by omega)

theorem mem_keyedRows (h : old ∈ keyedRows ops t new txn now) : old ∈ t.cells ∧ old.visible txn now = true ∧
    t.tableDef.sameKey ops old.values new = true := by
  obtain ⟨hshown, hkey⟩ := List.mem_filter.mp h
  obtain ⟨hmem, hvisible⟩ := List.mem_filter.mp hshown
  exact ⟨hmem, hvisible, hkey⟩

end Rows

/-! ## Each of the actions -/

section Actions

variable {env : DmlEnv} {call : Call} {fuel depth i : Nat} {r r' : Trace RowDb RowStep} {t : RowTable} {s : InsertStmt}
  {values new : List Value} {result : DmlResult} {txn now : Nat}

theorem set_same {db : RowDb} (hi : db.tables[i]? = some t) {t' : RowTable} (h : db.tables = db.tables.set i t') : t = t' := by
  have hget := congrArg (fun l => l[i]?) h
  simp only [hi, List.getElem?_set_self (List.getElem?_eq_some_iff.mp hi).1] at hget
  exact Option.some.inj hget

/-- Only the tables count. -/
theorem keepsOneRow_congr {db₁ db₂ db₁' db₂' : RowDb} (h : db₁.tables = db₂.tables) (h' : db₁'.tables = db₂'.tables) :
    KeepsOneRow env i db₁ t s new txn now result db₁' ↔ KeepsOneRow env i db₂ t s new txn now result db₂' := by
  unfold KeepsOneRow
  rw [h, h']

/-- IGNORE keeps the table: that is right exactly if a visible row has the key. -/
theorem ignore_iff {db db' : RowDb} (haction : s.conflictAction = .ignore) (hi : db.tables[i]? = some t)
    (honce : (keyedRows env.ops t new txn now).length ≤ 1) (htables : db'.tables = db.tables) :
    KeepsOneRow env i db t s new txn now .success db' ↔ keyedRows env.ops t new txn now ≠ [] := by
  constructor
  · rintro ⟨-, t', row, hset, hperm, -⟩ hnil
    obtain rfl := set_same hi (htables.symm.trans hset)
    have hone := length_keyed hperm
    rw [hnil] at hone
    cases hone
  · intro hsome
    obtain ⟨old, hold⟩ := keyedRows_one hsome honce
    have hperm := rows_keyed env.ops t new txn now
    have hmem := mem_keyedRows (show old ∈ keyedRows env.ops t new txn now by rw [hold]; exact List.mem_singleton_self old)
    refine ⟨rfl, t, (old.values, old.expireAt), ?_, ?_, ?_⟩
    · obtain ⟨hlt, rfl⟩ := List.getElem?_eq_some_iff.mp hi
      rw [htables, List.set_getElem_self]
    · rw [hold] at hperm
      exact hperm
    · rw [hold]
      refine ⟨hmem.2.2, ?_⟩
      unfold UpsertedRow
      rw [haction]

/-- An INSERT into a table that has only the rows with other keys left puts the new row beside them. -/
theorem inserted_keeps {r₃ : Trace RowDb RowStep} {left : RowTable} {st : InsertStmt}
    (htables : r₃.state.tables = r.state.tables.set i left) (hi₃ : r₃.state.tables[i]? = some left)
    (hdef : left.tableDef = t.tableDef) (hq : Untriggered env left.tableDef .insert) (htxn : r₃.state.txnXid = txn)
    (hnow : now ≤ startTime env r₃) (hleft : (left.rows txn now).Perm (unkeyedRows env.ops t new txn now))
    (hnew : new = t.tableDef.storedRow env.ops.toFloatOps values)
    (hacc : insertOutcome env.ops r₃.state left (st.autoincrement left) = .row values)
    (hreplaced : keyedRows env.ops t new txn now = [] ∨ s.conflictAction = .replace ∧ t.tableDef.sameKey env.ops new new = true)
    (hrun : runInsertVm env call depth i st r₃ = some (result, r')) :
    KeepsOneRow env i r.state t s new txn now result r'.state := by
  obtain ⟨r₄, hrun₄, htables₄⟩ := @runInsertVm_accepted env call depth i r₃ left st values hi₃ hq hacc
  obtain ⟨rfl, rfl⟩ := Prod.mk.inj (Option.some.inj (hrun₄.symm.trans hrun))
  have hvisible : (newVersion env r₃ left (st.autoincrement left) values).visible txn now = true := by
    refine visible_of_new ?_ htxn.le rfl
    exact (expireAt_le left _ (startTime env r₃)).imp id hnow.trans
  have hrows := btreeInsert_rows env.ops left (values.headD Value.init) hvisible
  have hrow : left.tableDef.storedRow env.ops.toFloatOps values = new := by rw [hdef, hnew]
  refine ⟨rfl, _, _, ?_, hrows.trans (hleft.cons _), ?_⟩
  · rw [htables₄, htables, List.set_set]
  · split
    · exact hrow
    next old rest hold =>
      rcases hreplaced with hnone | ⟨haction, hkey⟩
      · rw [hnone] at hold
        cases hold
      · refine ⟨?_, ?_⟩
        · show t.tableDef.sameKey env.ops (left.tableDef.storedRow env.ops.toFloatOps values) new = true
          rw [hrow, hkey]
        · unfold UpsertedRow
          rw [haction]
          exact hrow

/-- An INSERT without a conflict is right where no visible row has the key. -/
theorem accepted_keeps (hi : r.state.tables[i]? = some t) (hq : Untriggered env t.tableDef .insert)
    (hacc : insertOutcome env.ops r.state t (s.autoincrement t) = .row values)
    (hnone : keyedRows env.ops t (t.tableDef.storedRow env.ops.toFloatOps values) r.state.txnXid (startTime env r) = [])
    (hrun : runInsertVm env call depth i s r = some (result, r')) :
    KeepsOneRow env i r.state t (s.autoincrement t) (t.tableDef.storedRow env.ops.toFloatOps values) r.state.txnXid
      (startTime env r) result r'.state := by
  have hrows := rows_keyed env.ops t (t.tableDef.storedRow env.ops.toFloatOps values) r.state.txnXid (startTime env r)
  rw [hnone, List.map_nil, List.nil_append] at hrows
  have hsame : r.state.tables = r.state.tables.set i t := by
    obtain ⟨hlt, rfl⟩ := List.getElem?_eq_some_iff.mp hi
    exact (List.set_getElem_self hlt).symm
  exact inserted_keeps hsame hi rfl hq rfl (le_refl _) hrows rfl hacc (Or.inl hnone) hrun

/-- An UPDATE of the rows with the key is right exactly if there is one, and the SET list can be applied and leaves its key. -/
theorem update_iff {wc : WhereClause} (hk : SeeksInt env t s new) (hsingle : ¬1 < t.tableDef.pkCols.length)
    (hi : r.state.tables[i]? = some t) (ht : t.Searchable env.ops) (hq : NoUpdateCascade env r.state t.tableDef)
    (haction : s.conflictAction = .update) (hwc : wc = keyWhere t (targetPk env.ops t s)) (htxn : r.state.txnXid = txn)
    (hnow : startTime env r = now) (honce : (keyedRows env.ops t new txn now).length ≤ 1)
    (hrun : runUpdateVm env call depth i s.setPairs wc r = some (result, r')) :
    KeepsOneRow env i r.state t s new txn now result r'.state ↔ ∃ old ∈ keyedRows env.ops t new txn now, ∃ values,
      applySets env t.tableDef old.values s.setPairs = some values ∧
        t.tableDef.sameKey env.ops (t.tableDef.storedRow env.ops.toFloatOps values) new = true := by
  have hpos : 0 < txn := by
    rw [← htxn]
    exact Nat.succ_pos _
  have hids : matchingIds env r.state t wc txn now = (keyedRows env.ops t new txn now).map Version.id := by
    rw [matchingIds_eq, hwc, (matchingRows_keyWhere hk.keyed hsingle hk.given hk.same).1]
  have hloop := runUpdateVm_loop hi hq hrun
  rw [htxn, hnow, hids] at hloop
  by_cases hnil : keyedRows env.ops t new txn now = []
  · -- no row is updated, and the new one is not there
    rw [hnil] at hloop ⊢
    refine iff_of_false ?_ (by simp)
    rintro ⟨rfl, t', row, hset, hperm, -⟩
    obtain ⟨hfailed, -⟩ | ⟨-, u, hu, htables⟩ := hloop
    · cases hfailed
    · obtain rfl : t = u := Option.some.inj hu
      have hsame : r.state.tables.set i t = r.state.tables := by
        obtain ⟨hlt, rfl⟩ := List.getElem?_eq_some_iff.mp hi
        exact List.set_getElem_self hlt
      obtain rfl := set_same hi ((hsame.symm.trans htables.symm).trans hset)
      have hone := length_keyed hperm
      rw [hnil] at hone
      cases hone
  · obtain ⟨old, hold⟩ := keyedRows_one hnil honce
    rw [hold] at hloop
    have hmem := mem_keyedRows (show old ∈ keyedRows env.ops t new txn now by rw [hold]; exact List.mem_singleton_self old)
    have hid : old.id = (new.getD 0 Value.init).intVal := by
      have hkey := hmem.2.2
      rw [sameKey_int hk.keyed hsingle (hk.keyed.cells old hmem.1) hk.given] at hkey
      exact of_decide_eq_true hkey
    have hhead : (t.seen env.ops txn now old.id).head? = some old := by
      rw [hid, seen_int ht hk.keyed hsingle hk.given, hold]
      rfl
    simp only [hold, List.mem_singleton, exists_eq_left]
    obtain ⟨rfl, hnone⟩ | ⟨rfl, u, hu, htables⟩ := hloop
    · refine iff_of_false (fun h => by cases h.1) ?_
      rintro ⟨values, hsets, -⟩
      have hupdate := updateId_found hhead hsets
      change (t.updateId env s.setPairs old.id txn now).bind _ = none at hnone
      rw [hupdate] at hnone
      cases hnone
    · have hturn : t.updateId env s.setPairs old.id txn now = some u := by
        obtain ⟨w, hw, hrest⟩ := Option.bind_eq_some_iff.mp hu
        obtain rfl : w = u := Option.some.inj hrest
        exact hw
      obtain ⟨values, hsets, hvalues, -⟩ := updateId_some hhead hturn
      obtain ⟨rest, hbefore, hafter, -⟩ := updateId_visible ht hpos hhead hturn
      have hrow : updatedVersion env s.setPairs t.tableDef txn old =
          ⟨t.tableDef.storedRow env.ops.toFloatOps values, old.expireAt, txn, 0⟩ := by
        unfold updatedVersion
        rw [hvalues]
      have hrest : (rest.map fun v : Version => (v.values, v.expireAt)).Perm (unkeyedRows env.ops t new txn now) := by
        have hkeyed := rows_keyed env.ops t new txn now
        rw [hold] at hkeyed
        exact ((hbefore.map fun v : Version => (v.values, v.expireAt)).symm.trans hkeyed).cons_inv
      have hrows : (u.rows txn now).Perm ((t.tableDef.storedRow env.ops.toFloatOps values, old.expireAt) ::
          unkeyedRows env.ops t new txn now) := by
        rw [hrow] at hafter
        exact (hafter.map fun v : Version => (v.values, v.expireAt)).trans (hrest.cons _)
      constructor
      · rintro ⟨-, t', row, -, -, hrest⟩
        rw [hold] at hrest
        obtain ⟨hkey, hupserted⟩ := hrest
        unfold UpsertedRow at hupserted
        rw [haction] at hupserted
        obtain ⟨values', hsets', rfl⟩ := hupserted
        exact ⟨values', hsets', hkey⟩
      · rintro ⟨values', hsets', hkey⟩
        obtain rfl : values = values' := Option.some.inj (hsets.symm.trans hsets')
        refine ⟨rfl, u, _, htables, hrows, ?_⟩
        rw [hold]
        refine ⟨hkey, ?_⟩
        unfold UpsertedRow
        rw [haction]
        exact ⟨values, hsets, rfl⟩

end Actions

/-! ## REPLACE -/

section Replace

variable {env : DmlEnv} {call : Call} {fuel depth i : Nat} {r r' : Trace RowDb RowStep} {t : RowTable} {s : InsertStmt}
  {values new : List Value} {result : DmlResult} {txn now : Nat}

theorem insertOutcome_loaded {ops : WhereOps} {db : RowDb} (hload : loadRegisters ops db s t.tableDef = .ok values)
    (hunique : uniqueTaken ops t db.txnXid s = false) : insertOutcome ops db t s =
      if 1 < t.tableDef.pkCols.length then
        if compositeTaken ops t db.txnXid s then .refused .duplicateKey else .row values
      else if keyTaken ops t db.txnXid (targetPk ops t s) then .conflict (targetPk ops t s)
      else .row values := by
  unfold insertOutcome
  rw [hload]
  dsimp only
  rw [hunique, if_neg Bool.false_ne_true]

theorem targetPk_def {ops : WhereOps} {u : RowTable} (hdef : u.tableDef = t.tableDef) (s : InsertStmt) :
    targetPk ops u s = targetPk ops t s := by
  unfold targetPk newKeyVal
  rw [hdef]

/-- The DELETE of a conflict removes the rows with the key. -/
theorem deleteIds_key {db : RowDb} {wc : WhereClause} (hk : SeeksInt env t s new) (hsingle : ¬1 < t.tableDef.pkCols.length)
    (ht : t.Searchable env.ops) (htxn : 0 < txn) (hwc : wc = keyWhere t (targetPk env.ops t s)) :
    ((t.deleteIds env.ops txn now (matchingIds env db t wc txn now)).rows txn now).Perm (unkeyedRows env.ops t new txn now) := by
  obtain ⟨hmatching, hothers⟩ := @matchingRows_keyWhere env db t new txn now _ hk.keyed hsingle hk.given hk.same
  rw [← hothers, ← hwc]
  refine (deleteIds_rows_iff ht htxn).mpr fun id => ?_
  rw [hwc, hmatching, foundRows_eq]
  have hids : ∀ v ∈ keyedRows env.ops t new txn now, v.id = (new.getD 0 Value.init).intVal := by
    intro v hv
    obtain ⟨hmem, -, hkey⟩ := mem_keyedRows hv
    rw [sameKey_int hk.keyed hsingle (hk.keyed.cells v hmem) hk.given] at hkey
    exact of_decide_eq_true hkey
  by_cases hid : id = (new.getD 0 Value.init).intVal
  · rw [hid, seen_int ht hk.keyed hsingle hk.given, List.filter_eq_self.mpr fun v hv => decide_eq_true (hids v hv)]
  · have hnone : (keyedRows env.ops t new txn now).filter (fun v => v.id = id) = [] := by
      apply List.filter_eq_nil_iff.mpr
      intro v hv he
      exact hid ((of_decide_eq_true he).symm.trans (hids v hv))
    rw [hnone]
    exact List.nil_prefix

/-- A table that the DELETE of a conflict has left has the key no more exactly if all live versions with it were visible. -/
theorem keyTaken_deleted {db : RowDb} {wc : WhereClause} (hk : SeeksInt env t s new) (hsingle : ¬1 < t.tableDef.pkCols.length)
    (ht : t.Searchable env.ops) (htxn : 0 < txn) (hwc : wc = keyWhere t (targetPk env.ops t s)) :
    keyTaken env.ops (t.deleteIds env.ops txn now (matchingIds env db t wc txn now)) txn (targetPk env.ops t s) = false ↔
      ∀ v ∈ t.cells, v.live txn = true → t.tableDef.sameKey env.ops v.values new = true → v.visible txn now = true := by
  set ids := matchingIds env db t wc txn now with hids
  have hkey : ∀ v ∈ t.cells, t.tableDef.sameKey env.ops v.values new = true ↔ v.id = (targetPk env.ops t s).intVal := by
    intro v hv
    rw [sameKey_int hk.keyed hsingle (hk.keyed.cells v hv) hk.given, decide_eq_true_iff, hk.same]
    rfl
  have htaken := @keyTaken_int env.ops _ txn _ (deleteIds_searchable ht htxn ids now) (hk.keyed.deleteIds ht htxn ids) hk.target
  rw [← Bool.not_eq_true, htaken]
  constructor
  · intro hfree v hv hlive hsame
    by_contra hvisible
    exact hfree ⟨v, mem_deleteIds (Bool.eq_false_of_not_eq_true hvisible) ids hv, hlive, (hkey v hv).mp hsame⟩
  · rintro hvisible ⟨v, hv, hlive, hid⟩
    -- a visible version with the key would be a row that the DELETE was meant for
    have hmem := live_deleteIds htxn ids hv hlive
    have hshown := hvisible v hmem hlive ((hkey v hmem).mpr hid)
    have hrow : (v.values, v.expireAt) ∈ (t.deleteIds env.ops txn now ids).rows txn now :=
      List.mem_map.mpr ⟨v, List.mem_filter.mpr ⟨hv, hshown⟩, rfl⟩
    have hleft := (@deleteIds_key env t s new txn now db wc hk hsingle ht htxn hwc).subset hrow
    obtain ⟨w, hw, hsame⟩ := List.mem_map.mp hleft
    have hvalues : w.values = v.values := congrArg Prod.fst hsame
    have hother := (List.mem_filter.mp hw).2
    rw [hvalues, (hkey v hmem).mpr hid] at hother
    cases hother

/-- The outcome of the retry. -/
theorem insertOutcome_retry {db db' : RowDb} {ids : List (BitVec 32)} (hi : db.tables[i]? = some t) (ht : t.Searchable env.ops)
    (htables : db'.tables = db.tables.set i (t.deleteIds env.ops db.txnXid now ids)) (htxn : db'.txnXid = db.txnXid)
    (hsingle : ¬1 < t.tableDef.pkCols.length) (hload : loadRegisters env.ops db s t.tableDef = .ok values)
    (hunique : uniqueTaken env.ops t db.txnXid s = false) (a : ConflictAction) :
    insertOutcome env.ops db' (t.deleteIds env.ops db.txnXid now ids) { s with conflictAction := a } =
      if keyTaken env.ops (t.deleteIds env.ops db.txnXid now ids) db.txnXid (targetPk env.ops t s) then
        .conflict (targetPk env.ops t s)
      else .row values := by
  have hdef := @deleteIds_def env.ops t ids db.txnXid now
  have hpos : 0 < db.txnXid := Nat.succ_pos _
  have hload' : loadRegisters env.ops db' s (t.deleteIds env.ops db.txnXid now ids).tableDef = .ok values := by
    rw [hdef, loadRegisters_set hi htables hdef (deleteIds_values ht hpos ids), hload]
  have hunique' : uniqueTaken env.ops (t.deleteIds env.ops db.txnXid now ids) db'.txnXid s = false := by
    rw [htxn]
    exact uniqueTaken_of_live hdef (fun v hv hlive => live_deleteIds hpos ids hv hlive) hunique
  have houtcome := insertOutcome_loaded hload' hunique'
  rw [hdef, if_neg hsingle, targetPk_def hdef, htxn] at houtcome
  exact houtcome

/-- What REPLACE does in an open transaction: where no row restricts its DELETE, the retry comes to an end in the table without
the rows with the key. -/
theorem replace_iff {wc : WhereClause} {d : DmlResult} {r₂ : Trace RowDb RowStep} (hk : SeeksInt env t s new)
    (hsingle : ¬1 < t.tableDef.pkCols.length) (hi : r.state.tables[i]? = some t) (ht : t.Searchable env.ops)
    (hq : NoCascade env r.state t.tableDef) (hqi : Untriggered env t.tableDef .insert) (hvac : r.state.autoVacuum = false)
    (hclock : ∀ m n, m ≤ n → env.time m ≤ env.time n) (hopen : r.state.begun.isSome = true)
    (hauto : ∀ w : RowTable, w.tableDef = t.tableDef →
      ({ s with conflictAction := .abort } : InsertStmt).autoincrement w = { s with conflictAction := .abort })
    (haction : s.conflictAction = .replace) (hwc : wc = keyWhere t (targetPk env.ops t s))
    (htaken : keyTaken env.ops t r.state.txnXid (targetPk env.ops t s) = true)
    (hload : loadRegisters env.ops r.state s t.tableDef = .ok values) (hunique : uniqueTaken env.ops t r.state.txnXid s = false)
    (hnew : new = t.tableDef.storedRow env.ops.toFloatOps values)
    (hdelete : run env fuel depth (.delete i wc) r = some (d, r₂))
    (hinsert : run env fuel depth (.insert i { s with conflictAction := .abort }) r₂ = some (result, r')) :
    KeepsOneRow env i r.state t s new r.state.txnXid (startTime env r) result r'.state ↔
      restricts env r.state t wc r.state.txnXid (startTime env r) = false ∧
        ∀ v ∈ t.cells, v.live r.state.txnXid = true → t.tableDef.sameKey env.ops v.values new = true →
          v.visible r.state.txnXid (startTime env r) = true := by
  have hpos : 0 < r.state.txnXid := Nat.succ_pos _
  have hlater := (Steps.later (steps_run fuel depth (.delete i wc)) hdelete).1
  cases fuel with
  | zero => cases hdelete
  | succ fuel =>
    obtain ⟨-, hrestricted, hsame⟩ | ⟨hfree, auto, r₃, hset, hend, hkept⟩ := runDeleteVm_loop hi hq hdelete
    · -- nothing is deleted, and the retry meets the conflict again
      refine iff_of_false ?_ fun h => Bool.false_ne_true (h.1.symm.trans hrestricted)
      rintro ⟨rfl, -⟩
      have hi₂ : r₂.state.tables[i]? = some t := by rw [hsame.tables, hi]
      obtain ⟨values', hacc⟩ := runInsertVm_success hi₂ hqi rfl hinsert
      have htxn : r₂.state.txnXid = r.state.txnXid := congrArg Nat.succ hsame.walLsn
      have hout := insertOutcome_loaded hload hunique
      rw [if_neg hsingle, htaken, if_pos rfl] at hout
      rw [hauto t rfl, insertOutcome_same hsame.tables htxn] at hacc
      cases hacc.symm.trans hout
    · obtain ⟨rfl, htxnSame⟩ := hkept hopen
      have hr₂ : r₃ = r₂ := by
        unfold endDelete commitAuto endAuto at hend
        rw [if_neg (by rw [hvac]; exact Bool.false_ne_true)] at hend
        exact (Prod.mk.inj (Option.some.inj hend)).2
      subst hr₂
      have htxn : r₃.state.txnXid = r.state.txnXid := congrArg Nat.succ htxnSame.walLsn
      set ids := matchingIds env r.state t wc r.state.txnXid (startTime env r) with hids
      set left := t.deleteIds env.ops r.state.txnXid (startTime env r) ids with hleft
      have hdef : left.tableDef = t.tableDef := deleteIds_def _ _ _ _
      have hi₃ := hset.getElem hi
      have hqi₃ : Untriggered env left.tableDef .insert := by
        rw [hdef]
        exact hqi
      have hout := insertOutcome_retry hi ht hset.tables htxn hsingle hload hunique .abort
      rw [← hleft] at hout
      rw [← @keyTaken_deleted env t s new _ _ r.state wc hk hsingle ht hpos hwc, ← hids, ← hleft]
      simp only [hfree, true_and]
      have houtcome : insertOutcome env.ops r₃.state left
          (({ s with conflictAction := .abort } : InsertStmt).autoincrement left) =
          if keyTaken env.ops left r.state.txnXid (targetPk env.ops t s) then .conflict (targetPk env.ops t s)
          else .row values := by
        rw [hauto left hdef]
        exact hout
      cases hagain : keyTaken env.ops left r.state.txnXid (targetPk env.ops t s) with
      | true =>
        refine iff_of_false ?_ (by simp)
        rintro ⟨rfl, -⟩
        obtain ⟨values', hacc⟩ := runInsertVm_success hi₃ hqi₃ rfl hinsert
        rw [houtcome, hagain, if_pos rfl] at hacc
        cases hacc
      | false =>
        refine iff_of_true ?_ rfl
        rw [hagain, if_neg Bool.false_ne_true] at houtcome
        have hnow : startTime env r ≤ startTime env r₃ := by
          have hopen₃ : r₃.state.begun.isSome = true := by
            rw [htxnSame.begun]
            exact hopen
          unfold startTime
          rw [if_pos hopen, if_pos hopen₃]
          exact hclock _ _ hlater
        have hunkeyed := @deleteIds_key env t s new r.state.txnXid (startTime env r) r.state wc hk hsingle ht hpos hwc
        have hkey : t.tableDef.sameKey env.ops new new = true := by
          rw [sameKey_int hk.keyed hsingle hk.given hk.given]
          exact decide_eq_true rfl
        exact inserted_keeps hset.tables hi₃ hdef hqi₃ htxn hnow hunkeyed hnew houtcome (Or.inr ⟨haction, hkey⟩) hinsert

end Replace

/-! ## The whole of an upsert -/

section Whole

variable {env : DmlEnv} {fuel depth i : Nat} {r r' : Trace RowDb RowStep} {t : RowTable} {s : InsertStmt} {values new : List Value}
  {result : DmlResult} {txn now : Nat}

/-- Where no live version is found, no visible row has the key. -/
theorem OneKey.free {db : RowDb} (h : OneKey env db t s new txn now values) (ht : t.Searchable env.ops)
    (hfree : if 1 < t.tableDef.pkCols.length then compositeTaken env.ops t txn s = false
      else keyTaken env.ops t txn (targetPk env.ops t s) = false) : keyedRows env.ops t new txn now = [] := by
  apply keyedRows_nil
  intro v hv hlive
  apply Bool.eq_false_of_not_eq_true
  intro hkey
  by_cases hcomposite : 1 < t.tableDef.pkCols.length
  · rw [if_pos hcomposite] at hfree
    have htaken : compositeTaken env.ops t txn s = true := by
      refine List.any_eq_true.mpr ⟨v, hv, ?_⟩
      rw [hlive, h.composite hcomposite v hv, hkey]
      rfl
    exact Bool.false_ne_true (hfree.symm.trans htaken)
  · rw [if_neg hcomposite] at hfree
    have hk := h.single hcomposite
    rw [sameKey_int hk.keyed hcomposite (hk.keyed.cells v hv) hk.given, decide_eq_true_iff, ← hk.same] at hkey
    have htaken := (@keyTaken_int env.ops t txn _ ht hk.keyed hk.target).mpr ⟨v, hv, hlive, hkey⟩
    exact Bool.false_ne_true (hfree.symm.trans htaken)

/-- A statement that meets a conflict of an INT key. -/
theorem conflict_iff (hi : r.state.tables[i]? = some t) (ht : t.Searchable env.ops)
    (hclock : ∀ m n, m ≤ n → env.time m ≤ env.time n) (hqi : Untriggered env t.tableDef .insert)
    (hqd : NoCascade env r.state t.tableDef) (hqu : NoUpdateCascade env r.state t.tableDef)
    (hvac : s.conflictAction = .replace → r.state.autoVacuum = false) (haction : s.conflictAction ≠ .abort)
    (hnew : new = t.tableDef.storedRow env.ops.toFloatOps values)
    (h : OneKey env r.state t (s.autoincrement t) new r.state.txnXid (startTime env r) values)
    (hsingle : ¬1 < t.tableDef.pkCols.length)
    (htaken : keyTaken env.ops t r.state.txnXid (targetPk env.ops t (s.autoincrement t)) = true)
    (hrun : run env fuel depth (.insert i s) r = some (result, r')) :
    KeepsOneRow env i r.state t (s.autoincrement t) new r.state.txnXid (startTime env r) result r'.state ↔
      UpsertExact env r.state t (s.autoincrement t) new r.state.txnXid (startTime env r) := by
  have hk := h.single hsingle
  have hout := insertOutcome_loaded h.loads h.unique
  rw [if_neg hsingle, htaken, if_pos rfl] at hout
  cases fuel with
  | zero => cases hrun
  | succ fuel =>
    change runInsertVm env (run env fuel) depth i s r = some (result, r') at hrun
    obtain ⟨auto, r₁, hsame, hopen, htime, hconflict⟩ := @runInsertVm_conflict env (run env fuel) depth i r t s _ hi hqi hout
    rw [hconflict] at hrun
    have hi₁ : r₁.state.tables[i]? = some t := by rw [hsame.tables, hi]
    have htxn : r₁.state.txnXid = r.state.txnXid := congrArg Nat.succ hsame.walLsn
    have hnow : startTime env r₁ = startTime env r := by
      rw [← htime]
      unfold startTime
      rw [if_pos hopen]
    unfold UpsertExact
    rw [if_neg hsingle, htaken]
    simp only [true_imp_iff]
    unfold resolveConflict at hrun
    rw [autoincrement_conflictAction] at hrun
    cases hact : s.conflictAction with
    | abort => exact absurd hact haction
    | ignore =>
      have hact' := (autoincrement_conflictAction s t).trans hact
      rw [hact] at hrun
      rw [hact']
      dsimp only at hrun ⊢
      obtain ⟨r₂, hcommit, htables⟩ := commitAuto_run env auto r₁
      rw [bind_run hcommit] at hrun
      obtain ⟨rfl, rfl⟩ := Prod.mk.inj (Option.some.inj hrun)
      exact ignore_iff hact' hi h.once (htables.trans hsame.tables)
    | update =>
      have hact' := (autoincrement_conflictAction s t).trans hact
      rw [hact] at hrun
      rw [hact']
      dsimp only at hrun ⊢
      obtain ⟨⟨d, r₂⟩, hupdate, hrest⟩ := Option.bind_eq_some_iff.mp hrun
      obtain ⟨r₃, hcommit, htables⟩ := commitAuto_run env auto r₂
      dsimp only at hrest
      rw [bind_run hcommit] at hrest
      obtain ⟨rfl, rfl⟩ := Prod.mk.inj (Option.some.inj hrest)
      cases fuel with
      | zero => cases hupdate
      | succ fuel =>
        have hiff := update_iff hk hsingle hi₁ ht (hsame.noUpdateCascade hqu) hact' rfl htxn hnow h.once hupdate
        exact (keepsOneRow_congr hsame.tables.symm htables).trans hiff
    | replace =>
      have hact' := (autoincrement_conflictAction s t).trans hact
      rw [hact] at hrun
      rw [hact']
      dsimp only at hrun ⊢
      obtain ⟨⟨d, r₂⟩, hdelete, hrest⟩ := Option.bind_eq_some_iff.mp hrun
      obtain ⟨⟨d', r₃⟩, hinsert, hrest⟩ := Option.bind_eq_some_iff.mp hrest
      obtain ⟨r₄, hcommit, htables⟩ := commitAuto_run env auto r₃
      dsimp only at hrest
      rw [bind_run hcommit] at hrest
      obtain ⟨rfl, rfl⟩ := Prod.mk.inj (Option.some.inj hrest)
      have hload : loadRegisters env.ops r₁.state (s.autoincrement t) t.tableDef = .ok values := by
        rw [← h.loads]
        unfold loadRegisters loadRegister RowDb.findTable
        rw [hsame.tables]
      have hiff := replace_iff hk hsingle hi₁ ht (hsame.noCascade hqd) hqi (hsame.autoVacuum.trans (hvac hact)) hclock hopen
        (fun w hw => autoincrement_again hw s .abort) hact' rfl (by rw [htxn]; exact htaken) hload
        (by rw [htxn]; exact h.unique) hnew hdelete hinsert
      rw [htxn, hnow, hsame.restricts] at hiff
      exact (keepsOneRow_congr hsame.tables.symm htables).trans hiff

end Whole

/-! ## An expired row, and a composite key -/

/-- Table t with the columns id and a, whose key is id, and one row. -/
def idTable (v : Version) : RowTable := ⟨{ compositeKey with pkCols := [] }, [v]⟩
def idDb (v : Version) : RowDb := ⟨[idTable v], none, false, 1, false⟩

/-- VALUES (1, 2). -/
def upsertPair (a : ConflictAction) : InsertStmt := { insertStmt [token 49, token 50] 0 with conflictAction := a }
def pairValues : List Value := [{ Value.init with intVal := 1 }, { Value.init with intVal := 2 }]

/-- The row (1, 10), expired at 5. -/
def expiredPair : Version := { pairRow 1 10 with expireAt := 5 }

theorem pairColumns_lt : compositeKey.columns.length < maxColumns := by decide

/-- Table t with another column b beside its key (id, a), and the row (1, 2, 9). -/
def tripleTable : RowTable :=
  ⟨compositeKey.addColumn (intColumn [98] letterB_fits) pairColumns_lt, [⟨pairValues ++ [{ Value.init with intVal := 9 }], 0, 1, 0⟩]⟩
def tripleDb : RowDb := ⟨[tripleTable], none, false, 1, false⟩

/-- INSERT OR REPLACE INTO t VALUES (1, 2, 3). -/
def replaceTriple : InsertStmt := { insertStmt [token 49, token 50, token 51] 0 with conflictAction := .replace }
def tripleValues : List Value := pairValues ++ [{ Value.init with intVal := 3 }]

/-- What a statement reports and which rows the tables then show. -/
def upserted (env : DmlEnv) (now : Nat) (db : RowDb) (s : InsertStmt) : Option (DmlResult × List (List (List (BitVec 32) × Nat))) :=
  (run env 4 0 (.insert 0 s) ⟨db, []⟩).map fun r => (r.1, r.2.state.tables.map fun t => (t.rows 2 now).map rowInts)

theorem searchable_one {ops : WhereOps} {d : TableDef} {v : Version} (h : d.storedRow ops.toFloatOps v.values = v.values) :
    (RowTable.mk d [v]).Searchable ops := by
  constructor
  · intro u hu
    obtain rfl := List.mem_singleton.mp hu
    exact h
  · intro id u hu
    obtain rfl := List.mem_singleton.mp ((List.dropWhile_sublist _).subset hu)
    apply Bool.eq_false_of_not_eq_true
    intro hbelow
    change u ∈ [u].dropWhile (d.belowId ops id) at hu
    rw [List.dropWhile_cons_of_pos hbelow] at hu
    cases hu

theorem idTable_key {env : DmlEnv} (v : Version) (hnull : (v.col 0).isNull = false) (a : ConflictAction) :
    SeeksInt env (idTable v) (upsertPair a) pairValues := by
  refine ⟨⟨⟨_, rfl, rfl⟩, fun u hu => ?_⟩, rfl, rfl, rfl⟩
  obtain rfl := List.mem_singleton.mp hu
  exact hnull

end CustomDB
