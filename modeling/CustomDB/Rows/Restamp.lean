import CustomDB.Rows.Delete
import CustomDB.Rows.Traced

/-!
# Which version a cursor ends

UPDATE and DELETE set a cursor on a version, fire the BEFORE triggers and follow the cascades, and then delete the cell
at the cursor and store the version again with its end. In a session, whatever its triggers and cascades do, each of
these steps ends the version it was meant for exactly if that version is still at the cursor.
-/

namespace CustomDB

open Lib Lib.Program

/-! ## One step -/

/-- The version with its end, as it is stored. -/
def TableDef.restamped (ops : WhereOps) (d : TableDef) (old : Version) (txn : Nat) : Version :=
  { old with values := d.storedRow ops.toFloatOps old.values, xmax := txn }

/-- The new version of an updated row, as it is stored. -/
def TableDef.revised (ops : WhereOps) (d : TableDef) (old : Version) (values : List Value) (txn : Nat) : Version :=
  ⟨d.storedRow ops.toFloatOps values, old.expireAt, txn, 0⟩

/-- Table `i` loses the version `old`, gets the versions `stored`, and keeps every other one; no other table changes. -/
def Replaces (db db' : RowDb) (i : Nat) (old : Version) (stored : TableDef → List Version) : Prop :=
  ∃ t t', db.tables[i]? = some t ∧ db'.tables = db.tables.set i t' ∧ t'.tableDef = t.tableDef ∧ old ∈ t.cells ∧
    t'.cells.Perm (stored t.tableDef ++ t.cells.erase old)

/-- The step ends the version it was meant for, and no other. -/
def RowStep.EndsOwn (ops : WhereOps) (db db' : RowDb) : RowStep → Prop
  | .retire i _ _ old txn _ => Replaces db db' i old fun d => [d.restamped ops old txn]
  | .revise i _ _ old values txn _ => Replaces db db' i old fun d => [d.revised ops old values txn, d.restamped ops old txn]
  | _ => True

/-- The version that the step was meant for is at the cursor. -/
def RowStep.OnVersion (db : RowDb) : RowStep → Prop
  | .retire i cursor _ old _ _ => ∃ t, db.tables[i]? = some t ∧ t.cells[cursor]? = some old
  | .revise i cursor _ old _ _ _ => ∃ t, db.tables[i]? = some t ∧ t.cells[cursor]? = some old
  | _ => True

variable {env : DmlEnv} {ops : WhereOps} {t : RowTable} {cursor : Nat} {old : Version} {db db' : RowDb} {i : Nat}

/-- Deleting at a position takes a given element away exactly if it is there. -/
theorem perm_eraseIdx_iff {α : Type} [DecidableEq α] {l : List α} {k : Nat} {x : α} (hx : x ∈ l) :
    (l.eraseIdx k).Perm (l.erase x) ↔ l[k]? = some x := by
  rcases Nat.lt_or_ge k l.length with hk | hk
  · rw [List.getElem?_eq_getElem hk]
    have hsplit : l.Perm (l[k] :: l.eraseIdx k) := (List.getElem_cons_eraseIdx_perm hk).symm
    have herase : l.Perm (x :: l.erase x) := List.perm_cons_erase hx
    constructor
    · intro h
      have hall : (l[k] :: l.eraseIdx k).Perm (x :: l.eraseIdx k) := hsplit.symm.trans (herase.trans (h.symm.cons x))
      by_contra hne
      have hcount := hall.count_eq x
      rw [List.count_cons_self, List.count_cons_of_ne fun he => hne (congrArg some he)] at hcount
      omega
    · intro h
      rw [Option.some.inj h] at hsplit
      exact (List.perm_cons x).mp (hsplit.symm.trans herase)
  · rw [List.getElem?_eq_none hk, List.eraseIdx_of_length_le hk]
    refine iff_of_false (fun h => ?_) (fun h => by cases h)
    have hlen := h.length_eq
    rw [List.length_erase_of_mem hx] at hlen
    have hpos := List.length_pos_of_mem hx
    omega

theorem retired_perm (ops : WhereOps) (t : RowTable) (cursor : Nat) (id : BitVec 32) (old : Version) (txn : Nat) :
    (t.retired ops cursor id old txn).cells.Perm (t.tableDef.restamped ops old txn :: t.cells.eraseIdx cursor) :=
  btreeInsert_perm ops (t.btreeDelete cursor) (targetId id) { old with xmax := txn }

/-- The table after either step against the table it should be. -/
theorem replaces_iff {t' : RowTable} {stored : TableDef → List Version} (hi : db.tables[i]? = some t)
    (hcells : t'.cells.Perm (stored t.tableDef ++ t.cells.eraseIdx cursor)) (hset : db'.tables = db.tables.set i t')
    (hdef : t'.tableDef = t.tableDef) :
    Replaces db db' i old stored ↔ ∃ t, db.tables[i]? = some t ∧ t.cells[cursor]? = some old := by
  have hi' : db'.tables[i]? = some t' := by
    rw [hset, List.getElem?_set_self (List.getElem?_eq_some_iff.mp hi).1]
  constructor
  · rintro ⟨u, u', hu, hset', -, hmem, hperm⟩
    obtain rfl : t = u := Option.some.inj (hi.symm.trans hu)
    have hu' : db'.tables[i]? = some u' := by
      rw [hset', List.getElem?_set_self (List.getElem?_eq_some_iff.mp hi).1]
    obtain rfl : t' = u' := Option.some.inj (hi'.symm.trans hu')
    exact ⟨t, hi, (perm_eraseIdx_iff hmem).mp ((List.perm_append_left_iff _).mp (hcells.symm.trans hperm))⟩
  · rintro ⟨u, hu, hold⟩
    obtain rfl : t = u := Option.some.inj (hi.symm.trans hu)
    have hmem := List.mem_of_getElem? hold
    exact ⟨t, t', hi, hset, hdef, hmem, hcells.trans (List.Perm.append_left _ ((perm_eraseIdx_iff hmem).mpr hold))⟩

theorem endsOwn_iff (env : DmlEnv) {step : RowStep} (h : db.step env step = some db') :
    step.EndsOwn env.ops db db' ↔ step.OnVersion db := by
  cases step with
  | retire i cursor id old txn now =>
    obtain ⟨t, hi, hdb⟩ := Option.bind_eq_some_iff.mp h
    obtain rfl := Option.some.inj hdb
    have hperm : (t.retired env.ops cursor id old txn).cells.Perm
        ([t.tableDef.restamped env.ops old txn] ++ t.cells.eraseIdx cursor) := retired_perm env.ops t cursor id old txn
    change Replaces db _ i old (fun d => [d.restamped env.ops old txn]) ↔ _
    exact replaces_iff hi hperm rfl rfl
  | revise i cursor id old values txn now =>
    obtain ⟨t, hi, hdb⟩ := Option.bind_eq_some_iff.mp h
    obtain rfl := Option.some.inj hdb
    have hperm : ((t.retired env.ops cursor id old txn).btreeInsert env.ops (values.headD Value.init)
        ⟨values, old.expireAt, txn, 0⟩).cells.Perm
        ([t.tableDef.revised env.ops old values txn, t.tableDef.restamped env.ops old txn] ++ t.cells.eraseIdx cursor) :=
      (btreeInsert_perm env.ops _ _ _).trans ((retired_perm env.ops t cursor id old txn).cons _)
    change Replaces db _ i old (fun d => [d.revised env.ops old values txn, d.restamped env.ops old txn]) ↔ _
    exact replaces_iff hi hperm rfl rfl
  | _ => exact iff_of_true trivial trivial

/-- Triggers and cascades that leave the cells of the table as they were leave the cursor on its version. -/
theorem cursorIn_kept {t' : RowTable} (hold : t.cells[cursor]? = some old) (hsame : t'.cells = t.cells) :
    t'.cells[cursorIn env t t' cursor]? = some old := by
  rw [cursorIn, if_pos hsame, hsame, hold]

/-! ## A session -/

/-- Each step of a run that takes place ends the version it was meant for, and no other. -/
def EndsOwnThroughout (env : DmlEnv) (db : RowDb) (steps : List RowStep) : Prop :=
  ∀ pre step post s s', steps = pre ++ step :: post → follow (RowDb.step env) db pre = some s → s.step env step = some s' →
    step.EndsOwn env.ops s s'

/-- A text in an array. -/
def Chars.of (n : Nat) (s : Text) : Chars (n + 1) := Chars.print (List.Vector.replicate (n + 1) 0) n.succ_pos s

/-- BEFORE DELETE ON t, with an action that is prepared to `pairInsert`. -/
def insertTrigger : TriggerDef where
  name := Chars.of 63 [103]
  targetTable := Chars.of 63 [116]
  timing := .before
  event := .delete
  actionSql := Chars.of 255 []

/-- INSERT INTO t VALUES (0, 5). -/
def pairInsert : InsertStmt where
  numValues := 2
  rawValues := [[48], [53]]
  dynRawValues := []
  rawIsNull := []
  boundValues := none
  conflictAction := .abort
  expiresSec := 0
  setPairs := []

/-- The trigger alone. The table has one leaf, in which a cursor stays at its cell number. -/
def triggerEnv : DmlEnv := { rowsEnv with triggers := [insertTrigger], prepare := fun _ _ _ _ => some (.insert [116] pairInsert) }

/-- The rows (1, 10) and (2, 10). -/
def oneTwoDb : RowDb := ⟨[⟨compositeKey, [pairRow 1 10, pairRow 2 10]⟩], none, false, 1, false⟩

/-- DELETE FROM t WHERE id = 1. -/
def deleteOne : List ClientOp := [.execute (.delete [116] (whereEq [105, 100] [49]))]

/-- The visible rows of each table that a session leaves. -/
def sessionRows (env : DmlEnv) (ops : List ClientOp) : Option (List (List (List (BitVec 32) × Nat))) :=
  (session env 4 ops ⟨oneTwoDb, []⟩).map fun r => r.2.state.tables.map fun t => (t.rows 2 0).map rowInts

end CustomDB
