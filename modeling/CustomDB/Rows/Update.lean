import CustomDB.Sql.UpdateText
import CustomDB.Rows.Inserted

/-!
# What UPDATE leaves of a table

`run_update_vm` notes the int values of column 0 of the rows that match, as DELETE does, and then looks for a visible
row with each of them. The version it stores in place of the one it finds is visible, and a later search can find it.
-/

namespace CustomDB

open Lib Lib.Program

/-! ## The second loop without triggers and cascades -/

section Loop

variable (env : DmlEnv) (pairs : List SetPair)

/-- The version that a search for an id finds, with its place. -/
def RowTable.found (ops : WhereOps) (t : RowTable) (id : BitVec 32) (txn now : Nat) : Option (Nat × Version) :=
  (t.seekRow ops id txn now).bind fun cursor => t.cells[cursor]?.map fun v => (cursor, v)

/-- One turn of the second loop; `none` where a SET names no column. -/
def RowTable.updateId (t : RowTable) (id : BitVec 32) (txn now : Nat) : Option RowTable :=
  match t.found env.ops id txn now with
  | none => some t
  | some (cursor, old) => (applySets env t.tableDef old.values pairs).map fun values =>
    (t.retired env.ops cursor id old txn).btreeInsert env.ops (values.headD Value.init) ⟨values, old.expireAt, txn, 0⟩

/-- The second loop. -/
def RowTable.updateIds (t : RowTable) (txn now : Nat) (ids : List (BitVec 32)) : Option RowTable :=
  ids.foldlM (fun t id => t.updateId env pairs id txn now) t

/-- The row that UPDATE makes of a row. -/
def updatedValues (d : TableDef) (values : List Value) : List Value := (applySets env d values pairs).getD values

/-- The version that UPDATE stores for a version. -/
def updatedVersion (d : TableDef) (txn : Nat) (v : Version) : Version :=
  { values := d.storedRow env.ops.toFloatOps (updatedValues env pairs d v.values)
    expireAt := v.expireAt
    xmin := txn
    xmax := 0 }

end Loop

section Turn

variable {env : DmlEnv} {pairs : List SetPair} {t t' : RowTable} {id : BitVec 32} {txn now : Nat}

/-- The visible versions that the search for an id can find. -/
abbrev RowTable.seen (ops : WhereOps) (t : RowTable) (txn now : Nat) (id : BitVec 32) : List Version :=
  Struck.seen (t.tableDef.belowId ops) Version.id (fun v => v.visible txn now) id t.cells

theorem found_head (ops : WhereOps) (t : RowTable) (id : BitVec 32) (txn now : Nat) :
    (t.found ops id txn now).map Prod.snd = (t.seen ops txn now id).head? := by
  have hseek := @seekRow_eq ops t id txn now
  unfold RowTable.seen Struck.seen
  rw [List.head?_filter, List.find?_eq_bind_findIdx?_getElem?]
  set run := Struck.run (t.tableDef.belowId ops) Version.id id t.cells with hrun
  unfold RowTable.found
  rw [hseek]
  cases hk : run.findIdx? fun v => v.visible txn now with
  | none => rfl
  | some k =>
    have hlt : k < run.length := (List.findIdx?_eq_some_iff_getElem.mp hk).1
    have hget : t.cells[(t.cells.takeWhile (t.tableDef.belowId ops id)).length + k]? = run[k]? := by
      rw [← List.getElem?_drop, Ranked.drop_takeWhile, hrun, Struck.run]
      have hprefix := List.takeWhile_prefix (fun v : Version => decide (v.id = id))
        (l := t.cells.dropWhile (t.tableDef.belowId ops id))
      obtain ⟨rest, hrest⟩ := hprefix
      conv_lhs => rw [← hrest]
      exact List.getElem?_append_left hlt
    simp only [Option.map_some, Option.bind_some, hget]
    cases run[k]? <;> rfl

/-- A turn that finds a version ends it, as DELETE does, and stores the updated one. -/
theorem updateId_found {v : Version} {values : List Value} (hv : (t.seen env.ops txn now id).head? = some v)
    (hsets : applySets env t.tableDef v.values pairs = some values) :
    t.updateId env pairs id txn now =
      some ((t.deleteId env.ops id txn now).btreeInsert env.ops (values.headD Value.init) ⟨values, v.expireAt, txn, 0⟩) := by
  rw [← found_head] at hv
  obtain ⟨⟨cursor, old⟩, hfound, rfl⟩ := Option.map_eq_some_iff.mp hv
  have hdelete : t.deleteId env.ops id txn now = t.retired env.ops cursor id old txn := by
    unfold RowTable.deleteId
    have hmatch : (t.seekRow env.ops id txn now).bind (fun cursor => t.cells[cursor]?.map fun v => (cursor, v)) =
        some (cursor, old) := hfound
    rw [hmatch]
  unfold RowTable.updateId
  rw [hfound, hdelete]
  dsimp only
  rw [hsets]
  rfl

theorem updateId_missing {v : Version} (hv : (t.seen env.ops txn now id).head? = some v)
    (hsets : applySets env t.tableDef v.values pairs = none) : t.updateId env pairs id txn now = none := by
  rw [← found_head] at hv
  obtain ⟨⟨cursor, old⟩, hfound, rfl⟩ := Option.map_eq_some_iff.mp hv
  unfold RowTable.updateId
  rw [hfound]
  dsimp only
  rw [hsets]
  rfl

/-- A turn that comes to its end has applied the SET list to the version it found. -/
theorem updateId_some {v : Version} (hv : (t.seen env.ops txn now id).head? = some v)
    (h : t.updateId env pairs id txn now = some t') : ∃ values, applySets env t.tableDef v.values pairs = some values ∧
      updatedValues env pairs t.tableDef v.values = values ∧ t' = (t.deleteId env.ops id txn now).btreeInsert env.ops
        (values.headD Value.init) ⟨values, v.expireAt, txn, 0⟩ := by
  cases hsets : applySets env t.tableDef v.values pairs with
  | none =>
    rw [updateId_missing hv hsets] at h
    cases h
  | some values =>
    rw [updateId_found hv hsets] at h
    refine ⟨values, rfl, ?_, (Option.some.inj h).symm⟩
    unfold updatedValues
    rw [hsets]
    rfl

/-! ## INT keys -/

theorem signOf_lt {gt lt : Bool} : signOf gt lt = .lt ↔ gt = false ∧ lt = true := by
  cases gt <;> cases lt <;> decide

theorem compareCol0_int (ops : WhereOps) (v w : Value) : compareCol0 ops .int v w = .lt ↔ v.intVal.toInt < w.intVal.toInt := by
  show signOf (w.intVal.slt v.intVal) (v.intVal.slt w.intVal) = .lt ↔ _
  rw [signOf_lt, BitVec.slt_eq_decide, BitVec.slt_eq_decide, decide_eq_false_iff_not, decide_eq_true_iff]
  omega

theorem belowId_int {ops : WhereOps} {d : TableDef} (hc : d.typeOf 0 = .int) (j : BitVec 32) (v : Version) :
    d.belowId ops j v = true ↔ v.id.toInt < j.toInt := by
  unfold TableDef.belowId
  rw [hc, decide_eq_true_iff]
  exact compareCol0_int ops _ _

theorem btreeFind_int {ops : WhereOps} (hc : t.tableDef.typeOf 0 = .int) (key : Value) :
    t.btreeFind ops key = (t.cells.takeWhile (t.tableDef.belowId ops key.intVal)).length := by
  have hsame : (fun v => decide (t.compareCell ops key v = .lt)) = t.tableDef.belowId ops key.intVal := by
    funext v
    unfold RowTable.compareCell TableDef.belowId
    rw [hc, decide_eq_decide, compareCol0_int, compareCol0_int]
    rfl
  unfold RowTable.btreeFind
  rw [hsame]

/-- An insertion keeps what the searches need, and the other ids find what they found. -/
theorem btreeInsert_int {ops : WhereOps} (ht : t.Searchable ops) (hc : t.tableDef.typeOf 0 = .int) {key : Value}
    {v : Version} (hkey : ((t.tableDef.storedRow ops.toFloatOps v.values).getD 0 Value.init).intVal = key.intVal)
    (hstored : t.tableDef.storedRow ops.toFloatOps (t.tableDef.storedRow ops.toFloatOps v.values) =
      t.tableDef.storedRow ops.toFloatOps v.values) :
    (t.btreeInsert ops key v).Searchable ops ∧ ∀ j, j ≠ key.intVal →
      (t.btreeInsert ops key v).seen ops txn now j = t.seen ops txn now j := by
  set new : Version := { v with values := t.tableDef.storedRow ops.toFloatOps v.values } with hnew
  have hid : new.id = key.intVal := hkey
  have hcells : (t.btreeInsert ops key v).cells = t.cells.takeWhile (t.tableDef.belowId ops new.id) ++
      new :: t.cells.dropWhile (t.tableDef.belowId ops new.id) := by
    show t.cells.insertIdx (t.btreeFind ops key) new = _
    rw [btreeFind_int hc, ← hid]
    exact Ranked.insertIdx_takeWhile _ _ _
  have hinj : ∀ i j : BitVec 32, i.toInt = j.toInt → i = j := fun _ _ => BitVec.eq_of_toInt_eq
  obtain ⟨hsearched, hruns⟩ := ht.searched.insert hinj (belowId_int hc) new
  rw [← hcells] at hsearched hruns
  refine ⟨⟨fun u hu => ?_, hsearched.split⟩, fun j hj => ?_⟩
  · rw [hcells] at hu
    rcases List.mem_append.mp hu with hu | hu
    · exact ht.stored u ((List.takeWhile_sublist _).subset hu)
    · rcases List.mem_cons.mp hu with rfl | hu
      · exact hstored
      · exact ht.stored u ((List.dropWhile_sublist _).subset hu)
  · exact congrArg (List.filter fun v => v.visible txn now) (hruns j (hid ▸ hj))

end Turn

/-! ## The loop -/

section Rows

variable {env : DmlEnv} {pairs : List SetPair} {t t' : RowTable} {id : BitVec 32} {txn now : Nat} {v : Version}

theorem mem_seen (hv : (t.seen env.ops txn now id).head? = some v) : v ∈ t.cells ∧ v.visible txn now = true ∧ v.id = id := by
  have hmem := List.mem_of_head? hv
  obtain ⟨hrun, hvis⟩ := List.mem_filter.mp hmem
  refine ⟨(List.dropWhile_sublist _).subset ((List.takeWhile_sublist _).subset hrun), hvis, ?_⟩
  exact of_decide_eq_true (List.mem_takeWhile_imp (p := fun v : Version => decide (v.id = id)) hrun)

/-- What one turn does to the visible versions. -/
theorem updateId_visible (ht : t.Searchable env.ops) (htxn : 0 < txn)
    (hv : (t.seen env.ops txn now id).head? = some v)
    (h : t.updateId env pairs id txn now = some t') : ∃ rest,
      (t.cells.filter fun v => v.visible txn now).Perm (v :: rest) ∧
      (t'.cells.filter fun v => v.visible txn now).Perm (updatedVersion env pairs t.tableDef txn v :: rest) ∧
      t'.tableDef = t.tableDef := by
  obtain ⟨values, -, hvalues, rfl⟩ := updateId_some hv h
  obtain ⟨hstrikes, -⟩ := deleteId_strikes ht htxn id now
  obtain ⟨-, -, -, hgone⟩ := hstrikes.spec ht.searched
  have hhead : (Struck.seen (t.tableDef.belowId env.ops) Version.id (fun v => v.visible txn now) id t.cells).head? = some v := hv
  rw [List.take_one, hhead] at hgone
  set u := t.deleteId env.ops id txn now with hu
  have hdef : u.tableDef = t.tableDef := deleteId_def t id txn now
  refine ⟨u.cells.filter fun v => v.visible txn now, hgone, ?_, hdef⟩
  have hnew : Version.visible ⟨u.tableDef.storedRow env.ops.toFloatOps values, v.expireAt, txn, 0⟩ txn now = true := by
    have hvis := (mem_seen hv).2.1
    unfold Version.visible Version.alive Version.live at hvis ⊢
    have hactive := (Bool.and_eq_true_iff.mp hvis).1
    simpa using hactive
  have hperm := (btreeInsert_perm env.ops u (values.headD Value.init) ⟨values, v.expireAt, txn, 0⟩).filter
    fun v => v.visible txn now
  rw [List.filter_cons, if_pos hnew, hdef] at hperm
  unfold updatedVersion
  rw [hvalues]
  exact hperm

/-- The searches of UPDATE do not find a row twice: rows that match have different ids, no row gets the id of one that
is looked for later, and the id of a new row is the one it is placed by. -/
def UpdatesApart (env : DmlEnv) (pairs : List SetPair) (d : TableDef) (txn : Nat) (vs : List Version) : Prop :=
  vs.Pairwise fun u v => u.id ≠ v.id ∧ (updatedVersion env pairs d txn u).id ≠ v.id ∧
    ((updatedValues env pairs d u.values).headD Value.init).intVal = (updatedVersion env pairs d txn u).id

/-- A turn for an INT key leaves what the other searches find. -/
theorem updateId_int (hieee : env.ops.Ieee) (ht : t.Searchable env.ops) (htxn : 0 < txn) (hc : t.tableDef.typeOf 0 = .int)
    (hv : (t.seen env.ops txn now id).head? = some v) (h : t.updateId env pairs id txn now = some t')
    (hkey : ((updatedValues env pairs t.tableDef v.values).headD Value.init).intVal =
      (updatedVersion env pairs t.tableDef txn v).id) :
    t'.Searchable env.ops ∧ ∀ j, j ≠ id → j ≠ (updatedVersion env pairs t.tableDef txn v).id →
      t'.seen env.ops txn now j = t.seen env.ops txn now j := by
  obtain ⟨values, -, hvalues, rfl⟩ := updateId_some hv h
  obtain ⟨hstrikes, -⟩ := deleteId_strikes ht htxn id now
  obtain ⟨-, -, hothers, -⟩ := hstrikes.spec ht.searched
  have hsearch := deleteId_searchable ht htxn id now
  have hdef := @deleteId_def env.ops t id txn now
  have hnew : (updatedVersion env pairs t.tableDef txn v).id =
      ((t.tableDef.storedRow env.ops.toFloatOps values).getD 0 Value.init).intVal := by
    unfold updatedVersion
    rw [hvalues]
    rfl
  have hid : ((t.tableDef.storedRow env.ops.toFloatOps values).getD 0 Value.init).intVal = (values.headD Value.init).intVal := by
    rw [← hnew, ← hkey, hvalues]
  obtain ⟨hsearch', hseen⟩ := @btreeInsert_int (t.deleteId env.ops id txn now) txn now env.ops hsearch
    (by rw [hdef]; exact hc) (values.headD Value.init) ⟨values, v.expireAt, txn, 0⟩ (by rw [hdef]; exact hid)
    (storedRow_storedRow hieee _ _)
  refine ⟨hsearch', fun j hj hother => ?_⟩
  rw [hseen j fun he => hother (by rw [he, ← hid, hnew])]
  have hsame := hothers j hj
  unfold RowTable.seen
  rw [hdef]
  exact hsame

/-- For the other types every row has the id 0. -/
theorem id_of_ne_int (ht : t.Searchable env.ops) (hc : t.tableDef.typeOf 0 ≠ .int) (hv : v ∈ t.cells) : v.id = 0 := by
  have hstored := stored_getD (ht.stored v hv) 0
  show (v.values.getD 0 Value.init).intVal = 0
  rw [← hstored]
  unfold Value.stored
  split
  · rfl
  · split
    · next h => exact absurd h hc
    all_goals rfl

/-- The loop replaces the versions it is meant for, as long as each is found first and the searches stay apart. -/
theorem updateIds_visible (hieee : env.ops.Ieee) (htxn : 0 < txn) {vs : List Version} (ht : t.Searchable env.ops)
    (hvs : ∀ v ∈ vs, (t.seen env.ops txn now v.id).head? = some v)
    (hapart : UpdatesApart env pairs t.tableDef txn vs) (h : t.updateIds env pairs txn now (vs.map Version.id) = some t') :
    ∃ rest, (t.cells.filter fun v => v.visible txn now).Perm (vs ++ rest) ∧
      (t'.cells.filter fun v => v.visible txn now).Perm (vs.map (updatedVersion env pairs t.tableDef txn) ++ rest) ∧
      t'.tableDef = t.tableDef := by
  induction vs generalizing t with
  | nil =>
    obtain rfl := Option.some.inj h
    exact ⟨_, List.Perm.refl _, List.Perm.refl _, rfl⟩
  | cons v vs ih =>
    obtain ⟨u, hu, hrest⟩ := Option.bind_eq_some_iff.mp (show ((t.updateId env pairs v.id txn now).bind fun u =>
      u.updateIds env pairs txn now (vs.map Version.id)) = some t' from h)
    have hhead := hvs v List.mem_cons_self
    obtain ⟨gone, hgone, hstored, hdef⟩ := updateId_visible ht htxn hhead hu
    obtain ⟨hfirst, hlater⟩ := List.pairwise_cons.mp hapart
    rw [← hdef] at hlater
    -- for other types than INT a second id would be the first one again
    have hnext : vs ≠ [] → u.Searchable env.ops ∧ ∀ w ∈ vs, (u.seen env.ops txn now w.id).head? = some w := fun hne => by
      obtain ⟨w, ws, rfl⟩ := List.exists_cons_of_ne_nil hne
      have hw := hfirst w List.mem_cons_self
      have hc : t.tableDef.typeOf 0 = .int := by
        by_contra hc
        refine hw.1 ?_
        rw [id_of_ne_int ht hc (mem_seen hhead).1,
          id_of_ne_int ht hc (mem_seen (hvs w (List.mem_cons_of_mem _ List.mem_cons_self))).1]
      obtain ⟨hsearch, hsame⟩ := updateId_int hieee ht htxn hc hhead hu hw.2.2
      refine ⟨hsearch, fun x hx => ?_⟩
      obtain ⟨hx1, hx2, -⟩ := hfirst x hx
      rw [hsame x.id (Ne.symm hx1) (Ne.symm hx2)]
      exact hvs x (List.mem_cons_of_mem _ hx)
    by_cases hnil : vs = []
    · subst hnil
      obtain rfl := Option.some.inj hrest
      exact ⟨gone, hgone, hstored, hdef⟩
    · obtain ⟨hsearch, hheads⟩ := hnext hnil
      obtain ⟨others, hothers, hupdated, hdef'⟩ := ih hsearch hheads hlater hrest
      rw [hdef] at hupdated
      set new := updatedVersion env pairs t.tableDef txn v with hnew
      have hout : new ∉ vs := fun hin => (hfirst new hin).2.1 rfl
      have hin : new ∈ others := by
        have hmem : new ∈ vs ++ others := hothers.subset (hstored.symm.subset List.mem_cons_self)
        exact (List.mem_append.mp hmem).resolve_left hout
      have hsplit : others.Perm (new :: others.erase new) := List.perm_cons_erase hin
      have hgone' : gone.Perm (vs ++ others.erase new) := by
        have hboth : (new :: gone).Perm (new :: (vs ++ others.erase new)) :=
          hstored.symm.trans (hothers.trans ((List.Perm.append_left vs hsplit).trans List.perm_middle))
        exact hboth.cons_inv
      refine ⟨others.erase new, hgone.trans (hgone'.cons v), ?_, hdef'.trans hdef⟩
      exact hupdated.trans ((List.Perm.append_left _ hsplit).trans List.perm_middle)

end Rows

/-! ## A run of UPDATE -/

/-- No trigger, no history and no cascade of an update of the table's rows. -/
structure NoUpdateCascade (env : DmlEnv) (db : RowDb) (d : TableDef) : Prop extends Untriggered env d .update where
  cascades : ∀ child ∈ db.tables, child.tableDef.name.str ≠ d.name.str → ∀ col ∈ child.tableDef.columns,
    (col.hasFk && col.fkOnUpdateCascade && col.fkTargetTable.str = d.name.str) = false

section Run

variable {env : DmlEnv} {call : Call} {depth i : Nat} {pairs : List SetPair} {r r' : Trace RowDb RowStep} {t t' : RowTable}
  {id : BitVec 32} {txn now : Nat}

theorem NoUpdateCascade.set (hq : NoUpdateCascade env r.state t.tableDef) (h : RowsSet r r' i t')
    (hdef : t'.tableDef = t.tableDef) : NoUpdateCascade env r'.state t'.tableDef := by
  rw [hdef]
  exact ⟨hq.toUntriggered, h.children hdef hq.cascades⟩

theorem RowsSame.noUpdateCascade (h : RowsSame r r') {d : TableDef} (hq : NoUpdateCascade env r.state d) :
    NoUpdateCascade env r'.state d := by
  refine ⟨hq.toUntriggered, ?_⟩
  rw [h.tables]
  exact hq.cascades

theorem seekCursor_run (hc : t.tableDef.typeOf 0 ≠ .varchar) (id : BitVec 32) (txn now : Nat) (r : Trace RowDb RowStep) :
    seekCursor env t id txn now r = some (t.found env.ops id txn now, r) := by
  unfold seekCursor
  rw [if_neg hc]
  rfl

theorem updateId_def (h : t.updateId env pairs id txn now = some t') : t'.tableDef = t.tableDef := by
  unfold RowTable.updateId at h
  split at h
  · obtain rfl := Option.some.inj h
    rfl
  · obtain ⟨values, -, rfl⟩ := Option.map_eq_some_iff.mp h
    rfl

theorem updateRow_run (hi : r.state.tables[i]? = some t) (hq : NoUpdateCascade env r.state t.tableDef)
    (hc : t.tableDef.typeOf 0 ≠ .varchar) (h : t.updateId env pairs id txn now = some t') :
    ∃ r', updateRow env call depth i pairs id txn now r = some (true, r') ∧ RowsSet r r' i t' := by
  unfold RowTable.updateId at h
  unfold updateRow
  rw [bind_run (tableAt_run hi), bind_run (seekCursor_run hc id txn now r)]
  cases hfound : t.found env.ops id txn now with
  | none =>
    rw [hfound] at h
    obtain rfl := Option.some.inj h
    exact ⟨r, rfl, RowsSet.refl hi⟩
  | some found =>
    obtain ⟨cursor, old⟩ := found
    rw [hfound] at h
    obtain ⟨values, hsets, hu⟩ := Option.map_eq_some_iff.mp h
    dsimp only
    rw [hsets]
    dsimp only
    have hcursor : cursorIn env t t cursor = cursor := if_pos rfl
    have hemit : emit env (.revise i (cursorIn env t t cursor) id old values txn now) r =
        some ((), ⟨r.state.setTable i t', r.steps ++ [.revise i (cursorIn env t t cursor) id old values txn now]⟩) := by
      unfold emit take
      rw [hcursor, ← hu]
      show Option.map _ ((r.state.tables[i]?).bind _) = _
      rw [hi]
      rfl
    have hset : RowsSet r ⟨r.state.setTable i t', r.steps ++ [.revise i (cursorIn env t t cursor) id old values txn now]⟩ i t' :=
      ⟨rfl, rfl⟩
    have hdef : t'.tableDef = t.tableDef := by rw [← hu]; rfl
    have hi' := hset.getElem hi
    have hq' := hq.set hset hdef
    refine ⟨_, ?_, hset⟩
    rw [bind_run (fireTriggers_run hi hq.toUntriggered _ _ _), bind_run (tableAt_run hi), bind_run hemit,
      bind_run (show cascadeUpdate env call depth i id values _ = some ((), _) from forReferences_run hi' hq'.cascades _),
      bind_run (fireTriggers_run hi' hq'.toUntriggered _ _ _)]
    rfl

theorem updateRow_refused (hi : r.state.tables[i]? = some t) (hc : t.tableDef.typeOf 0 ≠ .varchar)
    (h : t.updateId env pairs id txn now = none) :
    updateRow env call depth i pairs id txn now r = some (false, r) := by
  unfold RowTable.updateId at h
  unfold updateRow
  rw [bind_run (tableAt_run hi), bind_run (seekCursor_run hc id txn now r)]
  cases hfound : t.found env.ops id txn now with
  | none =>
    rw [hfound] at h
    cases h
  | some found =>
    rw [hfound] at h
    have hsets := Option.map_eq_none_iff.mp h
    dsimp only
    rw [hsets]
    rfl

/-- A loop whose turns can all be done comes to its end. -/
theorem updateRows_done (hi : r.state.tables[i]? = some t) (hq : NoUpdateCascade env r.state t.tableDef)
    (hc : t.tableDef.typeOf 0 ≠ .varchar) {ids : List (BitVec 32)} (h : t.updateIds env pairs txn now ids = some t') :
    ∃ r', updateRows env call depth i pairs txn now ids r = some (true, r') := by
  induction ids generalizing t r with
  | nil => exact ⟨r, rfl⟩
  | cons id ids ih =>
    obtain ⟨u, hturn, hrest⟩ := Option.bind_eq_some_iff.mp (show ((t.updateId env pairs id txn now).bind fun u =>
      u.updateIds env pairs txn now ids) = some t' from h)
    obtain ⟨r₁, hr₁, hset⟩ := @updateRow_run env call depth i pairs r t u id txn now hi hq hc hturn
    have hdef := updateId_def hturn
    obtain ⟨r₂, hr₂⟩ := ih (hset.getElem hi) (hq.set hset hdef) (by rw [hdef]; exact hc) hrest
    refine ⟨r₂, ?_⟩
    unfold updateRows
    rw [bind_run hr₁, if_pos rfl]
    exact hr₂

/-- A loop that comes to its end has done what its turns do. -/
theorem updateRows_run (hi : r.state.tables[i]? = some t) (hq : NoUpdateCascade env r.state t.tableDef)
    (hc : t.tableDef.typeOf 0 ≠ .varchar) {ids : List (BitVec 32)}
    (hrun : updateRows env call depth i pairs txn now ids r = some (true, r')) :
    ∃ t', t.updateIds env pairs txn now ids = some t' ∧ RowsSet r r' i t' := by
  induction ids generalizing t r with
  | nil =>
    obtain rfl : r = r' := (Prod.mk.inj (Option.some.inj hrun)).2
    exact ⟨t, rfl, RowsSet.refl hi⟩
  | cons id ids ih =>
    unfold updateRows at hrun
    cases hturn : t.updateId env pairs id txn now with
    | none =>
      rw [bind_run (updateRow_refused hi hc hturn)] at hrun
      cases hrun
    | some u =>
      obtain ⟨r₁, hr₁, hset⟩ := @updateRow_run env call depth i pairs r t u id txn now hi hq hc hturn
      rw [bind_run hr₁, if_pos rfl] at hrun
      have hdef := updateId_def hturn
      obtain ⟨t', ht', hset'⟩ := ih (hset.getElem hi) (hq.set hset hdef) (by rw [hdef]; exact hc) hrun
      refine ⟨t', ?_, hset.trans hset'⟩
      show (t.updateId env pairs id txn now).bind _ = _
      rw [hturn]
      exact ht'

/-- The search for an id in a table with a VARCHAR key does not come back. -/
theorem updateRows_varchar (hi : r.state.tables[i]? = some t) (hc : t.tableDef.typeOf 0 = .varchar)
    {ids : List (BitVec 32)} : updateRows env call depth i pairs txn now (id :: ids) r = none := by
  have hrow : updateRow env call depth i pairs id txn now r = none := by
    unfold updateRow seekCursor
    rw [bind_run (tableAt_run hi), if_pos hc]
    rfl
  unfold updateRows
  exact bind_none hrow

/-- UPDATE has its second loop run, and fails where a SET of it names no column. -/
theorem runUpdateVm_loop {wc : WhereClause} {result : DmlResult} (hi : r.state.tables[i]? = some t)
    (hq : NoUpdateCascade env r.state t.tableDef) (hrun : runUpdateVm env call depth i pairs wc r = some (result, r')) :
    (result = .badSchema ∧ t.updateIds env pairs r.state.txnXid (startTime env r)
        (matchingIds env r.state t wc r.state.txnXid (startTime env r)) = none) ∨
      result = .success ∧ ∃ t', t.updateIds env pairs r.state.txnXid (startTime env r)
        (matchingIds env r.state t wc r.state.txnXid (startTime env r)) = some t' ∧
        r'.state.tables = r.state.tables.set i t' := by
  obtain ⟨auto, r₁, hbegin, hsame, hi₁, htxn, htimeNow⟩ := beginAuto_table env hi
  have hq₁ := hsame.noUpdateCascade hq
  set ids := matchingIds env r.state t wc r.state.txnXid (startTime env r) with hidsdef
  unfold runUpdateVm at hrun
  rw [bind_run hbegin, bind_run (show current r₁ = some (r₁.state, r₁) from rfl), bind_run htimeNow,
    bind_run (tableAt_run hi₁), htxn, hsame.matchingIds] at hrun
  obtain ⟨⟨done, r₂⟩, hloop, hend⟩ := Option.bind_eq_some_iff.mp hrun
  rw [← hidsdef] at hloop
  cases done with
  | false =>
    refine .inl ⟨(Prod.mk.inj (Option.some.inj hend)).1.symm, ?_⟩
    by_cases hc : t.tableDef.typeOf 0 = .varchar
    · cases hnil : ids with
      | nil =>
        rw [hnil] at hloop
        cases (Prod.mk.inj (Option.some.inj hloop)).1
      | cons id ids =>
        rw [hnil, updateRows_varchar hi₁ hc] at hloop
        cases hloop
    · cases hupdate : t.updateIds env pairs r.state.txnXid (startTime env r) ids with
      | none => rfl
      | some t' =>
        obtain ⟨r₃, hdone⟩ := @updateRows_done env call depth i pairs r₁ t t' _ _ hi₁ hq₁ hc ids hupdate
        rw [hdone] at hloop
        cases (Prod.mk.inj (Option.some.inj hloop)).1
  | true =>
    obtain ⟨r₃, hcommit, htables⟩ := commitAuto_run env auto r₂
    dsimp only at hend
    rw [if_pos rfl, bind_run hcommit] at hend
    obtain ⟨rfl, rfl⟩ := Prod.mk.inj (Option.some.inj hend)
    refine .inr ⟨rfl, ?_⟩
    by_cases hc : t.tableDef.typeOf 0 = .varchar
    · cases hnil : ids with
      | nil =>
        rw [hnil] at hloop
        obtain rfl : r₁ = r₂ := (Prod.mk.inj (Option.some.inj hloop)).2
        refine ⟨t, rfl, ?_⟩
        rw [htables, (RowsSet.refl hi₁).tables, hsame.tables]
      | cons id ids =>
        rw [hnil, updateRows_varchar hi₁ hc] at hloop
        cases hloop
    · obtain ⟨t', hupdate, hset⟩ := updateRows_run hi₁ hq₁ hc hloop
      refine ⟨t', hupdate, ?_⟩
      rw [htables, hset.tables, hsame.tables]

end Run

/-! ## What is written for a column -/

section Written

variable (env : DmlEnv) (value : Text → List Value → Text) (d : TableDef) (old : List Value)

/-- The text that is converted: what `eval_expr_string` prints, or the value as it stands where it prints nothing. -/
def finalText (text : Text) : Text := if env.evalExpr text d old = [] then text else env.evalExpr text d old

/-- The text that a SET is meant to give its column; `none` is NULL. A quoted one is meant as it stands, any other one as
an expression over the old row, of which `value` is the value. -/
def WrittenSet.wanted (s : WrittenSet) : Option Text :=
  if s.isNull then none else if s.quoted then some s.strVal else some (value s.strVal old)

/-- The SET that counts for column `k`: the last one that names it. -/
def setOf (sets : List WrittenSet) (k : Nat) : Option WrittenSet :=
  (sets.filter fun s => d.findColumn s.colName = some k).getLast?

/-- The new row has what is written in the columns of the SET list, and is the old row in the others. -/
def IsUpdated (sets : List WrittenSet) (new : List Value) : Prop :=
  ∀ k col, d.columns[k]? = some col →
    match setOf d sets k with
    | none => new.getD k Value.init = old.getD k Value.init
    | some s => HoldsText env.ops col.type (new.getD k Value.init) (s.wanted value old)

/-- What is stored for a SET is what it says: the text that is converted is as good as the one that is meant, and a
FLOAT had the double 0, or the float it keeps is the new one. -/
def WrittenSet.Kept (s : WrittenSet) (c : ColumnType) (v : Value) : Prop :=
  ∀ w, s.wanted value old = some w →
    match c with
    | .int => atoi (finalText env d old s.strVal) = atoi w
    | .bool => boolOf (finalText env d old s.strVal) = boolOf w
    | .float =>
      (if nonzero v.doubleVal then env.ops.narrow v.doubleVal
        else env.ops.narrow (env.ops.atof (finalText env d old s.strVal))) = env.ops.narrow (env.ops.atof w)
    | .double | .numeric | .decimal => env.ops.atof (finalText env d old s.strVal) = env.ops.atof w
    | .blob | .datetime | .date | .time | .timestamp | .text | .varchar | .vector => finalText env d old s.strVal = w

end Written

section Values

variable {env : DmlEnv} {value : Text → List Value → Text} {d : TableDef} {old values : List Value} {k : Nat} {c : ColumnType} {v : Value} {s : WrittenSet}
  {sets : List WrittenSet}

/-- A text put into a value. A FLOAT keeps its double. -/
def setText (ops : WhereOps) (c : ColumnType) (v : Value) (final : Text) : Value :=
  match c with
  | .int => { v with isNull := false, intVal := atoi final }
  | .float => { v with isNull := false, floatVal := ops.narrow (ops.atof final) }
  | .double | .numeric | .decimal => { v with isNull := false, doubleVal := ops.atof final }
  | .bool => { v with isNull := false, boolVal := boolOf final }
  | _ => { v with isNull := false, textVal := final, textLen := final.length }

theorem setValue_text (hn : s.isNull = false) :
    setValue env d old c s.pair v = setText env.ops c v (finalText env d old s.strVal) := by
  unfold setValue
  rw [if_neg (show ¬ s.pair.isNull = true by rw [show s.pair.isNull = s.isNull from rfl, hn]; exact Bool.false_ne_true)]
  rfl

/-- A value that was set is stored as what is written, if that is kept. -/
theorem setValue_holds (hround : ∀ x, env.ops.narrow (env.ops.widen (env.ops.narrow x)) = env.ops.narrow x)
    (hkept : s.Kept env value d old c v) : HoldsText env.ops c ((setValue env d old c s.pair v).stored env.ops.toFloatOps c)
      (s.wanted value old) := by
  cases hn : s.isNull with
  | true =>
    have hwanted : s.wanted value old = none := by
      unfold WrittenSet.wanted
      rw [hn, if_pos rfl]
    have hnull : (setValue env d old c s.pair v).isNull = true := by
      unfold setValue
      rw [if_pos (show s.pair.isNull = true from hn)]
    rw [hwanted, Value.stored_null hnull]
    rfl
  | false =>
    obtain ⟨w, hw⟩ : ∃ w, s.wanted value old = some w := by
      unfold WrittenSet.wanted
      rw [hn, if_neg Bool.false_ne_true]
      split <;> exact ⟨_, rfl⟩
    have hvalue := hkept w hw
    rw [hw, setValue_text hn]
    generalize finalText env d old s.strVal = final at hvalue
    cases c with
    | int | bool | double | numeric | decimal => exact ⟨rfl, hvalue⟩
    | float =>
      refine ⟨rfl, ?_⟩
      show env.ops.narrow (if nonzero v.doubleVal then v.doubleVal
        else env.ops.widen (env.ops.narrow (env.ops.atof final))) = _
      change (if nonzero v.doubleVal then _ else _) = _ at hvalue
      split at hvalue
      next h => rw [if_pos h, hvalue]
      next h => rw [if_neg h, hround, hvalue]
    | blob | datetime | date | time | timestamp | text | varchar | vector =>
      rw [Value.stored_text ?_ rfl rfl]
      · exact ⟨rfl, hvalue⟩
      · unfold IsText
        decide

theorem setOf_append (d : TableDef) (sets : List WrittenSet) (s : WrittenSet) (k : Nat) :
    setOf d (sets ++ [s]) k = if d.findColumn s.colName = some k then some s else setOf d sets k := by
  unfold setOf
  rw [List.filter_append, List.filter_singleton]
  by_cases h : d.findColumn s.colName = some k
  · simp [h]
  · simp [h]

/-- Column `k` after the SET list: as it was, or set by the SET that counts. -/
theorem applySets_column (hlen : old.length = d.columns.length)
    (h : applySets env d old (sets.map WrittenSet.pair) = some values) : values.length = old.length ∧ ∀ k,
      (d.typeOf k = .float → (values.getD k Value.init).doubleVal = (old.getD k Value.init).doubleVal) ∧
      match setOf d sets k with
      | none => values.getD k Value.init = old.getD k Value.init
      | some s => ∃ v, (d.typeOf k = .float → v.doubleVal = (old.getD k Value.init).doubleVal) ∧
        values.getD k Value.init = setValue env d old (d.typeOf k) s.pair v := by
  induction sets using List.reverseRecOn generalizing values with
  | nil =>
    obtain rfl : old = values := Option.some.inj h
    exact ⟨rfl, fun k => ⟨fun _ => rfl, rfl⟩⟩
  | append_singleton sets s ih =>
    unfold applySets at h
    rw [List.map_append, List.foldlM_append] at h
    obtain ⟨before, hbefore, hlast⟩ := Option.bind_eq_some_iff.mp h
    obtain ⟨after, hafter, hnil⟩ := Option.bind_eq_some_iff.mp hlast
    obtain rfl : after = values := Option.some.inj hnil
    obtain ⟨c, hc, rfl⟩ := Option.map_eq_some_iff.mp hafter
    obtain ⟨hlength, hcolumns⟩ := ih hbefore
    refine ⟨by rw [List.length_modify, hlength], fun k => ?_⟩
    obtain ⟨hdouble, hcolumn⟩ := hcolumns k
    have hcol : d.findColumn s.colName = some c := hc
    rw [setOf_append]
    by_cases hk : c = k
    · subst hk
      have hlt : c < before.length := by
        rw [hlength, hlen]
        exact (List.findIdx?_eq_some_iff_getElem.mp hcol).1
      have hget : (before.modify c (setValue env d old (d.typeOf c) s.pair)).getD c Value.init =
          setValue env d old (d.typeOf c) s.pair (before.getD c Value.init) := by
        simp [List.getD, List.getElem?_eq_getElem hlt]
      rw [hget, if_pos hcol]
      refine ⟨fun hf => ?_, _, hdouble, rfl⟩
      rw [← hdouble hf, hf]
      unfold setValue
      split
      · rfl
      · rfl
    · have hget : (before.modify c (setValue env d old (d.typeOf c) s.pair)).getD k Value.init = before.getD k Value.init := by
        simp [List.getD, hk]
      rw [hget, if_neg fun he => hk (Option.some.inj (hcol.symm.trans he))]
      exact ⟨hdouble, hcolumn⟩

/-- The row that UPDATE stores is the one the SET list says, if what it says of each column is kept. -/
theorem storedRow_isUpdated (hround : ∀ x, env.ops.narrow (env.ops.widen (env.ops.narrow x)) = env.ops.narrow x)
    (hstored : d.storedRow env.ops.toFloatOps old = old)
    (hkept : ∀ k s, setOf d sets k = some s → s.Kept env value d old (d.typeOf k) (old.getD k Value.init))
    (h : applySets env d old (sets.map WrittenSet.pair) = some values) :
    IsUpdated env value d old sets (d.storedRow env.ops.toFloatOps values) := by
  have hlen : old.length = d.columns.length := by
    rw [← hstored, TableDef.length_storedRow]
  intro k col hcol
  have hlt := (List.getElem?_eq_some_iff.mp hcol).1
  have htype : d.typeOf k = col.type := by
    rw [TableDef.typeOf, hcol]
    rfl
  obtain ⟨-, hcolumn⟩ := (applySets_column hlen h).2 k
  rw [getD_storedRow _ hlt]
  cases hs : setOf d sets k with
  | none =>
    rw [hs] at hcolumn
    dsimp only at hcolumn ⊢
    rw [hcolumn]
    exact stored_getD hstored k
  | some s =>
    rw [hs] at hcolumn
    obtain ⟨v, hdouble, hv⟩ := hcolumn
    dsimp only
    rw [hv, htype]
    have hk := hkept k s hs
    rw [htype] at hk hdouble
    refine setValue_holds hround fun w hw => ?_
    have hw' := hk w hw
    cases hc : col.type with
    | float =>
      rw [hc] at hw'
      rw [hdouble hc]
      exact hw'
    | _ =>
      rw [hc] at hw'
      exact hw'

end Values

/-! ## The whole of UPDATE -/

/-- `execute_statement` on a text that is an UPDATE. -/
def executeUpdate (env : DmlEnv) (call : Call) (depth : Nat) (p : Text) : Dml DmlResult :=
  match prepareUpdate p with
  | none => failure
  | some q => do
    let db ← current
    match db.findTable q.tableName with
    | none => return .tableNotFound
    | some i => runUpdateVm env call depth i (q.sets.map WrittenSet.pair) q.whereClause

section Whole

variable {env : DmlEnv} {call : Call} {depth i : Nat} {r r' : Trace RowDb RowStep} {t t' : RowTable} {wc : WhereClause}
  {sets : List WrittenSet} {pairs : List SetPair} {value : Text → List Value → Text} {txn now : Nat}

/-- The visible rows are the ones before, those that matched as the SET list has them, each with its TTL. -/
def UpdatedMatching (env : DmlEnv) (value : Text → List Value → Text) (db : RowDb) (i : Nat) (t : RowTable) (sets : List WrittenSet) (wc : WhereClause)
    (txn now : Nat) (db' : RowDb) : Prop :=
  ∃ (t' : RowTable) (new : Version → List Value), db'.tables[i]? = some t' ∧
    (t'.rows txn now).Perm ((t.shown txn now).cells.map fun v =>
      (if rowMatches env db t v.values wc then new v else v.values, v.expireAt)) ∧
    ∀ v ∈ matchingRows env db t wc txn now, IsUpdated env value t.tableDef v.values sets (new v)

/-- Each row that matches is the first that the search for its id finds, the searches stay apart, and what is stored of
each SET is what it says. -/
structure UpdateExact (env : DmlEnv) (value : Text → List Value → Text) (db : RowDb) (t : RowTable) (sets : List WrittenSet) (wc : WhereClause)
    (txn now : Nat) : Prop where
  first : ∀ v ∈ matchingRows env db t wc txn now, (foundRows env t txn now v.id).head? = some v
  apart : UpdatesApart env (sets.map WrittenSet.pair) t.tableDef txn (matchingRows env db t wc txn now)
  kept : ∀ v ∈ matchingRows env db t wc txn now, ∀ k s, setOf t.tableDef sets k = some s →
    s.Kept env value t.tableDef v.values (t.tableDef.typeOf k) (v.col k)

theorem foundRows_eq (id : BitVec 32) : foundRows env t txn now id = t.seen env.ops txn now id := by
  unfold foundRows RowTable.seen Struck.seen Struck.run
  rw [← Ranked.drop_takeWhile]
  rfl

/-- Whether a SET list names a column that is not there does not depend on the row. -/
theorem applySets_isSome (env : DmlEnv) (d : TableDef) (old : List Value) (pairs : List SetPair) :
    (applySets env d old pairs).isSome = pairs.all fun pair => (d.findColumn pair.colName).isSome := by
  have hfold : ∀ values, (pairs.foldlM (fun (values : List Value) pair => (d.findColumn pair.colName).map fun c =>
      values.modify c (setValue env d old (d.typeOf c) pair)) values).isSome =
      pairs.all fun pair => (d.findColumn pair.colName).isSome := by
    induction pairs with
    | nil => exact fun _ => rfl
    | cons pair pairs ih =>
      intro values
      rw [List.foldlM_cons, List.all_cons]
      cases d.findColumn pair.colName with
      | none => rfl
      | some c => exact ih _
  exact hfold old

/-- When the loop has come to its end, the SET list could be applied to the rows that matched. -/
theorem applySets_of_updateIds {v : Version} {vs : List Version} (hv : (t.seen env.ops txn now v.id).head? = some v)
    (h : t.updateIds env pairs txn now ((v :: vs).map Version.id) = some t') (old : List Value) :
    (applySets env t.tableDef old pairs).isSome = true := by
  obtain ⟨u, hu, -⟩ := Option.bind_eq_some_iff.mp (show ((t.updateId env pairs v.id txn now).bind fun u =>
    u.updateIds env pairs txn now (vs.map Version.id)) = some t' from h)
  obtain ⟨values, hsets, -⟩ := updateId_some hv hu
  rw [applySets_isSome, ← applySets_isSome env t.tableDef v.values, hsets]
  rfl

/-- The second loop maps the visible rows. -/
theorem updateIds_rows {db : RowDb} (hieee : env.ops.Ieee)
    (hround : ∀ x, env.ops.narrow (env.ops.widen (env.ops.narrow x)) = env.ops.narrow x) (htxn : 0 < txn)
    (ht : t.Searchable env.ops) (hexact : UpdateExact env value db t sets wc txn now)
    (h : t.updateIds env (sets.map WrittenSet.pair) txn now (matchingIds env db t wc txn now) = some t') :
    ∃ new : Version → List Value, (t'.rows txn now).Perm ((t.shown txn now).cells.map fun v =>
        (if rowMatches env db t v.values wc then new v else v.values, v.expireAt)) ∧
      ∀ v ∈ matchingRows env db t wc txn now, IsUpdated env value t.tableDef v.values sets (new v) := by
  rw [matchingIds_eq] at h
  set vs := matchingRows env db t wc txn now with hvs
  set pairs := sets.map WrittenSet.pair with hpairs
  have hfirst : ∀ v ∈ vs, (t.seen env.ops txn now v.id).head? = some v := fun v hv => by
    rw [← foundRows_eq]
    exact hexact.first v hv
  obtain ⟨rest, hbefore, hafter, -⟩ := updateIds_visible hieee htxn ht hfirst hexact.apart h
  refine ⟨fun v => (updatedVersion env pairs t.tableDef txn v).values, ?_, fun v hv => ?_⟩
  · set row := fun v : Version => (if rowMatches env db t v.values wc then
      (updatedVersion env pairs t.tableDef txn v).values else v.values, v.expireAt) with hrow
    have hshown : (t.shown txn now).cells.Perm (vs ++ (t.shown txn now).cells.filter fun v => !rowMatches env db t v.values wc) :=
      (List.filter_append_perm _ _).symm
    have hrest : rest.Perm ((t.shown txn now).cells.filter fun v => !rowMatches env db t v.values wc) :=
      (List.perm_append_left_iff vs).mp (hbefore.symm.trans hshown)
    have hmatched : vs.map row = (vs.map (updatedVersion env pairs t.tableDef txn)).map fun v => (v.values, v.expireAt) := by
      rw [List.map_map]
      refine List.map_congr_left fun v hv => ?_
      have hm : rowMatches env db t v.values wc = true := (List.mem_filter.mp hv).2
      simp only [hrow, hm, if_true]
      rfl
    have hothers : ((t.shown txn now).cells.filter fun v => !rowMatches env db t v.values wc).map row =
        ((t.shown txn now).cells.filter fun v => !rowMatches env db t v.values wc).map fun v => (v.values, v.expireAt) := by
      refine List.map_congr_left fun v hv => ?_
      have hm : rowMatches env db t v.values wc = false := by simpa using (List.mem_filter.mp hv).2
      simp only [hrow, hm, Bool.false_eq_true, if_false]
    have hrows := hafter.map fun v : Version => (v.values, v.expireAt)
    rw [List.map_append, ← hmatched] at hrows
    refine hrows.trans ((List.Perm.append_left _ ?_).trans (List.map_append ▸ (hshown.map row).symm))
    rw [hothers]
    exact hrest.map _
  · have hsome : (applySets env t.tableDef v.values pairs).isSome = true := by
      obtain ⟨w, ws, hws⟩ := List.exists_cons_of_ne_nil (List.ne_nil_of_mem hv)
      rw [hws] at h
      exact applySets_of_updateIds (hfirst w (by rw [hws]; exact List.mem_cons_self)) h _
    obtain ⟨values, hvalues⟩ := Option.isSome_iff_exists.mp hsome
    have hmem : v ∈ t.cells := List.mem_of_mem_filter (List.mem_of_mem_filter hv)
    have hupdated := storedRow_isUpdated hround (ht.stored v hmem) (hexact.kept v hv) hvalues
    have hversion : (updatedVersion env pairs t.tableDef txn v).values = t.tableDef.storedRow env.ops.toFloatOps values := by
      unfold updatedVersion updatedValues
      rw [hvalues]
      rfl
    show IsUpdated env value t.tableDef v.values sets (updatedVersion env pairs t.tableDef txn v).values
    rw [hversion]
    exact hupdated

end Whole

/-! ## The wrong one of two rows -/

theorem wideOps_ieee : wideOps.Ieee where
  float := ⟨fun _ => 0, fun _ _ _ _ => rfl⟩
  double := ⟨fun _ => 0, fun _ _ _ _ => rfl⟩
  zero := wideOps_zero
  widen_zero := by decide
  zero_eq _ _ := ⟨rfl, rfl, rfl⟩

theorem wideOps_narrow (x : BitVec 64) : wideOps.narrow (wideOps.widen (wideOps.narrow x)) = wideOps.narrow x := by
  show ((((x >>> 32).setWidth 32).setWidth 64 <<< 32) >>> 32).setWidth 32 = (x >>> 32).setWidth 32
  apply BitVec.eq_of_getLsbD_eq
  intro k hk
  have h64 : 32 + k < 64 := by omega
  simp [hk, h64]

theorem twoPairs_searched : twoPairs.Searchable floatEnv.ops := by
  have hc : twoPairs.tableDef.typeOf 0 = .int := rfl
  have hsame : twoPairs.tableDef.belowId floatEnv.ops = twoPairs.tableDef.belowId rowsEnv.ops := by
    funext id v
    exact Bool.eq_iff_iff.mpr ((belowId_int hc id v).trans (belowId_int hc id v).symm)
  refine ⟨by decide, fun id v hv => ?_⟩
  rw [hsame] at hv ⊢
  exact twoPairs_searchable.split id v hv

theorem noUpdateCascade_alone {env : DmlEnv} {db : RowDb} {t : RowTable} (hdb : db.tables = [t]) (htriggers : env.triggers = [])
    (hhistory : t.tableDef.withHistory = false) : NoUpdateCascade env db t.tableDef :=
  ⟨untriggered_alone htriggers hhistory .update, no_child_alone hdb⟩

theorem twoPairs_noUpdateCascade : NoUpdateCascade floatEnv twoPairsDb twoPairs.tableDef := noUpdateCascade_alone rfl rfl rfl

/-- UPDATE t SET a=5 WHERE a=20, and the same with 10. -/
def updateWhere (b : UInt8) : Text :=
  ascii ['U', 'P', 'D', 'A', 'T', 'E', ' ', 't', ' ', 'S', 'E', 'T', ' ', 'a', '=', '5', ' ',
    'W', 'H', 'E', 'R', 'E', ' ', 'a', '='] ++ [b, 48]

def setFive : WrittenSet := ⟨[97], [53], false, false⟩

def updateParsed (b : UInt8) : ParsedUpdate := ⟨[116], [setFive], whereEq [97] [b, 48]⟩

/-- The rows after an UPDATE of the two. -/
def updatedRows (b : UInt8) : Option (DmlResult × List (List (List (BitVec 32) × Nat))) :=
  (executeUpdate floatEnv (run floatEnv 0) 0 (updateWhere b) ⟨twoPairsDb, []⟩).map fun r =>
    (r.1, r.2.state.tables.map fun t => (t.rows 2 0).map rowInts)

/-- A literal is its own value. -/
def verbatim (text : Text) (_ : List Value) : Text := text

theorem matching_twenty : matchingRows floatEnv twoPairsDb twoPairs (whereEq [97] [50, 48]) 2 0 = [pairRow 1 20] := by
  decide

theorem twoPairs_exact : UpdateExact floatEnv verbatim twoPairsDb twoPairs [setFive] (whereEq [97] [50, 48]) 2 0 where
  first := by
    rw [matching_twenty]
    decide
  apart := by
    rw [matching_twenty]
    exact List.pairwise_singleton _ _
  kept v hv k s hs := by
    rw [matching_twenty] at hv
    obtain rfl := List.mem_singleton.mp hv
    obtain ⟨hin, hcol⟩ := List.mem_filter.mp (List.mem_of_getLast? hs)
    obtain rfl := List.mem_singleton.mp hin
    have hk : some 1 = some k := of_decide_eq_true hcol
    obtain rfl := Option.some.inj hk
    intro w hw
    obtain rfl := Option.some.inj hw
    exact rfl

end CustomDB
