import CustomDB.Lib.Ranked
import CustomDB.Lib.Struck
import CustomDB.Rows.TableSpec
import CustomDB.Rows.Visible

/-!
# Which rows DELETE removes

`run_delete_vm` notes the matching rows by the int value of column 0 and then seeks each id anew: the first version
that is visible, from `btree_find` on and while the int values agree. These are the rows that matched exactly if, for
each id, the matching rows are the first the search can find.
-/

namespace CustomDB

open Lib Lib.Program

variable (ops : WhereOps)

/-! ## The second loop without triggers and cascades -/

/-- The int value of column 0, as `matching_ids` notes it. -/
def Version.id (v : Version) : BitVec 32 := (v.col 0).intVal

/-- The cell is below the key of an id. -/
def TableDef.belowId (d : TableDef) (id : BitVec 32) (v : Version) : Bool :=
  compareCol0 ops (d.typeOf 0) (v.col 0) (targetId id) = .lt

/-- One turn of the second loop. -/
def RowTable.deleteId (t : RowTable) (id : BitVec 32) (txn now : Nat) : RowTable :=
  match (t.seekRow ops id txn now).bind fun cursor => t.cells[cursor]?.map fun v => (cursor, v) with
  | none => t
  | some (cursor, old) => t.retired ops cursor id old txn

/-- The second loop. -/
def RowTable.deleteIds (t : RowTable) (txn now : Nat) (ids : List (BitVec 32)) : RowTable :=
  ids.foldl (fun t id => t.deleteId ops id txn now) t

/-- A table as its tree has it: the rows are stored as they are read, and for each id the cells below its key come
first, as the bisection needs them. -/
structure RowTable.Searchable (t : RowTable) : Prop where
  stored : ∀ v ∈ t.cells, t.tableDef.storedRow ops.toFloatOps v.values = v.values
  split : ∀ id, ∀ v ∈ t.cells.dropWhile (t.tableDef.belowId ops id), t.tableDef.belowId ops id v = false

variable {ops} {t : RowTable} {id : BitVec 32} {txn now : Nat}

/-- The key of an id is the id for an INT column, and the same for every id else. -/
theorem belowId_alike (d : TableDef) (i j : BitVec 32) (u v : Version) (hu : u.id = i) (hv : v.id = i)
    (hbu : d.belowId ops i u = false) (hbv : d.belowId ops i v = false) : d.belowId ops j u = d.belowId ops j v := by
  have hsame : u.id = v.id := hu.trans hv.symm
  unfold Version.id at hsame
  unfold TableDef.belowId at hbu hbv ⊢
  generalize d.typeOf 0 = c at hbu hbv ⊢
  cases c with
  | int =>
    have hcol : compareCol0 ops .int (u.col 0) (targetId j) = compareCol0 ops .int (v.col 0) (targetId j) := by
      unfold compareCol0 serializeCol0Key
      rw [hsame]
    rw [hcol]
  | _ => exact hbu.trans hbv.symm

theorem RowTable.Searchable.searched (h : t.Searchable ops) :
    Struck.Searched (t.tableDef.belowId ops) Version.id t.cells := ⟨h.split, belowId_alike t.tableDef⟩

theorem takeWhile_cut {α : Type} {p : α → Bool} {pre post : List α} (hpre : ∀ u ∈ pre, p u = true)
    (hpost : ∀ u ∈ post, p u = false) : (pre ++ post).takeWhile p = pre := by
  rw [List.takeWhile_append_of_pos hpre]
  cases post with
  | nil => exact List.append_nil _
  | cons u post =>
    rw [List.takeWhile_cons_of_neg (by rw [hpost u List.mem_cons_self]; exact Bool.false_ne_true), List.append_nil]

theorem insertIdx_length_append {α : Type} (pre post : List α) (x : α) :
    (pre ++ post).insertIdx pre.length x = pre ++ x :: post := by
  induction pre with
  | nil => rfl
  | cons u pre ih =>
    rw [List.cons_append, List.length_cons, List.insertIdx_succ_cons, ih]
    rfl

/-- The search goes through the run of the id. -/
theorem seekRow_eq (t : RowTable) (id : BitVec 32) (txn now : Nat) : t.seekRow ops id txn now =
    ((Struck.run (t.tableDef.belowId ops) Version.id id t.cells).findIdx? fun v => v.visible txn now).map
      fun k => (t.cells.takeWhile (t.tableDef.belowId ops id)).length + k := by
  have hfind : t.btreeFind ops (targetId id) = (t.cells.takeWhile (t.tableDef.belowId ops id)).length := rfl
  unfold RowTable.seekRow
  dsimp only
  rw [hfind, Ranked.drop_takeWhile]
  rfl

theorem deleteId_def (t : RowTable) (id : BitVec 32) (txn now : Nat) :
    (t.deleteId ops id txn now).tableDef = t.tableDef := by
  unfold RowTable.deleteId
  split
  · rfl
  · rfl

/-- A search that ends in the run of the id: the version it finds goes to the start of the run. -/
theorem deleteId_hit {pre left right post : List Version} {old : Version} (h : t.Searchable ops)
    (hz : Struck.Zones (t.tableDef.belowId ops) Version.id id t.cells pre (left ++ old :: right) post)
    (hseek : t.seekRow ops id txn now = some (pre.length + left.length)) :
    (t.deleteId ops id txn now).cells = pre ++ ({ old with xmax := txn } :: (left ++ right) ++ post) := by
  have hcells : t.cells = (pre ++ left) ++ old :: (right ++ post) := by
    rw [hz.eq]
    simp only [List.append_assoc, List.cons_append]
  have hcursor : (pre ++ left).length = pre.length + left.length := List.length_append
  have hold : t.cells[pre.length + left.length]? = some old := by
    rw [hcells, ← hcursor, List.getElem?_append_right (le_refl _), Nat.sub_self]
    rfl
  have hdeleted : t.deleteId ops id txn now = t.retired ops (pre.length + left.length) id old txn := by
    unfold RowTable.deleteId
    rw [hseek, Option.bind_some, hold]
    rfl
  have herase : t.cells.eraseIdx (pre.length + left.length) = pre ++ (left ++ right ++ post) := by
    rw [hcells, ← hcursor, List.eraseIdx_append_of_length_le (le_refl _), Nat.sub_self]
    simp only [List.eraseIdx_cons_zero, List.append_assoc]
  have hfind : (t.btreeDelete (pre.length + left.length)).btreeFind ops (targetId id) = pre.length := by
    show ((t.cells.eraseIdx (pre.length + left.length)).takeWhile (t.tableDef.belowId ops id)).length = pre.length
    rw [herase, takeWhile_cut hz.before fun u hu => ?_]
    rcases List.mem_append.mp hu with hu | hu
    · rcases List.mem_append.mp hu with hu | hu
      · exact (hz.found u (List.mem_append_left _ hu)).1
      · exact (hz.found u (List.mem_append_right _ (List.mem_cons_of_mem _ hu))).1
    · exact hz.behind u hu
  rw [hdeleted]
  show ((t.cells.eraseIdx (pre.length + left.length)).insertIdx
    ((t.btreeDelete (pre.length + left.length)).btreeFind ops (targetId id))
    { old with xmax := txn, values := t.tableDef.storedRow ops.toFloatOps old.values }) = _
  rw [hfind, herase, insertIdx_length_append, h.stored old (List.mem_of_getElem? hold)]
  rfl

/-- What a turn does to the cells. -/
theorem deleteId_strikes (h : t.Searchable ops) (htxn : 0 < txn) (id : BitVec 32) (now : Nat) :
    Struck.Strikes (t.tableDef.belowId ops) Version.id (fun v => v.visible txn now) id t.cells (t.deleteId ops id txn now).cells ∧
      ∀ v ∈ (t.deleteId ops id txn now).cells, ∃ u ∈ t.cells, v.values = u.values := by
  have hseek := @seekRow_eq ops t id txn now
  obtain ⟨pre, post, hz⟩ := h.searched.zones id
  set R := Struck.run (t.tableDef.belowId ops) Version.id id t.cells
  cases hf : R.findIdx? fun v => v.visible txn now with
  | none =>
    rw [hf] at hseek
    have hsame : t.deleteId ops id txn now = t := by
      unfold RowTable.deleteId
      rw [hseek]
      rfl
    rw [hsame]
    refine ⟨.miss ?_, fun v hv => ⟨v, hv, rfl⟩⟩
    exact List.filter_eq_nil_iff.mpr fun v hv => by
      rw [List.findIdx?_eq_none_iff.mp hf v hv]
      exact Bool.false_ne_true
  | some k =>
    obtain ⟨hk, hvis, hbefore⟩ := List.findIdx?_eq_some_iff_getElem.mp hf
    have hR : R = R.take k ++ R[k] :: R.drop (k + 1) := by
      rw [← List.drop_eq_getElem_cons hk, List.take_append_drop]
    set old := R[k]
    rw [hR] at hz
    have hlen : (R.take k).length = k := by
      rw [List.length_take]
      omega
    have hpre : (t.cells.takeWhile (t.tableDef.belowId ops id)) = pre := by
      rw [hz.eq]
      exact takeWhile_cut hz.before fun u hu => (List.mem_append.mp hu).elim (fun hm => (hz.found u hm).1) (hz.behind u)
    rw [hf, hpre, Option.map_some] at hseek
    rw [deleteId_hit h hz (by rw [hseek, hlen])]
    have hmem : ∀ u ∈ pre ++ (R.take k ++ old :: R.drop (k + 1) ++ post), u ∈ t.cells := fun u hu => by
      rw [hz.eq]
      exact hu
    constructor
    · refine .hit hz (fun u hu => ?_) hvis ?_ rfl fun _ => rfl
      · obtain ⟨j, hj, rfl⟩ := List.mem_take_iff_getElem.mp hu
        have hjk : j < k := by omega
        exact Bool.eq_false_of_not_eq_true (hbefore j hjk)
      · have hlive : Version.live { old with xmax := txn } txn = false := by
          simp only [Version.live, Nat.ne_of_gt htxn, lt_irrefl, decide_false, Bool.or_false]
        simp only [Version.visible, Version.alive, hlive, Bool.and_false]
    · intro v hv
      have hor : v = { old with xmax := txn } ∨ v ∈ pre ++ (R.take k ++ old :: R.drop (k + 1) ++ post) := by
        simp only [List.mem_append, List.mem_cons] at hv ⊢
        tauto
      rcases hor with rfl | hv
      · exact ⟨old, hmem old (by simp), rfl⟩
      · exact ⟨v, hmem v hv, rfl⟩

theorem deleteId_searchable (h : t.Searchable ops) (htxn : 0 < txn) (id : BitVec 32) (now : Nat) :
    (t.deleteId ops id txn now).Searchable ops := by
  obtain ⟨hstrikes, hvalues⟩ := deleteId_strikes h htxn id now
  have hdef := @deleteId_def ops t id txn now
  refine ⟨fun v hv => ?_, ?_⟩
  · obtain ⟨u, hu, he⟩ := hvalues v hv
    rw [hdef, he]
    exact h.stored u hu
  · rw [hdef]
    exact (hstrikes.spec h.searched).1.split

theorem deleteIds_def (t : RowTable) (ids : List (BitVec 32)) (txn now : Nat) :
    (t.deleteIds ops txn now ids).tableDef = t.tableDef := by
  induction ids generalizing t with
  | nil => rfl
  | cons id ids ih => exact (ih (t.deleteId ops id txn now)).trans (deleteId_def t id txn now)

theorem deleteIds_searchable (h : t.Searchable ops) (htxn : 0 < txn) (ids : List (BitVec 32)) (now : Nat) :
    (t.deleteIds ops txn now ids).Searchable ops := by
  induction ids generalizing t with
  | nil => exact h
  | cons id ids ih => exact ih (deleteId_searchable h htxn id now)

theorem deleteIds_strikes (h : t.Searchable ops) (htxn : 0 < txn) (ids : List (BitVec 32)) (now : Nat) :
    Struck.StrikesAll (t.tableDef.belowId ops) Version.id (fun v => v.visible txn now) ids t.cells
      (t.deleteIds ops txn now ids).cells := by
  induction ids generalizing t with
  | nil => exact .nil _
  | cons id ids ih =>
    have hrest := ih (deleteId_searchable h htxn id now)
    rw [deleteId_def] at hrest
    exact .cons (deleteId_strikes h htxn id now).1 hrest

/-! ## The visible rows -/

/-- The rows a SELECT can return, with the time they expire. -/
def RowTable.rows (t : RowTable) (snapshot now : Nat) : List (List Value × Nat) :=
  (t.shown snapshot now).cells.map fun v => (v.values, v.expireAt)

section Matching

variable (env : DmlEnv) (db : RowDb) (t : RowTable) (wc : WhereClause) (txn now : Nat)

/-- The visible versions that match. -/
def matchingRows : List Version := (t.shown txn now).cells.filter fun v => rowMatches env db t v.values wc

/-- The visible rows that do not match. -/
def otherRows : List (List Value × Nat) :=
  ((t.shown txn now).cells.filter fun v => !rowMatches env db t v.values wc).map fun v => (v.values, v.expireAt)

/-- The visible versions that the search for an id can find, the first one first. -/
def foundRows (id : BitVec 32) : List Version :=
  ((t.cells.drop (t.btreeFind env.ops (targetId id))).takeWhile fun v => v.id = id).filter fun v => v.visible txn now

/-- For each id the matching rows with it are the first that the search for it can find. -/
def MatchesFirst : Prop := ∀ id, (matchingRows env db t wc txn now).filter (fun v => v.id = id) <+: foundRows env t txn now id

variable {env db t wc txn now}

theorem matchingIds_eq : matchingIds env db t wc txn now = (matchingRows env db t wc txn now).map Version.id := by
  unfold matchingIds matchingRows RowTable.shown
  rw [List.filter_filter]
  simp only [Bool.and_comm]
  rfl

/-- The second loop removes the rows that matched exactly if the search finds them first. -/
theorem deleteIds_rows_iff (h : t.Searchable env.ops) (htxn : 0 < txn) :
    ((t.deleteIds env.ops txn now (matchingIds env db t wc txn now)).rows txn now).Perm (otherRows env db t wc txn now) ↔
      MatchesFirst env db t wc txn now := by
  have hstrikes := deleteIds_strikes h htxn (matchingIds env db t wc txn now) now
  rw [matchingIds_eq] at hstrikes ⊢
  have hiff := @Struck.exact_iff _ _ _ _ _ _ _ _ (fun v : Version => (v.values, v.expireAt))
    (fun row : List Value × Nat => (row.1.getD 0 Value.init).intVal)
    (fun row : List Value × Nat => rowMatches env db t row.1 wc) h.searched hstrikes
  refine hiff.trans (forall_congr' fun id => ?_)
  unfold foundRows Struck.seen Struck.run
  rw [← Ranked.drop_takeWhile]
  rfl

end Matching

/-! ## A run of DELETE -/

/-- No trigger of an event and no history of a table. -/
structure Untriggered (env : DmlEnv) (d : TableDef) (event : TriggerEvent) : Prop where
  triggers : ∀ trigger ∈ env.triggers, trigger.event = event → cstr trigger.targetTable.val ≠ d.name.str
  history : d.withHistory = false

/-- No trigger, no history and no cascade of the table's rows. -/
structure NoCascade (env : DmlEnv) (db : RowDb) (d : TableDef) : Prop extends Untriggered env d .delete where
  cascades : ∀ child ∈ db.tables, child.tableDef.name.str ≠ d.name.str → ∀ col ∈ child.tableDef.columns,
    (col.hasFk && col.fkOnDeleteCascade && col.fkTargetTable.str = d.name.str) = false

theorem untriggered_alone {env : DmlEnv} {d : TableDef} (htriggers : env.triggers = []) (hhistory : d.withHistory = false)
    (event : TriggerEvent) : Untriggered env d event := by
  refine ⟨fun trigger h => ?_, hhistory⟩
  rw [htriggers] at h
  cases h

/-- The only table has no children. -/
theorem no_child_alone {db : RowDb} {t : RowTable} (hdb : db.tables = [t]) {P : RowTable → Prop} :
    ∀ child ∈ db.tables, child.tableDef.name.str ≠ t.tableDef.name.str → P child := by
  intro child hchild hname
  rw [hdb, List.mem_singleton] at hchild
  rw [hchild] at hname
  exact absurd rfl hname

/-- In a database of one table nothing cascades. -/
theorem noCascade_alone {env : DmlEnv} {db : RowDb} {t : RowTable} (hdb : db.tables = [t]) (htriggers : env.triggers = [])
    (hhistory : t.tableDef.withHistory = false) : NoCascade env db t.tableDef :=
  ⟨untriggered_alone htriggers hhistory .delete, no_child_alone hdb⟩

section Run

variable {env : DmlEnv} {call : Call} {depth i : Nat} {r r' : Trace RowDb RowStep} {t : RowTable} {wc : WhereClause}
  {id : BitVec 32} {txn now : Nat}

theorem tableAt_run (hi : r.state.tables[i]? = some t) : tableAt i r = some (t, r) := by
  unfold tableAt
  rw [bind_run (show current r = some (r.state, r) from rfl), hi]
  rfl

theorem fireTriggers_run (hi : r.state.tables[i]? = some t) {event : TriggerEvent} (hq : Untriggered env t.tableDef event)
    (old new : Option (List Value)) (timing : TriggerTiming) :
    fireTriggers env call depth i old new timing event r = some ((), r) := by
  unfold fireTriggers
  split
  · rw [bind_run (forM_idle fun trigger htrigger => ?_), bind_run (tableAt_run hi), if_neg fun h => ?_]
    · rfl
    · rw [hq.history] at h
      exact Bool.false_ne_true h.1
    · rw [bind_run (tableAt_run hi), if_neg fun h => hq.triggers trigger htrigger h.2.2 h.1]
      rfl
  · rfl

theorem forReferences_run (hi : r.state.tables[i]? = some t) {cascades : Column → Bool}
    (hno : ∀ child ∈ r.state.tables, child.tableDef.name.str ≠ t.tableDef.name.str → ∀ col ∈ child.tableDef.columns,
      (col.hasFk && cascades col && col.fkTargetTable.str = t.tableDef.name.str) = false)
    (act : Nat → Column → TableDef → Dml Unit) : forReferences i cascades act r = some ((), r) := by
  unfold forReferences
  rw [bind_run (show current r = some (r.state, r) from rfl)]
  refine forM_idle fun k hk => ?_
  obtain ⟨child, hchild⟩ : ∃ child, r.state.tables[k]? = some child :=
    ⟨_, List.getElem?_eq_getElem (List.mem_range.mp hk)⟩
  rw [bind_run (tableAt_run hchild), bind_run (tableAt_run hi)]
  split
  next => rfl
  next hname =>
    refine forM_idle fun c _ => ?_
    rw [bind_run (tableAt_run hchild), bind_run (tableAt_run hi)]
    cases hcol : child.tableDef.columns[c]? with
    | none => rfl
    | some col =>
      have hcolumn := hno child (List.mem_of_getElem? hchild) hname col (List.mem_of_getElem? hcol)
      dsimp only
      rw [if_neg (by rw [hcolumn]; exact Bool.false_ne_true)]
      rfl

theorem cascadeDelete_run (hi : r.state.tables[i]? = some t) (hq : NoCascade env r.state t.tableDef) (values : List Value) :
    cascadeDelete env call depth i values r = some ((), r) := forReferences_run hi hq.cascades _

/-- The tables are as they were. -/
structure RowsSame (r r' : Trace RowDb RowStep) : Prop where
  tables : r'.state.tables = r.state.tables
  walLsn : r'.state.walLsn = r.state.walLsn
  autoVacuum : r'.state.autoVacuum = r.state.autoVacuum

theorem RowsSame.noCascade (h : RowsSame r r') {d : TableDef} (hq : NoCascade env r.state d) : NoCascade env r'.state d := by
  refine ⟨hq.toUntriggered, ?_⟩
  rw [h.tables]
  exact hq.cascades

theorem RowsSame.matchingIds (h : RowsSame r r') (env : DmlEnv) (t : RowTable) :
    matchingIds env r'.state t = matchingIds env r.state t := by
  funext wc txn now
  unfold CustomDB.matchingIds rowMatches RowDb.subTables
  rw [h.tables]

theorem RowsSame.restricts (h : RowsSame r r') (env : DmlEnv) (t : RowTable) :
    restricts env r'.state t = restricts env r.state t := by
  funext wc txn now
  unfold CustomDB.restricts rowMatches RowDb.subTables
  rw [h.tables]

/-- The same transaction is open, or none is. -/
structure TxnSame (r r' : Trace RowDb RowStep) : Prop where
  begun : r'.state.begun = r.state.begun
  walLsn : r'.state.walLsn = r.state.walLsn

theorem TxnSame.trans {r'' : Trace RowDb RowStep} (h : TxnSame r r') (h' : TxnSame r' r'') : TxnSame r r'' :=
  ⟨h'.begun.trans h.begun, h'.walLsn.trans h.walLsn⟩

/-- The rows of table `i` have changed, and nothing else that DELETE reads. -/
structure RowsSet (r r' : Trace RowDb RowStep) (i : Nat) (t : RowTable) : Prop where
  tables : r'.state.tables = r.state.tables.set i t
  autoVacuum : r'.state.autoVacuum = r.state.autoVacuum

theorem RowsSet.refl (hi : r.state.tables[i]? = some t) : RowsSet r r i t := by
  obtain ⟨hlt, rfl⟩ := List.getElem?_eq_some_iff.mp hi
  exact ⟨(List.set_getElem_self hlt).symm, rfl⟩

theorem RowsSet.getElem (h : RowsSet r r' i t) {u : RowTable} (hi : r.state.tables[i]? = some u) :
    r'.state.tables[i]? = some t := by
  rw [h.tables, List.getElem?_set_self (List.getElem?_eq_some_iff.mp hi).1]

theorem RowsSet.trans {r'' : Trace RowDb RowStep} {u : RowTable} (h : RowsSet r r' i t) (h' : RowsSet r' r'' i u) :
    RowsSet r r'' i u := by
  refine ⟨?_, h'.autoVacuum.trans h.autoVacuum⟩
  rw [h'.tables, h.tables, List.set_set]

/-- The children of the table are the same. -/
theorem RowsSet.children {u : RowTable} (h : RowsSet r r' i u) (hdef : u.tableDef = t.tableDef) {P : RowTable → Prop}
    (hq : ∀ child ∈ r.state.tables, child.tableDef.name.str ≠ t.tableDef.name.str → P child) :
    ∀ child ∈ r'.state.tables, child.tableDef.name.str ≠ t.tableDef.name.str → P child := by
  intro child hchild hname
  rw [h.tables] at hchild
  rcases List.mem_or_eq_of_mem_set hchild with hmem | rfl
  · exact hq child hmem hname
  · exact absurd (by rw [hdef]) hname

theorem NoCascade.set {u : RowTable} (hq : NoCascade env r.state t.tableDef) (h : RowsSet r r' i u)
    (hdef : u.tableDef = t.tableDef) : NoCascade env r'.state u.tableDef := by
  rw [hdef]
  exact ⟨hq.toUntriggered, h.children hdef hq.cascades⟩

theorem deleteRow_run (hi : r.state.tables[i]? = some t) (hq : NoCascade env r.state t.tableDef)
    (hc : t.tableDef.typeOf 0 ≠ .varchar) (id : BitVec 32) (txn now : Nat) :
    ∃ r', deleteRow env call depth i id txn now r = some ((), r') ∧ RowsSet r r' i (t.deleteId env.ops id txn now) ∧
      TxnSame r r' := by
  have hseek : seekCursor env t id txn now r =
      some ((t.seekRow env.ops id txn now).bind fun cursor => t.cells[cursor]?.map fun v => (cursor, v), r) := by
    unfold seekCursor
    rw [if_neg hc]
    rfl
  unfold deleteRow RowTable.deleteId
  rw [bind_run (tableAt_run hi), bind_run hseek]
  cases (t.seekRow env.ops id txn now).bind fun cursor => t.cells[cursor]?.map fun v => (cursor, v) with
  | none => exact ⟨r, rfl, RowsSet.refl hi, rfl, rfl⟩
  | some found =>
    obtain ⟨cursor, old⟩ := found
    dsimp only
    set u := t.retired env.ops cursor id old txn with hu
    have hemit : emit env (.retire i (cursorIn env t t cursor) id old txn now) r =
        some ((), ⟨r.state.setTable i u, r.steps ++ [.retire i (cursorIn env t t cursor) id old txn now]⟩) := by
      have hcursor : cursorIn env t t cursor = cursor := if_pos rfl
      unfold emit take
      rw [hcursor]
      show Option.map _ ((r.state.tables[i]?).bind _) = _
      rw [hi]
      rfl
    have hset : RowsSet r ⟨r.state.setTable i u, r.steps ++ [.retire i (cursorIn env t t cursor) id old txn now]⟩ i u :=
      ⟨rfl, rfl⟩
    refine ⟨_, ?_, hset, rfl, rfl⟩
    rw [bind_run (fireTriggers_run hi hq.toUntriggered _ _ _), bind_run (cascadeDelete_run hi hq _), bind_run (tableAt_run hi),
      bind_run hemit]
    exact fireTriggers_run (hset.getElem hi) (hq.set hset rfl).toUntriggered _ _ _

theorem deleteRows_run (hi : r.state.tables[i]? = some t) (hq : NoCascade env r.state t.tableDef)
    (hc : t.tableDef.typeOf 0 ≠ .varchar) (ids : List (BitVec 32)) (txn now : Nat) :
    ∃ r', ids.forM (fun id => deleteRow env call depth i id txn now) r = some ((), r') ∧
      RowsSet r r' i (t.deleteIds env.ops txn now ids) ∧ TxnSame r r' := by
  induction ids generalizing t r with
  | nil => exact ⟨r, rfl, RowsSet.refl hi, rfl, rfl⟩
  | cons id ids ih =>
    obtain ⟨r₁, hr₁, hset₁, htxn₁⟩ := @deleteRow_run env call depth i r t hi hq hc id txn now
    have hdef := @deleteId_def env.ops t id txn now
    obtain ⟨r₂, hr₂, hset₂, htxn₂⟩ := ih (hset₁.getElem hi) (hq.set hset₁ hdef) (by rw [hdef]; exact hc)
    refine ⟨r₂, ?_, hset₁.trans hset₂, htxn₁.trans htxn₂⟩
    show (deleteRow env call depth i id txn now >>= fun _ => ids.forM _) r = _
    rw [bind_run hr₁]
    exact hr₂

/-- The search for an id in a table with a VARCHAR key does not come back. -/
theorem deleteRows_varchar (hi : r.state.tables[i]? = some t) (hc : t.tableDef.typeOf 0 = .varchar) {ids : List (BitVec 32)}
    (hids : ids ≠ []) (txn now : Nat) : ids.forM (fun id => deleteRow env call depth i id txn now) r = none := by
  obtain ⟨id, ids, rfl⟩ := List.exists_cons_of_ne_nil hids
  have hrow : deleteRow env call depth i id txn now r = none := by
    unfold deleteRow seekCursor
    rw [bind_run (tableAt_run hi), if_pos hc]
    rfl
  show (deleteRow env call depth i id txn now r).bind _ = none
  rw [hrow]
  rfl

/-! ## The whole of DELETE -/

/-- `now_ts`: BEGIN is a step where no transaction is open. -/
def startTime (env : DmlEnv) (r : Trace RowDb RowStep) : Nat :=
  env.time (if r.state.begun.isSome then r.steps.length else r.steps.length + 1)

theorem beginAuto_run (env : DmlEnv) (r : Trace RowDb RowStep) : ∃ auto r₁, beginAuto env r = some (auto, r₁) ∧
    RowsSame r r₁ ∧ env.time r₁.steps.length = startTime env r := by
  cases hb : r.state.begun with
  | some began =>
    refine ⟨false, r, ?_, ⟨rfl, rfl, rfl⟩, ?_⟩
    · unfold beginAuto
      rw [bind_run (show current r = some (r.state, r) from rfl), hb, Option.isSome_some, if_pos rfl]
      rfl
    · rw [startTime, hb, Option.isSome_some, if_pos rfl]
  | none =>
    have hemit : emit env .begin r =
        some ((), ⟨{ r.state with begun := some r.state.tables, hasWrites := false }, r.steps ++ [.begin]⟩) := by
      unfold emit take RowDb.step
      rw [hb]
      rfl
    refine ⟨true, ⟨{ r.state with begun := some r.state.tables, hasWrites := false }, r.steps ++ [.begin]⟩, ?_,
      ⟨rfl, rfl, rfl⟩, ?_⟩
    · unfold beginAuto
      rw [bind_run (show current r = some (r.state, r) from rfl), hb, Option.isSome_none, if_neg Bool.false_ne_true,
        bind_run hemit]
      rfl
    · rw [startTime, hb, Option.isSome_none, if_neg Bool.false_ne_true, List.length_append, List.length_singleton]

/-- The clock does not go back at BEGIN. -/
theorem le_startTime (hclock : ∀ m n, m ≤ n → env.time m ≤ env.time n) (r : Trace RowDb RowStep) :
    env.time r.steps.length ≤ startTime env r := by
  apply hclock
  split
  · exact le_refl _
  · exact Nat.le_succ _

/-- How a statement on table `i` starts. -/
theorem beginAuto_table (env : DmlEnv) (hi : r.state.tables[i]? = some t) : ∃ auto r₁, beginAuto env r = some (auto, r₁) ∧
    RowsSame r r₁ ∧ r₁.state.tables[i]? = some t ∧ r₁.state.txnXid = r.state.txnXid ∧
      timeNow env r₁ = some (startTime env r, r₁) := by
  obtain ⟨auto, r₁, hbegin, hsame, htime⟩ := beginAuto_run env r
  refine ⟨auto, r₁, hbegin, hsame, ?_, congrArg Nat.succ hsame.walLsn, ?_⟩
  · rw [hsame.tables, hi]
  · rw [← htime]
    rfl

/-- Where a transaction is open, no other one begins, and after `beginAuto` one is. -/
theorem beginAuto_open (env : DmlEnv) {auto : Bool} {r r₁ : Trace RowDb RowStep} (h : beginAuto env r = some (auto, r₁)) :
    r₁.state.begun.isSome = true ∧ (r.state.begun.isSome = true → auto = false ∧ r₁ = r) := by
  unfold beginAuto at h
  rw [bind_run (show current r = some (r.state, r) from rfl)] at h
  split at h
  next hopen =>
    obtain ⟨rfl, rfl⟩ := Prod.mk.inj (Option.some.inj h)
    exact ⟨hopen, fun _ => ⟨rfl, rfl⟩⟩
  next hclosed =>
    have hnone : r.state.begun = none := by simpa using hclosed
    have hemit : emit env .begin r =
        some ((), ⟨{ r.state with begun := some r.state.tables, hasWrites := false }, r.steps ++ [.begin]⟩) := by
      unfold emit take RowDb.step
      rw [hnone]
      rfl
    rw [bind_run hemit] at h
    obtain ⟨rfl, rfl⟩ := Prod.mk.inj (Option.some.inj h)
    exact ⟨rfl, fun hopen => absurd hopen hclosed⟩

theorem commitAuto_run (env : DmlEnv) (auto : Bool) (r : Trace RowDb RowStep) :
    ∃ r', commitAuto env auto r = some ((), r') ∧ r'.state.tables = r.state.tables := by
  unfold commitAuto endAuto
  rw [bind_run (show current r = some (r.state, r) from rfl)]
  split
  next hb =>
    obtain ⟨began, hbegan⟩ := Option.isSome_iff_exists.mp (Bool.and_eq_true_iff.mp hb).2
    have hsave : emit env .catalogSave r = some ((), ⟨{ r.state with hasWrites := true }, r.steps ++ [.catalogSave]⟩) := rfl
    have hcommit : ∃ r', emit env .commit ⟨{ r.state with hasWrites := true }, r.steps ++ [.catalogSave]⟩ = some ((), r') ∧
        r'.state.tables = r.state.tables := by
      unfold emit take RowDb.step
      dsimp only
      rw [hbegan]
      exact ⟨_, rfl, rfl⟩
    obtain ⟨r', hr', htables⟩ := hcommit
    refine ⟨r', ?_, htables⟩
    show (emit env .catalogSave >>= fun _ => emit env .commit >>= fun _ => pure ()) r = _
    rw [bind_run hsave, bind_run hr']
    rfl
  next => exact ⟨r, rfl, rfl⟩

/-- An automatic vacuum keeps the visible rows of the table. -/
def VacuumKeeps (env : DmlEnv) (i txn now : Nat) : Prop :=
  ∀ s t, s.tables[i]? = some t → t.Searchable env.ops →
    ∃ t', (env.vacuumed s)[i]? = some t' ∧ (t'.rows txn now).Perm (t.rows txn now)

/-- `is_dead`. -/
def Version.dead (v : Version) (minActive now : Nat) : Bool :=
  (v.xmax ≠ 0 && v.xmax ≤ minActive) || (0 < v.expireAt && v.expireAt < now)

/-- The loop of `execute_vacuum` over the rows of a table. -/
def RowTable.vacuumed (ops : WhereOps) (t : RowTable) (minActive now : Nat) : RowTable :=
  RowTable.filled ops t.tableDef (t.cells.filter fun v => !v.dead minActive now)

/-- An insertion puts the stored version somewhere. -/
theorem btreeInsert_perm (ops : WhereOps) (t : RowTable) (key : Value) (v : Version) :
    (t.btreeInsert ops key v).cells.Perm ({ v with values := t.tableDef.storedRow ops.toFloatOps v.values } :: t.cells) :=
  List.perm_insertIdx _ _ (List.takeWhile_sublist _).length_le

theorem filled_cells {ops : WhereOps} {d : TableDef} {vs : List Version}
    (hs : ∀ v ∈ vs, d.storedRow ops.toFloatOps v.values = v.values) : (RowTable.filled ops d vs).cells.Perm vs := by
  have hfold : ∀ (vs : List Version) (u : RowTable), u.tableDef = d →
      (∀ v ∈ vs, d.storedRow ops.toFloatOps v.values = v.values) →
      (vs.foldl (fun t v => t.btreeInsert ops (v.col 0) v) u).cells.Perm (u.cells ++ vs) := by
    intro vs
    induction vs with
    | nil => exact fun u _ _ => by rw [List.append_nil]; exact List.Perm.refl _
    | cons v vs ih =>
      intro u hu hs
      have hv : (u.btreeInsert ops (v.col 0) v).cells.Perm (v :: u.cells) := by
        have hperm := btreeInsert_perm ops u (v.col 0) v
        rwa [hu, hs v List.mem_cons_self] at hperm
      refine (ih (u.btreeInsert ops (v.col 0) v) hu fun w hw => hs w (List.mem_cons_of_mem _ hw)).trans ?_
      exact (List.Perm.append_right vs hv).trans List.perm_middle.symm
  exact hfold vs ⟨d, []⟩ rfl hs

/-- A visible version is not dead, as long as no snapshot is newer than the transaction. -/
theorem dead_of_visible {v : Version} {minActive : Nat} (hmin : minActive ≤ txn) (hv : v.visible txn now = true) :
    v.dead minActive now = false := by
  simp only [Version.visible, Version.alive, Version.live, Version.dead] at hv ⊢
  grind

theorem vacuumed_rows {ops : WhereOps} {t : RowTable} (h : t.Searchable ops) {minActive : Nat} (hmin : minActive ≤ txn)
    (now : Nat) : ((t.vacuumed ops minActive now).rows txn now).Perm (t.rows txn now) := by
  have hperm := @filled_cells ops t.tableDef (t.cells.filter fun v => !v.dead minActive now)
    fun v hv => h.stored v (List.mem_of_mem_filter hv)
  have hshown : (t.cells.filter fun v => !v.dead minActive now).filter (fun v => v.visible txn now) =
      t.cells.filter fun v => v.visible txn now := by
    rw [List.filter_filter]
    refine List.filter_congr fun v _ => ?_
    cases hv : v.visible txn now with
    | true => rw [dead_of_visible hmin hv, Bool.not_false, Bool.true_and]
    | false => rw [Bool.false_and]
  have hrows := (hperm.filter fun v => v.visible txn now).map fun v => (v.values, v.expireAt)
  rw [hshown] at hrows
  exact hrows

/-- The loop of `execute_vacuum` does. -/
theorem vacuumKeeps_of_loop {env : DmlEnv} {minActive : Nat} (hmin : minActive ≤ txn)
    (hloop : ∀ s, env.vacuumed s = s.tables.map fun t => t.vacuumed env.ops minActive now) (i : Nat) :
    VacuumKeeps env i txn now := by
  intro s t hi ht
  refine ⟨t.vacuumed env.ops minActive now, ?_, vacuumed_rows ht hmin now⟩
  rw [hloop, List.getElem?_map, hi]
  rfl

/-- After `run_delete_vm` the visible rows of table `i` are those that did not match. -/
def DeletedMatching (env : DmlEnv) (db : RowDb) (i : Nat) (t : RowTable) (wc : WhereClause) (txn now : Nat)
    (db' : RowDb) : Prop :=
  ∃ t', db'.tables[i]? = some t' ∧ (t'.rows txn now).Perm (otherRows env db t wc txn now)

/-- The end of `run_delete_vm`, after the loop. -/
def endDelete (env : DmlEnv) (auto vacuum : Bool) : Dml DmlResult := do
  if vacuum then emit env .vacuum else pure ()
  commitAuto env auto
  return .success

/-- Up to the end, DELETE only has its second loop run, and not even that where a row restricts it. -/
theorem runDeleteVm_loop {result : DmlResult} (hi : r.state.tables[i]? = some t) (hq : NoCascade env r.state t.tableDef)
    (hrun : runDeleteVm env call depth i wc r = some (result, r')) :
    (result = .constraintForeignKey ∧ restricts env r.state t wc r.state.txnXid (startTime env r) = true ∧ RowsSame r r') ∨
      restricts env r.state t wc r.state.txnXid (startTime env r) = false ∧
      ∃ auto r₂, RowsSet r r₂ i (t.deleteIds env.ops r.state.txnXid (startTime env r)
        (matchingIds env r.state t wc r.state.txnXid (startTime env r))) ∧
        endDelete env auto r.state.autoVacuum r₂ = some (result, r') ∧
        (r.state.begun.isSome = true → auto = false ∧ TxnSame r r₂) := by
  obtain ⟨auto, r₁, hbegin, hsame, hi₁, htxn, htimeNow⟩ := beginAuto_table env hi
  have hopen := (beginAuto_open env hbegin).2
  have hq₁ := hsame.noCascade hq
  unfold runDeleteVm at hrun
  rw [bind_run hbegin, bind_run (show current r₁ = some (r₁.state, r₁) from rfl), bind_run htimeNow,
    bind_run (tableAt_run hi₁), htxn, hsame.matchingIds, hsame.restricts] at hrun
  split at hrun
  next hrestricted =>
    obtain ⟨rfl, rfl⟩ := Prod.mk.inj (Option.some.inj hrun)
    exact .inl ⟨rfl, hrestricted, hsame⟩
  next hfree =>
    set ids := matchingIds env r.state t wc r.state.txnXid (startTime env r)
    obtain ⟨r₂, hloop, hset, hkept⟩ : ∃ r₂, ids.forM (fun id => deleteRow env call depth i id r.state.txnXid (startTime env r)) r₁ =
        some ((), r₂) ∧ RowsSet r₁ r₂ i (t.deleteIds env.ops r.state.txnXid (startTime env r) ids) ∧ TxnSame r₁ r₂ := by
      by_cases hc : t.tableDef.typeOf 0 = .varchar
      · by_cases hnil : ids = []
        · rw [hnil]
          exact ⟨r₁, rfl, RowsSet.refl hi₁, rfl, rfl⟩
        · rw [bind_none (deleteRows_varchar hi₁ hc hnil _ _)] at hrun
          cases hrun
      · exact deleteRows_run hi₁ hq₁ hc ids _ _
    rw [bind_run hloop, hsame.autoVacuum] at hrun
    refine .inr ⟨Bool.eq_false_of_not_eq_true hfree, auto, r₂, ⟨by rw [hset.tables, hsame.tables],
      hset.autoVacuum.trans hsame.autoVacuum⟩, hrun, fun hbegun => ?_⟩
    obtain ⟨hauto, hr₁⟩ := hopen hbegun
    rw [hr₁] at hkept
    exact ⟨hauto, hkept⟩

/-- What is left of the table before the vacuum. -/
theorem runDeleteVm_rows (hi : r.state.tables[i]? = some t) (ht : t.Searchable env.ops) (hq : NoCascade env r.state t.tableDef)
    (hvac : r.state.autoVacuum = true → VacuumKeeps env i r.state.txnXid (startTime env r))
    (hrun : runDeleteVm env call depth i wc r = some (.success, r')) :
    ∃ t', r'.state.tables[i]? = some t' ∧ (t'.rows r.state.txnXid (startTime env r)).Perm
      ((t.deleteIds env.ops r.state.txnXid (startTime env r)
        (matchingIds env r.state t wc r.state.txnXid (startTime env r))).rows r.state.txnXid (startTime env r)) := by
  obtain ⟨hrestricted, -⟩ | ⟨-, auto, r₂, hset, hend, -⟩ := runDeleteVm_loop hi hq hrun
  · cases hrestricted
  · have hi₂ := hset.getElem hi
    unfold endDelete at hend
    split at hend
    next hauto =>
      have hvacuum : emit env .vacuum r₂ =
          some ((), ⟨{ r₂.state with tables := env.vacuumed r₂.state, hasWrites := true }, r₂.steps ++ [.vacuum]⟩) := rfl
      rw [bind_run hvacuum] at hend
      dsimp only at hend
      obtain ⟨r₃, hcommit, htables⟩ := commitAuto_run env auto
        ⟨{ r₂.state with tables := env.vacuumed r₂.state, hasWrites := true }, r₂.steps ++ [.vacuum]⟩
      rw [bind_run hcommit] at hend
      obtain rfl : r₃ = r' := (Prod.mk.inj (Option.some.inj hend)).2
      rw [htables]
      exact hvac hauto r₂.state _ hi₂ (deleteIds_searchable ht (Nat.succ_pos _) _ _)
    next =>
      obtain ⟨r₃, hcommit, htables⟩ := commitAuto_run env auto r₂
      dsimp only at hend
      rw [bind_run hcommit] at hend
      obtain rfl : r₃ = r' := (Prod.mk.inj (Option.some.inj hend)).2
      rw [htables]
      exact ⟨_, hi₂, List.Perm.refl _⟩

end Run

/-! ## Two rows with one id -/

/-- Nothing outside the rows. -/
def rowsEnv : DmlEnv where
  ops := intOps
  triggers := []
  prepare _ _ _ _ := none
  evalExpr _ _ _ := []
  time _ := 0
  restored db := db.tables
  vacuumed db := db.tables
  moved _ _ cursor := cursor

/-- A row `(id, a)` of the first transaction. -/
def pairRow (id a : BitVec 32) : Version := ⟨[{ Value.init with intVal := id }, { Value.init with intVal := a }], 0, 1, 0⟩

/-- The table after INSERT of (1, 10) and of (1, 20). -/
def twoPairs : RowTable := ⟨compositeKey, [pairRow 1 20, pairRow 1 10]⟩

def twoPairsDb : RowDb := ⟨[twoPairs], none, false, 1, false⟩

/-- WHERE a = 10, and WHERE a = 20. -/
def whereTen : WhereClause := whereEq [97] [49, 48]
def whereTwenty : WhereClause := whereEq [97] [50, 48]

theorem twoPairs_searchable : twoPairs.Searchable rowsEnv.ops := by
  refine ⟨by decide, fun id v hv => ?_⟩
  have hsame : compositeKey.belowId intOps id (pairRow 1 20) = compositeKey.belowId intOps id (pairRow 1 10) := rfl
  change v ∈ [pairRow 1 20, pairRow 1 10].dropWhile (compositeKey.belowId intOps id) at hv
  show compositeKey.belowId intOps id v = false
  cases hb : compositeKey.belowId intOps id (pairRow 1 10) with
  | true =>
    rw [List.dropWhile_cons_of_pos (hsame.trans hb), List.dropWhile_cons_of_pos hb] at hv
    cases hv
  | false =>
    rw [List.dropWhile_cons_of_neg (by rw [hsame, hb]; exact Bool.false_ne_true)] at hv
    rcases List.mem_cons.mp hv with rfl | hv
    · exact hsame.trans hb
    · rw [List.mem_singleton.mp hv]
      exact hb

theorem twoPairs_noCascade : NoCascade rowsEnv twoPairsDb twoPairs.tableDef := noCascade_alone rfl rfl rfl

/-- A row by the int values of its columns. -/
def rowInts (row : List Value × Nat) : List (BitVec 32) × Nat := (row.1.map Value.intVal, row.2)

/-- The rows of the first table, from those of all. -/
theorem rowInts_first {db : RowDb} {t : RowTable} {txn : Nat} {rows : List (List (BitVec 32) × Nat)}
    (h : db.tables.map (fun t => (t.rows txn 0).map rowInts) = [rows]) (ht : db.tables[0]? = some t) :
    (t.rows txn 0).map rowInts = rows := by
  have hget := congrArg (fun l => l[0]?) h
  rw [List.getElem?_map, ht] at hget
  exact Option.some.inj hget

/-- What a DELETE of the two leaves. -/
def leftOf (wc : WhereClause) : Option (DmlResult × List (List (List (BitVec 32) × Nat))) :=
  (runDeleteVm rowsEnv (run rowsEnv 0) 0 0 wc ⟨twoPairsDb, []⟩).map fun r =>
    (r.1, r.2.state.tables.map fun t => (t.rows 2 0).map rowInts)

end CustomDB
