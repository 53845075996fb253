import CustomDB.Rows.Indexes
import CustomDB.Rows.Restamp

/-!
# ALTER TABLE rewrites the rows

ADD COLUMN and DROP COLUMN read every cell of the old tree and put its values into a new one with `btree_insert`. The
trailers do not come along: each version is one that every snapshot sees and that never expires.
-/

namespace CustomDB

open Lib Lib.Program

/-! ## What is kept -/

/-- The values of a row after the change. -/
def AlterAction.image (d : TableDef) : AlterAction → List Value → List Value
  | .addColumn _, values => values ++ [{ Value.init with isNull := true }]
  | .dropColumn col, values => ((d.findColumn col).map values.eraseIdx).getD values
  | .rename _, values => values

/-- Where a column is after the change. -/
def AlterAction.place (d : TableDef) : AlterAction → Nat → Option Nat
  | .dropColumn col, c => if d.findColumn col = some c then none
      else if (d.findColumn col).any (· < c) then some (c - 1) else some c
  | _, c => some c

/-- A new column, or a column less that does not belong to the key. -/
def AlterAction.KeepsKey (d : TableDef) : AlterAction → Prop
  | .addColumn _ => True
  | .dropColumn col => d.findColumn col ≠ some 0 ∧ ∀ c ∈ d.keyCols, d.findColumn col ≠ some c
  | .rename _ => False

/-- The column has an index that SELECT goes through. -/
def Column.seekable (col : Column) : Bool := col.hasIndex && !col.idxIsPartial && !col.idxIsExpr

/-- Every snapshot from `oldest` on shows the rows it showed, each changed as it should be and with its time, and a
column keeps its index: entries that were those of the rows are those of the rows. -/
structure KeepsRows (ops : WhereOps) (action : AlterAction) (oldest : Nat) (t t' : RowTable) : Prop where
  rows : ∀ snapshot now, oldest ≤ snapshot →
    (t'.rows snapshot now).Perm ((t.rows snapshot now).map fun row => (action.image t.tableDef row.1, row.2))
  indexes : ∀ c c' col, t.tableDef.columns[c]? = some col → action.place t.tableDef c = some c' →
    t'.tableDef.columns[c']? = some col ∧ (col.seekable = true →
      ∀ (entries : List (Value × Value)) snapshot now, oldest ≤ snapshot →
        entries.Perm (t.indexRows ops c col snapshot now) → entries.Perm (t'.indexRows ops c' col snapshot now))

/-- The version has no time to expire, has not been ended, and no snapshot from `oldest` on is too old for it. -/
def Version.Untimed (v : Version) (oldest : Nat) : Prop := v.expireAt = 0 ∧ v.xmax = 0 ∧ v.xmin ≤ oldest

/-! ## The two changes of a definition -/

/-- How the rows of one definition become rows of another. -/
structure Reshapes (ops : WhereOps) (action : AlterAction) (d d' : TableDef) : Prop where
  stored : ∀ values, d.storedRow ops.toFloatOps values = values →
    d'.storedRow ops.toFloatOps (action.image d values) = action.image d values
  column : ∀ c c', action.place d c = some c' → c < d.columns.length → d'.columns[c']? = d.columns[c]?
  value : ∀ values c c', d.storedRow ops.toFloatOps values = values → action.place d c = some c' → c < d.columns.length →
    (action.image d values).getD c' Value.init = values.getD c Value.init
  first : 0 < d.columns.length → action.place d 0 = some 0

section Shape

variable {ops : WhereOps} {d : TableDef} {values : List Value}

theorem length_of_stored (h : d.storedRow ops.toFloatOps values = values) : values.length = d.columns.length := by
  rw [← TableDef.length_storedRow ops.toFloatOps d values, h]

theorem reshapes_addColumn (ops : WhereOps) (d : TableDef) (col : Column) (h : d.columns.length < maxColumns) :
    Reshapes ops (.addColumn col) d (d.addColumn col h) := by
  refine ⟨fun values hs => ?_, fun c c' hplace hc => ?_, fun values c c' hs hplace hc => ?_, fun _ => rfl⟩
  · have hlen := length_of_stored hs
    show (d.addColumn col h).storedRow ops.toFloatOps (values ++ [{ Value.init with isNull := true }]) =
      values ++ [{ Value.init with isNull := true }]
    refine storedRow_ext _ (by simp [TableDef.addColumn, hlen]) fun c hc => ?_
    have hcols : (d.addColumn col h).columns = d.columns ++ [col] := rfl
    rw [hcols, List.length_append, List.length_singleton] at hc
    rcases Nat.lt_or_ge c d.columns.length with hlt | hge
    · have htype : (d.addColumn col h).typeOf c = d.typeOf c := by
        rw [TableDef.typeOf, TableDef.typeOf, hcols, List.getElem?_append_left hlt]
      rw [htype, List.getD_append _ _ _ _ (by omega)]
      exact stored_getD hs c
    · have hnull : (values ++ [({ Value.init with isNull := true } : Value)]).getD c Value.init =
          { Value.init with isNull := true } := by
        rw [List.getD_append_right _ _ _ _ (by omega), show c - values.length = 0 by omega]
        rfl
      rw [hnull]
      rfl
  · obtain rfl := Option.some.inj hplace
    exact List.getElem?_append_left hc
  · obtain rfl := Option.some.inj hplace
    exact List.getD_append _ _ _ _ (by rw [length_of_stored hs]; exact hc)

/-- What stands behind a column that is taken out moves up. -/
theorem getElem?_place {α : Type} {l : List α} {col : Text} {k c c' : Nat} (hk : d.findColumn col = some k)
    (hplace : (AlterAction.dropColumn col).place d c = some c') : (l.eraseIdx k)[c']? = l[c]? := by
  have hne : k ≠ c := fun he => by
    rw [AlterAction.place, if_pos (by rw [hk, he])] at hplace
    cases hplace
  rw [AlterAction.place, if_neg (by rw [hk]; exact fun he => hne (Option.some.inj he)), hk] at hplace
  rw [List.getElem?_eraseIdx]
  rcases Nat.lt_or_ge k c with hlt | hge
  · rw [if_pos (by simpa using hlt)] at hplace
    obtain rfl := Option.some.inj hplace
    rw [if_neg (by omega), show c - 1 + 1 = c by omega]
  · rw [if_neg (by simpa using hge)] at hplace
    obtain rfl := Option.some.inj hplace
    rw [if_pos (by omega)]

theorem reshapes_dropColumn (ops : WhereOps) (d : TableDef) {col : Text} {k : Nat} (hk : d.findColumn col = some k)
    (hfirst : k ≠ 0) : Reshapes ops (.dropColumn col) d (d.dropColumn k) := by
  have himage : ∀ values, (AlterAction.dropColumn col).image d values = values.eraseIdx k := fun values => by
    rw [AlterAction.image, hk]
    rfl
  have hklt : k < d.columns.length := (List.findIdx?_eq_some_iff_getElem.mp hk).1
  refine ⟨fun values hs => ?_, fun c c' hplace _ => getElem?_place hk hplace, fun values c c' hs hplace _ => ?_, fun _ => ?_⟩
  · have hlen := length_of_stored hs
    rw [himage]
    have hcols : (d.dropColumn k).columns = d.columns.eraseIdx k := rfl
    refine storedRow_ext _ ?_ fun c _ => ?_
    · rw [hcols, List.length_eraseIdx_of_lt hklt, List.length_eraseIdx_of_lt (by omega), hlen]
    · obtain ⟨b, htype, hvalue⟩ : ∃ b, (d.dropColumn k).typeOf c = d.typeOf b ∧
          (values.eraseIdx k).getD c Value.init = values.getD b Value.init := by
        refine ⟨if c < k then c else c + 1, ?_, ?_⟩
        · rw [TableDef.typeOf, TableDef.typeOf, hcols, List.getElem?_eraseIdx]
          split <;> rfl
        · rw [List.getD_eq_getElem?_getD, List.getD_eq_getElem?_getD, List.getElem?_eraseIdx]
          split <;> rfl
      rw [htype, hvalue]
      exact stored_getD hs b
  · rw [himage, List.getD_eq_getElem?_getD, List.getD_eq_getElem?_getD, getElem?_place hk hplace]
  · rw [AlterAction.place, if_neg (by rw [hk]; exact fun he => hfirst (Option.some.inj he)), hk,
      if_neg (by simp)]

end Shape

/-! ## The new tree -/

section Rebuilt

variable {ops : WhereOps} {action : AlterAction} {t : RowTable} {d' : TableDef} {oldest : Nat}

/-- The table in its new tree. -/
def RowTable.reshaped (ops : WhereOps) (t : RowTable) (action : AlterAction) (d' : TableDef) : RowTable :=
  RowTable.rebuilt ops d' (t.cells.map fun v => action.image t.tableDef v.values)

theorem filled_def (ops : WhereOps) (d : TableDef) (vs : List Version) : (RowTable.filled ops d vs).tableDef = d := by
  have hfold : ∀ (vs : List Version) (u : RowTable),
      (vs.foldl (fun t v => t.btreeInsert ops (v.col 0) v) u).tableDef = u.tableDef := by
    intro vs
    induction vs with
    | nil => exact fun _ => rfl
    | cons v vs ih => exact fun u => ih (u.btreeInsert ops (v.col 0) v)
  exact hfold vs ⟨d, []⟩

/-- The cells of the new tree: the values alone. -/
theorem reshaped_cells (h : Reshapes ops action t.tableDef d')
    (hstored : ∀ v ∈ t.cells, t.tableDef.storedRow ops.toFloatOps v.values = v.values) :
    (t.reshaped ops action d').cells.Perm (t.cells.map fun v => ⟨action.image t.tableDef v.values, 0, 0, 0⟩) := by
  unfold RowTable.reshaped RowTable.rebuilt
  rw [List.map_map]
  refine filled_cells fun u hu => ?_
  obtain ⟨v, hv, rfl⟩ := List.mem_map.mp hu
  exact h.stored v.values (hstored v hv)

/-- A version without trailers is there for everyone. -/
theorem visible_untimed {v : Version} (h : v.Untimed oldest) {snapshot : Nat} (hs : oldest ≤ snapshot) (now : Nat) :
    v.visible snapshot now = true := by
  obtain ⟨hexpire, hend, hbegin⟩ := h
  simp only [Version.visible, Version.alive, Version.live, hexpire, hend, lt_irrefl, decide_false, Bool.false_and,
    Bool.not_false, Bool.true_and, decide_true, Bool.true_or, Bool.and_true, decide_eq_true_eq]
  exact le_trans hbegin hs

theorem shown_untimed (h : ∀ v ∈ t.cells, v.Untimed oldest) {snapshot : Nat} (hs : oldest ≤ snapshot) (now : Nat) :
    (t.shown snapshot now).cells = t.cells := List.filter_eq_self.mpr fun v hv => visible_untimed (h v hv) hs now

theorem reshaped_untimed (h : Reshapes ops action t.tableDef d')
    (hstored : ∀ v ∈ t.cells, t.tableDef.storedRow ops.toFloatOps v.values = v.values) (oldest : Nat) :
    ∀ v ∈ (t.reshaped ops action d').cells, v.Untimed oldest := by
  intro v hv
  obtain ⟨u, -, rfl⟩ := List.mem_map.mp ((reshaped_cells h hstored).mem_iff.mp hv)
  exact ⟨rfl, rfl, Nat.zero_le _⟩

theorem reshaped_rows (h : Reshapes ops action t.tableDef d')
    (hstored : ∀ v ∈ t.cells, t.tableDef.storedRow ops.toFloatOps v.values = v.values) (snapshot now : Nat) :
    ((t.reshaped ops action d').rows snapshot now).Perm (t.cells.map fun v => (action.image t.tableDef v.values, 0)) := by
  unfold RowTable.rows
  rw [shown_untimed (reshaped_untimed h hstored snapshot) (le_refl _)]
  have hcells := (reshaped_cells h hstored).map fun v => (v.values, v.expireAt)
  rw [List.map_map] at hcells
  exact hcells

/-- The entries of an index, where nothing is hidden. -/
theorem indexRows_untimed (h : ∀ v ∈ t.cells, v.Untimed oldest) {c : Nat} {col : Column} (hcol : col.seekable = true)
    {snapshot : Nat} (hs : oldest ≤ snapshot) (now : Nat) :
    t.indexRows ops c col snapshot now = t.cells.map fun v => indexEntry ops c col v.values := by
  have hfull : ∀ values, col.indexes ops t.tableDef.columns values = true := fun values => by
    simp only [Column.seekable, Bool.and_eq_true] at hcol
    simp only [Column.indexes, hcol.1.2, Bool.true_or]
  unfold RowTable.indexRows
  rw [shown_untimed h hs, List.filter_eq_self.mpr fun v _ => hfull v.values]

/-- The new tree has what it should have exactly if no version had a trailer to lose. -/
theorem reshaped_keeps_iff (h : Reshapes ops action t.tableDef d')
    (hstored : ∀ v ∈ t.cells, t.tableDef.storedRow ops.toFloatOps v.values = v.values) :
    KeepsRows ops action oldest t (t.reshaped ops action d') ↔ ∀ v ∈ t.cells, v.Untimed oldest := by
  constructor
  · intro hkeeps
    have hperm : ∀ snapshot, oldest ≤ snapshot → (t.cells.map fun v => (action.image t.tableDef v.values, 0)).Perm
        ((t.rows snapshot 0).map fun row => (action.image t.tableDef row.1, row.2)) := fun snapshot hs =>
      (reshaped_rows h hstored snapshot 0).symm.trans (hkeeps.rows snapshot 0 hs)
    have hvisible : ∀ snapshot, oldest ≤ snapshot → ∀ v ∈ t.cells, v.visible snapshot 0 = true := by
      intro snapshot hs
      have hlen := (hperm snapshot hs).length_eq
      simp only [List.length_map, RowTable.rows, RowTable.shown] at hlen
      exact List.length_filter_eq_length_iff.mp hlen.symm
    intro v hv
    refine ⟨?_, ?_, ?_⟩
    · have hrow : (action.image t.tableDef v.values, v.expireAt) ∈
          (t.rows oldest 0).map fun row => (action.image t.tableDef row.1, row.2) := by
        refine List.mem_map.mpr ⟨(v.values, v.expireAt), List.mem_map.mpr ⟨v, ?_, rfl⟩, rfl⟩
        exact List.mem_filter.mpr ⟨hv, hvisible oldest (le_refl _) v hv⟩
      obtain ⟨u, -, hu⟩ := List.mem_map.mp ((hperm oldest (le_refl _)).mem_iff.mpr hrow)
      exact (Prod.mk.inj hu).2.symm
    · -- a snapshot that is late enough sees the end
      have hlate := hvisible (oldest + v.xmax) (Nat.le_add_right _ _) v hv
      simp only [Version.visible, Version.alive, Version.live, Bool.and_eq_true, Bool.or_eq_true, decide_eq_true_eq] at hlate
      omega
    · have hearly := hvisible oldest (le_refl _) v hv
      simp only [Version.visible, Version.alive, Bool.and_eq_true, decide_eq_true_eq] at hearly
      exact hearly.2.1
  · intro hall
    have hafter := reshaped_untimed h hstored oldest
    refine ⟨fun snapshot now hs => ?_, fun c c' col hc hplace => ?_⟩
    · refine (reshaped_rows h hstored snapshot now).trans ?_
      unfold RowTable.rows
      rw [shown_untimed hall hs, List.map_map]
      refine List.Perm.of_eq (List.map_congr_left fun v hv => ?_)
      rw [Function.comp_apply, (hall v hv).1]
    · have hlt : c < t.tableDef.columns.length := (List.getElem?_eq_some_iff.mp hc).1
      refine ⟨?_, fun hcol entries snapshot now hs hentries => hentries.trans ?_⟩
      · rw [RowTable.reshaped, RowTable.rebuilt, filled_def, h.column c c' hplace hlt, hc]
      · rw [indexRows_untimed hall hcol hs, indexRows_untimed hafter hcol hs]
        have hcells := (reshaped_cells h hstored).map fun v => indexEntry ops c' col v.values
        rw [List.map_map] at hcells
        refine List.Perm.trans (List.Perm.of_eq (List.map_congr_left fun v hv => ?_)) hcells.symm
        have hfirst := h.value v.values 0 0 (hstored v hv) (h.first (by omega)) (by omega)
        have hvalue := h.value v.values c c' (hstored v hv) hplace hlt
        simp only [Function.comp_apply, indexEntry]
        rw [hfirst, hvalue]

end Rebuilt

/-! ## A run of ALTER TABLE -/

section Run

variable {env : DmlEnv} {i : Nat} {action : AlterAction} {r r' : Trace RowDb RowStep} {t : RowTable}

theorem commitOpen_run (env : DmlEnv) (auto : Bool) (r : Trace RowDb RowStep) :
    ∃ r', endAuto env auto [.commit] r = some ((), r') ∧ r'.state.tables = r.state.tables := by
  unfold endAuto
  rw [bind_run (show current r = some (r.state, r) from rfl)]
  split
  next hb =>
    obtain ⟨began, hbegan⟩ := Option.isSome_iff_exists.mp (Bool.and_eq_true_iff.mp hb).2
    have hcommit : ∃ r', emit env .commit r = some ((), r') ∧ r'.state.tables = r.state.tables := by
      unfold emit take RowDb.step
      dsimp only
      rw [hbegan]
      exact ⟨_, rfl, rfl⟩
    obtain ⟨r', hr', htables⟩ := hcommit
    refine ⟨r', ?_, htables⟩
    show (emit env .commit >>= fun _ => pure ()) r = _
    rw [bind_run hr']
    rfl
  next => exact ⟨r, rfl, rfl⟩

/-- What a successful run leaves is the changed database. -/
theorem runAlterTable_success (hi : r.state.tables[i]? = some t) (hrun : runAlterTable env i action r = some (.success, r')) :
    ∃ db db' : RowDb, db.tables = r.state.tables ∧ db.altered env.ops i t action = some db' ∧ r'.state.tables = db'.tables := by
  obtain ⟨auto, r₁, hbegin, hsame, -⟩ := beginAuto_run env r
  have hi₁ : r₁.state.tables[i]? = some t := by rw [hsame.tables, hi]
  unfold runAlterTable at hrun
  rw [bind_run hbegin, bind_run (tableAt_run hi₁), bind_run (show current r₁ = some (r₁.state, r₁) from rfl)] at hrun
  split at hrun
  next hsome =>
    obtain ⟨db', hdb'⟩ := Option.isSome_iff_exists.mp hsome
    have hemit : emit env (.alter i action) r₁ = some ((), ⟨db', r₁.steps ++ [.alter i action]⟩) := by
      unfold emit take
      show Option.map _ ((r₁.state.tables[i]?).bind _) = _
      rw [hi₁, Option.bind_some, hdb']
      rfl
    obtain ⟨r₂, hcommit, htables⟩ := commitOpen_run env auto ⟨db', r₁.steps ++ [.alter i action]⟩
    rw [bind_run hemit, bind_run hcommit] at hrun
    obtain rfl : r₂ = r' := (Prod.mk.inj (Option.some.inj hrun)).2
    exact ⟨r₁.state, db', hsame.tables, hdb', htables⟩
  next =>
    obtain ⟨⟨u, r₂⟩, -, hresult⟩ := Option.bind_eq_some_iff.mp hrun
    have hfailed := (Prod.mk.inj (Option.some.inj hresult)).1
    cases action <;> cases hfailed

/-- The table that ALTER leaves is the one with the reshaped rows. -/
theorem altered_reshaped {ops : WhereOps} {db db' : RowDb} (hi : db.tables[i]? = some t) (hkey : action.KeepsKey t.tableDef)
    (h : db.altered ops i t action = some db') :
    ∃ d', Reshapes ops action t.tableDef d' ∧ db'.tables[i]? = some (t.reshaped ops action d') := by
  have hlt : i < db.tables.length := (List.getElem?_eq_some_iff.mp hi).1
  cases action with
  | rename new => cases hkey
  | addColumn col =>
    unfold RowDb.altered at h
    dsimp only at h
    split at h
    next hroom =>
      obtain rfl := Option.some.inj h
      exact ⟨_, reshapes_addColumn ops t.tableDef col hroom, List.getElem?_set_self hlt⟩
    next => cases h
  | dropColumn col =>
    obtain ⟨k, hk, rfl⟩ := Option.map_eq_some_iff.mp h
    have hfirst : k ≠ 0 := fun he => hkey.1 (by rw [hk, he])
    refine ⟨_, reshapes_dropColumn ops t.tableDef hk hfirst, (List.getElem?_set_self hlt).trans ?_⟩
    unfold RowTable.reshaped AlterAction.image
    simp only [hk, Option.map_some, Option.getD_some]

end Run

/-! ## A deleted row comes back -/

theorem letterB_fits : ([98] : List UInt8).length < 32 := by decide

/-- ALTER TABLE t ADD COLUMN b INT. -/
def addB : AlterAction := .addColumn (intColumn [98] letterB_fits)

/-- The rows (1, 10) and (2, 10), the first deleted by the second transaction. -/
def oneDeleted : RowTable := ⟨compositeKey, [{ pairRow 1 10 with xmax := 2 }, pairRow 2 10]⟩

def oneDeletedDb : RowDb := ⟨[oneDeleted], none, false, 2, false⟩

/-- What ADD COLUMN reports and which rows the first table then shows. -/
def rowsWithB (db : RowDb) : Option (DmlResult × List (List (List (BitVec 32) × Nat))) :=
  (runAlterTable rowsEnv 0 addB ⟨db, []⟩).map fun r => (r.1, r.2.state.tables.map fun t => (t.rows 3 0).map rowInts)

end CustomDB
