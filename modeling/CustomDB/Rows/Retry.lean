import CustomDB.Rows.Keyed

/-!
# A second INSERT after a DELETE

REPLACE deletes the rows with the key and runs the INSERT again: what the checks of the columns read is still there, and
AUTOINCREMENT has assigned its number.
-/

namespace CustomDB

open Lib

/-! ## What DELETE leaves -/

section Retry

variable {ops : WhereOps} {t : RowTable} {s : InsertStmt} {txn now : Nat} {v : Version}

/-- What a turn of the second loop of DELETE does to the cells. -/
theorem deleteId_perm (ops : WhereOps) (t : RowTable) (id : BitVec 32) (txn now : Nat) :
    (t.deleteId ops id txn now).cells = t.cells ∨ ∃ old rest, t.cells.Perm (old :: rest) ∧ (t.deleteId ops id txn now).cells.Perm
      ({ old with xmax := txn, values := t.tableDef.storedRow ops.toFloatOps old.values } :: rest) := by
  unfold RowTable.deleteId
  split
  · left
    rfl
  next cursor old hfound =>
    right
    obtain ⟨c, -, hcell⟩ := Option.bind_eq_some_iff.mp hfound
    obtain ⟨u, hu, hpair⟩ := Option.map_eq_some_iff.mp hcell
    obtain ⟨rfl, rfl⟩ := Prod.mk.inj hpair
    obtain ⟨hlt, rfl⟩ := List.getElem?_eq_some_iff.mp hu
    exact ⟨_, t.cells.eraseIdx c, (List.getElem_cons_eraseIdx_perm hlt).symm,
      btreeInsert_perm ops (t.btreeDelete c) (targetId id) { t.cells[c] with xmax := txn }⟩

/-- A version that the loop has left live was there before. -/
theorem live_deleteIds (htxn : 0 < txn) (ids : List (BitVec 32)) (hv : v ∈ (t.deleteIds ops txn now ids).cells)
    (hlive : v.live txn = true) : v ∈ t.cells := by
  induction ids generalizing t with
  | nil => exact hv
  | cons id ids ih =>
    have hmem : v ∈ (t.deleteId ops id txn now).cells := ih hv
    rcases deleteId_perm ops t id txn now with hsame | ⟨old, rest, hbefore, hafter⟩
    · rwa [hsame] at hmem
    · rcases List.mem_cons.mp (hafter.subset hmem) with rfl | hrest
      · simp [Version.live, Nat.ne_of_gt htxn] at hlive
      · exact hbefore.symm.subset (List.mem_cons_of_mem old hrest)

/-- The values stay. -/
theorem deleteIds_values (ht : t.Searchable ops) (htxn : 0 < txn) (ids : List (BitVec 32)) :
    ((t.deleteIds ops txn now ids).cells.map Version.values).Perm (t.cells.map Version.values) := by
  induction ids generalizing t with
  | nil => exact List.Perm.refl _
  | cons id ids ih =>
    refine (ih (deleteId_searchable ht htxn id now)).trans ?_
    rcases deleteId_perm ops t id txn now with hsame | ⟨old, rest, hbefore, hafter⟩
    · rw [hsame]
    · have hvalues := hafter.map Version.values
      rw [List.map_cons, ht.stored old (hbefore.symm.subset List.mem_cons_self)] at hvalues
      exact hvalues.trans (hbefore.map Version.values).symm

theorem RowTable.IntKeyed.deleteIds (hk : t.IntKeyed) (ht : t.Searchable ops) (htxn : 0 < txn) (ids : List (BitVec 32)) :
    (t.deleteIds ops txn now ids).IntKeyed := by
  constructor
  · rw [deleteIds_def]
    exact hk.column
  · intro v hv
    have hmem := (deleteIds_values ht htxn ids).subset (List.mem_map_of_mem hv)
    obtain ⟨u, hu, hsame⟩ := List.mem_map.mp hmem
    have hnull := hk.cells u hu
    unfold Version.col at hnull ⊢
    rwa [hsame] at hnull

/-- The checks of the columns read of the tables their definitions and the values of their rows. -/
theorem loadRegisters_set {db db' : RowDb} {i : Nat} {u : RowTable} (hi : db.tables[i]? = some t)
    (htables : db'.tables = db.tables.set i u) (hdef : u.tableDef = t.tableDef)
    (hvalues : (u.cells.map Version.values).Perm (t.cells.map Version.values)) (d : TableDef) :
    loadRegisters ops db' s d = loadRegisters ops db s d := by
  have hfind : db'.findTable = db.findTable := by
    funext name
    have hnames : db'.tables.map RowTable.tableDef = db.tables.map RowTable.tableDef := by
      rw [htables, List.map_set, hdef]
      obtain ⟨hlt, rfl⟩ := List.getElem?_eq_some_iff.mp hi
      apply List.ext_getElem
      · simp
      · intro k hk hk'
        rw [List.getElem_set]
        split
        next h => simp [h]
        next => rfl
    have hmap : ∀ tables : List RowTable, tables.findIdx? (fun t => t.tableDef.name.str = name) =
        (tables.map RowTable.tableDef).findIdx? fun d => d.name.str = name := by
      intro tables
      rw [List.findIdx?_map]
      rfl
    unfold RowDb.findTable
    rw [hmap, hmap, hnames]
  have hparent : ∀ (col : Column) (raw : Text) (p : Nat),
      (db'.tables[p]?).any (parentFound ops col raw) = (db.tables[p]?).any (parentFound ops col raw) := by
    intro col raw p
    rw [htables]
    by_cases hp : i = p
    · subst hp
      rw [List.getElem?_set_self (List.getElem?_eq_some_iff.mp hi).1, hi]
      unfold parentFound
      simp only [Option.any_some]
      rw [hdef]
      have hany : ∀ (vs : List Version) (f : List Value → Bool), (vs.any fun v => f v.values) = (vs.map Version.values).any f := by
        intro vs f
        rw [List.any_map]
        rfl
      unfold Version.col
      rw [hany u.cells fun values => rawEquals ops col.type raw (values.getD _ Value.init),
        hany t.cells fun values => rawEquals ops col.type raw (values.getD _ Value.init)]
      exact hvalues.any_eq
    · rw [List.getElem?_set_ne hp]
  have hfound : ∀ (col : Column) (raw : Text),
      ((db'.findTable col.fkTargetTable.str).bind fun p => db'.tables[p]?).any (parentFound ops col raw) =
        ((db.findTable col.fkTargetTable.str).bind fun p => db.tables[p]?).any (parentFound ops col raw) := by
    intro col raw
    rw [hfind]
    cases db.findTable col.fkTargetTable.str with
    | none => rfl
    | some p => exact hparent col raw p
  unfold loadRegisters loadRegister
  simp only [hfound]

theorem uniqueTaken_of_live {u : RowTable} (hdef : u.tableDef = t.tableDef)
    (hlive : ∀ v ∈ u.cells, v.live txn = true → v ∈ t.cells) (h : uniqueTaken ops t txn s = false) :
    uniqueTaken ops u txn s = false := by
  apply Bool.eq_false_of_not_eq_true
  intro hu
  apply Bool.false_ne_true (h.symm.trans _)
  unfold uniqueTaken at hu ⊢
  rw [hdef, List.any_eq_true] at hu
  obtain ⟨ci, hci, hcol⟩ := hu
  obtain ⟨hchecked, hany⟩ := Bool.and_eq_true_iff.mp hcol
  obtain ⟨v, hv, hequal⟩ := List.any_eq_true.mp hany
  refine List.any_eq_true.mpr ⟨ci, hci, Bool.and_eq_true_iff.mpr ⟨hchecked, List.any_eq_true.mpr ⟨v, ?_, hequal⟩⟩⟩
  exact hlive v hv (Bool.and_eq_true_iff.mp hequal).1

end Retry

/-! ## AUTOINCREMENT assigns one number -/

/-- The largest id is not negative, and the next one not 0. -/
theorem nextId_ne_zero (vs : List Version) (k : Nat) :
    vs.foldl (fun m v => if m.slt (v.col k).intVal then (v.col k).intVal else m) (0 : BitVec 32) + 1 ≠ 0 := by
  have hpos : ∀ m : BitVec 32, 0 ≤ m.toInt →
      0 ≤ (vs.foldl (fun m v => if m.slt (v.col k).intVal then (v.col k).intVal else m) m).toInt := by
    induction vs with
    | nil => exact fun m hm => hm
    | cons v vs ih =>
      intro m hm
      apply ih
      dsimp only
      split
      next h =>
        rw [BitVec.slt_eq_decide, decide_eq_true_iff] at h
        omega
      next => exact hm
  have h := hpos 0 (by decide)
  generalize vs.foldl (fun m v => if m.slt (v.col k).intVal then (v.col k).intVal else m) (0 : BitVec 32) = m at h ⊢
  intro hm
  obtain rfl : m = -1 := eq_neg_of_add_eq_zero_left hm
  exact absurd h (by decide)

/-- A statement that has its number gets no other. -/
theorem autoincrement_again {t u : RowTable} (hdef : u.tableDef = t.tableDef) (s : InsertStmt) (a : ConflictAction) :
    ({ s.autoincrement t with conflictAction := a } : InsertStmt).autoincrement u =
      { s.autoincrement t with conflictAction := a } := by
  unfold InsertStmt.autoincrement
  rw [hdef]
  split
  next hauto =>
    dsimp only
    set next := printInt (t.cells.foldl (fun m v => if m.slt (v.col 0).intVal then (v.col 0).intVal else m) 0 + 1) with hnext
    by_cases hraw : (s.rawValues.getD 0 [] = [] || atoi (s.rawValues.getD 0 []) = 0 || strcasecmp (s.rawValues.getD 0 []) kwNull = .eq) = true
    · have hgiven : ¬(next = [] || atoi next = 0 || strcasecmp next kwNull = .eq) = true := by
        have hne := nextId_ne_zero t.cells 0
        simp only [hnext, printInt_ne_nil, atoi_printInt, hne, printInt_not_null, decide_false, Bool.or_false, Bool.false_eq_true,
          not_false_iff]
      rw [if_pos hraw]
      simp only [List.getD_cons_zero, if_neg hgiven, Nat.max_assoc, Nat.max_self]
    · rw [if_neg hraw]
      simp only [if_neg hraw, Nat.max_assoc, Nat.max_self]
  next hauto => rfl

end CustomDB
