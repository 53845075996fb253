import CustomDB.Rows.Inserted
import CustomDB.Sql.Digits

/-!
# Values on their way through texts

INSERT ... SELECT prints each value of a row into a text of another INSERT, which reads it like a literal. What is left
of a value after that, and which values come through as they are.
-/

namespace CustomDB

open Lib Lib.Program

/-! ## A list and its image under a projection -/

/-- A projection maps a list to the part that passes a test exactly if all pass and it moves none. -/
theorem perm_map_filter_iff {α β : Type} {f : β → β} {val : α → β} {p : α → Bool} {l : List α}
    (hf : ∀ x ∈ l, f (f (val x)) = f (val x)) :
    (l.map fun x => f (val x)).Perm ((l.filter p).map val) ↔ ∀ x ∈ l, p x = true ∧ f (val x) = val x := by
  constructor
  · intro h
    have hlen := h.length_eq
    rw [List.length_map, List.length_map] at hlen
    have hall := List.length_filter_eq_length_iff.mp hlen.symm
    rw [List.filter_eq_self.mpr hall] at h
    intro x hx
    refine ⟨hall x hx, ?_⟩
    obtain ⟨y, hy, hyx⟩ := List.mem_map.mp (h.mem_iff.mpr (List.mem_map.mpr ⟨x, hx, rfl⟩))
    calc f (val x) = f (f (val y)) := by rw [hyx]
      _ = f (val y) := hf y hy
      _ = val x := hyx
  · intro h
    rw [List.filter_eq_self.mpr fun x hx => (h x hx).1]
    exact List.Perm.of_eq (List.map_congr_left fun x hx => (h x hx).2)

/-! ## What is left of a value -/

section Copied

variable (env : DmlEnv)

/-- The value a literal that fits is loaded as. -/
def literalValue (ops : WhereOps) (c : ColumnType) (raw : Text) : Value :=
  match c with
  | .int => { Value.init with intVal := atoi raw }
  | .float | .double | .numeric | .decimal =>
    { Value.init with doubleVal := ops.atof raw, floatVal := ops.narrow (ops.atof raw) }
  | .bool => { Value.init with intVal := if boolOf raw then 1 else 0 }
  | .blob | .text | .vector | .datetime | .date | .time | .timestamp | .varchar =>
    { Value.init with textVal := raw, textLen := raw.length }

/-- A value of type `c` after it was printed and inserted into a column. -/
def copiedValue (c : ColumnType) (col : Column) (v : Value) : Value :=
  let raw := printRaw env c v
  let given := if raw = [] then (if col.hasDefault then some col.defaultVal.str else none) else some raw
  match given with
  | none => { Value.init with isNull := true }
  | some raw => (literalValue env.ops col.type raw).stored env.ops.toFloatOps col.type

/-- A row of one table after it was copied into another. -/
def copiedRow (d source : TableDef) (values : List Value) : List Value :=
  d.columns.zipIdx.map fun ci => copiedValue env (source.typeOf ci.2) ci.1 (values.getD ci.2 Value.init)

/-- The key is not one that AUTOINCREMENT replaces. -/
def KeepsId (d source : TableDef) (values : List Value) : Prop :=
  (d.columns[0]?.map Column.isAutoincrement).getD false = true →
    let raw := printRaw env (source.typeOf 0) (values.getD 0 Value.init)
    (raw = [] || atoi raw = 0 || strcasecmp raw kwNull = .eq) = false

end Copied

section Accepted

variable {env : DmlEnv} {d source : TableDef} {values : List Value}

theorem literalRegister_value {ops : WhereOps} {col : Column} {raw : Text} {v : Value}
    (h : literalRegister ops col raw = .ok v) : v = literalValue ops col.type raw := by
  unfold literalRegister at h
  unfold literalValue
  cases hc : col.type with
  | int | bool | float | double | numeric | decimal | blob | text | vector =>
    rw [hc] at h
    exact (Except.ok.inj h).symm
  | datetime | date | time | timestamp | varchar =>
    rw [hc] at h
    dsimp only at h
    split at h
    · cases h
    · exact (Except.ok.inj h).symm

/-- The text for a column of a copied row. -/
theorem selectedRow_given (hlen : source.columns.length = d.columns.length) {k : Nat} (hk : k < d.columns.length) (col : Column) :
    (selectedRow env d source values).given k col =
      if printRaw env (source.typeOf k) (values.getD k Value.init) = [] then
        (if col.hasDefault then some col.defaultVal.str else none)
      else some (printRaw env (source.typeOf k) (values.getD k Value.init)) := by
  have hks : k < source.columns.length := by omega
  have htext : (selectedRow env d source values).text k = printRaw env (source.typeOf k) (values.getD k Value.init) := by
    unfold InsertStmt.text selectedRow
    simp only [List.getD_nil, Option.getD_none]
    rw [List.getD_eq_getElem?_getD, List.getElem?_map, List.getElem?_take_of_lt hk, List.getElem?_zipIdx,
      List.getElem?_eq_getElem hks, Option.map_some, Option.map_some, Option.getD_some, TableDef.typeOf_lt hks, Nat.zero_add]
  have hnull : (selectedRow env d source values).valNull k =
      decide (printRaw env (source.typeOf k) (values.getD k Value.init) = []) := by
    unfold InsertStmt.valNull
    rw [htext]
    simp [selectedRow, hk]
  unfold InsertStmt.given
  rw [hnull, htext]
  simp only [decide_eq_true_eq]

/-- What INSERT stores of a row that it accepts. -/
theorem storedRow_copied {ops : WhereOps} {db : RowDb} {t : RowTable} {row : List Value} (hops : env.ops = ops)
    (hlen : source.columns.length = t.tableDef.columns.length)
    (hacc : insertOutcome ops db t (selectedRow env t.tableDef source values) = .row row) :
    t.tableDef.storedRow ops.toFloatOps row = copiedRow env t.tableDef source values := by
  subst hops
  have hwidth : (copiedRow env t.tableDef source values).length = t.tableDef.columns.length := by
    rw [copiedRow, List.length_map, List.length_zipIdx]
  refine storedRow_ext _ hwidth fun k hk => ?_
  have hcol : t.tableDef.columns[k]? = some t.tableDef.columns[k] := List.getElem?_eq_getElem hk
  have hregister := insertOutcome_registers hacc hcol
  have hgiven := @selectedRow_given env _ _ values hlen _ hk t.tableDef.columns[k]
  have hcopied : (copiedRow env t.tableDef source values).getD k Value.init =
      copiedValue env (source.typeOf k) t.tableDef.columns[k] (values.getD k Value.init) := by
    rw [List.getD_eq_getElem _ _ (by rw [hwidth]; exact hk)]
    simp only [copiedRow, List.getElem_map, List.getElem_zipIdx, Nat.zero_add]
  rw [hcopied, TableDef.typeOf_lt hk]
  unfold copiedValue
  dsimp only
  rw [← hgiven]
  unfold register at hregister
  have hbound : (selectedRow env t.tableDef source values).boundValues = none := rfl
  rw [hbound] at hregister
  dsimp only at hregister
  split
  next hnone =>
    rw [hnone] at hregister
    rw [← Except.ok.inj hregister]
    exact Value.stored_null rfl
  next raw hraw =>
    rw [hraw] at hregister
    rw [literalRegister_value hregister]

/-- AUTOINCREMENT does not touch a statement with a key. -/
theorem selectedRow_autoincrement {t : RowTable} (hd : t.tableDef = d) (hlen : source.columns.length = d.columns.length)
    (h : KeepsId env d source values) : (selectedRow env d source values).autoincrement t = selectedRow env d source values := by
  subst hd
  unfold InsertStmt.autoincrement
  split
  next hauto =>
    have hpos : 0 < t.tableDef.columns.length := by
      by_contra hzero
      rw [List.getElem?_eq_none (by omega)] at hauto
      cases hauto
    have hraw : (selectedRow env t.tableDef source values).rawValues.getD 0 [] =
        printRaw env (source.typeOf 0) (values.getD 0 Value.init) := by
      unfold selectedRow
      dsimp only
      rw [List.getD_eq_getElem?_getD, List.getElem?_map, List.getElem?_take_of_lt hpos, List.getElem?_zipIdx,
        List.getElem?_eq_getElem (by omega), Option.map_some, Option.map_some, Option.getD_some,
        TableDef.typeOf_lt (by omega)]
    have hkey := h hauto
    have hsame : { selectedRow env t.tableDef source values with
        numValues := max (selectedRow env t.tableDef source values).numValues t.tableDef.columns.length } =
        selectedRow env t.tableDef source values := by
      have hmax : max (selectedRow env t.tableDef source values).numValues t.tableDef.columns.length =
          (selectedRow env t.tableDef source values).numValues := Nat.max_self _
      rw [hmax]
    dsimp only at hkey ⊢
    rw [hraw, hkey, if_neg Bool.false_ne_true]
    exact hsame
  next => rfl

end Accepted

/-! ## A copy of a copy -/

/-- Once a double was printed, the text of the double that is read from it reads as the same, and no text is empty. -/
structure Reprints (env : DmlEnv) : Prop where
  print : ∀ x, env.ops.atof ((env.ops.printDouble (env.ops.atof ((env.ops.printDouble x).take (maxRawVal - 1)))).take
    (maxRawVal - 1)) = env.ops.atof ((env.ops.printDouble x).take (maxRawVal - 1))
  some : ∀ x, (env.ops.printDouble x).take (maxRawVal - 1) ≠ []
  zero : ∀ d, nonzero d = false → env.ops.widen (env.ops.narrow d) = d

section Twice

variable {env : DmlEnv} {c : ColumnType} {col : Column} {u v : Value}

/-- What is left of a value depends on its text. -/
theorem copiedValue_congr (h : printRaw env c u = printRaw env c v) : copiedValue env c col u = copiedValue env c col v := by
  unfold copiedValue
  rw [h]

theorem copiedValue_some {raw : Text} (h : printRaw env c v = raw) (hraw : raw ≠ []) :
    copiedValue env c col v = (literalValue env.ops col.type raw).stored env.ops.toFloatOps col.type := by
  unfold copiedValue
  dsimp only
  rw [h, if_neg hraw]

theorem copiedValue_default (h : printRaw env c v = []) (hdefault : col.hasDefault = true) :
    copiedValue env c col v = (literalValue env.ops col.type col.defaultVal.str).stored env.ops.toFloatOps col.type := by
  unfold copiedValue
  dsimp only
  rw [h, if_pos rfl, if_pos hdefault]

theorem copiedValue_null (h : printRaw env c v = []) (hdefault : ¬col.hasDefault = true) :
    copiedValue env c col v = { Value.init with isNull := true } := by
  unfold copiedValue
  dsimp only
  rw [h, if_pos rfl, if_neg hdefault]

theorem printRaw_int (x : BitVec 32) : printRaw env .int { Value.init with intVal := x } = printInt x := by
  have hlen := length_printInt x
  exact List.take_of_length_le (hlen.trans (by decide))

/-- A text that a C string can hold and an array of the statement, too. -/
def FitsRaw (w : Text) : Prop := (∀ b ∈ w, b ≠ 0) ∧ w.length ≤ maxRawVal - 1

theorem printRaw_text (hc : IsText c) {w : Text} (hw : FitsRaw w) :
    printRaw env c { Value.init with textVal := w, textLen := w.length } = w := by
  have hstr : (w.takeWhile (· ≠ 0)) = w := List.takeWhile_eq_self_iff.mpr fun b hb => decide_eq_true (hw.1 b hb)
  have htake : (w.takeWhile (· ≠ 0)).take (maxRawVal - 1) = w := by
    rw [hstr]
    exact List.take_of_length_le hw.2
  cases c <;> first | exact htake | exact absurd hc (by unfold IsText; decide)

theorem fitsRaw_str (v : Value) : FitsRaw (v.str.take (maxRawVal - 1)) := by
  refine ⟨fun b hb => ?_, by rw [List.length_take]; exact Nat.min_le_left _ _⟩
  have hb' : b ∈ v.textVal.takeWhile (· ≠ 0) := List.mem_of_mem_take hb
  have hkept := List.mem_takeWhile_imp hb'
  exact of_decide_eq_true hkept

theorem fitsRaw_default (col : Column) : FitsRaw col.defaultVal.str := by
  refine ⟨fun b hb => ?_, (CharArray.length_str_lt col.defaultVal).le.trans (by decide)⟩
  have hkept := List.mem_takeWhile_imp hb
  exact of_decide_eq_true hkept

theorem printRaw_str (hc : IsText c) (v : Value) : printRaw env c v = v.str.take (maxRawVal - 1) := by
  cases c <;> first | rfl | exact absurd hc (by unfold IsText; decide)

/-- A text as it is stored. -/
def textValue (w : Text) : Value := { Value.init with textVal := w, textLen := w.length }

theorem stored_literal_text (hc : IsText c) (ops : WhereOps) (w : Text) :
    (literalValue ops c w).stored ops.toFloatOps c = textValue w := by
  have hliteral : literalValue ops c w = textValue w := by
    cases c <;> first | rfl | exact absurd hc (by unfold IsText; decide)
  rw [hliteral]
  exact Value.stored_text hc rfl rfl

/-- A text column keeps the text it gets. -/
theorem copiedValue_textValue (hc : IsText c) (hcol : col.type = c) {w : Text} (hw : FitsRaw w) (hne : w ≠ []) :
    copiedValue env c col (textValue w) = textValue w := by
  have hraw : printRaw env c (textValue w) = w := printRaw_text hc hw
  rw [copiedValue_some hraw hne, hcol, stored_literal_text hc]

theorem copiedValue_twice_text (hc : IsText c) (hcol : col.type = c) (v : Value) :
    copiedValue env c col (copiedValue env c col v) = copiedValue env c col v := by
  by_cases hempty : printRaw env c v = []
  · by_cases hdefault : col.hasDefault = true
    · have hvalue : copiedValue env c col v = textValue col.defaultVal.str := by
        rw [copiedValue_default hempty hdefault, hcol, stored_literal_text hc]
      by_cases hw : col.defaultVal.str = []
      · refine copiedValue_congr ?_
        rw [hempty, hvalue, hw]
        exact printRaw_text hc ⟨fun b hb => absurd hb List.not_mem_nil, Nat.zero_le _⟩
      · rw [hvalue]
        exact copiedValue_textValue hc hcol (fitsRaw_default col) hw
    · refine copiedValue_congr ?_
      rw [hempty, copiedValue_null hempty hdefault, printRaw_str hc]
      rfl
  · have hvalue : copiedValue env c col v = textValue (printRaw env c v) := by
      rw [copiedValue_some rfl hempty, hcol, stored_literal_text hc]
    rw [hvalue]
    exact copiedValue_textValue hc hcol (by rw [printRaw_str hc]; exact fitsRaw_str v) hempty

theorem copiedValue_int (hcol : col.type = .int) (v : Value) :
    copiedValue env .int col v = { Value.init with intVal := v.intVal } := by
  have hraw : printRaw env .int v = printInt v.intVal := @printRaw_int env v.intVal
  rw [copiedValue_some hraw (printInt_ne_nil _), hcol]
  show ({ Value.init with intVal := atoi (printInt v.intVal) } : Value) = _
  rw [atoi_printInt]

/-- The double that is read from the text of one. -/
def reprinted (env : DmlEnv) (x : BitVec 64) : BitVec 64 := env.ops.atof ((env.ops.printDouble x).take (maxRawVal - 1))

theorem copiedValue_double (h : Reprints env) (hcol : col.type = .double) (v : Value) :
    copiedValue env .double col v = { Value.init with doubleVal := reprinted env v.doubleVal } := by
  have hraw : printRaw env .double v = (env.ops.printDouble v.doubleVal).take (maxRawVal - 1) := rfl
  rw [copiedValue_some hraw (h.some _), hcol]
  rfl

theorem copiedValue_float (h : Reprints env) (hcol : col.type = .float) (v : Value) :
    copiedValue env .float col v =
      { Value.init with floatVal := env.ops.narrow (reprinted env v.doubleVal), doubleVal := reprinted env v.doubleVal } := by
  have hraw : printRaw env .float v = (env.ops.printDouble v.doubleVal).take (maxRawVal - 1) := rfl
  rw [copiedValue_some hraw (h.some _), hcol]
  set d := reprinted env v.doubleVal with hd
  have hstored : (if nonzero d then d else env.ops.widen (env.ops.narrow d)) = d := by
    split
    · rfl
    next hz => exact h.zero d (Bool.eq_false_iff.mpr hz)
  show ({ Value.init with
    floatVal := env.ops.narrow (if nonzero d then d else env.ops.widen (env.ops.narrow d))
    doubleVal := if nonzero d then d else env.ops.widen (env.ops.narrow d) } : Value) = _
  rw [hstored]

/-- BOOL, NUMERIC and DECIMAL have no text to copy. -/
theorem printRaw_none (hc : c = .bool ∨ c = .numeric ∨ c = .decimal) (hv : v.stored env.ops.toFloatOps c = v) :
    printRaw env c v = [] := by
  have htext : v.textVal = [] := by
    rw [← hv]
    unfold Value.stored
    rcases hc with rfl | rfl | rfl <;> split <;> rfl
  have hraw : printRaw env c v = v.str.take (maxRawVal - 1) := by rcases hc with rfl | rfl | rfl <;> rfl
  rw [hraw, Value.str, htext]
  rfl

/-- A value that was copied once is copied as it is. -/
theorem copiedValue_twice (h : Reprints env) (hcol : col.type = c) (hv : v.stored env.ops.toFloatOps c = v) :
    copiedValue env c col (copiedValue env c col v) = copiedValue env c col v := by
  cases hc : c with
  | int =>
    rw [hc] at hcol
    rw [copiedValue_int hcol, copiedValue_int hcol]
  | double =>
    rw [hc] at hcol
    rw [copiedValue_double h hcol, copiedValue_double h hcol]
    dsimp only
    rw [show reprinted env (reprinted env v.doubleVal) = reprinted env v.doubleVal from h.print _]
  | float =>
    rw [hc] at hcol
    rw [copiedValue_float h hcol, copiedValue_float h hcol]
    dsimp only
    rw [show reprinted env (reprinted env v.doubleVal) = reprinted env v.doubleVal from h.print _]
  | bool | numeric | decimal =>
    subst hc
    have hraw := printRaw_none (by simp) hv
    refine copiedValue_congr ?_
    rw [hraw]
    by_cases hdefault : col.hasDefault = true
    · rw [copiedValue_default hraw hdefault, hcol]
      rfl
    · rw [copiedValue_null hraw hdefault]
      rfl
  | blob | datetime | date | time | timestamp | text | varchar | vector =>
    subst hc
    exact copiedValue_twice_text (by unfold IsText; decide) hcol v

/-! ## What comes through -/

/-- The value comes through the texts: an INT that is not NULL, a double that its text gives back, a text without NUL bytes
that fits, and NULL for the types whose NULL has no text, where no DEFAULT steps in. -/
def Value.Survives (env : DmlEnv) (col : Column) (v : Value) : Prop :=
  match col.type with
  | .int => v.isNull = false
  | .double | .float => v.isNull = false ∧ reprinted env v.doubleVal = v.doubleVal
  | .bool | .numeric | .decimal =>
    if col.hasDefault then v = (literalValue env.ops col.type col.defaultVal.str).stored env.ops.toFloatOps col.type
    else v.isNull = true
  | .blob | .datetime | .date | .time | .timestamp | .text | .varchar | .vector =>
    if v.isNull then col.hasDefault = false
    else if v.textVal = [] then col.hasDefault = true ∧ col.defaultVal.str = []
    else FitsRaw v.textVal

theorem null_of_stored {ops : FloatOps} (hv : v.stored ops c = v) (hnull : v.isNull = true) :
    v = { Value.init with isNull := true } := by
  rw [← hv]
  exact Value.stored_null hnull

theorem copiedValue_text_iff (hc : IsText c) (hcol : col.type = c) (hv : v.stored env.ops.toFloatOps c = v)
    (hlen : v.textLen = v.textVal.length) : copiedValue env c col v = v ↔
      if v.isNull then col.hasDefault = false
      else if v.textVal = [] then col.hasDefault = true ∧ col.defaultVal.str = []
      else FitsRaw v.textVal := by
  by_cases hnull : v.isNull = true
  · rw [if_pos hnull]
    obtain rfl := null_of_stored hv hnull
    have hraw : printRaw env c { Value.init with isNull := true } = [] := by
      rw [printRaw_str hc]
      rfl
    by_cases hdefault : col.hasDefault = true
    · rw [copiedValue_default hraw hdefault, hcol, stored_literal_text hc]
      exact iff_of_false (fun he => by cases congrArg Value.isNull he) (by rw [hdefault]; decide)
    · exact iff_of_true (copiedValue_null hraw hdefault) (Bool.eq_false_iff.mpr hdefault)
  · rw [if_neg hnull]
    have hvalue : v = textValue v.textVal := hv.symm.trans (Value.stored_text hc (Bool.eq_false_iff.mpr hnull) hlen)
    set w := v.textVal with hw
    have hof : ∀ u, textValue u = v ↔ u = w := fun u => by
      rw [hvalue]
      exact ⟨fun he => congrArg Value.textVal he, fun he => by rw [he]⟩
    have hnot : ¬({ Value.init with isNull := true } : Value) = v := fun he => hnull (by rw [← he])
    by_cases hempty : printRaw env c v = []
    · have hcopied : copiedValue env c col v = v ↔ col.hasDefault = true ∧ col.defaultVal.str = w := by
        by_cases hdefault : col.hasDefault = true
        · rw [copiedValue_default hempty hdefault, hcol, stored_literal_text hc, hof]
          exact (and_iff_right hdefault).symm
        · rw [copiedValue_null hempty hdefault]
          exact iff_of_false hnot fun h => hdefault h.1
      rw [hcopied]
      split
      next hnil => rw [hnil]
      next hne =>
        refine ⟨fun h => h.2 ▸ fitsRaw_default col, fun hfits => ?_⟩
        rw [hvalue] at hempty
        exact absurd ((printRaw_text hc hfits).symm.trans hempty) hne
    · have hcopied : copiedValue env c col v = v ↔ printRaw env c v = w := by
        rw [copiedValue_some rfl hempty, hcol, stored_literal_text hc, hof]
      rw [hcopied]
      split
      next hnil => exact iff_of_false (fun he => hempty (he.trans hnil)) fun h => hempty (by rw [printRaw_str hc, Value.str, ← hw, hnil]; rfl)
      next hne =>
        constructor
        · intro he
          rw [← he, printRaw_str hc]
          exact fitsRaw_str v
        · intro hfits
          rw [hvalue]
          exact printRaw_text hc hfits

/-- A value is what is left of it exactly if it comes through. -/
theorem copiedValue_eq_iff (h : Reprints env) (hv : v.stored env.ops.toFloatOps col.type = v)
    (hlen : v.textLen = v.textVal.length) : copiedValue env col.type col v = v ↔ v.Survives env col := by
  have hnull : v.isNull = true → v = { Value.init with isNull := true } := null_of_stored hv
  unfold Value.Survives
  cases hc : col.type with
  | int =>
    rw [copiedValue_int hc]
    cases hn : v.isNull with
    | true => exact iff_of_false (fun he => by rw [← he] at hn; cases hn) fun he => Bool.noConfusion (show true = false from he)
    | false =>
      rw [hc, Value.stored, hn] at hv
      exact iff_of_true hv rfl
  | double =>
    rw [copiedValue_double h hc]
    cases hn : v.isNull with
    | true => exact iff_of_false (fun he => by rw [← he] at hn; cases hn) fun he =>
        Bool.noConfusion (show true = false from he.1)
    | false =>
      rw [hc, Value.stored, hn] at hv
      change ({ Value.init with doubleVal := v.doubleVal } : Value) = v at hv
      refine ⟨fun he => ⟨rfl, congrArg Value.doubleVal he⟩, fun he => ?_⟩
      rw [he.2]
      exact hv
  | float =>
    rw [copiedValue_float h hc]
    cases hn : v.isNull with
    | true => exact iff_of_false (fun he => by rw [← he] at hn; cases hn) fun he =>
        Bool.noConfusion (show true = false from he.1)
    | false =>
      rw [hc, Value.stored, hn] at hv
      set d := if nonzero v.doubleVal then v.doubleVal else env.ops.widen v.floatVal with hd
      change ({ Value.init with floatVal := env.ops.narrow d, doubleVal := d } : Value) = v at hv
      have hdouble : d = v.doubleVal := congrArg Value.doubleVal hv
      refine ⟨fun he => ⟨rfl, congrArg Value.doubleVal he⟩, fun he => ?_⟩
      rw [he.2, ← hdouble]
      exact hv
  | bool | numeric | decimal =>
    rw [hc] at hv
    have hraw := printRaw_none (by simp) hv
    dsimp only
    split
    next hdefault =>
      rw [copiedValue_default hraw hdefault, hc]
      exact eq_comm
    next hdefault =>
      rw [copiedValue_null hraw hdefault]
      exact ⟨fun he => by rw [← he], fun he => (hnull he).symm⟩
  | blob | datetime | date | time | timestamp | text | varchar | vector =>
    rw [hc] at hv
    exact copiedValue_text_iff (by unfold IsText; decide) hc hv hlen

theorem getD_copiedRow {d source : TableDef} {values : List Value} {k : Nat} (hk : k < d.columns.length) :
    (copiedRow env d source values).getD k Value.init =
      copiedValue env (source.typeOf k) d.columns[k] (values.getD k Value.init) := by
  rw [List.getD_eq_getElem _ _ (by rw [copiedRow, List.length_map, List.length_zipIdx]; exact hk)]
  simp only [copiedRow, List.getElem_map, List.getElem_zipIdx, Nat.zero_add]

theorem copiedRow_twice (h : Reprints env) {d source : TableDef} {values : List Value}
    (htypes : source.columns.map Column.type = d.columns.map Column.type)
    (hs : source.storedRow env.ops.toFloatOps values = values) :
    copiedRow env d source (copiedRow env d source values) = copiedRow env d source values := by
  have hlen : ∀ row, (copiedRow env d source row).length = d.columns.length := fun row => by
    rw [copiedRow, List.length_map, List.length_zipIdx]
  refine List.ext_getElem (by rw [hlen, hlen]) fun k h₁ h₂ => ?_
  have hk : k < d.columns.length := hlen values ▸ h₂
  have htype : d.columns[k].type = source.typeOf k := by
    have hget := congrArg (fun l => l[k]?) htypes
    simp only [List.getElem?_map, List.getElem?_eq_getElem hk] at hget
    rw [TableDef.typeOf, hget]
    rfl
  rw [← List.getD_eq_getElem _ Value.init h₁, ← List.getD_eq_getElem _ Value.init h₂, getD_copiedRow hk, getD_copiedRow hk]
  exact copiedValue_twice h htype (stored_getD hs k)

/-- A row is what is left of it exactly if each column comes through. -/
theorem copiedRow_eq_iff (h : Reprints env) {d source : TableDef} {values : List Value}
    (htypes : source.columns.map Column.type = d.columns.map Column.type)
    (hs : source.storedRow env.ops.toFloatOps values = values) (hlens : ∀ x ∈ values, x.textLen = x.textVal.length) :
    copiedRow env d source values = values ↔
      ∀ k col, d.columns[k]? = some col → (values.getD k Value.init).Survives env col := by
  have hwidth : source.columns.length = d.columns.length := by
    have hl := congrArg List.length htypes
    rwa [List.length_map, List.length_map] at hl
  have hvalues : values.length = d.columns.length := by
    rw [← hs, TableDef.length_storedRow, hwidth]
  have hcolumn : ∀ k (hk : k < d.columns.length), (copiedRow env d source values).getD k Value.init = values.getD k Value.init ↔
      (values.getD k Value.init).Survives env d.columns[k] := by
    intro k hk
    have htype : source.typeOf k = d.columns[k].type := by
      have hget := congrArg (fun l => l[k]?) htypes
      simp only [List.getElem?_map, List.getElem?_eq_getElem hk] at hget
      rw [TableDef.typeOf, hget]
      rfl
    have hmem : values.getD k Value.init ∈ values := by
      rw [List.getD_eq_getElem _ _ (by omega)]
      exact List.getElem_mem _
    have hstored := stored_getD hs k
    rw [htype] at hstored
    rw [getD_copiedRow hk, htype]
    exact copiedValue_eq_iff h hstored (hlens _ hmem)
  have hlen : (copiedRow env d source values).length = d.columns.length := by
    rw [copiedRow, List.length_map, List.length_zipIdx]
  constructor
  · intro he k col hcol
    obtain ⟨hk, rfl⟩ := List.getElem?_eq_some_iff.mp hcol
    exact (hcolumn k hk).mp (by rw [he])
  · intro hall
    refine List.ext_getElem (by rw [hlen, hvalues]) fun k h₁ h₂ => ?_
    have hk : k < d.columns.length := hlen ▸ h₁
    have heq := (hcolumn k hk).mpr (hall k _ (List.getElem?_eq_getElem hk))
    rwa [List.getD_eq_getElem _ _ h₁, List.getD_eq_getElem _ _ h₂] at heq

end Twice

end CustomDB
