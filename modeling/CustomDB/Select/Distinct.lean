import CustomDB.Lib.Compact
import CustomDB.Select.Entry

/-!
# SELECT DISTINCT

`deduplicate_distinct_entries` compares rows by the values of the selected columns, which it looks up by their exact
names. What is not found so (an expression, a name in other letters or with its table) is not compared.
-/

namespace CustomDB

open Lib.Compact

section Code

variable (env : SelectEnv) (stmt : SelectList) (cols : List Column)

/-- The columns that are compared. -/
def comparedCols : List Nat :=
  if stmt.selectCols = [] then List.range cols.length
  else stmt.selectCols.filterMap fun sc => findColumn cols sc.colName

/-- Entry `i` is the same as entry `j`. -/
def sameEntry (ei ej : RowSortEntry) : Bool :=
  (comparedCols stmt cols).all fun c =>
    compareValues env.ops (typeAt cols c) (ei.row.getD c Value.init) (ej.row.getD c Value.init) = .eq

/-- `deduplicate_distinct_entries`: the entries in front, as many as it returns. -/
def deduplicateDistinctEntries (entries : List RowSortEntry) : List RowSortEntry :=
  if !stmt.isDistinct || entries.length = 0 then entries
  else compact (sameEntry env stmt cols) RowSortEntry.zero entries

end Code

section Spec

variable (env : SelectEnv) (stmt : SelectList) (cols : List Column)

/-- The row printed for an entry. -/
def outputRow (e : RowSortEntry) : List Text := projectedRow env stmt cols e.row

/-- A part of the entries in their order, whose output rows are pairwise different: the first entry of every output
row. -/
structure OnePerOutput (entries kept : List RowSortEntry) : Prop where
  sub : kept.Sublist entries
  different : (kept.map (outputRow env stmt cols)).Nodup
  every : ∀ e ∈ entries, outputRow env stmt cols e ∈ kept.map (outputRow env stmt cols)
  first : kept = firsts (outputRow env stmt cols) entries

/-- An entry agrees in the compared columns with the first entry of an output row before it just when its own output
row has occurred before. -/
def ComparedAsPrinted (entries : List RowSortEntry) : Prop :=
  Tells (sameEntry env stmt cols) (outputRow env stmt cols) entries

end Spec

variable {env : SelectEnv} {stmt : SelectList} {cols : List Column} {entries : List RowSortEntry}

theorem onePerOutput_iff (kept : List RowSortEntry) :
    OnePerOutput env stmt cols entries kept ↔ kept = firsts (outputRow env stmt cols) entries := by
  refine ⟨OnePerOutput.first, ?_⟩
  rintro rfl
  obtain ⟨hnodup, hmem⟩ := @firsts_outputs _ _ _ (outputRow env stmt cols) entries
  exact ⟨firsts_sublist entries, hnodup, fun e he => (hmem _).mpr (List.mem_map_of_mem he), rfl⟩

/-- DISTINCT keeps the first entry of every output row exactly if the compared columns tell the output rows apart. -/
theorem deduplicate_iff (hd : stmt.isDistinct = true) :
    OnePerOutput env stmt cols entries (deduplicateDistinctEntries env stmt cols entries) ↔
      ComparedAsPrinted env stmt cols entries := by
  rw [onePerOutput_iff, ComparedAsPrinted, ← keep_eq_firsts_iff, ← @compact_eq_keep _ _ RowSortEntry.zero]
  unfold deduplicateDistinctEntries
  simp only [hd, Bool.not_true, Bool.false_or, decide_eq_true_eq]
  split
  · next h =>
    rw [List.length_eq_zero_iff.mp h]
    rfl
  · rfl

/-- `SELECT DISTINCT name`. -/
def distinctCol (name : Text) : SelectList := ⟨[⟨name, false, []⟩], true, false, ⟨[], false, .notSet⟩, []⟩

/-- An entry of two INT columns. -/
def intEntry (x y : BitVec 32) : RowSortEntry := ⟨[{ Value.init with intVal := x }, { Value.init with intVal := y }], []⟩

theorem deduplicate_two : OnePerOutput plainSelect (distinctCol [97]) compositeKey.columns
    [intEntry 1 10, intEntry 2 20, intEntry 3 10]
    (deduplicateDistinctEntries plainSelect (distinctCol [97]) compositeKey.columns
      [intEntry 1 10, intEntry 2 20, intEntry 3 10]) :=
  (deduplicate_iff rfl).mpr ((keep_eq_firsts_iff _).mp (by decide +kernel))

/-- Asked for in capitals, the column is printed and not compared: of two different rows one is lost. -/
theorem deduplicate_loses : ¬ ∀ (env : SelectEnv) (stmt : SelectList) (cols : List Column) (entries : List RowSortEntry),
    stmt.isDistinct = true →
      OnePerOutput env stmt cols entries (deduplicateDistinctEntries env stmt cols entries) := by
  intro h
  have hone := (h plainSelect (distinctCol [65]) compositeKey.columns [intEntry 1 10, intEntry 2 20] rfl).first
  exact absurd hone (by decide +kernel)

end CustomDB
