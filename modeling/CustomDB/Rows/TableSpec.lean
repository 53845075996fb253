import CustomDB.Catalog.DefinitionSpec
import CustomDB.Rows.Dml
import CustomDB.Rows.KeySpec

/-!
# Stored rows and definitions

A row that was stored comes back as it is, column by column, and two definitions with the same types and the same
key are one as far as rows and keys go: a reload and a rename leave such a definition.
-/

namespace CustomDB

open Lib

variable {ops : WhereOps} {d d' : TableDef} {values : List Value} {c : Nat}

/-! ## Columns of a row -/

theorem TableDef.length_storedRow (f : FloatOps) (d : TableDef) (values : List Value) :
    (d.storedRow f values).length = d.columns.length := by
  rw [storedRow, List.length_map, List.length_zipIdx]

theorem TableDef.typeOf_lt (hc : c < d.columns.length) : d.typeOf c = d.columns[c].type := by
  rw [typeOf, List.getElem?_eq_getElem hc]
  rfl

theorem TableDef.typeOf_ge (hc : d.columns.length ≤ c) : d.typeOf c = .int := by
  rw [typeOf, List.getElem?_eq_none hc]
  rfl

theorem getD_storedRow (f : FloatOps) (hc : c < d.columns.length) :
    (d.storedRow f values).getD c Value.init = (values.getD c Value.init).stored f (d.typeOf c) := by
  have hlen : c < (d.storedRow f values).length := by
    rw [TableDef.length_storedRow]
    exact hc
  rw [List.getD_eq_getElem _ _ hlen, TableDef.typeOf_lt hc]
  simp only [TableDef.storedRow, List.getElem_map, List.getElem_zipIdx, Nat.zero_add]

/-- What is behind the last column. -/
theorem getD_storedRow_ge (f : FloatOps) (hc : d.columns.length ≤ c) :
    (d.storedRow f values).getD c Value.init = Value.init := by
  rw [List.getD_eq_default]
  rw [TableDef.length_storedRow]
  exact hc

theorem storedRow_ext {us : List Value} (f : FloatOps) (hlen : us.length = d.columns.length)
    (h : ∀ c < d.columns.length, (values.getD c Value.init).stored f (d.typeOf c) = us.getD c Value.init) :
    d.storedRow f values = us := by
  refine List.ext_getElem (by rw [TableDef.length_storedRow, hlen]) fun c h₁ h₂ => ?_
  have hc : c < d.columns.length := by omega
  have heq := (getD_storedRow f hc).trans (h c hc)
  rw [List.getD_eq_getElem _ _ h₁, List.getD_eq_getElem _ _ h₂] at heq
  exact heq

/-- A row that was read is stored as it is. -/
theorem storedRow_storedRow (h : ops.Ieee) (d : TableDef) (values : List Value) :
    d.storedRow ops.toFloatOps (d.storedRow ops.toFloatOps values) = d.storedRow ops.toFloatOps values := by
  refine storedRow_ext _ (TableDef.length_storedRow ..) fun c hc => ?_
  rw [getD_storedRow _ hc, Value.stored_stored h]

/-- The columns of a stored row are stored values. -/
theorem stored_getD (hs : d.storedRow ops.toFloatOps values = values) (c : Nat) :
    (values.getD c Value.init).stored ops.toFloatOps (d.typeOf c) = values.getD c Value.init := by
  rcases Nat.lt_or_ge c d.columns.length with hc | hc
  · rw [← getD_storedRow _ hc, hs]
  · rw [← hs, getD_storedRow_ge _ hc, TableDef.typeOf_ge hc]
    rfl

/-! ## Definitions with one key -/

/-- The columns have the same types, and the same ones are the key. -/
structure TableDef.SameShape (d d' : TableDef) : Prop where
  types : d'.columns.map Column.type = d.columns.map Column.type
  several : 1 < d'.pkCols.length ↔ 1 < d.pkCols.length
  keyCols : d'.keyCols = d.keyCols

namespace TableDef.SameShape

theorem refl (d : TableDef) : d.SameShape d := ⟨rfl, Iff.rfl, rfl⟩

theorem trans {d'' : TableDef} (h : d.SameShape d') (h' : d'.SameShape d'') : d.SameShape d'' :=
  ⟨h'.types.trans h.types, h'.several.trans h.several, h'.keyCols.trans h.keyCols⟩

theorem length (h : d.SameShape d') : d'.columns.length = d.columns.length := by
  simpa using congrArg List.length h.types

theorem typeOf (h : d.SameShape d') : d'.typeOf = d.typeOf := by
  funext c
  have hc := congrArg (fun l => l[c]?) h.types
  simp only [List.getElem?_map] at hc
  rw [TableDef.typeOf, TableDef.typeOf, hc]

theorem storedRow (h : d.SameShape d') (f : FloatOps) (values : List Value) : d'.storedRow f values = d.storedRow f values := by
  refine storedRow_ext f ?_ fun c hc => ?_
  · rw [TableDef.length_storedRow, h.length]
  · rw [h.length] at hc
    rw [getD_storedRow f hc, h.typeOf]

end TableDef.SameShape

/-- What `catalog_save` writes of a definition and `catalog_load` reads. -/
theorem TableDef.reloaded_types (d : TableDef) : d.reloaded.columns.map Column.type = d.columns.map Column.type := by
  have hholds : Holds (Memory.writeAll (fun _ => 0) (d.writes 0)) (d.writes 0) := fun w hw =>
    (d.writes_ascending 0).read hw
  have hcols : d.reloaded.columns = _ := loadDef_columns hholds
  rw [hcols, List.map_map]
  refine List.ext_getElem (by simp) fun c h₁ h₂ => ?_
  rw [List.length_map] at h₂
  rw [List.getElem_map, List.getElem_map, List.getElem_range]
  exact (loadColumn_restored (hholds.right.left.column h₂)).same.type

/-- A key of column 0 survives a reload. -/
theorem TableDef.reloaded_sameShape (h : d.pkCols.length ≤ 1) : d.SameShape d.reloaded where
  types := d.reloaded_types
  several := by
    have hnil : d.reloaded.pkCols = [] := rfl
    rw [hnil]
    simp
    omega
  keyCols := by
    have hnil : d.reloaded.pkCols = [] := rfl
    rw [keyCols, keyCols, hnil, if_neg (by simp), if_neg (by omega)]

@[simp] theorem Column.retarget_type (c : Column) (old new : Text) : (c.retarget old new).type = c.type := by
  unfold Column.retarget
  split <;> rfl

@[simp] theorem Column.retarget_name (c : Column) (old new : Text) : (c.retarget old new).name = c.name := by
  unfold Column.retarget
  split <;> rfl

theorem TableDef.retarget_sameShape (d : TableDef) (old new : Text) : d.SameShape (d.retarget old new) where
  types := by
    rw [retarget, List.map_map]
    exact List.map_congr_left fun c _ => c.retarget_type old new
  several := Iff.rfl
  keyCols := by
    have hfind : (d.retarget old new).findColumn = d.findColumn := by
      funext name
      rw [findColumn, findColumn, retarget, List.findIdx?_map]
      congr 1
      funext c
      rw [Function.comp_apply, c.retarget_name]
    rw [keyCols, keyCols, hfind]
    rfl

end CustomDB
