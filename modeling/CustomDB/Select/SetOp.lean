import CustomDB.Lib.SetOps
import CustomDB.Select.Entry
import CustomDB.Rows.KeySpec

/-!
# Set operations

`execute_set_operation` runs over the cells of the first two branches of a chain and prints the operation of their
rows as texts. A row is put together in a buffer of 1024 bytes.
-/

namespace CustomDB

open Lib.SetOps

/-! ## The code -/

/-- A branch: a SELECT from a table, or without one. -/
structure SetBranch where
  list : SelectList
  tableName : Text
  whereClause : WhereClause

/-- A statement with its `set_op` and `set_rhs`. -/
inductive SetChain where
  | last (b : SetBranch)
  | link (b : SetBranch) (op : SetOp) (rhs : SetChain)

/-- The fields of the statement itself. -/
def SetChain.head : SetChain → SetBranch
  | .last b => b
  | .link b _ _ => b

section Code

variable (env : SelectEnv) (db : RowDb)

/-- The text of a value that is not NULL. -/
def branchText (type : ColumnType) (v : Value) : Text :=
  match type with
  | .int => printInt v.intVal
  | .float => env.printShort (if nonzero v.doubleVal then v.doubleVal else env.ops.widen v.floatVal)
  | .double | .numeric | .decimal => env.ops.printDouble v.doubleVal
  | .bool => if v.boolVal then txtTrue else txtFalse
  | _ => v.str

/-- The text of a selected item. -/
def setField (cols : List Column) (row : List Value) (sc : SelectCol) : Text :=
  let expr := env.evalExpr sc.colName cols row
  if 0 < expr.length then expr
  else
    match projectedColumn cols sc.colName with
    | none => printLiteral sc.colName
    | some c =>
      let v := row.getD c Value.init
      if sc.isCoalesce && v.isNull then sc.coalesceDefault
      else if v.isNull then txtNull
      else branchText env (typeAt cols c) v

/-- The texts of a row. -/
def setFields (list : SelectList) (cols : List Column) (row : List Value) : List Text :=
  if list.selectCols = [] then
    cols.zipIdx.map fun c =>
      let v := row.getD c.2 Value.init
      if v.isNull then txtNull else branchText env c.1.type v
  else list.selectCols.map (setField env cols row)

/-- The texts with commas between them, behind a bracket. -/
def joinFields (fields : List Text) : Text := 40 :: [44, 32].intercalate fields

/-- `format_projected_row_str` into 1024 bytes. The offset `o` may get to 1024: then the closing bracket, and at 1024
the last byte, is cut off. Behind that `out_size - o` wraps around and the buffer is overrun, `none`. -/
def formatProjectedRowStr (fields : List Text) : Option Text :=
  let text := joinFields fields
  if text.length ≤ 1024 then some ((text ++ [41]).take 1023) else none

/-- The rows `collect_select_rows` formats: all cells that match, whoever sees them. -/
def collectedFields (b : SetBranch) : List (List Text) :=
  if b.tableName = [] then [setFields env b.list [] []]
  else
    match (db.findTable b.tableName).bind fun i => db.tables[i]? with
    | none => []
    | some t => (collectSelectRows env.ops db t b.whereClause).map (setFields env b.list t.tableDef.columns)

/-- `collect_select_rows`. -/
def collectSetRows (b : SetBranch) : Option (List Text) := (collectedFields env db b).mapM formatProjectedRowStr

/-- The order of `str_ptr_cmp`, by the bytes as numbers. -/
def strLe (s t : Text) : Bool := (s.map fun b => (b.toNat : ℤ)) ≤ t.map fun b => (b.toNat : ℤ)

/-- `execute_set_operation`: the lines printed, `none` after a buffer overrun. Of the right side it takes the fields of
the statement itself only. -/
def executeSetOperation : SetChain → Option (List Text)
  | .last b => collectSetRows env db b
  | .link b op rhs => do
    let l ← collectSetRows env db b
    let r ← collectSetRows env db rhs.head
    some (execute strLe op l r)

end Code

/-! ## What a chain means -/

/-- A column of a result. -/
inductive OutValue where
  | null
  | int (x : BitVec 32)
  | float (d : BitVec 64)
  | double (d : BitVec 64)
  | bool (b : Bool)
  | text (s : Text)
  deriving DecidableEq

section Meaning

variable (env : SelectEnv) (db : RowDb) (snapshot now : Nat)

/-- The value of a column. -/
def outValue (type : ColumnType) (v : Value) : OutValue :=
  if v.isNull then .null
  else
    match type with
    | .int => .int v.intVal
    | .float => .float (if nonzero v.doubleVal then v.doubleVal else env.ops.widen v.floatVal)
    | .double | .numeric | .decimal => .double v.doubleVal
    | .bool => .bool v.boolVal
    | _ => .text v.str

/-- A text as a value: an integer where it is written as one. -/
def readText (s : Text) : OutValue := if printInt (atoi s) = s then .int (atoi s) else .text s

/-- The value of a name that is no column. -/
def outLiteral (name : Text) : OutValue :=
  if peek name = 39 ∨ peek name = 34 then .text (printLiteral name)
  else if printLiteral name = txtNull then .null
  else readText (printLiteral name)

/-- The value of a selected item. -/
def outField (cols : List Column) (row : List Value) (sc : SelectCol) : OutValue :=
  let expr := env.evalExpr sc.colName cols row
  if 0 < expr.length then readText expr
  else
    match projectedColumn cols sc.colName with
    | none => outLiteral sc.colName
    | some c =>
      let v := row.getD c Value.init
      if sc.isCoalesce && v.isNull then
        if typeAt cols c = .int then readText sc.coalesceDefault else .text sc.coalesceDefault
      else outValue env (typeAt cols c) v

/-- The tuple of a row. -/
def outTuple (list : SelectList) (cols : List Column) (row : List Value) : List OutValue :=
  if list.selectCols = [] then cols.zipIdx.map fun c => outValue env c.1.type (row.getD c.2 Value.init)
  else list.selectCols.map (outField env cols row)

/-- The tuples of a plain SELECT: of the rows that are visible and match. -/
def branchTuples (b : SetBranch) : Multiset (List OutValue) :=
  if b.tableName = [] then {outTuple env b.list [] []}
  else
    match (db.findTable b.tableName).bind fun i => db.tables[i]? with
    | none => 0
    | some t =>
      ((runSelectVm env.ops db t snapshot now b.whereClause).map (outTuple env b.list t.tableDef.columns) :
        List (List OutValue))

/-- The operations of a chain and the branches behind them. -/
def SetChain.rest : SetChain → List (SetOp × SetBranch)
  | .last _ => []
  | .link _ op rhs => (op, rhs.head) :: rhs.rest

/-- A chain from left to right. -/
def SetChain.tuples (c : SetChain) : Multiset (List OutValue) :=
  chain (branchTuples env db snapshot now c.head) (c.rest.map fun e => (e.1, branchTuples env db snapshot now e.2))

/-- The text of a column. -/
def OutValue.print : OutValue → Text
  | .null => txtNull
  | .int x => printInt x
  | .float d => env.printShort d
  | .double d => env.ops.printDouble d
  | .bool b => if b then txtTrue else txtFalse
  | .text s => s

/-- The line of a tuple. -/
def printTuple (tuple : List OutValue) : Text := joinFields (tuple.map (OutValue.print env)) ++ [41]

/-- The lines printed are the tuples of the chain, in some order. -/
def PrintsTuples (c : SetChain) (out : Option (List Text)) : Prop :=
  ∃ lines, out = some lines ∧ (lines : Multiset Text) = (c.tuples env db snapshot now).map (printTuple env)

end Meaning

/-! ## When they are the same -/

section Condition

variable (env : SelectEnv) (db : RowDb) (snapshot now : Nat)

/-- The lines that the stored rows of a branch make, cut at 1023 bytes. -/
def storedLines (b : SetBranch) : Multiset Text :=
  ((collectedFields env db b).map fun fields => (joinFields fields ++ [41]).take 1023 : List Text)

/-- The stored rows of the first two branches fit the buffer. The lines of the tuples of the whole chain are pairwise
different and are those that the stored rows of the first branch or, and, and not, of the second make; for UNION ALL
they are the lines of both. -/
structure LinesTell (c : SetChain) (b₁ b₂ : SetBranch) (op : SetOp) : Prop where
  fits : ∀ fields ∈ collectedFields env db b₁ ++ collectedFields env db b₂, (joinFields fields).length ≤ 1024
  lines : let r := (c.tuples env db snapshot now).map (printTuple env)
    if op = .unionAll then r = storedLines env db b₁ + storedLines env db b₂
    else r.Nodup ∧ ∀ x, x ∈ r ↔ op.Holds (x ∈ storedLines env db b₁) (x ∈ storedLines env db b₂)

end Condition

section Proof

variable {env : SelectEnv} {db : RowDb} {snapshot now : Nat}

/-- On strings it is that of `strcmp`, whose result is 0 for equal ones only. -/
theorem strLe_eq {s t : Text} (hs : 0 ∉ s) (ht : 0 ∉ t) : strLe s t = decide (strcmp s t ≠ .gt) := by
  have hcmp := strcmp_compares hs ht
  rw [strLe, decide_eq_decide, ne_eq, hcmp.eq_gt, not_lt]

theorem bytes_injective : Function.Injective fun s : Text => s.map fun b => (b.toNat : ℤ) :=
  List.map_injective_iff.mpr fun a b hab => UInt8.toNat_inj.mp (by exact_mod_cast hab)

theorem execute_strLe (op : SetOp) (l r : List Text) : (execute strLe op l r : Multiset Text) = op.apply ↑l ↑r := by
  refine execute_eq (fun a b hab hba => ?_) (fun a b c hab hbc => ?_) (fun a b => ?_) op l r
  · exact bytes_injective (le_antisymm (of_decide_eq_true hab) (of_decide_eq_true hba))
  · exact decide_eq_true ((of_decide_eq_true hab).trans (of_decide_eq_true hbc))
  · simpa [strLe] using le_total _ _

theorem mapM_cut (l : List (List Text)) : l.mapM formatProjectedRowStr =
    if ∀ fields ∈ l, (joinFields fields).length ≤ 1024 then
      some (l.map fun fields => (joinFields fields ++ [41]).take 1023) else none := by
  induction l with
  | nil => simp
  | cons fields l ih =>
    have hcons : (∀ f ∈ fields :: l, (joinFields f).length ≤ 1024) ↔
        (joinFields fields).length ≤ 1024 ∧ ∀ f ∈ l, (joinFields f).length ≤ 1024 := List.forall_mem_cons
    rw [List.mapM_cons, ih, formatProjectedRowStr]
    by_cases h : (joinFields fields).length ≤ 1024
    · by_cases h' : ∀ fields ∈ l, (joinFields fields).length ≤ 1024
      · rw [if_pos h, if_pos h', if_pos (hcons.mpr ⟨h, h'⟩)]
        rfl
      · rw [if_pos h, if_neg h', if_neg fun hall => h' (hcons.mp hall).2]
        rfl
    · rw [if_neg h, if_neg fun hall => h (hcons.mp hall).1]
      rfl

/-- The text of a row is that of its tuple. -/
theorem print_readText (s : Text) : (readText s).print env = s := by
  unfold readText
  split
  · next h => exact h
  · rfl

theorem print_outValue (type : ColumnType) (v : Value) :
    (outValue env type v).print env = if v.isNull then txtNull else branchText env type v := by
  unfold outValue
  cases v.isNull with
  | true => rfl
  | false => cases type <;> rfl

theorem print_outLiteral (name : Text) : (outLiteral name).print env = printLiteral name := by
  unfold outLiteral
  split
  · rfl
  · split
    · next h => exact h.symm
    · exact print_readText _

theorem print_outField (cols : List Column) (row : List Value) (sc : SelectCol) :
    (outField env cols row sc).print env = setField env cols row sc := by
  unfold outField setField
  dsimp only
  split
  · exact print_readText _
  · cases projectedColumn cols sc.colName with
    | none => exact print_outLiteral _
    | some c =>
      dsimp only
      split
      · split
        · exact print_readText _
        · rfl
      · exact print_outValue _ _

theorem setFields_eq (list : SelectList) (cols : List Column) (row : List Value) :
    setFields env list cols row = (outTuple env list cols row).map (OutValue.print env) := by
  unfold setFields outTuple
  split
  · rw [List.map_map]
    exact List.map_congr_left fun c _ => (print_outValue _ _).symm
  · rw [List.map_map]
    exact List.map_congr_left fun sc _ => (print_outField _ _ _).symm

/-- All rows of the branch that match are visible, and none is cut. -/
structure BranchPlain (env : SelectEnv) (db : RowDb) (snapshot now : Nat) (b : SetBranch) : Prop where
  shown : ∀ t, ((db.findTable b.tableName).bind fun i => db.tables[i]?) = some t →
    collectSelectRows env.ops db t b.whereClause = runSelectVm env.ops db t snapshot now b.whereClause
  short : ∀ fields ∈ collectedFields env db b, (joinFields fields).length ≤ 1022

theorem BranchPlain.lines {b : SetBranch} (h : BranchPlain env db snapshot now b) :
    storedLines env db b = (branchTuples env db snapshot now b).map (printTuple env) := by
  have hlines : storedLines env db b =
      ((collectedFields env db b).map fun fields => joinFields fields ++ [41] : List Text) := by
    refine congrArg _ (List.map_congr_left fun fields hf => List.take_of_length_le ?_)
    have := h.short fields hf
    rw [List.length_append, List.length_singleton]
    omega
  rw [hlines]
  unfold collectedFields branchTuples
  split
  · simp [setFields_eq, printTuple]
  · split
    · simp
    · next t ht =>
      rw [h.shown t ht, Multiset.map_coe, List.map_map, List.map_map]
      refine congrArg _ (List.map_congr_left fun row _ => ?_)
      simp [setFields_eq, printTuple]

/-- Where the rows of both branches are visible and short, different tuples of them are printed differently and the
other branches change nothing, the lines tell the tuples. -/
theorem linesTell_plain {b : SetBranch} {op : SetOp} {rhs : SetChain} (h₁ : BranchPlain env db snapshot now b)
    (h₂ : BranchPlain env db snapshot now rhs.head)
    (hrest : SetChain.tuples env db snapshot now (.link b op rhs) =
      op.apply (branchTuples env db snapshot now b) (branchTuples env db snapshot now rhs.head))
    (hinj : Set.InjOn (printTuple env)
      {x | x ∈ branchTuples env db snapshot now b ∨ x ∈ branchTuples env db snapshot now rhs.head}) :
    LinesTell env db snapshot now (.link b op rhs) b rhs.head op where
  fits fields hf := by
    rcases List.mem_append.mp hf with hf | hf
    · exact (h₁.short fields hf).trans (by decide)
    · exact (h₂.short fields hf).trans (by decide)
  lines := by
    rw [hrest, h₁.lines, h₂.lines]
    exact apply_eq_iff.mp (apply_map hinj)

end Proof

/-- `SELECT 1`, for a digit. -/
def selectDigit (digit : UInt8) : SetBranch := ⟨⟨[⟨[digit], false, []⟩], false, false, ⟨[], false, .notSet⟩, []⟩, [], noWhere⟩

end CustomDB
