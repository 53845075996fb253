import CustomDB.Lib.Iteration
import CustomDB.Lib.Integral
import CustomDB.Sql.Arith
import CustomDB.Sql.Cte
import CustomDB.Rows.Update
import CustomDB.Rows.Visible

/-!
# Recursive CTEs

`execute_statement` fills the table of a recursive CTE: the value of the anchor, and then turn by turn the value the
recursive SELECT makes of the one before, as long as that one passes its WHERE clause, for 10000 turns at most.
-/

namespace CustomDB

open Lib Lib.Iteration

/-! ## The loop -/

/-- `MAX_RECURSIVE_ITERATIONS`. -/
def maxRecursiveIterations : Nat := 10000

/-- What the loop reads of a recursive CTE: the first column of the anchor, where it has one, and of the recursive
SELECT the same and the WHERE clause. -/
structure RecursiveCte where
  cte : CteDef
  anchor : Option Text
  recStmt : Option (Option Text × WhereClause)

/-- The one value of a row. -/
def intCell (x : BitVec 32) : Value := { Value.init with intVal := x }

/-- A row in a cell. -/
def intVersion (x : BitVec 32) : Version := ⟨[intCell x], 0, 0, 0⟩

/-- `btree_find` and `btree_insert` of a row. -/
def RowTable.insertInt (ops : WhereOps) (t : RowTable) (x : BitVec 32) : RowTable :=
  t.btreeInsert ops (intCell x) (intVersion x)

section Loop

variable (ops : ArithOps) (calls : List Column → List Value → Text → Text) (db : RowDb) (r : RecursiveCte)

/-- `curr_val`. -/
def anchorValue : BitVec 32 :=
  match r.anchor with
  | none => 1
  | some s =>
    let out := evalExprString ops [] [] calls s
    if 0 < out.length then atoi out else atoi s

/-- `next_val`. -/
def nextValue (d : TableDef) (x : BitVec 32) : BitVec 32 :=
  let out := evalExprString ops d.columns [intCell x] calls ((r.recStmt.bind Prod.fst).getD [120, 43, 49])
  if 0 < out.length then atoi out else x + 1

/-- The loop goes on. The table stands behind the others already, so that the WHERE clause can name it. -/
def goesOn (t : RowTable) (x : BitVec 32) : Bool :=
  match r.recStmt with
  | none => false
  | some (_, wc) =>
    wc.hasWhere && evalWhereClause ops.toWhereOps { db with tables := db.tables ++ [t] } t [intCell x] wc

/-- At most `n` turns, with the value `x` before them. -/
def recursiveTurns : Nat → RowTable → BitVec 32 → RowTable
  | 0, t, _ => t
  | n + 1, t, x =>
    if goesOn ops db r t x then
      let y := nextValue ops calls r t.tableDef x
      recursiveTurns n (t.insertInt ops.toWhereOps y) y
    else t

/-- The table of the CTE. -/
def recursiveTable (root : BitVec 32) : RowTable :=
  let x := anchorValue ops calls r
  recursiveTurns ops calls db r maxRecursiveIterations (RowTable.insertInt ops.toWhereOps ⟨recursiveDef r.cte root, []⟩ x) x

end Loop

/-! ## The rows -/

section Rows

variable {ops : WhereOps} {t : RowTable} {xs : List (BitVec 32)} {x : BitVec 32}

/-- The cells hold the values, in the order of the keys. -/
def HoldsInts (t : RowTable) (xs : List (BitVec 32)) : Prop :=
  ∃ ys : List (BitVec 32), ys.Perm xs ∧ Ranked.Sorted BitVec.toInt ys ∧ t.cells = ys.map intVersion

/-- The table has one column, an INT. -/
def IntTable (t : RowTable) : Prop := t.tableDef.columns.map Column.type = [.int]

theorem IntTable.typeOf (ht : IntTable t) : t.tableDef.typeOf 0 = .int := by
  have hat := congrArg (fun l => l[0]?) ht
  rw [List.getElem?_map] at hat
  rw [TableDef.typeOf, hat]
  rfl

theorem IntTable.storedRow (ht : IntTable t) (f : FloatOps) (x : BitVec 32) :
    t.tableDef.storedRow f [intCell x] = [intCell x] := by
  have hlen : t.tableDef.columns.length = 1 := by simpa using congrArg List.length ht
  refine storedRow_ext f hlen.symm fun c hc => ?_
  obtain rfl : c = 0 := by omega
  rw [ht.typeOf]
  rfl

theorem HoldsInts.insertInt (ht : IntTable t) (h : HoldsInts t xs) (x : BitVec 32) :
    HoldsInts (t.insertInt ops x) (x :: xs) := by
  obtain ⟨ys, hperm, hsorted, hcells⟩ := h
  set below : BitVec 32 → Bool := fun y => decide (y.toInt < x.toInt) with hbelow
  have hfind : t.btreeFind ops (intCell x) = (ys.takeWhile below).length := by
    have hsame : ((fun v => decide (t.compareCell ops (intCell x) v = .lt)) ∘ intVersion) = below := by
      funext y
      unfold RowTable.compareCell
      rw [ht.typeOf, Function.comp_apply, hbelow, decide_eq_decide]
      exact compareCol0_int ops _ _
    unfold RowTable.btreeFind
    rw [hcells, List.takeWhile_map, List.length_map, hsame]
  refine ⟨ys.insertIdx (ys.takeWhile below).length x, ?_, ?_, ?_⟩
  · exact (List.perm_insertIdx _ _ (List.takeWhile_sublist _).length_le).trans (hperm.cons x)
  · exact hsorted.insert (fun y _ => decide_eq_true_iff) rfl
  · show t.cells.insertIdx (t.btreeFind ops (intCell x)) _ = _
    have hnew : ({ intVersion x with values := t.tableDef.storedRow ops.toFloatOps [intCell x] } : Version) =
        intVersion x := by
      rw [ht.storedRow]
      rfl
    rw [hfind, hcells, List.map_insertIdx]
    exact congrArg _ hnew

theorem HoldsInts.foldl (ht : IntTable t) (h : HoldsInts t xs) (l : List (BitVec 32)) :
    HoldsInts (l.foldl (RowTable.insertInt ops) t) (l.reverse ++ xs) := by
  induction l generalizing t xs with
  | nil => exact h
  | cons x l ih =>
    rw [List.foldl_cons, List.reverse_cons, List.append_assoc]
    exact ih ht (h.insertInt ht x)

end Rows

/-! ## The turns -/

section Turns

variable {ops : ArithOps} {calls : List Column → List Value → Text → Text} {db : RowDb} {r : RecursiveCte} {d : TableDef}

/-- The loop inserts what the iteration makes, where the WHERE clause depends on the value alone. -/
theorem recursiveTurns_eq {go : BitVec 32 → Bool}
    (hgo : ∀ t : RowTable, t.tableDef = d → ∀ x, goesOn ops db r t x = go x) (n : Nat) :
    ∀ (t : RowTable) (x : BitVec 32), t.tableDef = d → recursiveTurns ops calls db r n t x =
      (bounded go (nextValue ops calls r d) n x).tail.foldl (RowTable.insertInt ops.toWhereOps) t := by
  induction n with
  | zero => exact fun t x _ => rfl
  | succ n ih =>
    intro t x ht
    rw [recursiveTurns, bounded, hgo t ht]
    by_cases hx : go x = true
    · rw [if_pos hx, if_pos hx, List.tail_cons]
      dsimp only
      rw [ih (t.insertInt ops.toWhereOps _) _ ht, ht]
      obtain ⟨m, hm⟩ := bounded_head go (nextValue ops calls r d) n (nextValue ops calls r d x)
      rw [hm]
      rfl
    · rw [if_neg hx, if_neg hx]
      rfl

/-! ## The condition -/

/-- A condition reads no tables but those its subquery names. -/
theorem evalCond_tables {ops : WhereOps} {subs subs' : SubTables} {c : SingleCond}
    (h : (c.isSubquery || c.isExists || c.isNotExists) = true → subs c.subTable = subs' c.subTable)
    (cols : List Column) (vals : List Value) : evalCond ops subs cols vals c = evalCond ops subs' cols vals c := by
  unfold evalCond
  by_cases hexists : (c.isExists || c.isNotExists) = true
  · rw [h (by rw [Bool.or_assoc, hexists, Bool.or_true])]
  · rw [if_neg hexists, if_neg hexists]
    by_cases hsub : c.isSubquery = true
    · rw [h (by simp [hsub])]
    · simp only [hsub, Bool.false_eq_true, if_false]

/-- No subquery of the clause reads the table `name`. -/
def LeavesAlone (wc : WhereClause) (name : Text) : Prop :=
  ∀ c ∈ wc.conds, (c.isSubquery || c.isExists || c.isNotExists) = true → c.subTable ≠ name

instance (wc : WhereClause) (name : Text) : Decidable (LeavesAlone wc name) := by
  unfold LeavesAlone
  infer_instance

/-- The value passes the WHERE clause, the table of the CTE being no part of the database. -/
def passes (ops : ArithOps) (db : RowDb) (cte : CteDef) (root : BitVec 32) (wc : WhereClause) (x : BitVec 32) : Bool :=
  evalWhereClause ops.toWhereOps db ⟨recursiveDef cte root, []⟩ [intCell x] wc

theorem goesOn_eq {root : BitVec 32} {step : Option Text} {wc : WhereClause} (hrec : r.recStmt = some (step, wc))
    (hwhere : wc.hasWhere = true) (halone : LeavesAlone wc (recursiveDef r.cte root).name.str) {t : RowTable}
    (ht : t.tableDef = recursiveDef r.cte root) (x : BitVec 32) : goesOn ops db r t x = passes ops db r.cte root wc x := by
  have hsubs : ∀ name, name ≠ t.tableDef.name.str →
      RowDb.subTables { db with tables := db.tables ++ [t] } name = db.subTables name := by
    intro name hname
    unfold RowDb.subTables
    rw [List.find?_append, List.find?_singleton, if_neg (by simpa using Ne.symm hname), Option.or_none]
  unfold goesOn passes evalWhereClause evalWhereClauseCols
  rw [hrec]
  dsimp only
  rw [hwhere, Bool.true_and, ht]
  have hconds : wc.conds.map (evalCond ops.toWhereOps (RowDb.subTables { db with tables := db.tables ++ [t] })
      (recursiveDef r.cte root).columns [intCell x]) =
      wc.conds.map (evalCond ops.toWhereOps db.subTables (recursiveDef r.cte root).columns [intCell x]) := by
    refine List.map_congr_left fun c hc => evalCond_tables (fun hsub => ?_) _ _
    exact hsubs _ (by rw [ht]; exact halone c hc hsub)
  rw [hconds]

/-! ## The result -/

/-- A constant that makes one INT of another has at most their size. -/
theorem ArithOp.Gives.const_le {op : ArithOp} {c x y : ℤ} (h : op.Gives c x y) (hne : x ≠ y) {B : ℤ}
    (hx : |x| ≤ B) (hy : |y| ≤ B) :
    |c| ≤ 2 * B := by
  cases op with
  | add =>
    obtain rfl : y = x + c := h
    rw [abs_le] at *
    omega
  | sub =>
    obtain rfl : y = x - c := h
    rw [abs_le] at *
    omega
  | mul =>
    obtain rfl : y = x * c := h
    have hx0 : x ≠ 0 := fun h0 => hne (by rw [h0, zero_mul])
    have hle : |c| ≤ |x * c| := by
      rw [abs_mul]
      exact le_mul_of_one_le_left (abs_nonneg c) (Int.one_le_abs hx0)
    have hB := abs_nonneg c
    omega
  | div =>
    obtain ⟨-, rfl⟩ : c ≠ 0 ∧ x = y * c := h
    have hy0 : y ≠ 0 := fun h0 => hne (by rw [h0, zero_mul])
    have hle : |c| ≤ |y * c| := by
      rw [abs_mul]
      exact le_mul_of_one_le_left (abs_nonneg c) (Int.one_le_abs hy0)
    have hB := abs_nonneg c
    omega

/-- The column's name as it is stored. -/
def recursiveColumn (cte : CteDef) : Text :=
  (CharArray.print CharArray.pos32 (if 0 < cte.colName.length then cte.colName else [120])).str

theorem recursiveDef_columns (cte : CteDef) (root : BitVec 32) :
    ∃ c, (recursiveDef cte root).columns = [c] ∧ c.name.str = recursiveColumn cte ∧ c.type = .int := ⟨_, rfl, rfl, rfl⟩

theorem toInt_ofInt {x : ℤ} (h : -2 ^ 31 ≤ x ∧ x < 2 ^ 31) : (BitVec.ofInt 32 x).toInt = x := by
  rw [BitVec.toInt_ofInt]
  exact Int.bmod_eq_of_le (by omega) (by omega)

theorem abs_le_of_fits {x : ℤ} (h : -2 ^ 31 ≤ x ∧ x < 2 ^ 31) : |x| ≤ 2 ^ 31 := by
  rw [abs_le]
  omega

theorem anchorValue_eq {a : IntLiteral} (hanchor : r.anchor = some a.text) (h : -2 ^ 31 ≤ a.value ∧ a.value < 2 ^ 31) :
    anchorValue ops calls r = BitVec.ofInt 32 a.value := by
  unfold anchorValue
  rw [hanchor]
  dsimp only
  rw [a.eval_text, if_neg (by simp), a.atoi_text h]

/-- A turn computes the step. -/
theorem nextValue_eq (ho : ops.Exact) {e : StepExpr} {wc : WhereClause} (hcol : ExprColumn (recursiveColumn r.cte))
    (he : e.Readable (recursiveColumn r.cte)) (hrec : r.recStmt = some (some (e.text (recursiveColumn r.cte)), wc))
    (root : BitVec 32) {x y : ℤ} (hx : -2 ^ 31 ≤ x ∧ x < 2 ^ 31) (hy : -2 ^ 31 ≤ y ∧ y < 2 ^ 31) (hne : x ≠ y)
    (hgives : e.op.Gives e.const.value x y) :
    nextValue ops calls r (recursiveDef r.cte root) (BitVec.ofInt 32 x) = BitVec.ofInt 32 y := by
  have hvalue : (intCell (BitVec.ofInt 32 x)).intVal.toInt = x := toInt_ofInt hx
  have hconst := hgives.const_le hne (abs_le_of_fits hx) (abs_le_of_fits hy)
  obtain ⟨c, hcols, hname, htype⟩ := recursiveDef_columns r.cte root
  have heval := StepExpr.eval_text ho hcol he hname htype (v := intCell (BitVec.ofInt 32 x)) (y := y) (by rwa [hvalue])
    (hconst.trans (by decide)) hy calls
  unfold nextValue
  rw [hrec]
  dsimp only [Option.bind_some, Option.getD_some]
  rw [hcols, heval, if_pos (List.length_pos_iff.mpr (printInt_ne_nil _)), atoi_printInt]

/-- The iteration of a CTE: from the anchor's value on, each value passing the WHERE clause has the step's result
behind it. -/
abbrev CteIteration (ops : ArithOps) (db : RowDb) (cte : CteDef) (root : BitVec 32) (wc : WhereClause) (e : StepExpr)
    (x : ℤ) (l : List ℤ) : Prop :=
  Orbit (fun x => passes ops db cte root wc (BitVec.ofInt 32 x) = true) (e.op.Gives e.const.value) x l

/-- What the loop is about: the anchor is a number, the recursive SELECT a step with a WHERE clause, each as the
evaluator can read it. -/
structure ReadableCte (r : RecursiveCte) (a : IntLiteral) (e : StepExpr) (wc : WhereClause) (root : BitVec 32) : Prop where
  column : ExprColumn (recursiveColumn r.cte)
  step : e.Readable (recursiveColumn r.cte)
  anchor : r.anchor = some a.text
  recStmt : r.recStmt = some (some (e.text (recursiveColumn r.cte)), wc)
  hasWhere : wc.hasWhere = true
  alone : LeavesAlone wc (recursiveDef r.cte root).name.str

variable {a : IntLiteral} {e : StepExpr} {wc : WhereClause} {root : BitVec 32} {l : List ℤ}

/-- The values the loop makes are the first ones of the iteration. -/
theorem ReadableCte.bounded_eq (hr : ReadableCte r a e wc root) (ho : ops.Exact)
    (hl : CteIteration ops db r.cte root wc e a.value l) (hfit : ∀ x ∈ l, -2 ^ 31 ≤ x ∧ x < 2 ^ 31) (n : Nat) :
    bounded (passes ops db r.cte root wc) (nextValue ops calls r (recursiveDef r.cte root)) n (BitVec.ofInt 32 a.value) =
      (l.take (n + 1)).map (BitVec.ofInt 32) :=
  Orbit.bounded_eq hl (hl.nodup ArithOp.Gives.unique) (fun _ _ => Iff.rfl)
    (fun x hx y hy hne hgives => nextValue_eq ho hr.column hr.step hr.recStmt root (hfit x hx) (hfit y hy) hne hgives) n

/-- The table holds what the loop makes. -/
theorem ReadableCte.holds (hr : ReadableCte r a e wc root) (ho : ops.Exact)
    (hl : CteIteration ops db r.cte root wc e a.value l) (hfit : ∀ x ∈ l, -2 ^ 31 ≤ x ∧ x < 2 ^ 31) :
    HoldsInts (recursiveTable ops calls db r root) ((l.take (maxRecursiveIterations + 1)).map (BitVec.ofInt 32)).reverse := by
  have hint : ∀ x, IntTable (RowTable.insertInt ops.toWhereOps ⟨recursiveDef r.cte root, []⟩ x) := fun _ => rfl
  have hfirst : -2 ^ 31 ≤ a.value ∧ a.value < 2 ^ 31 := by
    obtain ⟨m, hm⟩ := hl.eq_cons
    exact hfit _ (hm ▸ List.mem_cons_self)
  have hvalues : bounded _ (nextValue ops calls r _) _ _ = _ := hr.bounded_eq ho hl hfit maxRecursiveIterations
  obtain ⟨m, hm⟩ := bounded_head (passes ops db r.cte root wc) (nextValue ops calls r (recursiveDef r.cte root))
    maxRecursiveIterations (BitVec.ofInt 32 a.value)
  have hempty : HoldsInts ⟨recursiveDef r.cte root, []⟩ [] := ⟨[], List.Perm.refl _, List.Pairwise.nil, rfl⟩
  have hanchor : HoldsInts (RowTable.insertInt ops.toWhereOps ⟨recursiveDef r.cte root, []⟩ (BitVec.ofInt 32 a.value)) _ :=
    hempty.insertInt (rfl : IntTable ⟨recursiveDef r.cte root, []⟩) _
  unfold recursiveTable
  dsimp only
  rw [anchorValue_eq hr.anchor hfirst,
    recursiveTurns_eq (fun t ht x => goesOn_eq hr.recStmt hr.hasWhere hr.alone ht x) maxRecursiveIterations _ _ rfl, hm, ← hvalues, hm]
  rw [List.tail_cons, List.reverse_cons]
  exact hanchor.foldl (hint _) m

/-- Over a readable step whose iteration stops and fits into 32 bits, the rows are the first 10001 values of the
iteration, in the order of the keys. -/
theorem recursive_rows (ops : ArithOps) (calls : List Column → List Value → Text → Text) (db : RowDb) (r : RecursiveCte)
    (a : IntLiteral) (e : StepExpr) (wc : WhereClause) (root : BitVec 32) (l : List ℤ) (ho : ops.Exact)
    (hr : ReadableCte r a e wc root) (hl : CteIteration ops db r.cte root wc e a.value l)
    (hfit : ∀ x ∈ l, -2 ^ 31 ≤ x ∧ x < 2 ^ 31) :
    ∃ rows : List ℤ, rows.Perm (l.take (maxRecursiveIterations + 1)) ∧ rows.Pairwise (· < ·) ∧
      (recursiveTable ops calls db r root).cells = rows.map fun x => intVersion (BitVec.ofInt 32 x) := by
  have hheld : HoldsInts (recursiveTable ops calls db r root) _ := hr.holds ho hl hfit
  obtain ⟨ys, hperm, hsorted, hcells⟩ := hheld
  have htake : ∀ x ∈ l.take (maxRecursiveIterations + 1), -2 ^ 31 ≤ x ∧ x < 2 ^ 31 := fun x hx => hfit x (List.mem_of_mem_take hx)
  have hrows : (ys.map BitVec.toInt).Perm (l.take (maxRecursiveIterations + 1)) := by
    have hmap := (hperm.trans (List.reverse_perm _)).map BitVec.toInt
    rw [List.map_map] at hmap
    have hid : (l.take (maxRecursiveIterations + 1)).map (BitVec.toInt ∘ BitVec.ofInt 32) =
        (l.take (maxRecursiveIterations + 1)).map id := List.map_congr_left fun x hx => toInt_ofInt (htake x hx)
    rwa [hid, List.map_id] at hmap
  have hnodup : (ys.map BitVec.toInt).Nodup :=
    hrows.nodup_iff.mpr ((hl.nodup ArithOp.Gives.unique).sublist (List.take_sublist _ _))
  refine ⟨ys.map BitVec.toInt, hrows, ?_, ?_⟩
  · have hle : (ys.map BitVec.toInt).Pairwise (· ≤ ·) := List.pairwise_map.mpr hsorted
    exact (hle.and hnodup).imp fun h => lt_of_le_of_ne h.1 h.2
  · rw [hcells, List.map_map]
    refine List.map_congr_left fun y _ => ?_
    rw [Function.comp_apply, BitVec.ofInt_toInt]

end Turns

/-! ## Long iterations -/

/-- Doubles that are integers, with the results next to 0 where they are not. -/
def exactOps : ArithOps where
  toWhereOps := { intOps with
    doubleOfInt := fun x => Integral.encode x.toInt
    atof := fun s => Integral.encode (if peek s = 45 then -decimal (s.drop 1) else decimal s)
    eqDouble := fun d e => Integral.decode d = Integral.decode e }
  doubleOfLong := Integral.encode
  longOfDouble := Integral.decode
  add d e := Integral.encode (Integral.decode d + Integral.decode e)
  sub d e := Integral.encode (Integral.decode d - Integral.decode e)
  mul d e := Integral.encode (Integral.decode d * Integral.decode e)
  div d e := Integral.encode (Integral.decode d / Integral.decode e)

theorem exactOps_has {d : BitVec 64} {n : ℤ} (hn : |n| ≤ 2 ^ 53) : exactOps.Has d n ↔ Integral.decode d = n := by
  refine ⟨fun h => h.1, fun h => ⟨h, ?_⟩⟩
  exact decide_eq_true ((Integral.decode_encode hn).trans h.symm)

theorem exactOps_encode {n : ℤ} (hn : |n| ≤ 2 ^ 53) : exactOps.Has (Integral.encode n) n :=
  (exactOps_has hn).mpr (Integral.decode_encode hn)

theorem exactOps_exact : exactOps.Exact where
  ofInt x := exactOps_encode (by
    have hlt := @BitVec.toInt_lt 32 x
    have hle := @BitVec.le_toInt 32 x
    rw [abs_le]
    omega)
  atof k hk := by
    have hvalue : (if peek k.text = 45 then -decimal (k.text.drop 1) else decimal k.text) = k.value := by
      obtain ⟨b, s, hs, hb⟩ := k.head_digit
      unfold IntLiteral.text IntLiteral.value
      by_cases hneg : k.negative = true
      · rw [if_pos hneg, if_pos hneg]
        rfl
      · rw [if_neg hneg, if_neg hneg, hs, peek_cons, if_neg (plain_of_isdigit hb).2.1]
    show exactOps.Has (Integral.encode (if peek k.text = 45 then _ else _)) k.value
    rw [hvalue]
    exact exactOps_encode hk
  add hd he _ _ hsum := by
    rw [← hd.1, ← he.1] at hsum ⊢
    exact exactOps_encode hsum
  sub hd he _ _ hdiff := by
    rw [← hd.1, ← he.1] at hdiff ⊢
    exact exactOps_encode hdiff
  mul hd he _ _ hprod := by
    rw [← hd.1, ← he.1] at hprod ⊢
    exact exactOps_encode hprod
  div {d e m n} hd he hne hprod _ := by
    have hm : |m| ≤ 2 ^ 53 := by
      refine le_trans ?_ hprod
      rw [abs_mul]
      exact le_mul_of_one_le_right (abs_nonneg m) (Int.one_le_abs hne)
    have hquot : Integral.decode d / Integral.decode e = m := by
      rw [show Integral.decode d = m * n from hd.1, show Integral.decode e = n from he.1, Int.mul_ediv_cancel _ hne]
    show exactOps.Has (Integral.encode (Integral.decode d / Integral.decode e)) m
    rw [hquot]
    exact exactOps_encode hm
  nonzero hd hne := decide_eq_false fun h => hne (hd.1.symm.trans h)

/-- WHERE x < 20000. -/
def belowLimit : WhereClause := ⟨true, [WrittenCond.condOf [120] .lt [50, 48, 48, 48, 48] []], []⟩

/-- WITH RECURSIVE c AS (SELECT 1 UNION ALL SELECT x+1 FROM c WHERE x < 20000). -/
def longCte : RecursiveCte :=
  ⟨⟨[99], [], true, []⟩, some [49], some (some [120, 43, 49], belowLimit)⟩

theorem digit_one : ∀ b ∈ ([49] : Text), isdigit b = true := by decide +kernel

def literalOne : IntLiteral := ⟨false, [49], List.cons_ne_nil _ _, digit_one⟩

def plusOne : StepExpr := ⟨noBlank, .add, noBlank, literalOne⟩

def noTables : RowDb := ⟨[], none, false, 0, false⟩

theorem longCte_readable : ReadableCte longCte literalOne plusOne belowLimit 33 :=
  ⟨⟨by decide +kernel, by decide +kernel, by decide +kernel, by decide +kernel⟩,
    ⟨by decide +kernel, by decide +kernel, by decide +kernel, by decide +kernel⟩, rfl, rfl, rfl, by decide +kernel⟩

theorem passes_below (x : BitVec 32) : passes exactOps noTables longCte.cte 33 belowLimit x = true ↔ x.toInt < 20000 := by
  have hlimit : atoi [50, 48, 48, 48, 48] = 20000 := by decide +kernel
  have hfind : findColumnCI (recursiveDef longCte.cte 33).columns [120] = some 0 := by decide +kernel
  obtain ⟨c, hcols, -, htype⟩ := recursiveDef_columns longCte.cte 33
  have heval : evalOnColumn exactOps.toWhereOps (WrittenCond.condOf [120] .lt [50, 48, 48, 48, 48] []) c (intCell x) =
      opHolds .lt (signOf ((20000 : BitVec 32).slt x) (x.slt 20000)) := by
    unfold evalOnColumn
    rw [htype]
    simp only [WrittenCond.condOf, filterValue, hlimit]
    rfl
  have hcond : evalCond exactOps.toWhereOps noTables.subTables (recursiveDef longCte.cte 33).columns [intCell x]
      (WrittenCond.condOf [120] .lt [50, 48, 48, 48, 48] []) = opHolds .lt (signOf ((20000 : BitVec 32).slt x) (x.slt 20000)) := by
    unfold evalCond
    rw [if_neg (by decide)]
    rw [show (WrittenCond.condOf [120] .lt [50, 48, 48, 48, 48] []).colName = [120] from rfl, hfind, hcols]
    exact heval
  have hclause : passes exactOps noTables longCte.cte 33 belowLimit x = evalCond exactOps.toWhereOps noTables.subTables
      (recursiveDef longCte.cte 33).columns [intCell x] (WrittenCond.condOf [120] .lt [50, 48, 48, 48, 48] []) := by
    unfold passes evalWhereClause evalWhereClauseCols
    rw [if_neg (by decide)]
    rfl
  rw [hclause, hcond]
  show decide (signOf _ _ = .lt) = true ↔ _
  rw [decide_eq_true_iff, signOf_lt, BitVec.slt_eq_decide, BitVec.slt_eq_decide, decide_eq_false_iff_not, decide_eq_true_iff]
  have h20000 : (20000 : BitVec 32).toInt = 20000 := by decide
  omega

/-- Counting from `a` on. -/
theorem counting {k : ℕ} : ∀ {a : ℤ}, a + k = 20000 → -2 ^ 31 ≤ a →
    CteIteration exactOps noTables longCte.cte 33 belowLimit plusOne a ((List.range (k + 1)).map fun i : ℕ => a + (i : ℤ)) := by
  have hpasses : ∀ {a : ℤ}, a ≤ 20000 → -2 ^ 31 ≤ a →
      (passes exactOps noTables longCte.cte 33 belowLimit (BitVec.ofInt 32 a) = true ↔ a < 20000) := by
    intro a hle hge
    rw [passes_below, toInt_ofInt ⟨hge, by omega⟩]
  induction k with
  | zero =>
    intro a ha hge
    have hlist : (List.range (0 + 1)).map (fun i : ℕ => a + (i : ℤ)) = [a] := by simp
    rw [hlist]
    refine .last fun hgo => ?_
    have := (hpasses (by omega) hge).mp hgo
    omega
  | succ k ih =>
    intro a ha hge
    have hlist : (List.range (k + 1 + 1)).map (fun i : ℕ => a + (i : ℤ)) = a :: (List.range (k + 1)).map fun i : ℕ => a + 1 + (i : ℤ) := by
      rw [List.range_succ_eq_map, List.map_cons, List.map_map]
      simp [add_comm, add_left_comm]
    rw [hlist]
    refine .more ((hpasses (by omega) hge).mpr (by omega)) ?_ (ih (by omega) (by omega))
    show a + 1 = a + plusOne.const.value
    rfl

/-- No function is called. -/
def noCalls (_ : List Column) (_ : List Value) (_ : Text) : Text := []

/-- The numbers from 1 to 20000. -/
def upTo20000 : List ℤ := (List.range (19999 + 1)).map fun i : ℕ => 1 + (i : ℤ)

theorem upTo20000_fits : ∀ x ∈ upTo20000, -2 ^ 31 ≤ x ∧ x < 2 ^ 31 := by
  intro x hx
  obtain ⟨i, hi, rfl⟩ := List.mem_map.mp hx
  have hlt := List.mem_range.mp hi
  omega

theorem upTo20000_length : upTo20000.length = 20000 := by rw [upTo20000, List.length_map, List.length_range]

theorem upTo20000_iterates : CteIteration exactOps noTables longCte.cte 33 belowLimit plusOne 1 upTo20000 :=
  counting rfl (by decide)

/-- The table of `longCte` has 10001 of the 20000 rows. -/
theorem longCte_cells : (recursiveTable exactOps noCalls noTables longCte 33).cells.length = 10001 := by
  have hheld : HoldsInts (recursiveTable exactOps noCalls noTables longCte 33) _ :=
    longCte_readable.holds exactOps_exact upTo20000_iterates upTo20000_fits
  obtain ⟨ys, hperm, -, hcells⟩ := hheld
  rw [hcells, List.length_map, hperm.length_eq, List.length_reverse, List.length_map, List.length_take, upTo20000_length]
  decide

/-- From 1 up to 20000 the loop gives up halfway. -/
theorem long_iteration_cut : CteIteration exactOps noTables longCte.cte 33 belowLimit plusOne 1 upTo20000 ∧
    upTo20000.length = 20000 ∧ (recursiveTable exactOps noCalls noTables longCte 33).cells.length = 10001 ∧
    ¬ ∀ (ops : ArithOps) (calls : List Column → List Value → Text → Text) (db : RowDb) (r : RecursiveCte) (a : IntLiteral)
      (e : StepExpr) (wc : WhereClause) (root : BitVec 32) (l : List ℤ), ops.Exact → ReadableCte r a e wc root →
      CteIteration ops db r.cte root wc e a.value l → (∀ x ∈ l, -2 ^ 31 ≤ x ∧ x < 2 ^ 31) →
      ∃ rows : List ℤ, rows.Perm l ∧
        (recursiveTable ops calls db r root).cells = rows.map fun x => intVersion (BitVec.ofInt 32 x) := by
  refine ⟨upTo20000_iterates, upTo20000_length, longCte_cells, fun h => ?_⟩
  obtain ⟨rows, hperm, hcells⟩ := h exactOps noCalls noTables longCte literalOne plusOne belowLimit 33 upTo20000 exactOps_exact
    longCte_readable upTo20000_iterates upTo20000_fits
  have hlen := congrArg List.length hcells
  rw [longCte_cells, List.length_map, hperm.length_eq, upTo20000_length] at hlen
  exact absurd hlen (by decide)

/-! ## A descending step -/

theorem digit_ten : ∀ b ∈ ([49, 48] : Text), isdigit b = true := by decide +kernel

theorem digit_three : ∀ b ∈ ([51] : Text), isdigit b = true := by decide +kernel

def literalTen : IntLiteral := ⟨false, [49, 48], List.cons_ne_nil _ _, digit_ten⟩

/-- - 3. -/
def minusThree : StepExpr := ⟨space, .sub, space, ⟨false, [51], List.cons_ne_nil _ _, digit_three⟩⟩

/-- WHERE x > 0 and x < 20000. -/
def positive : WhereClause :=
  ⟨true, [WrittenCond.condOf [120] .gt [48] [], WrittenCond.condOf [120] .lt [50, 48, 48, 48, 48] []], [.and]⟩

/-- WITH RECURSIVE c AS (SELECT 10 UNION ALL SELECT x - 3 FROM c WHERE x > 0 and x < 20000). -/
def descendingCte : RecursiveCte :=
  ⟨⟨[99], [], true, []⟩, some [49, 48], some (some [120, 32, 45, 32, 51], positive)⟩

/-- The rows are -2, 1, 4, 7 and 10. -/
theorem recursive_rows_descending : ∃ rows : List ℤ, rows.Perm ([10, 7, 4, 1, -2].take (maxRecursiveIterations + 1)) ∧
    rows.Pairwise (· < ·) ∧ (recursiveTable exactOps noCalls noTables descendingCte 33).cells =
      rows.map fun x => intVersion (BitVec.ofInt 32 x) :=
  recursive_rows exactOps noCalls noTables descendingCte literalTen minusThree positive 33 [10, 7, 4, 1, -2] exactOps_exact
    ⟨⟨by decide +kernel, by decide +kernel, by decide +kernel, by decide +kernel⟩,
      ⟨by decide +kernel, by decide +kernel, by decide +kernel, by decide +kernel⟩, rfl, rfl, rfl, by decide +kernel⟩
    (.more (by decide +kernel) rfl (.more (by decide +kernel) rfl (.more (by decide +kernel) rfl
      (.more (by decide +kernel) rfl (.last (by decide +kernel))))))
    (by decide)

end CustomDB
