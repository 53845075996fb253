import CustomDB.Select.Group
import CustomDB.Rows.KeySpec
import CustomDB.Lib.Integral

/-!
# The groups of a SELECT

The aggregates of the rows of a group, and when GROUP BY prints one row with them for each group that satisfies HAVING.
-/

namespace CustomDB

open Lib.Grouped

/-! ## The aggregates of a group -/


section Spec

variable (ops : AggOps) (ofInt : ℤ → BitVec 64) (d : TableDef) (stmt : GroupStmt)

/-- The values of an INT column that are not NULL. -/
def columnInts (c : Nat) (rows : List (List Value)) : List ℤ :=
  (rows.filter fun row => !(row.getD c Value.init).isNull).map fun row => (row.getD c Value.init).intVal.toInt

/-- An aggregate of the rows of a group; an average, a minimum or a maximum of nothing is none. -/
def aggregate (f : AggFunc) (name : Text) (rows : List (List Value)) : Option (BitVec 64) :=
  let xs := ((findColumn d.columns name).map fun c => columnInts c rows).getD []
  match f with
  | .countStar => some (ofInt rows.length)
  | .count => some (ofInt xs.length)
  | .sum => some (ofInt xs.sum)
  | .avg => if xs = [] then none else some (ops.divDouble (ofInt xs.sum) (ofInt xs.length))
  | .min => xs.min?.map ofInt
  | .max => xs.max?.map ofInt
  | .none => none

/-- The field an aggregate is printed as. -/
def aggregateText (f : AggFunc) (name : Text) (rows : List (List Value)) : Option Text :=
  let xs := ((findColumn d.columns name).map fun c => columnInts c rows).getD []
  match f with
  | .countStar => some (printCount rows.length)
  | .count => some (printCount xs.length)
  | f => (aggregate ops ofInt d f name rows).map ops.printFixed

/-- The group satisfies HAVING: its aggregate has a value and the comparison holds. -/
def Satisfies (rows : List (List Value)) : Prop :=
  stmt.hasHaving = true → ∃ h, aggregate ops ofInt d stmt.havingFunc stmt.havingCol rows = some h ∧
    havingHolds ops stmt h (ops.atof stmt.havingVal) = true

/-- The fields of a row are the aggregates that have a value. -/
def FieldsRight (rows : List (List Value)) (fields : List Text) : Prop :=
  List.Forall₂ (fun sc text => ∀ a, aggregateText ops ofInt d sc.func sc.colName rows = some a → text = a)
    (stmt.selectCols.filter fun sc => !isGroupCol stmt sc) fields

/-- The rows of the group of a key. -/
def groupOf (g : Nat) (rows : List (List Value)) (k : Value) : List (List Value) :=
  members (groupMatch ops (d.typeOf g)) (fun row : List Value => row.getD g Value.init) rows k

/-- One row for each value of the grouping column whose group satisfies HAVING, with the aggregates of the group. -/
structure OneRowPerGroup (g : Nat) (rows : List (List Value)) (out : List GroupRow) : Prop where
  different : (out.map GroupRow.key).Pairwise fun k k' => groupMatch ops (d.typeOf g) k k' = false
  right : ∀ r ∈ out, (∃ row ∈ rows, row.getD g Value.init = r.key) ∧
    Satisfies ops ofInt d stmt (groupOf ops d g rows r.key) ∧
    FieldsRight ops ofInt d stmt (groupOf ops d g rows r.key) r.fields
  every : ∀ row ∈ rows, Satisfies ops ofInt d stmt (groupOf ops d g rows (row.getD g Value.init)) →
    ∃ r ∈ out, groupMatch ops (d.typeOf g) r.key (row.getD g Value.init) = true

/-- What HAVING compares: the aggregate, 0.0 where it has no value, if the select list has it; else the count of the
first item for a count, and 0.0. -/
def havingSeen (rows : List (List Value)) : BitVec 64 :=
  match havingIdx stmt with
  | some i =>
    ((stmt.selectCols[i]?).bind fun sc => aggregate ops ofInt d sc.func sc.colName rows).getD (ofInt 0)
  | none =>
    if stmt.havingFunc = .countStar ∨ stmt.havingFunc = .count then
      ((stmt.selectCols[0]?).map fun sc =>
        if sc.func = .countStar then ofInt rows.length
        else ofInt (((findColumn d.columns sc.colName).map fun c => (rows.filter fun row =>
          !(row.getD c Value.init).isNull).length).getD 0)).getD (ofInt 0)
    else ofInt 0

/-- In every group, what HAVING compares gives the result of the aggregate. -/
def HavingSeesAggregate (g : Nat) (rows : List (List Value)) : Prop :=
  ∀ row ∈ rows, let group := groupOf ops d g rows (row.getD g Value.init)
    (stmt.hasHaving = true → havingHolds ops stmt (havingSeen ops ofInt d stmt group) (ops.atof stmt.havingVal) = true) ↔
      Satisfies ops ofInt d stmt group

end Spec

/-! ## The cells -/

/-- Integers up to 2^53 are doubles, and sums and comparisons of them are exact. -/
structure AggOps.Exact (ops : AggOps) (ofInt : ℤ → BitVec 64) : Prop where
  zero : ofInt 0 = 0
  int : ∀ x, ops.doubleOfInt x = ofInt x.toInt
  count : ∀ n : ℕ, n ≤ 2 ^ 53 → ops.doubleOfCount n = ofInt n
  add : ∀ a b : ℤ, |a| ≤ 2 ^ 53 → |b| ≤ 2 ^ 53 → |a + b| ≤ 2 ^ 53 → ops.addDouble (ofInt a) (ofInt b) = ofInt (a + b)
  lt : ∀ a b : ℤ, |a| ≤ 2 ^ 53 → |b| ≤ 2 ^ 53 → ops.ltDouble (ofInt a) (ofInt b) = decide (a < b)

section Cells

variable {ops : AggOps} {ofInt : ℤ → BitVec 64} {d : TableDef} {stmt : GroupStmt} {rows : List (List Value)}

/-- A bucket has a cell for each item. -/
theorem bucketTurn_foldl (rows : List (List Value)) :
    rows.foldl (bucketTurn ops d stmt) (stmt.selectCols.map fun _ => AggCell.zero) =
      stmt.selectCols.map fun sc => rows.foldl (aggTurn ops d sc) AggCell.zero := by
  induction rows using List.reverseRecOn with
  | nil => rfl
  | append_singleton rows row ih =>
    simp only [List.foldl_append, List.foldl_cons, List.foldl_nil]
    rw [ih, bucketTurn, List.zip_map_right, List.map_map]
    refine List.ext_getElem (by simp) fun i _ _ => ?_
    simp

theorem foldl_countStar {sc : AggCol} (h : sc.func = .countStar) (rows : List (List Value)) :
    (rows.foldl (aggTurn ops d sc) AggCell.zero).count = rows.length := by
  induction rows using List.reverseRecOn with
  | nil => rfl
  | append_singleton rows row ih =>
    simp [List.foldl_append, aggTurn, h, ih]

theorem foldl_count {sc : AggCol} (h : sc.func ≠ .countStar) (rows : List (List Value)) :
    (rows.foldl (aggTurn ops d sc) AggCell.zero).count =
      ((findColumn d.columns sc.colName).map fun c =>
        (rows.filter fun row => !(row.getD c Value.init).isNull).length).getD 0 := by
  induction rows using List.reverseRecOn with
  | nil => cases findColumn d.columns sc.colName <;> rfl
  | append_singleton rows row ih =>
    simp only [List.foldl_append, List.foldl_cons, List.foldl_nil]
    unfold aggTurn at ih ⊢
    rw [if_neg h]
    cases hc : findColumn d.columns sc.colName with
    | none => simpa [hc] using ih
    | some c =>
      simp only [hc, Option.map_some, Option.getD_some] at ih ⊢
      rw [List.filter_append, List.length_append]
      cases hn : (row.getD c Value.init).isNull <;> simp_all [AggCell.add]

theorem columnInts_snoc (c : Nat) (rows : List (List Value)) (row : List Value) :
    columnInts c (rows ++ [row]) = columnInts c rows ++
      if (row.getD c Value.init).isNull then [] else [(row.getD c Value.init).intVal.toInt] := by
  rw [columnInts, columnInts, List.filter_append, List.map_append, List.filter_singleton]
  cases (row.getD c Value.init).isNull <;> rfl

/-- The cell of a column of INT accumulates the values that are not NULL. -/
theorem foldl_ints (hx : ops.Exact ofInt) {sc : AggCol} {c : Nat} (h : sc.func ≠ .countStar)
    (hc : findColumn d.columns sc.colName = some c) (ht : d.typeOf c = .int) (rows : List (List Value)) :
    rows.foldl (aggTurn ops d sc) AggCell.zero =
      (columnInts c rows).foldl (fun g x => g.add ops (ofInt x)) AggCell.zero := by
  induction rows using List.reverseRecOn with
  | nil => rfl
  | append_singleton rows row ih =>
    rw [List.foldl_append, List.foldl_cons, List.foldl_nil, ih, columnInts_snoc, List.foldl_append, aggTurn, if_neg h,
      hc]
    dsimp only
    rw [ht]
    split
    · rfl
    · rw [List.foldl_cons, List.foldl_nil, aggNumber, hx.int]

theorem abs_toInt_le (x : BitVec 32) : |x.toInt| ≤ 2 ^ 31 := by
  have h1 := BitVec.toInt_lt (x := x)
  have h2 := BitVec.le_toInt (x := x)
  rw [abs_le]
  constructor <;> omega

theorem abs_le_of_mem_columnInts {c : Nat} {rows : List (List Value)} {x : ℤ} (h : x ∈ columnInts c rows) :
    |x| ≤ 2 ^ 31 := by
  obtain ⟨row, -, rfl⟩ := List.mem_map.mp h
  exact abs_toInt_le _

theorem min?_snoc (xs : List ℤ) (x : ℤ) : (xs ++ [x]).min? = some ((xs.min?.map fun m => min m x).getD x) := by
  cases xs with
  | nil => rfl
  | cons y ys => rw [List.cons_append, List.min?_cons', List.min?_cons', List.foldl_append]; rfl

theorem max?_snoc (xs : List ℤ) (x : ℤ) : (xs ++ [x]).max? = some ((xs.max?.map fun m => max m x).getD x) := by
  cases xs with
  | nil => rfl
  | cons y ys => rw [List.cons_append, List.max?_cons', List.max?_cons', List.foldl_append]; rfl

/-- What a cell has of a list of integers. -/
structure Accumulates (ofInt : ℤ → BitVec 64) (xs : List ℤ) (g : AggCell) : Prop where
  count : g.count = xs.length
  sum : g.sum = ofInt xs.sum
  hasValues : g.hasValues = decide (xs ≠ [])
  least : ∀ m, xs.min? = some m → g.min = ofInt m
  greatest : ∀ m, xs.max? = some m → g.max = ofInt m

theorem Accumulates.add (hx : ops.Exact ofInt) {xs : List ℤ} {x : ℤ} {g : AggCell} (h : Accumulates ofInt xs g)
    (habs : ∀ y ∈ xs, |y| ≤ 2 ^ 53) (hxabs : |x| ≤ 2 ^ 53) (hsum : |xs.sum| ≤ 2 ^ 53) (hsum' : |xs.sum + x| ≤ 2 ^ 53) :
    Accumulates ofInt (xs ++ [x]) (g.add ops (ofInt x)) where
  count := by simp [AggCell.add, h.count]
  sum := by simp [AggCell.add, h.sum, hx.add _ _ hsum hxabs hsum']
  hasValues := by simp [AggCell.add]
  least m hm := by
    rw [min?_snoc] at hm
    cases hmin : xs.min? with
    | none =>
      rw [hmin] at hm
      have hnil := List.min?_eq_none_iff.mp hmin
      simp only [AggCell.add, h.hasValues, hnil]
      exact congrArg ofInt (Option.some.inj hm)
    | some m' =>
      have hmem := List.min?_mem hmin
      rw [hmin] at hm
      obtain rfl : min m' x = m := Option.some.inj hm
      simp only [AggCell.add, h.hasValues, h.least m' hmin, hx.lt _ _ hxabs (habs m' hmem)]
      rcases lt_or_ge x m' with hlt | hle
      · simp [hlt, min_eq_right hlt.le]
      · simp [List.ne_nil_of_mem hmem, min_eq_left hle, not_lt.mpr hle]
  greatest m hm := by
    rw [max?_snoc] at hm
    cases hmax : xs.max? with
    | none =>
      rw [hmax] at hm
      have hnil := List.max?_eq_none_iff.mp hmax
      simp only [AggCell.add, h.hasValues, hnil]
      exact congrArg ofInt (Option.some.inj hm)
    | some m' =>
      have hmem := List.max?_mem hmax
      rw [hmax] at hm
      obtain rfl : max m' x = m := Option.some.inj hm
      simp only [AggCell.add, h.hasValues, h.greatest m' hmax, hx.lt _ _ (habs m' hmem) hxabs]
      rcases lt_or_ge m' x with hlt | hle
      · simp [hlt, max_eq_right hlt.le]
      · simp [List.ne_nil_of_mem hmem, max_eq_left hle, not_lt.mpr hle]

/-- A cell that has taken a list has its length, sum, minimum and maximum, where the sums on the way are exact. -/
theorem accumulates (hx : ops.Exact ofInt) (xs : List ℤ) (habs : ∀ x ∈ xs, |x| ≤ 2 ^ 53)
    (hsum : ∀ k, |(xs.take k).sum| ≤ 2 ^ 53) :
    Accumulates ofInt xs (xs.foldl (fun g x => g.add ops (ofInt x)) AggCell.zero) := by
  induction xs using List.reverseRecOn with
  | nil => exact ⟨rfl, hx.zero.symm, rfl, by simp, by simp⟩
  | append_singleton xs x ih =>
    have hfront : ∀ k, |(xs.take k).sum| ≤ 2 ^ 53 := by
      intro k
      have htake := hsum (min k xs.length)
      rwa [List.take_append_of_le_length (by omega), ← List.take_take, List.take_length] at htake
    have habs' : ∀ y ∈ xs, |y| ≤ 2 ^ 53 := fun y hy => habs y (List.mem_append_left _ hy)
    have hsum_all : |xs.sum + x| ≤ 2 ^ 53 := by simpa using hsum (xs.length + 1)
    rw [List.foldl_append, List.foldl_cons, List.foldl_nil]
    exact (ih habs' hfront).add hx habs' (habs x (by simp)) (by simpa using hfront xs.length) hsum_all

/-! ## From cells to aggregates -/

/-- An item of the select list: the grouping column, COUNT(*) or an aggregate of an INT column. -/
def IntItem (d : TableDef) (f : AggFunc) (name : Text) : Prop :=
  f = .countStar ∨ f ≠ .none ∧ ∃ c, findColumn d.columns name = some c ∧ d.typeOf c = .int

/-- The sums of a column over a group are exact on the way, and so is the number of rows. -/
structure ExactRows (rows : List (List Value)) : Prop where
  sums : ∀ c k, |((columnInts c rows).take k).sum| ≤ 2 ^ 53
  length : rows.length ≤ 2 ^ 53

theorem ExactRows.cell (h : ExactRows rows) (hx : ops.Exact ofInt) {sc : AggCol} {c : Nat} (hf : sc.func ≠ .countStar)
    (hc : findColumn d.columns sc.colName = some c) (ht : d.typeOf c = .int) :
    Accumulates ofInt (columnInts c rows) (rows.foldl (aggTurn ops d sc) AggCell.zero) := by
  rw [foldl_ints hx hf hc ht]
  exact accumulates hx _ (fun x hmem => (abs_le_of_mem_columnInts hmem).trans (by norm_num)) (h.sums c)

theorem length_columnInts (c : Nat) (rows : List (List Value)) :
    (columnInts c rows).length = (rows.filter fun row => !(row.getD c Value.init).isNull).length := by
  simp [columnInts]

theorem abs_sum_le {xs : List ℤ} (h : ∀ x ∈ xs, |x| ≤ 2 ^ 31) : |xs.sum| ≤ xs.length * 2 ^ 31 := by
  induction xs with
  | nil => simp
  | cons x xs ih =>
    obtain ⟨hx, hxs⟩ := List.forall_mem_cons.mp h
    rw [List.sum_cons, List.length_cons]
    have hadd := abs_add_le x xs.sum
    have hle := ih hxs
    push_cast
    linarith

/-- The sums of up to 2^22 rows are exact. -/
theorem exactRows_of_length (h : rows.length ≤ 2 ^ 22) : ExactRows rows where
  sums c k := by
    have hle : ((columnInts c rows).take k).length ≤ 2 ^ 22 := by
      rw [List.length_take, length_columnInts]
      exact (min_le_right _ _).trans ((List.length_filter_le _ _).trans h)
    have habs := @abs_sum_le ((columnInts c rows).take k) fun x hx =>
      abs_le_of_mem_columnInts (List.mem_of_mem_take hx)
    have hcast : (((columnInts c rows).take k).length : ℤ) ≤ 2 ^ 22 := by exact_mod_cast hle
    linarith
  length := h.trans (by norm_num)

theorem ExactRows.length_columnInts_le (h : ExactRows rows) (c : Nat) : (columnInts c rows).length ≤ 2 ^ 53 := by
  rw [length_columnInts]
  exact (List.length_filter_le _ _).trans h.length

/-- The value of a cell is the aggregate, or 0.0. -/
theorem ExactRows.value_eq (h : ExactRows rows) (hx : ops.Exact ofInt) {sc : AggCol}
    (hitem : IntItem d sc.func sc.colName) :
    (rows.foldl (aggTurn ops d sc) AggCell.zero).value ops sc.func =
      (aggregate ops ofInt d sc.func sc.colName rows).getD (ofInt 0) := by
  by_cases hf : sc.func = .countStar
  · simp [hf, AggCell.value, aggregate, foldl_countStar hf, hx.count _ h.length]
  · obtain ⟨hnone, c, hc, ht⟩ := hitem.resolve_left hf
    have hcell := h.cell hx hf hc ht
    have hlen := hx.count _ (h.length_columnInts_le c)
    cases hfun : sc.func with
    | none => exact absurd hfun hnone
    | countStar => exact absurd hfun hf
    | count => simp [AggCell.value, aggregate, hc, hcell.count, hlen]
    | sum => simp [AggCell.value, aggregate, hc, hcell.sum]
    | avg =>
      simp only [AggCell.value, aggregate, hc, hcell.count, hcell.sum, hlen, Option.map_some, Option.getD_some]
      by_cases hxs : columnInts c rows = []
      · simp [hxs, hx.zero]
      · simp [hxs, List.length_pos_iff.mpr hxs]
    | min =>
      simp only [AggCell.value, aggregate, hc, hcell.hasValues, Option.map_some, Option.getD_some]
      cases hmin : (columnInts c rows).min? with
      | none => simp [List.min?_eq_none_iff.mp hmin, hx.zero]
      | some m => simp [List.ne_nil_of_mem (List.min?_mem hmin), hcell.least m hmin]
    | max =>
      simp only [AggCell.value, aggregate, hc, hcell.hasValues, Option.map_some, Option.getD_some]
      cases hmax : (columnInts c rows).max? with
      | none => simp [List.max?_eq_none_iff.mp hmax, hx.zero]
      | some m => simp [List.ne_nil_of_mem (List.max?_mem hmax), hcell.greatest m hmax]

/-- An aggregate that has a value is printed. -/
theorem ExactRows.field_eq (h : ExactRows rows) (hx : ops.Exact ofInt) {sc : AggCol}
    (hitem : IntItem d sc.func sc.colName) {a : Text}
    (ha : aggregateText ops ofInt d sc.func sc.colName rows = some a) :
    aggField ops sc (rows.foldl (aggTurn ops d sc) AggCell.zero) = a := by
  have hvalue := h.value_eq hx hitem
  by_cases hf : sc.func = .countStar
  · simp only [aggregateText, hf, Option.some.injEq] at ha
    simp [aggField, hf, foldl_countStar hf, ← ha]
  · obtain ⟨hnone, c, hc, ht⟩ := hitem.resolve_left hf
    have hcount := (h.cell hx hf hc ht).count
    have hfixed : ∀ {x : Option (BitVec 64)}, x.map ops.printFixed = some a → ops.printFixed (x.getD (ofInt 0)) = a := by
      intro x hx'
      obtain ⟨y, rfl, rfl⟩ := Option.map_eq_some_iff.mp hx'
      rfl
    unfold aggregateText at ha
    unfold aggField
    cases hfun : sc.func with
    | none => exact absurd hfun hnone
    | countStar => exact absurd hfun hf
    | count =>
      simp only [hfun, hc, Option.map_some, Option.getD_some, Option.some.injEq] at ha
      rw [hcount, ha]
    | _ =>
      simp only [hfun] at ha hvalue
      dsimp only
      rw [hvalue]
      exact hfixed ha

/-- What HAVING compares is what it sees. -/
theorem ExactRows.havingValue_eq (h : ExactRows rows) (hx : ops.Exact ofInt)
    (hitems : ∀ sc ∈ stmt.selectCols, isGroupCol stmt sc = true ∨ IntItem d sc.func sc.colName)
    (hhaving : stmt.havingFunc ≠ .none) :
    havingValue ops stmt (stmt.selectCols.map fun sc => rows.foldl (aggTurn ops d sc) AggCell.zero) =
      havingSeen ops ofInt d stmt rows := by
  unfold havingValue havingSeen
  cases hi : havingIdx stmt with
  | some i =>
    obtain ⟨hlt, hsc, -⟩ := List.findIdx?_eq_some_iff_getElem.mp hi
    simp only [Bool.and_eq_true, decide_eq_true_eq] at hsc
    have hitem : IntItem d stmt.selectCols[i].func stmt.selectCols[i].colName := by
      rcases hitems _ (List.getElem_mem hlt) with hg | hitem
      · simp only [isGroupCol, Bool.and_eq_true, decide_eq_true_eq] at hg
        exact absurd (hsc.1.symm.trans hg.1) hhaving
      · exact hitem
    have hvalue := h.value_eq hx hitem
    rw [hsc.1] at hvalue
    simp [hlt, hvalue, hsc.1]
  | none =>
    dsimp only
    split
    · cases hcols : stmt.selectCols with
      | nil => simp [AggCell.zero, hx.zero, hx.count 0 (Nat.zero_le _)]
      | cons sc scs =>
        simp only [List.map_cons, List.getD_cons_zero, List.getElem?_cons_zero, Option.map_some, Option.getD_some]
        by_cases hf : sc.func = .countStar
        · rw [if_pos hf, foldl_countStar hf, hx.count _ h.length]
        · rw [if_neg hf, foldl_count hf]
          cases findColumn d.columns sc.colName with
          | none => simp [hx.count 0 (Nat.zero_le _)]
          | some c =>
            simp only [Option.map_some, Option.getD_some]
            rw [← length_columnInts, hx.count _ (h.length_columnInts_le c)]
    · exact hx.zero.symm

end Cells

/-! ## One row for each group -/

section Groups

variable {ops : AggOps} {ofInt : ℤ → BitVec 64} {d : TableDef} {stmt : GroupStmt} {g : Nat} {rows : List (List Value)}

/-- `==` of floats and of doubles is symmetric and transitive. -/
structure WhereOps.EqPartial (ops : WhereOps) : Prop where
  floatSymm : ∀ a b, ops.eqFloat a b = true → ops.eqFloat b a = true
  floatTrans : ∀ a b c, ops.eqFloat a b = true → ops.eqFloat b c = true → ops.eqFloat a c = true
  doubleSymm : ∀ a b, ops.eqDouble a b = true → ops.eqDouble b a = true
  doubleTrans : ∀ a b c, ops.eqDouble a b = true → ops.eqDouble b c = true → ops.eqDouble a c = true

theorem strcmp_eq_iff (v u : Value) : strcmp v.str u.str = .eq ↔ v.str = u.str := by
  rw [(strcmp_compares (zero_notMem_str v) (zero_notMem_str u)).eq_eq]
  refine ⟨fun h => ?_, fun h => by rw [h]⟩
  exact List.map_injective_iff.mpr (fun a b hab => UInt8.toNat_inj.mp (by exact_mod_cast hab)) h

/-- Rows of one group have the same key: an equivalence, where the keys are not NaN. -/
theorem groupMatch_equiv (heq : ops.EqPartial) (c : ColumnType)
    (hself : ∀ row ∈ rows, groupMatch ops c (row.getD g Value.init) (row.getD g Value.init) = true) :
    Equiv (groupMatch ops c) (fun row : List Value => row.getD g Value.init) rows where
  refl := hself
  symm k k' h := by
    unfold groupMatch at h ⊢
    cases hk : k.isNull <;> cases hk' : k'.isNull <;> simp only [hk, hk'] at h ⊢
    · cases c <;> simp_all [strcmp_eq_iff, heq.floatSymm, heq.doubleSymm]
    all_goals simp_all
  trans k k' k'' h h' := by
    unfold groupMatch at h h' ⊢
    cases hk : k.isNull <;> cases hk' : k'.isNull <;> cases hk'' : k''.isNull <;> simp only [hk, hk', hk''] at h h' ⊢
    · cases c with
      | float => exact heq.floatTrans _ _ _ h h'
      | double => exact heq.doubleTrans _ _ _ h h'
      | numeric => exact heq.doubleTrans _ _ _ h h'
      | decimal => exact heq.doubleTrans _ _ _ h h'
      | _ => simp_all [strcmp_eq_iff]
    all_goals simp_all

/-- The fields of the bucket of a group. -/
theorem ExactRows.fieldsRight (h : ExactRows rows) (hx : ops.Exact ofInt)
    (hitems : ∀ sc ∈ stmt.selectCols, isGroupCol stmt sc = true ∨ IntItem d sc.func sc.colName) (k : Value) :
    FieldsRight ops ofInt d stmt rows
      (bucketRow ops stmt (k, stmt.selectCols.map fun sc => rows.foldl (aggTurn ops d sc) AggCell.zero)).fields := by
  unfold FieldsRight bucketRow
  dsimp only
  rw [← List.map_prod_left_eq_zip, List.filter_map, List.map_map, List.forall₂_map_right_iff]
  refine List.forall₂_same.mpr fun sc hsc a ha => ?_
  obtain ⟨hmem, hcol⟩ := List.mem_filter.mp hsc
  exact h.field_eq hx ((hitems sc hmem).resolve_left (by simpa using hcol)) ha

/-- GROUP BY prints one row with its aggregates for each group that satisfies HAVING exactly if what HAVING compares
gives, in every group, the result of the aggregate. -/
theorem groupRows_iff (hx : ops.Exact ofInt) (heq : ops.EqPartial) (_hlist : stmt.selectCols ≠ [])
    (hitems : ∀ sc ∈ stmt.selectCols, isGroupCol stmt sc = true ∨ IntItem d sc.func sc.colName)
    (hhaving : stmt.hasHaving = true → IntItem d stmt.havingFunc stmt.havingCol)
    (hself : ∀ row ∈ rows, groupMatch ops (d.typeOf g) (row.getD g Value.init) (row.getD g Value.init) = true)
    (hexact : ∀ row ∈ rows, ExactRows (groupOf ops d g rows (row.getD g Value.init))) :
    OneRowPerGroup ops ofInt d stmt g rows (groupRows ops d stmt g rows) ↔
      HavingSeesAggregate ops ofInt d stmt g rows := by
  have hequiv := @groupMatch_equiv ops g rows heq (d.typeOf g) hself
  let cells := fun k => stmt.selectCols.map fun sc =>
    (groupOf ops d g rows k).foldl (aggTurn ops d sc) AggCell.zero
  have hexact' : ∀ k ∈ keys (groupMatch ops (d.typeOf g)) (fun row : List Value => row.getD g Value.init) rows,
      ExactRows (groupOf ops d g rows k) := by
    intro k hk
    obtain ⟨row, hrow, rfl⟩ := mem_keys hk
    exact hexact row hrow
  have hpass : ∀ k, ExactRows (groupOf ops d g rows k) → (havingPass ops stmt (cells k) = true ↔
      (stmt.hasHaving = true → havingHolds ops stmt (havingSeen ops ofInt d stmt (groupOf ops d g rows k))
        (ops.atof stmt.havingVal) = true)) := by
    intro k hk
    unfold havingPass
    cases hh : stmt.hasHaving with
    | false => simp
    | true =>
      have hfunc : stmt.havingFunc ≠ .none := by
        rcases hhaving hh with h | h
        · simp [h]
        · exact h.1
      simp [cells, hk.havingValue_eq hx hitems hfunc]
  -- the rows printed are those of the keys that pass
  have hout : ∀ r, r ∈ groupRows ops d stmt g rows ↔
      ∃ k ∈ keys (groupMatch ops (d.typeOf g)) (fun row : List Value => row.getD g Value.init) rows,
        havingPass ops stmt (cells k) = true ∧ r = bucketRow ops stmt (k, cells k) := by
    intro r
    rw [groupRows, buckets_eq hequiv]
    simp only [bucketTurn_foldl, List.mem_map, List.mem_filter]
    constructor
    · rintro ⟨b, ⟨⟨k, hk, rfl⟩, hb⟩, rfl⟩
      exact ⟨k, hk, hb, rfl⟩
    · rintro ⟨k, hk, hb, rfl⟩
      exact ⟨_, ⟨⟨k, hk, rfl⟩, hb⟩, rfl⟩
  constructor
  · intro hone row hrow
    obtain ⟨k, hk, hsame⟩ := keys_cover hequiv hrow
    have hgroup : groupOf ops d g rows (row.getD g Value.init) = groupOf ops d g rows k :=
      (members_congr hequiv hsame).symm
    dsimp only
    rw [hgroup, ← hpass k (hexact' k hk)]
    constructor
    · intro hp
      exact (hone.right _ ((hout _).mpr ⟨k, hk, hp, rfl⟩)).2.1
    · intro hs
      obtain ⟨r, hr, hrk⟩ := hone.every row hrow (by rwa [hgroup])
      obtain ⟨k', hk', hp, rfl⟩ := (hout r).mp hr
      obtain rfl : k' = k := keys_inj hequiv hk' hk (hequiv.trans _ _ _ hrk (hequiv.symm _ _ hsame))
      exact hp
  · intro hsees
    have hsees' : ∀ k ∈ keys (groupMatch ops (d.typeOf g)) (fun row : List Value => row.getD g Value.init) rows,
        (havingPass ops stmt (cells k) = true ↔ Satisfies ops ofInt d stmt (groupOf ops d g rows k)) := by
      intro k hk
      rw [hpass k (hexact' k hk)]
      obtain ⟨row, hrow, rfl⟩ := mem_keys hk
      exact hsees row hrow
    refine ⟨?_, fun r hr => ?_, fun row hrow hs => ?_⟩
    · rw [groupRows, buckets_eq hequiv, List.map_map]
      refine List.pairwise_map.mpr (List.Pairwise.filter _ (List.pairwise_map.mpr ?_))
      exact keys_pairwise rows
    · obtain ⟨k, hk, hp, rfl⟩ := (hout r).mp hr
      exact ⟨mem_keys hk, (hsees' k hk).mp hp, (hexact' k hk).fieldsRight hx hitems k⟩
    · obtain ⟨k, hk, hsame⟩ := keys_cover hequiv hrow
      have hgroup : groupOf ops d g rows (row.getD g Value.init) = groupOf ops d g rows k :=
        (members_congr hequiv hsame).symm
      rw [hgroup] at hs
      exact ⟨_, (hout _).mpr ⟨k, hk, (hsees' k hk).mpr hs, rfl⟩, hsame⟩

/-- The same of the whole statement, for the rows that are visible and match. -/
theorem group_by_iff (hx : ops.Exact ofInt) (heq : ops.EqPartial) (db : RowDb) (t : RowTable) (snapshot now : Nat)
    (hlist : stmt.selectCols ≠ []) (hg : findColumn t.tableDef.columns stmt.groupByCol = some g)
    (hrows : runSelectVm ops.toWhereOps db t snapshot now stmt.whereClause = rows)
    (hitems : ∀ sc ∈ stmt.selectCols, isGroupCol stmt sc = true ∨ IntItem t.tableDef sc.func sc.colName)
    (hhaving : stmt.hasHaving = true → IntItem t.tableDef stmt.havingFunc stmt.havingCol)
    (hself : ∀ row ∈ rows,
      groupMatch ops (t.tableDef.typeOf g) (row.getD g Value.init) (row.getD g Value.init) = true)
    (hexact : ∀ row ∈ rows, ExactRows (groupOf ops t.tableDef g rows (row.getD g Value.init))) :
    ∃ out, runGroupBySelect ops stmt db t snapshot now = some out ∧
      (OneRowPerGroup ops ofInt t.tableDef stmt g rows out ↔ HavingSeesAggregate ops ofInt t.tableDef stmt g rows) := by
  refine ⟨groupRows ops t.tableDef stmt g rows, ?_, groupRows_iff hx heq hlist hitems hhaving hself hexact⟩
  rw [runGroupBySelect, hg, hrows]
  rfl

/-- HAVING sees its aggregate where the select list has it and it has a value in every group. -/
theorem havingSees_of_listed {i : Nat} {sc : AggCol} (hi : havingIdx stmt = some i) (hsc : stmt.selectCols[i]? = some sc)
    (hcol : sc.colName = stmt.havingCol)
    (hvalue : ∀ row ∈ rows, ∃ h, aggregate ops ofInt d stmt.havingFunc stmt.havingCol
      (groupOf ops d g rows (row.getD g Value.init)) = some h) :
    HavingSeesAggregate ops ofInt d stmt g rows := by
  intro row hrow
  obtain ⟨h, hh⟩ := hvalue row hrow
  have hfunc : sc.func = stmt.havingFunc := by
    obtain ⟨hlt, hfound, -⟩ := List.findIdx?_eq_some_iff_getElem.mp hi
    rw [List.getElem?_eq_getElem hlt] at hsc
    simp only [Option.some.inj hsc, Bool.and_eq_true, decide_eq_true_eq] at hfound
    exact hfound.1
  have hseen : havingSeen ops ofInt d stmt (groupOf ops d g rows (row.getD g Value.init)) = h := by
    simp only [havingSeen, hi, hsc, Option.bind_some, hfunc, hcol, hh, Option.getD_some]
  dsimp only [Satisfies]
  rw [hseen, hh]
  simp

end Groups

/-! ## Numbers that are integers -/

open Lib.Integral in
/-- The arithmetic of doubles that are integers; `%.2f` of such a one. -/
def integralOps : AggOps where
  widen _ := 0
  narrow _ := 0
  doubleOfInt x := encode x.toInt
  floatOfInt _ := 0
  intOfDouble x := BitVec.ofInt 32 (decode x)
  atof s := encode (atoi s).toInt
  ltFloat _ _ := false
  ltDouble x y := decode x < decode y
  eqFloat x y := x = y
  eqDouble x y := decode x = decode y
  printDouble x := printInt (BitVec.ofInt 32 (decode x))
  addDouble x y := encode (decode x + decode y)
  divDouble x y := encode (decode x / decode y)
  doubleOfCount n := encode n
  printFixed x := printInt (BitVec.ofInt 32 (decode x)) ++ [46, 48, 48]

open Lib.Integral in
theorem integralOps_exact : integralOps.Exact encode where
  zero := if_pos rfl
  int _ := rfl
  count _ _ := rfl
  add a b ha hb _ := by
    show encode (decode (encode a) + decode (encode b)) = encode (a + b)
    rw [decode_encode ha, decode_encode hb]
  lt a b ha hb := by
    show decide (decode (encode a) < decode (encode b)) = decide (a < b)
    rw [decode_encode ha, decode_encode hb]

theorem integralOps_eqPartial : integralOps.EqPartial where
  floatSymm a b h := by simpa [integralOps, eq_comm] using h
  floatTrans a b c h h' := by simp_all [integralOps]
  doubleSymm a b h := by simpa [integralOps, eq_comm] using h
  doubleTrans a b c h h' := by simp_all [integralOps]

/-- A table with the row (1, 10). -/
def onePair : RowTable := ⟨compositeKey, [⟨[{ Value.init with intVal := 1 }, { Value.init with intVal := 10 }], 0, 0, 0⟩]⟩
def onePairDb : RowDb := ⟨[onePair], none, false, 0, false⟩

/-- `SELECT items FROM t GROUP BY id HAVING SUM(a) > 5`. -/
def havingSum (items : List AggCol) : GroupStmt :=
  ⟨items, [105, 100], noWhere, true, .sum, [97], .gt, [53]⟩

theorem onePair_item : IntItem compositeKey .sum [97] := Or.inr ⟨by decide, 1, by decide +kernel, by decide +kernel⟩

theorem onePair_rows (rows : List (List Value)) (g : Nat)
    (h : runSelectVm integralOps.toWhereOps onePairDb onePair 0 0 noWhere = rows) :
    ∀ row ∈ rows, ExactRows (groupOf integralOps onePair.tableDef g rows (row.getD g Value.init)) := by
  intro row _
  refine exactRows_of_length ((List.length_filter_le _ _).trans ?_)
  rw [← h]
  exact (List.length_filterMap_le _ _).trans (by decide)

open Lib.Integral in
theorem group_by_listed :
    ∃ out, runGroupBySelect integralOps (havingSum [⟨.countStar, []⟩, ⟨.sum, [97]⟩]) onePairDb onePair 0 0 = some out ∧
      OneRowPerGroup integralOps encode compositeKey (havingSum [⟨.countStar, []⟩, ⟨.sum, [97]⟩]) 0
        (runSelectVm integralOps.toWhereOps onePairDb onePair 0 0 noWhere) out := by
  obtain ⟨out, hout, hiff⟩ := @group_by_iff _ _ (havingSum [⟨.countStar, []⟩, ⟨.sum, [97]⟩]) 0 _
    integralOps_exact integralOps_eqPartial onePairDb onePair 0 0 (by simp [havingSum]) (by decide +kernel) rfl
    (by
      intro sc hsc
      simp only [havingSum, List.mem_cons, List.not_mem_nil, or_false] at hsc
      rcases hsc with rfl | rfl
      · exact Or.inr (Or.inl rfl)
      · exact Or.inr onePair_item)
    (fun _ => onePair_item) (by decide +kernel) (onePair_rows _ _ rfl)
  exact ⟨out, hout, hiff.mpr (havingSees_of_listed (i := 1) (by decide +kernel) rfl rfl fun _ _ => ⟨_, rfl⟩)⟩

open Lib.Integral in
/-- HAVING by an aggregate that is not in the select list compares 0.0: the group is lost. -/
theorem group_by_unlisted : ¬ ∀ (ops : AggOps) (ofInt : ℤ → BitVec 64) (stmt : GroupStmt) (g : Nat)
    (rows : List (List Value)) (db : RowDb) (t : RowTable) (snapshot now : Nat) (out : List GroupRow),
    ops.Exact ofInt → ops.EqPartial → stmt.selectCols ≠ [] →
    findColumn t.tableDef.columns stmt.groupByCol = some g →
    runSelectVm ops.toWhereOps db t snapshot now stmt.whereClause = rows →
    (∀ sc ∈ stmt.selectCols, isGroupCol stmt sc = true ∨ IntItem t.tableDef sc.func sc.colName) →
    (stmt.hasHaving = true → IntItem t.tableDef stmt.havingFunc stmt.havingCol) →
    (∀ row ∈ rows, groupMatch ops (t.tableDef.typeOf g) (row.getD g Value.init) (row.getD g Value.init) = true) →
    (∀ row ∈ rows, ExactRows (groupOf ops t.tableDef g rows (row.getD g Value.init))) →
    runGroupBySelect ops stmt db t snapshot now = some out → OneRowPerGroup ops ofInt t.tableDef stmt g rows out := by
  intro h
  have hout : runGroupBySelect integralOps (havingSum [⟨.countStar, []⟩]) onePairDb onePair 0 0 = some [] := by
    decide +kernel
  have hone := h integralOps encode (havingSum [⟨.countStar, []⟩]) 0 _ onePairDb onePair 0 0 [] integralOps_exact
    integralOps_eqPartial (by simp [havingSum]) (by decide +kernel) rfl
    (fun sc hsc => Or.inr (Or.inl (by rw [List.mem_singleton.mp hsc]))) (fun _ => onePair_item) (by decide +kernel)
    (onePair_rows _ _ rfl) hout
  have hmem : [{ Value.init with intVal := 1 }, { Value.init with intVal := 10 }] ∈
      runSelectVm integralOps.toWhereOps onePairDb onePair 0 0 noWhere := by decide +kernel
  obtain ⟨r, hr, -⟩ := hone.every _ hmem fun _ => ⟨encode 10, by decide +kernel, by decide +kernel⟩
  cases hr

end CustomDB
