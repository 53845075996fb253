import CustomDB.Lib.Ranking
import CustomDB.Rows.Visible
import CustomDB.Rows.KeySpec
import CustomDB.Rows.TableSpec

/-!
# Window functions

A SELECT with a window function keeps the visible rows in the order of the cursor and computes the number of each by a
loop over all of them, without sorting.
-/

namespace CustomDB

open Lib.Ranking

/-! ## The code -/

inductive WindowFunc where
  | rowNumber | rank | denseRank
  deriving DecidableEq, Repr

/-- `WindowSpec`. -/
structure WindowSpec where
  winFunc : WindowFunc
  partitionCol : Text
  orderCol : Text
  orderDesc : Bool

/-- `r_num`, `r_rank` and `d_rank`. -/
structure WindowCounts where
  rNum : Nat
  rRank : Nat
  dRank : Nat
  deriving DecidableEq, Repr

/-- The last column of that very name; the empty name is none. -/
def windowColumn (cols : List Column) (name : Text) : Option Nat :=
  cols.zipIdx.foldl (fun r c => if 0 < name.length ∧ strcmp c.1.name.str name = .eq then some c.2 else r) none

section Code

variable (ops : WhereOps) (d : TableDef) (w : WindowSpec) (rows : List (List Value))

/-- `all_rows[i][c]`. -/
def windowCell (i c : Nat) : Value := (rows.getD i []).getD c Value.init

/-- `p_match`. -/
def partitionMatch (i j : Nat) : Bool :=
  match windowColumn d.columns w.partitionCol with
  | none => true
  | some p =>
    let va := windowCell rows i p
    let vb := windowCell rows j p
    match d.typeOf p with
    | .int => va.intVal = vb.intVal
    | .double => ops.eqDouble va.doubleVal vb.doubleVal
    | _ => strcmp va.str vb.str = .eq

/-- `cmp`, where there is a column to order by. -/
def orderCmp (o i j : Nat) : Ordering :=
  let vi := windowCell rows i o
  let vj := windowCell rows j o
  let cmp := match d.typeOf o with
    | .int => signOf (vj.intVal.slt vi.intVal) (vi.intVal.slt vj.intVal)
    | .double => signOf (ops.ltDouble vj.doubleVal vi.doubleVal) (ops.ltDouble vi.doubleVal vj.doubleVal)
    | _ => strcmp vi.str vj.str
  if w.orderDesc then cmp.swap else cmp

/-- Row `j` counts for the ranks of row `i`. -/
def orderBehind (i j : Nat) : Bool :=
  match windowColumn d.columns w.orderCol with
  | none => false
  | some o => orderCmp ops d w rows o i j = .gt

/-- One turn of the loop over `j`. -/
def windowTurn (i : Nat) (r : WindowCounts) (j : Nat) : WindowCounts :=
  if partitionMatch ops d w rows i j then
    if j < i then
      let r := { r with rNum := r.rNum + 1 }
      if orderBehind ops d w rows i j then { r with rRank := r.rRank + 1, dRank := r.dRank + 1 } else r
    else r
  else r

/-- The loop over `j`, for row `i`. -/
def windowCounts (i : Nat) : WindowCounts := (List.range rows.length).foldl (windowTurn ops d w rows i) ⟨1, 1, 1⟩

/-- The number printed for row `i`. -/
def windowValue (i : Nat) : Nat :=
  let r := windowCounts ops d w rows i
  match w.winFunc with
  | .rowNumber => r.rNum
  | .rank => r.rRank
  | .denseRank => r.dRank

end Code

/-! ## What the functions mean -/

/-- The place of a value among those of its column, NULL first. -/
def sortKey (c : ColumnType) (v : Value) : WithBot (List ℤ) :=
  if v.isNull then ⊥ else (rankOf (fun _ => 0) (fun _ => 0) c v : List ℤ)

section Meaning

variable (d : TableDef) (p : Option Nat) (o : Nat) (desc : Bool) (rows : List (List Value))

/-- The order value of row `i`. -/
def orderKey (i : Nat) : WithBot (List ℤ) := sortKey (d.typeOf o) (windowCell rows i o)

/-- Two rows of one partition. -/
def SamePartition (i j : Nat) : Prop :=
  ∀ c ∈ p, sortKey (d.typeOf c) (windowCell rows i c) = sortKey (d.typeOf c) (windowCell rows j c)

/-- Row `i` is strictly before row `j`. -/
def RowBefore (i j : Nat) : Prop :=
  if desc then orderKey d o rows j < orderKey d o rows i else orderKey d o rows i < orderKey d o rows j

instance : DecidableRel (SamePartition d p rows) := fun _ _ => inferInstanceAs (Decidable (∀ c ∈ p, _))

instance : DecidableRel (RowBefore d o desc rows) := fun i j =>
  inferInstanceAs (Decidable (if desc then orderKey d o rows j < orderKey d o rows i
    else orderKey d o rows i < orderKey d o rows j))

/-- The numbers that the three functions give by definition. -/
def RanksAsDefined (f : WindowFunc → Nat → Nat) : Prop :=
  Numbers rows.length (SamePartition d p rows) (RowBefore d o desc rows) (f .rowNumber) ∧
  Ranks rows.length (SamePartition d p rows) (RowBefore d o desc rows) (f .rank) ∧
  DenseRanks rows.length (SamePartition d p rows) (RowBefore d o desc rows) (orderKey d o rows) (f .denseRank)

end Meaning

/-- The rows of each partition are stored in the order asked for, the comparisons made on the rows tell different
partitions and different order values apart, and no two rows with one order value are before a third. -/
def StoredInOrder (ops : WhereOps) (d : TableDef) (w : WindowSpec) (p : Option Nat) (o : Nat)
    (rows : List (List Value)) : Prop :=
  Arranged rows.length (SamePartition d p rows) (fun i j => partitionMatch ops d w rows j i = true)
    (RowBefore d o w.orderDesc rows) (fun i j => orderBehind ops d w rows j i = true) (orderKey d o rows)

/-! ## The loop counts -/

section Counts

variable {ops : WhereOps} {d : TableDef} {w : WindowSpec} {p : Option Nat} {o : Nat} {rows : List (List Value)} {i j : Nat}

/-- After the rows before `m`. -/
theorem windowTurn_range (i m : Nat) :
    (List.range m).foldl (windowTurn ops d w rows i) ⟨1, 1, 1⟩ =
      { rNum := 1 + Nat.count (fun j => partitionMatch ops d w rows i j = true) (min m i)
        rRank := 1 + Nat.count (fun j => partitionMatch ops d w rows i j = true ∧ orderBehind ops d w rows i j = true)
          (min m i)
        dRank := 1 + Nat.count (fun j => partitionMatch ops d w rows i j = true ∧ orderBehind ops d w rows i j = true)
          (min m i) } := by
  induction m with
  | zero => simp
  | succ m ih =>
    rw [List.range_succ, List.foldl_append, ih, List.foldl_cons, List.foldl_nil]
    by_cases hm : m < i
    · rw [min_eq_left (by omega : m ≤ i), min_eq_left (by omega : m + 1 ≤ i), Nat.count_succ, Nat.count_succ]
      unfold windowTurn
      cases partitionMatch ops d w rows i m <;> cases orderBehind ops d w rows i m <;> simp [hm, Nat.add_assoc]
    · rw [min_eq_right (by omega : i ≤ m), min_eq_right (by omega : i ≤ m + 1)]
      unfold windowTurn
      simp [hm]

theorem windowCounts_eq (hi : i < rows.length) :
    windowCounts ops d w rows i =
      { rNum := position (fun i j => partitionMatch ops d w rows j i = true) i
        rRank := placed (fun i j => partitionMatch ops d w rows j i = true)
          (fun i j => orderBehind ops d w rows j i = true) i
        dRank := placed (fun i j => partitionMatch ops d w rows j i = true)
          (fun i j => orderBehind ops d w rows j i = true) i } := by
  unfold windowCounts
  rw [windowTurn_range, min_eq_right (by omega)]
  rfl

end Counts

/-! ## What the comparisons see -/

/-- An INT or a text column. -/
def IntOrText (c : ColumnType) : Prop := c = .int ∨ IsText c

section Seen

variable {ops : WhereOps} {d : TableDef} {w : WindowSpec} {p : Option Nat} {o : Nat} {rows : List (List Value)} {i j : Nat}

/-- What the comparisons make of a value: a NULL is 0, or the empty text. -/
def seenKey (c : ColumnType) (v : Value) : List ℤ := rankOf (fun _ => 0) (fun _ => 0) c v

/-- The cells of a row that was read: a NULL has nothing in it. -/
theorem windowCell_null (hrows : ∀ row ∈ rows, d.storedRow ops.toFloatOps row = row) (c : Nat)
    (h : (windowCell rows i c).isNull = true) : windowCell rows i c = { Value.init with isNull := true } := by
  unfold windowCell at h ⊢
  by_cases hi : i < rows.length
  · have hmem : rows.getD i [] ∈ rows := by
      rw [List.getD_eq_getElem _ _ hi]
      exact List.getElem_mem hi
    rw [← stored_getD (hrows _ hmem) c] at h ⊢
    exact Value.stored_null (by simpa using h)
  · rw [List.getD_eq_default rows _ (by omega)] at h
    simp [Value.init] at h

theorem seenKey_of_sortKey (hrows : ∀ row ∈ rows, d.storedRow ops.toFloatOps row = row) {c : Nat}
    (h : sortKey (d.typeOf c) (windowCell rows i c) = sortKey (d.typeOf c) (windowCell rows j c)) :
    seenKey (d.typeOf c) (windowCell rows i c) = seenKey (d.typeOf c) (windowCell rows j c) := by
  unfold sortKey at h
  cases hi : (windowCell rows i c).isNull with
  | true =>
    cases hj : (windowCell rows j c).isNull with
    | true => rw [windowCell_null hrows c hi, windowCell_null hrows c hj]
    | false => simp [hi, hj] at h
  | false =>
    cases hj : (windowCell rows j c).isNull with
    | true => simp [hi, hj] at h
    | false =>
      simp only [hi, hj, Bool.false_eq_true, if_false] at h
      exact WithBot.coe_inj.mp h

theorem seen_compares {c : ColumnType} (hc : IntOrText c) (v u : Value) :
    (match c with
      | .int => signOf (u.intVal.slt v.intVal) (v.intVal.slt u.intVal)
      | .double => signOf (ops.ltDouble u.doubleVal v.doubleVal) (ops.ltDouble v.doubleVal u.doubleVal)
      | _ => strcmp v.str u.str).Compares (seenKey c v) (seenKey c u) := by
  rcases hc with rfl | hc
  · dsimp only
    rw [slt_eq, slt_eq]
    exact signOf_compares _ _
  · have htext := strcmp_compares (zero_notMem_str v) (zero_notMem_str u)
    cases c with
    | int => exact absurd (by simp) hc
    | bool => exact absurd (by simp) hc
    | float => exact absurd (by simp) hc
    | double => exact absurd (by simp) hc
    | numeric => exact absurd (by simp) hc
    | decimal => exact absurd (by simp) hc
    | _ => exact htext

theorem partitionMatch_iff (hp : ∀ c, windowColumn d.columns w.partitionCol = some c → IntOrText (d.typeOf c)) :
    partitionMatch ops d w rows i j = true ↔ ∀ c, windowColumn d.columns w.partitionCol = some c →
      seenKey (d.typeOf c) (windowCell rows i c) = seenKey (d.typeOf c) (windowCell rows j c) := by
  unfold partitionMatch
  cases hw : windowColumn d.columns w.partitionCol with
  | none => simp
  | some c =>
    have hcmp := @seen_compares ops _ (hp c hw) (windowCell rows i c) (windowCell rows j c)
    simp only [Option.some.injEq, forall_eq']
    rcases hp c hw with ht | ht
    · simp only [ht, seenKey, rankOf, List.cons.injEq, and_true, decide_eq_true_eq]
      exact ⟨fun h => congrArg BitVec.toInt h, fun h => BitVec.eq_of_toInt_eq h⟩
    · rw [← hcmp.eq_eq]
      cases hty : d.typeOf c with
      | int => exact absurd (by simp [hty]) ht
      | double => exact absurd (by simp [hty]) ht
      | _ => simp

/-- The sign that `order_desc` turns. -/
theorem orderBehind_iff {c : Nat} (hw : windowColumn d.columns w.orderCol = some c) (hc : IntOrText (d.typeOf c)) :
    orderBehind ops d w rows i j = true ↔
      if w.orderDesc then seenKey (d.typeOf c) (windowCell rows i c) < seenKey (d.typeOf c) (windowCell rows j c)
      else seenKey (d.typeOf c) (windowCell rows j c) < seenKey (d.typeOf c) (windowCell rows i c) := by
  have hcmp := @seen_compares ops _ hc (windowCell rows i c) (windowCell rows j c)
  unfold orderBehind orderCmp
  rw [hw]
  cases w.orderDesc with
  | false =>
    simp only [Bool.false_eq_true, if_false, decide_eq_true_eq]
    exact hcmp.eq_gt
  | true =>
    simp only [if_true, decide_eq_true_eq, Ordering.swap_eq_gt]
    exact hcmp.eq_lt

end Seen

/-! ## The theorem -/

section Ranks

variable {ops : WhereOps} {d : TableDef} {w : WindowSpec} {p : Option Nat} {o : Nat} {rows : List (List Value)}

theorem samePartition_equivalence : Equivalence (SamePartition d p rows) where
  refl _ _ _ := rfl
  symm h c hc := (h c hc).symm
  trans h h' c hc := (h c hc).trans (h' c hc)

theorem partitionMatch_equivalence
    (hp : ∀ c, windowColumn d.columns w.partitionCol = some c → IntOrText (d.typeOf c)) :
    Equivalence fun i j => partitionMatch ops d w rows j i = true := by
  refine ⟨fun i => ?_, fun {i j} h => ?_, fun {i j k} h h' => ?_⟩
  · exact (partitionMatch_iff hp).mpr fun _ _ => rfl
  · exact (partitionMatch_iff hp).mpr fun c hc => ((partitionMatch_iff hp).mp h c hc).symm
  · exact (partitionMatch_iff hp).mpr fun c hc =>
      ((partitionMatch_iff hp).mp h' c hc).trans ((partitionMatch_iff hp).mp h c hc)

/-- The loop gives ROW_NUMBER, RANK and DENSE_RANK, in the partitions of column `p` and by the values of column `o`,
exactly if the rows are stored in that order. The code finds the columns under their exact names. -/
theorem windowValue_ranks_iff (hp : ∀ c, windowColumn d.columns w.partitionCol = some c → p = some c)
    (ho : ∀ c, windowColumn d.columns w.orderCol = some c → o = c) (hpt : ∀ c ∈ p, IntOrText (d.typeOf c))
    (hot : IntOrText (d.typeOf o)) (hrows : ∀ row ∈ rows, d.storedRow ops.toFloatOps row = row) :
    RanksAsDefined d p o w.orderDesc rows (fun f => windowValue ops d { w with winFunc := f } rows) ↔
      StoredInOrder ops d w p o rows := by
  have hpt' : ∀ c, windowColumn d.columns w.partitionCol = some c → IntOrText (d.typeOf c) := fun c hc => hpt c (hp c hc)
  have hsame : ∀ i j, SamePartition d p rows i j → partitionMatch ops d w rows j i = true := fun i j h =>
    (partitionMatch_iff hpt').mpr fun c hc => (seenKey_of_sortKey hrows (h c (hp c hc))).symm
  have hseen : ∀ i j, orderBehind ops d w rows j i = true →
      RowBefore d o w.orderDesc rows i j ∨ RowBefore d o w.orderDesc rows j i := by
    intro i j h
    cases hw : windowColumn d.columns w.orderCol with
    | none => simp [orderBehind, hw] at h
    | some c =>
      obtain rfl := ho c hw
      have hne : orderKey d o rows i ≠ orderKey d o rows j := by
        intro he
        have := seenKey_of_sortKey hrows he
        rw [orderBehind_iff hw hot, this] at h
        simp at h
      rcases lt_or_gt_of_ne hne with hlt | hlt <;> cases w.orderDesc <;> simp [RowBefore, hlt]
  have hirr : ∀ i, ¬ RowBefore d o w.orderDesc rows i i := fun i => by simp [RowBefore]
  have hiff := @ranks_iff _ _ rows.length _ _ _ _ (orderKey d o rows) _ _ _ _ samePartition_equivalence
    (partitionMatch_equivalence hpt') hsame hseen hirr
  rw [StoredInOrder, ← hiff]
  have hcounts : ∀ f, ∀ i < rows.length, windowCounts ops d { w with winFunc := f } rows i = _ := fun f i hi =>
    windowCounts_eq (w := w) hi
  have hnum : ∀ i < rows.length, windowValue ops d { w with winFunc := .rowNumber } rows i =
      position (fun i j => partitionMatch ops d w rows j i = true) i := fun i hi =>
    congrArg WindowCounts.rNum (hcounts .rowNumber i hi)
  have hrank : ∀ i < rows.length, windowValue ops d { w with winFunc := .rank } rows i =
      placed (fun i j => partitionMatch ops d w rows j i = true) (fun i j => orderBehind ops d w rows j i = true) i :=
    fun i hi => congrArg WindowCounts.rRank (hcounts .rank i hi)
  have hdense : ∀ i < rows.length, windowValue ops d { w with winFunc := .denseRank } rows i =
      placed (fun i j => partitionMatch ops d w rows j i = true) (fun i j => orderBehind ops d w rows j i = true) i :=
    fun i hi => congrArg WindowCounts.dRank (hcounts .denseRank i hi)
  refine and_congr ⟨Numbers.congr hnum, Numbers.congr fun i hi => (hnum i hi).symm⟩ (and_congr ?_ ?_)
  · exact forall₂_congr fun i hi => by rw [← hrank i hi]
  · exact forall₂_congr fun i hi => by rw [← hdense i hi]

end Ranks

/-- `... OVER (ORDER BY a)`. -/
def overA : WindowSpec := ⟨.rowNumber, [], [97], false⟩

/-- A row of two INT columns. -/
def intRow (x y : BitVec 32) : List Value := [{ Value.init with intVal := x }, { Value.init with intVal := y }]

theorem overA_columns : windowColumn compositeKey.columns overA.partitionCol = none ∧
    windowColumn compositeKey.columns overA.orderCol = some 1 := by decide +kernel

theorem overA_row (x y : BitVec 32) : compositeKey.storedRow intOps.toFloatOps (intRow x y) = intRow x y := rfl

theorem windowValue_ranks_in_order :
    RanksAsDefined compositeKey none 1 false [intRow 1 10, intRow 2 20]
      fun f => windowValue intOps compositeKey { overA with winFunc := f } [intRow 1 10, intRow 2 20] := by
  refine (windowValue_ranks_iff (w := overA) (fun c hc => ?_) (fun c hc => ?_) (fun c hc => ?_) (Or.inl rfl) ?_).mpr
    ⟨?_, ?_, ?_, ?_⟩
  · exact absurd (overA_columns.1.symm.trans hc) (by simp)
  · exact Option.some.inj (overA_columns.2.symm.trans hc)
  · exact absurd hc (by simp)
  · simp [overA_row]
  · intro i _ j _ _ c hc
    exact absurd hc (by simp)
  · decide +kernel
  · decide +kernel
  · intro i hi j hj k hk _
    have hone : ∀ i < 2, (ahead 2 (SamePartition compositeKey none [intRow 1 10, intRow 2 20])
        (RowBefore compositeKey 1 false [intRow 1 10, intRow 2 20]) i).card ≤ 1 := by decide +kernel
    exact Finset.card_le_one.mp (hone i hi) j hj k hk

/-- Stored out of order, the row that comes last is numbered first. -/
theorem windowValue_unranked : ¬ ∀ (ops : WhereOps) (d : TableDef) (w : WindowSpec) (p : Option Nat) (o : Nat)
    (rows : List (List Value)), (∀ c, windowColumn d.columns w.partitionCol = some c → p = some c) →
    (∀ c, windowColumn d.columns w.orderCol = some c → o = c) → (∀ c ∈ p, IntOrText (d.typeOf c)) →
    IntOrText (d.typeOf o) → (∀ row ∈ rows, d.storedRow ops.toFloatOps row = row) →
    RanksAsDefined d p o w.orderDesc rows fun f => windowValue ops d { w with winFunc := f } rows := by
  intro h
  have hranks := h intOps compositeKey overA none 1 [intRow 1 20, intRow 2 10]
    (fun c hc => absurd (overA_columns.1.symm.trans hc) (by simp))
    (fun c hc => Option.some.inj (overA_columns.2.symm.trans hc)) (fun c hc => absurd hc (by simp)) (Or.inl rfl)
    (by simp [overA_row])
  have hbefore : 1 ∈ ahead 2 (SamePartition compositeKey none [intRow 1 20, intRow 2 10])
      (RowBefore compositeKey 1 false [intRow 1 20, intRow 2 10]) 0 := by decide +kernel
  have hlt := hranks.1.along 0 (by decide) 1 hbefore
  exact absurd hlt (by decide +kernel)

end CustomDB
