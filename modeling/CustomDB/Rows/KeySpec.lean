import CustomDB.Rows.Key

/-!
# Keys in order

Numbers other than NaN and texts are ordered by both comparisons as by ranks in one linear order, and the key the
tree keeps of a stored value is determined by the value.
-/

namespace CustomDB

open Lib.Bytes

/-- What IEEE 754 says of `<` and `==`, NaN being what does not equal itself, and of the zeros: they are equal, and a
zero that is narrowed and widened is the same. -/
structure WhereOps.Ieee (ops : WhereOps) : Prop where
  float : ∃ rank : BitVec 32 → ℤ, ∀ a b, ops.eqFloat a a = true → ops.eqFloat b b = true →
    ops.ltFloat a b = decide (rank a < rank b)
  double : ∃ rank : BitVec 64 → ℤ, ∀ a b, ops.eqDouble a a = true → ops.eqDouble b b = true →
    ops.ltDouble a b = decide (rank a < rank b)
  zero : ∀ d, nonzero d = false → ops.widen (ops.narrow d) = d
  widen_zero : ops.widen 0 = 0
  zero_eq : ∀ d, nonzero d = false → ops.eqDouble d d = true ∧ ops.ltDouble d 0 = false ∧ ops.ltDouble 0 d = false

variable {ops : WhereOps} {c : ColumnType} {v w : Value}

/-! ## Stored values -/

@[simp] theorem Value.stored_isNull (ops : FloatOps) (c : ColumnType) (v : Value) : (v.stored ops c).isNull = v.isNull := by
  cases hv : v.isNull with
  | true => simp [Value.stored, hv]
  | false => cases c <;> simp [Value.stored, hv, Value.init]

theorem Value.stored_null {ops : FloatOps} (h : v.isNull = true) : v.stored ops c = { Value.init with isNull := true } :=
  if_pos h

theorem Value.stored_text {ops : FloatOps} (hc : IsText c) (h : v.isNull = false) (hlen : v.textLen = v.textVal.length) :
    v.stored ops c = { Value.init with textVal := v.textVal, textLen := v.textVal.length } := by
  have hlen' : (if 0 < v.textLen then v.textLen else strlen v.textVal) = v.textVal.length := by
    rw [hlen]
    split
    · rfl
    · next h0 =>
      rw [List.length_eq_zero_iff.mp (by omega : v.textVal.length = 0)]
      rfl
  cases c with
  | int => exact absurd (by simp) hc
  | bool => exact absurd (by simp) hc
  | float => exact absurd (by simp) hc
  | double => exact absurd (by simp) hc
  | numeric => exact absurd (by simp) hc
  | decimal => exact absurd (by simp) hc
  | _ => simp only [Value.stored, h, Bool.false_eq_true, if_false, hlen', List.take_length]

theorem readValue_stored_text {ops : FloatOps} (hc : IsText c) (h : v.isNull = false) (hlen : v.textLen = v.textVal.length)
    (hsmall : v.textVal.length < 2 ^ 31) (rest : List UInt8) :
    (readValue ops c (serialOf ops c v).1 ((serialOf ops c v).2 ++ rest)).1 = v.stored ops c := by
  have hread : ∀ st body, 12 ≤ st → ∃ t l, (readValue ops c st body).1 = { Value.init with textVal := t, textLen := l } := by
    intro st body hst
    unfold readValue
    rw [if_neg (by omega), if_neg (by omega), if_neg (by omega), if_neg (by omega), if_neg (by omega),
      if_neg (by omega), if_neg (by omega), if_pos hst]
    exact ⟨_, _, rfl⟩
  have hst : 12 ≤ (serialOf ops c v).1 := by
    rw [serialOf_text hc h hlen]
    dsimp only
    split <;> omega
  have hsame := (@readValue_text ops _ _ hc h hlen hsmall rest).1
  obtain ⟨t, l, hread⟩ := hread _ ((serialOf ops c v).2 ++ rest) hst
  rw [hread] at hsame ⊢
  obtain ⟨ht, hl⟩ : t = v.textVal ∧ l = v.textVal.length := hsame.text h hc
  rw [Value.stored_text hc h hlen, ht, hl]

theorem readValue_stored_int {ops : FloatOps} (h : v.isNull = false) (rest : List UInt8) :
    (readValue ops .int (serialOf ops .int v).1 ((serialOf ops .int v).2 ++ rest)).1 = v.stored ops .int := by
  have hread : ∀ st body, st ∈ [1, 2, 4, 8, 9] → ∃ x, (readValue ops .int st body).1 = { Value.init with intVal := x } := by
    intro st body hst
    simp only [List.mem_cons, List.not_mem_nil, or_false] at hst
    rcases hst with rfl | rfl | rfl | rfl | rfl <;> exact ⟨_, rfl⟩
  have hst : (serialOf ops .int v).1 ∈ [1, 2, 4, 8, 9] := by
    simp only [serialOf, h, Bool.false_eq_true, if_false]
    repeat' split
    all_goals simp
  have hsame := (@readValue_int ops _ h rest).1
  obtain ⟨x, hread⟩ := hread _ ((serialOf ops .int v).2 ++ rest) hst
  rw [hread] at hsame ⊢
  obtain rfl : x = v.intVal := hsame.int h rfl
  simp [Value.stored, h]

/-- The record format gives back the stored value. -/
theorem readValue_stored {ops : FloatOps} (hlen : v.textLen = v.textVal.length)
    (hsmall : (serialOf ops c v).2.length < 2 ^ 31) (rest : List UInt8) :
    (readValue ops c (serialOf ops c v).1 ((serialOf ops c v).2 ++ rest)).1 = v.stored ops c := by
  cases hv : v.isNull with
  | true =>
    have hs : serialOf ops c v = (0, []) := if_pos hv
    rw [hs, Value.stored_null hv]
    rfl
  | false =>
    by_cases hc : IsText c
    · rw [serialOf_text hc hv hlen] at hsmall
      exact readValue_stored_text hc hv hlen hsmall rest
    · have hc' : c = .int ∨ c = .bool ∨ c = .float ∨ c = .double ∨ c = .numeric ∨ c = .decimal := by
        cases c <;> simp_all [IsText]
      rcases hc' with rfl | rfl | hc'
      · exact readValue_stored_int hv rest
      · have hs : serialOf ops .bool v = (if v.boolVal then 9 else 8, []) := by simp [serialOf, hv]
        rw [hs]
        simp only [Value.stored, hv, Bool.false_eq_true, if_false]
        cases v.boolVal <;> rfl
      · have hs : serialOf ops c v =
            (7, leBytes 8 (if c = .float then if nonzero v.doubleVal then v.doubleVal else ops.widen v.floatVal
              else v.doubleVal).toNat) := by
          rcases hc' with rfl | rfl | rfl | rfl <;> simp [serialOf, hv]
        rw [hs, readValue_double]
        rcases hc' with rfl | rfl | rfl | rfl <;> simp [Value.stored, hv]

/-- A value that was read is stored as it is. -/
theorem Value.stored_stored (h : ops.Ieee) (c : ColumnType) (v : Value) :
    (v.stored ops.toFloatOps c).stored ops.toFloatOps c = v.stored ops.toFloatOps c := by
  cases hv : v.isNull with
  | true => simp [Value.stored, hv]
  | false =>
    have htext : ∀ len, (if 0 < len then len else strlen (v.textVal.take len)) = len := by
      intro len
      split
      · rfl
      · next hl =>
        obtain rfl : len = 0 := by omega
        rfl
    have hfloat : ∀ d, (if nonzero d then d else ops.widen (ops.narrow d)) = d := by
      intro d
      split
      · rfl
      · next hd => exact h.zero d (by simpa using hd)
    cases c <;> simp [Value.stored, hv, Value.init, htext, hfloat]

/-! ## Ranks -/

/-- A number column has no NaN. -/
def Value.Number (ops : WhereOps) (c : ColumnType) (v : Value) : Prop :=
  match c with
  | .float => ops.eqFloat v.floatVal v.floatVal = true
  | .double | .numeric | .decimal => ops.eqDouble v.doubleVal v.doubleVal = true
  | _ => True

/-- The number `compare_values` reads. -/
def Value.number (ops : WhereOps) (v : Value) : Value :=
  { v with
    floatVal := if nonzero v.doubleVal then ops.narrow v.doubleVal else v.floatVal
    doubleVal := if nonzero v.doubleVal then v.doubleVal else ops.widen v.floatVal }

/-- The place of a value in the order of its type. -/
def rankOf (r32 : BitVec 32 → ℤ) (r64 : BitVec 64 → ℤ) (c : ColumnType) (v : Value) : List ℤ :=
  match c with
  | .int => [v.intVal.toInt]
  | .float => [r32 v.floatVal]
  | .double | .numeric | .decimal => [r64 v.doubleVal]
  | .bool => [if v.boolVal then 1 else 0]
  | _ => v.str.map fun b => (b.toNat : ℤ)

theorem compares_of_cmp {α : Type} [LinearOrder α] {o : Ordering} {a b : α} (hlt : o = .lt ↔ a < b) (heq : o = .eq ↔ a = b) :
    o.Compares a b := by
  cases o with
  | lt => exact hlt.mp rfl
  | eq => exact heq.mp rfl
  | gt =>
    rcases lt_trichotomy a b with h | h | h
    · exact absurd (hlt.mpr h) (by simp)
    · exact absurd (heq.mpr h) (by simp)
    · exact h

theorem signOf_compares (a b : ℤ) : (signOf (decide (b < a)) (decide (a < b))).Compares [a] [b] := by
  apply compares_of_cmp
  · simp only [signOf, List.cons_lt_cons_iff, List.not_lt_nil, and_false, or_false]
    by_cases h : b < a <;> by_cases h' : a < b <;> simp [h, h']
    omega
  · simp only [signOf, List.cons.injEq, and_true]
    by_cases h : b < a <;> by_cases h' : a < b <;> simp [h, h'] <;> omega

theorem compares_cons {o : Ordering} (a : ℤ) {s t : List ℤ} (h : o.Compares s t) : o.Compares (a :: s) (a :: t) := by
  apply compares_of_cmp
  · rw [List.cons_lt_cons_iff, h.eq_lt]
    simp
  · rw [h.eq_eq]
    simp

theorem compares_head {x y : UInt8} (h : x ≠ y) (s t : List ℤ) :
    (if x < y then Ordering.lt else .gt).Compares ((x.toNat : ℤ) :: s) ((y.toNat : ℤ) :: t) := by
  have hne : x.toNat ≠ y.toNat := fun he => h (UInt8.toNat_inj.mp he)
  split
  · next hlt =>
    exact List.cons_lt_cons_iff.mpr (Or.inl (by exact_mod_cast UInt8.lt_iff_toNat_lt.mp hlt))
  · next hlt =>
    have hle : ¬ x.toNat < y.toNat := fun hc => hlt (UInt8.lt_iff_toNat_lt.mpr hc)
    exact List.cons_lt_cons_iff.mpr (Or.inl (by omega))

/-- Strings without a 0 in them are ordered by their bytes. -/
theorem strcmp_compares : ∀ {s t : Text}, 0 ∉ s → 0 ∉ t →
    (strcmp s t).Compares (s.map fun b => (b.toNat : ℤ)) (t.map fun b => (b.toNat : ℤ))
  | [], [], _, _ => rfl
  | [], y :: ys, _, ht => by
    have hy : y ≠ 0 := fun h => ht (by rw [h]; exact List.mem_cons_self ..)
    rw [strcmp, if_neg hy]
    exact List.nil_lt_cons _ _
  | x :: xs, [], hs, _ => by
    have hx : x ≠ 0 := fun h => hs (by rw [h]; exact List.mem_cons_self ..)
    rw [strcmp, if_neg hx]
    exact List.nil_lt_cons _ _
  | x :: xs, y :: ys, hs, ht => by
    have hx : x ≠ 0 := fun h => hs (by rw [h]; exact List.mem_cons_self ..)
    have ih := strcmp_compares (fun h => hs (List.mem_cons_of_mem _ h)) fun h => ht (List.mem_cons_of_mem _ h)
    rw [strcmp]
    by_cases hxy : x = y
    · rw [if_pos hxy, if_neg hx, hxy]
      exact compares_cons _ ih
    · rw [if_neg hxy]
      exact compares_head hxy _ _

theorem zero_notMem_str (v : Value) : 0 ∉ v.str := by
  intro h
  simpa using List.mem_takeWhile_imp h

/-- A key of bytes and a length is a string. -/
theorem compareKeys_varchar {s t : Text} (hs : 0 ∉ s) (ht : 0 ∉ t) :
    (match strcmp (s.take (min s.length t.length)) (t.take (min s.length t.length)) with
      | .eq => compare s.length t.length
      | r => r) = strcmp s t := by
  induction s generalizing t with
  | nil =>
    cases t with
    | nil => rfl
    | cons y t =>
      have hy : y ≠ 0 := fun h => ht (by rw [h]; exact List.mem_cons_self ..)
      simp [strcmp, hy, compare, compareOfLessAndEq]
  | cons x s ih =>
    have hx : x ≠ 0 := fun h => hs (by rw [h]; exact List.mem_cons_self ..)
    cases t with
    | nil => simp [strcmp, hx, compare, compareOfLessAndEq]
    | cons y t =>
      have ih := ih (t := t) (fun h => hs (List.mem_cons_of_mem _ h)) fun h => ht (List.mem_cons_of_mem _ h)
      simp only [List.length_cons, Nat.succ_min_succ, List.take_succ_cons, strcmp]
      by_cases hxy : x = y
      · simp only [hxy, if_true, hxy ▸ hx, if_false]
        rw [← ih]
        simp [compare, compareOfLessAndEq]
      · simp only [hxy, if_false]
        by_cases hlt : x < y <;> simp [hlt]

section Order

variable {r32 : BitVec 32 → ℤ} {r64 : BitVec 64 → ℤ}

/-- The ranks are those of the comparisons of numbers. -/
structure RanksBy (ops : WhereOps) (r32 : BitVec 32 → ℤ) (r64 : BitVec 64 → ℤ) : Prop where
  float : ∀ a b, ops.eqFloat a a = true → ops.eqFloat b b = true → ops.ltFloat a b = decide (r32 a < r32 b)
  double : ∀ a b, ops.eqDouble a a = true → ops.eqDouble b b = true → ops.ltDouble a b = decide (r64 a < r64 b)

theorem WhereOps.Ieee.ranksBy (h : ops.Ieee) : ∃ r32 r64, RanksBy ops r32 r64 := by
  obtain ⟨r32, h32⟩ := h.float
  obtain ⟨r64, h64⟩ := h.double
  exact ⟨r32, r64, h32, h64⟩

theorem RanksBy.float_compares (hr : RanksBy ops r32 r64) {a b : BitVec 32} (ha : ops.eqFloat a a = true)
    (hb : ops.eqFloat b b = true) : (signOf (ops.ltFloat b a) (ops.ltFloat a b)).Compares [r32 a] [r32 b] := by
  rw [hr.float _ _ hb ha, hr.float _ _ ha hb]
  exact signOf_compares _ _

theorem RanksBy.double_compares (hr : RanksBy ops r32 r64) {a b : BitVec 64} (ha : ops.eqDouble a a = true)
    (hb : ops.eqDouble b b = true) : (signOf (ops.ltDouble b a) (ops.ltDouble a b)).Compares [r64 a] [r64 b] := by
  rw [hr.double _ _ hb ha, hr.double _ _ ha hb]
  exact signOf_compares _ _

theorem bool_compares (a b : Bool) : (signOf (a && !b) (!a && b)).Compares [if a then (1 : ℤ) else 0] [if b then 1 else 0] := by
  have h01 : ([0] : List ℤ) < [1] := List.cons_lt_cons_iff.mpr (Or.inl zero_lt_one)
  cases a <;> cases b
  · rfl
  · exact h01
  · exact h01
  · rfl

theorem slt_eq (a b : BitVec 32) : a.slt b = decide (a.toInt < b.toInt) := rfl

/-- `compare_keys` on whole values. -/
theorem compareKeys_compares (hr : RanksBy ops r32 r64) (hv : v.Number ops c) (hw : w.Number ops c)
    (hv0 : 0 ∉ v.textVal) (hw0 : 0 ∉ w.textVal) :
    (compareKeys ops c v w).Compares (rankOf r32 r64 c v) (rankOf r32 r64 c w) := by
  have hstr : ∀ {u : Value}, 0 ∉ u.textVal → u.str = u.textVal := fun {u} h =>
    List.takeWhile_eq_self_iff.mpr fun b hb => by simpa using fun h0 : b = 0 => h (h0 ▸ hb)
  cases c with
  | int =>
    rw [compareKeys, slt_eq, slt_eq]
    exact signOf_compares _ _
  | bool => exact bool_compares _ _
  | float => exact hr.float_compares hv hw
  | double => exact hr.double_compares hv hw
  | numeric => exact hr.double_compares hv hw
  | decimal => exact hr.double_compares hv hw
  | varchar =>
    have hcmp : compareKeys ops .varchar v w = strcmp v.textVal w.textVal := compareKeys_varchar hv0 hw0
    unfold rankOf
    dsimp only
    rw [hcmp, hstr hv0, hstr hw0]
    exact strcmp_compares hv0 hw0
  | _ =>
    unfold compareKeys rankOf
    dsimp only
    rw [hstr hv0, hstr hw0]
    exact strcmp_compares hv0 hw0

/-- `compare_values` on values that are not NULL. -/
theorem compareValues_compares (hr : RanksBy ops r32 r64) (hvn : v.isNull = false) (hwn : w.isNull = false)
    (hv : (v.number ops).Number ops c) (hw : (w.number ops).Number ops c) :
    (compareValues ops c v w).Compares (rankOf r32 r64 c (v.number ops)) (rankOf r32 r64 c (w.number ops)) := by
  unfold compareValues
  simp only [hvn, hwn, Bool.and_self, Bool.false_eq_true, if_false]
  cases c with
  | int =>
    dsimp only
    rw [slt_eq, slt_eq]
    exact signOf_compares _ _
  | bool => exact bool_compares _ _
  | float => exact hr.float_compares hv hw
  | double => exact hr.double_compares hv hw
  | numeric => exact hr.double_compares hv hw
  | decimal => exact hr.double_compares hv hw
  | _ => exact strcmp_compares (zero_notMem_str v) (zero_notMem_str w)

/-- A zero has the rank of the other. -/
theorem RanksBy.zero (hr : RanksBy ops r32 r64) (h : ops.Ieee) {d : BitVec 64} (hd : nonzero d = false) :
    r64 0 = r64 d := by
  obtain ⟨heq, hlt, hgt⟩ := h.zero_eq d hd
  have h0 := (h.zero_eq 0 rfl).1
  rw [hr.double _ _ heq h0, decide_eq_false_iff_not] at hlt
  rw [hr.double _ _ h0 heq, decide_eq_false_iff_not] at hgt
  omega

/-- Of a stored value `compare_values` reads the number the tree keeps. -/
theorem Value.stored_number (hr : RanksBy ops r32 r64) (h : ops.Ieee) (hs : v.stored ops.toFloatOps c = v)
    (hn : v.isNull = false) (hv : v.Number ops c) :
    (v.number ops).Number ops c ∧ rankOf r32 r64 c (v.number ops) = rankOf r32 r64 c v := by
  have hdouble : ops.eqDouble v.doubleVal v.doubleVal = true → v.floatVal = 0 →
      ops.eqDouble (v.number ops).doubleVal (v.number ops).doubleVal = true ∧ r64 (v.number ops).doubleVal = r64 v.doubleVal := by
    intro hnum hf
    cases hz : nonzero v.doubleVal with
    | true => simp [Value.number, hz, hnum]
    | false =>
      simp only [Value.number, hz, Bool.false_eq_true, if_false, hf, h.widen_zero]
      exact ⟨(h.zero_eq 0 rfl).1, hr.zero h hz⟩
  have hf32 : c = .float → (v.number ops).floatVal = v.floatVal := by
    rintro rfl
    cases hz : nonzero v.doubleVal with
    | false => simp [Value.number, hz]
    | true =>
      have hfield := congrArg Value.floatVal hs
      simp only [Value.stored, hn, Bool.false_eq_true, if_false, hz, if_true] at hfield
      simp [Value.number, hz, hfield]
  have hf0 : c = .double ∨ c = .numeric ∨ c = .decimal → v.floatVal = 0 := by
    intro hc
    rw [← congrArg Value.floatVal hs]
    rcases hc with rfl | rfl | rfl <;> simp [Value.stored, hn, Value.init]
  cases c with
  | float =>
    have hf := hf32 rfl
    exact ⟨by rw [Value.Number, hf]; exact hv, by rw [rankOf, rankOf, hf]⟩
  | double => exact ⟨(hdouble hv (hf0 (by simp))).1, congrArg (fun x => [x]) (hdouble hv (hf0 (by simp))).2⟩
  | numeric => exact ⟨(hdouble hv (hf0 (by simp))).1, congrArg (fun x => [x]) (hdouble hv (hf0 (by simp))).2⟩
  | decimal => exact ⟨(hdouble hv (hf0 (by simp))).1, congrArg (fun x => [x]) (hdouble hv (hf0 (by simp))).2⟩
  | _ => exact ⟨trivial, rfl⟩

end Order

/-- Values with the same bytes have the same key. -/
theorem rankOf_col0 {r32 : BitVec 32 → ℤ} {r64 : BitVec 64 → ℤ} (h : rankOf r32 r64 c v = rankOf r32 r64 c w) :
    rankOf r32 r64 c (serializeCol0Key c v) = rankOf r32 r64 c (serializeCol0Key c w) := by
  have hinj : Function.Injective fun b : UInt8 => (b.toNat : ℤ) := fun _ _ hab =>
    UInt8.toNat_inj.mp (Int.ofNat_inj.mp hab)
  cases c with
  | int => exact h
  | bool => exact h
  | float => exact h
  | double => exact h
  | numeric => exact h
  | decimal => exact h
  | _ =>
    have hstr : v.str = w.str := hinj.list_map h
    simp only [rankOf, serializeCol0Key, hstr]

theorem Value.Number.col0 (h : v.Number ops c) : (serializeCol0Key c v).Number ops c := by
  cases c <;> exact h

theorem zero_notMem_col0 (c : ColumnType) (v : Value) : 0 ∉ (serializeCol0Key c v).textVal := by
  have htake : ∀ n, 0 ∉ v.str.take n := fun n h => zero_notMem_str v (List.mem_of_mem_take h)
  cases c with
  | int => exact List.not_mem_nil
  | bool => exact List.not_mem_nil
  | float => exact List.not_mem_nil
  | double => exact List.not_mem_nil
  | numeric => exact List.not_mem_nil
  | decimal => exact List.not_mem_nil
  | _ => exact htake _

/-! ## What the searches use -/

/-- The order of the searches. -/
theorem compareCol0_ranked (h : ops.Ieee) (c : ColumnType) : ∃ rank : Value → List ℤ, ∀ v w, v.Number ops c → w.Number ops c →
    (compareCol0 ops c v w).Compares (rank v) (rank w) := by
  obtain ⟨r32, r64, hr⟩ := h.ranksBy
  exact ⟨fun v => rankOf r32 r64 c (serializeCol0Key c v), fun v w hv hw =>
    compareKeys_compares hr hv.col0 hw.col0 (zero_notMem_col0 c v) (zero_notMem_col0 c w)⟩

/-- Values that are equal and not NULL. -/
structure SameKey (ops : WhereOps) (c : ColumnType) (v w : Value) : Prop where
  left : v.isNull = false
  right : w.isNull = false
  eq : compareValues ops c v w = .eq

/-- Equality of numbers and texts is transitive. -/
theorem SameKey.trans (h : ops.Ieee) {u : Value} (hu : (u.number ops).Number ops c) (hv : (v.number ops).Number ops c)
    (hw : (w.number ops).Number ops c) (huv : SameKey ops c u v) (hvw : SameKey ops c v w) : SameKey ops c u w := by
  obtain ⟨r32, r64, hr⟩ := h.ranksBy
  have h₁ := (compareValues_compares hr huv.left huv.right hu hv).eq_eq.mp huv.eq
  have h₂ := (compareValues_compares hr hvw.left hvw.right hv hw).eq_eq.mp hvw.eq
  exact ⟨huv.left, hvw.right, (compareValues_compares hr huv.left hvw.right hu hw).eq_eq.mpr (h₁.trans h₂)⟩

theorem SameKey.symm (h : ops.Ieee) (hv : (v.number ops).Number ops c) (hw : (w.number ops).Number ops c)
    (hvw : SameKey ops c v w) : SameKey ops c w v := by
  obtain ⟨r32, r64, hr⟩ := h.ranksBy
  have h₁ := (compareValues_compares hr hvw.left hvw.right hv hw).eq_eq.mp hvw.eq
  exact ⟨hvw.right, hvw.left, (compareValues_compares hr hvw.right hvw.left hw hv).eq_eq.mpr h₁.symm⟩

/-- Stored values that are equal have the same key in the tree. -/
theorem SameKey.col0 (h : ops.Ieee) (hvs : v.stored ops.toFloatOps c = v) (hws : w.stored ops.toFloatOps c = w)
    (hv : v.Number ops c) (hw : w.Number ops c) (hvw : SameKey ops c v w) : compareCol0 ops c v w = .eq := by
  obtain ⟨r32, r64, hr⟩ := h.ranksBy
  obtain ⟨hvn, hvr⟩ := Value.stored_number hr h hvs hvw.left hv
  obtain ⟨hwn, hwr⟩ := Value.stored_number hr h hws hvw.right hw
  have heq := (compareValues_compares hr hvw.left hvw.right hvn hwn).eq_eq.mp hvw.eq
  rw [hvr, hwr] at heq
  have hkey := compareKeys_compares hr hv.col0 hw.col0 (zero_notMem_col0 c v) (zero_notMem_col0 c w)
  exact hkey.eq_eq.mpr (rankOf_col0 heq)

end CustomDB
