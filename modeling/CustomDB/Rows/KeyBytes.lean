import CustomDB.Rows.KeySpec
import CustomDB.Sql.WhereSpec

/-!
# Raw keys

`serialize_col0_key` and `compare_keys` on the 32 bytes of `raw_key`. The numbers in them are read back as they were
written; a text leaves the 31 bytes in them that `compare_keys` can still see, a VARCHAR 30. On values cut so the
comparison is that of `compare_values`.
-/

namespace CustomDB

open Lib.Bytes

/-- `INTERNAL_NODE_KEY_SIZE`. -/
def internalNodeKeySize : Nat := 32

/-- The bytes at the front of a key buffer that was filled with zeros. -/
def keyBuf (bs : List UInt8) : List UInt8 := bs ++ List.replicate (internalNodeKeySize - bs.length) 0

/-- `serialize_col0_key`: the bytes of `out_buf`. The length of a VARCHAR is cut to 16 bits first. -/
def rawCol0Key (c : ColumnType) (v : Value) : List UInt8 :=
  keyBuf <|
    match c with
    | .int => leBytes 4 v.intVal.toNat
    | .float => leBytes 4 v.floatVal.toNat
    | .double | .numeric | .decimal => leBytes 8 v.doubleVal.toNat
    | .bool => [if v.boolVal then 1 else 0]
    | .blob | .datetime | .date | .time | .timestamp | .text | .vector => v.str.take (internalNodeKeySize - 1)
    | .varchar =>
      let len := min (v.str.length % 2 ^ 16) (internalNodeKeySize - 2)
      leBytes 2 len ++ v.str.take len

/-- `memcmp`, as the sign. -/
def memcmp : List UInt8 → List UInt8 → Ordering
  | x :: xs, y :: ys => if x = y then memcmp xs ys else if x < y then .lt else .gt
  | _, _ => .eq

/-- `*(int32_t*)k`. -/
def rawInt (k : List UInt8) : BitVec 32 := BitVec.ofNat 32 (leNat (k.take 4))

/-- `*(double*)k`. -/
def rawDouble (k : List UInt8) : BitVec 64 := BitVec.ofNat 64 (leNat (k.take 8))

/-- `compare_keys` on two buffers. -/
def compareRawKeys (ops : WhereOps) (c : ColumnType) (k₁ k₂ : List UInt8) : Ordering :=
  match c with
  | .int => signOf ((rawInt k₂).slt (rawInt k₁)) ((rawInt k₁).slt (rawInt k₂))
  | .float => signOf (ops.ltFloat (rawInt k₂) (rawInt k₁)) (ops.ltFloat (rawInt k₁) (rawInt k₂))
  | .double | .numeric | .decimal =>
    signOf (ops.ltDouble (rawDouble k₂) (rawDouble k₁)) (ops.ltDouble (rawDouble k₁) (rawDouble k₂))
  | .bool =>
    let v₁ := decide (k₁.headD 0 ≠ 0)
    let v₂ := decide (k₂.headD 0 ≠ 0)
    signOf (v₁ && !v₂) (!v₁ && v₂)
  | .blob | .datetime | .date | .time | .timestamp | .text | .vector => strcmp k₁ k₂
  | .varchar =>
    let len₁ := leNat (k₁.take 2)
    let len₂ := leNat (k₂.take 2)
    let n := min len₁ len₂
    match memcmp ((k₁.drop 2).take n) ((k₂.drop 2).take n) with
    | .eq => compare len₁ len₂
    | r => r

variable {ops : WhereOps} {c : ColumnType} {v w : Value}

/-! ## What the buffer gives back -/

@[simp] theorem rawInt_keyBuf (x : BitVec 32) : rawInt (keyBuf (leBytes 4 x.toNat)) = x :=
  ofNat_leNat_leBytes (by decide) x _

@[simp] theorem rawDouble_keyBuf (x : BitVec 64) : rawDouble (keyBuf (leBytes 8 x.toNat)) = x :=
  ofNat_leNat_leBytes (by decide) x _

/-- Zeros behind a string do not change it. -/
theorem strcmp_zeros (s t : Text) (m n : Nat) :
    strcmp (s ++ List.replicate m 0) (t ++ List.replicate n 0) = strcmp s t := by
  induction s generalizing t with
  | nil =>
    cases m with
    | zero =>
      cases t with
      | nil => cases n <;> rfl
      | cons y t => rfl
    | succ m =>
      cases t with
      | nil => cases n <;> simp [strcmp, List.replicate_succ]
      | cons y t =>
        by_cases hy : y = 0
        · simp [strcmp, List.replicate_succ, hy]
        · have hpos : 0 < y := UInt8.pos_iff_ne_zero.mpr hy
          simp [strcmp, List.replicate_succ, hy, Ne.symm hy, hpos]
  | cons x s ih =>
    cases t with
    | nil =>
      cases n with
      | zero => rfl
      | succ n =>
        by_cases hx : x = 0
        · simp [strcmp, List.replicate_succ, hx]
        · have hle : ¬ x < 0 := UInt8.not_lt_zero
          simp [strcmp, List.replicate_succ, hx, hle]
    | cons y t => simp [strcmp, ih]

/-- Strings of one length that have no 0 in them are compared as memory. -/
theorem memcmp_eq_strcmp {s t : Text} (hs : 0 ∉ s) (hlen : s.length = t.length) : memcmp s t = strcmp s t := by
  induction s generalizing t with
  | nil =>
    obtain rfl : t = [] := List.length_eq_zero_iff.mp hlen.symm
    rfl
  | cons x s ih =>
    cases t with
    | nil => exact absurd hlen (by simp)
    | cons y t =>
      have hx : x ≠ 0 := fun h => hs (by rw [h]; exact List.mem_cons_self ..)
      have ih := ih (t := t) (fun h => hs (List.mem_cons_of_mem _ h)) (by simpa using hlen)
      simp [memcmp, strcmp, hx, ih]

/-- The part of a string that a key keeps says which is the smaller one, unless it is the same. -/
theorem strcmp_take {s t : Text} {n : Nat} (h : strcmp (s.take n) (t.take n) ≠ .eq) :
    strcmp (s.take n) (t.take n) = strcmp s t := by
  induction n generalizing s t with
  | zero => exact absurd rfl h
  | succ n ih =>
    cases s with
    | nil => cases t <;> rfl
    | cons x s =>
      cases t with
      | nil => rfl
      | cons y t =>
        simp only [List.take_succ_cons, strcmp] at h ⊢
        split
        · next hxy =>
          rw [if_pos hxy] at h
          split
          · rfl
          · next hx =>
            rw [if_neg hx] at h
            exact ih h
        · rfl

theorem rawCol0Key_varchar (v : Value) (hlen : v.str.length < 2 ^ 16) :
    rawCol0Key .varchar v =
      leBytes 2 (min v.str.length 30) ++ (v.str.take 30 ++ List.replicate (30 - min v.str.length 30) 0) := by
  have htake : v.str.take (min v.str.length 30) = v.str.take 30 := by
    rw [List.take_eq_take_iff]
    omega
  unfold rawCol0Key keyBuf
  simp only [internalNodeKeySize, Nat.mod_eq_of_lt hlen, List.length_append, length_leBytes, List.append_assoc, htake,
    List.length_take]
  congr 3
  omega

/-- Raw keys compare as the values do that they are made of. -/
theorem compareRawKeys_eq (ops : WhereOps) (hv : c = .varchar → v.str.length < 2 ^ 16)
    (hw : c = .varchar → w.str.length < 2 ^ 16) :
    compareRawKeys ops c (rawCol0Key c v) (rawCol0Key c w) = compareCol0 ops c v w := by
  have htext : strcmp (keyBuf (v.str.take 31)) (keyBuf (w.str.take 31)) = strcmp (v.str.take 31) (w.str.take 31) :=
    strcmp_zeros _ _ _ _
  cases c with
  | int => simp only [compareRawKeys, rawCol0Key, rawInt_keyBuf, compareCol0, compareKeys, serializeCol0Key]
  | float => simp only [compareRawKeys, rawCol0Key, rawInt_keyBuf, compareCol0, compareKeys, serializeCol0Key]
  | double => simp only [compareRawKeys, rawCol0Key, rawDouble_keyBuf, compareCol0, compareKeys, serializeCol0Key]
  | numeric => simp only [compareRawKeys, rawCol0Key, rawDouble_keyBuf, compareCol0, compareKeys, serializeCol0Key]
  | decimal => simp only [compareRawKeys, rawCol0Key, rawDouble_keyBuf, compareCol0, compareKeys, serializeCol0Key]
  | bool =>
    have hb : ∀ b : Bool, (keyBuf [if b then 1 else 0]).headD 0 = if b then 1 else 0 := fun b => rfl
    simp only [compareRawKeys, rawCol0Key, hb, compareCol0, compareKeys, serializeCol0Key]
    cases v.boolVal <;> cases w.boolVal <;> rfl
  | varchar =>
    have hread : ∀ u : Value, u.str.length < 2 ^ 16 → leNat ((rawCol0Key .varchar u).take 2) = (u.str.take 30).length ∧
        ∀ n, n ≤ (u.str.take 30).length → ((rawCol0Key .varchar u).drop 2).take n = (u.str.take 30).take n := by
      intro u hu
      rw [rawCol0Key_varchar u hu, List.length_take, min_comm 30]
      constructor
      · rw [List.take_left' (length_leBytes 2 _), leNat_leBytes]
        omega
      · intro n hn
        rw [List.drop_left' (length_leBytes 2 _), List.take_append_of_le_length (by rw [List.length_take]; omega)]
    obtain ⟨hvl, hvt⟩ := hread v (hv rfl)
    obtain ⟨hwl, hwt⟩ := hread w (hw rfl)
    have hmem : ∀ n, n ≤ (v.str.take 30).length → n ≤ (w.str.take 30).length →
        memcmp ((v.str.take 30).take n) ((w.str.take 30).take n) = strcmp ((v.str.take 30).take n) ((w.str.take 30).take n) := by
      intro n hn hm
      apply memcmp_eq_strcmp
      · exact fun h => zero_notMem_str v (List.mem_of_mem_take (List.mem_of_mem_take h))
      · rw [List.length_take_of_le hn, List.length_take_of_le hm]
    simp only [compareRawKeys, hvl, hwl, hvt _ (min_le_left ..), hwt _ (min_le_right ..),
      hmem _ (min_le_left ..) (min_le_right ..), compareCol0, compareKeys, serializeCol0Key] <;> rfl
  | _ => exact htext

/-! ## The order of the values -/

/-- A value with the part of its text that the key keeps. -/
def Value.cut (c : ColumnType) (v : Value) : Value :=
  match c with
  | .int | .float | .double | .numeric | .decimal | .bool => v
  | .varchar => { v with textVal := v.str.take 30 }
  | .blob | .datetime | .date | .time | .timestamp | .text | .vector => { v with textVal := v.str.take 31 }

/-- A value of a type: not NULL, its number fields say the same number, and the length of a VARCHAR fits its two
bytes. -/
structure Value.OfType (ops : FloatOps) (c : ColumnType) (v : Value) : Prop where
  notNull : v.isNull = false
  float : c = .float → nonzero v.doubleVal = true → v.floatVal = ops.narrow v.doubleVal
  double : c = .double ∨ c = .numeric ∨ c = .decimal → nonzero v.doubleVal = false → nonzero (ops.widen v.floatVal) = false
  varchar : c = .varchar → v.str.length < 2 ^ 16

/-- A cell gives back values of its type. -/
theorem Value.stored_ofType {ops : FloatOps} (h0 : ops.widen 0 = 0) (h : v.isNull = false)
    (hvar : c = .varchar → (v.stored ops c).str.length < 2 ^ 16) : (v.stored ops c).OfType ops c := by
  refine ⟨by rw [Value.stored_isNull, h], ?_, ?_, hvar⟩
  · rintro rfl _
    simp [Value.stored, h]
  · intro hc _
    have hf : (v.stored ops c).floatVal = 0 := by
      rcases hc with rfl | rfl | rfl <;> simp [Value.stored, h, Value.init]
    rw [hf, h0]
    rfl

/-- What IEEE 754 says of the two zeros: `<` cannot tell them apart. -/
def WhereOps.ZerosAlike (ops : WhereOps) : Prop :=
  ∀ a b x, nonzero a = false → nonzero b = false →
    ops.ltDouble a x = ops.ltDouble b x ∧ ops.ltDouble x a = ops.ltDouble x b

theorem str_take (v : Value) (n : Nat) : ({ v with textVal := v.str.take n } : Value).str = v.str.take n := by
  apply List.takeWhile_eq_self_iff.mpr
  intro b hb
  have hne : b ≠ 0 := fun h => zero_notMem_str v (h ▸ List.mem_of_mem_take hb)
  simpa using hne

/-- The number `compare_values` reads is the one in the key, or the other zero. -/
theorem ltDouble_number (hz : ops.ZerosAlike) (hv : v.OfType ops.toFloatOps c) (hc : c = .double ∨ c = .numeric ∨ c = .decimal)
    (x : BitVec 64) :
    ops.ltDouble (if nonzero v.doubleVal then v.doubleVal else ops.widen v.floatVal) x = ops.ltDouble v.doubleVal x ∧
      ops.ltDouble x (if nonzero v.doubleVal then v.doubleVal else ops.widen v.floatVal) = ops.ltDouble x v.doubleVal := by
  cases hn : nonzero v.doubleVal with
  | true => exact ⟨rfl, rfl⟩
  | false => exact hz _ _ x (hv.double hc hn) hn

theorem compareDouble_number (hz : ops.ZerosAlike) (hc : c = .double ∨ c = .numeric ∨ c = .decimal)
    (hv : v.OfType ops.toFloatOps c) (hw : w.OfType ops.toFloatOps c) :
    let d := fun v : Value => if nonzero v.doubleVal then v.doubleVal else ops.widen v.floatVal
    signOf (ops.ltDouble (d w) (d v)) (ops.ltDouble (d v) (d w)) =
      signOf (ops.ltDouble w.doubleVal v.doubleVal) (ops.ltDouble v.doubleVal w.doubleVal) := by
  dsimp only
  rw [(ltDouble_number hz hw hc _).1, (ltDouble_number hz hv hc _).2, (ltDouble_number hz hv hc _).1,
    (ltDouble_number hz hw hc _).2]

theorem compareFloat_number (hv : v.OfType ops.toFloatOps .float) (hw : w.OfType ops.toFloatOps .float) :
    compareValues ops .float v w = compareCol0 ops .float v w := by
  have hf : ∀ u : Value, u.OfType ops.toFloatOps .float →
      (if nonzero u.doubleVal then ops.narrow u.doubleVal else u.floatVal) = u.floatVal := by
    intro u hu
    split
    · next hn => exact (hu.float rfl hn).symm
    · rfl
  unfold compareValues
  simp only [hv.notNull, hw.notNull, Bool.and_self, Bool.false_eq_true, if_false, hf v hv, hf w hw]
  rfl

/-- Keys compare as the values cut to what a key keeps. -/
theorem compareCol0_cut (hz : ops.ZerosAlike) (hv : v.OfType ops.toFloatOps c) (hw : w.OfType ops.toFloatOps c) :
    compareCol0 ops c v w = compareValues ops c (v.cut c) (w.cut c) := by
  by_cases hfloat : c = .float
  · subst hfloat
    exact (compareFloat_number hv hw).symm
  have hnull : ∀ u : Value, u.OfType ops.toFloatOps c → (u.cut c).isNull = false := by
    intro u hu
    cases c <;> exact hu.notNull
  unfold compareValues
  simp only [hnull v hv, hnull w hw, Bool.and_self, Bool.false_eq_true, if_false]
  cases c with
  | int => rfl
  | bool => rfl
  | float => exact absurd rfl hfloat
  | double => exact (compareDouble_number hz (by simp) hv hw).symm
  | numeric => exact (compareDouble_number hz (by simp) hv hw).symm
  | decimal => exact (compareDouble_number hz (by simp) hv hw).symm
  | varchar =>
    simp only [Value.cut, str_take]
    exact compareKeys_varchar (fun h => zero_notMem_str v (List.mem_of_mem_take h)) fun h =>
      zero_notMem_str w (List.mem_of_mem_take h)
  | _ => simp only [compareCol0, compareKeys, serializeCol0Key, Value.cut, str_take]

/-- A cut that tells two values apart tells their order. -/
theorem compareValues_cut (ops : WhereOps) (hv : v.isNull = false) (hw : w.isNull = false)
    (h : compareValues ops c (v.cut c) (w.cut c) ≠ .eq) :
    compareValues ops c (v.cut c) (w.cut c) = compareValues ops c v w := by
  have hnull : ∀ u : Value, (u.cut c).isNull = u.isNull := by
    intro u
    cases c <;> rfl
  unfold compareValues at h ⊢
  simp only [hnull, hv, hw, Bool.and_self, Bool.false_eq_true, if_false] at h ⊢
  cases c with
  | int => rfl
  | bool => rfl
  | float => rfl
  | double => rfl
  | numeric => rfl
  | decimal => rfl
  | _ =>
    simp only [Value.cut, str_take] at h ⊢
    exact strcmp_take h

/-- The order of the keys is the order of the values, as far as a key keeps their texts. -/
theorem key_order_agrees (hz : ops.ZerosAlike) (hv : v.OfType ops.toFloatOps c) (hw : w.OfType ops.toFloatOps c) :
    compareRawKeys ops c (rawCol0Key c v) (rawCol0Key c w) = compareValues ops c (v.cut c) (w.cut c) ∧
      (compareRawKeys ops c (rawCol0Key c v) (rawCol0Key c w) ≠ .eq →
        compareRawKeys ops c (rawCol0Key c v) (rawCol0Key c w) = compareValues ops c v w) := by
  rw [compareRawKeys_eq ops hv.varchar hw.varchar, compareCol0_cut hz hv hw]
  exact ⟨rfl, compareValues_cut ops hv.notNull hw.notNull⟩

/-! ## IEEE 754 -/

/-- The bits of a number without its sign. -/
def magnitude {w : Nat} (x : BitVec w) : Nat := x.toNat % 2 ^ (w - 1)

def signedMagnitude {w : Nat} (x : BitVec w) : Int := if x.msb then -(magnitude x : Int) else magnitude x

/-- `<` of IEEE 754 on the bits, `inf` being those of infinity. -/
def ieeeLt {w : Nat} (inf : Nat) (a b : BitVec w) : Bool :=
  magnitude a ≤ inf && magnitude b ≤ inf && decide (signedMagnitude a < signedMagnitude b)

def ieeeOps : WhereOps :=
  { intOps with ltFloat := ieeeLt 0x7f800000, ltDouble := ieeeLt 0x7ff0000000000000 }

theorem ieeeOps_zeros : ieeeOps.ZerosAlike := by
  have hzero : ∀ d : BitVec 64, nonzero d = false → magnitude d = 0 ∧ signedMagnitude d = 0 := by
    intro d hd
    have hsign : d = 0#64 ∨ d = 9223372036854775808#64 := by
      by_cases h0 : d = 0
      · exact Or.inl h0
      · exact Or.inr ((show ¬ d = 0#64 → d = 9223372036854775808#64 by simpa [nonzero] using hd) h0)
    rcases hsign with rfl | rfl <;> decide
  intro a b x ha hb
  obtain ⟨ham, has⟩ := hzero a ha
  obtain ⟨hbm, hbs⟩ := hzero b hb
  simp only [ieeeOps, ieeeLt, ham, has, hbm, hbs, and_self]

/-- 0.0, -0.0 and 1.5. -/
theorem key_order_agrees_zero :
    let d := fun x => { Value.init with doubleVal := x }
    compareRawKeys ieeeOps .double (rawCol0Key .double (d 0x8000000000000000)) (rawCol0Key .double (d 0)) = .eq ∧
      compareRawKeys ieeeOps .double (rawCol0Key .double (d 0)) (rawCol0Key .double (d 0x3ff8000000000000)) =
        compareValues ieeeOps .double (d 0) (d 0x3ff8000000000000) := by
  have htype : ∀ x, ({ Value.init with doubleVal := x } : Value).OfType ieeeOps.toFloatOps .double :=
    fun x => ⟨rfl, nofun, fun _ _ => rfl, nofun⟩
  refine ⟨?_, ?_⟩
  · rw [(key_order_agrees ieeeOps_zeros (htype _) (htype _)).1]
    decide
  · exact (key_order_agrees ieeeOps_zeros (htype _) (htype _)).2 (by decide)

/-- The text of 31 letters and one more. -/
def longText (b : UInt8) : Value := { Value.init with textVal := List.replicate 31 97 ++ [b], textLen := 32 }

/-- Two texts that differ behind the 31 bytes of their keys have the same key. -/
theorem long_texts_same_key :
    (longText 98).OfType ieeeOps.toFloatOps .text ∧ (longText 99).OfType ieeeOps.toFloatOps .text ∧
      compareRawKeys ieeeOps .text (rawCol0Key .text (longText 98)) (rawCol0Key .text (longText 99)) = .eq ∧
      compareValues ieeeOps .text (longText 98) (longText 99) = .lt := by
  have htype : ∀ b, (longText b).OfType ieeeOps.toFloatOps .text := fun b => ⟨rfl, nofun, by simp, nofun⟩
  exact ⟨htype _, htype _, by decide, by decide⟩

end CustomDB
