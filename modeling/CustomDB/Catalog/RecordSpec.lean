import CustomDB.Catalog.Record

/-!
# Rows read back as they were written

The header is a list of varints and the body a list of byte strings, entry by entry in the same order, so each
reading loop takes one entry off both at every turn. The writer can fail in one way: `new_cap` is computed in
32 bits, and the body then runs past a buffer that is too small.
-/

namespace CustomDB

open Lib.Bytes

/-! ## Varints -/

theorem and_7f (v : Nat) : v &&& 0x7f = v % 128 := Nat.and_two_pow_sub_one_eq_mod v 7

theorem or_80 {v : Nat} (h : v < 128) : v ||| 0x80 = v + 128 := by
  have := Nat.two_pow_add_eq_or_of_lt (i := 7) h 1
  rw [Nat.or_comm, Nat.add_comm]
  exact this.symm

theorem putVarint_small {v : Nat} (h : v < 128) : putVarint v = [v.toUInt8] := by
  rw [putVarint, if_neg (by omega), and_7f, Nat.mod_eq_of_lt h]

theorem putVarint_big {v : Nat} (h : 128 ≤ v) : putVarint v = (v % 128 + 128).toUInt8 :: putVarint (v / 128) := by
  rw [putVarint, if_pos h, and_7f, or_80 (Nat.mod_lt v (by omega)), Nat.shiftRight_eq_div_pow]

theorem putVarint_pos (v : Nat) : 1 ≤ (putVarint v).length := by
  by_cases h : v < 128
  · rw [putVarint_small h]
    exact Nat.le_refl 1
  · rw [putVarint_big (by omega), List.length_cons]
    omega

/-- `k` groups of seven bits take at most `k` bytes. -/
theorem putVarint_length {k : Nat} (hk : 0 < k) {v : Nat} (h : v < 128 ^ k) : (putVarint v).length ≤ k := by
  induction k generalizing v with
  | zero => omega
  | succ k ih =>
    by_cases hv : v < 128
    · rw [putVarint_small hv, List.length_singleton]
      omega
    · rw [putVarint_big (by omega), List.length_cons]
      have hdiv : v / 128 < 128 ^ k := by
        rw [Nat.div_lt_iff_lt_mul (by omega), ← pow_succ]
        exact h
      have hk0 : 0 < k := by
        rcases Nat.eq_zero_or_pos k with rfl | hk0
        · rw [zero_add, pow_one] at h
          omega
        · exact hk0
      have := ih hk0 hdiv
      omega

/-- The seven low bits of a byte, set at their place over the bits read so far. -/
theorem or_group {r b i : Nat} (hr : r < 2 ^ (7 * i)) (hb : b * 2 ^ (7 * i) < 2 ^ 64) :
    r ||| (b <<< (7 * i)) % 2 ^ 64 = r + b * 2 ^ (7 * i) := by
  rw [Nat.shiftLeft_eq, Nat.mod_eq_of_lt hb, Nat.or_comm, Nat.mul_comm, ← Nat.two_pow_add_eq_or_of_lt hr, Nat.add_comm]

theorem byte_low (n : Nat) : (n.toUInt8 &&& 0x7f).toNat = n % 128 := by
  rw [UInt8.toNat_and]
  have h7 : (0x7f : UInt8).toNat = 2 ^ 7 - 1 := rfl
  rw [h7, Nat.and_two_pow_sub_one_eq_mod]
  simp [Nat.toUInt8]

theorem byte_high {n : Nat} (h : n < 256) : n.toUInt8 &&& 0x80 = 0 ↔ n < 128 := by
  have hall : ∀ n < 256, n.toUInt8 &&& 0x80 = 0 ↔ n < 128 := by decide +kernel
  exact hall n h

/-- The loop of `get_varint` reads what `put_varint` wrote, whatever follows. -/
theorem getVarintFrom_putVarint (rest : List UInt8) : ∀ (fuel i v r : Nat), i + fuel = 10 → v * 2 ^ (7 * i) < 2 ^ 64 →
    (v = 0 → i < 10) → r < 2 ^ (7 * i) →
    getVarintFrom fuel i (putVarint v ++ rest) r = (r + v * 2 ^ (7 * i), i + (putVarint v).length) := by
  intro fuel
  induction fuel with
  | zero =>
    intro i v r hi hv h0 _
    obtain rfl : i = 10 := hi
    have : v = 0 := by omega
    exact absurd (h0 this) (by omega)
  | succ fuel ih =>
    intro i v r hi hv _ hr
    by_cases hs : v < 128
    · rw [putVarint_small hs]
      show (if v.toUInt8 &&& 0x80 = 0 then _ else _) = _
      rw [if_pos ((byte_high (by omega)).mpr hs)]
      have hlow : (v.toUInt8 &&& 0x7f).toNat = v := by
        rw [byte_low, Nat.mod_eq_of_lt hs]
      show (r ||| ((v.toUInt8 &&& 0x7f).toNat <<< (7 * i)) % 2 ^ 64, i + 1) = _
      rw [hlow, or_group hr hv]
      rfl
    · rw [putVarint_big (by omega)]
      have hmod : v % 128 < 128 := Nat.mod_lt v (by omega)
      have hlow : ((v % 128 + 128).toUInt8 &&& 0x7f).toNat = v % 128 := by
        rw [byte_low, Nat.add_mod_right, Nat.mod_mod]
      have hpow : 2 ^ (7 * (i + 1)) = 128 * 2 ^ (7 * i) := by rw [Nat.mul_add, pow_add]; ring
      have hsplit : v * 2 ^ (7 * i) = v % 128 * 2 ^ (7 * i) + v / 128 * 2 ^ (7 * (i + 1)) := by
        rw [hpow]
        conv_lhs => rw [← Nat.div_add_mod v 128]
        ring
      have hb : v % 128 * 2 ^ (7 * i) < 2 ^ 64 := by
        rw [hsplit] at hv
        exact lt_of_le_of_lt (Nat.le_add_right _ _) hv
      have hr' : r + v % 128 * 2 ^ (7 * i) < 2 ^ (7 * (i + 1)) := by
        rw [hpow]
        have hle : (v % 128 + 1) * 2 ^ (7 * i) ≤ 128 * 2 ^ (7 * i) := Nat.mul_le_mul_right _ hmod
        rw [Nat.add_mul, one_mul] at hle
        omega
      show (if (v % 128 + 128).toUInt8 &&& 0x80 = 0 then _ else _) = _
      rw [if_neg fun hn => by have := (byte_high (by omega)).mp hn; omega]
      show getVarintFrom fuel (i + 1) (putVarint (v / 128) ++ rest)
        (r ||| (((v % 128 + 128).toUInt8 &&& 0x7f).toNat <<< (7 * i)) % 2 ^ 64) = _
      rw [hlow, or_group hr hb, ih (i + 1) (v / 128) _ (by omega) ?_ ?_ hr']
      · rw [hsplit, List.length_cons]
        refine Prod.ext ?_ ?_
        · show _ + _ + _ = _
          ring
        · show i + 1 + _ = i + (_ + 1)
          omega
      · rw [hsplit] at hv
        exact lt_of_le_of_lt (Nat.le_add_left _ _) hv
      · intro h0
        omega

theorem getVarint_putVarint {v : Nat} (h : v < 2 ^ 64) (rest : List UInt8) :
    getVarint (putVarint v ++ rest) = (v, (putVarint v).length) := by
  rw [getVarint, getVarintFrom_putVarint rest 10 0 v 0 rfl (by simpa using h) (fun _ => by omega) (by simp)]
  simp
/-! ## One column -/

/-- An integer that fits `w` bits survives the cut to them and the sign extension back. -/
theorem signExtend_setWidth {w : Nat} {x : BitVec 32} (hw32 : w ≤ 32) (hlo : -2 ^ w ≤ x.toInt * 2)
    (hhi : x.toInt * 2 < 2 ^ w) : (x.setWidth w).signExtend 32 = x := by
  apply BitVec.eq_of_toInt_eq
  have hdvd : (2 ^ w : Nat) ∣ 2 ^ 32 := Nat.pow_dvd_pow 2 hw32
  rw [BitVec.toInt_signExtend_of_le hw32, BitVec.toInt_setWidth, ← Int.bmod_bmod_of_dvd hdvd,
    ← BitVec.toInt_eq_toNat_bmod]
  exact Int.bmod_eq_of_le_mul_two (by exact_mod_cast hlo) (by exact_mod_cast hhi)

/-- The value read for a column stands for the one written. -/
structure SameValue (ops : FloatOps) (c : ColumnType) (v v' : Value) : Prop where
  isNull : v'.isNull = v.isNull
  int : v.isNull = false → c = .int → v'.intVal = v.intVal
  bool : v.isNull = false → c = .bool → v'.boolVal = v.boolVal
  double : v.isNull = false → c = .double ∨ c = .numeric ∨ c = .decimal → v'.doubleVal = v.doubleVal
  float : v.isNull = false → c = .float →
    v'.doubleVal = if nonzero v.doubleVal then v.doubleVal else ops.widen v.floatVal
  text : v.isNull = false → c ∉ [ColumnType.int, .bool, .double, .numeric, .decimal, .float] →
    v'.textVal = v.textVal ∧ v'.textLen = v.textVal.length

variable {ops : FloatOps} {c : ColumnType} {v : Value}

theorem SameValue.of_int {v' : Value} (h : v.isNull = false) (h' : v'.isNull = false) (hv : v'.intVal = v.intVal) :
    SameValue ops .int v v' := by
  refine ⟨h'.trans h.symm, fun _ _ => hv, ?_, ?_, ?_, ?_⟩
  · exact fun _ hc => nomatch hc
  · exact fun _ hc => by simp at hc
  · exact fun _ hc => nomatch hc
  · exact fun _ hc => absurd (by simp) hc

theorem readValue_int (h : v.isNull = false) (rest : List UInt8) :
    SameValue ops .int v (readValue ops .int (serialOf ops .int v).1 ((serialOf ops .int v).2 ++ rest)).1 ∧
      (readValue ops .int (serialOf ops .int v).1 ((serialOf ops .int v).2 ++ rest)).2 = (serialOf ops .int v).2.length := by
  unfold serialOf
  rw [if_neg (by simp [h])]
  dsimp only
  split
  · next h0 =>
    refine ⟨SameValue.of_int h rfl ?_, rfl⟩
    exact BitVec.eq_of_toInt_eq (by rw [h0]; rfl)
  · split
    · next h1 =>
      refine ⟨SameValue.of_int h rfl ?_, rfl⟩
      exact BitVec.eq_of_toInt_eq (by rw [h1]; rfl)
    · split
      · next hr =>
        refine ⟨SameValue.of_int h rfl ?_, by simp [readValue]⟩
        show (BitVec.ofNat 8 (leNat ((leBytes 1 (v.intVal.setWidth 8).toNat ++ rest).take 1))).signExtend 32 = _
        rw [ofNat_leNat_leBytes (by decide), signExtend_setWidth (by decide) (by omega) (by omega)]
      · split
        · next hr =>
          refine ⟨SameValue.of_int h rfl ?_, by simp [readValue]⟩
          show (BitVec.ofNat 16 (leNat ((leBytes 2 (v.intVal.setWidth 16).toNat ++ rest).take 2))).signExtend 32 = _
          rw [ofNat_leNat_leBytes (by decide), signExtend_setWidth (by decide) (by omega) (by omega)]
        · refine ⟨SameValue.of_int h rfl ?_, by simp [readValue]⟩
          show BitVec.ofNat 32 (leNat ((leBytes 4 v.intVal.toNat ++ rest).take 4)) = _
          exact ofNat_leNat_leBytes (by decide) v.intVal rest

theorem readValue_bool (h : v.isNull = false) (rest : List UInt8) :
    SameValue ops .bool v (readValue ops .bool (serialOf ops .bool v).1 ((serialOf ops .bool v).2 ++ rest)).1 ∧
      (readValue ops .bool (serialOf ops .bool v).1 ((serialOf ops .bool v).2 ++ rest)).2 = (serialOf ops .bool v).2.length := by
  have hs : serialOf ops .bool v = (if v.boolVal then 9 else 8, []) := by simp [serialOf, h]
  rw [hs]
  have hv : readValue ops .bool (if v.boolVal then 9 else 8) ([] ++ rest) = (setConstant .bool v.boolVal, 0) := by
    cases v.boolVal <;> rfl
  rw [hv]
  refine ⟨⟨h.symm, ?_, fun _ _ => rfl, ?_, ?_, ?_⟩, rfl⟩
  · exact fun _ hc => nomatch hc
  · exact fun _ hc => by simp at hc
  · exact fun _ hc => nomatch hc
  · exact fun _ hc => absurd (by simp) hc

/-- The eight bytes of a double. -/
theorem readValue_double (d : BitVec 64) (rest : List UInt8) : readValue ops c 7 (leBytes 8 d.toNat ++ rest) =
    (match c with
      | .float => { Value.init with floatVal := ops.narrow d, doubleVal := d }
      | .double | .numeric | .decimal => { Value.init with doubleVal := d }
      | _ => { Value.init with intVal := ops.intOfDouble d }, 8) := by
  show (_, 8) = _
  rw [ofNat_leNat_leBytes (by decide)]
  all_goals cases c <;> rfl

theorem readValue_float (h : v.isNull = false) (rest : List UInt8) :
    SameValue ops .float v (readValue ops .float (serialOf ops .float v).1 ((serialOf ops .float v).2 ++ rest)).1 ∧
      (readValue ops .float (serialOf ops .float v).1 ((serialOf ops .float v).2 ++ rest)).2 =
        (serialOf ops .float v).2.length := by
  have hs : serialOf ops .float v =
      (7, leBytes 8 (if nonzero v.doubleVal then v.doubleVal else ops.widen v.floatVal).toNat) := by simp [serialOf, h]
  rw [hs]
  dsimp only
  rw [readValue_double]
  refine ⟨⟨h.symm, ?_, ?_, ?_, fun _ _ => rfl, ?_⟩, (length_leBytes 8 _).symm⟩
  · exact fun _ hc => nomatch hc
  · exact fun _ hc => nomatch hc
  · exact fun _ hc => by simp at hc
  · exact fun _ hc => absurd (by simp) hc

theorem readValue_doubles (hc : c = .double ∨ c = .numeric ∨ c = .decimal) (h : v.isNull = false) (rest : List UInt8) :
    SameValue ops c v (readValue ops c (serialOf ops c v).1 ((serialOf ops c v).2 ++ rest)).1 ∧
      (readValue ops c (serialOf ops c v).1 ((serialOf ops c v).2 ++ rest)).2 = (serialOf ops c v).2.length := by
  have hs : serialOf ops c v = (7, leBytes 8 v.doubleVal.toNat) := by
    rcases hc with rfl | rfl | rfl <;> simp [serialOf, h]
  have hr : readValue ops c 7 (leBytes 8 v.doubleVal.toNat ++ rest) = ({ Value.init with doubleVal := v.doubleVal }, 8) := by
    rw [readValue_double]
    rcases hc with rfl | rfl | rfl <;> rfl
  rw [hs]
  dsimp only
  rw [hr]
  refine ⟨⟨h.symm, ?_, ?_, fun _ _ => rfl, ?_, ?_⟩, (length_leBytes 8 _).symm⟩
  · rintro - rfl
    simp at hc
  · rintro - rfl
    simp at hc
  · rintro - rfl
    simp at hc
  · intro _ hn
    rcases hc with rfl | rfl | rfl <;> exact absurd (by simp) hn

/-- The types that are stored as bytes. -/
def IsText (c : ColumnType) : Prop := c ∉ [ColumnType.int, .bool, .double, .numeric, .decimal, .float]

theorem serialOf_text (hc : IsText c) (h : v.isNull = false) (hlen : v.textLen = v.textVal.length) :
    serialOf ops c v =
      (if c = .blob then 12 + 2 * v.textVal.length else 13 + 2 * v.textVal.length, v.textVal) := by
  have hl : (if 0 < v.textLen then v.textLen else strlen v.textVal) = v.textVal.length := by
    rw [hlen]
    split
    · rfl
    · next hn =>
      have : v.textVal = [] := List.length_eq_zero_iff.mp (by omega)
      rw [this]
      rfl
  cases c with
  | int => exact absurd (by simp) hc
  | bool => exact absurd (by simp) hc
  | float => exact absurd (by simp) hc
  | double => exact absurd (by simp) hc
  | numeric => exact absurd (by simp) hc
  | decimal => exact absurd (by simp) hc
  | _ => simp only [serialOf, h, hl, List.take_length, Bool.false_eq_true, if_false]

theorem readValue_text (hc : IsText c) (h : v.isNull = false) (hlen : v.textLen = v.textVal.length)
    (hsmall : v.textVal.length < 2 ^ 31) (rest : List UInt8) :
    SameValue ops c v (readValue ops c (serialOf ops c v).1 ((serialOf ops c v).2 ++ rest)).1 ∧
      (readValue ops c (serialOf ops c v).1 ((serialOf ops c v).2 ++ rest)).2 = (serialOf ops c v).2.length := by
  rw [serialOf_text hc h hlen]
  dsimp only
  have hst : ∀ st, st = 12 + 2 * v.textVal.length ∨ st = 13 + 2 * v.textVal.length →
      readValue ops c st (v.textVal ++ rest) =
        ({ Value.init with textVal := v.textVal, textLen := v.textVal.length }, v.textVal.length) := by
    intro st hst
    have hl : (if st % 2 = 0 then (st - 12) / 2 else (st - 13) / 2) % 2 ^ 32 = v.textVal.length := by
      rcases hst with rfl | rfl <;> split <;> omega
    unfold readValue
    rw [if_neg (by omega), if_neg (by omega), if_neg (by omega), if_neg (by omega), if_neg (by omega),
      if_neg (by omega), if_neg (by omega), if_pos (by omega)]
    dsimp only
    rw [hl, List.take_left]
  rw [hst _ (by split <;> omega)]
  refine ⟨⟨h.symm, ?_, ?_, ?_, ?_, fun _ _ => ⟨rfl, rfl⟩⟩, rfl⟩
  · rintro - rfl
    exact absurd (by simp) hc
  · rintro - rfl
    exact absurd (by simp) hc
  · rintro - (rfl | rfl | rfl) <;> exact absurd (by simp) hc
  · rintro - rfl
    exact absurd (by simp) hc

theorem readValue_null (h : v.isNull = true) (rest : List UInt8) :
    SameValue ops c v (readValue ops c (serialOf ops c v).1 ((serialOf ops c v).2 ++ rest)).1 ∧
      (readValue ops c (serialOf ops c v).1 ((serialOf ops c v).2 ++ rest)).2 = (serialOf ops c v).2.length := by
  have hno : ∀ {P : Prop}, v.isNull = false → P := fun hn => by
    rw [h] at hn
    cases hn
  have hs : serialOf ops c v = (0, []) := if_pos h
  rw [hs]
  exact ⟨⟨h.symm, fun hn => hno hn, fun hn => hno hn, fun hn => hno hn, fun hn => hno hn, fun hn => hno hn⟩, rfl⟩

/-- Whatever follows in the body, a column reads back as it was written, and by as many bytes. -/
theorem readValue_serialOf (hlen : v.textLen = v.textVal.length) (hsmall : (serialOf ops c v).2.length < 2 ^ 31)
    (rest : List UInt8) :
    SameValue ops c v (readValue ops c (serialOf ops c v).1 ((serialOf ops c v).2 ++ rest)).1 ∧
      (readValue ops c (serialOf ops c v).1 ((serialOf ops c v).2 ++ rest)).2 = (serialOf ops c v).2.length := by
  by_cases h : v.isNull = true
  · exact readValue_null h rest
  · have h : v.isNull = false := by simpa using h
    by_cases hc : IsText c
    · rw [serialOf_text hc h hlen] at hsmall
      exact readValue_text hc h hlen hsmall rest
    · have hc' : c ∈ [ColumnType.int, .bool, .double, .numeric, .decimal, .float] := by
        by_contra hn
        exact hc hn
      simp only [List.mem_cons, List.not_mem_nil, or_false] at hc'
      rcases hc' with rfl | rfl | rfl | rfl | rfl | rfl
      · exact readValue_int h rest
      · exact readValue_bool h rest
      · exact readValue_doubles (Or.inl rfl) h rest
      · exact readValue_doubles (Or.inr (Or.inl rfl)) h rest
      · exact readValue_doubles (Or.inr (Or.inr rfl)) h rest
      · exact readValue_float h rest
/-! ## Writing -/

variable {cols : List ColumnType} {values : List Value} {expireAt xmin xmax : BitVec 64}

/-- The trailers a row carries, each with its marker. -/
def trailersOf (expireAt xmin xmax : BitVec 64) : List (Nat × BitVec 64) :=
  (if expireAt ≠ 0 then [(serialTypeTtl, expireAt)] else []) ++
    if xmin ≠ 0 ∨ xmax ≠ 0 then [(serialTypeXmin, xmin), (serialTypeXmax, xmax)] else []

/-- The entries of a row, the columns first: serial type and bytes of each. -/
def rowEntries (ops : FloatOps) (cols : List ColumnType) (values : List Value) (expireAt xmin xmax : BitVec 64) :
    List (Nat × List UInt8) :=
  (cols.zip values).map (fun cv => serialOf ops cv.1 cv.2) ++
    (trailersOf expireAt xmin xmax).map fun t => (t.1, leBytes 8 t.2.toNat)

/-- The header of a row without its length, and its body. -/
def headerOf (es : List (Nat × List UInt8)) : List UInt8 := es.flatMap fun e => putVarint e.1

def bodyOf (es : List (Nat × List UInt8)) : List UInt8 := es.flatMap fun e => e.2

/-- The size of a row with the entries `es`. -/
def rowSize (es : List (Nat × List UInt8)) : Nat :=
  (totalHdrSize (headerOf es).length 16 ((headerOf es).length + 1)).getD 0 + (bodyOf es).length

/-- Whenever the body outgrows its buffer of `cap` bytes, the new size does not wrap: it is asked for below
`2^31 - 4096` bytes. `len` bytes are written, and entries of the sizes in the list follow. -/
def GrowthFits : Nat → Nat → List Nat → Prop
  | _, _, [] => True
  | cap, len, n :: ns => (cap < len + n → len + n + 4096 < 2 ^ 31) ∧ GrowthFits (newCap cap (len + n)) (len + n) ns

instance : (cap len : Nat) → (ns : List Nat) → Decidable (GrowthFits cap len ns)
  | _, _, [] => isTrue trivial
  | cap, len, n :: ns =>
    have := instDecidableGrowthFits (newCap cap (len + n)) (len + n) ns
    inferInstanceAs (Decidable (_ ∧ _))

theorem append_fits {b : SerBody} {bs : List UInt8} (hlt : b.bytes.length + bs.length < 2 ^ 31)
    (h : b.cap < b.bytes.length + bs.length → b.bytes.length + bs.length + 4096 < 2 ^ 31) :
    b.append bs = some ⟨b.bytes ++ bs, newCap b.cap (b.bytes.length + bs.length)⟩ := by
  unfold SerBody.append
  dsimp only
  rw [if_pos]
  unfold newCap
  split <;> omega

theorem append_overruns {b : SerBody} {bs : List UInt8} (hlt : b.bytes.length + bs.length < 2 ^ 31)
    (h : ¬ (b.cap < b.bytes.length + bs.length → b.bytes.length + bs.length + 4096 < 2 ^ 31)) : b.append bs = none := by
  unfold SerBody.append
  dsimp only
  rw [if_neg]
  unfold newCap
  split <;> omega

/-- Pushing entries one by one: the header and the body grow by theirs, while the buffer can be made to fit. -/
theorem foldlM_push {es : List (Nat × List UInt8)} {hdr : List UInt8} {b : SerBody}
    (hhdr : hdr.length + 16 * es.length ≤ 4096) (hvar : ∀ e ∈ es, (putVarint e.1).length ≤ 16)
    (hlt : b.bytes.length + (bodyOf es).length < 2 ^ 31) :
    (GrowthFits b.cap b.bytes.length (es.map fun e => e.2.length) →
      ∃ cap, es.foldlM push (hdr, b) = some (hdr ++ headerOf es, ⟨b.bytes ++ bodyOf es, cap⟩)) ∧
    (¬ GrowthFits b.cap b.bytes.length (es.map fun e => e.2.length) → es.foldlM push (hdr, b) = none) := by
  induction es generalizing hdr b with
  | nil =>
    refine ⟨fun _ => ⟨b.cap, ?_⟩, fun h => absurd trivial h⟩
    simp [headerOf, bodyOf]
  | cons e es ih =>
    have hbody : bodyOf (e :: es) = e.2 ++ bodyOf es := List.flatMap_cons ..
    have hhead : headerOf (e :: es) = putVarint e.1 ++ headerOf es := List.flatMap_cons ..
    have hv := hvar e (List.mem_cons_self ..)
    rw [hbody, List.length_append] at hlt
    rw [List.length_cons] at hhdr
    have hpush : pushHeader hdr e.1 = hdr ++ putVarint e.1 := if_pos (by omega)
    by_cases hfit : b.cap < b.bytes.length + e.2.length → b.bytes.length + e.2.length + 4096 < 2 ^ 31
    · have hstep : push (hdr, b) e =
          some (hdr ++ putVarint e.1, ⟨b.bytes ++ e.2, newCap b.cap (b.bytes.length + e.2.length)⟩) := by
        unfold push
        rw [append_fits (by omega) hfit, hpush]
        rfl
      have hih := @ih (hdr ++ putVarint e.1) ⟨b.bytes ++ e.2, newCap b.cap (b.bytes.length + e.2.length)⟩
        (by rw [List.length_append]; omega) (fun d hd => hvar d (List.mem_cons_of_mem _ hd))
        (by rw [List.length_append]; omega)
      rw [List.length_append] at hih
      rw [List.foldlM_cons, hstep, hhead, hbody, ← List.append_assoc, ← List.append_assoc]
      refine ⟨fun h => hih.1 h.2, fun h => hih.2 fun hn => h ⟨hfit, hn⟩⟩
    · refine ⟨fun h => absurd h.1 hfit, fun _ => ?_⟩
      have hstep : push (hdr, b) e = none := by
        unfold push
        rw [append_overruns (by omega) hfit]
        rfl
      rw [List.foldlM_cons, hstep]
      rfl

/-- A short header needs one byte for its length. -/
theorem totalHdrSize_small {n : Nat} (h : n + 1 < 128) : totalHdrSize n 16 (n + 1) = some (n + 1) := by
  rw [totalHdrSize, putVarint_small h]
  exact if_pos (Nat.add_comm 1 n)

/-- The length of the header counts itself after at most two turns. -/
theorem totalHdrSize_some {n : Nat} (h : n ≤ 4096) :
    ∃ total, totalHdrSize n 16 (n + 1) = some total ∧ (putVarint total).length + n = total := by
  by_cases hs : n + 1 < 128
  · refine ⟨n + 1, totalHdrSize_small hs, ?_⟩
    rw [putVarint_small hs]
    exact Nat.add_comm 1 n
  · have hlen : ∀ v, 128 ≤ v → v < 16384 → (putVarint v).length = 2 := by
      intro v h1 h2
      rw [putVarint_big h1, putVarint_small (by omega)]
      rfl
    refine ⟨n + 2, ?_, ?_⟩
    · rw [totalHdrSize, hlen (n + 1) (by omega) (by omega), if_neg (by omega), totalHdrSize, hlen (2 + n) (by omega) (by omega)]
      exact (if_pos rfl).trans (by rw [Nat.add_comm])
    · rw [hlen (n + 2) (by omega) (by omega)]
      omega

theorem serialize_eq (ops : FloatOps) (cols : List ColumnType) (values : List Value) (expireAt xmin xmax : BitVec 64) :
    serializeRowWithMvcc ops cols values expireAt xmin xmax =
      ((rowEntries ops cols values expireAt xmin xmax).foldlM push ([], ⟨[], 16384⟩)).bind fun r =>
        (totalHdrSize r.1.length 16 (r.1.length + 1)).bind fun total => some (putVarint total ++ r.1 ++ r.2.bytes) := by
  unfold serializeRowWithMvcc rowEntries serializeColumns trailersOf
  rw [List.foldlM_append, List.foldlM_map]
  simp only [Option.bind_eq_bind, Option.pure_def, Option.bind_assoc]
  congr 1
  funext r
  by_cases he : expireAt ≠ 0
  · by_cases hx : xmin ≠ 0 ∨ xmax ≠ 0
    · simp only [if_pos he, if_pos hx]
      simp [Option.bind_assoc]
    · simp only [if_pos he, if_neg hx]
      simp
  · by_cases hx : xmin ≠ 0 ∨ xmax ≠ 0
    · simp only [if_neg he, if_pos hx]
      simp [Option.bind_assoc]
    · simp only [if_neg he, if_neg hx]
      simp

/-! ## Reading -/

/-- The text of a value is as long as `text_len` says. -/
def WellSized (v : Value) : Prop := v.textLen = v.textVal.length

theorem serialOf_lt (hv : WellSized v) (hsmall : (serialOf ops c v).2.length < 2 ^ 31) : (serialOf ops c v).1 < 2 ^ 33 := by
  by_cases h : v.isNull = true
  · have hs : serialOf ops c v = (0, []) := if_pos h
    rw [hs]
    decide
  · have h : v.isNull = false := by simpa using h
    by_cases hc : IsText c
    · rw [serialOf_text hc h hv] at hsmall ⊢
      dsimp only at hsmall ⊢
      split <;> omega
    · have hc' : c ∈ [ColumnType.int, .bool, .double, .numeric, .decimal, .float] := by
        by_contra hn
        exact hc hn
      simp only [List.mem_cons, List.not_mem_nil, or_false] at hc'
      rcases hc' with rfl | rfl | rfl | rfl | rfl | rfl <;> unfold serialOf <;> rw [if_neg (by simp [h])] <;> dsimp only
      · split_ifs <;> simp
      · split_ifs <;> decide
      all_goals decide

/-- An entry that is all of the list so far is followed by the rest. -/
theorem drop_add_of_drop {l a t : List UInt8} {n : Nat} (h : l.drop n = a ++ t) : l.drop (n + a.length) = t := by
  rw [← List.drop_drop, h, List.drop_left]

/-- The column loop takes the columns' entries off the header and the body. -/
theorem readColumns_spec {src hrest brest : List UInt8} : ∀ {cvs : List (ColumnType × Value)} {curHdr curBody : Nat},
    (∀ cv ∈ cvs, WellSized cv.2 ∧ (serialOf ops cv.1 cv.2).2.length < 2 ^ 31) →
    src.drop curHdr = headerOf (cvs.map fun cv => serialOf ops cv.1 cv.2) ++ hrest →
    src.drop curBody = bodyOf (cvs.map fun cv => serialOf ops cv.1 cv.2) ++ brest →
    List.Forall₂ (fun cv v' => SameValue ops cv.1 cv.2 v') cvs (readColumns ops src (cvs.map Prod.fst) curHdr curBody).1 ∧
      (readColumns ops src (cvs.map Prod.fst) curHdr curBody).2 =
        (curHdr + (headerOf (cvs.map fun cv => serialOf ops cv.1 cv.2)).length,
          curBody + (bodyOf (cvs.map fun cv => serialOf ops cv.1 cv.2)).length) := by
  intro cvs
  induction cvs with
  | nil => exact fun _ _ _ => ⟨List.Forall₂.nil, rfl⟩
  | cons cv cvs ih =>
    intro curHdr curBody hok hh hb
    obtain ⟨hsize, hsmall⟩ := hok cv (List.mem_cons_self ..)
    have hbody : bodyOf ((cv :: cvs).map fun cv => serialOf ops cv.1 cv.2) =
        (serialOf ops cv.1 cv.2).2 ++ bodyOf (cvs.map fun cv => serialOf ops cv.1 cv.2) := List.flatMap_cons ..
    have hhead : headerOf ((cv :: cvs).map fun cv => serialOf ops cv.1 cv.2) =
        putVarint (serialOf ops cv.1 cv.2).1 ++ headerOf (cvs.map fun cv => serialOf ops cv.1 cv.2) := List.flatMap_cons ..
    rw [hhead, List.append_assoc] at hh
    rw [hbody, List.append_assoc] at hb
    have hvar : getVarint (src.drop curHdr) =
        ((serialOf ops cv.1 cv.2).1, (putVarint (serialOf ops cv.1 cv.2).1).length) := by
      rw [hh, getVarint_putVarint (lt_trans (serialOf_lt hsize hsmall) (by decide))]
    obtain ⟨hsame, hlen⟩ := readValue_serialOf (c := cv.1) hsize hsmall
      (bodyOf (cvs.map fun cv => serialOf ops cv.1 cv.2) ++ brest)
    obtain ⟨hrest, hpos⟩ := ih (fun d hd => hok d (List.mem_cons_of_mem _ hd)) (drop_add_of_drop hh) (drop_add_of_drop hb)
    have hstep : readColumns ops src ((cv :: cvs).map Prod.fst) curHdr curBody =
        ((readValue ops cv.1 (serialOf ops cv.1 cv.2).1 (src.drop curBody)).1 ::
          (readColumns ops src (cvs.map Prod.fst) (curHdr + (putVarint (serialOf ops cv.1 cv.2).1).length)
            (curBody + (serialOf ops cv.1 cv.2).2.length)).1,
          (readColumns ops src (cvs.map Prod.fst) (curHdr + (putVarint (serialOf ops cv.1 cv.2).1).length)
            (curBody + (serialOf ops cv.1 cv.2).2.length)).2) := by
      rw [List.map_cons, readColumns, hvar, hb, hlen]
    rw [hstep, hpos, hhead, hbody, List.length_append, List.length_append]
    refine ⟨List.Forall₂.cons ?_ hrest, ?_⟩
    · rw [hb]
      exact hsame
    · rw [Nat.add_assoc, Nat.add_assoc]

/-- What a trailer sets. -/
def Trailers.set (t : Trailers) (e : Nat × BitVec 64) : Trailers :=
  if e.1 = serialTypeTtl then { t with exp := e.2 }
  else if e.1 = serialTypeXmin then { t with xmin := e.2 }
  else { t with xmax := e.2 }

/-- The trailer loop takes the trailers off the header and the body, and ends where the header does. -/
theorem readTrailers_spec {src hrest brest : List UInt8} (bodyOffset : Nat) :
    ∀ (ts : List (Nat × BitVec 64)) (fuel curHdr curBody : Nat) (t : Trailers),
    (∀ e ∈ ts, e.1 = serialTypeTtl ∨ e.1 = serialTypeXmin ∨ e.1 = serialTypeXmax) → ts.length ≤ fuel →
    curHdr + ts.length = bodyOffset →
    src.drop curHdr = headerOf (ts.map fun e => (e.1, leBytes 8 e.2.toNat)) ++ hrest →
    src.drop curBody = bodyOf (ts.map fun e => (e.1, leBytes 8 e.2.toNat)) ++ brest →
    readTrailers src bodyOffset fuel curHdr curBody t = (ts.foldl Trailers.set t, curBody + 8 * ts.length) := by
  intro ts
  induction ts with
  | nil =>
    intro fuel curHdr curBody t _ _ hend _ _
    cases fuel with
    | zero => rfl
    | succ fuel =>
      rw [readTrailers, if_neg (by rw [← hend]; simp)]
      rfl
  | cons e ts ih =>
    intro fuel curHdr curBody t hmark hfuel hend hh hb
    rw [List.length_cons] at hfuel hend
    obtain ⟨fuel, rfl⟩ : ∃ k, fuel = k + 1 := ⟨fuel - 1, by omega⟩
    have hsmall : e.1 < 128 := by
      have hm := hmark e (List.mem_cons_self ..)
      simp only [serialTypeTtl, serialTypeXmin, serialTypeXmax] at hm
      omega
    have hbody : bodyOf ((e :: ts).map fun e => (e.1, leBytes 8 e.2.toNat)) =
        leBytes 8 e.2.toNat ++ bodyOf (ts.map fun e => (e.1, leBytes 8 e.2.toNat)) := List.flatMap_cons ..
    have hhead : headerOf ((e :: ts).map fun e => (e.1, leBytes 8 e.2.toNat)) =
        putVarint e.1 ++ headerOf (ts.map fun e => (e.1, leBytes 8 e.2.toNat)) := List.flatMap_cons ..
    rw [hhead, List.append_assoc] at hh
    rw [hbody, List.append_assoc] at hb
    have hvar : getVarint (src.drop curHdr) = (e.1, 1) := by
      rw [hh, getVarint_putVarint (by omega), putVarint_small hsmall]
      rfl
    have hx : BitVec.ofNat 64 (leNat ((src.drop curBody).take 8)) = e.2 := by
      rw [hb]
      exact ofNat_leNat_leBytes (by decide) e.2 _
    have hh' : src.drop (curHdr + 1) = headerOf (ts.map fun e => (e.1, leBytes 8 e.2.toNat)) ++ hrest := by
      have := drop_add_of_drop hh
      rwa [putVarint_small hsmall] at this
    have hb' : src.drop (curBody + 8) = bodyOf (ts.map fun e => (e.1, leBytes 8 e.2.toNat)) ++ brest := by
      have := drop_add_of_drop hb
      rwa [length_leBytes] at this
    have hrec := fun t' => ih fuel (curHdr + 1) (curBody + 8) t' (fun d hd => hmark d (List.mem_cons_of_mem _ hd)) (by omega)
      (by omega) hh' hb'
    have hpos : curBody + 8 + 8 * ts.length = curBody + 8 * (ts.length + 1) := by omega
    rw [readTrailers, if_pos (by omega)]
    dsimp only
    rw [hvar, hx]
    dsimp only
    rw [List.foldl_cons, List.length_cons, ← hpos, Trailers.set]
    rcases hmark e (List.mem_cons_self ..) with hm | hm | hm
    · rw [if_pos hm, if_pos hm]
      exact hrec _
    · have h1 : ¬ e.1 = serialTypeTtl := by rw [hm]; decide
      rw [if_neg h1, if_neg h1, if_pos hm, if_pos hm]
      exact hrec _
    · have h1 : ¬ e.1 = serialTypeTtl := by rw [hm]; decide
      have h2 : ¬ e.1 = serialTypeXmin := by rw [hm]; decide
      rw [if_neg h1, if_neg h1, if_neg h2, if_neg h2, if_pos hm]
      exact hrec _

theorem mem_trailersOf {e : Nat × BitVec 64} (h : e ∈ trailersOf expireAt xmin xmax) :
    e.1 = serialTypeTtl ∨ e.1 = serialTypeXmin ∨ e.1 = serialTypeXmax := by
  unfold trailersOf at h
  rcases List.mem_append.mp h with h | h
  · split at h
    · exact Or.inl (by rw [List.mem_singleton.mp h])
    · exact absurd h List.not_mem_nil
  · split at h
    · simp only [List.mem_cons, List.not_mem_nil, or_false] at h
      rcases h with rfl | rfl
      · exact Or.inr (Or.inl rfl)
      · exact Or.inr (Or.inr rfl)
    · exact absurd h List.not_mem_nil

theorem length_trailersOf : (trailersOf expireAt xmin xmax).length ≤ 3 := by
  unfold trailersOf
  split_ifs <;> simp

/-- A trailer that is not written stands for zero. -/
theorem foldl_trailersOf : (trailersOf expireAt xmin xmax).foldl Trailers.set ⟨0, 0, 0⟩ = ⟨expireAt, xmin, xmax⟩ := by
  unfold trailersOf
  by_cases he : expireAt ≠ 0
  · by_cases hx : xmin ≠ 0 ∨ xmax ≠ 0
    · rw [if_pos he, if_pos hx]
      rfl
    · rw [if_pos he, if_neg hx]
      push Not at hx
      rw [hx.1, hx.2]
      rfl
  · push Not at he
    by_cases hx : xmin ≠ 0 ∨ xmax ≠ 0
    · rw [if_neg (by simpa using he), if_pos hx, he]
      rfl
    · rw [if_neg (by simpa using he), if_neg hx, he]
      push Not at hx
      rw [hx.1, hx.2]
      rfl

/-! ## The round trip -/

/-- A row is written, and reading it from the start of any longer buffer gives back its values and trailers and
the number of bytes that were written. -/
def RoundTrips (ops : FloatOps) (cols : List ColumnType) (values : List Value) (expireAt xmin xmax : BitVec 64) : Prop :=
  ∃ out, serializeRowWithMvcc ops cols values expireAt xmin xmax = some out ∧ ∀ rest,
    List.Forall₂ (fun cv v' => SameValue ops cv.1 cv.2 v') (cols.zip values)
        (deserializeRowWithMvcc ops cols (out ++ rest)).1 ∧
      (deserializeRowWithMvcc ops cols (out ++ rest)).2 = (⟨expireAt, xmin, xmax⟩, out.length)

theorem headerOf_append (es fs : List (Nat × List UInt8)) : headerOf (es ++ fs) = headerOf es ++ headerOf fs :=
  List.flatMap_append ..

theorem bodyOf_append (es fs : List (Nat × List UInt8)) : bodyOf (es ++ fs) = bodyOf es ++ bodyOf fs :=
  List.flatMap_append ..

theorem length_le_bodyOf {es : List (Nat × List UInt8)} {e : Nat × List UInt8} (h : e ∈ es) :
    e.2.length ≤ (bodyOf es).length := by
  induction es with
  | nil => exact absurd h List.not_mem_nil
  | cons d es ih =>
    have hbody : bodyOf (d :: es) = d.2 ++ bodyOf es := List.flatMap_cons ..
    rw [hbody, List.length_append]
    rcases List.mem_cons.mp h with rfl | h
    · omega
    · have := ih h
      omega

theorem length_headerOf {k : Nat} {es : List (Nat × List UInt8)} (h : ∀ e ∈ es, (putVarint e.1).length ≤ k) :
    (headerOf es).length ≤ k * es.length := by
  induction es with
  | nil => exact Nat.le_refl 0
  | cons d es ih =>
    have hhead : headerOf (d :: es) = putVarint d.1 ++ headerOf es := List.flatMap_cons ..
    have hd := h d (List.mem_cons_self ..)
    have := ih fun e he => h e (List.mem_cons_of_mem _ he)
    rw [hhead, List.length_append, List.length_cons, Nat.mul_succ]
    omega

theorem headerOf_trailers (ts : List (Nat × BitVec 64))
    (h : ∀ e ∈ ts, e.1 = serialTypeTtl ∨ e.1 = serialTypeXmin ∨ e.1 = serialTypeXmax) :
    (headerOf (ts.map fun e => (e.1, leBytes 8 e.2.toNat))).length = ts.length := by
  induction ts with
  | nil => rfl
  | cons e ts ih =>
    have hhead : headerOf ((e :: ts).map fun e => (e.1, leBytes 8 e.2.toNat)) =
        putVarint e.1 ++ headerOf (ts.map fun e => (e.1, leBytes 8 e.2.toNat)) := List.flatMap_cons ..
    have hm := h e (List.mem_cons_self ..)
    simp only [serialTypeTtl, serialTypeXmin, serialTypeXmax] at hm
    rw [hhead, List.length_append, ih fun d hd => h d (List.mem_cons_of_mem _ hd), putVarint_small (by omega),
      List.length_cons]
    exact Nat.add_comm 1 _

theorem bodyOf_trailers (ts : List (Nat × BitVec 64)) :
    (bodyOf (ts.map fun e => (e.1, leBytes 8 e.2.toNat))).length = 8 * ts.length := by
  induction ts with
  | nil => rfl
  | cons e ts ih =>
    have hbody : bodyOf ((e :: ts).map fun e => (e.1, leBytes 8 e.2.toNat)) =
        leBytes 8 e.2.toNat ++ bodyOf (ts.map fun e => (e.1, leBytes 8 e.2.toNat)) := List.flatMap_cons ..
    rw [hbody, List.length_append, ih, length_leBytes, List.length_cons]
    omega

/-- The bytes of a row, behind its length, read back. -/
theorem deserialize_spec (hlen : values.length = cols.length) (htext : ∀ v ∈ values, WellSized v)
    (hbody : (bodyOf (rowEntries ops cols values expireAt xmin xmax)).length < 2 ^ 31) {total : Nat}
    (htotal : (putVarint total).length + (headerOf (rowEntries ops cols values expireAt xmin xmax)).length = total)
    (hlt : total < 2 ^ 31) {out : List UInt8}
    (hout : out = putVarint total ++ headerOf (rowEntries ops cols values expireAt xmin xmax) ++
      bodyOf (rowEntries ops cols values expireAt xmin xmax)) (rest : List UInt8) :
    List.Forall₂ (fun cv v' => SameValue ops cv.1 cv.2 v') (cols.zip values)
        (deserializeRowWithMvcc ops cols (out ++ rest)).1 ∧
      (deserializeRowWithMvcc ops cols (out ++ rest)).2 = (⟨expireAt, xmin, xmax⟩, out.length) := by
  have hh := headerOf_append ((cols.zip values).map fun cv => serialOf ops cv.1 cv.2)
    ((trailersOf expireAt xmin xmax).map fun t => (t.1, leBytes 8 t.2.toNat))
  have hb := bodyOf_append ((cols.zip values).map fun cv => serialOf ops cv.1 cv.2)
    ((trailersOf expireAt xmin xmax).map fun t => (t.1, leBytes 8 t.2.toNat))
  have hth := headerOf_trailers (trailersOf expireAt xmin xmax) fun e he => mem_trailersOf he
  have htb := bodyOf_trailers (trailersOf expireAt xmin xmax)
  have hok : ∀ cv ∈ cols.zip values, WellSized cv.2 ∧ (serialOf ops cv.1 cv.2).2.length < 2 ^ 31 := by
    intro cv hcv
    refine ⟨htext cv.2 (List.of_mem_zip hcv).2, lt_of_le_of_lt (length_le_bodyOf ?_) hbody⟩
    exact List.mem_append_left _ (List.mem_map.mpr ⟨cv, hcv, rfl⟩)
  have hcols : (cols.zip values).map Prod.fst = cols := List.map_fst_zip (by omega)
  have hsrc : out ++ rest = putVarint total ++ (headerOf (rowEntries ops cols values expireAt xmin xmax) ++
      (bodyOf (rowEntries ops cols values expireAt xmin xmax) ++ rest)) := by
    rw [hout, List.append_assoc, List.append_assoc]
  have hvar : getVarint (out ++ rest) = (total, (putVarint total).length) := by
    rw [hsrc, getVarint_putVarint (by omega)]
  have hlenout : out.length = total + (bodyOf (rowEntries ops cols values expireAt xmin xmax)).length := by
    rw [hout, List.length_append, List.length_append]
    omega
  have hhdr : (out ++ rest).drop (putVarint total).length =
      headerOf (rowEntries ops cols values expireAt xmin xmax) ++
        (bodyOf (rowEntries ops cols values expireAt xmin xmax) ++ rest) := by
    rw [hsrc, List.drop_left]
  have hbdy : (out ++ rest).drop total = bodyOf (rowEntries ops cols values expireAt xmin xmax) ++ rest := by
    have := drop_add_of_drop hhdr
    rwa [htotal] at this
  clear hsrc
  unfold rowEntries at hhdr hbdy htotal hlenout
  rw [hh, List.append_assoc] at hhdr
  rw [hb, List.append_assoc] at hbdy
  rw [hh, List.length_append] at htotal
  rw [hb, List.length_append] at hlenout
  have hread := readColumns_spec hok hhdr hbdy
  have hhdr' := drop_add_of_drop hhdr
  have hbdy' := drop_add_of_drop hbdy
  rw [hcols] at hread
  have hend : (putVarint total).length + (headerOf ((cols.zip values).map fun cv => serialOf ops cv.1 cv.2)).length +
      (trailersOf expireAt xmin xmax).length = total := by omega
  have htr := readTrailers_spec total _ total _ _ ⟨0, 0, 0⟩ (fun e he => mem_trailersOf he) (by omega) hend hhdr' hbdy'
  rw [foldl_trailersOf] at htr
  unfold deserializeRowWithMvcc
  dsimp only
  rw [hvar]
  dsimp only
  rw [Nat.mod_eq_of_lt (by omega : total < 2 ^ 32), hread.2]
  dsimp only
  rw [htr]
  refine ⟨hread.1, Prod.ext rfl ?_⟩
  dsimp only
  omega

/-- A growth that wraps leaves a buffer the body runs past. -/
theorem not_roundTrips (hvar : ∀ e ∈ rowEntries ops cols values expireAt xmin xmax, (putVarint e.1).length ≤ 16)
    (hnum : (rowEntries ops cols values expireAt xmin xmax).length ≤ 19)
    (hbody : (bodyOf (rowEntries ops cols values expireAt xmin xmax)).length < 2 ^ 31)
    (h : ¬ GrowthFits 16384 0 ((rowEntries ops cols values expireAt xmin xmax).map fun e => e.2.length)) :
    ¬ RoundTrips ops cols values expireAt xmin xmax := by
  rintro ⟨out, hout, -⟩
  have hpush := (@foldlM_push _ [] ⟨[], 16384⟩ (by rw [List.length_nil]; omega) hvar
    (by rw [List.length_nil]; omega)).2 h
  rw [serialize_eq, hpush] at hout
  cases hout

/-- A row of at most 16 columns and less than 2^31 bytes makes the round trip exactly when no growth of the body
buffer wraps. -/
theorem record_round_trip_iff (hcols : cols.length ≤ 16) (hlen : values.length = cols.length)
    (htext : ∀ v ∈ values, WellSized v) (hsize : rowSize (rowEntries ops cols values expireAt xmin xmax) < 2 ^ 31) :
    RoundTrips ops cols values expireAt xmin xmax ↔
      GrowthFits 16384 0 ((rowEntries ops cols values expireAt xmin xmax).map fun e => e.2.length) := by
  have hbody : (bodyOf (rowEntries ops cols values expireAt xmin xmax)).length < 2 ^ 31 := by
    unfold rowSize at hsize
    omega
  have hvar : ∀ e ∈ rowEntries ops cols values expireAt xmin xmax, (putVarint e.1).length ≤ 16 := by
    intro e he
    have hsmall := lt_of_le_of_lt (length_le_bodyOf he) hbody
    have hlt : e.1 < 2 ^ 33 := by
      rcases List.mem_append.mp he with he | he
      · obtain ⟨cv, hcv, rfl⟩ := List.mem_map.mp he
        exact serialOf_lt (htext cv.2 (List.of_mem_zip hcv).2) hsmall
      · obtain ⟨t, ht, rfl⟩ := List.mem_map.mp he
        have hm := mem_trailersOf ht
        simp only [serialTypeTtl, serialTypeXmin, serialTypeXmax] at hm
        dsimp only
        omega
    exact putVarint_length (by decide) (lt_trans hlt (by decide))
  have hnum : (rowEntries ops cols values expireAt xmin xmax).length ≤ 19 := by
    have := @length_trailersOf expireAt xmin xmax
    unfold rowEntries
    rw [List.length_append, List.length_map, List.length_map, List.length_zip]
    omega
  have hhdr := length_headerOf hvar
  obtain ⟨total, hsome, htotal⟩ :=
    totalHdrSize_some (n := (headerOf (rowEntries ops cols values expireAt xmin xmax)).length) (by omega)
  have hlt : total < 2 ^ 31 := by
    unfold rowSize at hsize
    rw [hsome, Option.getD_some] at hsize
    omega
  constructor
  · intro htrip
    by_contra hn
    exact not_roundTrips hvar hnum hbody hn htrip
  · intro hfit
    obtain ⟨cap, hfold⟩ := (@foldlM_push _ [] ⟨[], 16384⟩ (by rw [List.length_nil]; omega) hvar
      (by rw [List.length_nil]; omega)).1 hfit
    refine ⟨putVarint total ++ headerOf (rowEntries ops cols values expireAt xmin xmax) ++
      bodyOf (rowEntries ops cols values expireAt xmin xmax), ?_, ?_⟩
    · rw [serialize_eq, hfold, List.nil_append, List.nil_append]
      show (totalHdrSize _ 16 _).bind _ = _
      rw [hsome]
      rfl
    · exact deserialize_spec hlen htext hbody htotal hlt rfl

/-! ## The layout of a row -/

/-- The length of the header, with the byte that holds it. -/
def headerSize (es : List (Nat × List UInt8)) : Nat := (headerOf es).length + 1

/-- What is written is the serial types and the bytes of the entries, in order. -/
theorem foldlM_push_some : ∀ {es : List (Nat × List UInt8)} {hdr : List UInt8} {b : SerBody} {r : List UInt8 × SerBody},
    (∀ e ∈ es, (putVarint e.1).length ≤ 16) → hdr.length + 16 * es.length ≤ 4096 → es.foldlM push (hdr, b) = some r →
    r.1 = hdr ++ headerOf es ∧ r.2.bytes = b.bytes ++ bodyOf es := by
  intro es
  induction es with
  | nil =>
    intro hdr b r _ _ h
    obtain rfl := Option.some.inj h
    exact ⟨(List.append_nil _).symm, (List.append_nil _).symm⟩
  | cons e es ih =>
    intro hdr b r hvar hhdr h
    have hbody : bodyOf (e :: es) = e.2 ++ bodyOf es := List.flatMap_cons ..
    have hhead : headerOf (e :: es) = putVarint e.1 ++ headerOf es := List.flatMap_cons ..
    have hv := hvar e (List.mem_cons_self ..)
    rw [List.length_cons] at hhdr
    have hpush : pushHeader hdr e.1 = hdr ++ putVarint e.1 := if_pos (by omega)
    rw [List.foldlM_cons] at h
    obtain ⟨q, hq, h⟩ := Option.bind_eq_some_iff.mp h
    obtain ⟨b', hb, hq⟩ := Option.bind_eq_some_iff.mp hq
    obtain rfl := Option.some.inj hq
    have hbytes : b'.bytes = b.bytes ++ e.2 := by
      unfold SerBody.append at hb
      dsimp only at hb
      split at hb
      · rw [← Option.some.inj hb]
      · cases hb
    rw [hpush] at h
    obtain ⟨h1, h2⟩ := ih (fun d hd => hvar d (List.mem_cons_of_mem _ hd)) (by rw [List.length_append]; omega) h
    rw [h1, h2, hhead, hbody, hbytes, List.append_assoc, List.append_assoc]
    exact ⟨rfl, rfl⟩

theorem growthFits_of_le : ∀ {ns : List Nat} {cap len : Nat}, len + ns.sum ≤ cap → GrowthFits cap len ns := by
  intro ns
  induction ns with
  | nil => exact fun _ => trivial
  | cons n ns ih =>
    intro cap len h
    rw [List.sum_cons] at h
    have hcap : newCap cap (len + n) = cap := if_neg (by omega)
    refine ⟨fun hlt => absurd hlt (by omega), ?_⟩
    rw [hcap]
    exact ih (by omega)

/-- The serial type of a value whose length fits `text_len`. -/
theorem serialOf_lt_of_fits (hv : WellSized v) (hfits : v.textLen < 2 ^ 32) : (serialOf ops c v).1 < 2 ^ 34 := by
  by_cases h : v.isNull = true
  · have hs : serialOf ops c v = (0, []) := if_pos h
    rw [hs]
    decide
  · rw [Bool.not_eq_true] at h
    by_cases hc : IsText c
    · rw [serialOf_text hc h hv, ← hv]
      dsimp only
      split <;> omega
    · have hc' : c = .int ∨ c = .bool ∨ c = .float ∨ c = .double ∨ c = .numeric ∨ c = .decimal := by
        cases c <;> simp_all [IsText]
      rcases hc' with rfl | rfl | rfl | rfl | rfl | rfl
      · unfold serialOf
        simp only [h, Bool.false_eq_true, if_false]
        split_ifs <;> norm_num
      · cases hb : v.boolVal <;> simp [serialOf, h, hb]
      all_goals simp [serialOf, h]

/-- The header of a row of at most 16 columns is small. -/
theorem rowEntries_header (hcols : cols.length ≤ 16) (htext : ∀ v ∈ values, WellSized v ∧ v.textLen < 2 ^ 32) :
    (∀ e ∈ rowEntries ops cols values expireAt xmin xmax, (putVarint e.1).length ≤ 16) ∧
      (rowEntries ops cols values expireAt xmin xmax).length ≤ 19 ∧
      headerSize (rowEntries ops cols values expireAt xmin xmax) ≤ 96 := by
  have hserial : ∀ e ∈ rowEntries ops cols values expireAt xmin xmax, e.1 < 2 ^ 34 := by
    intro e he
    rcases List.mem_append.mp he with he | he
    · obtain ⟨cv, hcv, rfl⟩ := List.mem_map.mp he
      obtain ⟨hv, hfits⟩ := htext cv.2 (List.of_mem_zip hcv).2
      exact serialOf_lt_of_fits hv hfits
    · obtain ⟨t, ht, rfl⟩ := List.mem_map.mp he
      have hm := mem_trailersOf ht
      simp only [serialTypeTtl, serialTypeXmin, serialTypeXmax] at hm
      dsimp only
      omega
  have hvar : ∀ e ∈ rowEntries ops cols values expireAt xmin xmax, (putVarint e.1).length ≤ 5 := fun e he =>
    putVarint_length (by decide) (lt_trans (hserial e he) (by decide))
  have hnum : (rowEntries ops cols values expireAt xmin xmax).length ≤ 19 := by
    have := @length_trailersOf expireAt xmin xmax
    unfold rowEntries
    rw [List.length_append, List.length_map, List.length_map, List.length_zip]
    omega
  have hhdr := length_headerOf hvar
  refine ⟨fun e he => le_trans (hvar e he) (by decide), hnum, ?_⟩
  unfold headerSize
  omega

/-- A row that is written starts with the length of its header, in one byte. -/
theorem serialize_layout {record : List UInt8} (hcols : cols.length ≤ 16)
    (htext : ∀ v ∈ values, WellSized v ∧ v.textLen < 2 ^ 32)
    (h : serializeRowWithMvcc ops cols values expireAt xmin xmax = some record) :
    headerSize (rowEntries ops cols values expireAt xmin xmax) ≤ 96 ∧
      record = putVarint (headerSize (rowEntries ops cols values expireAt xmin xmax)) ++
        headerOf (rowEntries ops cols values expireAt xmin xmax) ++
        bodyOf (rowEntries ops cols values expireAt xmin xmax) := by
  obtain ⟨hvar, hnum, hsmall⟩ := @rowEntries_header ops cols values expireAt xmin xmax hcols htext
  refine ⟨hsmall, ?_⟩
  rw [serialize_eq] at h
  obtain ⟨r, hr, h⟩ := Option.bind_eq_some_iff.mp h
  obtain ⟨h1, h2⟩ := foldlM_push_some hvar (by rw [List.length_nil]; omega) hr
  rw [List.nil_append] at h1 h2
  rw [h1, h2, totalHdrSize_small (by unfold headerSize at hsmall; omega), Option.bind_some] at h
  exact (Option.some.inj h).symm

/-- A row whose body fits the buffer on the stack is written. -/
theorem serialize_small (hcols : cols.length ≤ 16) (htext : ∀ v ∈ values, WellSized v ∧ v.textLen < 2 ^ 32)
    (hsize : (bodyOf (rowEntries ops cols values expireAt xmin xmax)).length ≤ 16384) :
    ∃ record, serializeRowWithMvcc ops cols values expireAt xmin xmax = some record := by
  obtain ⟨hvar, hnum, hsmall⟩ := @rowEntries_header ops cols values expireAt xmin xmax hcols htext
  have hsum : ((rowEntries ops cols values expireAt xmin xmax).map fun e => e.2.length).sum =
      (bodyOf (rowEntries ops cols values expireAt xmin xmax)).length := (List.length_flatMap ..).symm
  obtain ⟨cap, hfold⟩ := (@foldlM_push _ [] ⟨[], 16384⟩ (by rw [List.length_nil]; omega) hvar
    (by rw [List.length_nil]; omega)).1 (growthFits_of_le (by rw [List.length_nil, Nat.zero_add, hsum]; exact hsize))
  rw [serialize_eq, hfold, Option.bind_some]
  dsimp only
  rw [List.nil_append, totalHdrSize_small (by unfold headerSize at hsmall; omega)]
  exact ⟨_, rfl⟩

/-- Number conversions that know zero. -/
def zeroOps : FloatOps := ⟨fun _ => 0, fun _ => 0, fun _ => 0, fun _ => 0, fun _ => 0⟩

/-- A text of `n` letters. -/
def letters (n : Nat) : Value := { Value.init with textVal := List.replicate n 65, textLen := n }

/-- A TEXT so long that the size asked for the body wraps. -/
theorem text_overruns {v : Value} (hv : WellSized v) (h : v.isNull = false) (hlo : 2 ^ 31 - 4096 ≤ v.textVal.length)
    (hhi : v.textVal.length + 16 < 2 ^ 31) :
    rowSize (rowEntries ops [.text] [v] 0 0 0) < 2 ^ 31 ∧ ¬ RoundTrips ops [.text] [v] 0 0 0 := by
  have hes : rowEntries ops [.text] [v] 0 0 0 = [(13 + 2 * v.textVal.length, v.textVal)] := by
    have hs := @serialOf_text ops .text v (by simp [IsText]) h hv
    rw [if_neg (by decide)] at hs
    show [serialOf ops .text v] ++ [] = _
    rw [hs]
    rfl
  have hvar : (putVarint (13 + 2 * v.textVal.length)).length ≤ 5 := putVarint_length (by omega) (by omega)
  have hhdr : headerOf [(13 + 2 * v.textVal.length, v.textVal)] = putVarint (13 + 2 * v.textVal.length) :=
    List.flatMap_singleton ..
  have hbdy : bodyOf [(13 + 2 * v.textVal.length, v.textVal)] = v.textVal := List.flatMap_singleton ..
  refine ⟨?_, not_roundTrips ?_ ?_ ?_ ?_⟩
  · rw [hes, rowSize, hhdr, hbdy, totalHdrSize_small (by omega), Option.getD_some]
    omega
  · rw [hes]
    intro e he
    rw [List.mem_singleton.mp he]
    exact le_trans hvar (by omega)
  · rw [hes, List.length_singleton]
    omega
  · rw [hes, hbdy]
    omega
  · rw [hes]
    intro hfit
    have hneed := hfit.1
    dsimp only at hneed
    omega

/-- One TEXT of 2^31 - 4000 bytes: the size asked for the body is `(2^31 + 96) * 2`, which is 192 in 32 bits. -/
theorem long_text_overruns : ∃ values : List Value, (∀ v ∈ values, WellSized v) ∧
    rowSize (rowEntries zeroOps [.text] values 0 0 0) < 2 ^ 31 ∧ ¬ RoundTrips zeroOps [.text] values 0 0 0 := by
  obtain ⟨n, hn⟩ : ∃ n, n = 2147479648 := ⟨_, rfl⟩
  have hlen : (letters n).textVal.length = n := List.length_replicate
  obtain ⟨hsize, htrip⟩ := @text_overruns zeroOps (letters n) hlen.symm rfl (by omega) (by omega)
  refine ⟨[letters n], fun v hv => ?_, hsize, htrip⟩
  rw [List.mem_singleton.mp hv]
  exact hlen.symm

/-- A row of an INT, a TEXT and a NULL, with a TTL and a creating transaction, makes the round trip. -/
theorem small_row_round_trips :
    RoundTrips zeroOps [.int, .text, .double] [{ Value.init with intVal := 300 }, letters 3,
      { Value.init with isNull := true }] 7 2 0 := by
  have hes : rowEntries zeroOps [.int, .text, .double] [{ Value.init with intVal := 300 }, letters 3,
      { Value.init with isNull := true }] 7 2 0 = [(2, [44, 1]), (19, [65, 65, 65]), (0, []),
        (10, [7, 0, 0, 0, 0, 0, 0, 0]), (14, [2, 0, 0, 0, 0, 0, 0, 0]), (15, [0, 0, 0, 0, 0, 0, 0, 0])] := by decide
  refine (record_round_trip_iff (by decide) rfl (by simp [WellSized, letters, Value.init]) ?_).mpr ?_
  · rw [hes, rowSize]
    simp only [headerOf, bodyOf, List.flatMap_cons, List.flatMap_nil, putVarint_small (by decide : 2 < 128),
      putVarint_small (by decide : 19 < 128), putVarint_small (by decide : 0 < 128),
      putVarint_small (by decide : 10 < 128), putVarint_small (by decide : 14 < 128),
      putVarint_small (by decide : 15 < 128)]
    show (totalHdrSize 6 16 7).getD 0 + 29 < 2 ^ 31
    rw [totalHdrSize_small (by decide)]
    decide
  · rw [hes]
    decide

end CustomDB
