import CustomDB.Lib.Memory
import CustomDB.Rows.KeyBytes

/-!
# The key in a cell

`extract_col0_from_packed_record` on the memory a cell lies in, with the bytes it reads. It decodes the first serial
type of the header and the bytes behind the header, of an overflow stub in the part of the record that the stub keeps.
-/

namespace CustomDB

namespace Page

open Lib.Bytes Lib.Memory

/-- `OVERFLOW_STUB_HEADER`. -/
def overflowStubHeader : Nat := 8

/-- `BTREE_MAX_LOCAL_PAYLOAD`. -/
def maxLocalPayload : Nat := 1024

/-- `cell_is_overflow_stub`. -/
def CellIsOverflowStub (slotSize : Nat) : Prop := maxLocalPayload ≤ slotSize

instance (slotSize : Nat) : Decidable (CellIsOverflowStub slotSize) := inferInstanceAs (Decidable (_ ≤ _))

/-- The cell that `serialize_cell_for_leaf` makes of a record: the record, or a stub with the first bytes of it. -/
def packCell (record : List UInt8) (firstOverflow : Nat) : List UInt8 :=
  if record.length < maxLocalPayload then record
  else leBytes 4 record.length ++ leBytes 4 firstOverflow ++ record.take (maxLocalPayload - overflowStubHeader)

/-- The length of a text or blob of that serial type. -/
def textLength (serialType : Nat) : Nat :=
  (if serialType % 2 = 0 then (serialType - 12) / 2 else (serialType - 13) / 2) % 2 ^ 32

/-- How many bytes are read behind the header. -/
def packedLength (serialType : Nat) : Nat :=
  if serialType = 1 then 1
  else if serialType = 2 then 2
  else if serialType = 4 then 4
  else if serialType = 7 then 8
  else if 12 ≤ serialType then textLength serialType
  else 0

/-- The value these bytes are decoded to. Integers are read into `int_val` whatever the column's type. -/
def packedValue (ops : FloatOps) (c : ColumnType) (serialType : Nat) (body : List UInt8) : Value :=
  if serialType = 1 then { Value.init with intVal := (BitVec.ofNat 8 (leNat body)).signExtend 32 }
  else if serialType = 2 then { Value.init with intVal := (BitVec.ofNat 16 (leNat body)).signExtend 32 }
  else if serialType = 4 then { Value.init with intVal := BitVec.ofNat 32 (leNat body) }
  else if serialType = 7 then
    let val := BitVec.ofNat 64 (leNat body)
    match c with
    | .float => { Value.init with floatVal := ops.narrow val, doubleVal := val }
    | .double | .numeric | .decimal => { Value.init with doubleVal := val }
    | _ => { Value.init with intVal := ops.intOfDouble val }
  else if serialType = 8 then
    match c with
    | .bool => { Value.init with boolVal := false }
    | .double | .numeric | .decimal => { Value.init with doubleVal := 0 }
    | .float => { Value.init with floatVal := 0, doubleVal := 0 }
    | _ => { Value.init with intVal := 0 }
  else if serialType = 9 then
    match c with
    | .bool => { Value.init with boolVal := true }
    | .double | .numeric | .decimal => { Value.init with doubleVal := 0x3ff0000000000000 }
    | .float => { Value.init with floatVal := 0x3f800000, doubleVal := 0x3ff0000000000000 }
    | _ => { Value.init with intVal := 1 }
  else if 12 ≤ serialType then { Value.init with textVal := body, textLen := textLength serialType }
  else Value.init

/-- Bytes that were read: where they start and how many. -/
abbrev Span := Nat × Nat

/-- All bytes of the span lie in the `size` bytes from `base` on. -/
def Span.Inside (s : Span) (base size : Nat) : Prop := ∀ i, s.1 ≤ i → i < s.1 + s.2 → base ≤ i ∧ i < base + size

/-- `extract_col0_from_packed_record`, for a column 0 of type `c`: the value, and the bytes that are read. -/
def extractCol0FromPackedRecord (ops : FloatOps) (c : ColumnType) (m : Mem) (recordBytes cellSize : Nat) :
    Value × List Span :=
  let input := if CellIsOverflowStub cellSize then recordBytes + overflowStubHeader else recordBytes
  let hdr := getVarint (read m input 10)
  let serial := getVarint (read m (input + hdr.2) 10)
  let body : Span := (input + hdr.1 % 2 ^ 32, packedLength serial.1)
  (packedValue ops c serial.1 (read m body.1 body.2), [(input, hdr.2), (input + hdr.2, serial.2), body])

variable {ops : FloatOps} {c : ColumnType} {cols : List ColumnType} {v : Value} {values : List Value}
  {expireAt xmin xmax : BitVec 64} {record : List UInt8} {m : Mem} {a : Nat}

/-! ## What is decoded -/

/-- A varint in memory is read back, whatever follows. -/
theorem getVarint_read {n : Nat} (hn : n < 2 ^ 64) (hlen : (putVarint n).length ≤ 10)
    (h : read m a (putVarint n).length = putVarint n) : getVarint (read m a 10) = (n, (putVarint n).length) := by
  obtain ⟨k, hk⟩ := Nat.exists_eq_add_of_le hlen
  rw [hk, read_add, h, getVarint_putVarint hn]

theorem packedLength_serialOf (hv : WellSized v) (hfits : v.textLen < 2 ^ 32) :
    packedLength (serialOf ops c v).1 = (serialOf ops c v).2.length := by
  by_cases h : v.isNull = true
  · have hs : serialOf ops c v = (0, []) := if_pos h
    rw [hs]
    rfl
  · rw [Bool.not_eq_true] at h
    by_cases hc : IsText c
    · rw [serialOf_text hc h hv, ← hv]
      dsimp only
      have hst : ∀ st, st = 12 + 2 * v.textLen ∨ st = 13 + 2 * v.textLen → packedLength st = v.textLen := by
        intro st hst
        unfold packedLength textLength
        rw [if_neg (by omega), if_neg (by omega), if_neg (by omega), if_neg (by omega), if_pos (by omega)]
        rcases hst with rfl | rfl <;> split <;> omega
      rw [hst _ (by split <;> omega), hv]
    · have hc' : c = .int ∨ c = .bool ∨ c = .float ∨ c = .double ∨ c = .numeric ∨ c = .decimal := by
        cases c <;> simp_all [IsText]
      rcases hc' with rfl | rfl | rfl | rfl | rfl | rfl
      · unfold serialOf
        simp only [h, Bool.false_eq_true, if_false]
        split_ifs <;> simp [packedLength]
      · cases hb : v.boolVal <;> simp [serialOf, h, hb, packedLength]
      all_goals simp [serialOf, h, packedLength]

/-- The decoded value of a column that is not NULL is the one `deserialize_row` gives back. -/
theorem packedValue_stored (hv : WellSized v) (hfits : v.textLen < 2 ^ 32) (h : v.isNull = false) :
    packedValue ops c (serialOf ops c v).1 (serialOf ops c v).2 = v.stored ops c := by
  by_cases hc : IsText c
  · rw [Value.stored_text hc h hv, serialOf_text hc h hv, ← hv]
    dsimp only
    have hst : ∀ st, st = 12 + 2 * v.textLen ∨ st = 13 + 2 * v.textLen →
        packedValue ops c st v.textVal = { Value.init with textVal := v.textVal, textLen := v.textLen } := by
      intro st hst
      have hl : textLength st = v.textLen := by
        unfold textLength
        rcases hst with rfl | rfl <;> split <;> omega
      unfold packedValue
      rw [if_neg (by omega), if_neg (by omega), if_neg (by omega), if_neg (by omega), if_neg (by omega),
        if_neg (by omega), if_pos (by omega), hl]
    exact hst _ (by split <;> omega)
  · have hc' : c = .int ∨ c = .bool ∨ c = .float ∨ c = .double ∨ c = .numeric ∨ c = .decimal := by
      cases c <;> simp_all [IsText]
    rcases hc' with rfl | rfl | hc'
    · have hsmall : (serialOf ops .int v).2.length < 2 ^ 31 := by
        unfold serialOf
        simp only [h, Bool.false_eq_true, if_false]
        split_ifs <;> simp
      rw [← readValue_stored hv hsmall []]
      unfold serialOf
      simp only [h, Bool.false_eq_true, if_false, List.append_nil]
      split_ifs <;> simp [packedValue, readValue, setNumber, setConstant, List.take_of_length_le]
    · cases hb : v.boolVal <;> simp [serialOf, h, hb, packedValue, Value.stored]
    · have hs : serialOf ops c v = (7, leBytes 8 (if c = .float then if nonzero v.doubleVal then v.doubleVal
          else ops.widen v.floatVal else v.doubleVal).toNat) := by
        rcases hc' with rfl | rfl | rfl | rfl <;> simp [serialOf, h]
      have hread : ∀ d : BitVec 64, BitVec.ofNat 64 (leNat (leBytes 8 d.toNat)) = d := by
        intro d
        have hd := ofNat_leNat_leBytes (by decide : 2 ^ 64 = 256 ^ 8) d []
        rwa [List.append_nil, List.take_of_length_le (by rw [length_leBytes])] at hd
      rw [hs]
      rcases hc' with rfl | rfl | rfl | rfl <;> simp [packedValue, Value.stored, h, hread]

/-! ## The key of what is decoded -/

/-- The fields of a value from which its key is made are those of `value_init`. -/
def BlankKey (c : ColumnType) (v : Value) : Prop :=
  match c with
  | .int => v.intVal = 0
  | .float => v.floatVal = 0
  | .double | .numeric | .decimal => v.doubleVal = 0
  | .bool => v.boolVal = false
  | .blob | .datetime | .date | .time | .timestamp | .text | .vector => v.str = []
  | .varchar => v.str.length % 2 ^ 16 = 0

/-- A NULL has blank fields, and the float of a FLOAT is its stored double, narrowed. -/
def KeyKept (ops : FloatOps) (c : ColumnType) (v : Value) : Prop :=
  (v.isNull = true → BlankKey c v) ∧
    (v.isNull = false → c = .float →
      v.floatVal = ops.narrow (if nonzero v.doubleVal then v.doubleVal else ops.widen v.floatVal))

theorem rawKey_int_iff (x y : BitVec 32) : keyBuf (leBytes 4 x.toNat) = keyBuf (leBytes 4 y.toNat) ↔ x = y :=
  ⟨fun h => by rw [← rawInt_keyBuf x, h, rawInt_keyBuf], fun h => by rw [h]⟩

theorem rawKey_double_iff (x y : BitVec 64) : keyBuf (leBytes 8 x.toNat) = keyBuf (leBytes 8 y.toNat) ↔ x = y :=
  ⟨fun h => by rw [← rawDouble_keyBuf x, h, rawDouble_keyBuf], fun h => by rw [h]⟩

/-- Only a blank value has the key of a blank one. -/
theorem rawCol0Key_init_iff (c : ColumnType) (v : Value) : rawCol0Key c Value.init = rawCol0Key c v ↔ BlankKey c v := by
  have htext : keyBuf ((Value.init).str.take 31) = keyBuf (v.str.take 31) ↔ v.str = [] := by
    constructor
    · intro h
      cases hs : v.str with
      | nil => rfl
      | cons x s =>
        have hx : x ≠ 0 := fun h0 => zero_notMem_str v (by rw [hs, h0]; exact List.mem_cons_self ..)
        rw [hs] at h
        have hhead := congrArg (fun l => l.headD 0) h
        exact absurd (show (0 : UInt8) = x from hhead).symm hx
    · intro h
      rw [h]
      rfl
  cases c with
  | int => exact (rawKey_int_iff 0 v.intVal).trans eq_comm
  | float => exact (rawKey_int_iff 0 v.floatVal).trans eq_comm
  | double => exact (rawKey_double_iff 0 v.doubleVal).trans eq_comm
  | numeric => exact (rawKey_double_iff 0 v.doubleVal).trans eq_comm
  | decimal => exact (rawKey_double_iff 0 v.doubleVal).trans eq_comm
  | bool =>
    have hb : ∀ b : Bool, keyBuf [0] = keyBuf [if b then 1 else 0] ↔ b = false := by decide
    exact hb v.boolVal
  | varchar =>
    constructor
    · intro h
      have hlen : ∀ u : Value, leNat ((rawCol0Key .varchar u).take 2) = min (u.str.length % 2 ^ 16) 30 := by
        intro u
        unfold rawCol0Key keyBuf
        dsimp only
        rw [List.append_assoc, List.take_left' (length_leBytes 2 _), leNat_leBytes]
        exact Nat.mod_eq_of_lt (lt_of_le_of_lt (min_le_right ..) (by decide))
      have hzero : min (v.str.length % 2 ^ 16) 30 = 0 := by
        rw [← hlen v, ← h, hlen]
        rfl
      show v.str.length % 2 ^ 16 = 0
      omega
    · intro h
      have hz : v.str.length % 2 ^ 16 = 0 := h
      unfold rawCol0Key
      dsimp only
      rw [hz]
      rfl
  | _ => exact htext

/-- The key of what is decoded is the key of the value. -/
theorem rawCol0Key_packed_iff (hv : WellSized v) (hfits : v.textLen < 2 ^ 32) :
    rawCol0Key c (packedValue ops c (serialOf ops c v).1 (serialOf ops c v).2) = rawCol0Key c v ↔ KeyKept ops c v := by
  cases h : v.isNull with
  | true =>
    have hs : serialOf ops c v = (0, []) := if_pos h
    rw [hs, show packedValue ops c (0, ([] : List UInt8)).1 (0, []).2 = Value.init from rfl, rawCol0Key_init_iff]
    exact ⟨fun hb => ⟨fun _ => hb, fun hn => absurd (h.symm.trans hn) (by decide)⟩, fun hk => hk.1 h⟩
  | false =>
    rw [packedValue_stored hv hfits h]
    have hkept : KeyKept ops c v ↔ (c = .float →
        v.floatVal = ops.narrow (if nonzero v.doubleVal then v.doubleVal else ops.widen v.floatVal)) :=
      ⟨fun hk => hk.2 h, fun hf => ⟨fun hn => absurd (h.symm.trans hn) (by decide), fun _ => hf⟩⟩
    rw [hkept]
    by_cases hc : IsText c
    · have hstr : (v.stored ops c).str = v.str := by rw [Value.stored_text hc h hv]; rfl
      have hkey : rawCol0Key c (v.stored ops c) = rawCol0Key c v := by
        unfold rawCol0Key
        cases c with
        | int => exact absurd (by simp) hc
        | bool => exact absurd (by simp) hc
        | float => exact absurd (by simp) hc
        | double => exact absurd (by simp) hc
        | numeric => exact absurd (by simp) hc
        | decimal => exact absurd (by simp) hc
        | _ => simp only [hstr]
      exact ⟨fun _ hf => absurd (by rw [hf]; simp) hc, fun _ => hkey⟩
    · have hc' : c = .int ∨ c = .bool ∨ c = .float ∨ c = .double ∨ c = .numeric ∨ c = .decimal := by
        cases c <;> simp_all [IsText]
      rcases hc' with rfl | rfl | rfl | rfl | rfl | rfl
      · exact ⟨fun _ hf => ColumnType.noConfusion hf, fun _ => by simp [rawCol0Key, Value.stored, h]⟩
      · exact ⟨fun _ hf => ColumnType.noConfusion hf, fun _ => by simp [rawCol0Key, Value.stored, h]⟩
      · simp only [rawCol0Key, Value.stored, h, Bool.false_eq_true, if_false, forall_const]
        exact (rawKey_int_iff _ _).trans eq_comm
      all_goals exact ⟨fun _ hf => ColumnType.noConfusion hf, fun _ => by simp [rawCol0Key, Value.stored, h]⟩

/-! ## Reading it in the cell -/

/-- What `extract_col0_from_packed_record` reads of the cell is the key of the value, and it reads the cell only. -/
def KeyReadsBack (ops : FloatOps) (c : ColumnType) (v : Value) (m : Mem) (a cellSize : Nat) : Prop :=
  rawCol0Key c (extractCol0FromPackedRecord ops c m a cellSize).1 = rawCol0Key c v ∧
    ∀ s ∈ (extractCol0FromPackedRecord ops c m a cellSize).2, s.Inside a cellSize

/-- The bytes of a record from `input` on, as far as the cell has them: its header is read back, and what lies behind
it where the cell has it. -/
theorem extract_visible {es : List (Nat × List UInt8)} {e : Nat × List UInt8} {input visible : Nat}
    (hserial : e.1 < 2 ^ 34) (hsize : headerSize (e :: es) ≤ 96) (hvis : headerSize (e :: es) ≤ visible)
    (hread : read m input visible =
      (putVarint (headerSize (e :: es)) ++ headerOf (e :: es) ++ bodyOf (e :: es)).take visible) :
    getVarint (read m input 10) = (headerSize (e :: es), 1) ∧
      getVarint (read m (input + 1) 10) = (e.1, (putVarint e.1).length) ∧
      (putVarint e.1).length + 1 ≤ headerSize (e :: es) ∧
      (headerSize (e :: es) + e.2.length ≤ visible →
        read m (input + headerSize (e :: es)) e.2.length = e.2) := by
  have hhead : headerOf (e :: es) = putVarint e.1 ++ headerOf es := List.flatMap_cons ..
  have hbody : bodyOf (e :: es) = e.2 ++ bodyOf es := List.flatMap_cons ..
  have hone : (putVarint (headerSize (e :: es))).length = 1 := by rw [putVarint_small (by omega)]; rfl
  have hlen : headerSize (e :: es) = (putVarint e.1).length + (headerOf es).length + 1 := by
    rw [headerSize, hhead, List.length_append]
  have hfive : (putVarint e.1).length ≤ 5 := putVarint_length (by decide) (lt_trans hserial (by decide))
  have hpart : ∀ i k, i + k ≤ visible → read m (input + i) k =
      ((putVarint (headerSize (e :: es)) ++ headerOf (e :: es) ++
        bodyOf (e :: es)).drop i).take k := by
    intro i k hik
    rw [read_part hik, hread, List.drop_take, List.take_take, min_eq_left (by omega)]
  refine ⟨?_, ?_, by omega, fun hfit => ?_⟩
  · have h := hpart 0 1 (by omega)
    rw [Nat.add_zero, List.drop_zero, List.append_assoc, List.take_left' hone] at h
    rw [getVarint_read (n := headerSize (e :: es)) (by omega) (by omega) (by rw [hone]; exact h), hone]
  · refine getVarint_read (by omega) (by omega) ?_
    rw [hpart 1 _ (by omega), List.append_assoc, List.drop_left' hone, hhead, List.append_assoc, List.take_left]
  · rw [hpart _ _ hfit]
    have hdrop : (putVarint (headerSize (e :: es)) ++ headerOf (e :: es)).length =
        headerSize (e :: es) := by
      rw [List.length_append, hone, headerSize]
      exact Nat.add_comm 1 _
    rw [List.drop_left' hdrop, hbody, List.take_left]

/-- The key in a cell, by what the cell has of the record. -/
theorem keyReadsBack_visible {es : List (Nat × List UInt8)} {input visible cellSize : Nat}
    (hv : WellSized v) (hfits : v.textLen < 2 ^ 32) (hsize : headerSize (serialOf ops c v :: es) ≤ 96)
    (hvis : headerSize (serialOf ops c v :: es) ≤ visible)
    (hinput : input = if CellIsOverflowStub cellSize then a + overflowStubHeader else a)
    (hend : input + visible = a + cellSize)
    (hread : read m input visible =
      (putVarint (headerSize (serialOf ops c v :: es)) ++ headerOf (serialOf ops c v :: es) ++
        bodyOf (serialOf ops c v :: es)).take visible) :
    KeyReadsBack ops c v m a cellSize ↔
      KeyKept ops c v ∧ headerSize (serialOf ops c v :: es) + (serialOf ops c v).2.length ≤ visible := by
  obtain ⟨hdr, hserial, hle, hbody⟩ := extract_visible (serialOf_lt_of_fits hv hfits) hsize hvis hread
  have hstart : a ≤ input := by
    rw [hinput]
    split <;> omega
  have hextract : extractCol0FromPackedRecord ops c m a cellSize =
      (packedValue ops c (serialOf ops c v).1 (read m (input + headerSize (serialOf ops c v :: es)) (serialOf ops c v).2.length),
        [(input, 1), (input + 1, (putVarint (serialOf ops c v).1).length),
          (input + headerSize (serialOf ops c v :: es), (serialOf ops c v).2.length)]) := by
    unfold extractCol0FromPackedRecord
    dsimp only
    rw [← hinput, hdr]
    dsimp only
    rw [hserial, packedLength_serialOf hv hfits, Nat.mod_eq_of_lt (by omega)]
  unfold KeyReadsBack
  rw [hextract]
  constructor
  · rintro ⟨hkey, hspans⟩
    have hin : headerSize (serialOf ops c v :: es) + (serialOf ops c v).2.length ≤ visible := by
      by_contra hout
      have hlast := hspans _ (by simp : (input + headerSize (serialOf ops c v :: es), (serialOf ops c v).2.length) ∈ _)
      have := hlast (a + cellSize) (by dsimp only; omega) (by dsimp only; omega)
      omega
    rw [hbody hin] at hkey
    exact ⟨(rawCol0Key_packed_iff hv hfits).mp hkey, hin⟩
  · rintro ⟨hkept, hin⟩
    refine ⟨?_, fun s hs i h1 h2 => ?_⟩
    · dsimp only
      rw [hbody hin]
      exact (rawCol0Key_packed_iff hv hfits).mpr hkept
    · simp only [List.mem_cons, List.not_mem_nil, or_false] at hs
      rcases hs with rfl | rfl | rfl <;> dsimp only at h1 h2 <;> omega

theorem rowSize_eq {es : List (Nat × List UInt8)} (h : headerSize es ≤ 96) :
    rowSize es = headerSize es + (bodyOf es).length := by
  unfold headerSize at h
  rw [rowSize, totalHdrSize_small (by omega)]
  rfl

/-- The key in the cell of a record. -/
theorem keyReadsBack_record {es : List (Nat × List UInt8)} (hv : WellSized v) (hfits : v.textLen < 2 ^ 32)
    (hsize : headerSize (serialOf ops c v :: es) ≤ 96)
    (hrecord : record = putVarint (headerSize (serialOf ops c v :: es)) ++ headerOf (serialOf ops c v :: es) ++
      bodyOf (serialOf ops c v :: es)) (firstOverflow : Nat)
    (hcell : read m a (packCell record firstOverflow).length = packCell record firstOverflow) :
    KeyReadsBack ops c v m a (packCell record firstOverflow).length ↔
      KeyKept ops c v ∧ (rowSize (serialOf ops c v :: es) < 1024 ∨
        headerSize (serialOf ops c v :: es) + (serialOf ops c v).2.length ≤ 1016) := by
  have hone : (putVarint (headerSize (serialOf ops c v :: es))).length = 1 := by rw [putVarint_small (by omega)]; rfl
  have hlen : record.length = headerSize (serialOf ops c v :: es) + (bodyOf (serialOf ops c v :: es)).length := by
    rw [hrecord, List.length_append, List.length_append, hone, headerSize]
    omega
  have hbody : (serialOf ops c v).2.length ≤ (bodyOf (serialOf ops c v :: es)).length :=
    length_le_bodyOf (List.mem_cons_self ..)
  rw [rowSize_eq hsize, ← hlen]
  by_cases hinline : record.length < 1024
  · have hpack : packCell record firstOverflow = record := if_pos hinline
    rw [hpack] at hcell ⊢
    have hstub : ¬ CellIsOverflowStub record.length := not_le.mpr hinline
    have hread : read m a record.length = record.take record.length := by rw [hcell, List.take_length]
    rw [keyReadsBack_visible hv hfits hsize (by omega) (if_neg hstub).symm rfl (by rw [← hrecord]; exact hread)]
    exact ⟨fun hk => ⟨hk.1, Or.inl hinline⟩, fun hk => ⟨hk.1, by omega⟩⟩
  · have hpack : packCell record firstOverflow = leBytes 4 record.length ++ leBytes 4 firstOverflow ++ record.take 1016 :=
      if_neg hinline
    have hplen : (packCell record firstOverflow).length = 1024 := by
      rw [hpack, List.length_append, List.length_append, length_leBytes, length_leBytes, List.length_take]
      omega
    have hlocal : read m (a + 8) 1016 = record.take 1016 := by
      rw [read_part (n := 1024) (by omega), ← hplen, hcell, hpack,
        List.drop_left' (by rw [List.length_append, length_leBytes, length_leBytes]),
        List.take_of_length_le (by rw [List.length_take]; omega)]
    have hinput : a + 8 = if CellIsOverflowStub 1024 then a + overflowStubHeader else a :=
      (if_pos (show CellIsOverflowStub 1024 from le_refl _)).symm
    have hend : a + 8 + 1016 = a + 1024 := by omega
    rw [hrecord] at hlocal
    rw [hplen, keyReadsBack_visible hv hfits hsize (by omega) hinput hend hlocal]
    exact ⟨fun hk => ⟨hk.1, Or.inr hk.2⟩, fun hk => ⟨hk.1, by omega⟩⟩

/-- The key of a stored row is read back from its cell, within the cell, exactly when column 0 is kept by the record
and, in a row that overflows, the header and the bytes of column 0 fit the part that the stub has. -/
theorem key_reads_back_iff (hcols : (c :: cols).length ≤ 16) (htext : ∀ u ∈ v :: values, WellSized u ∧ u.textLen < 2 ^ 32)
    (h : serializeRowWithMvcc ops (c :: cols) (v :: values) expireAt xmin xmax = some record) (firstOverflow : Nat)
    (hcell : read m a (packCell record firstOverflow).length = packCell record firstOverflow) :
    KeyReadsBack ops c v m a (packCell record firstOverflow).length ↔
      KeyKept ops c v ∧ (rowSize (rowEntries ops (c :: cols) (v :: values) expireAt xmin xmax) < 1024 ∨
        headerSize (rowEntries ops (c :: cols) (v :: values) expireAt xmin xmax) + (serialOf ops c v).2.length ≤ 1016) := by
  obtain ⟨hv, hfits⟩ := htext v (List.mem_cons_self ..)
  obtain ⟨hsize, hrecord⟩ := serialize_layout hcols htext h
  exact keyReadsBack_record hv hfits hsize hrecord firstOverflow hcell

theorem letters_fit {n : Nat} (h : n < 2 ^ 32) : ∀ u ∈ [letters n], WellSized u ∧ u.textLen < 2 ^ 32 := by
  intro u hu
  rw [List.mem_singleton.mp hu]
  exact ⟨(List.length_replicate (n := n)).symm, h⟩

/-- A row of one text of letters: it has one entry, with the letters. -/
theorem letters_entries (n : Nat) : rowEntries zeroOps [.text] [letters n] 0 0 0 = [serialOf zeroOps .text (letters n)] ∧
    (serialOf zeroOps .text (letters n)).2.length = n ∧ (bodyOf [serialOf zeroOps .text (letters n)]).length = n := by
  have hlen : (letters n).textVal.length = n := List.length_replicate
  have hs : (serialOf zeroOps .text (letters n)).2.length = n := by
    rw [serialOf_text (by simp [IsText]) rfl hlen.symm]
    exact hlen
  refine ⟨rfl, hs, ?_⟩
  rw [bodyOf, List.flatMap_singleton, hs]

/-- A text of three letters is read back from its cell. -/
theorem key_reads_back_short : ∃ record, serializeRowWithMvcc zeroOps [.text] [letters 3] 0 0 0 = some record ∧
    ∀ a, KeyReadsBack zeroOps .text (letters 3) (write (fun _ => 255) a (packCell record 0)) a (packCell record 0).length := by
  have htext := letters_fit (n := 3) (by decide)
  obtain ⟨record, h⟩ := @serialize_small zeroOps [.text] [letters 3] 0 0 0 (by decide) htext (by decide)
  refine ⟨record, h, fun a => ?_⟩
  refine (key_reads_back_iff (by decide) htext h 0 (read_write_self ..)).mpr ⟨⟨nofun, nofun⟩, Or.inl ?_⟩
  have hlen := (serialize_layout (by decide) htext h).1
  rw [rowSize_eq hlen]
  exact lt_of_le_of_lt (Nat.add_le_add_right hlen _) (by decide)

/-- The text of a row that overflows is longer than the part of it in the stub: bytes behind the cell are read. -/
theorem long_key_overreads : ∃ record, serializeRowWithMvcc zeroOps [.text] [letters 1100] 0 0 0 = some record ∧
    ∀ m a, read m a (packCell record 5).length = packCell record 5 →
      ¬ KeyReadsBack zeroOps .text (letters 1100) m a (packCell record 5).length := by
  have htext := letters_fit (n := 1100) (by decide)
  obtain ⟨hes, hlen, hbody⟩ := letters_entries 1100
  obtain ⟨record, h⟩ := @serialize_small zeroOps [.text] [letters 1100] 0 0 0 (by decide) htext
    (by rw [hes, hbody]; decide)
  refine ⟨record, h, fun m a hcell hback => ?_⟩
  obtain ⟨hsize, hrecord⟩ := serialize_layout (by decide) htext h
  rw [hes] at hsize hrecord
  have hfits := ((keyReadsBack_record (htext _ (List.mem_singleton_self _)).1 (by decide) hsize hrecord 5 hcell).mp hback).2
  rw [rowSize_eq hsize, hbody, hlen] at hfits
  omega

end Page

end CustomDB
