import Mathlib
import CustomDB.Lib.Bytes

/-!
# The record format

`serialize_row_with_mvcc` and `deserialize_row_with_mvcc`: a header of varint serial types behind its own
length, then the bytes of the columns and of the optional trailers. The two loops of the source are kept apart.
-/

namespace CustomDB

open Lib.Bytes

inductive ColumnType where
  | int | text | float | double | bool | varchar | blob | datetime | date | time | timestamp
  | numeric | decimal | vector
  deriving DecidableEq, Repr

/-- A value, without the capacity of its heap buffer. Doubles and floats are their bit patterns; `textVal` are
the bytes before the terminator. -/
structure Value where
  intVal : BitVec 32
  floatVal : BitVec 32
  doubleVal : BitVec 64
  boolVal : Bool
  isNull : Bool
  textVal : List UInt8
  textLen : Nat
  deriving DecidableEq, Repr

/-- `value_init`. -/
def Value.init : Value := ⟨0, 0, 0, false, false, [], 0⟩

/-- The conversions between number types that the compiler emits. -/
structure FloatOps where
  /-- `(double)` of a `float`. -/
  widen : BitVec 32 → BitVec 64
  /-- `(float)` of a `double`. -/
  narrow : BitVec 64 → BitVec 32
  /-- `(double)` of an `int32_t`. -/
  doubleOfInt : BitVec 32 → BitVec 64
  /-- `(float)` of an `int32_t`. -/
  floatOfInt : BitVec 32 → BitVec 32
  /-- `(int32_t)` of a `double`. -/
  intOfDouble : BitVec 64 → BitVec 32

/-- `d != 0.0`: neither of the two zeros. -/
def nonzero (d : BitVec 64) : Bool := d ≠ 0 && d ≠ 0x8000000000000000

/-- `strlen`. -/
def strlen (s : List UInt8) : Nat := (s.takeWhile (· ≠ 0)).length

/-! ## Varints -/

/-- `put_varint`. -/
def putVarint (v : Nat) : List UInt8 :=
  if 0x80 ≤ v then ((v &&& 0x7f) ||| 0x80).toUInt8 :: putVarint (v >>> 7) else [(v &&& 0x7f).toUInt8]
termination_by v
decreasing_by
  rw [Nat.shiftRight_eq_div_pow]
  omega

/-- The loop of `get_varint`, with `fuel` bytes left of the ten it reads at most and `i` read. -/
def getVarintFrom : Nat → Nat → List UInt8 → Nat → Nat × Nat
  | 0, i, _, result => (result, i)
  | fuel + 1, i, p, result =>
    let b := p.headD 0
    let result := result ||| ((b &&& 0x7f).toNat <<< (7 * i)) % 2 ^ 64
    if b &&& 0x80 = 0 then (result, i + 1) else getVarintFrom fuel (i + 1) p.tail result

/-- `get_varint`: the value and the number of bytes read. -/
def getVarint (p : List UInt8) : Nat × Nat := getVarintFrom 10 0 p 0

/-! ## Writing a row -/

/-- `SERIAL_TYPE_TTL`. -/
def serialTypeTtl : Nat := 10

/-- `SERIAL_TYPE_XMIN`. -/
def serialTypeXmin : Nat := 14

/-- `SERIAL_TYPE_XMAX`. -/
def serialTypeXmax : Nat := 15

/-- The body under construction: the bytes so far and the size of the buffer that holds them. -/
structure SerBody where
  bytes : List UInt8
  cap : Nat
  deriving DecidableEq, Repr

/-- `new_cap`, in 32 bits, when the buffer cannot hold `need` bytes. -/
def newCap (cap need : Nat) : Nat := if cap < need then (need + 4096) * 2 % 2 ^ 32 else cap

/-- Append to the body; `none` where the copy runs past the buffer. -/
def SerBody.append (b : SerBody) (bs : List UInt8) : Option SerBody :=
  let cap := newCap b.cap (b.bytes.length + bs.length)
  if b.bytes.length + bs.length ≤ cap then some ⟨b.bytes ++ bs, cap⟩ else none

/-- A serial type goes into the header while `hdr_buf` has room for it. -/
def pushHeader (hdr : List UInt8) (serialType : Nat) : List UInt8 :=
  if hdr.length + 16 ≤ 4096 then hdr ++ putVarint serialType else hdr

/-- The serial type of one column and what it adds to the body. -/
def serialOf (ops : FloatOps) (c : ColumnType) (v : Value) : Nat × List UInt8 :=
  if v.isNull then (0, [])
  else
    match c with
    | .int =>
      let val := v.intVal.toInt
      if val = 0 then (8, [])
      else if val = 1 then (9, [])
      else if -128 ≤ val ∧ val ≤ 127 then (1, leBytes 1 (v.intVal.setWidth 8).toNat)
      else if -32768 ≤ val ∧ val ≤ 32767 then (2, leBytes 2 (v.intVal.setWidth 16).toNat)
      else (4, leBytes 4 v.intVal.toNat)
    | .bool => (if v.boolVal then 9 else 8, [])
    | .float => (7, leBytes 8 (if nonzero v.doubleVal then v.doubleVal else ops.widen v.floatVal).toNat)
    | .double | .numeric | .decimal => (7, leBytes 8 v.doubleVal.toNat)
    | .blob | .datetime | .date | .time | .timestamp | .text | .varchar | .vector =>
      let len := if 0 < v.textLen then v.textLen else strlen v.textVal
      (if c = .blob then 12 + 2 * len else 13 + 2 * len, v.textVal.take len)

/-- One entry of the row: its serial type and its bytes. -/
def push (r : List UInt8 × SerBody) (e : Nat × List UInt8) : Option (List UInt8 × SerBody) := do
  let body ← r.2.append e.2
  return (pushHeader r.1 e.1, body)

/-- The column loop. -/
def serializeColumns (ops : FloatOps) (r : List UInt8 × SerBody) (cols : List (ColumnType × Value)) :
    Option (List UInt8 × SerBody) :=
  cols.foldlM (fun r cv => push r (serialOf ops cv.1 cv.2)) r

/-- The loop that makes `total_hdr_size` count its own varint; `none` when the fuel runs out. -/
def totalHdrSize (hdrLen : Nat) : Nat → Nat → Option Nat
  | 0, _ => none
  | fuel + 1, total =>
    let vlen := (putVarint total).length
    if vlen + hdrLen = total then some total else totalHdrSize hdrLen fuel (vlen + hdrLen)

/-- `serialize_row_with_mvcc`: the bytes it writes. The table definition comes in through the types of its
columns. -/
def serializeRowWithMvcc (ops : FloatOps) (cols : List ColumnType) (values : List Value)
    (expireAt xmin xmax : BitVec 64) : Option (List UInt8) := do
  let r ← serializeColumns ops ([], ⟨[], 16384⟩) (cols.zip values)
  let r ← if expireAt ≠ 0 then push r (serialTypeTtl, leBytes 8 expireAt.toNat) else some r
  let r ← if xmin ≠ 0 ∨ xmax ≠ 0 then do
      let r ← push r (serialTypeXmin, leBytes 8 xmin.toNat)
      push r (serialTypeXmax, leBytes 8 xmax.toNat)
    else some r
  let total ← totalHdrSize r.1.length 16 (r.1.length + 1)
  return putVarint total ++ r.1 ++ r.2.bytes

/-! ## Reading a row -/

/-- A number read for a column that is not a text. -/
def setNumber (ops : FloatOps) (c : ColumnType) (val : BitVec 32) : Value :=
  match c with
  | .double | .numeric | .decimal => { Value.init with doubleVal := ops.doubleOfInt val }
  | .float => { Value.init with floatVal := ops.floatOfInt val }
  | _ => { Value.init with intVal := val }

/-- The constants 0 and 1. -/
def setConstant (c : ColumnType) (one : Bool) : Value :=
  match c with
  | .bool => { Value.init with boolVal := one }
  | .double | .numeric | .decimal => { Value.init with doubleVal := if one then 0x3ff0000000000000 else 0 }
  | .float => { Value.init with floatVal := if one then 0x3f800000 else 0 }
  | _ => { Value.init with intVal := if one then 1 else 0 }

/-- The value of one column, from its serial type and the body at `cur_body`, and how far that moves. -/
def readValue (ops : FloatOps) (c : ColumnType) (serialType : Nat) (body : List UInt8) : Value × Nat :=
  if serialType = 0 then ({ Value.init with isNull := true }, 0)
  else if serialType = 1 then (setNumber ops c ((BitVec.ofNat 8 (leNat (body.take 1))).signExtend 32), 1)
  else if serialType = 2 then (setNumber ops c ((BitVec.ofNat 16 (leNat (body.take 2))).signExtend 32), 2)
  else if serialType = 4 then (setNumber ops c (BitVec.ofNat 32 (leNat (body.take 4))), 4)
  else if serialType = 7 then
    let val := BitVec.ofNat 64 (leNat (body.take 8))
    (match c with
      | .float => { Value.init with floatVal := ops.narrow val, doubleVal := val }
      | .double | .numeric | .decimal => { Value.init with doubleVal := val }
      | _ => { Value.init with intVal := ops.intOfDouble val }, 8)
  else if serialType = 8 then (setConstant c false, 0)
  else if serialType = 9 then (setConstant c true, 0)
  else if 12 ≤ serialType then
    let len := (if serialType % 2 = 0 then (serialType - 12) / 2 else (serialType - 13) / 2) % 2 ^ 32
    ({ Value.init with textVal := body.take len, textLen := len }, len)
  else (Value.init, 0)

/-- The column loop: the values, and where the header and the body are read next. -/
def readColumns (ops : FloatOps) (src : List UInt8) : List ColumnType → Nat → Nat → List Value × Nat × Nat
  | [], curHdr, curBody => ([], curHdr, curBody)
  | c :: cols, curHdr, curBody =>
    let st := getVarint (src.drop curHdr)
    let v := readValue ops c st.1 (src.drop curBody)
    let r := readColumns ops src cols (curHdr + st.2) (curBody + v.2)
    (v.1 :: r.1, r.2)

/-- What the trailers say: `expire_at`, `xmin`, `xmax`. -/
structure Trailers where
  exp : BitVec 64
  xmin : BitVec 64
  xmax : BitVec 64
  deriving DecidableEq, Repr

/-- The trailer loop. Each turn reads at least one byte of the header, so `body_offset` turns are enough. -/
def readTrailers (src : List UInt8) (bodyOffset : Nat) : Nat → Nat → Nat → Trailers → Trailers × Nat
  | 0, _, curBody, t => (t, curBody)
  | fuel + 1, curHdr, curBody, t =>
    if curHdr < bodyOffset then
      let extra := getVarint (src.drop curHdr)
      let x := BitVec.ofNat 64 (leNat ((src.drop curBody).take 8))
      if extra.1 = serialTypeTtl then
        readTrailers src bodyOffset fuel (curHdr + extra.2) (curBody + 8) { t with exp := x }
      else if extra.1 = serialTypeXmin then
        readTrailers src bodyOffset fuel (curHdr + extra.2) (curBody + 8) { t with xmin := x }
      else if extra.1 = serialTypeXmax then
        readTrailers src bodyOffset fuel (curHdr + extra.2) (curBody + 8) { t with xmax := x }
      else (t, curBody)
    else (t, curBody)

/-- `deserialize_row_with_mvcc`: the values, the trailers and the number of bytes consumed. -/
def deserializeRowWithMvcc (ops : FloatOps) (cols : List ColumnType) (src : List UInt8) :
    List Value × Trailers × Nat :=
  let hdr := getVarint src
  let bodyOffset := hdr.1 % 2 ^ 32
  let r := readColumns ops src cols hdr.2 bodyOffset
  let t := readTrailers src bodyOffset bodyOffset r.2.1 r.2.2 ⟨0, 0, 0⟩
  (r.1, t.1, t.2)

end CustomDB
