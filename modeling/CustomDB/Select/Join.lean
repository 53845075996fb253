import CustomDB.Rows.Visible
import CustomDB.Lib.Join

/-!
# Hash joins

`run_join_select_vm` joins the tables of a SELECT one after the other. The visible rows of the right table go into a
hash table, each row of the stream is looked up there, and what stays without a partner is filled with NULLs. What the
join should give is the comparison of every row with every other.
-/

namespace CustomDB

open Lib.Join

inductive JoinType where
  | inner | left | right | full
  deriving DecidableEq, Repr

/-- `JoinItem`. -/
structure JoinItem where
  type : JoinType
  rightTable : Text
  leftCol : Text
  rightCol : Text

/-- LEFT and FULL keep the rows of the stream. -/
def JoinType.keepsLeft (t : JoinType) : Bool := t = .left || t = .full

/-- RIGHT and FULL keep the rows of the table. -/
def JoinType.keepsRight (t : JoinType) : Bool := t = .right || t = .full

/-! ## The hash table -/

/-- `HASH_JOIN_BUCKETS`. -/
def hashJoinBuckets : Nat := 1024

/-- The hash of some bytes: FNV-1a. -/
def fnv (bytes : List UInt8) : UInt32 := bytes.foldl (fun h b => (h ^^^ b.toUInt32) * 16777619) 2166136261

/-- `compute_hash_join_key`: the first of the number fields that is not 0, or the text. -/
def computeHashJoinKey (v : Value) : Nat :=
  if v.isNull then 0
  else
    let h := if v.intVal ≠ 0 then fnv (Lib.Bytes.leBytes 4 v.intVal.toNat)
      else if nonzero v.doubleVal then fnv (Lib.Bytes.leBytes 8 v.doubleVal.toNat)
      else fnv v.str
    h.toNat % hashJoinBuckets

/-- `value_copy`: a NULL keeps no text. -/
def valueCopy (v : Value) : Value := if v.isNull then { v with textVal := [], textLen := 0 } else v

/-- The values of a row, copied column by column. -/
def copyRow (n : Nat) (values : List Value) : List Value :=
  (List.range n).map fun c => valueCopy (values.getD c Value.init)

/-- The values of a side without a partner. -/
def nullRow (n : Nat) : List Value := List.replicate n { Value.init with isNull := true }

/-- The visible rows of a table. -/
def visibleRows (t : RowTable) (snapshot now : Nat) : List (List Value) :=
  (t.shown snapshot now).cells.map fun v => copyRow t.tableDef.columns.length v.values

/-- `HashJoinNode`; its key is one of its values. -/
structure HashJoinNode where
  vals : List Value
  matched : Bool

abbrev Buckets := Nat → List HashJoinNode

/-- The hash table of the rows by column `rc`; a new node goes to the front of its bucket. -/
def buildBuckets (rc : Nat) (rows : List (List Value)) : Buckets :=
  rows.foldl (fun buckets r =>
    let bucket := computeHashJoinKey (r.getD rc Value.init)
    Function.update buckets bucket (⟨r, false⟩ :: buckets bucket)) fun _ => []

/-- One join: the type of the left column, the two columns, and the widths of the two sides. -/
structure JoinColumns where
  leftType : ColumnType
  left : Nat
  right : Nat
  leftWidth : Nat
  rightWidth : Nat

section Join

variable (ops : WhereOps) (type : JoinType) (jc : JoinColumns)

/-- The row of the table has the key that is looked for. -/
def keyFound (l r : List Value) : Bool :=
  !(r.getD jc.right Value.init).isNull &&
    compareValues ops jc.leftType (l.getD jc.left Value.init) (r.getD jc.right Value.init) = .eq

/-- The turn of the loop for a row of the stream: the buckets, and the joined rows so far. -/
def probeRow (st : Buckets × List (List Value)) (l : List Value) : Buckets × List (List Value) :=
  let key := l.getD jc.left Value.init
  if key.isNull then (st.1, st.2 ++ if type.keepsLeft then [l ++ nullRow jc.rightWidth] else [])
  else
    let bucket := computeHashJoinKey key
    let found := (st.1 bucket).filter fun n => keyFound ops jc l n.vals
    let marked := (st.1 bucket).map fun n => if keyFound ops jc l n.vals then { n with matched := true } else n
    (Function.update st.1 bucket marked,
      st.2 ++ (found.map (fun n => l ++ n.vals) ++
        if type.keepsLeft && found.isEmpty then [l ++ nullRow jc.rightWidth] else []))

/-- The rows that a join leaves. -/
def hashJoinRows (stream rows : List (List Value)) : List (List Value) :=
  let st := stream.foldl (probeRow ops type jc) (buildBuckets jc.right rows, [])
  st.2 ++ if type.keepsRight then
    (List.range hashJoinBuckets).flatMap fun b =>
      ((st.1 b).filter fun n => !n.matched).map fun n => nullRow jc.leftWidth ++ n.vals
    else []

end Join

/-! ## The chain -/

/-- The stream, with the schema of its rows. -/
structure JoinedStream where
  cols : List Column
  rows : List (List Value)

/-- How a join fails; `overrun` is a row written behind the end of `vals`. -/
inductive JoinError where
  | tableNotFound | badSchema | overrun
  deriving DecidableEq, Repr

/-- The column of that name, or of the name behind its dot. -/
def joinColumn (cols : List Column) (name : Text) : Option Nat :=
  (findColumnCI cols name).or ((afterDot name).bind (findColumnCI cols))

section Chain

variable (ops : WhereOps) (db : RowDb) (snapshot now : Nat)

/-- The right table of a join and its columns. -/
def resolveJoin (s : JoinedStream) (j : JoinItem) : Except JoinError (RowTable × JoinColumns) :=
  match (db.findTable j.rightTable).bind fun i => db.tables[i]? with
  | none => .error .tableNotFound
  | some t =>
    match joinColumn s.cols j.leftCol, joinColumn t.tableDef.columns j.rightCol with
    | some lc, some rc =>
      .ok (t, ⟨((s.cols[lc]?).map Column.type).getD .int, lc, rc, s.cols.length, t.tableDef.columns.length⟩)
    | _, _ => .error .badSchema

/-- A turn of the loop over the joins. -/
def hashJoin (s : JoinedStream) (j : JoinItem) : Except JoinError JoinedStream :=
  match resolveJoin db s j with
  | .error e => .error e
  | .ok (t, jc) =>
    let rows := hashJoinRows ops j.type jc s.rows (visibleRows t snapshot now)
    if maxColumns < jc.leftWidth + jc.rightWidth ∧ rows ≠ [] then .error .overrun
    else .ok ⟨(s.cols ++ t.tableDef.columns).take maxColumns, rows⟩

/-- The stream of the left table. -/
def baseStream (t : RowTable) : JoinedStream := ⟨t.tableDef.columns, visibleRows t snapshot now⟩

/-- `run_join_select_vm`, up to the rows of the last join. -/
def runJoins (t : RowTable) (joins : List JoinItem) : Except JoinError JoinedStream :=
  joins.foldlM (hashJoin ops db snapshot now) (baseStream snapshot now t)

/-! ## What a join should give -/

/-- Two rows are partners: neither key is NULL, and they compare equal. -/
def partners (jc : JoinColumns) (l r : List Value) : Bool :=
  !(l.getD jc.left Value.init).isNull && keyFound ops jc l r

/-- The rows of a join are put together of these. -/
def joinKind (type : JoinType) (jc : JoinColumns) : Kind (List Value) (List Value) (List Value) where
  pair l r := l ++ r
  left l := l ++ nullRow jc.rightWidth
  right r := nullRow jc.leftWidth ++ r
  keepLeft := type.keepsLeft
  keepRight := type.keepsRight

/-- The join by comparison of every pair of visible rows. -/
def nestedJoin (s : JoinedStream) (j : JoinItem) : Except JoinError JoinedStream :=
  match resolveJoin db s j with
  | .error e => .error e
  | .ok (t, jc) =>
    .ok ⟨s.cols ++ t.tableDef.columns, join (joinKind j.type jc) (partners ops jc) s.rows (visibleRows t snapshot now)⟩

/-- The joins of the chain, from two streams on: after each of them the columns are the same, and the rows up to their
order; and where one ends with an error the other does. -/
def SameJoins : JoinedStream → JoinedStream → List JoinItem → Prop
  | _, _, [] => True
  | h, s, j :: js =>
    match hashJoin ops db snapshot now h j, nestedJoin ops db snapshot now s j with
    | .ok h, .ok s => h.cols = s.cols ∧ h.rows.Perm s.rows ∧ SameJoins h s js
    | .error e, .error e' => e = e'
    | _, _ => False

/-- The joins of the chain, as they should be, fit the arrays, and keys that compare equal have one hash. -/
def JoinsFit : JoinedStream → List JoinItem → Prop
  | _, [] => True
  | s, j :: js =>
    match resolveJoin db s j with
    | .error _ => True
    | .ok (t, jc) =>
      jc.leftWidth + jc.rightWidth ≤ maxColumns ∧
        (∀ l ∈ s.rows, ∀ r ∈ visibleRows t snapshot now, partners ops jc l r = true →
          computeHashJoinKey (l.getD jc.left Value.init) = computeHashJoinKey (r.getD jc.right Value.init)) ∧
        JoinsFit ⟨s.cols ++ t.tableDef.columns,
          join (joinKind j.type jc) (partners ops jc) s.rows (visibleRows t snapshot now)⟩ js

end Chain

end CustomDB
