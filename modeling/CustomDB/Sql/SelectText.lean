import CustomDB.Sql.UpdateText
import CustomDB.Sql.TriggerText
import CustomDB.Select.Group
import CustomDB.Select.Join

/-!
# SELECT, as it is parsed

The SELECT branch of `prepare_statement` up to the end of WHERE: DISTINCT, the select list with its aggregates and
window functions, the table and its joins. A clause begins wherever its keyword stands in the text.
-/

namespace CustomDB

def kwDistinct : Text := ascii ['d', 'i', 's', 't', 'i', 'n', 'c', 't']
def kwUnion : Text := ascii ['u', 'n', 'i', 'o', 'n']
def kwIntersect : Text := ascii ['i', 'n', 't', 'e', 'r', 's', 'e', 'c', 't']
def kwExcept : Text := ascii ['e', 'x', 'c', 'e', 'p', 't']
def kwRowNumber : Text := ascii ['r', 'o', 'w', '_', 'n', 'u', 'm', 'b', 'e', 'r', '(', ')']
def kwRank : Text := ascii ['r', 'a', 'n', 'k', '(', ')']
def kwDenseRank : Text := ascii ['d', 'e', 'n', 's', 'e', '_', 'r', 'a', 'n', 'k', '(', ')']
def kwCountStar : Text := ascii ['c', 'o', 'u', 'n', 't', '(', '*', ')']
def kwCount : Text := ascii ['c', 'o', 'u', 'n', 't', '(']
def kwSum : Text := ascii ['s', 'u', 'm', '(']
def kwAvg : Text := ascii ['a', 'v', 'g', '(']
def kwMin : Text := ascii ['m', 'i', 'n', '(']
def kwMax : Text := ascii ['m', 'a', 'x', '(']
def kwCoalesce : Text := ascii ['c', 'o', 'a', 'l', 'e', 's', 'c', 'e', '(']
def kwOver : Text := ascii ['o', 'v', 'e', 'r']
def kwPartitionBy : Text := ascii ['p', 'a', 'r', 't', 'i', 't', 'i', 'o', 'n', ' ', 'b', 'y']
def kwOrderBy : Text := ascii ['o', 'r', 'd', 'e', 'r', ' ', 'b', 'y']
def kwDesc : Text := ascii ['d', 'e', 's', 'c']
def kwAsc : Text := ascii ['a', 's', 'c']
def kwLeft : Text := ascii ['l', 'e', 'f', 't']
def kwRight : Text := ascii ['r', 'i', 'g', 'h', 't']
def kwFull : Text := ascii ['f', 'u', 'l', 'l']
def kwInner : Text := ascii ['i', 'n', 'n', 'e', 'r']
def kwOuter : Text := ascii ['o', 'u', 't', 'e', 'r']
def kwJoin : Text := ascii ['j', 'o', 'i', 'n']

/-- `MAX_SELECT_COLS`. -/
def maxSelectCols : Nat := 8

/-- `sizeof(col_name)` of a `SelectCol`. -/
def selectNameSize : Nat := 256

/-- `MAX_JOINS`. -/
def maxJoins : Nat := 8

/-- `isalpha`. -/
def isalpha (b : UInt8) : Bool := (65 ≤ b && b ≤ 90) || (97 ≤ b && b ≤ 122)

/-! ## Raw texts -/

/-- The brackets that are open behind a character. -/
def openAfter (depth : Int) (b : UInt8) : Int := if b = 40 then depth + 1 else if b = 41 then depth - 1 else depth

/-- Copy as much as fits, up to where `stop` says so outside of brackets. -/
def scanUntil (stop : Text → Bool) : Nat → Int → Text → Text × Text
  | 0, _, p => ([], p)
  | _ + 1, _, [] => ([], [])
  | n + 1, depth, b :: p =>
    if openAfter depth b = 0 ∧ stop (b :: p) = true then ([], b :: p)
    else
      let r := scanUntil stop n (openAfter depth b) p
      (b :: r.1, r.2)

/-- A text without the blanks at its end. -/
def trimEnd (s : Text) : Text := (s.reverse.dropWhile isspace).reverse

/-! ## The select list -/

/-- `WindowFunc`. -/
inductive WinFunc where
  | none | rowNumber | rank | denseRank | sum | avg | min | max | count
  deriving DecidableEq, Repr

/-- `WindowSpec` without its function. -/
structure OverSpec where
  partitionCol : Text
  orderCol : Text
  orderDesc : Bool
  deriving DecidableEq

def OverSpec.none : OverSpec := ⟨[], [], false⟩

/-- `SelectCol`. -/
structure ParsedCol where
  func : AggFunc
  colName : Text
  isCoalesce : Bool
  coalesceDefault : Text
  winFunc : WinFunc
  window : OverSpec
  deriving DecidableEq

/-- A column by its name, or an expression. -/
def ParsedCol.plain (name : Text) : ParsedCol := ⟨.none, name, false, [], .none, .none⟩

def parsePartitionBy (w : OverSpec) (p : Text) : OverSpec × Text :=
  if startsCI kwPartitionBy p then
    let c := parseIdentifier (skipWhitespace (p.drop 12)) colNameSize
    ({ w with partitionCol := c.1 }, skipWhitespace c.2)
  else (w, p)

def parseOverOrder (w : OverSpec) (p : Text) : OverSpec × Text :=
  if startsCI kwOrderBy p then
    let c := parseIdentifier (skipWhitespace (p.drop 8)) colNameSize
    let p := skipWhitespace c.2
    let d := if startsCI kwDesc p then (true, p.drop 4)
      else if startsCI kwAsc p then (false, p.drop 3)
      else (w.orderDesc, p)
    ({ w with orderCol := c.1, orderDesc := d.1 }, skipWhitespace d.2)
  else (w, p)

/-- `parse_window_over`. -/
def parseWindowOver (p : Text) : OverSpec × Text :=
  let p := skipWhitespace p
  if startsCI kwOver p && (isspace (charAt p 4) || charAt p 4 = 40) then
    let r := parsePartitionBy .none (skipWhitespace (skipChar 40 (skipWhitespace (p.drop 4))))
    let r := parseOverOrder r.1 r.2
    (r.1, skipChar 41 r.2)
  else (.none, p)

/-- ROW_NUMBER, RANK or DENSE_RANK behind its brackets. -/
def parseWindowFunc (f : WinFunc) (p : Text) : ParsedCol × Text :=
  let w := parseWindowOver p
  (⟨.none, [], false, [], f, w.1⟩, w.2)

/-- An aggregate behind its bracket, and whether it is one: with a partition or an order it is a window function. -/
def parseAggregate (f : AggFunc) (wf : WinFunc) (p : Text) : (ParsedCol × Bool) × Text :=
  let c := parseIdentifier p colNameSize
  let w := parseWindowOver (skipChar 41 (skipWhitespace c.2))
  let windowed := w.1.partitionCol ≠ [] || w.1.orderCol ≠ []
  ((⟨f, c.1, false, [], if windowed then wf else .none, w.1⟩, !windowed), w.2)

/-- COALESCE behind its bracket. -/
def parseCoalesce (p : Text) : ParsedCol × Text :=
  let c := parseIdentifier (skipWhitespace p) colNameSize
  let v := parseValueToken (skipWhitespace (skipChar 44 (skipWhitespace c.2))) 64
  (⟨.none, c.1, true, v.1, .none, .none⟩, skipChar 41 (skipWhitespace v.2))

/-- Where a select list ends: FROM or a set operator. -/
def endsList (p : Text) : Bool :=
  startsCI kwFrom p || startsCI kwUnion p || startsCI kwIntersect p || startsCI kwExcept p

/-- Where a column of the list ends. -/
def endsCol (p : Text) : Bool := peek p = 44 || peek p = 59 || endsList p

/-- A column by its name, a literal or an expression. -/
def parsePlainCol (p : Text) : ParsedCol × Text :=
  if (peek p = 39 || peek p = 34 || isdigit (peek p)) && !p.contains 40 then
    let v := parseValueToken p selectNameSize
    (.plain v.1, v.2)
  else
    let r := scanUntil endsCol (selectNameSize - 1) 0 p
    (.plain (trimEnd r.1), r.2)

/-- One item of the list, and `is_aggregate` behind it. -/
def parseSelectItem (isAggregate : Bool) (p : Text) : (ParsedCol × Bool) × Text :=
  let keep := fun r : ParsedCol × Text => ((r.1, isAggregate), r.2)
  if startsCI kwRowNumber p then keep (parseWindowFunc .rowNumber (p.drop 12))
  else if startsCI kwRank p then keep (parseWindowFunc .rank (p.drop 6))
  else if startsCI kwDenseRank p then keep (parseWindowFunc .denseRank (p.drop 12))
  else if startsCI kwCountStar p then (({ ParsedCol.plain [] with func := .countStar }, true), p.drop 8)
  else if startsCI kwCount p then parseAggregate .count .count (p.drop 6)
  else if startsCI kwSum p then parseAggregate .sum .sum (p.drop 4)
  else if startsCI kwAvg p then parseAggregate .avg .avg (p.drop 4)
  else if startsCI kwMin p then parseAggregate .min .min (p.drop 4)
  else if startsCI kwMax p then parseAggregate .max .max (p.drop 4)
  else if startsCI kwCoalesce p then keep (parseCoalesce (p.drop 9))
  else keep (parsePlainCol p)

/-- The loop over the list, with room for `slots` more items; `none` is a syntax error. -/
def parseSelectList : Nat → Text → List ParsedCol → Bool → Option ((List ParsedCol × Bool) × Text)
  | slots, p, cols, isAggregate =>
    if p = [] ∨ peek p = 59 ∨ endsList p = true then some ((cols, isAggregate), p)
    else
      match slots with
      | 0 => none
      | slots + 1 =>
        let r := parseSelectItem isAggregate (skipWhitespace p)
        let cols := cols ++ [r.1.1]
        let q := skipWhitespace r.2
        if peek q = 44 then parseSelectList slots (q.drop 1) cols r.1.2
        else if q = [] ∨ peek q = 59 ∨ endsList q = true then parseSelectList slots q cols r.1.2
        else none

/-! ## Joins -/

/-- The words of a join; OUTER may stand behind LEFT, RIGHT and FULL, and JOIN may be missing behind any of them. -/
def parseJoinType (p : Text) : Option (JoinType × Text) :=
  let outer := fun p =>
    let p := skipWhitespace p
    let p := if startsCI kwOuter p then skipWhitespace (p.drop 5) else p
    if startsCI kwJoin p then p.drop 4 else p
  if startsCI kwLeft p then some (.left, outer (p.drop 4))
  else if startsCI kwRight p then some (.right, outer (p.drop 5))
  else if startsCI kwFull p then some (.full, outer (p.drop 4))
  else if startsCI kwInner p then
    let p := skipWhitespace (p.drop 5)
    some (.inner, if startsCI kwJoin p then p.drop 4 else p)
  else if startsCI kwJoin p then some (.inner, p.drop 4)
  else none

/-- A join behind its words; `none` is a syntax error. -/
def parseJoin (type : JoinType) (p : Text) : Option (JoinItem × Text) :=
  let t := parseIdentifier p tblNameSize
  let q := skipWhitespace t.2
  if t.1 = [] ∨ startsCI kwOn q = false then none
  else
    let l := parseIdentifier (q.drop 2) colNameSize
    let q := skipWhitespace l.2
    if peek q ≠ 61 then none
    else
      let r := parseIdentifier (q.drop 1) colNameSize
      some (⟨type, t.1, (afterDot l.1).getD l.1, (afterDot r.1).getD r.1⟩, r.2)

/-- The loop over the joins, with room for `slots` more; `none` is a syntax error. -/
def parseJoins : Nat → Text → List JoinItem → Option (List JoinItem × Text)
  | slots, p, joins =>
    if p = [] then some (joins, p)
    else
      match parseJoinType (skipWhitespace p) with
      | none => some (joins, skipWhitespace p)
      | some (type, q) =>
        match slots with
        | 0 => none
        | slots + 1 => (parseJoin type q).bind fun j => parseJoins slots j.2 (joins ++ [j.1])

/-! ## The statement -/

/-- What there is of a SELECT. Without FROM the name of the table is empty. -/
structure ParsedSelect where
  isDistinct : Bool
  isAggregate : Bool
  selectCols : List ParsedCol
  tableName : Text
  joins : List JoinItem
  whereClause : WhereClause

/-- DISTINCT, where a blank, `*` or a letter stands behind it. -/
def parseDistinct (p : Text) : Bool × Text :=
  if startsCI kwDistinct p && (isspace (charAt p 8) || charAt p 8 = 42 || isalpha (charAt p 8)) then
    (true, skipWhitespace (p.drop 8))
  else (false, p)

/-- The table with its joins and the WHERE clause, behind FROM. -/
def parseFrom (isDistinct : Bool) (cols : List ParsedCol × Bool) (p : Text) : Option (ParsedSelect × Text) :=
  let t := parseIdentifier p tblNameSize
  if t.1 = [] then none
  else
    (parseJoins maxJoins t.2 []).bind fun j =>
      (parseWhereClause j.2).map fun w => (⟨isDistinct, cols.2, cols.1, t.1, j.1, w.2⟩, w.1)

/-- `prepare_statement` from SELECT to the end of WHERE, and the rest of the text. -/
def prepareSelect (p : Text) : Option (ParsedSelect × Text) :=
  if startsCI kwSelect p = false then none
  else
    let d := parseDistinct (skipWhitespace (p.drop 6))
    let list := if peek d.2 = 42 then some (([], false), d.2.drop 1) else parseSelectList maxSelectCols d.2 [] false
    list.bind fun l =>
      let q := skipWhitespace l.2
      if startsCI kwFrom q then parseFrom d.1 l.1 (q.drop 4)
      else some (⟨d.1, l.1.2, l.1.1, [], [], ⟨false, [], []⟩⟩, q)

end CustomDB
