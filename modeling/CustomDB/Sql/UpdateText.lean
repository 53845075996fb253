import CustomDB.Sql.InsertText
import CustomDB.Rows.Table

/-!
# UPDATE, as it is parsed

The UPDATE branch of `prepare_statement` up to RETURNING. The parser takes a quoted value by the rules of a literal and
any other one as a raw text, and keeps nothing of the difference; here the quotes stay, for what the statement says.
-/

namespace CustomDB

def kwUpdate : Text := ascii ['u', 'p', 'd', 'a', 't', 'e']
def kwSet : Text := ascii ['s', 'e', 't']

/-- One SET: the pair the parser makes, and whether its value began with a quote or a bracket. -/
structure WrittenSet where
  colName : Text
  strVal : Text
  isNull : Bool
  quoted : Bool
  deriving DecidableEq

/-- The unquoted value: up to a comma, a semicolon or `where` outside of brackets, or as much as fits. -/
def scanSetValue : Nat → Int → Text → Text × Text
  | 0, _, p => ([], p)
  | _, _, [] => ([], [])
  | fuel + 1, depth, b :: p =>
    let depth := if b = 40 then depth + 1 else if b = 41 then depth - 1 else depth
    if depth = 0 ∧ (b = 44 ∨ b = 59 ∨ startsCI kwWhere (b :: p)) then ([], b :: p)
    else
      let r := scanSetValue fuel depth p
      (b :: r.1, r.2)

/-- The value behind `=`. -/
def parseSetValue (col p : Text) : WrittenSet × Text :=
  let p := skipWhitespace p
  if peek p = 39 ∨ peek p = 34 ∨ peek p = 91 then
    let t := parseValueTokenAlloc p
    (⟨col, t.1.text, false, true⟩, t.2)
  else
    let r := scanSetValue (maxRawVal - 1) 0 p
    let s := (r.1.reverse.dropWhile isspace).reverse
    (⟨col, s, strcasecmp s kwNull = .eq, false⟩, r.2)

/-- The SET list; `none` is a syntax error. -/
def parseSetList : Nat → Text → List WrittenSet → Option (List WrittenSet × Text)
  | 0, _, _ => none
  | fuel + 1, p, sets =>
    if p = [] then some (sets, p)
    else
      let p := skipWhitespace p
      if startsCI kwWhere p then some (sets, p)
      else if maxColumns ≤ sets.length then none
      else
        let t := parseIdentifier p colNameSize
        let q := skipWhitespace t.2
        if t.1 = [] ∨ peek q ≠ 61 then none
        else
          let v := parseSetValue t.1 (q.drop 1)
          let q := skipWhitespace v.2
          if peek q = 44 then parseSetList fuel (q.drop 1) (sets ++ [v.1])
          else if startsCI kwWhere q || q = [] || peek q = 59 then parseSetList fuel q (sets ++ [v.1])
          else none

/-- What there is of an UPDATE. -/
structure ParsedUpdate where
  tableName : Text
  sets : List WrittenSet
  whereClause : WhereClause
  deriving DecidableEq

/-- `prepare_statement` from UPDATE to the end of WHERE. -/
def prepareUpdate (p : Text) : Option ParsedUpdate :=
  if !startsCI kwUpdate p then none
  else
    let t := parseIdentifier (p.drop 6) tblNameSize
    let q := skipWhitespace t.2
    if t.1 = [] ∨ !startsCI kwSet q then none
    else
      (parseSetList (maxColumns + 2) (q.drop 3) []).bind fun s =>
        (parseWhereClause s.2).map fun w => ⟨t.1, s.1, w.2⟩

/-- What the executor gets of a SET. -/
def WrittenSet.pair (s : WrittenSet) : SetPair := ⟨s.colName, s.strVal, s.isNull⟩

end CustomDB
