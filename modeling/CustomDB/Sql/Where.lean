import CustomDB.Sql.Text
import CustomDB.Lib.Connective
import CustomDB.Catalog.Definition

/-!
# WHERE clauses

`parse_where_clause` flattens a clause into at most four conditions and the connectives between them,
`eval_where_clause_cols` evaluates each condition on a row and folds the results from left to right.
-/

namespace CustomDB

open Lib.Connective

/-! ## Keywords, in small letters -/

def kwWhere : Text := ascii ['w', 'h', 'e', 'r', 'e']
def kwSelect : Text := ascii ['s', 'e', 'l', 'e', 'c', 't']
def kwFrom : Text := ascii ['f', 'r', 'o', 'm']
def kwAnd : Text := ascii ['a', 'n', 'd']
def kwOr : Text := ascii ['o', 'r']
def kwNot : Text := ascii ['n', 'o', 't']
def kwIs : Text := ascii ['i', 's']
def kwNull : Text := ascii ['n', 'u', 'l', 'l']
def kwIsNull : Text := ascii ['i', 's', ' ', 'n', 'u', 'l', 'l']
def kwIsNotNull : Text := ascii ['i', 's', ' ', 'n', 'o', 't', ' ', 'n', 'u', 'l', 'l']
def kwMatch : Text := ascii ['m', 'a', 't', 'c', 'h']
def kwLike : Text := ascii ['l', 'i', 'k', 'e']
def kwGlob : Text := ascii ['g', 'l', 'o', 'b']
def kwNotLike : Text := ascii ['n', 'o', 't', ' ', 'l', 'i', 'k', 'e']
def kwNotGlob : Text := ascii ['n', 'o', 't', ' ', 'g', 'l', 'o', 'b']
def kwBetween : Text := ascii ['b', 'e', 't', 'w', 'e', 'e', 'n']
def kwIn : Text := ascii ['i', 'n']
def kwExists : Text := ascii ['e', 'x', 'i', 's', 't', 's']
def kwNotExists : Text := ascii ['n', 'o', 't', ' ', 'e', 'x', 'i', 's', 't', 's']
def kwCollate : Text := ascii ['c', 'o', 'l', 'l', 'a', 't', 'e']
def kwNocase : Text := ascii ['n', 'o', 'c', 'a', 's', 'e']
def kwRtrim : Text := ascii ['r', 't', 'r', 'i', 'm']
def kwBinary : Text := ascii ['b', 'i', 'n', 'a', 'r', 'y']
def kwTrue : Text := ascii ['t', 'r', 'u', 'e']

/-! ## The parsed clause -/

inductive CompOp where
  | eq | gt | lt | gte | lte | isIn | isNull | isNotNull | ftsMatch | like | between | glob | notLike | notGlob
  deriving DecidableEq, Repr

/-- `SingleCond`. -/
structure SingleCond where
  colName : Text
  op : CompOp
  rawVal : Text
  rawVal2 : Text
  isSubquery : Bool
  subTable : Text
  subCol : Text
  subWhereCol : Text
  subWhereOp : CompOp
  subWhereVal : Text
  hasSubWhere : Bool
  isExists : Bool
  isNotExists : Bool
  subWhereIsCorrelated : Bool
  subCorrelatedOuterCol : Text
  collation : CollationType
  deriving DecidableEq

/-- A condition as `memset` leaves it. -/
def SingleCond.zero : SingleCond :=
  ⟨[], .eq, [], [], false, [], [], [], .eq, [], false, false, false, false, [], .notSet⟩

/-- `LogicOp`. -/
abbrev LogicOp := Lib.Connective.Conn

/-- `WhereClause`. The number of conditions is the length of the list. -/
structure WhereClause where
  hasWhere : Bool
  conds : List SingleCond
  logicOps : List LogicOp
  deriving DecidableEq

/-- `MAX_WHERE_CONDS`. -/
def maxWhereConds : Nat := 4

/-- `MAX_RAW_VAL`. -/
def maxRawVal : Nat := 4096

/-- `COL_NAME_SIZE`. -/
def colNameSize : Nat := 32

/-- `TBL_NAME_SIZE`. -/
def tblNameSize : Nat := 64

/-! ## The parser -/

/-- `p[k]`, 0 at the end and behind it. -/
def charAt (p : Text) (k : Nat) : UInt8 := p.getD k 0

/-- What follows the first dot: `strchr(tok, '.') + 1`. -/
def afterDot (tok : Text) : Option Text :=
  match tok.dropWhile (· ≠ 46) with
  | [] => none
  | _ :: r => some r

/-- The comparison signs. -/
def parseSign (p : Text) : Option (CompOp × Text) :=
  if starts [62, 61] p then some (.gte, p.drop 2)
  else if starts [60, 61] p then some (.lte, p.drop 2)
  else if peek p = 62 then some (.gt, p.drop 1)
  else if peek p = 60 then some (.lt, p.drop 1)
  else if peek p = 61 then some (.eq, p.drop 1)
  else none

/-- `if (*p == c) p++`. -/
def skipChar (c : UInt8) (p : Text) : Text := if peek p = c then p.drop 1 else p

/-- Behind FROM, where there is one: the table. -/
def parseSubTable (cond : SingleCond) (p : Text) : SingleCond × Text :=
  if startsCI kwFrom p then
    let t := parseIdentifier (skipWhitespace (p.drop 4)) tblNameSize
    ({ cond with subTable := t.1 }, t.2)
  else (cond, p)

/-- The condition of an EXISTS subquery. A plain right side longer than the field overruns it in the source; here it is
kept whole. -/
def parseExistsWhere (cond : SingleCond) (p : Text) : SingleCond × Text :=
  if startsCI kwWhere p then
    let l := parseIdentifier (p.drop 5) colNameSize
    let cond := { cond with hasSubWhere := true, subWhereCol := (afterDot l.1).getD l.1 }
    let p := skipWhitespace l.2
    let o := (parseSign p).getD (cond.subWhereOp, p)
    let r := parseIdentifier (skipWhitespace o.2) maxRawVal
    let cond := { cond with subWhereOp := o.1 }
    match afterDot r.1 with
    | some outer => ({ cond with subWhereIsCorrelated := true, subCorrelatedOuterCol := outer.take 31 }, r.2)
    | none => ({ cond with subWhereVal := r.1 }, r.2)
  else (cond, p)

/-- An EXISTS or NOT EXISTS condition behind its keyword. -/
def parseExists (cond : SingleCond) (p : Text) : SingleCond × Text :=
  let p := skipWhitespace (skipChar 40 (skipWhitespace p))
  if startsCI kwSelect p then
    let p := skipWhitespace (p.drop 6)
    let p := if isdigit (peek p) then p.dropWhile (!isspace ·) else (parseIdentifier p colNameSize).2
    let t := parseSubTable cond (skipWhitespace p)
    let w := parseExistsWhere t.1 (skipWhitespace t.2)
    (w.1, skipChar 41 (skipWhitespace w.2))
  else (cond, p)

/-- The condition of an IN subquery. -/
def parseInWhere (cond : SingleCond) (p : Text) : SingleCond × Text :=
  if startsCI kwWhere p then
    let l := parseIdentifier (p.drop 5) colNameSize
    let p := skipWhitespace l.2
    let o := (parseSign p).getD (cond.subWhereOp, p)
    let v := parseValueToken o.2 64
    ({ cond with hasSubWhere := true, subWhereCol := l.1, subWhereOp := o.1, subWhereVal := v.1 }, v.2)
  else (cond, p)

/-- IN behind its keyword. Of a list of values it parses nothing. -/
def parseIn (cond : SingleCond) (p : Text) : SingleCond × Text :=
  let cond := { cond with op := .isIn }
  let p := skipWhitespace (skipChar 40 (skipWhitespace p))
  if startsCI kwSelect p then
    let c := parseIdentifier (skipWhitespace (p.drop 6)) colNameSize
    let t := parseSubTable { cond with isSubquery := true, subCol := c.1 } (skipWhitespace c.2)
    let w := parseInWhere t.1 (skipWhitespace t.2)
    (w.1, skipChar 41 (skipWhitespace w.2))
  else (cond, p)

/-- BETWEEN behind its keyword. -/
def parseBetween (cond : SingleCond) (p : Text) : Option (SingleCond × Text) :=
  let lo := parseValueToken p maxRawVal
  let p := skipWhitespace lo.2
  if startsCI kwAnd p then
    let hi := parseValueToken (p.drop 3) maxRawVal
    some ({ cond with op := .between, rawVal := lo.1, rawVal2 := hi.1 }, hi.2)
  else none

/-- A character that ends IS NULL. -/
def endsNull (b : UInt8) : Bool := isspace b || b = 0 || b = 41 || b = 59

/-- A character that may follow LIKE or GLOB. -/
def startsPattern (b : UInt8) : Bool := isspace b || b = 39 || b = 34

/-- The operator of a condition, tried in the order of the source; `none` is a syntax error. -/
def parseOperator (cond : SingleCond) (p : Text) : Option (SingleCond × Text) :=
  match parseSign p with
  | some o => some ({ cond with op := o.1 }, o.2)
  | none =>
    if startsCI kwIsNotNull p && endsNull (charAt p 11) then
      some ({ cond with op := .isNotNull }, p.drop 11)
    else if startsCI kwIsNull p && endsNull (charAt p 7) then
      some ({ cond with op := .isNull }, p.drop 7)
    else if startsCI kwMatch p &&
        (isspace (charAt p 5) || charAt p 5 = 0 || charAt p 5 = 39) then
      some ({ cond with op := .ftsMatch }, p.drop 5)
    else if startsCI kwNotLike p && startsPattern (charAt p 8) then
      some ({ cond with op := .notLike }, p.drop 8)
    else if startsCI kwNotGlob p && startsPattern (charAt p 8) then
      some ({ cond with op := .notGlob }, p.drop 8)
    else if startsCI kwLike p && startsPattern (charAt p 4) then
      some ({ cond with op := .like }, p.drop 4)
    else if startsCI kwGlob p && startsPattern (charAt p 4) then
      some ({ cond with op := .glob }, p.drop 4)
    else if startsCI kwBetween p && isspace (charAt p 7) then
      parseBetween cond (p.drop 7)
    else if startsCI kwIn p && (isspace (charAt p 2) || charAt p 2 = 40) then
      some (parseIn cond (p.drop 2))
    else none

/-- The value behind the operators that take one; an empty value is a syntax error. -/
def parseOperand (cond : SingleCond) (p : Text) : Option (SingleCond × Text) :=
  if !cond.isSubquery && !cond.isExists && !cond.isNotExists && cond.op ≠ .isNull && cond.op ≠ .isNotNull &&
      cond.op ≠ .between then
    let v := parseValueToken p maxRawVal
    if v.1 = [] then none else some ({ cond with rawVal := v.1 }, v.2)
  else some (cond, p)

/-- COLLATE behind a condition. -/
def parseCollate (cond : SingleCond) (p : Text) : SingleCond × Text :=
  let p := skipWhitespace p
  if startsCI kwCollate p then
    let p := skipWhitespace (p.drop 7)
    if startsCI kwNocase p then ({ cond with collation := .nocase }, p.drop 6)
    else if startsCI kwRtrim p then ({ cond with collation := .rtrim }, p.drop 5)
    else if startsCI kwBinary p then ({ cond with collation := .binary }, p.drop 6)
    else (cond, p)
  else (cond, p)

/-- A column, an operator and its operand. -/
def parseComparison (p : Text) : Option (SingleCond × Text) :=
  let c := parseIdentifier p colNameSize
  if c.1 = [] then none else parseOperator { SingleCond.zero with colName := c.1 } (skipWhitespace c.2)

/-- One condition; `none` is a syntax error. -/
def parseCond (p : Text) : Option (SingleCond × Text) := do
  let r ←
    if startsCI kwNotExists p then
      some (parseExists { SingleCond.zero with isNotExists := true } (p.drop 10))
    else if startsCI kwExists p then
      some (parseExists { SingleCond.zero with isExists := true } (p.drop 6))
    else parseComparison p
  let r ← parseOperand r.1 r.2
  return parseCollate r.1 r.2

/-- `wc->logic_ops[num_conds - 1] = op`, where there is room. -/
def pushOp (ops : List LogicOp) (op : LogicOp) : List LogicOp :=
  if ops.length < maxWhereConds - 1 then ops ++ [op] else ops

/-- A connective ends where a space or the text does. -/
def endsWord (b : UInt8) : Bool := isspace b || b = 0

/-- The connective behind a condition. -/
def parseConnective (p : Text) : Option (LogicOp × Text) :=
  if startsCI kwAnd p && endsWord (charAt p 3) then some (.and, p.drop 3)
  else if startsCI kwOr p && endsWord (charAt p 2) then some (.or, p.drop 2)
  else none

/-- The loop of `parse_where_clause`, with room for `slots` more conditions. -/
def parseConds : Nat → Text → WhereClause → Option (Text × WhereClause)
  | slots, p, wc =>
    let p := skipWhitespace p
    if peek p = 0 ∨ peek p = 59 then some (p, wc)
    else
      match slots with
      | 0 => some (p, wc)
      | slots + 1 =>
        match parseCond p with
        | none => none
        | some (cond, p) =>
          let wc := { wc with conds := wc.conds ++ [cond] }
          let p := skipWhitespace p
          match parseConnective p with
          | some (op, p) => parseConds slots p { wc with logicOps := pushOp wc.logicOps op }
          | none => some (p, wc)

/-- `parse_where_clause`: the rest of the text and the clause, or a syntax error. -/
def parseWhereClause (p : Text) : Option (Text × WhereClause) :=
  let p := skipWhitespace p
  if startsCI kwWhere p then parseConds maxWhereConds (p.drop 5) ⟨true, [], []⟩
  else some (p, ⟨false, [], []⟩)

/-! ## Evaluation -/

/-- Conversions and comparisons of numbers that the C library and the compiler provide. -/
structure WhereOps extends FloatOps where
  /-- `atof`. -/
  atof : Text → BitVec 64
  /-- `<` of two `float`s. -/
  ltFloat : BitVec 32 → BitVec 32 → Bool
  /-- `<` of two `double`s. -/
  ltDouble : BitVec 64 → BitVec 64 → Bool
  /-- `==` of two `float`s. -/
  eqFloat : BitVec 32 → BitVec 32 → Bool
  /-- `==` of two `double`s. -/
  eqDouble : BitVec 64 → BitVec 64 → Bool
  /-- `snprintf` with `%.8g`. -/
  printDouble : BitVec 64 → Text

/-- `(a > b) - (a < b)`, as the sign, from the two tests. -/
def signOf (gt lt : Bool) : Ordering := if gt then (if lt then .eq else .gt) else if lt then .lt else .eq

/-- The digits of a decimal number, as `strtol` adds them up. -/
def decimal (s : Text) : Int := s.foldl (fun n b => 10 * n + (b.toNat - 48 : Int)) 0

/-- `atoi`, as the library does it: `strtol`, which stops at the bounds of a `long`, cut to 32 bits. -/
def atoi (s : Text) : BitVec 32 :=
  let s := skipWhitespace s
  let neg := peek s = 45
  let s := if peek s = 45 ∨ peek s = 43 then s.drop 1 else s
  let n := decimal (s.takeWhile isdigit)
  BitVec.ofInt 32 (if neg then max (-n) (-2 ^ 63) else min n (2 ^ 63 - 1))

/-- `strcasecmp(raw, "true") == 0 || strcmp(raw, "1") == 0`. -/
def boolOf (raw : Text) : Bool := strcasecmp raw kwTrue = .eq || strcmp raw [49] = .eq

/-- The bytes `%d` prints. -/
def printInt (x : BitVec 32) : Text :=
  let digits := (Nat.toDigits 10 x.toInt.natAbs).map fun c => UInt8.ofNat c.toNat
  if x.toInt < 0 then 45 :: digits else digits

/-- The string comparison of `compare_strings_collated`. -/
def compareStringsCollated (s t : Text) (coll : CollationType) : Ordering :=
  match coll with
  | .nocase => strcasecmp s t
  | .rtrim =>
    let s := (s.reverse.dropWhile isspace).reverse
    let t := (t.reverse.dropWhile isspace).reverse
    let n := min s.length t.length
    match strcmp (s.take n) (t.take n) with
    | .eq => compare s.length t.length
    | r => r
  | _ => strcmp s t

/-- `sql_like_match`. -/
def sqlLikeMatch (coll : CollationType) : Text → Text → Bool
  | [], str => str.isEmpty
  | p :: pattern, str =>
    if p = 37 then
      if pattern = [] then true else (str.tails.dropLast).any fun rest => sqlLikeMatch coll pattern rest
    else
      match str with
      | [] => false
      | s :: str =>
        if p = 95 then sqlLikeMatch coll pattern str
        else if (if coll = .nocase then tolower p ≠ tolower s else p ≠ s) then false
        else sqlLikeMatch coll pattern str

/-- The class loop of `sql_glob_match`: whether `b` is in the class, and the pattern behind it. Characters compare
signed. -/
def globClass (b : UInt8) : Nat → Text → Bool → Bool × Text
  | 0, pattern, matched => (matched, pattern)
  | fuel + 1, pattern, matched =>
    if peek pattern = 0 ∨ peek pattern = 93 then (matched, skipChar 93 pattern)
    else if charAt pattern 1 = 45 ∧ charAt pattern 2 ≠ 0 ∧ charAt pattern 2 ≠ 93 then
      globClass b fuel (pattern.drop 3)
        (matched || (peek pattern).toInt8 ≤ b.toInt8 && b.toInt8 ≤ (charAt pattern 2).toInt8)
    else globClass b fuel (pattern.drop 1) (matched || b = peek pattern)

/-- `sql_glob_match`; a turn takes at least one character of the pattern. -/
def sqlGlobMatch : Nat → Text → Text → Bool
  | 0, _, _ => false
  | _ + 1, [], str => str.isEmpty
  | fuel + 1, p :: pattern, str =>
    if p = 42 then
      if pattern = [] then true else (str.tails.dropLast).any fun rest => sqlGlobMatch fuel pattern rest
    else
      match str with
      | [] => false
      | s :: str =>
        if p = 63 then sqlGlobMatch fuel pattern str
        else if p = 91 then
          let invert := peek pattern = 33 || peek pattern = 94
          let pattern := if invert then pattern.drop 1 else pattern
          let c := globClass s (pattern.length + 1) pattern false
          if c.1 != invert then sqlGlobMatch fuel c.2 str else false
        else if p ≠ s then false
        else sqlGlobMatch fuel pattern str

/-- A table of a subquery: its columns and its rows in the order of the cursor. -/
structure SubTable where
  columns : List Column
  rows : List (List Value)

/-- `catalog_find`, where there is a catalog. -/
abbrev SubTables := Text → Option SubTable

section Eval

variable (ops : WhereOps) (subs : SubTables)

/-- `text_val` as the string functions see it. -/
def Value.str (v : Value) : Text := v.textVal.takeWhile (· ≠ 0)

/-- The index of the first column of that name. -/
def findColumn (cols : List Column) (name : Text) : Option Nat := cols.findIdx? fun c => c.name.str = name

/-- The same, whatever the case of the letters. -/
def findColumnCI (cols : List Column) (name : Text) : Option Nat :=
  cols.findIdx? fun c => strcasecmp c.name.str name = .eq

/-- A text as a value of the column's type. -/
def filterValue (type : ColumnType) (raw : Text) : Value :=
  match type with
  | .int => { Value.init with intVal := atoi raw }
  | .float => { Value.init with floatVal := ops.narrow (ops.atof raw) }
  | .double | .numeric | .decimal => { Value.init with doubleVal := ops.atof raw }
  | .bool => { Value.init with boolVal := boolOf raw }
  | _ => { Value.init with textVal := raw, textLen := raw.length }

/-- The `switch` over the column's type that compares two values. -/
def compareTyped (type : ColumnType) (coll : CollationType) (a b : Value) : Ordering :=
  match type with
  | .int => signOf (b.intVal.slt a.intVal) (a.intVal.slt b.intVal)
  | .float => signOf (ops.ltFloat b.floatVal a.floatVal) (ops.ltFloat a.floatVal b.floatVal)
  | .double | .numeric | .decimal => signOf (ops.ltDouble b.doubleVal a.doubleVal) (ops.ltDouble a.doubleVal b.doubleVal)
  | .bool => signOf (a.boolVal && !b.boolVal) (!a.boolVal && b.boolVal)
  | _ => compareStringsCollated a.str b.str coll

/-- The `switch` of the IN subquery that tests two values for equality. -/
def equalTyped (type : ColumnType) (a b : Value) : Bool :=
  match type with
  | .int => a.intVal = b.intVal
  | .float => ops.eqFloat a.floatVal b.floatVal
  | .double => ops.eqDouble a.doubleVal b.doubleVal
  | .bool => a.boolVal = b.boolVal
  | _ => strcmp a.str b.str = .eq

/-- `compare_values`. -/
def compareValues (type : ColumnType) (a b : Value) : Ordering :=
  if a.isNull && b.isNull then .eq
  else if a.isNull then .lt
  else if b.isNull then .gt
  else
    match type with
    | .int => signOf (b.intVal.slt a.intVal) (a.intVal.slt b.intVal)
    | .float =>
      let f := fun v : Value => if nonzero v.doubleVal then ops.narrow v.doubleVal else v.floatVal
      signOf (ops.ltFloat (f b) (f a)) (ops.ltFloat (f a) (f b))
    | .double | .numeric | .decimal =>
      let d := fun v : Value => if nonzero v.doubleVal then v.doubleVal else ops.widen v.floatVal
      signOf (ops.ltDouble (d b) (d a)) (ops.ltDouble (d a) (d b))
    | .bool => signOf (a.boolVal && !b.boolVal) (!a.boolVal && b.boolVal)
    | _ => strcmp a.str b.str

/-- The result of a comparison under an operator. -/
def opHolds (op : CompOp) (cmp : Ordering) : Bool :=
  match op with
  | .eq => cmp = .eq
  | .lt => cmp = .lt
  | .gt => cmp = .gt
  | .lte => cmp ≠ .gt
  | .gte => cmp ≠ .lt
  | _ => false

/-- In a subquery, DOUBLE and the types stored as one differ: NUMERIC and DECIMAL compare as texts. -/
def subType (type : ColumnType) : ColumnType :=
  match type with
  | .numeric | .decimal => .text
  | type => type

/-- `sub_pass`: a row of the subquery's table against its condition. -/
def subPass (cols : List Column) (vals : List Value) (cond : SingleCond) (sub : SubTable) (row : List Value) : Bool :=
  if cond.hasSubWhere then
    match findColumn sub.columns cond.subWhereCol with
    | none => true
    | some s =>
      let type := subType ((sub.columns[s]?.map Column.type).getD .text)
      let filter :=
        if cond.subWhereIsCorrelated then
          match findColumn cols cond.subCorrelatedOuterCol with
          | some o => vals.getD o Value.init
          | none => Value.init
        else filterValue ops type cond.subWhereVal
      opHolds cond.subWhereOp (compareTyped ops type .binary (row.getD s Value.init) filter)
  else true

/-- `val_str`: a value as LIKE and GLOB see it, cut to the buffer. -/
def valStr (type : ColumnType) (v : Value) : Text :=
  match type with
  | .int => printInt v.intVal
  | .double | .float => ops.printDouble v.doubleVal
  | _ => v.str.take 65535

/-- `strcasestr(s, t) != NULL`. -/
def containsCI (s t : Text) : Bool := s.tails.any fun rest => (rest.map tolower).take t.length = t.map tolower

/-- The result of one condition that names the column `col`, whose value on the row is `actual`. -/
def evalOnColumn (cond : SingleCond) (col : Column) (actual : Value) : Bool :=
  if cond.op = .isNull then actual.isNull
  else if cond.op = .isNotNull then !actual.isNull
  else if actual.isNull then false
  else if cond.op = .between then
    let bound := fun raw => filterValue ops (if col.type = .bool then .text else col.type) raw
    compareValues ops col.type actual (bound cond.rawVal) ≠ .lt && compareValues ops col.type actual (bound cond.rawVal2) ≠ .gt
  else if cond.op = .like ∨ cond.op = .notLike then
    let m := sqlLikeMatch cond.collation cond.rawVal (valStr ops col.type actual)
    if cond.op = .like then m else !m
  else if cond.op = .glob ∨ cond.op = .notGlob then
    let m := sqlGlobMatch (cond.rawVal.length + 1) cond.rawVal (valStr ops col.type actual)
    if cond.op = .glob then m else !m
  else
    let filter := filterValue ops col.type cond.rawVal
    if cond.op = .ftsMatch then containsCI actual.str filter.str
    else
      let coll := if cond.collation = .notSet then col.collation else cond.collation
      opHolds cond.op (compareTyped ops col.type (if coll = .notSet then .binary else coll) actual filter)

/-- `cond_results[i]`. -/
def evalCond (cols : List Column) (vals : List Value) (cond : SingleCond) : Bool :=
  if cond.isExists || cond.isNotExists then
    match subs cond.subTable with
    | none => false
    | some sub =>
      let found := sub.rows.any (subPass ops cols vals cond sub)
      if cond.isExists then found else !found
  else
    let idx := (findColumnCI cols cond.colName).or ((afterDot cond.colName).bind (findColumnCI cols))
    match idx.bind fun i => cols[i]?.map fun col => (col, vals.getD i Value.init) with
    | none => false
    | some (col, actual) =>
      if cond.isSubquery then
        match subs cond.subTable with
        | none => false
        | some sub =>
          match findColumn sub.columns cond.subCol with
          | none => false
          | some sc =>
            sub.rows.any fun row =>
              let v := row.getD sc Value.init
              subPass ops cols vals cond sub row && !actual.isNull && !v.isNull && equalTyped ops col.type actual v
      else evalOnColumn ops cond col actual

/-- `eval_where_clause_cols`. -/
def evalWhereClauseCols (cols : List Column) (vals : List Value) (wc : WhereClause) : Bool :=
  if !wc.hasWhere || wc.conds = [] then true
  else
    let results := wc.conds.map (evalCond ops subs cols vals)
    foldLeft (results.headD false) (wc.logicOps.zip results.tail)

end Eval

end CustomDB
