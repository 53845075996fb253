import CustomDB.Sql.Where

/-!
# WHERE clauses as written

Comparisons, LIKE, GLOB, IS NULL, BETWEEN and IN lists joined by AND and OR, with every spelling of a keyword, every
spacing and every kind of literal; the text of such a clause, and when it is true of a row. One condition is true where
the evaluator says so of the condition with all that was written; of a list, where one of its values compares equal.
-/

namespace CustomDB

open Lib.Connective

/-! ## Words, blanks and literals -/

/-- White space, or nothing. -/
structure Blank where
  text : Text
  space : ∀ b ∈ text, isspace b = true

/-- A keyword, in any mixture of cases. -/
abbrev Keyword (kw : Text) := { t : Text // t.map tolower = kw }

/-- A number or a bare word as a value. -/
structure Bare (s : Text) : Prop where
  ne_nil : s ≠ []
  chars : ∀ b ∈ s, b ≠ 0 ∧ endsValue b = false
  head : peek s ≠ 39 ∧ peek s ≠ 34 ∧ peek s ≠ 91 ∧ peek s ≠ 62
  notBlob : ¬ ((peek s = 120 ∨ peek s = 88) ∧ (peek s.tail = 39 ∨ peek s.tail = 34))

/-- `'` or `"`. -/
def quoteChar (double : Bool) : UInt8 := if double then 34 else 39

inductive Literal where
  | bare (s : Text) (h : Bare s)
  | quoted (double : Bool) (s : Text) (h : ∀ b ∈ s, b ≠ 0)
  | blob (upper double : Bool) (s : Text) (h : ∀ b ∈ s, b ≠ 0 ∧ b ≠ quoteChar double)

namespace Literal

/-- A string with every quote in it doubled. -/
def escape (q : UInt8) (s : Text) : Text := s.flatMap fun b => if b = q then [q, q] else [b]

/-- As written. -/
def text : Literal → Text
  | bare s _ => s
  | quoted d s _ => quoteChar d :: (escape (quoteChar d) s ++ [quoteChar d])
  | blob u d s _ => (if u then 88 else 120) :: quoteChar d :: (s ++ [quoteChar d])

/-- As meant; a blob literal is taken as it is written. -/
def value : Literal → Text
  | bare s _ => s
  | quoted _ s _ => s
  | blob u d s _ => (if u then 88 else 120) :: quoteChar d :: (s ++ [quoteChar d])

/-- A literal that ends with a quote needs no blank behind it. -/
def closed : Literal → Bool
  | bare _ _ => false
  | _ => true

/-- A literal that starts with a quote needs no blank before it. -/
def isQuoted : Literal → Bool
  | quoted _ _ _ => true
  | _ => false

/-- The value fits into `raw_val`, and is not taken for a missing one. -/
def fits (v : Literal) : Bool := v.value ≠ [] && v.value.length < maxRawVal

end Literal

/-! ## Conditions -/

/-- NOT before another keyword, with the blank behind it. -/
abbrev Negation := Option (Keyword kwNot × Blank)

namespace Negation

def text : Negation → Text
  | none => []
  | some (w, b) => w.val ++ b.text

/-- One space behind NOT. -/
def plain : Negation → Bool
  | none => true
  | some (_, b) => b.text = [32]

end Negation

inductive Sign where
  | eq | gt | lt | gte | lte

def Sign.text : Sign → Text
  | eq => [61] | gt => [62] | lt => [60] | gte => [62, 61] | lte => [60, 61]

def Sign.op : Sign → CompOp
  | eq => .eq | gt => .gt | lt => .lt | gte => .gte | lte => .lte

/-- LIKE or GLOB. -/
def patternWord (glob : Bool) : Text := if glob then kwGlob else kwLike

/-- An operator with its operands. -/
inductive WrittenOp where
  | sign (s : Sign) (gap : Blank) (v : Literal)
  | notEqual (bang : Bool) (gap : Blank) (v : Literal)
  | pattern (glob : Bool) (neg : Negation) (kw : Keyword (patternWord glob)) (gap : Blank) (v : Literal)
      (h : gap.text ≠ [] ∨ v.isQuoted = true)
  | isNull (kwIs : Keyword kwIs) (gap : Blank) (neg : Negation) (kwNull : Keyword kwNull)
  | between (kw : Keyword kwBetween) (gapLo : Blank) (lo : Literal) (gapAnd : Blank)
      (kwAnd : Keyword kwAnd) (gapHi : Blank) (hi : Literal)
      (hlo : gapLo.text ≠ [] ∨ lo.closed = true) (hand : gapAnd.text ≠ [] ∨ lo.closed = true)
      (hhi : gapHi.text ≠ [] ∨ hi.closed = true)
  | inList (kw : Keyword kwIn) (gap inner : Blank) (v : Literal) (more : List (Blank × Blank × Literal))
      (close : Blank)

namespace WrittenOp

def text : WrittenOp → Text
  | sign s gap v => s.text ++ (gap.text ++ v.text)
  | notEqual bang gap v => (if bang then [33, 61] else [60, 62]) ++ (gap.text ++ v.text)
  | pattern _ neg kw gap v _ => neg.text ++ (kw.val ++ (gap.text ++ v.text))
  | isNull kwIs gap neg kwNull => kwIs.val ++ (gap.text ++ (neg.text ++ kwNull.val))
  | between kw gapLo lo gapAnd kwAnd gapHi hi _ _ _ =>
    kw.val ++ (gapLo.text ++ (lo.text ++ (gapAnd.text ++ (kwAnd.val ++ (gapHi.text ++ hi.text)))))
  | inList kw gap inner v more close =>
    kw.val ++ (gap.text ++ (40 :: (inner.text ++ (v.text ++
      (more.flatMap (fun x => x.1.text ++ 44 :: (x.2.1.text ++ x.2.2.text)) ++ (close.text ++ [41]))))))

/-- A comparison sign needs no blank before it. -/
def isSign : WrittenOp → Bool
  | sign _ _ _ | notEqual _ _ _ => true
  | _ => false

/-- An operator that ends with a quote or a bracket needs no blank behind it. -/
def closed : WrittenOp → Bool
  | sign _ _ v | notEqual _ _ v | pattern _ _ _ _ v _ | between _ _ _ _ _ _ v _ _ _ => v.closed
  | isNull _ _ _ _ => false
  | inList _ _ _ _ _ _ => true

/-- An operator the parser holds in full: one it knows, spaced the way it looks for, with values that fit. -/
def readable : WrittenOp → Bool
  | sign _ _ v => v.fits
  | notEqual _ _ _ => false
  | pattern _ neg _ _ v _ => neg.plain && v.fits
  | isNull _ gap neg _ => gap.text = [32] && neg.plain
  | between _ gapLo lo _ _ _ hi _ _ _ => gapLo.text ≠ [] && lo.value.length < maxRawVal && hi.value.length < maxRawVal
  | inList _ _ _ _ _ _ => false

end WrittenOp

/-- A condition: a column and an operator with its operands. -/
structure WrittenCond where
  col : Text
  col_ne : col ≠ []
  col_ident : ∀ b ∈ col, isIdent b = true
  col_name : col.map tolower ≠ kwNot
  gap : Blank
  op : WrittenOp
  gap_ok : op.isSign = true ∨ gap.text ≠ []

namespace WrittenCond

def text (w : WrittenCond) : Text := w.col ++ (w.gap.text ++ w.op.text)

/-- The parser holds the condition in full: the column's name fits and does not start like EXISTS. -/
def readable (w : WrittenCond) : Bool :=
  w.col.length < colNameSize && !startsCI kwExists w.col && w.op.readable

/-- A comparison as the evaluator takes it. -/
def condOf (col : Text) (op : CompOp) (v v2 : Text) : SingleCond :=
  { SingleCond.zero with colName := col, op := op, rawVal := v, rawVal2 := v2 }

/-- The condition as the evaluator takes it, with all that was written. -/
def cond (w : WrittenCond) : SingleCond :=
  match w.op with
  | .sign s _ v => condOf w.col s.op v.value []
  | .notEqual _ _ v => condOf w.col .eq v.value []
  | .pattern glob neg _ _ v _ =>
    condOf w.col (if glob then (if neg.isSome then .notGlob else .glob) else if neg.isSome then .notLike else .like)
      v.value []
  | .isNull _ _ neg _ => condOf w.col (if neg.isSome then .isNotNull else .isNull) [] []
  | .between _ _ lo _ _ _ hi _ _ _ => condOf w.col .between lo.value hi.value
  | .inList _ _ _ v _ _ => condOf w.col .isIn v.value []

end WrittenCond

section Truth

variable (ops : WhereOps) (subs : SubTables) (cols : List Column) (vals : List Value)

/-- The condition is true of the row. -/
def WrittenCond.truth (w : WrittenCond) : Bool :=
  let holds := fun op v => evalCond ops subs cols vals (condOf w.col op v [])
  match w.op with
  | .notEqual _ _ v => holds .lt v.value || holds .gt v.value
  | .inList _ _ _ v more _ => holds .eq v.value || more.any fun x => holds .eq x.2.2.value
  | _ => evalCond ops subs cols vals w.cond

end Truth

/-! ## Clauses -/

/-- The keyword of a connective. -/
def connWord : LogicOp → Text
  | .and => kwAnd
  | .or => kwOr

/-- A connective with the blanks around it. -/
structure Joint where
  before : Blank
  conn : LogicOp
  kw : Keyword (connWord conn)
  after : Blank
  after_ne : after.text ≠ []

/-- What may stand behind a WHERE clause: the end of the text, `;`, or a word that continues no condition. -/
structure Follows (p : Text) : Prop where
  head : p = [] ∨ isspace (peek p) = true ∨ peek p = 59
  noConnective : parseConnective (skipWhitespace p) = none
  noCollate : startsCI kwCollate (skipWhitespace p) = false

/-- Each connective is set off from the condition before it. -/
def SetOff : WrittenCond → List (Joint × WrittenCond) → Prop
  | _, [] => True
  | w, (j, v) :: l => (j.before.text ≠ [] ∨ w.op.closed = true) ∧ SetOff v l

/-- A WHERE clause with the text behind it. -/
structure WrittenClause where
  lead : Blank
  kw : Keyword kwWhere
  gap : Blank
  gap_ne : gap.text ≠ []
  first : WrittenCond
  rest : List (Joint × WrittenCond)
  setOff : SetOff first rest
  tail : Text
  follows : Follows tail

namespace WrittenClause

/-- The connectives and the conditions behind the first, as written. -/
def restText (l : List (Joint × WrittenCond)) : Text :=
  l.flatMap fun x => x.1.before.text ++ (x.1.kw.val ++ (x.1.after.text ++ x.2.text))

def text (c : WrittenClause) : Text :=
  c.lead.text ++ (c.kw.val ++ (c.gap.text ++ (c.first.text ++ (restText c.rest ++ c.tail))))

/-- The clause is true of the row: AND binds tighter than OR, and every condition counts. -/
def truth (ops : WhereOps) (subs : SubTables) (cols : List Column) (vals : List Value) (c : WrittenClause) : Bool :=
  prec (c.first.truth ops subs cols vals) (c.rest.map fun x => (x.1.conn, x.2.truth ops subs cols vals))

/-- The connectives of a clause, and which of its conditions the parser holds in full. -/
def shape (c : WrittenClause) : Bool × Shape :=
  (c.first.readable, c.rest.map fun x => (x.1.conn, x.2.readable))

/-- The parser rejects the clause, or the row is kept exactly where the clause is true of it. -/
def Meets (ops : WhereOps) (subs : SubTables) (cols : List Column) (vals : List Value) (c : WrittenClause) : Prop :=
  ∀ p wc, parseWhereClause c.text = some (p, wc) →
    evalWhereClauseCols ops subs cols vals wc = c.truth ops subs cols vals

end WrittenClause

end CustomDB
