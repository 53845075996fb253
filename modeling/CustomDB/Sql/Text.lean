import Mathlib

/-!
# Text scanning

The helpers of the parser and of the string comparisons, over the bytes of a C string before its terminator.
-/

namespace CustomDB

/-- A C string, without its terminator. -/
abbrev Text := List UInt8

/-- The bytes of an ASCII string. -/
def ascii (s : List Char) : Text := s.map fun c => UInt8.ofNat c.toNat

/-! ## Characters -/

/-- `isspace`. -/
def isspace (b : UInt8) : Bool := b = 32 || (9 ≤ b && b ≤ 13)

/-- `isdigit`. -/
def isdigit (b : UInt8) : Bool := 48 ≤ b && b ≤ 57

/-- `isalnum`. -/
def isalnum (b : UInt8) : Bool := isdigit b || (65 ≤ b && b ≤ 90) || (97 ≤ b && b ≤ 122)

/-- `tolower`. -/
def tolower (b : UInt8) : UInt8 := if 65 ≤ b ∧ b ≤ 90 then b + 32 else b

/-- A character of an identifier: a letter, a digit, `_` or `.`. -/
def isIdent (b : UInt8) : Bool := isalnum b || b = 95 || b = 46

/-- `*p`, 0 at the end. -/
def peek (p : Text) : UInt8 := p.headD 0

/-- `strncasecmp(p, kw, strlen(kw)) == 0` for a keyword in lower case. -/
def startsCI (kw : Text) (p : Text) : Bool := (p.take kw.length).map tolower = kw

/-- `strncmp(p, kw, strlen(kw)) == 0`. -/
def starts (kw : Text) (p : Text) : Bool := p.take kw.length = kw

/-- `strcmp`, as the sign of its result: bytes compare unsigned, and a 0 ends a string. -/
def strcmp : Text → Text → Ordering
  | [], [] => .eq
  | [], y :: _ => if y = 0 then .eq else .lt
  | x :: _, [] => if x = 0 then .eq else .gt
  | x :: xs, y :: ys =>
    if x = y then (if x = 0 then .eq else strcmp xs ys) else if x < y then .lt else .gt

/-- `strcasecmp`. -/
def strcasecmp (s t : Text) : Ordering := strcmp (s.map tolower) (t.map tolower)

/-! ## Scanning -/

/-- `skip_whitespace`. -/
def skipWhitespace (p : Text) : Text := p.dropWhile isspace

/-- `parse_identifier`: what fits into `max_len` bytes, and the rest. -/
def parseIdentifier (p : Text) (maxLen : Nat) : Text × Text :=
  let p := skipWhitespace p
  ((p.takeWhile isIdent).take (maxLen - 1), p.dropWhile isIdent)

/-- Scan a quoted string behind its opening quote, a doubled quote standing for one: the text and the rest. -/
def scanQuoted (quote : UInt8) : Text → Text × Text
  | [] => ([], [])
  | [b] => if b = quote then ([], []) else ([b], [])
  | b :: c :: p =>
    if b = quote then
      if c = quote then
        let r := scanQuoted quote p
        (quote :: r.1, r.2)
      else ([], c :: p)
    else
      let r := scanQuoted quote (c :: p)
      (b :: r.1, r.2)

/-- Scan a bracketed list, `depth` brackets open: the text with its brackets, and the rest. -/
def scanBracket : Int → Text → Text × Text
  | _, [] => ([], [])
  | depth, b :: p =>
    if b = 91 then
      let r := scanBracket (depth + 1) p
      (b :: r.1, r.2)
    else if b = 93 then
      if depth - 1 ≤ 0 then ([b], p)
      else
        let r := scanBracket (depth - 1) p
        (b :: r.1, r.2)
    else
      let r := scanBracket depth p
      (b :: r.1, r.2)

/-- Scan a blob literal behind its opening quote: what is up to the closing quote, and the rest. -/
def scanBlob (quote : UInt8) : Text → Text × Text
  | [] => ([], [])
  | b :: p =>
    if b = quote then ([b], p)
    else
      let r := scanBlob quote p
      (b :: r.1, r.2)

/-- A character that ends an unquoted value. -/
def endsValue (b : UInt8) : Bool := isspace b || b = 44 || b = 41 || b = 61 || b = 59

/-- `parse_value_token`: what fits into `max_len` bytes, and the rest. -/
def parseValueToken (p : Text) (maxLen : Nat) : Text × Text :=
  let p := skipWhitespace p
  let b := peek p
  let c := peek p.tail
  let r :=
    if (b = 120 ∨ b = 88) ∧ (c = 39 ∨ c = 34) then
      let r := scanBlob c (p.drop 2)
      (b :: c :: r.1, r.2)
    else if b = 39 ∨ b = 34 then scanQuoted b p.tail
    else if b = 91 then scanBracket 0 p
    else (p.takeWhile (!endsValue ·), p.dropWhile (!endsValue ·))
  (r.1.take (maxLen - 1), r.2)

end CustomDB
