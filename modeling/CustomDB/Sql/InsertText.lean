import CustomDB.Sql.Scan

/-!
# INSERT, as it is parsed

The INSERT branch of `prepare_statement` up to the end of the VALUES lists. The parser reads a column list and keeps
nothing of it; here it stays beside the values, for what the statement says.
-/

namespace CustomDB

def kwInsert : Text := ascii ['i', 'n', 's', 'e', 'r', 't']
def kwReplace : Text := ascii ['r', 'e', 'p', 'l', 'a', 'c', 'e']
def kwIgnore : Text := ascii ['i', 'g', 'n', 'o', 'r', 'e']
def kwInto : Text := ascii ['i', 'n', 't', 'o']
def kwValues : Text := ascii ['v', 'a', 'l', 'u', 'e', 's']

/-- `MAX_MULTI_ROWS`. -/
def maxMultiRows : Nat := 8

/-- A value of a VALUES list: `multi_raw_values`, `dyn_multi_raw_values` and `multi_raw_is_null`. -/
structure ValueToken where
  raw : Text
  dyn : Option Text
  isNull : Bool
  deriving DecidableEq

/-- The string that is used. -/
def ValueToken.text (v : ValueToken) : Text := v.dyn.getD v.raw

/-- `was_quoted`: a string or a blob. -/
def wasQuoted (p : Text) : Bool :=
  ((peek p = 120 || peek p = 88) && (peek p.tail = 39 || peek p.tail = 34)) || peek p = 39 || peek p = 34

/-- `parse_value_token_alloc`: a text as long as the buffer goes to the heap. -/
def parseValueTokenAlloc (p : Text) : ValueToken × Text :=
  let q := skipWhitespace p
  let t := parseValueToken q (q.length + 1)
  let rawSpan := q.length - t.2.length
  (⟨t.1.take (maxRawVal - 1), if maxRawVal - 1 ≤ rawSpan then some t.1 else none,
    !wasQuoted q && t.1.map tolower = kwNull⟩, t.2)

/-- The column list behind its bracket; `none` where the loop does not end. `fuel` is the number of turns. -/
def parseColList : Nat → Text → List Text → Option (List Text × Text)
  | 0, _, _ => none
  | fuel + 1, p, cols =>
    if p = [] ∨ peek p = 41 then some (cols, skipChar 41 p)
    else
      let p := skipWhitespace p
      let t := parseIdentifier p colNameSize
      let s := if cols.length < maxColumns then (cols ++ [t.1], t.2) else (cols, p)
      parseColList fuel (skipChar 44 (skipWhitespace s.2)) s.1

/-- A VALUES list behind its bracket; `none` is a syntax error. -/
def parseValuesList : Nat → Text → List ValueToken → Option (List ValueToken × Text)
  | 0, _, _ => none
  | fuel + 1, p, vs =>
    if p = [] ∨ peek p = 41 then some (vs, skipChar 41 p)
    else if maxColumns ≤ vs.length then none
    else
      let t := parseValueTokenAlloc p
      let q := skipWhitespace t.2
      if peek q = 44 then parseValuesList fuel (q.drop 1) (vs ++ [t.1])
      else if peek q = 41 then parseValuesList fuel q (vs ++ [t.1])
      else none

/-- The VALUES lists; `none` is a syntax error. -/
def parseValuesLists : Nat → Text → List (List ValueToken) → Option (List (List ValueToken) × Text)
  | 0, _, _ => none
  | fuel + 1, p, rows =>
    if p = [] then some (rows, p)
    else if maxMultiRows ≤ rows.length then none
    else
      let p := skipWhitespace p
      if peek p ≠ 40 then some (rows, p)
      else
        match parseValuesList (maxColumns + 1) (p.drop 1) [] with
        | none => none
        | some (vs, q) =>
          let q := skipWhitespace q
          if peek q = 44 then parseValuesLists fuel (q.drop 1) (rows ++ [vs]) else some (rows ++ [vs], q)

/-- What there is of a plain INSERT with VALUES when the lists are read. -/
structure ParsedInsert where
  tableName : Text
  colList : List Text
  rows : List (List ValueToken)
  rest : Text
  deriving DecidableEq

/-- `if (strncasecmp(p, kw, n) == 0) p += n`. -/
def skipKeyword (kw p : Text) : Text := if startsCI kw p then p.drop kw.length else p

/-- `prepare_statement` from INSERT to the VALUES lists; INSERT OR and INSERT ... SELECT are not here. -/
def prepareInsert (p : Text) : Option ParsedInsert :=
  if !startsCI kwInsert p then none
  else
    let p := skipWhitespace (p.drop 6)
    if startsCI kwOr p && isspace (charAt p 2) then none
    else
      let p := if startsCI kwInto p && isspace (charAt p 4) then p.drop 4 else p
      let t := parseIdentifier p tblNameSize
      if t.1 = [] then none
      else
        let p := skipWhitespace t.2
        let cols := if peek p = 40 ∧ !startsCI kwSelect (skipWhitespace (p.drop 1)) then
            (parseColList (p.length + maxColumns + 1) (p.drop 1) []).map fun c => (c.1, skipWhitespace c.2)
          else some ([], p)
        match cols with
        | none => none
        | some (colList, p) =>
          if startsCI kwSelect p then none
          else
            match parseValuesLists (maxMultiRows + 1) (skipKeyword kwValues p) [] with
            | none => none
            | some (rows, p) =>
              if (rows.getLastD []) = [] then none else some ⟨t.1, colList, rows, p⟩

/-! ## Quoted strings -/

section Quoted

variable {rest : Text} (d : Bool) (s : Text)

/-- A quoted string, each quote in it twice. -/
def quoteText : Text := quoteChar d :: (Literal.escape (quoteChar d) s ++ [quoteChar d])

theorem length_escape (q : UInt8) : s.length ≤ (Literal.escape q s).length := by
  induction s with
  | nil => exact Nat.le_refl _
  | cons b s ih =>
    show s.length + 1 ≤ ((if b = q then [q, q] else [b]) ++ Literal.escape q s).length
    rw [List.length_append]
    have hb : 1 ≤ (if b = q then [q, q] else [b]).length := by split <;> simp
    omega

/-- A quoted string is read back as it is, whatever is in it, and is not NULL. -/
theorem parseValueTokenAlloc_quoted (g : Blank) (hrest : peek rest ≠ quoteChar d) :
    (parseValueTokenAlloc (g.text ++ (quoteText d s ++ rest))).1.text = s ∧
      (parseValueTokenAlloc (g.text ++ (quoteText d s ++ rest))).1.isNull = false ∧
      (parseValueTokenAlloc (g.text ++ (quoteText d s ++ rest))).2 = rest := by
  set q := quoteText d s ++ rest with hq
  have hquote : q = quoteChar d :: (Literal.escape (quoteChar d) s ++ quoteChar d :: rest) := by
    simp [hq, quoteText]
  have hspace : isspace (peek q) = false := by
    rw [hquote]
    cases d <;> rfl
  have hskip : skipWhitespace (g.text ++ q) = q := by rw [skipWhitespace_blank, skipWhitespace_self hspace]
  have hquoted : wasQuoted q = true := by
    unfold wasQuoted
    rw [hquote, peek_cons]
    rcases quoteChar_cases d with h | h <;> simp [h]
  have hx : ¬ (quoteChar d = 120 ∨ quoteChar d = 88) := by cases d <;> decide
  have hlen : s.length + 2 ≤ q.length - rest.length := by
    have hescape := length_escape s (quoteChar d)
    simp only [hq, quoteText, List.length_append, List.length_cons, List.length_nil]
    omega
  have hscan : parseValueToken q (q.length + 1) = (s, rest) := by
    unfold parseValueToken
    rw [skipWhitespace_self hspace, hquote]
    dsimp only [peek_cons, List.tail_cons]
    simp only [hx, false_and, if_false, quoteChar_cases d, if_true, scanQuoted_escape s hrest]
    rw [← hquote, List.take_of_length_le (by omega)]
  unfold parseValueTokenAlloc
  dsimp only
  rw [hskip, hscan, hquoted]
  refine ⟨?_, rfl, rfl⟩
  show Option.getD (if maxRawVal - 1 ≤ q.length - rest.length then some s else none) (s.take (maxRawVal - 1)) = s
  split
  · rfl
  · exact List.take_of_length_le (by omega)

end Quoted

end CustomDB
