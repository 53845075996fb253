import CustomDB.Sql.Scan
import CustomDB.Catalog.DefinitionSpec

/-!
# What the parser makes of a written clause

A condition the parser can hold comes out of it as it was written; the clause as a whole is cut behind four conditions
and behind the first it cannot hold. With the fold from left to right this meets the meaning of the clause exactly on
the shapes without such a condition, with at most four, and without an AND behind an OR.
-/

namespace CustomDB

open Lib.Connective

variable {rest p : Text} {b : UInt8}

/-! ## Operators -/

theorem parseSign_none (h : peek p ≠ 60 ∧ peek p ≠ 61 ∧ peek p ≠ 62) : parseSign p = none := by
  cases p with
  | nil => rfl
  | cons b p =>
    obtain ⟨h1, h2, h3⟩ := h
    simp only [peek_cons] at h1 h2 h3
    simp [parseSign, starts, h1, h2, h3]

theorem parseSign_text (s : Sign) (h : peek rest ≠ 61) : parseSign (s.text ++ rest) = some (s.op, rest) := by
  have htake : rest.take 1 ≠ [61] := by
    cases rest with
    | nil => simp
    | cons b rest => simpa using h
  cases s <;> simp [Sign.text, Sign.op, parseSign, starts, htake]

/-- A keyword is no sign. -/
theorem Keyword.noSign {kw : Text} (w : Keyword kw) (hlen : 0 < kw.length) (hkw : 97 ≤ charAt kw 0) (rest : Text) :
    parseSign (w.val ++ rest) = none := by
  apply parseSign_none
  have hne : ∀ c : UInt8, tolower c < 97 → peek (w.val ++ rest) ≠ c := fun c hc =>
    w.peek_ne hlen (fun heq => absurd hkw (by rw [← heq]; simpa using hc)) rest
  exact ⟨hne 60 (by decide), hne 61 (by decide), hne 62 (by decide)⟩

/-- The first letter of a keyword is no blank. -/
theorem Keyword.noSpace {kw : Text} (w : Keyword kw) (hlen : 0 < kw.length)
    (hkw : 97 ≤ charAt kw 0 ∧ charAt kw 0 ≤ 122) (rest : Text) : isspace (peek (w.val ++ rest)) = false := by
  rw [← w.first hlen rest] at hkw
  exact isspace_of_isIdent (isIdent_of_tolower hkw)

set_option maxRecDepth 4000 in
theorem not_quote_of_isIdent : isIdent b = true → b ≠ 39 ∧ b ≠ 34 :=
  byte_cases (P := fun b => isIdent b = true → b ≠ 39 ∧ b ≠ 34) (by decide) b

theorem Keyword.noQuote {kw : Text} (w : Keyword kw) (hlen : 0 < kw.length)
    (hkw : 97 ≤ charAt kw 0 ∧ charAt kw 0 ≤ 122) (rest : Text) :
    peek (w.val ++ rest) ≠ 39 ∧ peek (w.val ++ rest) ≠ 34 := by
  rw [← w.first hlen rest] at hkw
  exact not_quote_of_isIdent (isIdent_of_tolower hkw)

/-- Two keywords with a space between them. -/
def Keyword.join {kw kw' : Text} (w : Keyword kw) (w' : Keyword kw') : Keyword (kw ++ 32 :: kw') :=
  ⟨w.val ++ 32 :: w'.val, by
    have hspace : tolower 32 = 32 := by decide
    rw [List.map_append, List.map_cons, hspace, w.property, w'.property]⟩

/-- A keyword that differs in one place does not start here. -/
theorem Keyword.notStarts {t : Text} (w : Keyword t) (other : Text) (k : Nat)
    (h : k < t.length ∧ k < other.length ∧ charAt t k ≠ charAt other k) (rest : Text) :
    startsCI other (w.val ++ rest) = false := by
  refine startsCI_false h.2.1 ?_
  rw [w.char rest h.1]
  exact h.2.2

variable {c : SingleCond}

theorem parseValueToken_blank (g : Blank) (p : Text) (n : Nat) :
    parseValueToken (g.text ++ p) n = parseValueToken p n := by
  unfold parseValueToken
  rw [skipWhitespace_blank]

/-- A value that fits is held whole. -/
theorem Literal.scan_whole {v : Literal} (g : Blank) (hv : v.value.length < maxRawVal) (hrest : Behind v.closed rest) :
    parseValueToken (g.text ++ (v.text ++ rest)) maxRawVal = (v.value, rest) := by
  rw [parseValueToken_blank, v.scan hrest, List.take_of_length_le (by omega)]

/-- The operand of an operator that takes one. -/
theorem parseOperand_value {g : Blank} {v : Literal} (hsub : c.isSubquery = false) (hex : c.isExists = false)
    (hnex : c.isNotExists = false) (hop : c.op ≠ .isNull ∧ c.op ≠ .isNotNull ∧ c.op ≠ .between) (hv : v.fits = true)
    (hrest : Behind v.closed rest) :
    parseOperand c (g.text ++ (v.text ++ rest)) = some ({ c with rawVal := v.value }, rest) := by
  obtain ⟨hne, hlen⟩ : v.value ≠ [] ∧ v.value.length < maxRawVal := by simpa [Literal.fits] using hv
  unfold parseOperand
  rw [Literal.scan_whole g hlen hrest]
  simp [hsub, hex, hnex, hop, hne]

/-- The operand of an operator that takes none here. -/
theorem parseOperand_none (hop : c.op = .isNull ∨ c.op = .isNotNull ∨ c.op = .between) (p : Text) :
    parseOperand c p = some (c, p) := by
  unfold parseOperand
  rcases hop with hop | hop | hop <;> simp [hop]

/-- The operator and the operand of a condition on the column `col`. -/
def parseOpOperand (col : Text) (p : Text) : Option (SingleCond × Text) :=
  (parseOperator { SingleCond.zero with colName := col } p).bind fun r => parseOperand r.1 r.2

set_option maxRecDepth 4000 in
theorem isspace_plain : isspace b = true → b ≠ 61 ∧ b ≠ 62 :=
  byte_cases (P := fun b => isspace b = true → b ≠ 61 ∧ b ≠ 62) (by decide) b

/-- A literal starts with no sign. -/
theorem Literal.head (v : Literal) (rest : Text) : peek (v.text ++ rest) ≠ 61 ∧ peek (v.text ++ rest) ≠ 62 := by
  cases v with
  | bare s h =>
    have hpeek : peek (s ++ rest) = peek s := peek_append h.ne_nil
    refine ⟨fun hn => ?_, fun hn => h.head.2.2.2 (hpeek ▸ hn)⟩
    have hends := (h.chars _ (peek_mem h.ne_nil)).2
    rw [← hpeek, show peek (s ++ rest) = 61 from hn] at hends
    cases hends
  | quoted d s h =>
    have hpeek : peek ((Literal.quoted d s h).text ++ rest) = quoteChar d := rfl
    rw [hpeek]
    cases d <;> exact ⟨by decide, by decide⟩
  | blob u d s h =>
    have hpeek : peek ((Literal.blob u d s h).text ++ rest) = if u then 88 else 120 := rfl
    rw [hpeek]
    cases u <;> exact ⟨by decide, by decide⟩

/-- Blanks and a literal start with no sign. -/
theorem Literal.head_blank (g : Blank) (v : Literal) (rest : Text) :
    peek (g.text ++ (v.text ++ rest)) ≠ 61 ∧ peek (g.text ++ (v.text ++ rest)) ≠ 62 := by
  by_cases hg : g.text = []
  · rw [hg]
    exact v.head rest
  · exact isspace_plain (g.peek_space hg)

theorem parse_sign (col : Text) (s : Sign) (g : Blank) {v : Literal} (hv : v.fits = true) (hrest : Behind v.closed rest) :
    parseOpOperand col (s.text ++ (g.text ++ (v.text ++ rest))) =
      some (WrittenCond.condOf col s.op v.value [], rest) := by
  have hop : s.op ≠ .isNull ∧ s.op ≠ .isNotNull ∧ s.op ≠ .between := by
    cases s <;> exact ⟨by decide, by decide, by decide⟩
  unfold parseOpOperand parseOperator
  rw [parseSign_text s (Literal.head_blank g v rest).1]
  exact parseOperand_value rfl rfl rfl hop hv hrest

/-- LIKE, GLOB and their negations. -/
def patternOps : List (Text × CompOp) :=
  [(kwLike, .like), (kwGlob, .glob), (kwNotLike, .notLike), (kwNotGlob, .notGlob)]

theorem parseOperator_pattern {kw : Text} {op : CompOp} (w : Keyword kw) (hw : (kw, op) ∈ patternOps)
    (hstart : startsPattern (peek rest) = true) : parseOperator c (w.val ++ rest) = some ({ c with op := op }, rest) := by
  have hchar := charAt_append_length w.val rest
  rw [w.length] at hchar
  simp only [patternOps, List.mem_cons, Prod.mk.injEq, List.not_mem_nil, or_false] at hw
  unfold parseOperator
  rcases hw with ⟨rfl, rfl⟩ | ⟨rfl, rfl⟩ | ⟨rfl, rfl⟩ | ⟨rfl, rfl⟩
  · have hchar : charAt (w.val ++ rest) 4 = peek rest := hchar
    rw [w.noSign (by decide) (by decide), w.notStarts kwIsNotNull 0 (by decide), w.notStarts kwIsNull 0 (by decide),
      w.notStarts kwMatch 0 (by decide), w.notStarts kwNotLike 0 (by decide), w.notStarts kwNotGlob 0 (by decide),
      w.starts, hchar, hstart, w.drop rest (n := 4) rfl]
    rfl
  · have hchar : charAt (w.val ++ rest) 4 = peek rest := hchar
    rw [w.noSign (by decide) (by decide), w.notStarts kwIsNotNull 0 (by decide), w.notStarts kwIsNull 0 (by decide),
      w.notStarts kwMatch 0 (by decide), w.notStarts kwNotLike 0 (by decide), w.notStarts kwNotGlob 0 (by decide),
      w.notStarts kwLike 0 (by decide), w.starts, hchar, hstart, w.drop rest (n := 4) rfl]
    rfl
  · have hchar : charAt (w.val ++ rest) 8 = peek rest := hchar
    rw [w.noSign (by decide) (by decide), w.notStarts kwIsNotNull 0 (by decide), w.notStarts kwIsNull 0 (by decide),
      w.notStarts kwMatch 0 (by decide), w.starts, hchar, hstart, w.drop rest (n := 8) rfl]
    rfl
  · have hchar : charAt (w.val ++ rest) 8 = peek rest := hchar
    rw [w.noSign (by decide) (by decide), w.notStarts kwIsNotNull 0 (by decide), w.notStarts kwIsNull 0 (by decide),
      w.notStarts kwMatch 0 (by decide), w.notStarts kwNotLike 4 (by decide), w.starts, hchar, hstart,
      w.drop rest (n := 8) rfl]
    rfl

theorem parse_pattern (col : Text) {t : Text} {op : CompOp} (w : Keyword t) (hw : (t, op) ∈ patternOps)
    (g : Blank) {v : Literal} (hg : g.text ≠ [] ∨ v.isQuoted = true) (hv : v.fits = true) (hrest : Behind v.closed rest) :
    parseOpOperand col (w.val ++ (g.text ++ (v.text ++ rest))) = some (WrittenCond.condOf col op v.value [], rest) := by
  have hstart : startsPattern (peek (g.text ++ (v.text ++ rest))) = true := by
    by_cases hne : g.text = []
    · rw [hne]
      cases v with
      | quoted d s h => cases d <;> rfl
      | bare s h => exact absurd (hg.resolve_left fun hn => hn hne) (by simp [Literal.isQuoted])
      | blob u d s h => exact absurd (hg.resolve_left fun hn => hn hne) (by simp [Literal.isQuoted])
    · rw [startsPattern, g.peek_space hne]
      rfl
  have hop : op ≠ .isNull ∧ op ≠ .isNotNull ∧ op ≠ .between := by
    simp only [patternOps, List.mem_cons, Prod.mk.injEq, List.not_mem_nil, or_false] at hw
    rcases hw with ⟨-, rfl⟩ | ⟨-, rfl⟩ | ⟨-, rfl⟩ | ⟨-, rfl⟩ <;> exact ⟨by decide, by decide, by decide⟩
  unfold parseOpOperand
  rw [parseOperator_pattern w hw hstart]
  exact parseOperand_value rfl rfl rfl hop hv hrest

theorem endsNull_behind (h : Behind false rest) : endsNull (peek rest) = true := by
  rcases h with rfl | h | h | h
  · rfl
  · rw [endsNull, h]
    rfl
  · rw [h]
    rfl
  · exact absurd h.1 (by decide)

theorem parse_isNull (col : Text) (w : Keyword kwIsNull) (hrest : Behind false rest) :
    parseOpOperand col (w.val ++ rest) = some (WrittenCond.condOf col .isNull [] [], rest) := by
  have hchar := charAt_append_length w.val rest
  rw [w.length] at hchar
  have hchar : charAt (w.val ++ rest) 7 = peek rest := hchar
  unfold parseOpOperand parseOperator
  rw [w.noSign (by decide) (by decide), w.notStarts kwIsNotNull 4 (by decide), w.starts, hchar, endsNull_behind hrest,
    w.drop rest (n := 7) rfl]
  exact parseOperand_none (Or.inl rfl) rest

theorem parse_isNotNull (col : Text) (w : Keyword kwIsNotNull) (hrest : Behind false rest) :
    parseOpOperand col (w.val ++ rest) = some (WrittenCond.condOf col .isNotNull [] [], rest) := by
  have hchar := charAt_append_length w.val rest
  rw [w.length] at hchar
  have hchar : charAt (w.val ++ rest) 11 = peek rest := hchar
  unfold parseOpOperand parseOperator
  rw [w.noSign (by decide) (by decide), w.starts, hchar, endsNull_behind hrest, w.drop rest (n := 11) rfl]
  exact parseOperand_none (Or.inr (Or.inl rfl)) rest

theorem Keyword.peek_space {kw : Text} (w : Keyword kw) (hlen : 0 < kw.length)
    (hkw : 97 ≤ charAt kw 0 ∧ charAt kw 0 ≤ 122) (rest : Text) : skipWhitespace (w.val ++ rest) = w.val ++ rest :=
  skipWhitespace_self (w.noSpace hlen hkw rest)

theorem parse_between (col : Text) (w : Keyword kwBetween) {gapLo : Blank} (hlo : gapLo.text ≠ []) {lo hi : Literal}
    (gapAnd : Blank) (wAnd : Keyword kwAnd) (gapHi : Blank) (hand : gapAnd.text ≠ [] ∨ lo.closed = true)
    (hlofits : lo.value.length < maxRawVal) (hhifits : hi.value.length < maxRawVal) (hrest : Behind hi.closed rest) :
    parseOpOperand col (w.val ++ (gapLo.text ++ (lo.text ++ (gapAnd.text ++ (wAnd.val ++ (gapHi.text ++ (hi.text ++ rest))))))) =
      some (WrittenCond.condOf col .between lo.value hi.value, rest) := by
  have hbehind : Behind lo.closed (gapAnd.text ++ (wAnd.val ++ (gapHi.text ++ (hi.text ++ rest)))) := by
    by_cases hne : gapAnd.text = []
    · refine Or.inr (Or.inr (Or.inr ⟨hand.resolve_left fun hn => hn hne, ?_⟩))
      rw [hne]
      exact wAnd.noQuote (by decide) (by decide) _
    · exact Or.inr (Or.inl (gapAnd.peek_space hne))
  have hchar := charAt_append_length w.val (gapLo.text ++ (lo.text ++ (gapAnd.text ++ (wAnd.val ++ (gapHi.text ++ (hi.text ++ rest))))))
  rw [w.length] at hchar
  have hbetween : parseBetween { SingleCond.zero with colName := col }
      (gapLo.text ++ (lo.text ++ (gapAnd.text ++ (wAnd.val ++ (gapHi.text ++ (hi.text ++ rest)))))) =
      some (WrittenCond.condOf col .between lo.value hi.value, rest) := by
    unfold parseBetween
    dsimp only
    rw [Literal.scan_whole gapLo hlofits hbehind]
    dsimp only
    rw [skipWhitespace_blank, wAnd.peek_space (by decide) (by decide), wAnd.starts, if_pos rfl, wAnd.drop _ (n := 3) rfl,
      Literal.scan_whole gapHi hhifits hrest]
    rfl
  have hchar : charAt (w.val ++ (gapLo.text ++ (lo.text ++ (gapAnd.text ++ (wAnd.val ++ (gapHi.text ++ (hi.text ++ rest))))))) 7 =
      peek (gapLo.text ++ (lo.text ++ (gapAnd.text ++ (wAnd.val ++ (gapHi.text ++ (hi.text ++ rest)))))) := hchar
  unfold parseOpOperand parseOperator
  rw [w.noSign (by decide) (by decide), w.notStarts kwIsNotNull 0 (by decide), w.notStarts kwIsNull 0 (by decide),
    w.notStarts kwMatch 0 (by decide), w.notStarts kwNotLike 0 (by decide), w.notStarts kwNotGlob 0 (by decide),
    w.notStarts kwLike 0 (by decide), w.notStarts kwGlob 0 (by decide), w.starts, hchar, gapLo.peek_space hlo,
    w.drop _ (n := 7) rfl]
  show (parseBetween _ _).bind _ = _
  rw [hbetween]
  exact parseOperand_none (Or.inr (Or.inr rfl)) rest

/-- An operator the parser can hold comes out as it was written. -/
theorem WrittenCond.parse_op {w : WrittenCond} (hw : w.op.readable = true) (hrest : Behind w.op.closed rest) :
    parseOpOperand w.col (w.op.text ++ rest) = some (w.cond, rest) := by
  unfold WrittenCond.cond
  cases hop : w.op with
  | sign s g v =>
    rw [hop] at hw hrest
    rw [WrittenOp.text, List.append_assoc, List.append_assoc]
    exact parse_sign w.col s g hw hrest
  | notEqual bang g v =>
    rw [hop] at hw
    cases hw
  | pattern glob neg kw g v hg =>
    rw [hop] at hw hrest
    obtain ⟨hneg, hv⟩ : neg.plain = true ∧ v.fits = true := by simpa [WrittenOp.readable] using hw
    cases neg with
    | none =>
      have htext : (WrittenOp.pattern glob none kw g v hg).text ++ rest = kw.val ++ (g.text ++ (v.text ++ rest)) := by
        simp [WrittenOp.text, Negation.text]
      rw [htext]
      cases glob
      · exact parse_pattern w.col (t := kwLike) kw (by simp [patternOps]) g hg hv hrest
      · exact parse_pattern w.col (t := kwGlob) kw (by simp [patternOps]) g hg hv hrest
    | some n =>
      obtain ⟨wnot, b⟩ := n
      have hb : b.text = [32] := by simpa [Negation.plain] using hneg
      have htext : (WrittenOp.pattern glob (some (wnot, b)) kw g v hg).text ++ rest =
          (wnot.join kw).val ++ (g.text ++ (v.text ++ rest)) := by
        simp [WrittenOp.text, Negation.text, hb, Keyword.join]
      rw [htext]
      cases glob
      · exact parse_pattern w.col (t := kwNotLike) (wnot.join kw) (by simp [patternOps]) g hg hv hrest
      · exact parse_pattern w.col (t := kwNotGlob) (wnot.join kw) (by simp [patternOps]) g hg hv hrest
  | isNull wis g neg wnull =>
    rw [hop] at hw hrest
    obtain ⟨hg, hneg⟩ : g.text = [32] ∧ neg.plain = true := by simpa [WrittenOp.readable] using hw
    cases neg with
    | none =>
      have htext : (WrittenOp.isNull wis g none wnull).text ++ rest = (wis.join wnull).val ++ rest := by
        simp [WrittenOp.text, Negation.text, hg, Keyword.join]
      rw [htext]
      exact parse_isNull w.col (wis.join wnull) hrest
    | some n =>
      obtain ⟨wnot, b⟩ := n
      have hb : b.text = [32] := by simpa [Negation.plain] using hneg
      have htext : (WrittenOp.isNull wis g (some (wnot, b)) wnull).text ++ rest =
          (wis.join (wnot.join wnull)).val ++ rest := by
        simp [WrittenOp.text, Negation.text, hg, hb, Keyword.join]
      rw [htext]
      exact parse_isNotNull w.col (wis.join (wnot.join wnull)) hrest
  | between kw gapLo lo gapAnd wand gapHi hi hlo hand hhi =>
    rw [hop] at hw hrest
    obtain ⟨⟨hlo', hlofits⟩, hhifits⟩ :
        (gapLo.text ≠ [] ∧ lo.value.length < maxRawVal) ∧ hi.value.length < maxRawVal := by
      simpa [WrittenOp.readable] using hw
    simp only [WrittenOp.text, List.append_assoc]
    exact parse_between w.col kw hlo' gapAnd wand gapHi hand hlofits hhifits hrest
  | inList kw g inner v more close =>
    rw [hop] at hw
    cases hw

/-! ## Conditions -/

/-- No operator starts with a blank. -/
theorem WrittenOp.noSpace (o : WrittenOp) (rest : Text) : isspace (peek (o.text ++ rest)) = false := by
  have hneg : ∀ (neg : Negation) {t : Text} (w : Keyword t) (rest : Text), 0 < t.length →
      97 ≤ charAt t 0 ∧ charAt t 0 ≤ 122 → isspace (peek (neg.text ++ (w.val ++ rest))) = false := by
    intro neg t w rest hlen hkw
    cases neg with
    | none => exact w.noSpace hlen hkw rest
    | some n =>
      rw [Negation.text, List.append_assoc]
      exact n.1.noSpace (by decide) (by decide) _
  cases o with
  | sign s g v => cases s <;> rfl
  | notEqual bang g v => cases bang <;> rfl
  | pattern glob neg kw g v hg =>
    rw [WrittenOp.text, List.append_assoc, List.append_assoc]
    cases glob
    · exact hneg neg (t := kwLike) kw _ (by decide) (by decide)
    · exact hneg neg (t := kwGlob) kw _ (by decide) (by decide)
  | isNull wis g neg wnull =>
    rw [WrittenOp.text, List.append_assoc]
    exact wis.noSpace (by decide) (by decide) _
  | between kw gapLo lo gapAnd wand gapHi hi hlo hand hhi =>
    rw [WrittenOp.text, List.append_assoc]
    exact kw.noSpace (by decide) (by decide) _
  | inList kw g inner v more close =>
    rw [WrittenOp.text, List.append_assoc]
    exact kw.noSpace (by decide) (by decide) _

/-- What follows the column's name does not continue it. -/
theorem WrittenCond.behind_col (w : WrittenCond) (rest : Text) :
    isIdent (peek (w.gap.text ++ (w.op.text ++ rest))) = false := by
  by_cases hne : w.gap.text = []
  · rw [hne]
    have hsign := w.gap_ok.resolve_right fun hn => hn hne
    cases hop : w.op with
    | sign s g v => cases s <;> rfl
    | notEqual bang g v => cases bang <;> rfl
    | _ => rw [hop] at hsign; cases hsign
  · have hspace : isspace (peek (w.gap.text ++ (w.op.text ++ rest))) = true := w.gap.peek_space hne
    exact (endsValue_plain (endsValue_of_isspace hspace)).1

set_option maxRecDepth 4000 in
theorem tolower_ident : isIdent b = true → tolower b ≠ 32 :=
  byte_cases (P := fun b => isIdent b = true → tolower b ≠ 32) (by decide) b

/-- A column's name is not taken for NOT EXISTS. -/
theorem WrittenCond.notExists (w : WrittenCond) (rest : Text) : startsCI kwNotExists (w.text ++ rest) = false := by
  have htext : w.text ++ rest = w.col ++ (w.gap.text ++ (w.op.text ++ rest)) := by simp [WrittenCond.text]
  have hbehind := w.behind_col rest
  rw [htext]
  generalize w.gap.text ++ (w.op.text ++ rest) = x at hbehind
  rcases Nat.lt_trichotomy w.col.length 3 with hlen | hlen | hlen
  · -- the name ends before the word NOT would
    refine startsCI_false (k := w.col.length) (Nat.lt_trans hlen (by decide)) ?_
    rw [charAt_append_length]
    intro heq
    have hletter : ∀ k < 3, 97 ≤ charAt kwNotExists k ∧ charAt kwNotExists k ≤ 122 := by decide
    have hident := hletter _ hlen
    rw [← heq] at hident
    rw [isIdent_of_tolower hident] at hbehind
    cases hbehind
  · rw [startsCI, decide_eq_false_iff_not]
    intro heq
    have hthree := congrArg (List.take 3) heq
    rw [← List.map_take, List.take_take, show min 3 kwNotExists.length = w.col.length from hlen.symm,
      List.take_left] at hthree
    exact w.col_name hthree
  · -- the name goes on where the space would be
    refine startsCI_false (k := 3) (by decide) ?_
    rw [charAt_append hlen]
    intro heq
    have hident := w.col_ident _ (charAt_mem hlen)
    exact absurd heq (tolower_ident hident)

set_option maxRecDepth 4000 in
/-- A condition the parser can hold comes out as it was written. -/
theorem WrittenCond.parse (w : WrittenCond) (hw : w.readable = true) (hrest : Behind w.op.closed rest)
    (hcoll : startsCI kwCollate (skipWhitespace rest) = false) :
    parseCond (w.text ++ rest) = some (w.cond, skipWhitespace rest) := by
  obtain ⟨⟨hlen, hex⟩, hop⟩ : (w.col.length < colNameSize ∧ startsCI kwExists w.col = false) ∧ w.op.readable = true := by
    simpa [WrittenCond.readable] using hw
  have htext : w.text ++ rest = w.col ++ (w.gap.text ++ (w.op.text ++ rest)) := by simp [WrittenCond.text]
  have hbehind := w.behind_col rest
  have hexists : startsCI kwExists (w.text ++ rest) = false := by
    rw [htext]
    exact startsCI_ident (by decide) hbehind hex
  have hcomp : parseComparison (w.text ++ rest) =
      parseOperator { SingleCond.zero with colName := w.col } (w.op.text ++ rest) := by
    unfold parseComparison
    rw [htext, parseIdentifier_append w.col_ne w.col_ident hbehind, List.take_of_length_le (by omega)]
    dsimp only
    rw [if_neg w.col_ne, skipWhitespace_blank, skipWhitespace_self (w.op.noSpace rest)]
  have hparse := w.parse_op hop hrest
  unfold parseOpOperand at hparse
  unfold parseCond
  rw [w.notExists rest, hexists, if_neg (by simp), if_neg (by simp), hcomp]
  show ((parseOperator _ _).bind fun r => (parseOperand r.1 r.2).bind fun r => some (parseCollate r.1 r.2)) = _
  rw [← Option.bind_assoc, hparse]
  show some (parseCollate w.cond rest) = _
  unfold parseCollate
  dsimp only
  rw [hcoll, if_neg (by simp)]

/-! ## Clauses -/

theorem connWord_head (op : LogicOp) : 0 < (connWord op).length ∧ 97 ≤ charAt (connWord op) 0 ∧ charAt (connWord op) 0 ≤ 122 := by
  cases op <;> decide

theorem parseConnective_joint (j : Joint) (p : Text) :
    parseConnective (j.kw.val ++ (j.after.text ++ p)) = some (j.conn, j.after.text ++ p) := by
  obtain ⟨before, op, kw, after, hne⟩ := j
  have hchar := charAt_append_length kw.val (after.text ++ p)
  rw [kw.length] at hchar
  have hends : endsWord (peek (after.text ++ p)) = true := by
    rw [endsWord, after.peek_space hne]
    rfl
  unfold parseConnective
  cases op with
  | and =>
    have hchar : charAt (kw.val ++ (after.text ++ p)) 3 = peek (after.text ++ p) := hchar
    have hstart : startsCI kwAnd (kw.val ++ (after.text ++ p)) = true := Keyword.starts (t := kwAnd) kw _
    dsimp only
    rw [hstart, hchar, hends, Keyword.drop (t := kwAnd) kw _ (n := 3) rfl]
    rfl
  | or =>
    have hchar : charAt (kw.val ++ (after.text ++ p)) 2 = peek (after.text ++ p) := hchar
    have hstart : startsCI kwOr (kw.val ++ (after.text ++ p)) = true := Keyword.starts (t := kwOr) kw _
    have hnot : startsCI kwAnd (kw.val ++ (after.text ++ p)) = false :=
      Keyword.notStarts (t := kwOr) kw kwAnd 0 (by decide) _
    dsimp only
    rw [hnot, hstart, hchar, hends, Keyword.drop (t := kwOr) kw _ (n := 2) rfl]
    rfl

/-- What is behind a condition of the clause. -/
theorem SetOff.behind {w : WrittenCond} {l : List (Joint × WrittenCond)} {tail : Text} (h : SetOff w l) (ht : Follows tail) :
    Behind w.op.closed (WrittenClause.restText l ++ tail) ∧
      startsCI kwCollate (skipWhitespace (WrittenClause.restText l ++ tail)) = false := by
  cases l with
  | nil =>
    refine ⟨?_, ht.noCollate⟩
    rcases ht.head with h | h | h
    · exact Or.inl h
    · exact Or.inr (Or.inl h)
    · exact Or.inr (Or.inr (Or.inl h))
  | cons x l =>
    obtain ⟨j, v⟩ := x
    obtain ⟨hlen, hlo, hhi⟩ := connWord_head j.conn
    have htext : WrittenClause.restText ((j, v) :: l) ++ tail =
        j.before.text ++ (j.kw.val ++ (j.after.text ++ (v.text ++ (WrittenClause.restText l ++ tail)))) := by
      simp [WrittenClause.restText]
    rw [htext, skipWhitespace_blank, j.kw.peek_space hlen ⟨hlo, hhi⟩]
    constructor
    · by_cases hne : j.before.text = []
      · refine Or.inr (Or.inr (Or.inr ⟨h.1.resolve_left fun hn => hn hne, ?_⟩))
        rw [hne]
        exact j.kw.noQuote hlen ⟨hlo, hhi⟩ _
      · exact Or.inr (Or.inl (j.before.peek_space hne))
    · have hfirst : charAt (connWord j.conn) 0 ≠ charAt kwCollate 0 := by cases j.conn <;> decide
      exact j.kw.notStarts kwCollate 0 ⟨hlen, by decide, hfirst⟩ _

/-- A condition the parser stops at: it takes it for one it can hold and is left in front of a bracket. -/
def WrittenCond.Breaks (w : WrittenCond) : Prop := ∀ rest, ∃ p, parseCond (w.text ++ rest) = some (w.cond, 41 :: p)

/-- The conditions behind one that is held, with `n` places left. -/
def held : Nat → Bool → List (Joint × WrittenCond) → List (LogicOp × WrittenCond)
  | 0, _, _ | _ + 1, _, [] => []
  | n + 1, readable, (j, v) :: l => if readable then (j.conn, v) :: held n v.readable l else []

theorem parseConds_blank (n : Nat) (g : Blank) (p : Text) (wc : WhereClause) :
    parseConds n (g.text ++ p) wc = parseConds n p wc := by
  unfold parseConds
  rw [skipWhitespace_blank]

theorem WrittenCond.peek_ident (w : WrittenCond) (rest : Text) : isIdent (peek (w.text ++ rest)) = true := by
  rw [WrittenCond.text, List.append_assoc, peek_append w.col_ne]
  exact w.col_ident _ (peek_mem w.col_ne)

/-- One turn of the loop, on a condition. -/
theorem parseConds_turn (n : Nat) (w : WrittenCond) (rest : Text) (wc : WhereClause) {cond : SingleCond} {p : Text}
    (h : parseCond (w.text ++ rest) = some (cond, p)) :
    parseConds (n + 1) (w.text ++ rest) wc =
      match parseConnective (skipWhitespace p) with
      | some (op, p) => parseConds n p { wc with conds := wc.conds ++ [cond], logicOps := pushOp wc.logicOps op }
      | none => some (skipWhitespace p, { wc with conds := wc.conds ++ [cond] }) := by
  have hident := w.peek_ident rest
  have hstop : ¬ (peek (w.text ++ rest) = 0 ∨ peek (w.text ++ rest) = 59) := by
    rintro (hn | hn)
    · rw [hn] at hident
      exact absurd hident (by decide)
    · rw [hn] at hident
      exact absurd hident (by decide)
  rw [parseConds]
  dsimp only
  rw [skipWhitespace_self (isspace_of_isIdent hident), if_neg hstop, h]
  all_goals rfl

/-- Without a place left the loop ends. -/
theorem parseConds_zero (p : Text) (wc : WhereClause) : ∃ q, parseConds 0 p wc = some (q, wc) := by
  unfold parseConds
  dsimp only
  split
  · exact ⟨_, rfl⟩
  · exact ⟨_, rfl⟩

/-- Nothing goes on at a bracket. -/
theorem bracket_stops (p : Text) : skipWhitespace (41 :: p) = 41 :: p ∧ parseConnective (41 :: p) = none := by
  have hskip : isspace (peek (41 :: p)) = false := rfl
  have hand : startsCI kwAnd (41 :: p) = false :=
    startsCI_false (k := 0) (by decide) (show tolower 41 ≠ charAt kwAnd 0 by decide)
  have hor : startsCI kwOr (41 :: p) = false :=
    startsCI_false (k := 0) (by decide) (show tolower 41 ≠ charAt kwOr 0 by decide)
  refine ⟨skipWhitespace_self hskip, ?_⟩
  unfold parseConnective
  rw [hand, hor]
  rfl

theorem held_unreadable (n : Nat) (l : List (Joint × WrittenCond)) : held n false l = [] := by
  cases n with
  | zero => rfl
  | succ n =>
    cases l with
    | nil => rfl
    | cons x l => rfl

/-- The loop on a written clause: what is held, in order. -/
theorem parseConds_written {tail : Text} (ht : Follows tail) (l : List (Joint × WrittenCond)) :
    ∀ (n : Nat) (w : WrittenCond) (wc : WhereClause), SetOff w l → wc.logicOps.length + n = maxWhereConds - 1 →
      (∀ v ∈ w :: l.map Prod.snd, v.readable = false → v.Breaks) →
      ∃ p, parseConds (n + 1) (w.text ++ (WrittenClause.restText l ++ tail)) wc =
        some (p, { wc with
          conds := wc.conds ++ w.cond :: (held n w.readable l).map fun x => x.2.cond
          logicOps := wc.logicOps ++ (held n w.readable l).map Prod.fst }) := by
  induction l with
  | nil =>
    intro n w wc hset hroom hbreaks
    have hheld : held n w.readable [] = [] := by cases n <;> rfl
    rw [hheld, List.map_nil, List.map_nil, List.append_nil]
    obtain ⟨hbehind, hcoll⟩ := hset.behind ht
    cases hw : w.readable with
    | false =>
      obtain ⟨p, hp⟩ := hbreaks w (List.mem_cons_self ..) hw (WrittenClause.restText [] ++ tail)
      rw [parseConds_turn n w _ wc hp, (bracket_stops p).1, (bracket_stops p).2]
      exact ⟨_, rfl⟩
    | true =>
      rw [parseConds_turn n w _ wc (w.parse hw hbehind hcoll), skipWhitespace_idem]
      have hnone : parseConnective (skipWhitespace (WrittenClause.restText [] ++ tail)) = none := ht.noConnective
      rw [hnone]
      exact ⟨_, rfl⟩
  | cons x l ih =>
    intro n w wc hset hroom hbreaks
    obtain ⟨j, v⟩ := x
    obtain ⟨hbehind, hcoll⟩ := hset.behind ht
    cases hw : w.readable with
    | false =>
      obtain ⟨p, hp⟩ := hbreaks w (List.mem_cons_self ..) hw (WrittenClause.restText ((j, v) :: l) ++ tail)
      rw [parseConds_turn n w _ wc hp, (bracket_stops p).1, (bracket_stops p).2, held_unreadable, List.map_nil,
        List.map_nil, List.append_nil]
      exact ⟨_, rfl⟩
    | true =>
      obtain ⟨hlen, hlo, hhi⟩ := connWord_head j.conn
      have htext : WrittenClause.restText ((j, v) :: l) ++ tail =
          j.before.text ++ (j.kw.val ++ (j.after.text ++ (v.text ++ (WrittenClause.restText l ++ tail)))) := by
        simp [WrittenClause.restText]
      rw [parseConds_turn n w _ wc (w.parse hw hbehind hcoll), skipWhitespace_idem, htext, skipWhitespace_blank,
        j.kw.peek_space hlen ⟨hlo, hhi⟩, parseConnective_joint]
      dsimp only
      rw [parseConds_blank]
      cases n with
      | zero =>
        -- four conditions are held: this one has no room, nor has its connective
        have hfull : pushOp wc.logicOps j.conn = wc.logicOps := by
          rw [pushOp, if_neg (by omega)]
        obtain ⟨q, hq⟩ := parseConds_zero (v.text ++ (WrittenClause.restText l ++ tail))
          { wc with conds := wc.conds ++ [w.cond] }
        rw [hfull]
        refine ⟨q, hq.trans ?_⟩
        simp [held]
      | succ n =>
        have hpush : pushOp wc.logicOps j.conn = wc.logicOps ++ [j.conn] := by
          rw [pushOp, if_pos (by omega)]
        obtain ⟨q, hq⟩ := ih n v { wc with conds := wc.conds ++ [w.cond], logicOps := wc.logicOps ++ [j.conn] } hset.2
          (by simp only [List.length_append, List.length_singleton]; omega)
          fun u hu => hbreaks u (List.mem_cons_of_mem _ hu)
        rw [hpush]
        refine ⟨q, hq.trans ?_⟩
        simp [held]

/-- `parse_where_clause` on a written clause. -/
theorem WrittenClause.parse (w : WrittenClause) (hbreaks : ∀ v ∈ w.first :: w.rest.map Prod.snd, v.readable = false → v.Breaks) :
    ∃ p, parseWhereClause w.text = some (p, ⟨true, w.first.cond :: (held 3 w.first.readable w.rest).map fun x => x.2.cond,
      (held 3 w.first.readable w.rest).map Prod.fst⟩) := by
  obtain ⟨p, hp⟩ := parseConds_written w.follows w.rest 3 w.first ⟨true, [], []⟩ w.setOff rfl hbreaks
  refine ⟨p, ?_⟩
  unfold parseWhereClause WrittenClause.text
  dsimp only
  rw [skipWhitespace_blank, w.kw.peek_space (by decide) (by decide), w.kw.starts, if_pos rfl, w.kw.drop _ (n := 5) rfl,
    parseConds_blank]
  exact hp

/-! ## Meaning -/

section Meaning

variable (ops : WhereOps) (subs : SubTables) (cols : List Column) (vals : List Value)

/-- A condition the parser can hold is evaluated as it is meant. -/
theorem WrittenCond.eval_cond {w : WrittenCond} (hw : w.readable = true) :
    evalCond ops subs cols vals w.cond = w.truth ops subs cols vals := by
  have hop : w.op.readable = true := by
    simp only [WrittenCond.readable, Bool.and_eq_true] at hw
    exact hw.2
  unfold WrittenCond.truth
  cases h : w.op with
  | notEqual bang g v => rw [h] at hop; cases hop
  | inList kw g inner v more close => rw [h] at hop; cases hop
  | _ => rfl

/-- A condition of the clause, as a value to be read. -/
def WrittenCond.item (x : LogicOp × WrittenCond) : Item := ⟨x.1, x.2.readable, x.2.truth ops subs cols vals⟩

/-- The items of the conditions behind the first. -/
def items (l : List (Joint × WrittenCond)) : List Item := l.map fun x => WrittenCond.item ops subs cols vals (x.1.conn, x.2)

/-- What is held evaluates to what a reader with as many places gets. -/
theorem eval_held {l : List (Joint × WrittenCond)}
    (hfalse : ∀ v ∈ l.map Prod.snd, v.readable = false → evalCond ops subs cols vals v.cond = false) (n : Nat) :
    ((held n true l).map fun x => (x.1, evalCond ops subs cols vals x.2.cond)) = cut n (items ops subs cols vals l) := by
  induction l generalizing n with
  | nil => cases n <;> rfl
  | cons x l ih =>
    obtain ⟨j, v⟩ := x
    cases n with
    | zero => rfl
    | succ n =>
      have hheld : held (n + 1) true ((j, v) :: l) = (j.conn, v) :: held n v.readable l := rfl
      have hcut : cut (n + 1) (items ops subs cols vals ((j, v) :: l)) =
          if v.readable then (j.conn, v.truth ops subs cols vals) :: cut n (items ops subs cols vals l)
          else [(j.conn, false)] := rfl
      rw [hheld, hcut, List.map_cons]
      cases hv : v.readable with
      | false =>
        rw [held_unreadable, hfalse v (List.mem_cons_self ..) hv]
        rfl
      | true =>
        rw [v.eval_cond ops subs cols vals hv, ih (fun u hu => hfalse u (List.mem_cons_of_mem _ hu)), if_pos rfl]

/-- The evaluator on a written clause is the reader from left to right with four places. -/
theorem WrittenClause.eval (w : WrittenClause)
    (hfalse : ∀ v ∈ w.first :: w.rest.map Prod.snd, v.readable = false → evalCond ops subs cols vals v.cond = false) :
    evalWhereClauseCols ops subs cols vals
      ⟨true, w.first.cond :: (held 3 w.first.readable w.rest).map fun x => x.2.cond,
        (held 3 w.first.readable w.rest).map Prod.fst⟩ =
      foldLeft false (cut 4 (WrittenCond.item ops subs cols vals (.or, w.first) :: items ops subs cols vals w.rest)) := by
  have hzip : ((held 3 w.first.readable w.rest).map Prod.fst).zip
      (((held 3 w.first.readable w.rest).map fun x => x.2.cond).map (evalCond ops subs cols vals)) =
      (held 3 w.first.readable w.rest).map fun x => (x.1, evalCond ops subs cols vals x.2.cond) := by
    rw [List.map_map, List.zip_map']
    rfl
  have heval : evalWhereClauseCols ops subs cols vals
      ⟨true, w.first.cond :: (held 3 w.first.readable w.rest).map fun x => x.2.cond,
        (held 3 w.first.readable w.rest).map Prod.fst⟩ =
      foldLeft (evalCond ops subs cols vals w.first.cond)
        ((held 3 w.first.readable w.rest).map fun x => (x.1, evalCond ops subs cols vals x.2.cond)) := by
    rw [← hzip]
    rfl
  have hcut : cut 4 (WrittenCond.item ops subs cols vals (.or, w.first) :: items ops subs cols vals w.rest) =
      if w.first.readable then (.or, w.first.truth ops subs cols vals) :: cut 3 (items ops subs cols vals w.rest)
      else [(.or, false)] := rfl
  rw [heval, hcut]
  cases hr : w.first.readable with
  | false =>
    rw [held_unreadable, hfalse _ (List.mem_cons_self ..) hr]
    rfl
  | true =>
    rw [eval_held ops subs cols vals (fun v hv => hfalse v (List.mem_cons_of_mem _ hv)),
      w.first.eval_cond ops subs cols vals hr]
    rfl

/-- What the evaluator and the meaning of a clause come down to, where the parser stops at every condition it cannot
hold and the evaluator takes that one for false. -/
theorem WrittenClause.meets_iff (w : WrittenClause)
    (hbreaks : ∀ v ∈ w.first :: w.rest.map Prod.snd, v.readable = false → v.Breaks)
    (hfalse : ∀ v ∈ w.first :: w.rest.map Prod.snd, v.readable = false → evalCond ops subs cols vals v.cond = false) :
    w.Meets ops subs cols vals ↔
      foldLeft false (cut 4 (WrittenCond.item ops subs cols vals (.or, w.first) :: items ops subs cols vals w.rest)) =
        prec (w.first.truth ops subs cols vals) (whole (items ops subs cols vals w.rest)) := by
  obtain ⟨p, hp⟩ := w.parse hbreaks
  have htruth : w.truth ops subs cols vals = prec (w.first.truth ops subs cols vals) (whole (items ops subs cols vals w.rest)) := by
    unfold WrittenClause.truth whole items
    rw [List.map_map]
    rfl
  unfold WrittenClause.Meets
  rw [hp, ← htruth, ← w.eval ops subs cols vals hfalse]
  constructor
  · intro h
    exact h p _ rfl
  · rintro h q wc ⟨⟩
    exact h

end Meaning

/-! ## Every shape -/

/-- No blank, and one space. -/
def noBlank : Blank := ⟨[], fun _ hb => absurd hb List.not_mem_nil⟩
def space : Blank := ⟨[32], by simp [isspace]⟩

set_option maxRecDepth 4000 in
theorem bare_digit (v : Bool) : Bare [if v then 49 else 48] := by
  cases v <;> exact ⟨by decide, by decide, by decide, by decide⟩

set_option maxRecDepth 4000 in
/-- `a=1` and `a=0`, or `a in (1)` and `a in (0)`. -/
def probe (readable v : Bool) : WrittenCond where
  col := [97]
  col_ne := by decide
  col_ident := by decide
  col_name := by decide
  gap := space
  op :=
    if readable then .sign .eq noBlank (.bare _ (bare_digit v))
    else .inList ⟨kwIn, by decide⟩ space noBlank (.bare _ (bare_digit v)) [] noBlank
  gap_ok := Or.inr (by decide)

theorem probe_readable (r v : Bool) : (probe r v).readable = r := by
  cases r <;> cases v <;> decide

/-- An IN list leaves the parser in front of its closing bracket. -/
theorem probe_breaks (v : Bool) : (probe false v).Breaks := by
  intro rest
  refine ⟨rest, ?_⟩
  cases v <;> rfl

/-- The condition behind a connective, each set off by a space. -/
def probeJoint (op : LogicOp) : Joint := ⟨space, op, ⟨connWord op, by cases op <;> decide⟩, space, by decide⟩

/-- A clause of any shape, with any values on the row where `a` is 1. -/
def probeClause (r v : Bool) (l : List Item) : WrittenClause where
  lead := noBlank
  kw := ⟨kwWhere, by decide⟩
  gap := space
  gap_ne := by decide
  first := probe r v
  rest := l.map fun i => (probeJoint i.conn, probe i.readable i.value)
  setOff := by
    generalize probe r v = w
    induction l generalizing w with
    | nil => trivial
    | cons i l ih => exact ⟨Or.inl (by simp [probeJoint, space]), ih _⟩
  tail := []
  follows := ⟨Or.inl rfl, rfl, by decide⟩

theorem letterA_fits : ([97] : List UInt8).length < 32 := by decide

/-- The column `a INT`, and its value. -/
def columnA : Column := intColumn [97] letterA_fits
def one : Value := { Value.init with intVal := 1 }

section Shapes

variable (ops : WhereOps) (subs : SubTables)

theorem probe_truth (r v : Bool) : (probe r v).truth ops subs [columnA] [one] = v := by
  cases r <;> cases v <;> rfl

theorem probe_false (v : Bool) : evalCond ops subs [columnA] [one] (probe false v).cond = false := by
  cases v <;> rfl

end Shapes

/-! ## An OR before an AND -/

/-- Number conversions; comparing integers uses none. -/
def intOps : WhereOps where
  widen _ := 0
  narrow _ := 0
  doubleOfInt _ := 0
  floatOfInt _ := 0
  intOfDouble _ := 0
  atof _ := 0
  ltFloat _ _ := false
  ltDouble _ _ := false
  eqFloat _ _ := true
  eqDouble _ _ := true
  printDouble _ := [48]

/-- WHERE a =1 or a =1 and a =0. -/
def orAnd : WrittenClause := probeClause true true [⟨.or, true, true⟩, ⟨.and, true, false⟩]

end CustomDB
