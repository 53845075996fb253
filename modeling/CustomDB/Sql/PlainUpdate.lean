import CustomDB.Sql.PlainSelect

/-!
# A plain UPDATE is read as it is written

SET pairs of names and values, a table and a WHERE clause, with any blanks between them. They arrive where they fit and
where `where` neither starts a column that is set nor stands in a raw value; a semicolon behind the last value is a
syntax error.
-/

namespace CustomDB

/-! ## As written -/

/-- The value of a SET: a string, or a raw text without brackets, commas and semicolons. -/
inductive SetValue where
  | quoted (double : Bool) (s : Text)
  | raw (s : Text) (h : RawText s) (head : isspace (peek s) = false ∧ peek s ≠ 39 ∧ peek s ≠ 34 ∧ peek s ≠ 91)
      (chars : ∀ b ∈ s, b ≠ 44 ∧ b ≠ 59)

namespace SetValue

def text : SetValue → Text
  | quoted d s => quoteText d s
  | raw s _ _ _ => s

/-- As meant. -/
def value : SetValue → Text
  | quoted _ s => s
  | raw s _ _ _ => s

/-- A raw text fits and has no `where` in it. -/
def fits : SetValue → Bool
  | quoted _ _ => true
  | raw s _ _ _ => s.length < maxRawVal && !mentions kwWhere s

end SetValue

/-- `col = value`. -/
structure WrittenPair where
  col : Ident
  gap : Blank
  gapValue : Blank
  value : SetValue

namespace WrittenPair

def text (x : WrittenPair) : Text := x.col.text ++ (x.gap.text ++ 61 :: (x.gapValue.text ++ x.value.text))

/-- The column and the value. -/
def key (x : WrittenPair) : Text × Text := (x.col.text, x.value.value)

/-- The column fits and is not taken for WHERE, and the value fits. -/
def fits (x : WrittenPair) : Bool :=
  x.col.text.length < colNameSize && !startsCI kwWhere x.col.text && x.value.fits

end WrittenPair

/-- The column and the value of a pair that was parsed. -/
def WrittenSet.key (x : WrittenSet) : Text × Text := (x.colName, x.strVal)

/-- The pairs behind the first, each with the comma and the blanks in front of it. -/
abbrev MorePairs := List (Blank × Blank × WrittenPair)

def MorePairs.text (l : MorePairs) : Text := l.flatMap fun x => x.1.text ++ 44 :: (x.2.1.text ++ x.2.2.text)

def MorePairs.pairs (l : MorePairs) : List WrittenPair := l.map fun x => x.2.2

/-- What stands behind the last pair: a WHERE clause, or the end with or without a semicolon. -/
inductive UpdateEnd where
  | clause (w : WrittenClause) (lead_ne : w.lead.text ≠ []) (known : ∀ v ∈ w.conds, v.op.readable = true)
  | stop (g : Blank)
  | semicolon (g after : Blank)

namespace UpdateEnd

/-- The blanks behind the last pair. -/
def lead : UpdateEnd → Blank
  | clause w _ _ => w.lead
  | stop g => g
  | semicolon g _ => g

/-- What stands behind the blanks. -/
def rest : UpdateEnd → Text
  | clause w _ _ => w.kw.val ++ (w.gap.text ++ (w.first.text ++ (WrittenClause.restText w.rest ++ w.tail)))
  | stop _ => []
  | semicolon _ after => 59 :: after.text

def text (e : UpdateEnd) : Text := e.lead.text ++ e.rest

/-- The columns of the WHERE clause. -/
def columns : UpdateEnd → List Text
  | clause w _ _ => w.columns
  | _ => []

/-- No semicolon stands where a pair could, there are at most four conditions, and each column's name fits and is not
taken for EXISTS. -/
def accepted : UpdateEnd → Bool
  | clause w _ _ => w.conds.length ≤ maxWhereConds && w.conds.all WrittenCond.named
  | stop _ => true
  | semicolon _ _ => false

end UpdateEnd

/-- An UPDATE of names. -/
structure WrittenUpdate where
  kw : Keyword kwUpdate
  gapTable : Blank
  gapTable_ne : gapTable.text ≠ []
  table : Ident
  gapSet : Blank
  gapSet_ne : gapSet.text ≠ []
  kwSet : Keyword kwSet
  gapPair : Blank
  gapPair_ne : gapPair.text ≠ []
  first : WrittenPair
  more : MorePairs
  ending : UpdateEnd

namespace WrittenUpdate

/-- The pairs, up to the end. -/
def setText (s : WrittenUpdate) : Text :=
  s.gapPair.text ++ (s.first.text ++ (s.more.text ++ s.ending.text))

def text (s : WrittenUpdate) : Text :=
  s.kw.val ++ (s.gapTable.text ++ (s.table.text ++ (s.gapSet.text ++ (s.kwSet.val ++ s.setText))))

/-- The pairs, in order. -/
def pairs (s : WrittenUpdate) : List WrittenPair := s.first :: s.more.pairs

/-- The table, the SET pairs and the columns of WHERE are those that were written, in order. -/
def Meets (s : WrittenUpdate) : Prop :=
  ∃ r, prepareUpdate s.text = some r ∧ r.tableName = s.table.text ∧
    r.sets.map WrittenSet.key = s.pairs.map WrittenPair.key ∧ r.whereClause.columns = s.ending.columns

/-- The names and the values of the statement fit, and none of them has WHERE where it ends the SET list. -/
def plain (s : WrittenUpdate) : Bool :=
  s.table.text.length < tblNameSize && s.pairs.length ≤ maxColumns && s.pairs.all WrittenPair.fits && s.ending.accepted

end WrittenUpdate

/-! ## A value -/

variable {q rest : Text}

/-- Where a raw value ends. -/
def endsSet (p : Text) : Bool := peek p = 44 || peek p = 59 || startsCI kwWhere p

theorem scanSetValue_eq (n : Nat) (depth : Int) (p : Text) : scanSetValue n depth p = scanUntil endsSet n depth p := by
  induction n generalizing depth p with
  | zero => rfl
  | succ n ih =>
    cases p with
    | nil => rfl
    | cons b p =>
      have hstop : endsSet (b :: p) = true ↔ b = 44 ∨ b = 59 ∨ startsCI kwWhere (b :: p) = true := by
        rw [endsSet, peek_cons, Bool.or_eq_true, Bool.or_eq_true, decide_eq_true_eq, decide_eq_true_eq, or_assoc]
      rw [scanSetValue, scanUntil]
      simp only [hstop, ih, openAfter]

set_option maxRecDepth 4000 in
theorem isspace_endsSet (b : UInt8) (p : Text) (hb : isspace b = true) : endsSet (b :: p) = false := by
  have hplain : isspace b = true → b ≠ 44 ∧ b ≠ 59 ∧ tolower b ≠ 119 :=
    byte_cases (P := fun b => isspace b = true → b ≠ 44 ∧ b ≠ 59 ∧ tolower b ≠ 119) (by decide) b
  obtain ⟨hcomma, hsemi, hw⟩ := hplain hb
  have hno : startsCI kwWhere (b :: p) = false := startsCI_false (k := 0) (by decide) hw
  simp [endsSet, hno, hcomma, hsemi]

set_option maxRecDepth 4000 in
theorem startsCI_where (hrest : isIdent (peek rest) = false) (u : Text) :
    startsCI kwWhere (u ++ rest) = startsCI kwWhere u :=
  startsCI_before (by decide) hrest u

/-- What follows a value: a comma, a semicolon, WHERE or the end, with blanks in front. -/
structure BehindValue (g rest : Text) : Prop where
  blank : ∀ b ∈ g, isspace b = true
  ident : isIdent (peek (g ++ rest)) = false
  noQuote : peek (g ++ rest) ≠ 39 ∧ peek (g ++ rest) ≠ 34
  here : rest = [] ∨ (openAfter 0 (peek rest) = 0 ∧ endsSet rest = true)
  noSpace : isspace (peek rest) = false

theorem BehindValue.ends {g : Text} (h : BehindValue g rest) : Ends endsSet g rest := ⟨h.blank, isspace_endsSet, h.here⟩

/-- Blanks and a character that is neither of a name nor a quote. -/
theorem BehindValue.of_peek (g : Blank) (hident : isIdent (peek rest) = false) (hquote : peek rest ≠ 39 ∧ peek rest ≠ 34)
    (hspace : isspace (peek rest) = false) (here : rest = [] ∨ (openAfter 0 (peek rest) = 0 ∧ endsSet rest = true)) :
    BehindValue g.text rest := by
  by_cases hne : g.text = []
  · rw [hne]
    exact ⟨fun b hb => absurd hb List.not_mem_nil, hident, hquote, here, hspace⟩
  · have hblank : isspace (peek (g.text ++ rest)) = true := g.peek_space hne
    exact ⟨g.space, (endsValue_plain (endsValue_of_isspace hblank)).1, not_quote_of_isspace hblank, here, hspace⟩

theorem BehindValue.comma (g : Blank) (p : Text) : BehindValue g.text (44 :: p) :=
  .of_peek g rfl ⟨show (44 : UInt8) ≠ 39 by decide, show (44 : UInt8) ≠ 34 by decide⟩ rfl (Or.inr ⟨rfl, rfl⟩)

theorem BehindValue.where {g : Blank} (hne : g.text ≠ []) (kw : Keyword kwWhere) (p : Text) :
    BehindValue g.text (kw.val ++ p) := by
  have hspace : isspace (peek (g.text ++ (kw.val ++ p))) = true := g.peek_space hne
  have hplain : peek (kw.val ++ p) ≠ 40 ∧ peek (kw.val ++ p) ≠ 41 :=
    ⟨kw.peek_ne (by decide) (by decide) p, kw.peek_ne (by decide) (by decide) p⟩
  refine ⟨g.space, (endsValue_plain (endsValue_of_isspace hspace)).1, not_quote_of_isspace hspace,
    Or.inr ⟨openAfter_plain hplain, ?_⟩, kw.noSpace (by decide) (by decide) p⟩
  rw [endsSet, kw.starts p, Bool.or_true]

theorem parseSetValue_raw (col : Text) (gap : Blank) {s : Text} (h : RawText s)
    (head : isspace (peek s) = false ∧ peek s ≠ 39 ∧ peek s ≠ 34 ∧ peek s ≠ 91) :
    parseSetValue col (gap.text ++ (s ++ rest)) =
      (⟨col, trimEnd (scanUntil endsSet (maxRawVal - 1) 0 (s ++ rest)).1,
        strcasecmp (trimEnd (scanUntil endsSet (maxRawVal - 1) 0 (s ++ rest)).1) kwNull = .eq, false⟩,
        (scanUntil endsSet (maxRawVal - 1) 0 (s ++ rest)).2) := by
  obtain ⟨hspace, h39, h34, h91⟩ := head
  have hhead : peek (s ++ rest) = peek s := peek_append h.ne_nil
  unfold parseSetValue
  dsimp only
  rw [skipWhitespace_blank, skipWhitespace_self (hhead ▸ hspace), hhead, if_neg (by simp [h39, h34, h91]), scanSetValue_eq]
  rfl

section Value

variable {g : Text} (hb : BehindValue g rest) (col : Text) (gap : Blank)
include hb

/-- A string is read as it is meant, however long it is. -/
theorem parseSetValue_quoted (d : Bool) (s : Text) :
    parseSetValue col (gap.text ++ (quoteText d s ++ (g ++ rest))) = (⟨col, s, false, true⟩, g ++ rest) := by
  have hquote : peek (g ++ rest) ≠ quoteChar d := by
    rcases quoteChar_cases d with hd | hd
    · exact hd ▸ hb.noQuote.1
    · exact hd ▸ hb.noQuote.2
  obtain ⟨htext, -, hrest⟩ := parseValueTokenAlloc_quoted d s noBlank hquote
  have hhead : peek (quoteText d s ++ (g ++ rest)) = quoteChar d := rfl
  have hspace : isspace (peek (quoteText d s ++ (g ++ rest))) = false := by
    rw [hhead]
    cases d <;> rfl
  have hopen : peek (quoteText d s ++ (g ++ rest)) = 39 ∨ peek (quoteText d s ++ (g ++ rest)) = 34 ∨
      peek (quoteText d s ++ (g ++ rest)) = 91 := by
    rw [hhead]
    exact (quoteChar_cases d).imp_right Or.inl
  change (parseValueTokenAlloc (quoteText d s ++ (g ++ rest))).1.text = s at htext
  change (parseValueTokenAlloc (quoteText d s ++ (g ++ rest))).2 = g ++ rest at hrest
  unfold parseSetValue
  dsimp only
  rw [skipWhitespace_blank, skipWhitespace_self hspace, if_pos hopen, htext, hrest]

theorem parseSetValue_colName (v : SetValue) :
    (parseSetValue col (gap.text ++ (v.text ++ (g ++ rest)))).1.colName = col := by
  cases v with
  | quoted d s => rw [SetValue.text, parseSetValue_quoted hb]
  | raw s h head chars => rw [SetValue.text, parseSetValue_raw col gap h head]

/-- In a raw value no comma and no semicolon stands. -/
theorem clear_iff {s : Text} (chars : ∀ b ∈ s, b ≠ 44 ∧ b ≠ 59) :
    (∀ k < s.length, endsSet (s.drop k ++ (g ++ rest)) = false) ↔ mentions kwWhere s = false := by
  rw [mentions_eq_false (by decide)]
  refine forall₂_congr fun k hk => ?_
  have hne : s.drop k ≠ [] := by
    rw [ne_eq, List.drop_eq_nil_iff]
    omega
  obtain ⟨hcomma, hsemi⟩ := chars _ (List.drop_subset k s (peek_mem hne))
  rw [endsSet, startsCI_where hb.ident, peek_append hne]
  simp [hcomma, hsemi]

/-- A value is read as it is meant where it fits. -/
theorem parseSetValue_iff (v : SetValue) :
    (parseSetValue col (gap.text ++ (v.text ++ (g ++ rest)))).1.strVal = v.value ↔ v.fits = true := by
  cases v with
  | quoted d s =>
    rw [SetValue.text, parseSetValue_quoted hb]
    exact iff_of_true rfl rfl
  | raw s h head chars =>
    have hfit : s.length < maxRawVal ↔ s.length ≤ maxRawVal - 1 := Nat.lt_iff_le_pred (by decide)
    rw [SetValue.text, parseSetValue_raw col gap h head]
    refine (h.scan_iff hb.ends _).trans ?_
    rw [clear_iff hb chars, ← hfit, SetValue.fits, Bool.and_eq_true, decide_eq_true_eq, Bool.not_eq_true']

/-- Behind a value that fits stands what was written there. -/
theorem parseSetValue_rest {v : SetValue} (hv : v.fits = true) :
    skipWhitespace (parseSetValue col (gap.text ++ (v.text ++ (g ++ rest)))).2 = rest := by
  have hstay : skipWhitespace rest = rest := skipWhitespace_self hb.noSpace
  cases v with
  | quoted d s =>
    rw [SetValue.text, parseSetValue_quoted hb]
    exact (List.dropWhile_append_of_pos hb.blank).trans hstay
  | raw s h head chars =>
    rw [SetValue.fits, Bool.and_eq_true, decide_eq_true_eq, Bool.not_eq_true'] at hv
    rw [SetValue.text, parseSetValue_raw col gap h head]
    exact (h.scan_rest hb.ends (Nat.le_pred_of_lt hv.1) ((clear_iff hb chars).mpr hv.2)).trans hstay

end Value

/-! ## The list -/

/-- The loop only adds pairs. -/
theorem parseSetList_grows {fuel : Nat} {p : Text} {sets out : List WrittenSet}
    (h : parseSetList fuel p sets = some (out, q)) : sets <+: out := by
  induction fuel generalizing p sets with
  | zero => cases h
  | succ fuel ih =>
    rw [parseSetList] at h
    split at h
    · cases h
      exact List.prefix_refl _
    · dsimp only at h
      split at h
      · cases h
        exact List.prefix_refl _
      · split at h
        · cases h
        · split at h
          · cases h
          · split at h
            · exact (List.prefix_append ..).trans (ih h)
            · split at h
              · exact (List.prefix_append ..).trans (ih h)
              · cases h

namespace WrittenPair

variable (x : WrittenPair)

theorem text_append (rest : Text) :
    x.text ++ rest = x.col.text ++ (x.gap.text ++ 61 :: (x.gapValue.text ++ (x.value.text ++ rest))) := by
  simp [text]

theorem behind_col (p : Text) : isIdent (peek (x.gap.text ++ 61 :: p)) = false := by
  by_cases hne : x.gap.text = []
  · rw [hne]
    rfl
  · exact (endsValue_plain (endsValue_of_isspace (x.gap.peek_space hne))).1

/-- The value behind a pair's column, as it is parsed. -/
def parsed (rest : Text) : WrittenSet × Text :=
  parseSetValue (x.col.text.take (colNameSize - 1)) (x.gapValue.text ++ (x.value.text ++ rest))

variable {x} {g : Text}

/-- A pair is read as it is written where it fits. -/
theorem parsed_key_iff (hb : BehindValue g rest) (hwhere : startsCI kwWhere x.col.text = false) :
    (x.parsed (g ++ rest)).1.key = x.key ↔ x.fits = true := by
  have htake : x.col.text.take (colNameSize - 1) = x.col.text ↔ x.col.text.length < colNameSize :=
    x.col.take_iff (by decide)
  rw [parsed, WrittenSet.key, key, Prod.mk.injEq, parseSetValue_colName hb, parseSetValue_iff hb, htake, fits, hwhere]
  simp

end WrittenPair

/-- A turn of the loop in front of a pair. -/
theorem parseSetList_turn (x : WrittenPair) (lead : Blank) (p : Text) (fuel : Nat) (sets : List WrittenSet) :
    parseSetList (fuel + 1) (lead.text ++ (x.text ++ p)) sets =
      if startsCI kwWhere x.col.text = true then some (sets, x.text ++ p)
      else if maxColumns ≤ sets.length then none
      else
        let q := skipWhitespace (x.parsed p).2
        if peek q = 44 then parseSetList fuel (q.drop 1) (sets ++ [(x.parsed p).1])
        else if startsCI kwWhere q || q = [] || peek q = 59 then parseSetList fuel q (sets ++ [(x.parsed p).1])
        else none := by
  have hcol := x.behind_col (x.gapValue.text ++ (x.value.text ++ p))
  have hident : isIdent (peek (x.text ++ p)) = true := by
    rw [x.text_append, peek_append x.col.ne_nil]
    exact x.col.all_ident _ (peek_mem x.col.ne_nil)
  have hskip : skipWhitespace (lead.text ++ (x.text ++ p)) = x.text ++ p := by
    rw [skipWhitespace_blank, skipWhitespace_self (isspace_of_isIdent hident)]
  have hne : lead.text ++ (x.text ++ p) ≠ [] := by
    intro hnil
    rw [hnil] at hskip
    rw [← hskip] at hident
    exact absurd hident (by decide)
  have htake : x.col.text.take (colNameSize - 1) ≠ [] := x.col.take_ne_nil (by decide)
  have hequals : skipWhitespace (x.gap.text ++ 61 :: (x.gapValue.text ++ (x.value.text ++ p))) =
      61 :: (x.gapValue.text ++ (x.value.text ++ p)) := by
    rw [skipWhitespace_blank]
    exact skipWhitespace_self rfl
  have hgo : ¬ (x.col.text.take (colNameSize - 1) = [] ∨ peek (61 :: (x.gapValue.text ++ (x.value.text ++ p))) ≠ 61) :=
    not_or.mpr ⟨htake, not_not.mpr rfl⟩
  have hstarts : startsCI kwWhere (x.text ++ p) = startsCI kwWhere x.col.text := by
    rw [x.text_append]
    exact startsCI_where hcol _
  rw [parseSetList, if_neg hne]
  dsimp only
  rw [hskip, hstarts, x.text_append, parseIdentifier_append x.col.ne_nil x.col.all_ident hcol]
  dsimp only
  rw [hequals, if_neg hgo]
  rfl

/-! ## The end of the list -/

namespace UpdateEnd

/-- The SET list may end here. -/
def closes : UpdateEnd → Bool
  | semicolon _ _ => false
  | _ => true

variable (e : UpdateEnd)

theorem behind : BehindValue e.lead.text e.rest := by
  cases e with
  | clause w hne known => exact .where hne w.kw _
  | stop g =>
    exact .of_peek g rfl ⟨show (0 : UInt8) ≠ 39 by decide, show (0 : UInt8) ≠ 34 by decide⟩ rfl (Or.inl rfl)
  | semicolon g after =>
    exact .of_peek g rfl ⟨show (59 : UInt8) ≠ 39 by decide, show (59 : UInt8) ≠ 34 by decide⟩ rfl (Or.inr ⟨rfl, rfl⟩)

/-- No comma stands at the end. -/
theorem peek_ne_comma : peek e.rest ≠ 44 := by
  cases e with
  | clause w hne known => exact w.kw.peek_ne (by decide) (by decide) _
  | stop g => exact show (0 : UInt8) ≠ 44 by decide
  | semicolon g after => exact show (59 : UInt8) ≠ 44 by decide

/-- The loop takes what stands at the end for an end. -/
theorem stops : (startsCI kwWhere e.rest || e.rest = [] || peek e.rest = 59) = true := by
  cases e with
  | clause w hne known =>
    rw [show startsCI kwWhere (clause w hne known).rest = true from w.kw.starts _]
    rfl
  | stop g => rfl
  | semicolon g after => rw [show peek (semicolon g after).rest = 59 from rfl, decide_eq_true rfl, Bool.or_true]

/-- The turn of the loop behind the last pair: at a semicolon it looks for a column. -/
theorem parseSetList_end (fuel : Nat) (sets : List WrittenSet) :
    parseSetList (fuel + 1) e.rest sets = if e.closes = true then some (sets, e.rest) else none := by
  rw [parseSetList]
  cases e with
  | clause w hne known =>
    have hskip : skipWhitespace (clause w hne known).rest = (clause w hne known).rest :=
      w.kw.peek_space (by decide) (by decide) _
    have hstarts : startsCI kwWhere (clause w hne known).rest = true := w.kw.starts _
    have hne : (clause w hne known).rest ≠ [] := by
      intro hnil
      rw [hnil] at hstarts
      exact absurd hstarts (by decide)
    rw [if_neg hne]
    dsimp only
    rw [hskip, hstarts]
    rfl
  | stop g => rfl
  | semicolon g after =>
    have hskip : skipWhitespace (59 :: after.text) = 59 :: after.text := skipWhitespace_self rfl
    have hno : startsCI kwWhere (59 :: after.text) = false :=
      startsCI_false (k := 0) (by decide) (show tolower 59 ≠ charAt kwWhere 0 by decide)
    have hident : (parseIdentifier (59 :: after.text) colNameSize).1 = [] := by
      unfold parseIdentifier
      rw [hskip]
      rfl
    rw [show (semicolon g after).rest = 59 :: after.text from rfl, if_neg (by simp)]
    dsimp only
    rw [hskip, hno, hident, if_neg (by simp), if_pos (Or.inl rfl), ite_self]
    rfl

/-- The columns of WHERE are read where they are named. -/
theorem columns_iff (h : e.closes = true) :
    (∃ w, parseWhereClause e.rest = some w ∧ w.2.columns = e.columns) ↔ e.accepted = true := by
  cases e with
  | clause w hne known =>
    have hwhere : parseWhereClause (clause w hne known).rest = parseWhereClause w.text := by
      unfold parseWhereClause
      rw [WrittenClause.text, skipWhitespace_blank]
      rfl
    have hnamed : (clause w hne known).accepted = true ↔
        w.conds.length ≤ maxWhereConds ∧ ∀ v ∈ w.conds, v.named = true := by
      simp only [accepted, Bool.and_eq_true, decide_eq_true_eq, List.all_eq_true]
    rw [hwhere, hnamed]
    constructor
    · rintro ⟨⟨q, wc⟩, hparse, hcols⟩
      exact ((w.columns_iff known).mp ⟨wc, hparse, hcols⟩).2
    · intro hall
      obtain ⟨wc, hparse, hcols⟩ := (w.columns_iff known).mpr ⟨rfl, hall⟩
      exact ⟨⟨_, wc⟩, hparse, hcols⟩
  | stop g => exact iff_of_true ⟨_, rfl, rfl⟩ rfl
  | semicolon g after => cases h

end UpdateEnd

/-! ## The pairs -/

theorem MorePairs.text_cons (x : Blank × Blank × WrittenPair) (l : MorePairs) (rest : Text) :
    MorePairs.text (x :: l) ++ rest = x.1.text ++ 44 :: (x.2.1.text ++ (x.2.2.text ++ (l.text ++ rest))) := by
  simp [MorePairs.text]

/-- The pairs and values of a list of pairs that were parsed. -/
def setKeys (l : List WrittenSet) : List (Text × Text) := l.map WrittenSet.key

/-- Where a list comes out as it was written, its first pair fits, there was room for it, and the loop goes on with what
stands behind it. -/
theorem parseSetList_first {x : WrittenPair} {lead : Blank} {g : Text} (hb : BehindValue g rest) {fuel : Nat}
    {sets out : List WrittenSet} {more : List (Text × Text)}
    (h : parseSetList (fuel + 1) (lead.text ++ (x.text ++ (g ++ rest))) sets = some (out, q))
    (hout : setKeys out = setKeys sets ++ x.key :: more) : x.fits = true ∧ sets.length < maxColumns := by
  rw [parseSetList_turn] at h
  split at h
  next =>
    cases h
    have hlength := congrArg List.length hout
    simp [setKeys] at hlength
  next hwhere =>
    split at h
    next => cases h
    next hroom =>
      have hgrows : sets ++ [(x.parsed (g ++ rest)).1] <+: out := by
        dsimp only at h
        split at h
        · exact parseSetList_grows h
        · split at h
          · exact parseSetList_grows h
          · cases h
      have hkeys : setKeys sets ++ [(x.parsed (g ++ rest)).1.key] <+: setKeys out := by
        have hmap := hgrows.map WrittenSet.key
        rwa [List.map_append] at hmap
      refine ⟨?_, Nat.lt_of_not_le hroom⟩
      by_contra hnot
      refine prefix_ne hkeys (fun heq => hnot ?_) hout
      exact (WrittenPair.parsed_key_iff hb (Bool.eq_false_iff.mpr hwhere)).mp heq

/-- A pair that fits is read, and the loop goes on behind it. -/
theorem parseSetList_fits {x : WrittenPair} (hx : x.fits = true) (lead : Blank) {g : Text} (hb : BehindValue g rest)
    (fuel : Nat) {sets : List WrittenSet} (hroom : sets.length < maxColumns) :
    (x.parsed (g ++ rest)).1.key = x.key ∧
      parseSetList (fuel + 1) (lead.text ++ (x.text ++ (g ++ rest))) sets =
        if peek rest = 44 then parseSetList fuel (rest.drop 1) (sets ++ [(x.parsed (g ++ rest)).1])
        else if startsCI kwWhere rest || rest = [] || peek rest = 59 then
          parseSetList fuel rest (sets ++ [(x.parsed (g ++ rest)).1])
        else none := by
  have hparts : (x.col.text.length < colNameSize ∧ startsCI kwWhere x.col.text = false) ∧ x.value.fits = true := by
    simpa [WrittenPair.fits] using hx
  obtain ⟨⟨-, hwhere⟩, hvalue⟩ := hparts
  have hrest : skipWhitespace (x.parsed (g ++ rest)).2 = rest := parseSetValue_rest hb _ _ hvalue
  refine ⟨(WrittenPair.parsed_key_iff hb hwhere).mpr hx, ?_⟩
  rw [parseSetList_turn, hwhere, if_neg (by simp), if_neg (Nat.not_le_of_lt hroom)]
  dsimp only
  rw [hrest]

/-- A pair that fits with a comma behind it. -/
theorem parseSetList_comma {x : WrittenPair} (hx : x.fits = true) (lead g : Blank) (p : Text) (fuel : Nat)
    {sets : List WrittenSet} (hroom : sets.length < maxColumns) :
    ∃ v : WrittenSet, v.key = x.key ∧
      parseSetList (fuel + 1) (lead.text ++ (x.text ++ (g.text ++ 44 :: p))) sets = parseSetList fuel p (sets ++ [v]) := by
  obtain ⟨hkey, hstep⟩ := parseSetList_fits hx lead (BehindValue.comma g p) fuel hroom
  refine ⟨_, hkey, hstep.trans ?_⟩
  rw [peek_cons, if_pos rfl, List.drop_one, List.tail_cons]

/-- The last pair of the list. -/
theorem parseSetList_last {x : WrittenPair} (hx : x.fits = true) (lead : Blank) (e : UpdateEnd) (fuel : Nat)
    {sets : List WrittenSet} (hroom : sets.length < maxColumns) :
    ∃ v : WrittenSet, v.key = x.key ∧ parseSetList (fuel + 2) (lead.text ++ (x.text ++ e.text)) sets =
      if e.closes = true then some (sets ++ [v], e.rest) else none := by
  obtain ⟨hkey, hstep⟩ := parseSetList_fits hx lead e.behind (fuel + 1) hroom
  refine ⟨_, hkey, hstep.trans ?_⟩
  rw [if_neg e.peek_ne_comma, if_pos e.stops, e.parseSetList_end]

/-- The loop reads the pairs as they are written where there is room for all, each of them fits and the list may end
where it does. -/
theorem parseSetList_iff (e : UpdateEnd) (l : MorePairs) (x : WrittenPair) (lead : Blank) (fuel : Nat)
    (sets : List WrittenSet) (hfuel : sets.length + fuel = maxColumns + 2) :
    (∃ out, parseSetList fuel (lead.text ++ (x.text ++ (l.text ++ e.text))) sets = some (out, q) ∧
        setKeys out = setKeys sets ++ (x :: l.pairs).map WrittenPair.key) ↔
      q = e.rest ∧ sets.length + l.length < maxColumns ∧ (∀ y ∈ x :: l.pairs, y.fits = true) ∧ e.closes = true := by
  have hmax : maxColumns = 16 := rfl
  have hbad : ∀ {g rest : Text} (x : WrittenPair) (lead : Blank) (fuel : Nat) (sets : List WrittenSet)
      (more : List (Text × Text)), BehindValue g rest → ¬ (x.fits = true ∧ sets.length < maxColumns) →
      ¬ ∃ out, parseSetList fuel (lead.text ++ (x.text ++ (g ++ rest))) sets = some (out, q) ∧
        setKeys out = setKeys sets ++ x.key :: more := by
    rintro g rest x lead fuel sets more hb hnot ⟨out, hparse, hout⟩
    cases fuel with
    | zero => cases hparse
    | succ fuel => exact hnot (parseSetList_first hb hparse hout)
  have hpush : ∀ (sets : List WrittenSet) (v : WrittenSet), setKeys (sets ++ [v]) = setKeys sets ++ [v.key] :=
    fun sets v => by simp [setKeys]
  induction l generalizing x lead fuel sets with
  | nil =>
    by_cases hx : x.fits = true ∧ sets.length < maxColumns
    · obtain ⟨n, rfl⟩ : ∃ n, fuel = n + 2 := Nat.exists_eq_add_of_le' (by omega)
      obtain ⟨v, hkey, hstep⟩ := parseSetList_last hx.1 lead e n hx.2
      rw [show MorePairs.text [] ++ e.text = e.text from rfl, hstep]
      cases hcloses : e.closes with
      | false =>
        refine iff_of_false ?_ fun h => absurd h.2.2.2 (by simp)
        rintro ⟨out, hnone, -⟩
        cases hnone
      | true =>
        constructor
        · rintro ⟨out, hsome, -⟩
          cases hsome
          exact ⟨rfl, hx.2, fun y hy => List.mem_singleton.mp hy ▸ hx.1, rfl⟩
        · rintro ⟨rfl, -⟩
          refine ⟨_, rfl, ?_⟩
          rw [hpush, hkey]
          rfl
    · have hno := hbad x lead fuel sets [] e.behind hx
      exact iff_of_false hno fun h => hx ⟨h.2.2.1 x (List.mem_cons_self ..), h.2.1⟩
  | cons y l ih =>
    rw [MorePairs.text_cons]
    by_cases hx : x.fits = true ∧ sets.length < maxColumns
    · obtain ⟨n, rfl⟩ : ∃ n, fuel = n + 1 := Nat.exists_eq_add_of_le' (by omega)
      obtain ⟨v, hkey, hstep⟩ := parseSetList_comma hx.1 lead y.1 (y.2.1.text ++ (y.2.2.text ++ (MorePairs.text l ++ e.text)))
        n hx.2
      have hrec := ih y.2.2 y.2.1 n (sets ++ [v]) (by rw [List.length_append, List.length_singleton]; omega)
      rw [hpush, hkey, List.append_assoc, List.length_append, List.length_singleton] at hrec
      rw [hstep]
      refine hrec.trans (and_congr_right fun _ => ?_)
      have hlength : sets.length + (y :: l).length = sets.length + 1 + l.length := by
        rw [List.length_cons]
        omega
      rw [hlength, show MorePairs.pairs (y :: l) = y.2.2 :: MorePairs.pairs l from rfl, List.forall_mem_cons (a := x),
        and_iff_right hx.1]
    · refine iff_of_false (hbad x lead fuel sets _ (BehindValue.comma ..) hx) fun h => hx ⟨?_, ?_⟩
      · exact h.2.2.1 x (List.mem_cons_self ..)
      · exact (Nat.le_add_right _ _).trans_lt h.2.1

/-! ## The statement -/

namespace WrittenUpdate

variable (s : WrittenUpdate)

/-- The statement behind its table. -/
theorem prepareUpdate_text :
    prepareUpdate s.text = (parseSetList (maxColumns + 2) s.setText []).bind fun l =>
      (parseWhereClause l.2).map fun w => ⟨s.table.text.take (tblNameSize - 1), l.1, w.2⟩ := by
  have hspace : isIdent (peek (s.gapSet.text ++ (s.kwSet.val ++ s.setText))) = false :=
    (endsValue_plain (endsValue_of_isspace (s.gapSet.peek_space s.gapSet_ne))).1
  have hident : parseIdentifier (s.text.drop 6) tblNameSize =
      (s.table.text.take (tblNameSize - 1), s.gapSet.text ++ (s.kwSet.val ++ s.setText)) := by
    rw [show s.text.drop 6 = _ from s.kw.drop _ (n := 6) rfl, s.table.parse s.gapTable hspace]
  have hne : s.table.text.take (tblNameSize - 1) ≠ [] := s.table.take_ne_nil (by decide)
  have hskip : skipWhitespace (s.gapSet.text ++ (s.kwSet.val ++ s.setText)) = s.kwSet.val ++ s.setText := by
    rw [skipWhitespace_blank, s.kwSet.peek_space (by decide) (by decide)]
  have hstarts : startsCI kwUpdate s.text = true := s.kw.starts _
  unfold prepareUpdate
  rw [hstarts, hident]
  dsimp only
  rw [hskip, s.kwSet.starts, s.kwSet.drop _ (n := 3) rfl]
  simp [hne]

/-- An UPDATE of plain names is read as it is written exactly where no name or value of it is too long or has a keyword
where it ends a clause, and no semicolon stands behind the last pair. -/
theorem update_plain_iff : s.Meets ↔ s.plain = true := by
  have hplain : s.plain = true ↔ s.table.text.length < tblNameSize ∧ s.more.length < maxColumns ∧
      (∀ y ∈ s.first :: s.more.pairs, y.fits = true) ∧ s.ending.accepted = true := by
    have hroom : s.pairs.length ≤ maxColumns ↔ s.more.length < maxColumns := by
      rw [pairs, MorePairs.pairs, List.length_cons, List.length_map]
      exact Nat.succ_le_iff
    simp only [plain, Bool.and_eq_true, decide_eq_true_eq, List.all_eq_true, hroom, and_assoc]
    rfl
  have htake : s.table.text.take (tblNameSize - 1) = s.table.text ↔ s.table.text.length < tblNameSize :=
    s.table.take_iff (by decide)
  have hlist := fun q => parseSetList_iff (q := q) s.ending s.more s.first s.gapPair (maxColumns + 2) [] (Nat.zero_add _)
  rw [hplain]
  constructor
  · rintro ⟨r, hr, htable, hsets, hwhere⟩
    rw [s.prepareUpdate_text] at hr
    obtain ⟨⟨out, q⟩, hparse, hr⟩ := Option.bind_eq_some_iff.mp hr
    obtain ⟨w, hw, rfl⟩ := Option.map_eq_some_iff.mp hr
    obtain ⟨rfl, hroom, hfits, hcloses⟩ := (hlist q).mp ⟨out, hparse, hsets⟩
    rw [List.length_nil, Nat.zero_add] at hroom
    exact ⟨htake.mp htable, hroom, hfits, (s.ending.columns_iff hcloses).mp ⟨w, hw, hwhere⟩⟩
  · rintro ⟨htable, hroom, hfits, haccepted⟩
    have hcloses : s.ending.closes = true := by
      cases hend : s.ending with
      | clause w hne known => rfl
      | stop g => rfl
      | semicolon g after =>
        rw [hend] at haccepted
        cases haccepted
    obtain ⟨out, hparse, hout⟩ := (hlist s.ending.rest).mpr
      ⟨rfl, by rwa [List.length_nil, Nat.zero_add], hfits, hcloses⟩
    obtain ⟨w, hw, hwhere⟩ := (s.ending.columns_iff hcloses).mpr haccepted
    refine ⟨⟨s.table.text.take (tblNameSize - 1), out, w.2⟩, ?_, htake.mpr htable, hout, hwhere⟩
    rw [s.prepareUpdate_text, show parseSetList (maxColumns + 2) s.setText [] = some (out, s.ending.rest) from hparse]
    show (parseWhereClause s.ending.rest).map _ = _
    rw [hw]
    rfl

end WrittenUpdate

/-! ## Either statement -/

/-- A SELECT or an UPDATE of plain names. -/
inductive PlainStatement where
  | select (s : WrittenSelect)
  | update (s : WrittenUpdate)

namespace PlainStatement

/-- The names come out as they were written, each in its place. -/
def Meets : PlainStatement → Prop
  | select s => s.Meets
  | update s => s.Meets

/-- No name is too long or has a keyword where it moves the end of a clause. -/
def plain : PlainStatement → Bool
  | select s => s.plain
  | update s => s.plain

end PlainStatement

set_option maxRecDepth 8000 in
def nameValidFrom : Ident where
  text := ascii ['v', 'a', 'l', 'i', 'd', '_', 'f', 'r', 'o', 'm']
  head := by decide
  chars := by decide
  notKeyword := by decide

set_option maxRecDepth 8000 in
def nameT : Ident := ⟨[116], by decide, by decide, by decide⟩

theorem space_ne_nil : space.text ≠ [] := by decide

/-- `SELECT valid_from FROM t;`. -/
def selectValidFrom : WrittenSelect where
  kw := ⟨ascii ['S', 'E', 'L', 'E', 'C', 'T'], by decide⟩
  gap := space
  gap_ne := space_ne_nil
  distinct := none
  first := nameValidFrom
  more := []
  gapFrom := space
  gapFrom_ne := space_ne_nil
  kwFrom := ⟨ascii ['F', 'R', 'O', 'M'], by decide⟩
  gapTable := space
  gapTable_ne := space_ne_nil
  table := nameT
  joins := []
  ending := .bare [59] (Or.inr (Or.inr rfl)) (by decide)

end CustomDB
