import CustomDB.Sql.PlainJoin

/-!
# A plain SELECT is read as it is written

A list of names, a table, joins and a WHERE clause, with any blanks between them. The names arrive where they fit, where
no name of the list has FROM or a set operator in it, and where the first is not taken for DISTINCT.
-/

namespace CustomDB

variable {p q rest u : Text} {b : UInt8}

/-! ## As written -/

/-- What stands behind the tables: a WHERE clause, or a text that starts neither one nor a join. -/
inductive SelectEnd where
  | clause (w : WrittenClause) (lead_ne : w.lead.text ≠ []) (known : ∀ v ∈ w.conds, v.op.readable = true)
  | bare (tail : Text) (head : tail = [] ∨ isspace (peek tail) = true ∨ peek tail = 59)
      (plain : ∀ kw ∈ [kwWhere, kwLeft, kwRight, kwFull, kwInner, kwJoin], startsCI kw (skipWhitespace tail) = false)

namespace SelectEnd

def text : SelectEnd → Text
  | clause w _ _ => w.text
  | bare tail _ _ => tail

/-- What is left when the WHERE clause is read. -/
def tail : SelectEnd → Text
  | clause w _ _ => w.tail
  | bare tail _ _ => tail

/-- The columns of the WHERE clause. -/
def columns : SelectEnd → List Text
  | clause w _ _ => w.columns
  | bare _ _ _ => []

/-- There are at most four conditions, and each column's name fits and is not taken for EXISTS. -/
def named : SelectEnd → Bool
  | clause w _ _ => w.conds.length ≤ maxWhereConds && w.conds.all WrittenCond.named
  | bare _ _ _ => true

end SelectEnd

/-- The names behind the first, each with the comma and the blanks in front of it. -/
abbrev MoreNames := List (Blank × Blank × Ident)

def MoreNames.text (l : MoreNames) : Text := l.flatMap fun x => x.1.text ++ 44 :: (x.2.1.text ++ x.2.2.text)

/-- DISTINCT with the blank behind it. -/
abbrev DistinctWord := Option (Keyword kwDistinct × { g : Blank // g.text ≠ [] })

def DistinctWord.text : DistinctWord → Text
  | none => []
  | some (kw, g) => kw.val ++ g.val.text

/-- A SELECT of names. -/
structure WrittenSelect where
  kw : Keyword kwSelect
  gap : Blank
  gap_ne : gap.text ≠ []
  distinct : DistinctWord
  first : Ident
  more : MoreNames
  gapFrom : Blank
  gapFrom_ne : gapFrom.text ≠ []
  kwFrom : Keyword kwFrom
  gapTable : Blank
  gapTable_ne : gapTable.text ≠ []
  table : Ident
  joins : List WrittenJoin
  ending : SelectEnd

namespace WrittenSelect

/-- What stands behind the table. -/
def behindTable (s : WrittenSelect) : Text := WrittenJoin.textAll s.joins ++ s.ending.text

/-- From FROM to the end. -/
def fromText (s : WrittenSelect) : Text := s.kwFrom.val ++ (s.gapTable.text ++ (s.table.text ++ s.behindTable))

def text (s : WrittenSelect) : Text :=
  s.kw.val ++ (s.gap.text ++ (s.distinct.text ++ (s.first.text ++ (s.more.text ++ (s.gapFrom.text ++ s.fromText)))))

/-- The names of the list, in order. -/
def names (s : WrittenSelect) : List Ident := s.first :: s.more.map fun x => x.2.2

/-- The table, the select list, the joins and the columns of WHERE are those that were written, in order, and what
stands behind the WHERE clause is left for the other clauses. -/
def Meets (s : WrittenSelect) : Prop :=
  ∃ r, prepareSelect s.text = some (r, skipWhitespace s.ending.tail) ∧ r.tableName = s.table.text ∧
    r.selectCols = s.names.map (fun i => .plain i.text) ∧ r.joins = s.joins.map WrittenJoin.item ∧
    r.whereClause.columns = s.ending.columns

end WrittenSelect

/-- A name that fits into the list and has no word in it that ends the list. -/
def Ident.listed (i : Ident) : Bool :=
  i.text.length < selectNameSize && !mentions kwFrom i.text && !mentions kwUnion i.text &&
    !mentions kwIntersect i.text && !mentions kwExcept i.text

/-- A name that is taken for DISTINCT and another name: `distinct` with a letter behind it. -/
def Ident.likeDistinct (i : Ident) : Bool := startsCI kwDistinct i.text && isalpha (charAt i.text 8)

/-- The names of the statement fit, and none of them has a keyword where it ends a clause. -/
def WrittenSelect.plain (s : WrittenSelect) : Bool :=
  s.table.text.length < tblNameSize && s.names.length ≤ maxSelectCols && s.names.all Ident.listed &&
    (s.distinct.isSome || !s.first.likeDistinct) && s.joins.length ≤ maxJoins && s.joins.all WrittenJoin.fits &&
    s.ending.named

/-! ## An item of the list -/

/-- A text that is read like a name. -/
structure NameText (u : Text) : Prop where
  head : isalpha (peek u) = true ∨ peek u = 95
  chars : ∀ b ∈ u, isIdent b = true

theorem Ident.nameText (i : Ident) : NameText i.text := ⟨i.head, i.all_ident⟩

theorem NameText.ne_nil (h : NameText u) : u ≠ [] := by
  rintro rfl
  exact absurd h.head (by decide)

set_option maxRecDepth 4000 in
theorem isIdent_plain : isIdent b = true → b ≠ 40 ∧ b ≠ 41 ∧ b ≠ 42 ∧ b ≠ 44 ∧ b ≠ 59 ∧ tolower b ≠ 40 :=
  byte_cases (P := fun b => isIdent b = true → b ≠ 40 ∧ b ≠ 41 ∧ b ≠ 42 ∧ b ≠ 44 ∧ b ≠ 59 ∧ tolower b ≠ 40) (by decide) b

set_option maxRecDepth 4000 in
theorem isIdent_tolower : isIdent (tolower b) = true → isIdent b = true :=
  byte_cases (P := fun b => isIdent (tolower b) = true → isIdent b = true) (by decide) b

set_option maxRecDepth 4000 in
theorem bracket_of_tolower : tolower b = 40 → b = 40 :=
  byte_cases (P := fun b => tolower b = 40 → b = 40) (by decide) b

set_option maxRecDepth 4000 in
theorem head_plain : (isalpha b = true ∨ b = 95) → b ≠ 39 ∧ b ≠ 34 ∧ isdigit b = false :=
  byte_cases (P := fun b => (isalpha b = true ∨ b = 95) → b ≠ 39 ∧ b ≠ 34 ∧ isdigit b = false) (by decide) b

theorem NameText.raw (h : NameText u) : RawText u where
  ne_nil := h.ne_nil
  brackets := fun b hb => ⟨(isIdent_plain (h.chars b hb)).1, (isIdent_plain (h.chars b hb)).2.1⟩
  last := isspace_of_isIdent (h.chars _ (List.getLast_mem _))

/-- A name is no function: no bracket stands behind it. -/
theorem startsCI_function {kw : Text} (hkw : charAt kw (kw.takeWhile isIdent).length = 40) (hu : ∀ b ∈ u, isIdent b = true)
    (hrest : isIdent (peek rest) = false) (hopen : peek rest ≠ 40) : startsCI kw (u ++ rest) = false := by
  have hlen : (kw.takeWhile isIdent).length < kw.length := by
    by_contra hge
    rw [charAt, List.getD_eq_default _ _ (Nat.le_of_not_lt hge)] at hkw
    exact absurd hkw (by decide)
  rcases Nat.lt_trichotomy (kw.takeWhile isIdent).length u.length with h | h | h
  · refine startsCI_false hlen ?_
    rw [hkw, charAt_append h]
    exact (isIdent_plain (hu _ (charAt_mem h))).2.2.2.2.2
  · refine startsCI_false hlen ?_
    rw [hkw, h, charAt_append_length]
    exact fun heq => hopen (bracket_of_tolower heq)
  · refine startsCI_false (k := u.length) (h.trans hlen) ?_
    rw [charAt_append_length]
    intro heq
    have hchar : charAt kw u.length = charAt (kw.takeWhile isIdent) u.length := by
      conv_lhs => rw [← List.takeWhile_append_dropWhile (p := isIdent) (l := kw)]
      exact charAt_append h
    have hident : isIdent (charAt kw u.length) = true := by
      rw [hchar]
      exact List.mem_takeWhile_imp (charAt_mem h)
    rw [← heq] at hident
    rw [isIdent_tolower hident] at hrest
    cases hrest

/-- The item of the list that a name gives. -/
theorem parseSelectItem_nameText (h : NameText u) (hrest : isIdent (peek rest) = false) (hopen : peek rest ≠ 40) (agg : Bool) :
    parseSelectItem agg (u ++ rest) =
      ((.plain (trimEnd (scanUntil endsCol (selectNameSize - 1) 0 (u ++ rest)).1), agg),
        (scanUntil endsCol (selectNameSize - 1) 0 (u ++ rest)).2) := by
  have hno : ∀ kw : Text, charAt kw (kw.takeWhile isIdent).length = 40 → startsCI kw (u ++ rest) = false :=
    fun kw hkw => startsCI_function hkw h.chars hrest hopen
  obtain ⟨h39, h34, hdigit⟩ := head_plain h.head
  unfold parseSelectItem parsePlainCol
  dsimp only
  rw [hno kwRowNumber (by decide), hno kwRank (by decide), hno kwDenseRank (by decide), hno kwCountStar (by decide),
    hno kwCount (by decide), hno kwSum (by decide), hno kwAvg (by decide), hno kwMin (by decide), hno kwMax (by decide),
    hno kwCoalesce (by decide), peek_append h.ne_nil, hdigit]
  simp [h39, h34]

/-! ## The list -/

set_option maxRecDepth 4000 in
theorem isspace_endsCol (b : UInt8) (p : Text) (hb : isspace b = true) : endsCol (b :: p) = false := by
  have hplain : isspace b = true → b ≠ 44 ∧ b ≠ 59 ∧ tolower b ≠ 102 ∧ tolower b ≠ 117 ∧ tolower b ≠ 105 ∧ tolower b ≠ 101 :=
    byte_cases (P := fun b => isspace b = true →
      b ≠ 44 ∧ b ≠ 59 ∧ tolower b ≠ 102 ∧ tolower b ≠ 117 ∧ tolower b ≠ 105 ∧ tolower b ≠ 101) (by decide) b
  obtain ⟨hcomma, hsemi, hf, hu, hi, he⟩ := hplain hb
  have hno : ∀ kw : Text, 0 < kw.length → tolower b ≠ charAt kw 0 → startsCI kw (b :: p) = false :=
    fun kw hlen hne => startsCI_false (k := 0) hlen hne
  unfold endsCol endsList
  rw [hno kwFrom (by decide) hf, hno kwUnion (by decide) hu, hno kwIntersect (by decide) hi, hno kwExcept (by decide) he]
  simp [hcomma, hsemi]

set_option maxRecDepth 4000 in
theorem endsList_before (hrest : isIdent (peek rest) = false) (u : Text) : endsList (u ++ rest) = endsList u := by
  unfold endsList
  rw [startsCI_before (by decide) hrest, startsCI_before (by decide) hrest, startsCI_before (by decide) hrest,
    startsCI_before (by decide) hrest]

/-- Inside a name a column of the list ends where a word does that ends the list. -/
theorem endsCol_inside (hu : ∀ b ∈ u, isIdent b = true) (hrest : isIdent (peek rest) = false) {k : Nat} (hk : k < u.length) :
    endsCol (u.drop k ++ rest) = endsList (u.drop k) := by
  have hne : u.drop k ≠ [] := by
    rw [ne_eq, List.drop_eq_nil_iff]
    omega
  have hhead := isIdent_plain (hu _ (List.drop_subset k u (peek_mem hne)))
  unfold endsCol
  rw [endsList_before hrest, peek_append hne]
  simp [hhead]

/-- A name of the list is read in full where it is listed. -/
theorem Ident.listed_iff (i : Ident) (hrest : isIdent (peek rest) = false) :
    i.listed = true ↔ i.text.length ≤ selectNameSize - 1 ∧ ∀ k < i.text.length, endsCol (i.text.drop k ++ rest) = false := by
  have hfit : i.text.length < selectNameSize ↔ i.text.length ≤ selectNameSize - 1 := Nat.lt_iff_le_pred (by decide)
  have hclear : (∀ k < i.text.length, endsCol (i.text.drop k ++ rest) = false) ↔
      (mentions kwFrom i.text = false ∧ mentions kwUnion i.text = false) ∧
        mentions kwIntersect i.text = false ∧ mentions kwExcept i.text = false := by
    rw [mentions_eq_false (by decide), mentions_eq_false (by decide), mentions_eq_false (by decide),
      mentions_eq_false (by decide)]
    constructor
    · intro h
      have hno : ∀ k < i.text.length, endsList (i.text.drop k) = false :=
        fun k hk => (endsCol_inside i.all_ident hrest hk).symm.trans (h k hk)
      simp only [endsList, Bool.or_eq_false_iff] at hno
      exact ⟨⟨fun k hk => (hno k hk).1.1.1, fun k hk => (hno k hk).1.1.2⟩, fun k hk => (hno k hk).1.2,
        fun k hk => (hno k hk).2⟩
    · rintro ⟨⟨hf, hu⟩, hi, he⟩ k hk
      rw [endsCol_inside i.all_ident hrest hk, endsList, hf k hk, hu k hk, hi k hk, he k hk]
      rfl
  rw [hclear, ← hfit]
  simp only [Ident.listed, Bool.and_eq_true, decide_eq_true_eq, Bool.not_eq_true', and_assoc]

/-- What follows a name of the list: a comma or FROM, with blanks in front. -/
structure BehindName (g rest : Text) : Prop where
  blank : ∀ b ∈ g, isspace b = true
  ident : isIdent (peek (g ++ rest)) = false
  open_ne : peek (g ++ rest) ≠ 40
  here : openAfter 0 (peek rest) = 0 ∧ endsCol rest = true
  noSpace : isspace (peek rest) = false

theorem BehindName.ends {g : Text} (h : BehindName g rest) : Ends endsCol g rest :=
  ⟨h.blank, isspace_endsCol, Or.inr h.here⟩

theorem BehindName.comma (g : Blank) (p : Text) : BehindName g.text (44 :: p) := by
  have hhead : isIdent (peek (g.text ++ 44 :: p)) = false ∧ peek (g.text ++ 44 :: p) ≠ 40 := by
    by_cases hne : g.text = []
    · rw [hne]
      exact ⟨rfl, show (44 : UInt8) ≠ 40 by decide⟩
    · have hspace : isspace (peek (g.text ++ 44 :: p)) = true := g.peek_space hne
      exact ⟨(endsValue_plain (endsValue_of_isspace hspace)).1, (not_bracket_of_isspace hspace).1⟩
  exact ⟨g.space, hhead.1, hhead.2, ⟨rfl, rfl⟩, rfl⟩

theorem BehindName.from {g : Blank} (hne : g.text ≠ []) (kw : Keyword kwFrom) (p : Text) :
    BehindName g.text (kw.val ++ p) := by
  have hspace : isspace (peek (g.text ++ (kw.val ++ p))) = true := g.peek_space hne
  have hplain : peek (kw.val ++ p) ≠ 40 ∧ peek (kw.val ++ p) ≠ 41 :=
    ⟨kw.peek_ne (by decide) (by decide) p, kw.peek_ne (by decide) (by decide) p⟩
  refine ⟨g.space, (endsValue_plain (endsValue_of_isspace hspace)).1, (not_bracket_of_isspace hspace).1, ?_,
    kw.noSpace (by decide) (by decide) p⟩
  refine ⟨openAfter_plain hplain, ?_⟩
  unfold endsCol endsList
  rw [kw.starts p]
  simp

/-- A name is read as it is written where it is listed; if not, what is read is another name, and no longer one. -/
theorem Ident.read_iff (i : Ident) {g : Text} (h : BehindName g rest) :
    trimEnd (scanUntil endsCol (selectNameSize - 1) 0 (i.text ++ (g ++ rest))).1 = i.text ↔ i.listed = true :=
  (i.nameText.raw.scan_iff h.ends _).trans (i.listed_iff h.ident).symm

/-- The loop only adds items. -/
theorem parseSelectList_grows {slots : Nat} {cols : List ParsedCol} {agg : Bool} {out : List ParsedCol × Bool}
    (h : parseSelectList slots p cols agg = some (out, q)) : cols <+: out.1 := by
  induction slots generalizing p cols agg with
  | zero =>
    unfold parseSelectList at h
    split at h
    · cases h
      exact List.prefix_refl _
    · cases h
  | succ slots ih =>
    unfold parseSelectList at h
    split at h
    · cases h
      exact List.prefix_refl _
    · dsimp only at h
      split at h
      · exact (List.prefix_append ..).trans (ih h)
      · split at h
        · exact (List.prefix_append ..).trans (ih h)
        · cases h

theorem parseSelectList_end (h : p = [] ∨ peek p = 59 ∨ endsList p = true) (slots : Nat) (cols : List ParsedCol) (agg : Bool) :
    parseSelectList slots p cols agg = some ((cols, agg), p) := by
  unfold parseSelectList
  exact if_pos h

/-- A turn of the loop in front of a name. -/
theorem parseSelectList_turn {g : Text} (hu : NameText u) (hb : BehindName g rest) {lead : Blank}
    (hgo : lead.text = [] → endsList u = false) (slots : Nat) (cols : List ParsedCol) (agg : Bool) :
    parseSelectList (slots + 1) (lead.text ++ (u ++ (g ++ rest))) cols agg =
      let r := scanUntil endsCol (selectNameSize - 1) 0 (u ++ (g ++ rest))
      let cols := cols ++ [.plain (trimEnd r.1)]
      let q := skipWhitespace r.2
      if peek q = 44 then parseSelectList slots (q.drop 1) cols agg
      else if q = [] ∨ peek q = 59 ∨ endsList q = true then parseSelectList slots q cols agg
      else none := by
  have hne : u ++ (g ++ rest) ≠ [] := by simp [hu.ne_nil]
  have hident : isIdent (peek (u ++ (g ++ rest))) = true := by
    rw [peek_append hu.ne_nil]
    exact hu.chars _ (peek_mem hu.ne_nil)
  have hnot : ¬ (lead.text ++ (u ++ (g ++ rest)) = [] ∨ peek (lead.text ++ (u ++ (g ++ rest))) = 59 ∨
      endsList (lead.text ++ (u ++ (g ++ rest))) = true) := by
    by_cases hlead : lead.text = []
    · rw [hlead, List.nil_append, endsList_before hb.ident, hgo hlead]
      rintro (h | h | h)
      · exact hne h
      · exact (isIdent_plain hident).2.2.2.2.1 h
      · cases h
    · obtain ⟨b, l, hl⟩ := List.exists_cons_of_ne_nil hlead
      have hspace : isspace b = true := lead.space b (by simp [hl])
      have hstop := isspace_endsCol b (l ++ (u ++ (g ++ rest))) hspace
      rw [endsCol, Bool.or_eq_false_iff, Bool.or_eq_false_iff] at hstop
      rw [hl, List.cons_append]
      rintro (h | h | h)
      · cases h
      · exact of_decide_eq_false hstop.1.2 h
      · rw [hstop.2] at h
        cases h
  rw [parseSelectList, if_neg hnot]
  dsimp only
  rw [skipWhitespace_blank, skipWhitespace_self (isspace_of_isIdent hident), parseSelectItem_nameText hu hb.ident hb.open_ne]

/-- In front of a name the loop ends, or it adds what it reads of the name. -/
theorem parseSelectList_first {g : Text} (hu : NameText u) (hb : BehindName g rest) (lead : Blank) {slots : Nat}
    {cols : List ParsedCol} {agg : Bool} {out : List ParsedCol × Bool}
    (h : parseSelectList slots (lead.text ++ (u ++ (g ++ rest))) cols agg = some (out, q)) :
    out.1 = cols ∨
      cols ++ [.plain (trimEnd (scanUntil endsCol (selectNameSize - 1) 0 (u ++ (g ++ rest))).1)] <+: out.1 := by
  by_cases hend : lead.text = [] ∧ endsList u = true
  · left
    have hstop : endsList (u ++ (g ++ rest)) = true := (endsList_before hb.ident u).trans hend.2
    rw [hend.1, List.nil_append, parseSelectList_end (Or.inr (Or.inr hstop))] at h
    cases h
    rfl
  · cases slots with
    | zero =>
      left
      unfold parseSelectList at h
      split at h
      · cases h
        rfl
      · cases h
    | succ slots =>
      right
      rw [parseSelectList_turn hu hb fun hlead => Bool.eq_false_iff.mpr fun he => hend ⟨hlead, he⟩] at h
      dsimp only at h
      split at h
      · exact parseSelectList_grows h
      · split at h
        · exact parseSelectList_grows h
        · cases h

/-- A name that is listed does not end the list. -/
theorem Ident.not_endsList {i : Ident} (h : i.listed = true) : endsList i.text = false := by
  have hpos : 0 < i.text.length := List.length_pos_of_ne_nil i.ne_nil
  have hclear := ((@Ident.listed_iff [] i rfl).mp h).2 0 hpos
  rwa [endsCol_inside i.all_ident rfl hpos] at hclear

/-- The names behind the first. -/
def MoreNames.names (l : MoreNames) : List Ident := l.map fun x => x.2.2

/-- An item for each name. -/
def plainCols (l : List Ident) : List ParsedCol := l.map fun i => .plain i.text

/-- A listed name with a comma behind it is read, and the loop goes on. -/
theorem parseSelectList_comma {i : Ident} (hi : i.listed = true) (lead g : Blank) (p : Text) (slots : Nat)
    (cols : List ParsedCol) (agg : Bool) :
    parseSelectList (slots + 1) (lead.text ++ (i.text ++ (g.text ++ 44 :: p))) cols agg =
      parseSelectList slots p (cols ++ [.plain i.text]) agg := by
  have hb := BehindName.comma g p
  obtain ⟨hlen, hclear⟩ := (i.listed_iff hb.ident).mp hi
  rw [parseSelectList_turn i.nameText hb fun _ => Ident.not_endsList hi]
  dsimp only
  rw [(i.read_iff hb).mpr hi, i.nameText.raw.scan_rest hb.ends hlen hclear, skipWhitespace_self hb.noSpace, peek_cons,
    if_pos rfl, List.drop_one, List.tail_cons]

/-- Where a list comes out as it was written there was room for its first name, and that is listed. -/
theorem listed_first {g : Text} {i : Ident} (hb : BehindName g rest) {lead : Blank} {slots : Nat} {cols : List ParsedCol}
    {agg : Bool} {out : List ParsedCol × Bool} {more : List Ident}
    (h : parseSelectList slots (lead.text ++ (i.text ++ (g ++ rest))) cols agg = some (out, q))
    (hout : out.1 = cols ++ plainCols (i :: more)) : (∃ n, slots = n + 1) ∧ i.listed = true := by
  have hgrown : out.1 ≠ cols := by
    rw [hout]
    simp [plainCols]
  constructor
  · cases slots with
    | succ n => exact ⟨n, rfl⟩
    | zero =>
      unfold parseSelectList at h
      split at h
      · cases h
        exact absurd rfl hgrown
      · cases h
  · by_contra hnot
    have hfirst := (parseSelectList_first i.nameText hb lead h).resolve_left hgrown
    refine prefix_ne hfirst (fun heq => hnot ?_) hout
    exact (i.read_iff hb).mp (congrArg ParsedCol.colName heq)

theorem MoreNames.text_cons (x : Blank × Blank × Ident) (l : MoreNames) (rest : Text) :
    MoreNames.text (x :: l) ++ rest = x.1.text ++ 44 :: (x.2.1.text ++ (x.2.2.text ++ (l.text ++ rest))) := by
  simp [MoreNames.text]

section Loop

variable {gapFrom : Blank} (hgap : gapFrom.text ≠ []) (kw : Keyword kwFrom) (p : Text)
include hgap

/-- Names that are all listed are read as they are written, where there is room. -/
theorem parseSelectList_names (l : MoreNames) (i : Ident) (lead : Blank) (slots : Nat) (cols : List ParsedCol) (agg : Bool)
    (hroom : l.length ≤ slots) (hlisted : ∀ j ∈ i :: l.names, j.listed = true) :
    parseSelectList (slots + 1) (lead.text ++ (i.text ++ (l.text ++ (gapFrom.text ++ (kw.val ++ p))))) cols agg =
      some ((cols ++ plainCols (i :: l.names), agg), kw.val ++ p) := by
  have hi := hlisted i (List.mem_cons_self ..)
  induction l generalizing i lead slots cols with
  | nil =>
    have hb := BehindName.from hgap kw p
    obtain ⟨hlen, hclear⟩ := (i.listed_iff hb.ident).mp hi
    have hfrom : endsList (kw.val ++ p) = true := by
      rw [endsList, kw.starts p]
      rfl
    have hend : kw.val ++ p = [] ∨ peek (kw.val ++ p) = 59 ∨ endsList (kw.val ++ p) = true := Or.inr (Or.inr hfrom)
    have hcomma : peek (kw.val ++ p) ≠ 44 := kw.peek_ne (by decide) (by decide) p
    rw [show MoreNames.text [] ++ (gapFrom.text ++ (kw.val ++ p)) = gapFrom.text ++ (kw.val ++ p) from rfl,
      parseSelectList_turn i.nameText hb fun _ => Ident.not_endsList hi]
    dsimp only
    rw [(i.read_iff hb).mpr hi, i.nameText.raw.scan_rest hb.ends hlen hclear, skipWhitespace_self hb.noSpace,
      if_neg hcomma, if_pos hend, parseSelectList_end hend]
    rfl
  | cons x l ih =>
    obtain ⟨slots, rfl⟩ := Nat.exists_eq_add_of_le' (show 1 ≤ slots by rw [List.length_cons] at hroom; omega)
    have hmore : ∀ j ∈ x.2.2 :: MoreNames.names l, j.listed = true := fun j hj => hlisted j (List.mem_cons_of_mem _ hj)
    have hrec := ih x.2.2 x.2.1 slots (cols ++ [.plain i.text]) (Nat.le_of_succ_le_succ hroom) hmore
      (hmore _ (List.mem_cons_self ..))
    rw [MoreNames.text_cons, parseSelectList_comma hi]
    refine hrec.trans ?_
    simp [plainCols, MoreNames.names]

/-- Where the names come out as they were written there was room, and all of them are listed. -/
theorem listed_of_parseSelectList (l : MoreNames) (i : Ident) (lead : Blank) {slots : Nat} {cols : List ParsedCol}
    {agg : Bool} {out : List ParsedCol × Bool}
    (h : parseSelectList slots (lead.text ++ (i.text ++ (l.text ++ (gapFrom.text ++ (kw.val ++ p))))) cols agg =
      some (out, q)) (hout : out.1 = cols ++ plainCols (i :: l.names)) :
    l.length + 1 ≤ slots ∧ ∀ j ∈ i :: l.names, j.listed = true := by
  induction l generalizing i lead slots cols with
  | nil =>
    obtain ⟨⟨n, rfl⟩, hi⟩ := listed_first (BehindName.from hgap kw p) h hout
    exact ⟨Nat.succ_le_succ (Nat.zero_le n), fun j hj => List.mem_singleton.mp hj ▸ hi⟩
  | cons x l ih =>
    rw [MoreNames.text_cons] at h
    obtain ⟨⟨n, rfl⟩, hi⟩ := listed_first (BehindName.comma ..) h hout
    rw [parseSelectList_comma hi] at h
    obtain ⟨hroom, hlisted⟩ := ih x.2.2 x.2.1 h (by rw [hout]; simp [plainCols, MoreNames.names])
    refine ⟨Nat.succ_le_succ hroom, fun j hj => ?_⟩
    rcases List.mem_cons.mp hj with rfl | hj
    · exact hi
    · exact hlisted j hj

end Loop

/-! ## DISTINCT -/

theorem startsCI_length {kw : Text} (h : startsCI kw u = true) : kw.length ≤ u.length := by
  have hmap := congrArg List.length (of_decide_eq_true h)
  rw [List.length_map, List.length_take] at hmap
  omega

/-- A name that starts with `distinct` goes on behind it. -/
theorem Ident.distinct_lt (i : Ident) (h : startsCI kwDistinct i.text = true) : 8 < i.text.length := by
  refine Nat.lt_of_le_of_ne (startsCI_length h) fun heq => i.notKeyword ?_
  have hwhole : i.text.map tolower = kwDistinct := by
    rw [← of_decide_eq_true h]
    exact congrArg (List.map tolower) (List.take_of_length_le heq.symm.le).symm
  rw [hwhole]
  exact List.mem_cons_of_mem _ (List.mem_cons_self ..)

set_option maxRecDepth 4000 in
theorem isIdent_of_isalpha : isalpha b = true → isIdent b = true :=
  byte_cases (P := fun b => isalpha b = true → isIdent b = true) (by decide) b

set_option maxRecDepth 4000 in
/-- A first name that looks like DISTINCT loses its first eight letters. -/
theorem Ident.parseDistinct (i : Ident) (hrest : isIdent (peek rest) = false) :
    parseDistinct (i.text ++ rest) =
      if i.likeDistinct = true then (true, i.text.drop 8 ++ rest) else (false, i.text ++ rest) := by
  unfold CustomDB.parseDistinct Ident.likeDistinct
  rw [startsCI_before (by decide) hrest]
  cases h : startsCI kwDistinct i.text with
  | false => rfl
  | true =>
    have hlen := i.distinct_lt h
    have hident := i.all_ident _ (charAt_mem hlen)
    have hstar := (isIdent_plain hident).2.2.1
    rw [charAt_append hlen, isspace_of_isIdent hident, decide_eq_false hstar, Bool.true_and, Bool.false_or, Bool.false_or]
    cases hal : isalpha (charAt i.text 8) with
    | false => rfl
    | true =>
      have hhead : peek (i.text.drop 8 ++ rest) = charAt i.text 8 := by
        rw [← charAt_zero, charAt_append (by rw [List.length_drop]; omega)]
        simp [charAt]
      rw [if_pos rfl, if_pos (Bool.and_self true), List.drop_append_of_le_length hlen.le, skipWhitespace_self]
      rw [hhead]
      exact isspace_of_isIdent hident

/-- DISTINCT is read with its blank. -/
theorem parseDistinct_word (kw : Keyword kwDistinct) {g : Blank} (hg : g.text ≠ []) (hu : NameText u) :
    parseDistinct (kw.val ++ (g.text ++ (u ++ rest))) = (true, u ++ rest) := by
  have hchar := charAt_append_length kw.val (g.text ++ (u ++ rest))
  rw [kw.length] at hchar
  have hspace : isspace (charAt (kw.val ++ (g.text ++ (u ++ rest))) 8) = true := by
    rw [show (8 : Nat) = kwDistinct.length from rfl, hchar]
    exact g.peek_space hg
  have hstay : skipWhitespace (u ++ rest) = u ++ rest := by
    apply skipWhitespace_self
    rw [peek_append hu.ne_nil]
    exact isspace_of_isIdent (hu.chars _ (peek_mem hu.ne_nil))
  unfold parseDistinct
  rw [kw.starts, hspace, kw.drop _ (n := 8) rfl, skipWhitespace_blank, hstay]
  rfl

/-! ## Behind the tables -/

namespace SelectEnd

variable (e : SelectEnd)

theorem noIdent : isIdent (peek e.text) = false := by
  cases e with
  | clause w hne known =>
    have hspace : isspace (peek w.text) = true := w.lead.peek_space hne
    exact (endsValue_plain (endsValue_of_isspace hspace)).1
  | bare tail head plain =>
    rcases head with rfl | h | h
    · rfl
    · exact (endsValue_plain (endsValue_of_isspace h)).1
    · show isIdent (peek tail) = false
      rw [h]
      rfl

/-- No join stands there. -/
theorem noJoin : parseJoinType (skipWhitespace e.text) = none := by
  have hwords : ∀ kw ∈ [kwLeft, kwRight, kwFull, kwInner, kwJoin], startsCI kw (skipWhitespace e.text) = false := by
    intro kw hkw
    cases e with
    | clause w hne known =>
      have hskip : skipWhitespace w.text = w.kw.val ++ (w.gap.text ++ (w.first.text ++
          (WrittenClause.restText w.rest ++ w.tail))) := by
        rw [WrittenClause.text, skipWhitespace_blank, w.kw.peek_space (by decide) (by decide)]
      have hdiffer : ∀ kw ∈ [kwLeft, kwRight, kwFull, kwInner, kwJoin],
          0 < kwWhere.length ∧ 0 < kw.length ∧ charAt kwWhere 0 ≠ charAt kw 0 := by decide
      show startsCI kw (skipWhitespace w.text) = false
      rw [hskip]
      exact w.kw.notStarts_first kw (hdiffer kw hkw) _
    | bare tail head plain => exact plain kw (List.mem_cons_of_mem _ hkw)
  simp only [List.forall_mem_cons] at hwords
  obtain ⟨hleft, hright, hfull, hinner, hjoin, -⟩ := hwords
  unfold parseJoinType
  rw [hleft, hright, hfull, hinner, hjoin]
  rfl

/-- The columns of WHERE are read where they are named. -/
theorem columns_iff :
    (∃ wc, parseWhereClause (skipWhitespace e.text) = some (skipWhitespace e.tail, wc) ∧ wc.columns = e.columns) ↔
      e.named = true := by
  have hblank : parseWhereClause (skipWhitespace e.text) = parseWhereClause e.text := by
    unfold parseWhereClause
    rw [skipWhitespace_idem]
  rw [hblank]
  cases e with
  | clause w hne known =>
    refine (w.columns_iff known).trans ((and_iff_right rfl).trans ?_)
    simp only [named, Bool.and_eq_true, decide_eq_true_eq, List.all_eq_true]
  | bare tail head plain =>
    have hno : startsCI kwWhere (skipWhitespace tail) = false := plain _ (List.mem_cons_self ..)
    refine iff_of_true ⟨⟨false, [], []⟩, ?_, rfl⟩ rfl
    show parseWhereClause tail = _
    unfold parseWhereClause
    dsimp only
    rw [hno]
    rfl

end SelectEnd

/-- From the table on. -/
theorem WrittenSelect.parseFrom (s : WrittenSelect) (d : Bool) (cols : List ParsedCol × Bool) :
    parseFrom d cols (s.gapTable.text ++ (s.table.text ++ s.behindTable)) =
      if s.joins.length ≤ maxJoins then
        (parseWhereClause (skipWhitespace s.ending.text)).map fun w =>
          (⟨d, cols.2, cols.1, s.table.text.take (tblNameSize - 1), s.joins.map WrittenJoin.read, w.2⟩, w.1)
      else none := by
  have hident : isIdent (peek s.behindTable) = false := WrittenJoin.textAll_ident s.ending.noIdent s.joins
  have hjoins := parseJoins_written s.ending.noIdent s.ending.noJoin s.joins maxJoins []
  unfold CustomDB.parseFrom
  rw [s.table.parse s.gapTable hident]
  dsimp only
  rw [if_neg (s.table.take_ne_nil (by decide)), behindTable, hjoins]
  split <;> rfl

/-! ## The statement -/

/-- The items of the statement are those of the loop. -/
theorem selectCols_of_prepareSelect {d : Bool × Text} (hd : parseDistinct (skipWhitespace (p.drop 6)) = d)
    (hstar : peek d.2 ≠ 42) {r : ParsedSelect} (h : prepareSelect p = some (r, q)) :
    ∃ l, parseSelectList maxSelectCols d.2 [] false = some l ∧ r.selectCols = l.1.1 := by
  unfold prepareSelect at h
  split at h
  · cases h
  · dsimp only at h
    rw [hd, if_neg hstar] at h
    obtain ⟨l, hl, h⟩ := Option.bind_eq_some_iff.mp h
    refine ⟨l, hl, ?_⟩
    split at h
    · unfold parseFrom at h
      dsimp only at h
      split at h
      · cases h
      · obtain ⟨j, -, h⟩ := Option.bind_eq_some_iff.mp h
        obtain ⟨w, -, hw⟩ := Option.map_eq_some_iff.mp h
        cases hw
        rfl
    · cases h
      rfl

namespace WrittenSelect

variable (s : WrittenSelect)

/-- What stands behind the first name. -/
def behindFirst : Text := s.more.text ++ (s.gapFrom.text ++ s.fromText)

theorem behindFirst_split : ∃ g rest, s.behindFirst = g ++ rest ∧ BehindName g rest := by
  unfold behindFirst
  cases hmore : s.more with
  | nil => exact ⟨s.gapFrom.text, s.fromText, rfl, BehindName.from s.gapFrom_ne s.kwFrom _⟩
  | cons x l =>
    rw [MoreNames.text_cons]
    exact ⟨_, _, rfl, BehindName.comma ..⟩

theorem behindFirst_ident : isIdent (peek s.behindFirst) = false := by
  obtain ⟨g, rest, hsplit, hb⟩ := s.behindFirst_split
  rw [hsplit]
  exact hb.ident

/-- Whether the first name is taken for DISTINCT and another one. -/
def loses : Bool := s.distinct.isNone && s.first.likeDistinct

/-- The text of the list as the loop gets it. -/
theorem parseDistinct_text :
    (parseDistinct (skipWhitespace (s.text.drop 6))).2 =
      if s.loses = true then s.first.text.drop 8 ++ s.behindFirst else s.first.text ++ s.behindFirst := by
  have hhead : isspace (peek (s.first.text ++ s.behindFirst)) = false := by
    rw [peek_append s.first.ne_nil]
    exact isspace_of_isIdent (s.first.all_ident _ (peek_mem s.first.ne_nil))
  have hdrop : s.text.drop 6 = s.gap.text ++ (s.distinct.text ++ (s.first.text ++ s.behindFirst)) :=
    s.kw.drop _ (n := 6) rfl
  rw [hdrop, skipWhitespace_blank, loses]
  cases hdist : s.distinct with
  | none =>
    rw [show DistinctWord.text none ++ (s.first.text ++ s.behindFirst) = s.first.text ++ s.behindFirst from rfl,
      skipWhitespace_self hhead, s.first.parseDistinct s.behindFirst_ident]
    cases s.first.likeDistinct <;> rfl
  | some x =>
    obtain ⟨kw, g, hg⟩ := x
    have htext : DistinctWord.text (some (kw, ⟨g, hg⟩)) ++ (s.first.text ++ s.behindFirst) =
        kw.val ++ (g.text ++ (s.first.text ++ s.behindFirst)) := by
      simp [DistinctWord.text]
    rw [htext, kw.peek_space (by decide) (by decide), parseDistinct_word kw hg s.first.nameText]
    rfl

theorem loses_nameText (h : s.loses = true) : NameText (s.first.text.drop 8) ∧ 8 < s.first.text.length := by
  rw [loses, Bool.and_eq_true, Ident.likeDistinct, Bool.and_eq_true] at h
  obtain ⟨-, hstart, halpha⟩ := h
  refine ⟨⟨Or.inl ?_, fun b hb => s.first.all_ident b (List.drop_subset _ _ hb)⟩, s.first.distinct_lt hstart⟩
  rwa [← charAt_zero, show charAt (s.first.text.drop 8) 0 = charAt s.first.text 8 by simp [charAt]]

/-- The list is no star. -/
theorem not_star : peek (parseDistinct (skipWhitespace (s.text.drop 6))).2 ≠ 42 := by
  rw [s.parseDistinct_text]
  have hword : ∀ {u : Text}, NameText u → peek (u ++ s.behindFirst) ≠ 42 := by
    intro u hu
    rw [peek_append hu.ne_nil]
    exact (isIdent_plain (hu.chars _ (peek_mem hu.ne_nil))).2.2.1
  split
  next h => exact hword (s.loses_nameText h).1
  next => exact hword s.first.nameText

/-- The statement behind a list whose names are read. -/
theorem prepareSelect_text (hroom : s.names.length ≤ maxSelectCols) (hlisted : ∀ i ∈ s.names, i.listed = true)
    (hloses : s.loses = false) :
    prepareSelect s.text =
      if s.joins.length ≤ maxJoins then
        (parseWhereClause (skipWhitespace s.ending.text)).map fun w =>
          (⟨(parseDistinct (skipWhitespace (s.text.drop 6))).1, false, plainCols s.names,
            s.table.text.take (tblNameSize - 1), s.joins.map WrittenJoin.read, w.2⟩, w.1)
      else none := by
  have hlist : parseSelectList maxSelectCols (s.first.text ++ s.behindFirst) [] false =
      some ((plainCols s.names, false), s.fromText) := by
    have hmore : s.more.length ≤ 7 := by
      rw [names, List.length_cons, List.length_map] at hroom
      exact Nat.le_of_succ_le_succ hroom
    exact parseSelectList_names s.gapFrom_ne s.kwFrom _ s.more s.first noBlank 7 [] false hmore hlisted
  have htext := s.parseDistinct_text
  rw [hloses, if_neg (by simp)] at htext
  have hstarts : startsCI kwSelect s.text = true := s.kw.starts _
  have hfrom : skipWhitespace s.fromText = s.fromText := s.kwFrom.peek_space (by decide) (by decide) _
  unfold prepareSelect
  rw [hstarts, if_neg (by simp)]
  dsimp only
  rw [if_neg s.not_star, htext, hlist, Option.bind_some, hfrom, show startsCI CustomDB.kwFrom s.fromText = true from s.kwFrom.starts _,
    if_pos rfl, show s.fromText.drop 4 = _ from s.kwFrom.drop _ (n := 4) rfl, s.parseFrom]

/-- A SELECT of plain names is read as it is written exactly where no name of it is too long or has a keyword where it
ends a clause. -/
theorem select_plain_iff : s.Meets ↔ s.plain = true := by
  have hplain : s.plain = true ↔ s.table.text.length < tblNameSize ∧ s.names.length ≤ maxSelectCols ∧
      (∀ i ∈ s.names, i.listed = true) ∧ s.loses = false ∧ s.joins.length ≤ maxJoins ∧
      (∀ j ∈ s.joins, j.fits = true) ∧ s.ending.named = true := by
    have hloses : (s.distinct.isSome || !s.first.likeDistinct) = !s.loses := by
      rw [loses, Bool.not_and, Option.not_isNone]
    rw [plain, hloses]
    simp only [Bool.and_eq_true, decide_eq_true_eq, List.all_eq_true, Bool.not_eq_true', and_assoc]
  have htake : s.table.text.take (tblNameSize - 1) = s.table.text ↔ s.table.text.length < tblNameSize :=
    s.table.take_iff (by decide)
  have hread : s.joins.map WrittenJoin.read = s.joins.map WrittenJoin.item ↔ ∀ j ∈ s.joins, j.fits = true := by
    rw [List.map_inj_left]
    exact forall₂_congr fun j _ => j.read_eq_iff
  rw [hplain]
  constructor
  · rintro ⟨r, hr, htable, hcols, hjoins, hwhere⟩
    obtain ⟨l, hl, hlcols⟩ := selectCols_of_prepareSelect rfl s.not_star hr
    have hout : l.1.1 = [] ++ plainCols s.names := hlcols.symm.trans hcols
    rw [s.parseDistinct_text] at hl
    cases hloses : s.loses with
    | true =>
      -- the first item cannot be longer than what is left of the first name
      obtain ⟨hword, hlong⟩ := s.loses_nameText hloses
      obtain ⟨g, rest, hsplit, hb⟩ := s.behindFirst_split
      rw [hloses, if_pos rfl, hsplit] at hl
      rcases parseSelectList_first hword hb noBlank hl with hnil | hfirst
      · rw [hnil] at hout
        cases hout
      · refine absurd hout (prefix_ne hfirst fun heq => ?_)
        have hname : trimEnd (scanUntil endsCol (selectNameSize - 1) 0 (s.first.text.drop 8 ++ (g ++ rest))).1 =
            s.first.text := congrArg ParsedCol.colName heq
        have hshort := hword.raw.scan_length hb.ends (selectNameSize - 1)
        rw [hname, List.length_drop] at hshort
        omega
    | false =>
      rw [hloses, if_neg (by simp)] at hl
      obtain ⟨hroom, hlisted⟩ := listed_of_parseSelectList s.gapFrom_ne s.kwFrom _ s.more s.first noBlank hl hout
      have hnames : s.names.length ≤ maxSelectCols := by
        rw [names, List.length_cons, List.length_map]
        exact hroom
      rw [s.prepareSelect_text hnames hlisted hloses] at hr
      split at hr
      next hmany =>
        obtain ⟨⟨left, wc⟩, hw, hwr⟩ := Option.map_eq_some_iff.mp hr
        obtain ⟨rfl, rfl⟩ := Prod.mk.inj hwr
        exact ⟨htake.mp htable, hnames, hlisted, rfl, hmany, hread.mp hjoins,
          s.ending.columns_iff.mp ⟨wc, hw, hwhere⟩⟩
      next => cases hr
  · rintro ⟨hfits, hnames, hlisted, hloses, hmany, hjoins, hnamed⟩
    obtain ⟨wc, hw, hwhere⟩ := s.ending.columns_iff.mpr hnamed
    refine ⟨⟨(parseDistinct (skipWhitespace (s.text.drop 6))).1, false, plainCols s.names,
      s.table.text.take (tblNameSize - 1), s.joins.map WrittenJoin.read, wc⟩, ?_, htake.mpr hfits, rfl,
      hread.mpr hjoins, hwhere⟩
    rw [s.prepareSelect_text hnames hlisted hloses, if_pos hmany, hw]
    rfl

end WrittenSelect

end CustomDB
