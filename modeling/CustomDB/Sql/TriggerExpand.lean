import CustomDB.Sql.InsertText
import CustomDB.Sql.Digits
import CustomDB.Sql.WhereSpec

/-!
# NEW and OLD in the action of a trigger

`expand_trigger_sql` writes the action with every NEW.col and OLD.col outside of quotes replaced by a text of the
column's value. The text goes through 256 bytes, a quote in it stays single, and what does not fit into the output is
left out without a word.
-/

namespace CustomDB

def kwNew : Text := ascii ['n', 'e', 'w', '.']
def kwOld : Text := ascii ['o', 'l', 'd', '.']
def kwNullUpper : Text := ascii ['N', 'U', 'L', 'L']

/-! ## The function -/

/-- `isalnum(b) || b == '_'`. -/
def isWordChar (b : UInt8) : Bool := isalnum b || b = 95

/-- A piece of the action: text to copy, or a reference to a column of the new or the old row. -/
inductive Piece where
  | copied (t : Text)
  | ref (isNew : Bool) (col : Nat)
  deriving DecidableEq

/-- A string from its opening quote to its closing one, or to the end. -/
def quotedPiece (p : Text) : Text :=
  let inner := p.tail.takeWhile (· ≠ peek p)
  peek p :: (inner ++ (p.tail.drop inner.length).take 1)

section Expand

variable (ops : WhereOps) (cols : List Column) (old new : Option (List Value))

/-- The piece in front, and how much of the action it takes up. A column's name is read up to `limit` characters;
`prev` is the character before, 0 at the start. -/
def nextPiece (limit : Nat) (prev : UInt8) (p : Text) : Piece × Nat :=
  if peek p = 39 ∨ peek p = 34 then (.copied (quotedPiece p), (quotedPiece p).length)
  else if (startsCI kwNew p || startsCI kwOld p) && !isWordChar prev then
    let name := ((p.drop 4).takeWhile isWordChar).take limit
    match findColumnCI cols name with
    | some k => (.ref (startsCI kwNew p) k, 4 + name.length)
    | none => (.copied [peek p], 1)
  else (.copied [peek p], 1)

/-- `v`, where it is not NULL. -/
def pastedValue (isNew : Bool) (k : Nat) : Option Value :=
  ((if isNew then new else old).bind fun values => values[k]?).filter (!·.isNull)

/-- `val_str`. -/
def pastedText (c : ColumnType) : Option Value → Text
  | none => kwNullUpper
  | some v =>
    (match c with
      | .int => printInt v.intVal
      | .float => ops.printDouble (ops.widen v.floatVal)
      | .double | .numeric | .decimal => ops.printDouble v.doubleVal
      | .bool => if v.boolVal then [49] else [48]
      | .text | .varchar | .blob | .date | .time | .datetime | .timestamp | .vector => 39 :: (v.str ++ [39])).take 255

/-- The type of a column. -/
def columnType (k : Nat) : ColumnType := ((cols[k]?).map Column.type).getD .text

/-- The text for a reference. -/
def refText (isNew : Bool) (k : Nat) : Text := pastedText ops (columnType cols k) (pastedValue old new isNew k)

/-- What one turn of the loop writes behind the `o` bytes that are written, of `room` that there are. -/
def writePiece (room o : Nat) : Piece → Text
  | .copied t => t.take (room - o)
  | .ref isNew k =>
    let val := refText ops cols old new isNew k
    if o + val.length ≤ room then val else []

/-- What the turns of the loop write; every turn takes up a character at least, so `fuel` turns do for as many. -/
def expandTurns (room : Nat) : Nat → Nat → UInt8 → Text → List Text
  | 0, _, _, _ => []
  | fuel + 1, o, prev, p =>
    if p = [] ∨ room ≤ o then []
    else
      let piece := nextPiece cols 31 prev p
      let t := writePiece ops cols old new room o piece.1
      t :: expandTurns room fuel (o + t.length) (charAt p (piece.2 - 1)) (p.drop piece.2)

/-- `expand_trigger_sql`, `out_size` being `room + 1`. -/
def expandTriggerSql (room : Nat) (action : Text) : Text :=
  (expandTurns ops cols old new room action.length 0 0 action).flatten

/-! ## What it should write -/

/-- The pieces of the action, names read up to `limit` characters. -/
def pieces (limit : Nat) : Nat → UInt8 → Text → List Piece
  | 0, _, _ => []
  | fuel + 1, prev, p =>
    if p = [] then []
    else
      let piece := nextPiece cols limit prev p
      piece.1 :: pieces limit fuel (charAt p (piece.2 - 1)) (p.drop piece.2)

/-- The value as a literal of the column's type gives it. -/
def SameAs (c : ColumnType) (raw : Text) (v : Value) : Prop :=
  match c with
  | .int => atoi raw = v.intVal
  | .float => ops.narrow (ops.atof raw) = v.floatVal
  | .double | .numeric | .decimal => ops.atof raw = v.doubleVal
  | .bool => boolOf raw = v.boolVal
  | .text | .varchar | .blob | .date | .time | .datetime | .timestamp | .vector => raw = v.textVal

/-- The value token that is read of the text is the value, whatever ends it. -/
def ReadsAs (c : ColumnType) (t : Text) (v : Option Value) : Prop :=
  ∀ rest, rest = [] ∨ endsValue (peek rest) = true →
    let token := parseValueTokenAlloc (t ++ rest)
    token.2 = rest ∧
      match v with
      | none => token.1.isNull = true
      | some v => token.1.isNull = false ∧ SameAs ops c token.1.text v

/-- What is written for a piece is right: a copy, or a literal of the value. -/
def Rendered : Piece → Text → Prop
  | .copied t, s => s = t
  | .ref isNew k, s => ReadsAs ops (columnType cols k) s (pastedValue old new isNew k)

/-- Every piece of the action is written as it should be, to the last. -/
def Faithful (room : Nat) (action : Text) : Prop :=
  List.Forall₂ (Rendered ops cols old new) (pieces cols action.length action.length 0 action)
    (expandTurns ops cols old new room action.length 0 0 action)

/-! ## When it does -/

/-- The value survives its way through `val_str`: a text that fits between two quotes and has none, a number that is
read as it was printed. -/
def Pastes (c : ColumnType) : Option Value → Prop
  | none => True
  | some v =>
    match c with
    | .int | .bool => True
    | .float => ops.narrow (ops.atof (ops.printDouble (ops.widen v.floatVal))) = v.floatVal
    | .double | .numeric | .decimal => ops.atof (ops.printDouble v.doubleVal) = v.doubleVal
    | .text | .varchar | .blob | .date | .time | .datetime | .timestamp | .vector =>
      v.textVal.length ≤ 253 ∧ 39 ∉ v.textVal ∧ 0 ∉ v.textVal

/-- The length of what should be written for a piece. -/
def pieceLength : Piece → Nat
  | .copied t => t.length
  | .ref isNew k => (refText ops cols old new isNew k).length

/-- The values of the references survive. -/
def PiecePastes : Piece → Prop
  | .copied _ => True
  | .ref isNew k => Pastes ops (columnType cols k) (pastedValue old new isNew k)

end Expand

/-- What `%.8g` prints: a number, or `inf` or `nan`, with its sign. -/
structure PrintsNumbers (ops : WhereOps) : Prop where
  bare : ∀ x, Bare (ops.printDouble x)
  short : ∀ x, (ops.printDouble x).length ≤ 255
  notNull : ∀ x, (ops.printDouble x).map tolower ≠ kwNull
  single : ∀ x b, ops.printDouble x = [b] → isdigit b = true

/-! ## Reading what was printed -/

section Read

variable {ops : WhereOps} {c : ColumnType} {s rest : Text}

theorem Bare.wasQuoted_append (h : Bare s) (hrest : rest = [] ∨ endsValue (peek rest) = true) :
    wasQuoted (s ++ rest) = false := by
  have hpeek : peek (s ++ rest) = peek s := peek_append h.ne_nil
  have hblob : ¬ ((peek s = 120 ∨ peek s = 88) ∧ (peek (s ++ rest).tail = 39 ∨ peek (s ++ rest).tail = 34)) := by
    cases s with
    | nil => exact absurd rfl h.ne_nil
    | cons x s =>
      cases s with
      | cons y s => exact h.notBlob
      | nil =>
        rintro ⟨-, hq⟩
        have hplain : peek rest ≠ 39 ∧ peek rest ≠ 34 := by
          rcases hrest with rfl | hrest
          · exact ⟨by decide, by decide⟩
          · exact (endsValue_plain hrest).2
        exact hq.elim hplain.1 hplain.2
  unfold wasQuoted
  rw [hpeek]
  simpa [h.head.1, h.head.2.1] using hblob

/-- A bare word is read back as it is. -/
theorem parseValueTokenAlloc_bare (h : Bare s) (hlen : s.length ≤ 255) (hrest : rest = [] ∨ endsValue (peek rest) = true) :
    (parseValueTokenAlloc (s ++ rest)).1.text = s ∧
      (parseValueTokenAlloc (s ++ rest)).1.isNull = decide (s.map tolower = kwNull) ∧
      (parseValueTokenAlloc (s ++ rest)).2 = rest := by
  have hskip : skipWhitespace (s ++ rest) = s ++ rest := by
    apply skipWhitespace_self
    rw [peek_append h.ne_nil]
    exact isspace_of_endsValue (h.chars _ (peek_mem h.ne_nil)).2
  have hscan : parseValueToken (s ++ rest) ((s ++ rest).length + 1) = (s, rest) := by
    rw [h.scan hrest, Nat.add_sub_cancel, List.take_of_length_le (by rw [List.length_append]; omega)]
  have hspan : (s ++ rest).length - rest.length = s.length := by rw [List.length_append, Nat.add_sub_cancel]
  have hsmall : ¬ maxRawVal - 1 ≤ s.length := by
    have hmax : maxRawVal = 4096 := rfl
    omega
  unfold parseValueTokenAlloc
  dsimp only
  rw [hskip, hscan, h.wasQuoted_append hrest]
  dsimp only
  rw [hspan, if_neg hsmall]
  refine ⟨?_, by simp, rfl⟩
  exact List.take_of_length_le (by omega)

/-- A quoted string that ends before the end of the text was written with its quotes doubled. -/
theorem scanQuoted_inv {q : UInt8} (hrest : rest ≠ []) : ∀ {p s : Text}, scanQuoted q p = (s, rest) →
    p = Literal.escape q s ++ q :: rest
  | [], s, h => absurd (Prod.mk.inj h).2.symm hrest
  | [b], s, h => by
    rw [scanQuoted] at h
    split at h <;> exact absurd (Prod.mk.inj h).2.symm hrest
  | b :: c :: p, s, h => by
    rw [scanQuoted] at h
    split at h
    next hb =>
      split at h
      next hc =>
        obtain ⟨rfl, hr⟩ := Prod.mk.inj h
        have ih := scanQuoted_inv hrest (Prod.ext rfl hr : scanQuoted q p = ((scanQuoted q p).1, rest))
        rw [hb, hc]
        simpa [Literal.escape] using ih
      next =>
        obtain ⟨rfl, rfl⟩ := Prod.mk.inj h
        rw [hb]
        rfl
    next hb =>
      obtain ⟨rfl, hr⟩ := Prod.mk.inj h
      have ih := scanQuoted_inv hrest (Prod.ext rfl hr : scanQuoted q (c :: p) = ((scanQuoted q (c :: p)).1, rest))
      simpa [Literal.escape, hb] using ih

theorem escape_of_notMem {q : UInt8} (h : q ∉ s) : Literal.escape q s = s := by
  induction s with
  | nil => rfl
  | cons b s ih =>
    have hb : b ≠ q := fun he => h (he ▸ List.mem_cons_self ..)
    have hcons : Literal.escape q (b :: s) = b :: Literal.escape q s := by simp [Literal.escape, hb]
    rw [hcons, ih fun hm => h (List.mem_cons_of_mem _ hm)]

theorem notMem_of_length_escape {q : UInt8} (h : (Literal.escape q s).length = s.length) : q ∉ s := by
  induction s with
  | nil => exact List.not_mem_nil
  | cons b s ih =>
    have hcons : Literal.escape q (b :: s) = (if b = q then [q, q] else [b]) ++ Literal.escape q s := rfl
    have hle := length_escape s q
    rw [hcons, List.length_append, List.length_cons] at h
    by_cases hb : b = q
    · rw [if_pos hb] at h
      simp only [List.length_cons, List.length_nil] at h
      omega
    · rw [if_neg hb, List.length_singleton] at h
      exact fun hm => (List.mem_cons.mp hm).elim (fun he => hb he.symm) (ih (by omega))

theorem length_scanQuoted_le (q : UInt8) : ∀ p : Text, (scanQuoted q p).1.length ≤ p.length
  | [] => Nat.le_refl 0
  | [b] => by
    rw [scanQuoted]
    split <;> simp
  | b :: c :: p => by
    have ih := length_scanQuoted_le q p
    have ih' := length_scanQuoted_le q (c :: p)
    rw [List.length_cons] at ih'
    rw [scanQuoted]
    split
    · split
      · simp only [List.length_cons]
        omega
      · exact Nat.zero_le _
    · simp only [List.length_cons]
      omega

/-- What is read of a text that begins with a quote. -/
theorem parseValueTokenAlloc_quote {p : Text} (hp : p.length < 4095) :
    (parseValueTokenAlloc (39 :: p)).1.text = (scanQuoted 39 p).1 ∧ (parseValueTokenAlloc (39 :: p)).2 = (scanQuoted 39 p).2 := by
  have hspace : isspace (peek (39 :: p)) = false := rfl
  have hlen := length_scanQuoted_le 39 p
  have hx : ¬ ((39 : UInt8) = 120 ∨ (39 : UInt8) = 88) := by decide
  have hscan : parseValueToken (39 :: p) ((39 :: p).length + 1) = scanQuoted 39 p := by
    unfold parseValueToken
    rw [skipWhitespace_self hspace]
    dsimp only [peek_cons, List.tail_cons]
    simp only [hx, false_and, if_false, true_or, if_true, Nat.add_sub_cancel]
    rw [List.take_of_length_le (by rw [List.length_cons]; omega)]
  unfold parseValueTokenAlloc
  dsimp only
  rw [skipWhitespace_self hspace, hscan]
  refine ⟨?_, rfl⟩
  have hmax : maxRawVal - 1 = 4095 := rfl
  rw [hmax]
  unfold ValueToken.text
  dsimp only
  split
  · rfl
  · exact List.take_of_length_le (by omega)

/-- A text between two quotes, through `val_str`, is read back exactly if it fits and has no quote and no 0. -/
theorem readsAs_quoted_iff (v : Value) (hc : ∀ raw, SameAs ops c raw v ↔ raw = v.textVal) :
    ReadsAs ops c ((39 :: (v.str ++ [39])).take 255) (some v) ↔
      v.textVal.length ≤ 253 ∧ 39 ∉ v.textVal ∧ 0 ∉ v.textVal := by
  constructor
  · intro h
    obtain ⟨hrest, -, hsame⟩ := h [32] (Or.inr rfl)
    have hcut : (39 :: (v.str ++ [39])).take 255 ++ [32] = 39 :: ((v.str ++ [39]).take 254 ++ [32]) := rfl
    have hshort : ((v.str ++ [39]).take 254 ++ [32]).length < 4095 := by
      rw [List.length_append, List.length_take, List.length_singleton]
      omega
    have hread := parseValueTokenAlloc_quote hshort
    rw [← hcut] at hread
    rw [hc, hread.1] at hsame
    rw [hread.2] at hrest
    have hinv := scanQuoted_inv (List.cons_ne_nil 32 []) (Prod.ext hsame hrest)
    have hbody : (v.str ++ [39]).take 254 = Literal.escape 39 v.textVal ++ [39] :=
      List.append_cancel_right (hinv.trans (by simp))
    have hlength := congrArg List.length hbody
    have hescape := length_escape v.textVal 39
    have hsub : List.Sublist v.str v.textVal := List.takeWhile_sublist _
    have hprinted := hsub.length_le
    simp only [List.length_append, List.length_take, List.length_singleton] at hlength
    refine ⟨by omega, notMem_of_length_escape (by omega), fun hzero => ?_⟩
    have hstr : v.str = v.textVal := hsub.eq_of_length (by omega)
    have hmem : (0 : UInt8) ∈ v.textVal.takeWhile (fun b => decide (b ≠ 0)) := by
      have hsame : v.textVal.takeWhile (fun b => decide (b ≠ 0)) = v.textVal := hstr
      rwa [hsame]
    simpa using List.mem_takeWhile_imp hmem
  · rintro ⟨hlen, hquote, hzero⟩ rest hrest
    have hstr : v.str = v.textVal := List.takeWhile_eq_self_iff.mpr fun b hb =>
      decide_eq_true fun hb0 : b = 0 => hzero (hb0 ▸ hb)
    have hpeek : peek rest ≠ quoteChar false := by
      rcases hrest with rfl | hrest
      · decide
      · exact (endsValue_plain hrest).2.1
    have htext : (39 :: (v.str ++ [39])).take 255 = quoteText false v.textVal := by
      have hescape : Literal.escape (quoteChar false) v.textVal = v.textVal := escape_of_notMem hquote
      rw [hstr, List.take_of_length_le (by simp; omega), quoteText, hescape]
      rfl
    have hread := parseValueTokenAlloc_quoted false v.textVal ⟨[], by simp⟩ hpeek
    rw [List.nil_append] at hread
    rw [htext]
    exact ⟨hread.2.2, hread.2.1, (hc _).mpr hread.1⟩

theorem bare_of_digits (hne : s ≠ []) (h : ∀ b ∈ s, isdigit b = true ∨ b = 45) : Bare s := by
  have hchar : ∀ b : UInt8, isdigit b = true ∨ b = 45 →
      (b ≠ 0 ∧ endsValue b = false) ∧ (b ≠ 39 ∧ b ≠ 34 ∧ b ≠ 91 ∧ b ≠ 62) ∧ b ≠ 120 ∧ b ≠ 88 :=
    byte_cases (by decide +kernel)
  have hhead := (hchar _ (h _ (peek_mem hne))).2
  exact ⟨hne, fun b hb => (hchar b (h b hb)).1, hhead.1, fun hblob => hblob.1.elim hhead.2.1 hhead.2.2⟩

theorem printInt_chars (x : BitVec 32) : ∀ b ∈ printInt x, isdigit b = true ∨ b = 45 := by
  have hdigits := isdigit_toDigits x.toInt.natAbs
  intro b hb
  unfold printInt at hb
  dsimp only at hb
  split at hb
  · exact (List.mem_cons.mp hb).elim Or.inr fun hm => Or.inl (hdigits b hm)
  · exact Or.inl (hdigits b hb)

theorem bare_printInt (x : BitVec 32) : Bare (printInt x) := bare_of_digits (printInt_ne_nil x) (printInt_chars x)

theorem printInt_lower (x : BitVec 32) : (printInt x).map tolower ≠ kwNull := by
  intro h
  apply printInt_not_null x
  have hself : strcasecmp (printInt x) kwNull = strcmp kwNull kwNull := by
    rw [strcasecmp, h]
    rfl
  rw [hself]
  decide

/-- A bare word that fits into `val_str` and is not NULL reads as the value exactly if it gives it. -/
theorem readsAs_bare_iff {v : Value} (h : Bare s) (hlen : s.length ≤ 255) (hnull : s.map tolower ≠ kwNull) :
    ReadsAs ops c (s.take 255) (some v) ↔ SameAs ops c s v := by
  rw [List.take_of_length_le hlen]
  have hread := fun rest hrest => @parseValueTokenAlloc_bare s rest h hlen hrest
  constructor
  · intro hreads
    have hsame := (hreads [] (Or.inl rfl)).2.2
    rwa [(hread [] (Or.inl rfl)).1] at hsame
  · intro hsame rest hrest
    obtain ⟨htext, hisNull, hrest'⟩ := hread rest hrest
    refine ⟨hrest', ?_, ?_⟩
    · rw [hisNull]
      exact decide_eq_false hnull
    · rwa [htext]

/-- What is written for a value reads as the value exactly if the value survives. -/
theorem readsAs_iff (hprint : PrintsNumbers ops) (v : Option Value) :
    ReadsAs ops c (pastedText ops c v) v ↔ Pastes ops c v := by
  cases v with
  | none =>
    refine iff_of_true (fun rest hrest => ?_) trivial
    have hbare : Bare kwNullUpper := ⟨by decide, by decide +kernel, by decide +kernel, by decide +kernel⟩
    obtain ⟨-, hnull, hrest'⟩ := parseValueTokenAlloc_bare hbare (by decide) hrest
    exact ⟨hrest', hnull⟩
  | some v =>
    have hnumber : ∀ x, ReadsAs ops c ((ops.printDouble x).take 255) (some v) ↔ SameAs ops c (ops.printDouble x) v :=
      fun x => readsAs_bare_iff (hprint.bare x) (hprint.short x) (hprint.notNull x)
    unfold pastedText Pastes
    cases c with
    | int =>
      have hlen := length_printInt v.intVal
      exact (readsAs_bare_iff (bare_printInt _) (by omega) (printInt_lower _)).trans
        (iff_true_intro (atoi_printInt v.intVal))
    | bool =>
      have hdigit : ∀ b : Bool, Bare (if b then [49] else [48]) ∧ (if b then [49] else [48] : Text).length ≤ 255 ∧
          (if b then [49] else [48] : Text).map tolower ≠ kwNull ∧ boolOf (if b then [49] else [48]) = b := by
        intro b
        refine ⟨bare_of_digits ?_ ?_, ?_⟩ <;> cases b <;> decide +kernel
      obtain ⟨hbare, hlen, hnull, hvalue⟩ := hdigit v.boolVal
      exact (readsAs_bare_iff hbare hlen hnull).trans (iff_true_intro hvalue)
    | float => exact hnumber _
    | double | numeric | decimal => exact hnumber _
    | text | varchar | blob | date | time | datetime | timestamp | vector =>
      exact readsAs_quoted_iff v fun raw => Iff.rfl

end Read

/-! ## The pieces -/

section Pieces

variable {cols : List Column} {prev : UInt8} {p : Text}

/-- A column's name has at most 31 characters. -/
theorem length_of_findColumnCI {name : Text} {k : Nat} (hname : 0 ∉ name) (h : findColumnCI cols name = some k) :
    name.length ≤ 31 := by
  obtain ⟨hk, heq, -⟩ := List.findIdx?_eq_some_iff_getElem.mp h
  have hlower : ∀ {s : Text}, 0 ∉ s → 0 ∉ s.map tolower := fun hs hm => by
    obtain ⟨b, hb, h0⟩ := List.mem_map.mp hm
    exact tolower_ne_zero (fun he => hs (he ▸ hb)) h0
  have hstr : (0 : UInt8) ∉ cols[k].name.str := fun hm => by
    simpa using List.mem_takeWhile_imp hm
  have hmap := eq_of_strcmp (hlower hstr) (hlower hname) (of_decide_eq_true heq)
  have hlen := congrArg List.length hmap
  rw [List.length_map, List.length_map] at hlen
  have hlt := cols[k].name.length_str_lt
  omega

theorem zero_notMem_word (p : Text) : (0 : UInt8) ∉ p.takeWhile isWordChar := fun hm =>
  absurd (List.mem_takeWhile_imp hm) (by decide)

set_option maxRecDepth 4000 in
theorem letter_not_digit {b : UInt8} : tolower b = 110 ∨ tolower b = 111 → isdigit b = false ∧ b ≠ 45 :=
  byte_cases (P := fun b => tolower b = 110 ∨ tolower b = 111 → isdigit b = false ∧ b ≠ 45) (by decide) b

theorem peek_of_startsCI {kw : Text} {k : UInt8} (h : startsCI (k :: kw) p = true) : tolower (peek p) = k := by
  have hmap : (p.take (kw.length + 1)).map tolower = k :: kw := of_decide_eq_true h
  cases p with
  | nil => cases hmap
  | cons b p => exact (List.cons.inj hmap).1

/-- To read a name up to 31 characters changes a piece only where it makes a reference of a letter. -/
theorem nextPiece_cases {limit : Nat} (hlimit : p.length ≤ limit) :
    nextPiece cols 31 prev p = nextPiece cols limit prev p ∨
      ∃ isNew k b, (nextPiece cols 31 prev p).1 = .ref isNew k ∧ (nextPiece cols limit prev p).1 = .copied [b] ∧
        isdigit b = false ∧ b ≠ 45 := by
  unfold nextPiece
  by_cases hquote : peek p = 39 ∨ peek p = 34
  · rw [if_pos hquote, if_pos hquote]
    exact Or.inl rfl
  rw [if_neg hquote, if_neg hquote]
  by_cases href : ((startsCI kwNew p || startsCI kwOld p) && !isWordChar prev) = true
  swap
  · rw [if_neg href, if_neg href]
    exact Or.inl rfl
  rw [if_pos href, if_pos href]
  dsimp only
  have hword := zero_notMem_word (p.drop 4)
  have hwhole : ((p.drop 4).takeWhile isWordChar).take limit = (p.drop 4).takeWhile isWordChar := by
    have hsub := (List.takeWhile_sublist isWordChar : List.Sublist ((p.drop 4).takeWhile isWordChar) _).length_le
    rw [List.length_drop] at hsub
    exact List.take_of_length_le (by omega)
  rw [hwhole]
  generalize (p.drop 4).takeWhile isWordChar = name at hword
  by_cases hlen : name.length ≤ 31
  · rw [List.take_of_length_le hlen]
    exact Or.inl rfl
  have hnone : findColumnCI cols name = none := by
    cases hfind : findColumnCI cols name with
    | none => rfl
    | some k => exact absurd (length_of_findColumnCI hword hfind) hlen
  rw [hnone]
  cases hfind : findColumnCI cols (name.take 31) with
  | none => exact Or.inl rfl
  | some k =>
    refine Or.inr ⟨_, k, _, rfl, rfl, letter_not_digit ?_⟩
    rw [Bool.and_eq_true, Bool.or_eq_true] at href
    exact href.1.imp peek_of_startsCI peek_of_startsCI

theorem nextPiece_pos (limit : Nat) (prev : UInt8) (p : Text) : 1 ≤ (nextPiece cols limit prev p).2 := by
  unfold nextPiece
  split
  · exact Nat.succ_le_succ (Nat.zero_le _)
  · split
    · dsimp only
      split
      · dsimp only
        omega
      · exact Nat.le_refl 1
    · exact Nat.le_refl 1

/-- What a piece is made of: the text that is copied, or NEW. or OLD. before the column's name. -/
def MadeOf (cols : List Column) : Piece → Text → Prop
  | .copied t, s => s = t
  | .ref isNew k, s => ∃ word name, s = word ++ name ∧ word.map tolower = (if isNew then kwNew else kwOld) ∧
      findColumnCI cols name = some k

theorem quotedPiece_take (hp : p ≠ []) : quotedPiece p = p.take (quotedPiece p).length := by
  cases p with
  | nil => exact absurd rfl hp
  | cons b p =>
    have hinner : p = p.takeWhile (· ≠ b) ++ p.drop (p.takeWhile (· ≠ b)).length := by
      conv_lhs => rw [← List.take_append_drop (p.takeWhile (· ≠ b)).length p]
      rw [← List.prefix_iff_eq_take.mp (List.takeWhile_prefix _)]
    have hpre : quotedPiece (b :: p) <+: b :: p := by
      show b :: (p.takeWhile (· ≠ b) ++ (p.drop (p.takeWhile (· ≠ b)).length).take 1) <+: b :: p
      rw [List.cons_prefix_cons, and_iff_right rfl]
      conv_rhs => rw [hinner]
      exact (List.prefix_append_right_inj _).mpr (List.take_prefix ..)
    exact List.prefix_iff_eq_take.mp hpre

theorem madeOf_nextPiece {limit : Nat} (hp : p ≠ []) (hlimit : p.length ≤ limit) :
    MadeOf cols (nextPiece cols limit prev p).1 (p.take (nextPiece cols limit prev p).2) := by
  have hchar : p.take 1 = [peek p] := by
    cases p with
    | nil => exact absurd rfl hp
    | cons b p => rfl
  unfold nextPiece
  split
  · exact (quotedPiece_take hp).symm
  · split
    next href =>
      dsimp only
      split
      next k hfind =>
        rw [Bool.and_eq_true, Bool.or_eq_true] at href
        refine ⟨p.take 4, _, ?_, ?_, hfind⟩
        · rw [List.take_add, List.append_right_inj]
          have hpre : ((p.drop 4).takeWhile isWordChar).take limit <+: p.drop 4 :=
            (List.take_prefix ..).trans (List.takeWhile_prefix _)
          exact (List.prefix_iff_eq_take.mp hpre).symm
        · cases hnew : startsCI kwNew p with
          | true => exact of_decide_eq_true hnew
          | false =>
            rw [hnew] at href
            exact of_decide_eq_true (href.1.resolve_left Bool.false_ne_true)
      next => exact hchar
    next => exact hchar

/-- The pieces, one behind the other, are the action. -/
theorem pieces_cover {limit fuel : Nat} (hfuel : p.length ≤ fuel) (hlimit : p.length ≤ limit) :
    ∃ parts : List Text, parts.flatten = p ∧ List.Forall₂ (MadeOf cols) (pieces cols limit fuel prev p) parts := by
  induction fuel generalizing prev p with
  | zero => exact ⟨[], (List.length_eq_zero_iff.mp (Nat.le_zero.mp hfuel)).symm, List.Forall₂.nil⟩
  | succ fuel ih =>
    rw [pieces]
    split
    next hp => exact ⟨[], hp.symm, List.Forall₂.nil⟩
    next hp =>
      have hpos := @nextPiece_pos cols limit prev p
      have hshort : (p.drop (nextPiece cols limit prev p).2).length ≤ fuel := by
        rw [List.length_drop]
        omega
      have hbound : (p.drop (nextPiece cols limit prev p).2).length ≤ limit := by
        rw [List.length_drop]
        omega
      obtain ⟨parts, hflatten, hmade⟩ := @ih (charAt p ((nextPiece cols limit prev p).2 - 1)) _ hshort hbound
      refine ⟨p.take (nextPiece cols limit prev p).2 :: parts, ?_, List.Forall₂.cons (madeOf_nextPiece hp hlimit) hmade⟩
      rw [List.flatten_cons, hflatten, List.take_append_drop]

end Pieces

/-! ## When the action is expanded as it should be -/

section Faithful

variable {ops : WhereOps} {cols : List Column} {old new : Option (List Value)} {room limit o : Nat}

/-- A value is never written as one letter. -/
theorem pastedText_ne_letter (hprint : PrintsNumbers ops) (c : ColumnType) (v : Option Value) {b : UInt8}
    (hb : isdigit b = false ∧ b ≠ 45) : pastedText ops c v ≠ [b] := by
  have htake : ∀ {s : Text}, s.length ≤ 255 → s ≠ [b] → s.take 255 ≠ [b] := fun hlen hne => by
    rwa [List.take_of_length_le hlen]
  have hnumber : ∀ x, (ops.printDouble x).take 255 ≠ [b] := fun x =>
    htake (hprint.short x) fun h => absurd (hprint.single x b h) (by simp [hb.1])
  cases v with
  | none => exact fun h => by cases h
  | some v =>
    unfold pastedText
    cases c with
    | int =>
      have hlen := length_printInt v.intVal
      dsimp only
      refine htake (by omega) fun h => ?_
      have hmem : b ∈ printInt v.intVal := by rw [h]; exact List.mem_singleton_self b
      rcases printInt_chars v.intVal b hmem with hdigit | hminus
      · rw [hb.1] at hdigit
        cases hdigit
      · exact hb.2 hminus
    | bool =>
      dsimp only
      refine htake (by split <;> decide) fun h => ?_
      split at h
      · obtain rfl := (List.cons.inj h).1
        exact absurd hb.1 (by decide)
      · obtain rfl := (List.cons.inj h).1
        exact absurd hb.1 (by decide)
    | float | double | numeric | decimal => exact hnumber _
    | text | varchar | blob | date | time | datetime | timestamp | vector =>
      intro h
      have hlen := congrArg List.length h
      simp at hlen

/-- A value is never written as nothing. -/
theorem pastedText_pos (hprint : PrintsNumbers ops) (c : ColumnType) (v : Option Value) :
    1 ≤ (pastedText ops c v).length := by
  have htake : ∀ {s : Text}, s ≠ [] → 1 ≤ (s.take 255).length := fun hne => by
    have hpos := List.length_pos_of_ne_nil hne
    rw [List.length_take]
    omega
  cases v with
  | none => exact Nat.succ_le_succ (Nat.zero_le _)
  | some v =>
    unfold pastedText
    cases c with
    | int => exact htake (printInt_ne_nil _)
    | bool =>
      dsimp only
      split
      · exact Nat.le_refl 1
      · exact Nat.le_refl 1
    | float | double | numeric | decimal => exact htake (hprint.bare _).ne_nil
    | text | varchar | blob | date | time | datetime | timestamp | vector =>
      dsimp only
      exact htake (List.cons_ne_nil _ _)

/-- Nothing is no literal: the reader takes what comes next. -/
theorem not_readsAs_nil (c : ColumnType) (v : Option Value) : ¬ ReadsAs ops c [] v := fun h => by
  have hrest := (h [32, 120] (Or.inr rfl)).1
  revert hrest
  decide

/-- A piece is written as it should be exactly if there is room for it and its value survives. -/
theorem rendered_iff (hprint : PrintsNumbers ops) (ho : o ≤ room) (piece : Piece) :
    Rendered ops cols old new piece (writePiece ops cols old new room o piece) ↔
      o + pieceLength ops cols old new piece ≤ room ∧ PiecePastes ops cols old new piece := by
  cases piece with
  | copied t =>
    show t.take (room - o) = t ↔ o + t.length ≤ room ∧ True
    rw [List.take_eq_self_iff, and_true]
    omega
  | ref isNew k =>
    show ReadsAs ops _ (if o + (refText ops cols old new isNew k).length ≤ room then _ else []) _ ↔
      o + (refText ops cols old new isNew k).length ≤ room ∧ _
    split
    next hfits =>
      rw [and_iff_right hfits]
      exact readsAs_iff hprint _
    next hfits => exact iff_of_false (not_readsAs_nil _ _) fun h => hfits h.1

theorem length_writePiece {piece : Piece} (hfits : o + pieceLength ops cols old new piece ≤ room) :
    (writePiece ops cols old new room o piece).length = pieceLength ops cols old new piece := by
  cases piece with
  | copied t =>
    have hlen : o + t.length ≤ room := hfits
    show (t.take (room - o)).length = t.length
    rw [List.take_of_length_le (by omega)]
  | ref isNew k =>
    have hlen : o + (refText ops cols old new isNew k).length ≤ room := hfits
    show (if o + (refText ops cols old new isNew k).length ≤ room then refText ops cols old new isNew k else []).length = _
    rw [if_pos hlen]
    rfl

theorem pieceLength_pos (hprint : PrintsNumbers ops) (limit : Nat) (prev : UInt8) (p : Text) :
    1 ≤ pieceLength ops cols old new (nextPiece cols limit prev p).1 := by
  have hchar : 1 ≤ pieceLength ops cols old new (.copied [peek p]) := Nat.le_refl 1
  unfold nextPiece
  split
  · exact Nat.succ_le_succ (Nat.zero_le _)
  · split
    · dsimp only
      split
      · exact pastedText_pos hprint _ _
      · exact hchar
    · exact hchar

/-- The loop from any turn on: induction on the turns, `o` bytes being written. -/
theorem expandTurns_iff (hprint : PrintsNumbers ops) (fuel : Nat) {prev : UInt8} {p : Text} (ho : o ≤ room)
    (hlimit : p.length ≤ limit) :
    List.Forall₂ (Rendered ops cols old new) (pieces cols limit fuel prev p)
        (expandTurns ops cols old new room fuel o prev p) ↔
      pieces cols 31 fuel prev p = pieces cols limit fuel prev p ∧
        o + ((pieces cols limit fuel prev p).map (pieceLength ops cols old new)).sum ≤ room ∧
        ∀ piece ∈ pieces cols limit fuel prev p, PiecePastes ops cols old new piece := by
  induction fuel generalizing o prev p with
  | zero => simp [pieces, expandTurns, ho]
  | succ fuel ih =>
    rw [pieces, pieces, expandTurns]
    by_cases hp : p = []
    · simp [hp, ho]
    rw [if_neg hp, if_neg hp]
    have hpos := @pieceLength_pos ops cols old new hprint limit prev p
    by_cases hroom : room ≤ o
    · rw [if_pos (Or.inr hroom)]
      refine iff_of_false (fun h => by cases h) fun h => ?_
      have hsum := h.2.1
      rw [List.map_cons, List.sum_cons] at hsum
      omega
    rw [if_neg (not_or.mpr ⟨hp, hroom⟩)]
    dsimp only
    rcases @nextPiece_cases cols prev p limit hlimit with hsame | ⟨isNew, k, b, href, hcopied, hb⟩
    · rw [hsame]
      generalize hpiece : nextPiece cols limit prev p = piece at hpos
      have hhead := @rendered_iff ops cols old new room o hprint ho piece.1
      have hdrop : (p.drop piece.2).length ≤ limit := by
        rw [List.length_drop]
        omega
      rw [List.forall₂_cons, List.map_cons, List.sum_cons, List.forall_mem_cons, hhead, List.cons.injEq,
        and_iff_right rfl]
      by_cases hfits : o + pieceLength ops cols old new piece.1 ≤ room
      · rw [length_writePiece hfits, ih hfits hdrop, and_iff_right hfits, Nat.add_assoc]
        tauto
      · refine iff_of_false (fun h => hfits h.1.1) fun h => hfits ?_
        have hsum := h.2.1
        omega
    · refine iff_of_false (fun h => ?_) fun h => ?_
      · -- a value stands where the text goes on
        rw [List.forall₂_cons] at h
        have hwritten : (nextPiece cols limit prev p).1 = .copied [b] →
            writePiece ops cols old new room o (nextPiece cols 31 prev p).1 = [b] := fun he => by
          have hhead := h.1
          rw [he] at hhead
          exact hhead
        have hone := hwritten hcopied
        rw [href] at hone
        dsimp only [writePiece] at hone
        split at hone
        · exact pastedText_ne_letter hprint _ _ hb hone
        · cases hone
      · have hpieces := (List.cons.inj h.1).1
        rw [href, hcopied] at hpieces
        cases hpieces

/-- Every piece of the action, to the last, is written as it should be exactly if no name behind NEW. or OLD. is cut to
a column's, everything fits into the output, and the value of each reference survives. -/
theorem expand_faithful_iff (hprint : PrintsNumbers ops) (room : Nat) (action : Text) :
    Faithful ops cols old new room action ↔
      pieces cols 31 action.length 0 action = pieces cols action.length action.length 0 action ∧
        ((pieces cols action.length action.length 0 action).map (pieceLength ops cols old new)).sum ≤ room ∧
        ∀ piece ∈ pieces cols action.length action.length 0 action, PiecePastes ops cols old new piece := by
  have h := @expandTurns_iff ops cols old new room action.length 0 hprint action.length 0 action (Nat.zero_le _) (Nat.le_refl _)
  rwa [Nat.zero_add] at h

end Faithful

/-! ## A name with an apostrophe -/

theorem intOps_prints : PrintsNumbers intOps := by
  refine ⟨fun x => bare_of_digits (List.cons_ne_nil _ _) fun b hb => ?_, fun _ => ?_, fun _ => ?_, fun x b h => ?_⟩
  · rw [List.mem_singleton.mp hb]
    exact Or.inl rfl
  · show ([48] : Text).length ≤ 255
    decide
  · show ([48] : Text).map tolower ≠ kwNull
    decide
  · rw [← (List.cons.inj h).1]
    rfl

/-- `f(new.a)` with 1 in `a` becomes `f(1)`. -/
theorem expand_int : expandTriggerSql intOps [columnA] none (some [one]) 1023 [102, 40, 110, 101, 119, 46, 97, 41] =
      [102, 40, 49, 41] ∧
    Faithful intOps [columnA] none (some [one]) 1023 [102, 40, 110, 101, 119, 46, 97, 41] := by
  refine ⟨by decide +kernel, (expand_faithful_iff intOps_prints 1023 _).mpr ⟨by decide +kernel, by decide +kernel, ?_⟩⟩
  have hpieces : pieces [columnA] 8 8 0 [102, 40, 110, 101, 119, 46, 97, 41] =
      [.copied [102], .copied [40], .ref true 0, .copied [41]] := by
    decide +kernel
  intro piece hpiece
  have hmem : piece ∈ pieces [columnA] 8 8 0 [102, 40, 110, 101, 119, 46, 97, 41] := hpiece
  rw [hpieces] at hmem
  simp only [List.mem_cons, List.not_mem_nil, or_false] at hmem
  rcases hmem with rfl | rfl | rfl | rfl <;> trivial

/-- The column `a TEXT`, and `O'N`. -/
def textColumnA : Column := { columnA with type := .text }
def apostrophe : Value := { Value.init with textVal := [79, 39, 78], textLen := 3 }

/-- `new.a` with `O'N` in `a` becomes `'O'N'`, of which the reader takes `O`. -/
theorem apostrophe_broken : expandTriggerSql intOps [textColumnA] none (some [apostrophe]) 1023 [110, 101, 119, 46, 97] =
      [39, 79, 39, 78, 39] ∧
    ¬ ∀ (ops : WhereOps) (cols : List Column) (old new : Option (List Value)) (action : Text), PrintsNumbers ops →
      Faithful ops cols old new 1023 action := by
  refine ⟨by decide +kernel, fun h => ?_⟩
  have hall := (@expandTurns_iff intOps [textColumnA] none (some [apostrophe]) 1023 5 0 intOps_prints 5 0
    [110, 101, 119, 46, 97] (Nat.zero_le _) (Nat.le_refl _)).mp
    (h intOps [textColumnA] none (some [apostrophe]) [110, 101, 119, 46, 97] intOps_prints)
  have hpieces : pieces [textColumnA] 5 5 0 [110, 101, 119, 46, 97] = [.ref true 0] := by decide +kernel
  rw [hpieces] at hall
  have hpastes : (39 : UInt8) ∉ [79, 39, 78] := (hall.2.2 _ (List.mem_singleton_self _)).2.1
  exact hpastes (by decide)

end CustomDB
