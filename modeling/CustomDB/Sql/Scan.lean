import CustomDB.Sql.Written

/-!
# Scanning what was written

The parser's helpers give back the pieces a clause is written with, whatever follows them.
-/

namespace CustomDB

variable {p rest : Text} {b : UInt8}

/-! ## Characters -/

/-- A property of bytes holds where it holds of the 256 of them. -/
theorem byte_cases {P : UInt8 → Prop} (h : ∀ n < 256, P (UInt8.ofNat n)) (b : UInt8) : P b := by
  have hb := h b.toNat b.toNat_lt
  rwa [UInt8.ofNat_toNat] at hb

set_option maxRecDepth 4000 in
theorem isspace_of_isIdent : isIdent b = true → isspace b = false :=
  byte_cases (P := fun b => isIdent b = true → isspace b = false) (by decide) b

set_option maxRecDepth 4000 in
/-- Only a letter becomes a small letter. -/
theorem isIdent_of_tolower : 97 ≤ tolower b ∧ tolower b ≤ 122 → isIdent b = true :=
  byte_cases (P := fun b => 97 ≤ tolower b ∧ tolower b ≤ 122 → isIdent b = true) (by decide) b

set_option maxRecDepth 4000 in
/-- What ends a value is no character of an identifier and no quote. -/
theorem endsValue_plain : endsValue b = true → isIdent b = false ∧ b ≠ 39 ∧ b ≠ 34 :=
  byte_cases (P := fun b => endsValue b = true → isIdent b = false ∧ b ≠ 39 ∧ b ≠ 34) (by decide) b

theorem endsValue_of_isspace (h : isspace b = true) : endsValue b = true := by
  simp [endsValue, h]

theorem isspace_of_endsValue (h : endsValue b = false) : isspace b = false := by
  cases hs : isspace b with
  | false => rfl
  | true => rw [endsValue_of_isspace hs] at h; exact h

@[simp] theorem peek_nil : peek [] = 0 := rfl

@[simp] theorem peek_cons (b : UInt8) (p : Text) : peek (b :: p) = b := rfl

theorem peek_append (h : p ≠ []) : peek (p ++ rest) = peek p := by
  cases p with
  | nil => exact absurd rfl h
  | cons b p => rfl

theorem peek_mem (h : p ≠ []) : peek p ∈ p := by
  cases p with
  | nil => exact absurd rfl h
  | cons b p => exact List.mem_cons_self ..

theorem charAt_zero (p : Text) : charAt p 0 = peek p := by
  cases p <;> rfl

theorem charAt_append {k : Nat} (h : k < p.length) : charAt (p ++ rest) k = charAt p k := by
  simp [charAt, List.getElem?_append_left h]

theorem charAt_append_length (p rest : Text) : charAt (p ++ rest) p.length = peek rest := by
  cases rest <;> simp [charAt, peek]

theorem charAt_mem {k : Nat} (h : k < p.length) : charAt p k ∈ p := by
  rw [charAt, List.getD_eq_getElem _ _ h]
  exact List.getElem_mem h

/-! ## Comparing strings -/

theorem strcmp_self : ∀ s : Text, strcmp s s = .eq
  | [] => rfl
  | b :: s => by rw [strcmp, if_pos rfl, strcmp_self s, ite_self]

theorem eq_of_strcmp : ∀ {s t : Text}, 0 ∉ s → 0 ∉ t → strcmp s t = .eq → s = t
  | [], [], _, _, _ => rfl
  | [], y :: t, _, ht, h => by
    have hy : ¬ y = 0 := fun he => ht (he ▸ List.mem_cons_self ..)
    rw [strcmp, if_neg hy] at h
    cases h
  | x :: s, [], hs, _, h => by
    have hx : ¬ x = 0 := fun he => hs (he ▸ List.mem_cons_self ..)
    rw [strcmp, if_neg hx] at h
    cases h
  | x :: s, y :: t, hs, ht, h => by
    rw [strcmp] at h
    split at h
    next hxy =>
      have hx : ¬ x = 0 := fun he => hs (he ▸ List.mem_cons_self ..)
      rw [if_neg hx] at h
      rw [hxy, eq_of_strcmp (fun hm => hs (List.mem_cons_of_mem _ hm)) (fun hm => ht (List.mem_cons_of_mem _ hm)) h]
    next => split at h <;> cases h

set_option maxRecDepth 4000 in
theorem tolower_ne_zero {b : UInt8} : b ≠ 0 → tolower b ≠ 0 :=
  byte_cases (P := fun b => b ≠ 0 → tolower b ≠ 0) (by decide) b

/-- What is read up to the terminator has none. -/
theorem zero_notMem_takeWhile (s : Text) : 0 ∉ s.takeWhile (· ≠ 0) := fun h => by simpa using List.mem_takeWhile_imp h

/-! ## Blanks and words -/

theorem skipWhitespace_blank (g : Blank) (p : Text) : skipWhitespace (g.text ++ p) = skipWhitespace p :=
  List.dropWhile_append_of_pos g.space

theorem skipWhitespace_self (h : isspace (peek p) = false) : skipWhitespace p = p := by
  cases p with
  | nil => rfl
  | cons b p => exact List.dropWhile_cons_of_neg (by simpa using h)

theorem skipWhitespace_idem (p : Text) : skipWhitespace (skipWhitespace p) = skipWhitespace p := by
  induction p with
  | nil => rfl
  | cons b p ih =>
    cases hb : isspace b with
    | true =>
      have hskip : skipWhitespace (b :: p) = skipWhitespace p := List.dropWhile_cons_of_pos hb
      rw [hskip, ih]
    | false => rw [skipWhitespace_self (p := b :: p) hb, skipWhitespace_self (p := b :: p) hb]

theorem Blank.peek_space (g : Blank) (h : g.text ≠ []) : isspace (peek (g.text ++ rest)) = true := by
  rw [peek_append h]
  exact g.space _ (peek_mem h)

theorem Keyword.length {kw : Text} (w : Keyword kw) : w.val.length = kw.length := by
  have hmap := congrArg List.length w.property
  rwa [List.length_map] at hmap

/-- A keyword is where it was written. -/
theorem Keyword.starts {t : Text} (w : Keyword t) (rest : Text) : startsCI t (w.val ++ rest) = true := by
  rw [startsCI, List.take_append_of_le_length (by rw [w.length]), List.take_of_length_le (by rw [w.length])]
  exact decide_eq_true w.property

theorem Keyword.drop {t : Text} (w : Keyword t) (rest : Text) {n : Nat} (hn : t.length = n) :
    (w.val ++ rest).drop n = rest := by
  rw [← hn, ← w.length, List.drop_left]

/-- The characters of a keyword, in small letters. -/
theorem Keyword.char {kw : Text} (w : Keyword kw) (rest : Text) {k : Nat} (hk : k < kw.length) :
    tolower (charAt (w.val ++ rest) k) = charAt kw k := by
  have hw : k < w.val.length := by rw [w.length]; exact hk
  rw [charAt_append hw]
  have hmap : charAt (w.val.map tolower) k = tolower (charAt w.val k) := by
    simp [charAt, List.getElem?_eq_getElem hw]
  rw [← hmap, w.property]

theorem Keyword.first {kw : Text} (w : Keyword kw) (hlen : 0 < kw.length) (rest : Text) :
    tolower (peek (w.val ++ rest)) = charAt kw 0 := by
  rw [← charAt_zero]
  exact w.char rest hlen

/-- In front of a keyword there is no other letter than its first. -/
theorem Keyword.peek_ne {kw : Text} (w : Keyword kw) (hlen : 0 < kw.length) {c : UInt8} (hc : tolower c ≠ charAt kw 0)
    (rest : Text) : peek (w.val ++ rest) ≠ c := by
  rintro rfl
  exact hc (w.first hlen rest)

/-- A text that differs from a keyword in one place does not start with it. -/
theorem startsCI_false {kw : Text} {k : Nat} (hk : k < kw.length) (h : tolower (charAt p k) ≠ charAt kw k) :
    startsCI kw p = false := by
  rw [startsCI, decide_eq_false_iff_not]
  intro heq
  have hlen : k < p.length := by
    have := congrArg List.length heq
    simp at this
    omega
  apply h
  rw [← heq]
  simp [charAt, hlen, hk]

/-! ## Identifiers -/

theorem parseIdentifier_append {col : Text} (hne : col ≠ []) (hid : ∀ b ∈ col, isIdent b = true)
    (hrest : isIdent (peek rest) = false) (n : Nat) :
    parseIdentifier (col ++ rest) n = (col.take (n - 1), rest) := by
  have hskip : skipWhitespace (col ++ rest) = col ++ rest := by
    apply skipWhitespace_self
    rw [peek_append hne]
    exact isspace_of_isIdent (hid _ (peek_mem hne))
  have hstop : rest.takeWhile isIdent = [] ∧ rest.dropWhile isIdent = rest := by
    cases rest with
    | nil => exact ⟨rfl, rfl⟩
    | cons b rest =>
      have hb : ¬ isIdent b = true := by simpa using hrest
      exact ⟨List.takeWhile_cons_of_neg hb, List.dropWhile_cons_of_neg hb⟩
  unfold parseIdentifier
  dsimp only
  rw [hskip, List.takeWhile_append_of_pos hid, List.dropWhile_append_of_pos hid, hstop.1, hstop.2, List.append_nil]

/-- A word of small letters starts a text only where it starts the identifier in front. -/
theorem startsCI_ident {kw col : Text} (hkw : ∀ b ∈ kw, 97 ≤ b ∧ b ≤ 122) (hrest : isIdent (peek rest) = false)
    (h : startsCI kw col = false) : startsCI kw (col ++ rest) = false := by
  by_cases hlen : kw.length ≤ col.length
  · rw [startsCI, List.take_append_of_le_length hlen]
    exact h
  · refine startsCI_false (k := col.length) (by omega) ?_
    rw [charAt_append_length]
    intro heq
    have hmem := hkw _ (charAt_mem (p := kw) (k := col.length) (by omega))
    rw [← heq] at hmem
    rw [isIdent_of_tolower hmem] at hrest
    cases hrest

/-! ## Values -/

theorem scanQuoted_cons {q : UInt8} (hb : b ≠ q) (p : Text) :
    scanQuoted q (b :: p) = (b :: (scanQuoted q p).1, (scanQuoted q p).2) := by
  cases p with
  | nil => simp [scanQuoted, hb]
  | cons c p => rw [scanQuoted, if_neg hb]

theorem scanQuoted_close {q : UInt8} (h : peek rest ≠ q) : scanQuoted q (q :: rest) = ([], rest) := by
  cases rest with
  | nil => simp [scanQuoted]
  | cons c p =>
    have hc : c ≠ q := h
    rw [scanQuoted, if_pos rfl, if_neg hc]

/-- A quoted string with its quotes doubled is scanned to its end. -/
theorem scanQuoted_escape {q : UInt8} (s : Text) (h : peek rest ≠ q) :
    scanQuoted q (Literal.escape q s ++ q :: rest) = (s, rest) := by
  induction s with
  | nil => exact scanQuoted_close h
  | cons b s ih =>
    by_cases hb : b = q
    · have hcons : Literal.escape q (b :: s) ++ q :: rest = q :: q :: (Literal.escape q s ++ q :: rest) := by
        simp [Literal.escape, hb]
      rw [hcons, scanQuoted, if_pos rfl, if_pos rfl, ih, hb]
    · have hcons : Literal.escape q (b :: s) ++ q :: rest = b :: (Literal.escape q s ++ q :: rest) := by
        simp [Literal.escape, hb]
      rw [hcons, scanQuoted_cons hb, ih]

/-- A blob literal is scanned to its closing quote. -/
theorem scanBlob_close {q : UInt8} {s : Text} (hs : ∀ x ∈ s, x ≠ q) : scanBlob q (s ++ q :: rest) = (s ++ [q], rest) := by
  induction s with
  | nil => simp [scanBlob]
  | cons b s ih =>
    have hb : b ≠ q := hs b (List.mem_cons_self ..)
    rw [List.cons_append, scanBlob, if_neg hb, ih fun x hx => hs x (List.mem_cons_of_mem _ hx)]
    rfl

/-- What may stand behind a literal. -/
def Behind (closed : Bool) (rest : Text) : Prop :=
  rest = [] ∨ isspace (peek rest) = true ∨ peek rest = 59 ∨ (closed = true ∧ peek rest ≠ 39 ∧ peek rest ≠ 34)

set_option maxRecDepth 4000 in
theorem not_quote_of_isspace : isspace b = true → b ≠ 39 ∧ b ≠ 34 :=
  byte_cases (P := fun b => isspace b = true → b ≠ 39 ∧ b ≠ 34) (by decide) b

theorem Behind.noQuote {closed : Bool} (h : Behind closed rest) : peek rest ≠ 39 ∧ peek rest ≠ 34 := by
  rcases h with rfl | h | h | h
  · exact ⟨by decide, by decide⟩
  · exact not_quote_of_isspace h
  · rw [h]
    exact ⟨by decide, by decide⟩
  · exact h.2

theorem Behind.ends (h : Behind false rest) : rest = [] ∨ endsValue (peek rest) = true := by
  rcases h with h | h | h | h
  · exact Or.inl h
  · exact Or.inr (endsValue_of_isspace h)
  · rw [h]
    exact Or.inr rfl
  · exact absurd h.1 (by decide)

theorem Bare.scan {s : Text} (h : Bare s) (hrest : rest = [] ∨ endsValue (peek rest) = true) (n : Nat) :
    parseValueToken (s ++ rest) n = (s.take (n - 1), rest) := by
  obtain ⟨hne, hchars, ⟨h39, h34, h91, -⟩, hblob⟩ := h
  have hskip : skipWhitespace (s ++ rest) = s ++ rest := by
    apply skipWhitespace_self
    rw [peek_append hne]
    exact isspace_of_endsValue (hchars _ (peek_mem hne)).2
  have hpeek : peek (s ++ rest) = peek s := peek_append hne
  have hnot : ∀ x ∈ s, (!endsValue x) = true := fun x hx => by rw [(hchars x hx).2]; rfl
  have hstop : rest.takeWhile (!endsValue ·) = [] ∧ rest.dropWhile (!endsValue ·) = rest := by
    cases rest with
    | nil => exact ⟨rfl, rfl⟩
    | cons b rest =>
      have hb : endsValue b = true := by simpa using hrest
      simp [hb]
  have hnoblob : ¬ ((peek (s ++ rest) = 120 ∨ peek (s ++ rest) = 88) ∧
      (peek (s ++ rest).tail = 39 ∨ peek (s ++ rest).tail = 34)) := by
    rw [hpeek]
    cases s with
    | nil => exact absurd rfl hne
    | cons x s =>
      cases s with
      | cons y s => exact hblob
      | nil =>
        rintro ⟨-, hq⟩
        have hplain : peek rest ≠ 39 ∧ peek rest ≠ 34 := by
          rcases hrest with rfl | hrest
          · exact ⟨by decide, by decide⟩
          · exact (endsValue_plain hrest).2
        exact hq.elim hplain.1 hplain.2
  unfold parseValueToken
  dsimp only
  rw [hskip, if_neg hnoblob, hpeek, if_neg (by simp [h39, h34]), if_neg h91, List.takeWhile_append_of_pos hnot,
    List.dropWhile_append_of_pos hnot, hstop.1, hstop.2, List.append_nil]

theorem quoteChar_cases (d : Bool) : quoteChar d = 39 ∨ quoteChar d = 34 := by
  cases d
  · exact Or.inl rfl
  · exact Or.inr rfl

theorem Behind.ne_quoteChar {closed : Bool} (h : Behind closed rest) (d : Bool) : peek rest ≠ quoteChar d := by
  rcases quoteChar_cases d with hd | hd
  · rw [hd]
    exact h.noQuote.1
  · rw [hd]
    exact h.noQuote.2

/-- A literal is scanned to its end, and its value is cut to what fits. -/
theorem Literal.scan (v : Literal) (h : Behind v.closed rest) (n : Nat) :
    parseValueToken (v.text ++ rest) n = (v.value.take (n - 1), rest) := by
  cases v with
  | bare s hs => exact hs.scan h.ends n
  | quoted d s hs =>
    have hq := h.ne_quoteChar d
    have htext : (Literal.quoted d s hs).text ++ rest = quoteChar d :: (escape (quoteChar d) s ++ quoteChar d :: rest) := by
      simp [Literal.text]
    have hspace : isspace (peek (quoteChar d :: (escape (quoteChar d) s ++ quoteChar d :: rest))) = false := by
      cases d <;> rfl
    have hx : ¬ (quoteChar d = 120 ∨ quoteChar d = 88) := by cases d <;> decide
    unfold parseValueToken
    rw [htext, skipWhitespace_self hspace]
    dsimp only [peek_cons, List.tail_cons]
    simp only [hx, false_and, if_false, quoteChar_cases d, if_true, scanQuoted_escape s hq]
    rfl
  | blob u d s hs =>
    have htext : (Literal.blob u d s hs).text ++ rest =
        (if u then 88 else 120) :: quoteChar d :: (s ++ quoteChar d :: rest) := by
      simp [Literal.text]
    have hspace : isspace (peek ((if u then 88 else 120) :: quoteChar d :: (s ++ quoteChar d :: rest))) = false := by
      cases u <;> rfl
    have hx : (if u then (88 : UInt8) else 120) = 120 ∨ (if u then (88 : UInt8) else 120) = 88 := by
      cases u
      · exact Or.inl rfl
      · exact Or.inr rfl
    have hblob := And.intro hx (quoteChar_cases d)
    unfold parseValueToken
    rw [htext, skipWhitespace_self hspace]
    dsimp only [peek_cons, List.tail_cons]
    have hdrop : ((if u then 88 else 120) :: quoteChar d :: (s ++ quoteChar d :: rest)).drop 2 =
        s ++ quoteChar d :: rest := rfl
    simp only [hblob, and_self, if_true, hdrop, scanBlob_close fun x hx => (hs x hx).2]
    rfl

end CustomDB
