import CustomDB.Sql.InsertText

/-!
# A value token, in two passes

`parse_value_token_alloc` finds the end of the token first and copies it then, into the caller's buffer or into one of
the token's own length. That length passes through 32 bits: of a token of 4 GiB or more only a part is copied.
-/

namespace CustomDB

/-- What `parse_value_token_alloc` leaves: `dest`, `*out_dyn`, the two flags, and the position behind the token. -/
structure TokenRead where
  dest : Text
  dyn : Option Text
  isNull : Bool
  wasQuoted : Bool
  rest : Text
  deriving DecidableEq

/-- The value: on the heap where there is one, else in the buffer. -/
def TokenRead.text (t : TokenRead) : Text := t.dyn.getD t.dest

/-- A blob literal begins here. -/
def beginsBlob (p : Text) : Bool := (peek p = 120 || peek p = 88) && (peek p.tail = 39 || peek p.tail = 34)

/-- Phase 1: what is behind the token. -/
def scanToken (p : Text) : Text :=
  if beginsBlob p then (scanBlob (peek p.tail) (p.drop 2)).2
  else if peek p = 39 ∨ peek p = 34 then (scanQuoted (peek p) p.tail).2
  else if peek p = 91 then (scanBracket 0 p).2
  else p.dropWhile (!endsValue ·)

/-- Phase 2: what is copied of the token `raw`. -/
def copyToken (raw : Text) : Text :=
  if beginsBlob raw then peek raw :: peek raw.tail :: (scanBlob (peek raw.tail) (raw.drop 2)).1
  else if peek raw = 39 ∨ peek raw = 34 then (scanQuoted (peek raw) raw.tail).1
  else raw

/-- `parse_value_token_alloc` with a non-NULL `out_dyn`, where `malloc` succeeds. -/
def parseValueTokenInto (maxLen : UInt32) (p : Text) : TokenRead :=
  let p := skipWhitespace p
  let scan := scanToken p
  let rawSpan := p.length - scan.length
  let raw := p.take rawSpan
  let alloc := decide ((maxLen - 1).toNat ≤ rawSpan)
  let targetCap : UInt32 := if alloc then UInt32.ofNat (rawSpan + 1) else maxLen
  let target := (copyToken raw).take (targetCap - 1).toNat
  let isNull := !wasQuoted p && target.length = 4 && target.map tolower = kwNull
  if alloc then ⟨target.take (maxLen - 1).toNat, some target, isNull, wasQuoted p, scan⟩
  else ⟨target, none, isNull, wasQuoted p, scan⟩

/-! ## Quoted strings -/

section Quoted

variable {rest : Text} (maxLen : UInt32) (d : Bool) (s : Text)

theorem quoteText_cons (rest : Text) :
    quoteText d s ++ rest = quoteChar d :: (Literal.escape (quoteChar d) s ++ quoteChar d :: rest) := by
  simp [quoteText]

theorem beginsBlob_quoted (p : Text) : beginsBlob (quoteChar d :: p) = false := by
  cases d <;> rfl

theorem wasQuoted_quoted (p : Text) : wasQuoted (quoteChar d :: p) = true := by
  unfold wasQuoted
  rw [peek_cons]
  rcases quoteChar_cases d with h | h <;> simp [h]

/-- The first pass stops right behind the closing quote. -/
theorem scanToken_quoted (hrest : peek rest ≠ quoteChar d) : scanToken (quoteText d s ++ rest) = rest := by
  rw [quoteText_cons, scanToken, beginsBlob_quoted, peek_cons, if_neg Bool.false_ne_true, if_pos (quoteChar_cases d),
    List.tail_cons, scanQuoted_escape s hrest]

/-- The second pass takes every doubled quote for one. -/
theorem copyToken_quoted : copyToken (quoteText d s) = s := by
  have hnil : peek [] ≠ quoteChar d := by cases d <;> decide
  have hscan := scanQuoted_escape s hnil
  rw [← List.append_nil (quoteText d s), quoteText_cons, copyToken, beginsBlob_quoted, peek_cons,
    if_neg Bool.false_ne_true, if_pos (quoteChar_cases d), List.tail_cons, hscan]

/-- The token is read back as it was written. -/
def ReadsBack (t : TokenRead) (s rest : Text) : Prop := t.text = s ∧ t.isNull = false ∧ t.rest = rest

/-- A quoted string is cut to what 32 bits hold of its token's length. -/
theorem parseValueTokenInto_quoted (hrest : peek rest ≠ quoteChar d) :
    (parseValueTokenInto maxLen (quoteText d s ++ rest)).text = s.take ((quoteText d s).length % 2 ^ 32) ∧
      (parseValueTokenInto maxLen (quoteText d s ++ rest)).isNull = false ∧
      (parseValueTokenInto maxLen (quoteText d s ++ rest)).rest = rest := by
  have hspace : isspace (peek (quoteText d s ++ rest)) = false := by
    rw [quoteText_cons]
    cases d <;> rfl
  have hlen : (quoteText d s ++ rest).length - rest.length = (quoteText d s).length := by
    rw [List.length_append, Nat.add_sub_cancel]
  have hspan : s.length + 2 ≤ (quoteText d s).length := by
    have hescape := length_escape s (quoteChar d)
    simp only [quoteText, List.length_append, List.length_cons, List.length_nil]
    omega
  have hquoted : wasQuoted (quoteText d s ++ rest) = true := by rw [quoteText_cons, wasQuoted_quoted]
  have hcap : (UInt32.ofNat ((quoteText d s).length + 1) - 1).toNat = (quoteText d s).length % 2 ^ 32 := by
    have hadd : UInt32.ofNat ((quoteText d s).length + 1) = UInt32.ofNat (quoteText d s).length + 1 := UInt32.ofNat_add ..
    rw [hadd, UInt32.add_sub_cancel, UInt32.toNat_ofNat']
  have hmaxLen : (maxLen - 1).toNat < 2 ^ 32 := UInt32.toNat_lt _
  unfold parseValueTokenInto
  simp only [skipWhitespace_self hspace, scanToken_quoted d s hrest, hlen, List.take_left, copyToken_quoted, hquoted,
    Bool.not_true, Bool.false_and]
  by_cases halloc : (maxLen - 1).toNat ≤ (quoteText d s).length
  · simp only [halloc, decide_true, if_true, hcap]
    exact ⟨rfl, trivial, trivial⟩
  · simp only [halloc, decide_false, Bool.false_eq_true, if_false]
    have hsmall : (quoteText d s).length % 2 ^ 32 = (quoteText d s).length := Nat.mod_eq_of_lt (by omega)
    refine ⟨?_, trivial, trivial⟩
    rw [hsmall, List.take_of_length_le (by omega : s.length ≤ (quoteText d s).length)]
    exact List.take_of_length_le (by omega)

/-- A quoted string is read back exactly if it is no longer than the 32 bits of its token's length. -/
theorem quoted_reads_back_iff (hrest : peek rest ≠ quoteChar d) :
    ReadsBack (parseValueTokenInto maxLen (quoteText d s ++ rest)) s rest ↔
      s.length ≤ (quoteText d s).length % 2 ^ 32 := by
  obtain ⟨htext, hnull, hscan⟩ := parseValueTokenInto_quoted maxLen d s hrest
  unfold ReadsBack
  rw [htext, hnull, hscan, List.take_eq_self_iff]
  exact ⟨fun h => h.1, fun h => ⟨h, rfl, rfl⟩⟩

end Quoted

theorem length_quoteText_plain {d : Bool} {b : UInt8} (hb : b ≠ quoteChar d) (n : Nat) :
    (quoteText d (List.replicate n b)).length = n + 2 := by
  have hescape : (Literal.escape (quoteChar d) (List.replicate n b)).length = n := by
    induction n with
    | zero => rfl
    | succ n ih =>
      rw [List.replicate_succ, Literal.escape, List.flatMap_cons, if_neg hb, List.length_append, ← Literal.escape, ih]
      exact Nat.add_comm ..
  simp [quoteText, hescape]

/-- `'it''s'`, in front of a comma. -/
theorem quoted_reads_back_apostrophe :
    ReadsBack (parseValueTokenInto 4096 (quoteText false [105, 116, 39, 115] ++ [44])) [105, 116, 39, 115] [44] :=
  (quoted_reads_back_iff 4096 false [105, 116, 39, 115] (by decide)).mpr (by decide)

/-- Of 4 GiB of letters two are read. -/
theorem quoted_cut :
    ¬ ∀ (maxLen : UInt32) (d : Bool) (s rest : Text), 2 ≤ maxLen → 0 ∉ s → peek rest ≠ quoteChar d →
      ReadsBack (parseValueTokenInto maxLen (quoteText d s ++ rest)) s rest := by
  intro h
  have h0 : (0 : UInt8) ∉ List.replicate (2 ^ 32) 97 := fun hmem => by
    have heq := List.eq_of_mem_replicate hmem
    revert heq
    decide
  have hread := h 4096 false (List.replicate (2 ^ 32) 97) [] (by decide) h0 (by decide)
  rw [quoted_reads_back_iff 4096 false _ (by decide), length_quoteText_plain (by decide), List.length_replicate] at hread
  revert hread
  decide

end CustomDB
