import CustomDB.Sql.SelectText

/-!
# Plain names and raw texts

Identifiers that are no keyword, and when the scan for the end of a raw text stops where the text does: when it fits
and no keyword that ends a clause stands anywhere in it.
-/

namespace CustomDB

variable {p rest s : Text} {b : UInt8}

/-! ## Identifiers -/

/-- The words of SELECT and UPDATE. -/
def clauseWords : List Text :=
  [kwSelect, kwDistinct, kwFrom, kwLeft, kwRight, kwFull, kwInner, kwOuter, kwJoin, kwOn, kwWhere, kwAnd, kwOr, kwNot,
    kwIs, kwNull, kwIn, kwBetween, kwLike, kwGlob, kwMatch, kwExists, kwCollate, kwUnion, kwIntersect, kwExcept,
    kwUpdate, kwSet]

/-- A plain identifier: a letter or `_`, then letters, digits and `_`, and no keyword. -/
structure Ident where
  text : Text
  head : isalpha (peek text) = true ∨ peek text = 95
  chars : ∀ b ∈ text, isalnum b = true ∨ b = 95
  notKeyword : text.map tolower ∉ clauseWords

theorem Ident.ne_nil (i : Ident) : i.text ≠ [] := by
  intro h
  have hhead := i.head
  rw [h] at hhead
  exact absurd hhead (by decide)

theorem Ident.all_ident (i : Ident) : ∀ b ∈ i.text, isIdent b = true := by
  intro b hb
  rcases i.chars b hb with h | h <;> simp [isIdent, h]

/-- An identifier behind blanks is read up to its end, and as much is kept as fits. -/
theorem Ident.parse (i : Ident) (g : Blank) (hrest : isIdent (peek rest) = false) (n : Nat) :
    parseIdentifier (g.text ++ (i.text ++ rest)) n = (i.text.take (n - 1), rest) := by
  rw [← parseIdentifier_append i.ne_nil i.all_ident hrest]
  unfold parseIdentifier
  rw [skipWhitespace_blank]

theorem Ident.take_ne_nil (i : Ident) {n : Nat} (hn : n ≠ 0) : i.text.take n ≠ [] := by
  rw [ne_eq, List.take_eq_nil_iff, not_or]
  exact ⟨hn, i.ne_nil⟩

theorem Ident.take_iff (i : Ident) {n : Nat} (hn : n ≠ 0) : i.text.take (n - 1) = i.text ↔ i.text.length < n :=
  (List.take_eq_self_iff _).trans (Nat.lt_iff_le_pred (Nat.pos_of_ne_zero hn)).symm

/-- `kw` stands somewhere in the text, in any mixture of cases. -/
def mentions (kw s : Text) : Bool := s.tails.any (startsCI kw)

theorem mentions_eq_false {kw : Text} (hkw : kw ≠ []) :
    mentions kw s = false ↔ ∀ k < s.length, startsCI kw (s.drop k) = false := by
  rw [mentions, List.any_eq_false]
  constructor
  · intro h k hk
    have hmem : s.drop k ∈ s.tails := by
      rw [List.mem_tails]
      exact List.drop_suffix k s
    exact Bool.eq_false_iff.mpr (h _ hmem)
  · intro h t ht
    rw [List.mem_tails] at ht
    obtain ⟨u, rfl⟩ := ht
    cases t with
    | nil =>
      intro hnil
      have hempty := of_decide_eq_true hnil
      rw [List.take_nil] at hempty
      exact hkw hempty.symm
    | cons b t =>
      have hdrop := h u.length (by simp)
      rw [List.drop_left] at hdrop
      exact Bool.eq_false_iff.mp hdrop

/-- A word of small letters starts a text where it starts what is in front of a character that is no letter. -/
theorem startsCI_before {kw : Text} (hkw : ∀ b ∈ kw, 97 ≤ b ∧ b ≤ 122) (hrest : isIdent (peek rest) = false) (u : Text) :
    startsCI kw (u ++ rest) = startsCI kw u := by
  cases h : startsCI kw u with
  | false => exact startsCI_ident hkw hrest h
  | true =>
    have hlen : kw.length ≤ u.length := by
      have hmap := congrArg List.length (of_decide_eq_true h)
      rw [List.length_map, List.length_take] at hmap
      omega
    rw [startsCI, List.take_append_of_le_length hlen]
    exact h

/-! ## The scan for the end -/

section Scan

variable {stop : Text → Bool}

theorem scanUntil_length (n : Nat) (depth : Int) (p : Text) : (scanUntil stop n depth p).1.length ≤ n := by
  induction n generalizing depth p with
  | zero => simp [scanUntil]
  | succ n ih =>
    cases p with
    | nil => simp [scanUntil]
    | cons b p =>
      rw [scanUntil]
      split
      · simp
      · simpa using ih (openAfter depth b) p

theorem openAfter_plain (h : b ≠ 40 ∧ b ≠ 41) : openAfter 0 b = 0 := by
  simp [openAfter, h]

/-- The scan goes no further than to a place where it has to stop. -/
theorem scanUntil_le (hs : ∀ b ∈ s, b ≠ 40 ∧ b ≠ 41) {k : Nat} (hk : k < s.length) (hstop : stop (s.drop k ++ rest) = true)
    (n : Nat) : (scanUntil stop n 0 (s ++ rest)).1.length ≤ k := by
  induction s generalizing k n with
  | nil => exact absurd hk (Nat.not_lt_zero k)
  | cons b s ih =>
    cases n with
    | zero => simp [scanUntil]
    | succ n =>
      have hopen := openAfter_plain (hs b (List.mem_cons_self ..))
      rw [List.cons_append, scanUntil, hopen]
      cases k with
      | zero => rw [if_pos ⟨rfl, hstop⟩]; exact Nat.le_refl 0
      | succ k =>
        have hrec := ih (fun x hx => hs x (List.mem_cons_of_mem _ hx)) (Nat.lt_of_succ_lt_succ hk) hstop n
        split
        · exact Nat.zero_le _
        · exact Nat.succ_le_succ hrec

/-- Where nothing stops it, the scan goes on behind the text. -/
theorem scanUntil_append (hs : ∀ b ∈ s, b ≠ 40 ∧ b ≠ 41) (hclear : ∀ k < s.length, stop (s.drop k ++ rest) = false)
    (n : Nat) :
    scanUntil stop (s.length + n) 0 (s ++ rest) = (s ++ (scanUntil stop n 0 rest).1, (scanUntil stop n 0 rest).2) := by
  induction s with
  | nil => simp
  | cons b s ih =>
    have hopen := openAfter_plain (hs b (List.mem_cons_self ..))
    have hhere : stop (b :: (s ++ rest)) = false := hclear 0 (Nat.succ_pos _)
    have hrec := ih (fun x hx => hs x (List.mem_cons_of_mem _ hx)) fun k hk => hclear (k + 1) (Nat.succ_lt_succ hk)
    rw [List.cons_append, List.length_cons, Nat.succ_add, scanUntil, hopen, if_neg (by simp [hhere]), hrec]
    rfl

set_option maxRecDepth 4000 in
theorem not_bracket_of_isspace : isspace b = true → b ≠ 40 ∧ b ≠ 41 :=
  byte_cases (P := fun b => isspace b = true → b ≠ 40 ∧ b ≠ 41) (by decide) b

/-- Of the blanks in front of what ends a text, the scan copies some. -/
theorem scanUntil_blanks (hstop : ∀ b p, isspace b = true → stop (b :: p) = false)
    (hrest : rest = [] ∨ (openAfter 0 (peek rest) = 0 ∧ stop rest = true)) (g : Text) (hg : ∀ b ∈ g, isspace b = true)
    (n : Nat) :
    (∀ b ∈ (scanUntil stop n 0 (g ++ rest)).1, isspace b = true) ∧
      skipWhitespace (scanUntil stop n 0 (g ++ rest)).2 = skipWhitespace rest := by
  induction g generalizing n with
  | nil =>
    have hnone : scanUntil stop n 0 rest = ([], rest) := by
      cases n with
      | zero => rfl
      | succ n =>
        cases rest with
        | nil => rfl
        | cons b rest =>
          have hend := hrest.resolve_left (List.cons_ne_nil b rest)
          rw [scanUntil, if_pos ⟨hend.1, hend.2⟩]
    rw [List.nil_append, hnone]
    exact ⟨fun b hb => absurd hb List.not_mem_nil, rfl⟩
  | cons b g ih =>
    have hb := hg b (List.mem_cons_self ..)
    cases n with
    | zero =>
      refine ⟨fun x hx => absurd hx List.not_mem_nil, ?_⟩
      exact List.dropWhile_append_of_pos hg
    | succ n =>
      obtain ⟨hblank, hskip⟩ := ih (fun x hx => hg x (List.mem_cons_of_mem _ hx)) n
      rw [List.cons_append, scanUntil, openAfter_plain (not_bracket_of_isspace hb), if_neg (by simp [hstop b _ hb])]
      refine ⟨fun x hx => ?_, hskip⟩
      rcases List.mem_cons.mp hx with rfl | hx
      · exact hb
      · exact hblank x hx

theorem trimEnd_length (s : Text) : (trimEnd s).length ≤ s.length := by
  rw [trimEnd, List.length_reverse]
  exact (List.dropWhile_sublist isspace).length_le.trans_eq List.length_reverse

theorem trimEnd_append (hs : s ≠ []) (hlast : isspace (s.getLast hs) = false) {g : Text} (hg : ∀ b ∈ g, isspace b = true) :
    trimEnd (s ++ g) = s := by
  have hrev : ∀ b ∈ g.reverse, isspace b = true := fun b hb => hg b (List.mem_reverse.mp hb)
  have hstay : s.reverse.dropWhile isspace = s.reverse := by
    apply skipWhitespace_self
    have hhead : s.reverse.head? = some (s.getLast hs) := by
      rw [List.head?_reverse, List.getLast?_eq_getLast_of_ne_nil hs]
    rw [peek, List.headD_eq_head?_getD, hhead]
    exact hlast
  rw [trimEnd, List.reverse_append, List.dropWhile_append_of_pos hrev, hstay, List.reverse_reverse]

/-- A raw text: no brackets, and no blank at its end. -/
structure RawText (s : Text) : Prop where
  ne_nil : s ≠ []
  brackets : ∀ b ∈ s, b ≠ 40 ∧ b ≠ 41
  last : isspace (s.getLast ne_nil) = false

/-- What ends a raw text, with the blanks in front of it. -/
structure Ends (stop : Text → Bool) (g rest : Text) : Prop where
  blank : ∀ b ∈ g, isspace b = true
  noStop : ∀ b p, isspace b = true → stop (b :: p) = false
  here : rest = [] ∨ (openAfter 0 (peek rest) = 0 ∧ stop rest = true)

/-- A raw text is read as it is written where it fits and nothing in it stops the scan. -/
theorem RawText.scan_iff (h : RawText s) {g : Text} (hend : Ends stop g rest) (n : Nat) :
    trimEnd (scanUntil stop n 0 (s ++ (g ++ rest))).1 = s ↔
      s.length ≤ n ∧ ∀ k < s.length, stop (s.drop k ++ (g ++ rest)) = false := by
  constructor
  · intro heq
    have hlen : s.length ≤ (scanUntil stop n 0 (s ++ (g ++ rest))).1.length := by
      have htrim := trimEnd_length (scanUntil stop n 0 (s ++ (g ++ rest))).1
      rwa [heq] at htrim
    refine ⟨hlen.trans (scanUntil_length n 0 _), fun k hk => ?_⟩
    by_contra hstop
    have hshort := scanUntil_le h.brackets hk (Bool.not_eq_false _ ▸ hstop) n
    omega
  · rintro ⟨hn, hclear⟩
    obtain ⟨m, rfl⟩ := Nat.exists_eq_add_of_le hn
    rw [scanUntil_append h.brackets hclear]
    exact trimEnd_append h.ne_nil h.last (scanUntil_blanks hend.noStop hend.here g hend.blank m).1

theorem RawText.scan_rest (h : RawText s) {g : Text} (hend : Ends stop g rest) {n : Nat} (hn : s.length ≤ n)
    (hclear : ∀ k < s.length, stop (s.drop k ++ (g ++ rest)) = false) :
    skipWhitespace (scanUntil stop n 0 (s ++ (g ++ rest))).2 = skipWhitespace rest := by
  obtain ⟨m, rfl⟩ := Nat.exists_eq_add_of_le hn
  rw [scanUntil_append h.brackets hclear]
  exact (scanUntil_blanks hend.noStop hend.here g hend.blank m).2

/-- What is read of a raw text is never longer than the text. -/
theorem RawText.scan_length (h : RawText s) {g : Text} (hend : Ends stop g rest) (n : Nat) :
    (trimEnd (scanUntil stop n 0 (s ++ (g ++ rest))).1).length ≤ s.length := by
  by_cases hread : trimEnd (scanUntil stop n 0 (s ++ (g ++ rest))).1 = s
  · rw [hread]
  · refine (trimEnd_length _).trans ?_
    rw [h.scan_iff hend n, not_and_or] at hread
    rcases hread with hn | hstop
    · exact (scanUntil_length n 0 _).trans (Nat.le_of_not_le hn)
    · push Not at hstop
      obtain ⟨k, hk, hstop⟩ := hstop
      exact (scanUntil_le h.brackets hk (Bool.eq_true_of_not_eq_false hstop) n).trans (Nat.le_of_lt hk)

end Scan

end CustomDB
