import CustomDB.Sql.PlainWhere

/-!
# The joins of a plain SELECT

Joins by a column of each side, with every spelling of their words: which tables and columns the loop finds.
-/

namespace CustomDB

variable {rest : Text}

/-! ## As written -/

/-- LEFT, RIGHT or FULL. -/
inductive JoinSide where
  | left | right | full

namespace JoinSide

def word : JoinSide → Text
  | left => kwLeft | right => kwRight | full => kwFull

def type : JoinSide → JoinType
  | left => .left | right => .right | full => .full

end JoinSide

/-- The words of a join. -/
inductive JoinWords where
  | join (kw : Keyword kwJoin)
  | inner (word : Keyword kwInner) (gap : Blank) (kw : Keyword kwJoin)
  | side (s : JoinSide) (word : Keyword s.word) (gap : Blank) (kw : Keyword kwJoin)
  | outer (s : JoinSide) (word : Keyword s.word) (gap : Blank) (mid : Keyword kwOuter) (gapJoin : Blank)
      (kw : Keyword kwJoin)

namespace JoinWords

def text : JoinWords → Text
  | join kw => kw.val
  | inner word gap kw => word.val ++ (gap.text ++ kw.val)
  | side _ word gap kw => word.val ++ (gap.text ++ kw.val)
  | outer _ word gap mid gapJoin kw => word.val ++ (gap.text ++ (mid.val ++ (gapJoin.text ++ kw.val)))

def type : JoinWords → JoinType
  | join _ | inner _ _ _ => .inner
  | side s _ _ _ | outer s _ _ _ _ _ => s.type

end JoinWords

/-- A join, by a column of each side. -/
structure WrittenJoin where
  lead : Blank
  lead_ne : lead.text ≠ []
  words : JoinWords
  gapTable : Blank
  gapTable_ne : gapTable.text ≠ []
  table : Ident
  gapOn : Blank
  gapOn_ne : gapOn.text ≠ []
  kwOn : Keyword kwOn
  gapLeft : Blank
  gapLeft_ne : gapLeft.text ≠ []
  left : Ident
  gapSign : Blank
  gapRight : Blank
  right : Ident

namespace WrittenJoin

/-- The columns behind ON. -/
def onText (j : WrittenJoin) : Text :=
  j.gapLeft.text ++ (j.left.text ++ (j.gapSign.text ++ 61 :: (j.gapRight.text ++ j.right.text)))

def text (j : WrittenJoin) : Text :=
  j.lead.text ++ (j.words.text ++ (j.gapTable.text ++ (j.table.text ++ (j.gapOn.text ++ (j.kwOn.val ++ j.onText)))))

/-- As meant. -/
def item (j : WrittenJoin) : JoinItem := ⟨j.words.type, j.table.text, j.left.text, j.right.text⟩

/-- The names fit. -/
def fits (j : WrittenJoin) : Bool :=
  j.table.text.length < tblNameSize && j.left.text.length < colNameSize && j.right.text.length < colNameSize

/-- The joins in order. -/
def textAll (l : List WrittenJoin) : Text := l.flatMap text

end WrittenJoin

/-! ## The words -/

/-- The first letters of the words differ. -/
theorem Keyword.notStarts_first {kw : Text} (w : Keyword kw) (other : Text)
    (h : 0 < kw.length ∧ 0 < other.length ∧ charAt kw 0 ≠ charAt other 0) (p : Text) :
    startsCI other (w.val ++ p) = false :=
  w.notStarts other 0 h p

/-- A word for a side is tested before the words of an inner join. -/
theorem parseJoinType_side (s : JoinSide) (word : Keyword s.word) (p : Text) :
    parseJoinType (word.val ++ p) = some (s.type,
      let p := skipWhitespace p
      let p := if startsCI kwOuter p then skipWhitespace (p.drop 5) else p
      if startsCI kwJoin p then p.drop 4 else p) := by
  unfold parseJoinType
  cases s with
  | left =>
    have hleft : startsCI kwLeft (word.val ++ p) = true := Keyword.starts (t := kwLeft) word p
    have hdrop : (word.val ++ p).drop 4 = p := Keyword.drop (t := kwLeft) word p (n := 4) rfl
    rw [hleft, hdrop]
    rfl
  | right =>
    have hleft : startsCI kwLeft (word.val ++ p) = false := Keyword.notStarts (t := kwRight) word kwLeft 0 (by decide) p
    have hright : startsCI kwRight (word.val ++ p) = true := Keyword.starts (t := kwRight) word p
    have hdrop : (word.val ++ p).drop 5 = p := Keyword.drop (t := kwRight) word p (n := 5) rfl
    rw [hleft, hright, hdrop]
    rfl
  | full =>
    have hleft : startsCI kwLeft (word.val ++ p) = false := Keyword.notStarts (t := kwFull) word kwLeft 0 (by decide) p
    have hright : startsCI kwRight (word.val ++ p) = false := Keyword.notStarts (t := kwFull) word kwRight 0 (by decide) p
    have hfull : startsCI kwFull (word.val ++ p) = true := Keyword.starts (t := kwFull) word p
    have hdrop : (word.val ++ p).drop 4 = p := Keyword.drop (t := kwFull) word p (n := 4) rfl
    rw [hleft, hright, hfull, hdrop]
    rfl

/-- JOIN behind blanks. -/
theorem skip_join (gap : Blank) (kw : Keyword kwJoin) (p : Text) :
    skipWhitespace (gap.text ++ (kw.val ++ p)) = kw.val ++ p := by
  rw [skipWhitespace_blank, kw.peek_space (by decide) (by decide)]

/-- The words of a join are read as they are written. -/
theorem JoinWords.parse (w : JoinWords) (p : Text) : parseJoinType (w.text ++ p) = some (w.type, p) := by
  cases w with
  | join kw =>
    unfold parseJoinType
    rw [JoinWords.text, kw.notStarts_first kwLeft (by decide), kw.notStarts_first kwRight (by decide),
      kw.notStarts_first kwFull (by decide), kw.notStarts_first kwInner (by decide), kw.starts,
      kw.drop p (n := 4) rfl]
    rfl
  | inner word gap kw =>
    unfold parseJoinType
    rw [JoinWords.text, List.append_assoc, List.append_assoc, word.notStarts_first kwLeft (by decide),
      word.notStarts_first kwRight (by decide), word.notStarts_first kwFull (by decide), word.starts,
      word.drop _ (n := 5) rfl, skip_join]
    dsimp only
    rw [kw.starts, kw.drop p (n := 4) rfl]
    rfl
  | side s word gap kw =>
    rw [JoinWords.text, List.append_assoc, List.append_assoc, parseJoinType_side, skip_join]
    dsimp only
    rw [kw.notStarts_first kwOuter (by decide), if_neg Bool.false_ne_true, kw.starts, kw.drop p (n := 4) rfl]
    rfl
  | outer s word gap mid gapJoin kw =>
    have hmid := mid.peek_space (by decide) (by decide) (gapJoin.text ++ (kw.val ++ p))
    simp only [JoinWords.text, List.append_assoc]
    rw [parseJoinType_side, skipWhitespace_blank, hmid]
    dsimp only
    rw [mid.starts, if_pos rfl, mid.drop _ (n := 5) rfl, skip_join, kw.starts, kw.drop p (n := 4) rfl]
    rfl

/-! ## The loop -/

namespace WrittenJoin

/-- What is read of a join. -/
def read (j : WrittenJoin) : JoinItem :=
  ⟨j.words.type, j.table.text.take (tblNameSize - 1), j.left.text.take (colNameSize - 1),
    j.right.text.take (colNameSize - 1)⟩

theorem read_eq_iff (j : WrittenJoin) : j.read = j.item ↔ j.fits = true := by
  rw [read, item, JoinItem.mk.injEq, j.table.take_iff (by decide), j.left.take_iff (by decide), j.right.take_iff (by decide)]
  simp [fits, and_assoc]

set_option maxRecDepth 4000 in
/-- A plain identifier has no dot in it. -/
theorem afterDot_ident (i : Ident) (n : Nat) : afterDot (i.text.take n) = none := by
  have hplain : ∀ b : UInt8, isalnum b = true ∨ b = 95 → b ≠ 46 :=
    byte_cases (P := fun b => isalnum b = true ∨ b = 95 → b ≠ 46) (by decide)
  have hnil : (i.text.take n).dropWhile (· ≠ 46) = [] := by
    rw [List.dropWhile_eq_nil_iff]
    intro b hb
    exact decide_eq_true (hplain b (i.chars b (List.take_subset _ _ hb)))
  unfold afterDot
  rw [hnil]

/-- A join behind its words. -/
theorem parse (j : WrittenJoin) (hrest : isIdent (peek rest) = false) :
    parseJoin j.words.type (j.gapTable.text ++ (j.table.text ++ (j.gapOn.text ++ (j.kwOn.val ++ (j.onText ++ rest))))) =
      some (j.read, rest) := by
  have htable : isIdent (peek (j.gapOn.text ++ (j.kwOn.val ++ (j.onText ++ rest)))) = false :=
    (endsValue_plain (endsValue_of_isspace (j.gapOn.peek_space j.gapOn_ne))).1
  have hon : skipWhitespace (j.gapOn.text ++ (j.kwOn.val ++ (j.onText ++ rest))) = j.kwOn.val ++ (j.onText ++ rest) := by
    rw [skipWhitespace_blank, j.kwOn.peek_space (by decide) (by decide)]
  have htext : j.onText ++ rest =
      j.gapLeft.text ++ (j.left.text ++ (j.gapSign.text ++ 61 :: (j.gapRight.text ++ (j.right.text ++ rest)))) := by
    simp [onText]
  have hleft : isIdent (peek (j.gapSign.text ++ 61 :: (j.gapRight.text ++ (j.right.text ++ rest)))) = false := by
    by_cases hne : j.gapSign.text = []
    · rw [hne]
      rfl
    · exact (endsValue_plain (endsValue_of_isspace (j.gapSign.peek_space hne))).1
  have hsign : skipWhitespace (j.gapSign.text ++ 61 :: (j.gapRight.text ++ (j.right.text ++ rest))) =
      61 :: (j.gapRight.text ++ (j.right.text ++ rest)) := by
    rw [skipWhitespace_blank]
    exact skipWhitespace_self rfl
  have hgo : ¬ (j.table.text.take (tblNameSize - 1) = [] ∨ startsCI CustomDB.kwOn (j.kwOn.val ++ (j.onText ++ rest)) = false) := by
    rw [j.kwOn.starts]
    exact not_or.mpr ⟨j.table.take_ne_nil (by decide), by simp⟩
  unfold parseJoin
  rw [j.table.parse j.gapTable htable]
  dsimp only
  rw [hon, if_neg hgo, j.kwOn.drop _ (n := 2) rfl, htext, j.left.parse j.gapLeft hleft]
  dsimp only
  rw [hsign, peek_cons, if_neg (by simp), List.drop_one, List.tail_cons, j.right.parse j.gapRight hrest]
  simp only [afterDot_ident]
  rfl

theorem textAll_cons (j : WrittenJoin) (l : List WrittenJoin) (rest : Text) :
    textAll (j :: l) ++ rest = j.lead.text ++ (j.words.text ++ (j.gapTable.text ++ (j.table.text ++
      (j.gapOn.text ++ (j.kwOn.val ++ (j.onText ++ (textAll l ++ rest))))))) := by
  simp [textAll, text]

/-- Joins do not go on with the name in front of them. -/
theorem textAll_ident {tail : Text} (h : isIdent (peek tail) = false) (l : List WrittenJoin) :
    isIdent (peek (textAll l ++ tail)) = false := by
  cases l with
  | nil => exact h
  | cons j l =>
    rw [textAll_cons]
    exact (endsValue_plain (endsValue_of_isspace (j.lead.peek_space j.lead_ne))).1

end WrittenJoin

/-- The words of a join start with a letter. -/
theorem JoinWords.noSpace (w : JoinWords) (p : Text) : isspace (peek (w.text ++ p)) = false := by
  have hside : ∀ (s : JoinSide) (word : Keyword s.word) (p : Text), isspace (peek (word.val ++ p)) = false := by
    intro s word p
    cases s with
    | left => exact @Keyword.noSpace kwLeft word (by decide) (by decide) p
    | right => exact @Keyword.noSpace kwRight word (by decide) (by decide) p
    | full => exact @Keyword.noSpace kwFull word (by decide) (by decide) p
  cases w with
  | join kw => exact kw.noSpace (by decide) (by decide) p
  | inner word gap kw =>
    rw [text, List.append_assoc]
    exact word.noSpace (by decide) (by decide) _
  | side s word gap kw =>
    rw [text, List.append_assoc]
    exact hside s word _
  | outer s word gap mid gapJoin kw =>
    rw [text, List.append_assoc]
    exact hside s word _

/-- The loop over the joins. -/
theorem parseJoins_written {tail : Text} (hident : isIdent (peek tail) = false)
    (hno : parseJoinType (skipWhitespace tail) = none) (l : List WrittenJoin) (slots : Nat) (joins : List JoinItem) :
    parseJoins slots (WrittenJoin.textAll l ++ tail) joins =
      if l.length ≤ slots then some (joins ++ l.map WrittenJoin.read, skipWhitespace tail) else none := by
  induction l generalizing slots joins with
  | nil =>
    rw [show WrittenJoin.textAll [] ++ tail = tail from rfl, if_pos (show [].length ≤ slots from Nat.zero_le slots), List.map_nil, List.append_nil]
    unfold parseJoins
    by_cases hnil : tail = []
    · rw [if_pos hnil, hnil]
      rfl
    · rw [if_neg hnil, hno]
  | cons j l ih =>
    have hne : WrittenJoin.textAll (j :: l) ++ tail ≠ [] := by
      rw [WrittenJoin.textAll_cons]
      simp [j.lead_ne]
    unfold parseJoins
    rw [if_neg hne, WrittenJoin.textAll_cons, skipWhitespace_blank, skipWhitespace_self (j.words.noSpace _), j.words.parse]
    dsimp only
    cases slots with
    | zero => exact (if_neg (Nat.not_succ_le_zero _)).symm
    | succ slots =>
      rw [j.parse (WrittenJoin.textAll_ident hident l)]
      refine (ih slots (joins ++ [j.read])).trans ?_
      simp only [List.length_cons, Nat.succ_le_succ_iff, List.map_cons, List.append_assoc, List.singleton_append]

end CustomDB
