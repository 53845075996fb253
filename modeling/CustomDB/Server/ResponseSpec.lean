import CustomDB.Server.Response

/-!
# Complete answers

An answer is complete and within its bounds exactly as long as it fits into half of the buffer and nothing printed has
a control character without an escape.
-/

namespace CustomDB

/-! ## Printing -/

section Print

variable {r : Resp} {t s : Text} {limit : Nat} {pieces : List Text}

/-- The buffer holds the text and nothing went wrong. -/
structure Resp.Exact (r : Resp) (t : Text) : Prop where
  body : r.body = t
  roff : r.roff = t.length
  top : r.top ≤ t.length + 1
  wrapped : r.wrapped = false

theorem Resp.empty_exact : Resp.empty.Exact [] := ⟨rfl, rfl, Nat.zero_le _, rfl⟩

theorem room_eq {a b : Nat} (h : b ≤ a) (ha : a < 2 ^ 64) : (BitVec.ofNat 64 a - BitVec.ofNat 64 b).toNat = a - b := by
  rw [BitVec.toNat_sub, BitVec.toNat_ofNat, BitVec.toNat_ofNat, Nat.mod_eq_of_lt ha,
    Nat.mod_eq_of_lt (lt_of_le_of_lt h ha)]
  omega

/-- What there is room for is added. -/
theorem Resp.Exact.body_print (h : r.Exact t) (hroff : r.roff ≤ limit) (hlimit : limit < 2 ^ 64) :
    (r.print limit s).body = t ++ s.take (limit - r.roff - 1) := by
  have htake : r.body.take r.roff = t := by rw [h.body, h.roff, List.take_length]
  have hbehind : ¬ r.body.length < r.roff := by
    rw [h.body, h.roff]
    exact Nat.lt_irrefl _
  simp only [Resp.print, room_eq hroff hlimit]
  by_cases hzero : limit - r.roff = 0
  · rw [if_pos (Or.inl hzero), hzero, h.body]
    exact (List.append_nil t).symm
  · rw [if_neg (not_or.mpr ⟨hzero, hbehind⟩), htake]

/-- What fits with its terminator is added. -/
theorem Resp.Exact.print (h : r.Exact t) (hlen : t.length + s.length < limit) (hlimit : limit < 2 ^ 64) :
    (r.print limit s).Exact (t ++ s) := by
  have hroff : r.roff ≤ limit := by
    rw [h.roff]
    omega
  have hsize := room_eq hroff hlimit
  have hpos : limit - r.roff ≠ 0 := by
    rw [h.roff]
    omega
  have hwritten : s.take (limit - r.roff - 1) = s := List.take_of_length_le (by rw [h.roff]; omega)
  have htop := h.top
  constructor
  · rw [h.body_print hroff hlimit, hwritten]
  · simp only [Resp.print, h.roff, List.length_append]
  · simp only [Resp.print, hsize, hwritten, hpos, if_false, List.length_append]
    rw [h.roff]
    omega
  · simp only [Resp.print, h.wrapped, Bool.false_or, decide_eq_false_iff_not]
    exact Nat.not_lt.mpr hroff

@[simp] theorem Resp.printAll_nil (limit : Nat) (r : Resp) : r.printAll limit [] = r := rfl

@[simp] theorem Resp.printAll_cons (limit : Nat) (r : Resp) (p : Text) (pieces : List Text) :
    r.printAll limit (p :: pieces) = (r.print limit p).printAll limit pieces := rfl

theorem Resp.roff_printAll (limit : Nat) (r : Resp) (pieces : List Text) :
    (r.printAll limit pieces).roff = r.roff + pieces.flatten.length := by
  induction pieces generalizing r with
  | nil => rfl
  | cons p pieces ih =>
    rw [Resp.printAll_cons, ih, List.flatten_cons, List.length_append, ← Nat.add_assoc]
    rfl

theorem Resp.Exact.printAll (h : r.Exact t) (hlen : t.length + pieces.flatten.length < limit) (hlimit : limit < 2 ^ 64) :
    (r.printAll limit pieces).Exact (t ++ pieces.flatten) := by
  induction pieces generalizing r t with
  | nil => simpa using h
  | cons p pieces ih =>
    rw [List.flatten_cons, List.length_append] at hlen
    rw [Resp.printAll_cons, List.flatten_cons, ← List.append_assoc]
    exact ih (h.print (by omega) hlimit) (by rw [List.length_append]; omega)

end Print

/-! ## The rows -/

section Rows

variable {r : Resp} {t : Text} {i : Nat} {rows : List (List (Option Text))}

/-- What is printed for the rows. -/
def rowsPieces : Nat → List (List (Option Text)) → List Text
  | _, [] => []
  | i, row :: rows => rowPieces i row ++ rowsPieces (i + 1) rows

theorem Resp.roff_printRows (r : Resp) (i : Nat) (rows : List (List (Option Text))) :
    r.roff ≤ (printRows r i rows).roff ∧ (printRows r i rows).roff ≤ r.roff + (rowsPieces i rows).flatten.length := by
  induction rows generalizing r i with
  | nil => exact ⟨Nat.le_refl _, Nat.le_refl _⟩
  | cons row rows ih =>
    rw [printRows, rowsPieces, List.flatten_append, List.length_append]
    split
    · have hnext := ih (r.printAll respCap (rowPieces i row)) (i + 1)
      rw [Resp.roff_printAll] at hnext
      omega
    · omega

/-- As long as half of the buffer is enough, the loop comes to its end. -/
theorem Resp.Exact.printRows (h : r.Exact t) (hroff : (printRows r i rows).roff ≤ bufferSize * 2) :
    (CustomDB.printRows r i rows).Exact (t ++ (rowsPieces i rows).flatten) := by
  induction rows generalizing r t i with
  | nil => simpa [rowsPieces, CustomDB.printRows] using h
  | cons row rows ih =>
    rw [CustomDB.printRows] at hroff ⊢
    by_cases hroom : r.roff + 4096 < respCap
    · rw [if_pos hroom] at hroff ⊢
      have hmono := (Resp.roff_printRows (r.printAll respCap (rowPieces i row)) (i + 1) rows).1
      rw [Resp.roff_printAll, h.roff] at hmono
      have hfits : t.length + (rowPieces i row).flatten.length < respCap := by
        unfold respCap bufferSize at *
        omega
      rw [rowsPieces, List.flatten_append, ← List.append_assoc]
      exact ih (h.printAll hfits (by decide)) hroff
    · rw [if_neg hroom] at hroff
      unfold respCap bufferSize at *
      omega

end Rows

/-! ## JSON -/

section Json

variable {s t x : Text} {b : UInt8} {m d i : Nat}

open Lib.JsonText (JsonChar Reads isPlain)

/-- The byte has an escape, or needs none. -/
def isPrintable (b : UInt8) : Bool := 32 ≤ b || b = 9 || b = 10 || b = 13

/-- A character that JSON reads back, if there is one. -/
def charOf (b : UInt8) : Option JsonChar :=
  if b = 34 then some (.short .quote)
  else if b = 92 then some (.short .backslash)
  else if b = 10 then some (.short .newline)
  else if b = 13 then some (.short .carriageReturn)
  else if b = 9 then some (.short .tab)
  else if h : isPlain b = true then some (.plain b h)
  else none

theorem printable_iff (b : UInt8) : isPrintable b = true ↔ ∀ x ∈ escapeByte b, 32 ≤ x := by
  unfold escapeByte
  split_ifs with h1 h2 h3 h4 h5
  · simp [isPrintable, h1]
  · simp [isPrintable, h2]
  · simp [isPrintable, h3]
  · simp [isPrintable, h4]
  · simp [isPrintable, h5]
  · simp [isPrintable, h3, h4, h5]

theorem charOf_printable (h : isPrintable b = true) :
    ∃ c, charOf b = some c ∧ c.text = escapeByte b ∧ c.value = [b] := by
  unfold charOf escapeByte
  split_ifs with h1 h2 h3 h4 h5 h6
  · exact ⟨_, rfl, rfl, by rw [h1]; rfl⟩
  · exact ⟨_, rfl, rfl, by rw [h2]; rfl⟩
  · exact ⟨_, rfl, rfl, by rw [h3]; rfl⟩
  · exact ⟨_, rfl, rfl, by rw [h4]; rfl⟩
  · exact ⟨_, rfl, rfl, by rw [h5]; rfl⟩
  · exact ⟨_, rfl, rfl, rfl⟩
  · simp [isPrintable, isPlain, h1, h2, h3, h4, h5] at h h6
    exact absurd h (by simpa using h6)

/-- The escapes of a text without other control characters are a JSON string. -/
theorem escapes_read (h : ∀ b ∈ s, isPrintable b = true) : Reads (s.flatMap escapeByte) s := by
  induction s with
  | nil => exact ⟨[], rfl, rfl⟩
  | cons b s ih =>
    obtain ⟨c, -, htext, hvalue⟩ := charOf_printable (h b (List.mem_cons_self ..))
    obtain ⟨cs, hcs, hv⟩ := ih fun x hx => h x (List.mem_cons_of_mem _ hx)
    exact ⟨c :: cs, by rw [Lib.JsonText.text_cons, htext, hcs, List.flatMap_cons],
      by rw [Lib.JsonText.value_cons, hvalue, hv]; rfl⟩

/-- A JSON string has no control character. -/
theorem reads_printed (h : Reads t s) : ∀ x ∈ t, 32 ≤ x := by
  have hplain : ∀ {x : UInt8}, isPlain x = true → 32 ≤ x := by
    intro x hx
    simp only [isPlain, Bool.and_eq_true, decide_eq_true_eq] at hx
    exact hx.1.1
  have hdigits : ∀ u : Lib.JsonText.Unit16, ∀ x ∈ u.digits, 32 ≤ x := fun u x hx =>
    hplain (Lib.JsonText.hex_plain (u.hex x hx))
  obtain ⟨cs, rfl, -⟩ := h
  intro x hx
  obtain ⟨c, -, hc⟩ := List.mem_flatMap.mp hx
  cases c with
  | plain b h =>
    rw [List.mem_singleton.mp hc]
    exact hplain h
  | short e =>
    have hall : ∀ y ∈ (JsonChar.short e).text, 32 ≤ y := by
      cases e <;> simp [JsonChar.text, Lib.JsonText.Short.letter]
    exact hall x hc
  | unicode u h =>
    simp only [JsonChar.text, List.mem_cons] at hc
    rcases hc with rfl | rfl | hc
    · decide
    · decide
    · exact hdigits u x hc
  | pair u v hu hv =>
    simp only [JsonChar.text, List.mem_cons, List.mem_append] at hc
    rcases hc with rfl | rfl | hc | rfl | rfl | hc
    · decide
    · decide
    · exact hdigits u x hc
    · decide
    · decide
    · exact hdigits v x hc

/-- What is written of a text is the escapes of its front. -/
theorem escape_front (m d : Nat) (s : Text) :
    ∃ k, escapeJsonString m d s = (s.take k).flatMap escapeByte ∧ (d + 2 * s.length + 4 ≤ m → k = s.length) := by
  induction s generalizing d with
  | nil => exact ⟨0, rfl, fun _ => rfl⟩
  | cons b s ih =>
    have hbyte : (escapeByte b).length ≤ 2 := by
      unfold escapeByte
      split_ifs <;> simp
    rw [escapeJsonString]
    split
    · obtain ⟨k, hk, hfull⟩ := ih (d + (escapeByte b).length)
      refine ⟨k + 1, ?_, fun h => ?_⟩
      · rw [hk, List.take_succ_cons, List.flatMap_cons]
      · rw [List.length_cons] at h ⊢
        rw [hfull (by omega)]
    · next hfull =>
      refine ⟨0, rfl, fun h => ?_⟩
      rw [List.length_cons] at h
      omega

/-- The room for a cell is enough. -/
theorem escape_cell (s : Text) : escapeJsonString (s.length * 2 + 16) 0 s = s.flatMap escapeByte := by
  obtain ⟨k, hk, hfull⟩ := escape_front (s.length * 2 + 16) 0 s
  rw [hk, hfull (by omega), List.take_length]

theorem escapes_printed : (∀ x ∈ s.flatMap escapeByte, 32 ≤ x) ↔ ∀ b ∈ s, isPrintable b = true := by
  constructor
  · exact fun h b hb => (printable_iff b).mpr fun x hx => h x (List.mem_flatMap.mpr ⟨b, hb, hx⟩)
  · intro h x hx
    obtain ⟨b, hb, hxb⟩ := List.mem_flatMap.mp hx
    exact (printable_iff b).mp (h b hb) x hxb

end Json

/-! ## The text of an answer -/

section Layout

variable {columns : List Text} {rows : List (List (Option Text))} {row : List (Option Text)} {body t : Text} {l : List Text}

def rowText (row : List (Option Text)) : Text := 91 :: (commas (row.map cellText) ++ [93])

/-- The answer but for its last two brackets. -/
def answerText (columns : List Text) (rows : List (List (Option Text))) : Text :=
  kwColumns ++ commas (columns.map nameText) ++ kwRows ++ commas (rows.map rowText)

/-- What stands behind a first value. -/
def further (l : List Text) : Text := l.flatMap fun y => 44 :: 32 :: y

theorem columnPieces_further {i : Nat} (hi : 0 < i) (columns : List Text) :
    (columnPieces i columns).flatten = further (columns.map nameText) := by
  induction columns generalizing i with
  | nil => rfl
  | cons name names ih =>
    rw [columnPieces, List.flatten_cons, ih (Nat.succ_pos _), comma, if_pos hi]
    simp [further]

theorem columnPieces_commas (columns : List Text) : (columnPieces 0 columns).flatten = commas (columns.map nameText) := by
  cases columns with
  | nil => rfl
  | cons name names =>
    rw [columnPieces, List.flatten_cons, columnPieces_further Nat.one_pos]
    rfl

theorem cellPieces_further {i : Nat} (hi : 0 < i) (row : List (Option Text)) :
    (cellPieces i row).flatten = further (row.map cellText) := by
  induction row generalizing i with
  | nil => rfl
  | cons cell cells ih =>
    rw [cellPieces, List.flatten_append, List.flatten_cons, ih (Nat.succ_pos _), comma, if_pos hi]
    simp [further]

theorem cellPieces_commas (row : List (Option Text)) : (cellPieces 0 row).flatten = commas (row.map cellText) := by
  cases row with
  | nil => rfl
  | cons cell cells =>
    rw [cellPieces, List.flatten_append, List.flatten_cons, cellPieces_further Nat.one_pos]
    rfl

theorem rowPieces_flatten (i : Nat) (row : List (Option Text)) :
    (rowPieces i row).flatten = (comma i).flatten ++ rowText row := by
  rw [rowPieces, List.flatten_append, List.flatten_cons, List.flatten_append, cellPieces_commas]
  simp [rowText]

theorem rowsPieces_further {i : Nat} (hi : 0 < i) (rows : List (List (Option Text))) :
    (rowsPieces i rows).flatten = further (rows.map rowText) := by
  induction rows generalizing i with
  | nil => rfl
  | cons row rows ih =>
    rw [rowsPieces, List.flatten_append, rowPieces_flatten, ih (Nat.succ_pos _), comma, if_pos hi]
    simp [further]

theorem rowsPieces_commas (rows : List (List (Option Text))) :
    (rowsPieces 0 rows).flatten = commas (rows.map rowText) := by
  cases rows with
  | nil => rfl
  | cons row rows =>
    rw [rowsPieces, List.flatten_append, rowPieces_flatten, rowsPieces_further Nat.one_pos]
    rfl

/-! ## What is in an answer -/

/-- No byte is a control character. -/
def Printed (t : Text) : Prop := ∀ x ∈ t, 32 ≤ x

theorem printed_append {s : Text} : Printed (s ++ t) ↔ Printed s ∧ Printed t := List.forall_mem_append

theorem printed_cons {x : UInt8} : Printed (x :: t) ↔ 32 ≤ x ∧ Printed t := List.forall_mem_cons

theorem printed_nil : Printed [] := fun _ hx => absurd hx List.not_mem_nil

theorem printed_commas : Printed (commas l) ↔ ∀ t ∈ l, Printed t := by
  cases l with
  | nil => exact ⟨fun _ t ht => absurd ht List.not_mem_nil, fun _ => printed_nil⟩
  | cons x l =>
    have hbehind : Printed (l.flatMap fun y => 44 :: 32 :: y) ↔ ∀ t ∈ l, Printed t := by
      induction l with
      | nil => exact ⟨fun _ t ht => absurd ht List.not_mem_nil, fun _ => printed_nil⟩
      | cons y l ih =>
        rw [List.flatMap_cons, printed_append, printed_cons, printed_cons, ih, List.forall_mem_cons]
        exact and_congr_left fun _ => ⟨fun h => h.2.2, fun h => ⟨by decide, by decide, h⟩⟩
    rw [commas, printed_append, hbehind, List.forall_mem_cons]

theorem printed_of_all (h : (t.all fun x => decide (32 ≤ x)) = true) : Printed t := fun x hx =>
  of_decide_eq_true (List.all_eq_true.mp h x hx)

theorem printed_quoted : Printed (34 :: (t ++ [34])) ↔ Printed t := by
  rw [printed_cons, printed_append, printed_cons]
  exact ⟨fun h => h.2.1, fun h => ⟨by decide, h, by decide, printed_nil⟩⟩

theorem IsString.printed {s : Text} (h : IsString t s) : Printed t := by
  obtain ⟨l, rfl, hl⟩ := h
  exact printed_quoted.mpr (reads_printed hl)

theorem IsCell.printed {cell : Option Text} (h : IsCell t cell) : Printed t := by
  cases cell with
  | none =>
    rw [IsCell] at h
    rw [h]
    exact printed_of_all (by decide)
  | some s => exact IsString.printed h

theorem printed_row : Printed (91 :: (commas l ++ [93])) ↔ ∀ t ∈ l, Printed t := by
  rw [printed_cons, printed_append, printed_cons, printed_commas]
  exact ⟨fun h => h.2.1, fun h => ⟨by decide, h, by decide, printed_nil⟩⟩

theorem exists_right {α β : Type} {R : α → β → Prop} {l : List α} {l' : List β} {a : α} (h : List.Forall₂ R l l')
    (ha : a ∈ l) : ∃ b, R a b := by
  induction h with
  | nil => cases ha
  | @cons x y l l' hxy hl ih =>
    rcases List.mem_cons.mp ha with rfl | ha
    · exact ⟨y, hxy⟩
    · exact ih ha

/-- An answer has no control character, and ends with its brackets. -/
theorem IsAnswer.printed (h : IsAnswer rows body) : Printed body ∧ body.getLast? = some 125 := by
  obtain ⟨names, cells, hnames, hcells, rfl⟩ := h
  refine ⟨?_, by simp⟩
  rw [printed_append, printed_append, printed_append, printed_append, printed_commas, printed_commas]
  refine ⟨⟨⟨⟨printed_of_all (by decide), fun t ht => ?_⟩, printed_of_all (by decide)⟩, fun t ht => ?_⟩,
    printed_of_all (by decide)⟩
  · obtain ⟨s, hs⟩ := hnames t ht
    exact hs.printed
  · obtain ⟨row, hrow, rfl⟩ := List.mem_map.mp ht
    obtain ⟨vals, hvals⟩ := exists_right hcells hrow
    rw [printed_row]
    intro u hu
    obtain ⟨cell, hcell⟩ := exists_right hvals hu
    exact hcell.printed

end Layout

/-! ## When an answer is complete -/

section Answer

variable {columns : List Text} {rows : List (List (Option Text))}

theorem pieces_flatten (columns : List Text) (rows : List (List (Option Text))) :
    ([kwColumns] ++ columnPieces 0 columns ++ [kwRows]).flatten ++ (rowsPieces 0 rows).flatten =
      answerText columns rows := by
  rw [rowsPieces_commas, List.flatten_append, List.flatten_append, columnPieces_commas]
  simp [answerText]

theorem printed_roff (columns : List Text) (rows : List (List (Option Text))) :
    (printRows (Resp.empty.printAll respCap ([kwColumns] ++ columnPieces 0 columns ++ [kwRows])) 0 rows).roff ≤
      (answerText columns rows).length := by
  have hmono := (Resp.roff_printRows (Resp.empty.printAll respCap ([kwColumns] ++ columnPieces 0 columns ++ [kwRows])) 0
    rows).2
  rw [Resp.roff_printAll] at hmono
  have hempty : Resp.empty.roff = 0 := rfl
  rw [← pieces_flatten, List.length_append]
  omega

/-- Where the answer fits into half of the buffer, it is all in there. -/
theorem printed_exact (columns : List Text) (rows : List (List (Option Text))) :
    (printRows (Resp.empty.printAll respCap ([kwColumns] ++ columnPieces 0 columns ++ [kwRows])) 0 rows).roff ≤
        bufferSize * 2 →
      (printRows (Resp.empty.printAll respCap ([kwColumns] ++ columnPieces 0 columns ++ [kwRows])) 0 rows).Exact
        (answerText columns rows) := by
  intro h
  have hmono := (Resp.roff_printRows (Resp.empty.printAll respCap ([kwColumns] ++ columnPieces 0 columns ++ [kwRows])) 0
    rows).1
  rw [Resp.roff_printAll] at hmono
  have hfits : ([] : Text).length + ([kwColumns] ++ columnPieces 0 columns ++ [kwRows]).flatten.length < respCap := by
    have hempty : Resp.empty.roff = 0 := rfl
    rw [List.length_nil]
    unfold respCap bufferSize at *
    omega
  have hhead := Resp.empty_exact.printAll hfits (by decide)
  have hall := hhead.printRows h
  rwa [List.nil_append, pieces_flatten] at hall

/-- The buffer ends with a bracket that is not the last one. -/
theorem answerText_last (columns : List Text) (rows : List (List (Option Text))) (t : Text) (ht : t = [] ∨ t = [93]) :
    (answerText columns rows ++ t).getLast? ≠ some 125 := by
  rcases ht with rfl | rfl
  · rw [List.append_nil, answerText]
    rcases List.eq_nil_or_concat rows with rfl | ⟨front, row, rfl⟩
    · simp [commas, kwRows, ascii]
    · have hlast : ∃ x, commas ((front.concat row).map rowText) = x ++ [93] := by
        rw [List.concat_eq_append, List.map_append, List.map_singleton]
        cases front with
        | nil => exact ⟨91 :: commas (row.map cellText), by simp [commas, rowText]⟩
        | cons y front =>
          exact ⟨rowText y ++ (further (front.map rowText) ++ 44 :: 32 :: 91 :: commas (row.map cellText)),
            by simp [commas, further, rowText]⟩
      obtain ⟨x, hx⟩ := hlast
      rw [hx, ← List.append_assoc]
      simp
  · simp

/-- What is in the buffer is an answer if and only if what was printed has no control character. -/
theorem isAnswer_iff (columns : List Text) (rows : List (List (Option Text))) :
    IsAnswer rows (answerText columns rows ++ [93, 125]) ↔
      (∀ name ∈ columns, ∀ b ∈ escapeJsonString 128 0 name, 32 ≤ b) ∧
        ∀ row ∈ rows, ∀ txt, some txt ∈ row → ∀ b ∈ txt, isPrintable b = true := by
  constructor
  · intro h
    have hprinted := h.printed.1
    rw [answerText, printed_append, printed_append, printed_append, printed_append, printed_commas, printed_commas]
      at hprinted
    refine ⟨fun name hname => ?_, fun row hrow txt htxt => ?_⟩
    · exact printed_quoted.mp (hprinted.1.1.1.2 _ (List.mem_map_of_mem hname))
    · have hcell := printed_row.mp (hprinted.1.2 _ (List.mem_map_of_mem hrow)) _ (List.mem_map_of_mem htxt)
      rw [cellText, printed_quoted, escape_cell] at hcell
      exact escapes_printed.mp hcell
  · rintro ⟨hnames, hrows⟩
    refine ⟨columns.map nameText, rows.map fun row => row.map cellText, ?_, ?_, ?_⟩
    · intro t ht
      obtain ⟨name, hname, rfl⟩ := List.mem_map.mp ht
      obtain ⟨k, hk, -⟩ := escape_front 128 0 name
      have hprinted := hnames name hname
      rw [hk, escapes_printed] at hprinted
      exact ⟨name.take k, _, rfl, hk ▸ escapes_read hprinted⟩
    · rw [List.forall₂_map_left_iff, List.forall₂_same]
      intro row hrow
      rw [List.forall₂_map_left_iff, List.forall₂_same]
      intro cell hcell
      cases cell with
      | none => rfl
      | some txt => exact ⟨_, rfl, by rw [escape_cell]; exact escapes_read (hrows row hrow txt hcell)⟩
    · rw [answerText, List.map_map]
      rfl

theorem length_le_escapes (s : Text) : s.length ≤ (s.flatMap escapeByte).length := by
  induction s with
  | nil => exact Nat.le_refl _
  | cons b s ih =>
    have hb : 1 ≤ (escapeByte b).length := by
      unfold escapeByte
      split_ifs <;> simp
    rw [List.flatMap_cons, List.length_append, List.length_cons]
    omega

end Answer

end CustomDB
