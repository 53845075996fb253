import CustomDB.Server.Request
import CustomDB.Server.Framing
import CustomDB.Sql.Scan
import CustomDB.Lib.JsonText

/-!
# The SQL text of a request

What a POST with a JSON body says, and when the handler executes it: what it sees of the body is what came with the end
of the head.
-/

namespace CustomDB

open Lib.JsonText (JsonChar isPlain)

/-! ## Searching -/

section Search

variable {pat p q s : Text} {b c : UInt8}

theorem starts_append (h : pat.length ≤ p.length) : starts pat (p ++ q) = starts pat p := by
  rw [starts, starts, List.take_append_of_le_length h]

theorem length_of_starts (h : starts pat p = true) : pat.length ≤ p.length := by
  have heq : p.take pat.length = pat := of_decide_eq_true h
  rw [← heq, List.length_take]
  omega

theorem strstr_suffix (h : strstr pat p = some s) : s <:+ p := by
  induction p with
  | nil =>
    rw [strstr] at h
    split at h
    · cases h
      exact List.suffix_refl _
    · cases h
  | cons b p ih =>
    rw [strstr] at h
    split at h
    · cases h
      exact List.suffix_refl _
    · exact (ih h).trans (List.suffix_cons ..)

theorem length_of_strstr (h : strstr pat p = some s) : pat.length ≤ s.length := by
  induction p with
  | nil =>
    rw [strstr] at h
    split at h
    · next hpat =>
      rw [hpat]
      exact Nat.zero_le _
    · cases h
  | cons b p ih =>
    rw [strstr] at h
    split at h
    · next hstarts =>
      cases h
      exact length_of_starts hstarts
    · exact ih h

/-- What is found stays the first one whatever is behind. -/
theorem strstr_append (h : strstr pat p = some s) : strstr pat (p ++ q) = some (s ++ q) := by
  have hlen : pat.length ≤ p.length := le_trans (length_of_strstr h) (strstr_suffix h).length_le
  induction p with
  | nil =>
    rw [strstr] at h
    split at h
    · next hpat =>
      cases h
      subst hpat
      cases q <;> simp [strstr, starts]
    · cases h
  | cons b p ih =>
    rw [strstr] at h
    rw [List.cons_append, strstr, ← List.cons_append, starts_append hlen]
    split at h
    · next hstarts =>
      cases h
      rw [if_pos hstarts]
    · next hstarts =>
      rw [if_neg hstarts]
      exact ih h (le_trans (length_of_strstr h) (strstr_suffix h).length_le)

/-- What is found in front is found without what is behind. -/
theorem strstr_of_append (h : strstr pat (p ++ q) = some (s ++ q)) (hlen : pat.length ≤ s.length) (hs : s ≠ []) :
    strstr pat p = some s := by
  induction p with
  | nil =>
    have hle := (strstr_suffix h).length_le
    have hpos := List.length_pos_of_ne_nil hs
    rw [List.nil_append, List.length_append] at hle
    omega
  | cons b p ih =>
    rw [List.cons_append, strstr] at h
    rw [strstr]
    split at h
    · next hstarts =>
      have heq : b :: p = s := List.append_cancel_right (Option.some.inj h)
      rw [← List.cons_append, heq, starts_append hlen] at hstarts
      rw [heq, if_pos hstarts]
    · next hstarts =>
      have hno : ¬ starts pat (b :: p) = true := by
        intro hs'
        rw [← List.cons_append, starts_append (length_of_starts hs')] at hstarts
        exact hstarts hs'
      rw [if_neg hno]
      exact ih h

theorem strstr_skip (h : ∀ x ∈ p, x ≠ c) (pat q : Text) : strstr (c :: pat) (p ++ q) = strstr (c :: pat) q := by
  induction p with
  | nil => rfl
  | cons b p ih =>
    have hb : ¬ starts (c :: pat) (b :: (p ++ q)) = true := by
      intro hs
      have heq : (b :: (p ++ q)).take (c :: pat).length = c :: pat := of_decide_eq_true hs
      rw [List.length_cons, List.take_succ_cons] at heq
      exact h b (List.mem_cons_self ..) (List.cons.inj heq).1
    rw [List.cons_append, strstr, if_neg hb, ih fun x hx => h x (List.mem_cons_of_mem _ hx)]

end Search

/-! ## The request, as it is written -/

/-- A JSON object with an `sql` member whose value is a string; what is around the member is left open. -/
structure SqlBody where
  front : Text
  gap : Blank
  gap' : Blank
  chars : List JsonChar
  back : Text
  front_ok : 0 ∉ front
  back_ok : 0 ∉ back

namespace SqlBody

/-- The body up to the value's closing quote. -/
def upTo (b : SqlBody) : Text :=
  b.front ++ (kwSql ++ (b.gap.text ++ 58 :: (b.gap'.text ++ 34 :: Lib.JsonText.text b.chars)))

def text (b : SqlBody) : Text := b.upTo ++ 34 :: b.back

end SqlBody

/-- A POST with that body to one of the paths that run a query. -/
structure SqlPost where
  path : Text
  path_ok : path ∈ queryPaths
  version : Text
  headers : List Text
  body : SqlBody
  version_ok : ∀ b ∈ version, b ≠ 10 ∧ b ≠ 13 ∧ b ≠ 0
  headers_ok : ∀ l ∈ headers, l ≠ [] ∧ ∀ b ∈ l, b ≠ 10 ∧ b ≠ 13 ∧ b ≠ 0
  length_ok : ∃ name ∈ headers, ∃ gap : Blank, startsCI kwContentLength name = true ∧
    name.drop 15 = gap.text ++ printInt (BitVec.ofNat 32 body.text.length)

namespace SqlPost

def requestLine (r : SqlPost) : Text := kwPost ++ (r.path ++ 32 :: r.version)

/-- Lines with their ends, and the empty one. -/
def headText : List Text → Text
  | [] => [13, 10]
  | l :: ls => l ++ 13 :: 10 :: headText ls

def head (r : SqlPost) : Text := headText (r.requestLine :: r.headers)

def text (r : SqlPost) : Text := r.head ++ r.body.text

/-- What is executed: the value of the member, if the body is no longer than the buffer and there is a value. -/
def expected (r : SqlPost) : Option Text :=
  if bufferSize - 1 < r.body.text.length ∨ r.body.chars = [] then none else some (Lib.JsonText.value r.body.chars)

end SqlPost

/-- What the reads bring until so many bytes are there. -/
def firstReads : Nat → List Text → Text
  | _, [] => []
  | n, c :: cs => if n ≤ c.length then c else c ++ firstReads (n - c.length) cs

/-- What came of the body with the end of the head. -/
def SqlPost.arrived (r : SqlPost) (reads : List Text) : Text :=
  ((firstReads r.head.length reads).take (bufferSize - 1)).drop r.head.length

/-! ## The head -/

section Head

variable {ls : List Text} {p q : Text}

theorem headText_peek (hls : ∀ l ∈ ls, l ≠ [] ∧ ∀ b ∈ l, b ≠ 10 ∧ b ≠ 13 ∧ b ≠ 0) (hne : ls ≠ []) :
    peek (SqlPost.headText ls) ≠ 13 ∧ peek (SqlPost.headText ls) ≠ 10 := by
  cases ls with
  | nil => exact absurd rfl hne
  | cons l ls =>
    obtain ⟨hl, hb⟩ := hls l (List.mem_cons_self ..)
    rw [SqlPost.headText, peek_append hl]
    exact ⟨(hb _ (peek_mem hl)).2.1, (hb _ (peek_mem hl)).1⟩

theorem headText_ne_nil (ls : List Text) : SqlPost.headText ls ≠ [] := by
  cases ls <;> simp [SqlPost.headText]

/-- The empty line is where the head ends. -/
theorem strstr_head (hls : ∀ l ∈ ls, l ≠ [] ∧ ∀ b ∈ l, b ≠ 10 ∧ b ≠ 13 ∧ b ≠ 0) (hne : ls ≠ []) (p : Text) :
    strstr crlfTwice (SqlPost.headText ls ++ p) = some (crlfTwice ++ p) := by
  induction ls with
  | nil => exact absurd rfl hne
  | cons l ls ih =>
    have hl := hls l (List.mem_cons_self ..)
    have hls' : ∀ l ∈ ls, l ≠ [] ∧ ∀ b ∈ l, b ≠ 10 ∧ b ≠ 13 ∧ b ≠ 0 := fun l' h => hls l' (List.mem_cons_of_mem _ h)
    rw [SqlPost.headText, List.append_assoc, crlfTwice, strstr_skip fun x hx => (hl.2 x hx).2.1]
    by_cases hnil : ls = []
    · subst hnil
      rfl
    · have hpeek := (headText_peek hls' hnil).1
      have hnext := ih hls' hnil
      rw [crlfTwice] at hnext
      obtain ⟨b, t, hhead⟩ : ∃ b t, SqlPost.headText ls = b :: t := List.exists_cons_of_ne_nil (headText_ne_nil ls)
      rw [hhead, peek_cons] at hpeek
      rw [hhead] at hnext ⊢
      rw [List.cons_append, List.cons_append, strstr, if_neg (by simp [starts, hpeek]), strstr,
        if_neg (by simp [starts]), hnext]

/-- No line of the head is empty. -/
theorem strstr_lf_head (hls : ∀ l ∈ ls, l ≠ [] ∧ ∀ b ∈ l, b ≠ 10 ∧ b ≠ 13 ∧ b ≠ 0) :
    strstr lfTwice (SqlPost.headText ls) = none := by
  induction ls with
  | nil => decide
  | cons l ls ih =>
    have hl := hls l (List.mem_cons_self ..)
    have hls' : ∀ l ∈ ls, l ≠ [] ∧ ∀ b ∈ l, b ≠ 10 ∧ b ≠ 13 ∧ b ≠ 0 := fun l' h => hls l' (List.mem_cons_of_mem _ h)
    have hnext := ih hls'
    obtain ⟨b, t, hhead⟩ : ∃ b t, SqlPost.headText ls = b :: t := List.exists_cons_of_ne_nil (headText_ne_nil ls)
    have hb : b ≠ 10 := by
      by_cases hnil : ls = []
      · subst hnil
        cases hhead
        decide
      · have hpeek := (headText_peek hls' hnil).2
        rwa [hhead] at hpeek
    rw [lfTwice] at hnext ⊢
    rw [SqlPost.headText, strstr_skip fun x hx => (hl.2 x hx).1, strstr, if_neg (by simp [starts]), hhead, strstr,
      if_neg (by simp [starts, hb]), ← hhead, hnext]

variable (r : SqlPost)

set_option maxRecDepth 4000 in
theorem SqlPost.lines_ok : ∀ l ∈ r.requestLine :: r.headers, l ≠ [] ∧ ∀ b ∈ l, b ≠ 10 ∧ b ≠ 13 ∧ b ≠ 0 := by
  intro l hl
  rcases List.mem_cons.mp hl with rfl | hl
  · have hpath : ∀ b ∈ r.path, b ≠ 10 ∧ b ≠ 13 ∧ b ≠ 0 := by
      have hpaths : ∀ q ∈ queryPaths, ∀ b ∈ q, b ≠ 10 ∧ b ≠ 13 ∧ b ≠ 0 := by decide
      exact hpaths _ r.path_ok
    have hpost : ∀ b ∈ kwPost, b ≠ 10 ∧ b ≠ 13 ∧ b ≠ 0 := by decide
    refine ⟨by simp [requestLine, kwPost, ascii], fun b hb => ?_⟩
    rcases List.mem_append.mp hb with hb | hb
    · exact hpost b hb
    · rcases List.mem_append.mp hb with hb | hb
      · exact hpath b hb
      · rcases List.mem_cons.mp hb with rfl | hb
        · decide
        · exact r.version_ok b hb
  · exact r.headers_ok l hl

theorem SqlPost.head_noNul : 0 ∉ r.head := by
  have key : ∀ ls : List Text, (∀ l ∈ ls, l ≠ [] ∧ ∀ b ∈ l, b ≠ 10 ∧ b ≠ 13 ∧ b ≠ 0) → 0 ∉ headText ls := by
    intro ls
    induction ls with
    | nil => exact fun _ => by decide
    | cons l ls ih =>
      intro hls h0
      rw [headText, List.mem_append, List.mem_cons, List.mem_cons] at h0
      rcases h0 with h0 | h0 | h0 | h0
      · exact ((hls l (List.mem_cons_self ..)).2 0 h0).2.2 rfl
      · cases h0
      · cases h0
      · exact ih (fun l' h => hls l' (List.mem_cons_of_mem _ h)) h0
  exact key _ r.lines_ok

/-- Nothing is found before the head is complete. -/
theorem SqlPost.bodyStart_short (h : p ++ q = r.head) (hq : q ≠ []) : bodyStart p = none := by
  have h0 : 0 ∉ p := fun hmem => r.head_noNul (h ▸ List.mem_append_left _ hmem)
  have hcrlf := strstr_head r.lines_ok (List.cons_ne_nil _ _) []
  have hlf : strstr lfTwice r.head = none := strstr_lf_head r.lines_ok
  rw [List.append_nil, List.append_nil] at hcrlf
  unfold bodyStart
  rw [cString_eq h0]
  cases hs : strstr crlfTwice p with
  | some s =>
    have happ := strstr_append (q := q) hs
    rw [h, head, hcrlf] at happ
    have hlen := congrArg List.length (Option.some.inj happ)
    have hle := length_of_strstr hs
    have hpos := List.length_pos_of_ne_nil hq
    rw [List.length_append] at hlen
    omega
  | none =>
    cases hs' : strstr lfTwice p with
    | none => rfl
    | some s =>
      have happ := strstr_append (q := q) hs'
      rw [h, hlf] at happ
      cases happ

theorem SqlPost.bodyStart_head (h0 : 0 ∉ p) : bodyStart (r.head ++ p) = some (crlfTwice ++ p) := by
  have hnul : 0 ∉ r.head ++ p := fun h => (List.mem_append.mp h).elim r.head_noNul h0
  unfold bodyStart
  rw [cString_eq hnul, head, strstr_head r.lines_ok (List.cons_ne_nil _ _)]
  rfl

end Head

/-! ## What is read -/

section Read

variable (r : SqlPost) {p q buf : Text} {reads : List Text}

theorem zero_notMem_plain {l : Text} (h : ∀ b ∈ l, isPlain b = true) : 0 ∉ l := fun h0 => by cases h 0 h0

theorem zero_notMem_jsonText (cs : List JsonChar) : 0 ∉ Lib.JsonText.text cs := by
  have hdigits : ∀ u : Lib.JsonText.Unit16, 0 ∉ u.digits := fun u =>
    zero_notMem_plain fun b hb => Lib.JsonText.hex_plain (u.hex b hb)
  intro h0
  obtain ⟨c, -, hc⟩ := List.mem_flatMap.mp h0
  cases c with
  | plain b h =>
    rw [JsonChar.text, List.mem_singleton] at hc
    subst hc
    cases h
  | short e => cases e <;> revert hc <;> decide
  | unicode u h => simp [JsonChar.text, hdigits u] at hc
  | pair u v hu hv => simp [JsonChar.text, hdigits u, hdigits v] at hc

theorem Blank.zero_notMem (g : Blank) : 0 ∉ g.text := fun h0 => by cases g.space 0 h0

theorem SqlBody.noNul (b : SqlBody) : 0 ∉ b.text := by
  have hkw : (0 : UInt8) ∉ kwSql := by decide
  simp [text, upTo, b.front_ok, b.back_ok, b.gap.zero_notMem, b.gap'.zero_notMem, zero_notMem_jsonText, hkw]

/-- The reading stops with the read that brings the end of the head. -/
theorem readHead_eq (hreads : [] ∉ reads) (htext : buf ++ reads.flatten = r.text) (hbuf : buf.length < r.head.length)
    (hroom : buf.length ≤ bufferSize - 1) :
    (readHead buf reads).1 = (buf ++ firstReads (r.head.length - buf.length) reads).take (bufferSize - 1) := by
  induction reads generalizing buf with
  | nil =>
    have hlen := congrArg List.length htext
    simp only [List.flatten_nil, List.append_nil, SqlPost.text, List.length_append] at hlen
    omega
  | cons c cs ih =>
    have hc : c ≠ [] := fun h => hreads (h ▸ List.mem_cons_self ..)
    have hcs : [] ∉ cs := fun h => hreads (List.mem_cons_of_mem _ h)
    obtain ⟨q, hq⟩ : ∃ q, buf ++ q = r.head := by
      have hpre : buf <+: r.head := List.prefix_of_prefix_length_le ⟨_, htext⟩ ⟨_, rfl⟩ (Nat.le_of_lt hbuf)
      exact hpre
    have hne : q ≠ [] := by
      rintro rfl
      rw [List.append_nil] at hq
      rw [hq] at hbuf
      exact Nat.lt_irrefl _ hbuf
    have hnone : bodyStart buf = none := r.bodyStart_short hq hne
    rw [readHead, hnone]
    by_cases hfull : bufferSize - 1 ≤ buf.length
    · rw [if_pos (Or.inr hfull), List.take_append_of_le_length hfull, List.take_of_length_le hroom]
    · rw [if_neg (by simp [hfull]), if_neg hc]
      by_cases hfits : c.length ≤ bufferSize - 1 - buf.length
      · rw [if_pos hfits, firstReads]
        have hlen : (buf ++ c).length ≤ bufferSize - 1 := by
          rw [List.length_append]
          omega
        by_cases hhead : r.head.length - buf.length ≤ c.length
        · -- the head is complete, and the loop ends
          rw [if_pos hhead, List.take_of_length_le hlen]
          obtain ⟨t, ht⟩ : r.head <+: buf ++ c := by
            refine List.prefix_of_prefix_length_le (⟨_, rfl⟩ : r.head <+: r.text) ⟨cs.flatten, ?_⟩ ?_
            · rw [← htext, List.flatten_cons, List.append_assoc]
            · rw [List.length_append]
              omega
          have h0 : 0 ∉ t := by
            intro h0
            have hmem : 0 ∈ r.body.text := by
              have hall : r.head ++ (t ++ cs.flatten) = r.head ++ r.body.text := by
                rw [← List.append_assoc, ht, List.append_assoc, ← List.flatten_cons, htext, SqlPost.text]
              rw [← List.append_cancel_left hall]
              exact List.mem_append_left _ h0
            exact r.body.noNul hmem
          have hsome : (bodyStart (buf ++ c)).isSome = true := by rw [← ht, r.bodyStart_head h0]; rfl
          cases cs with
          | nil => rfl
          | cons c' cs => rw [readHead, if_pos (Or.inl hsome)]
        · rw [if_neg hhead, ih hcs (by rw [List.append_assoc, ← List.flatten_cons, htext])
            (by rw [List.length_append]; omega) hlen, List.length_append, List.append_assoc, Nat.sub_add_eq]
      · rw [if_neg hfits]
        have htake : (buf ++ c).take (bufferSize - 1) = buf ++ c.take (bufferSize - 1 - buf.length) := by
          rw [List.take_append, List.take_of_length_le hroom]
        rw [← htake, firstReads]
        split
        · rfl
        · have hfull' : bufferSize - 1 ≤ (buf ++ c).length := by
            rw [List.length_append]
            omega
          rw [← List.append_assoc, List.take_append_of_le_length hfull']

theorem prefix_firstReads (n : Nat) (reads : List Text) : firstReads n reads <+: reads.flatten := by
  induction reads generalizing n with
  | nil => exact List.prefix_refl _
  | cons c cs ih =>
    rw [firstReads, List.flatten_cons]
    split
    · exact List.prefix_append ..
    · exact (List.prefix_append_right_inj c).mpr (ih _)

theorem length_firstReads {n : Nat} (h : n ≤ reads.flatten.length) : n ≤ (firstReads n reads).length := by
  induction reads generalizing n with
  | nil => exact h
  | cons c cs ih =>
    rw [List.flatten_cons, List.length_append] at h
    rw [firstReads]
    split
    · assumption
    · have hrest := ih (n := n - c.length) (by omega)
      rw [List.length_append]
      omega

theorem readBody_none (start : Nat) (buf : Text) (reads : List Text) : readBody 0 start buf reads = buf := by
  cases reads with
  | nil => rfl
  | cons c cs => rw [readBody, if_pos (Or.inl (Int.natCast_nonneg _))]

variable {r}

/-- What the buffer holds when the reading is done, and what the handler takes for the body. -/
theorem readRequest_eq (hreads : [] ∉ reads) (htext : reads.flatten = r.text) :
    readRequest [] reads = ((firstReads r.head.length reads).take (bufferSize - 1), r.arrived reads) := by
  have hpos : 0 < r.head.length := List.length_pos_of_ne_nil (headText_ne_nil _)
  have hread := @readHead_eq r [] reads hreads htext hpos (Nat.zero_le _)
  rw [List.nil_append, List.length_nil, Nat.sub_zero] at hread
  have hlength : contentLength ([] : Text) = 0 := rfl
  have hpre : (firstReads r.head.length reads).take (bufferSize - 1) <+: r.text := by
    rw [← htext]
    exact (List.take_prefix ..).trans (prefix_firstReads ..)
  unfold readRequest
  dsimp only
  rw [List.take_nil, hlength, hread, SqlPost.arrived]
  generalize hb : (firstReads r.head.length reads).take (bufferSize - 1) = buf at hpre ⊢
  by_cases hhead : r.head.length ≤ buf.length
  · obtain ⟨t, rfl⟩ : r.head <+: buf := List.prefix_of_prefix_length_le ⟨_, rfl⟩ hpre hhead
    have h0 : 0 ∉ t := by
      intro h0
      obtain ⟨u, hu⟩ := hpre
      rw [SqlPost.text, List.append_assoc] at hu
      apply r.body.noNul
      rw [← List.append_cancel_left hu]
      exact List.mem_append_left _ h0
    have hnul : 0 ∉ r.head ++ t := fun h => (List.mem_append.mp h).elim r.head_noNul h0
    have hcrlf : starts crlfTwice (crlfTwice ++ t) = true := by
      rw [starts, List.take_left]
      exact decide_eq_true rfl
    rw [r.bodyStart_head h0]
    dsimp only
    rw [hcrlf, if_pos rfl, cString_eq hnul, readBody_none]
    have hdrop : (crlfTwice ++ t).drop 4 = t := List.drop_left' rfl
    rw [hdrop, List.length_append, Nat.add_sub_cancel]
  · -- the buffer is full before the head is complete
    have hshort : buf.length < r.head.length := Nat.lt_of_not_le hhead
    obtain ⟨q, hq⟩ : buf <+: r.head := List.prefix_of_prefix_length_le hpre ⟨_, rfl⟩ (Nat.le_of_lt hshort)
    have hne : q ≠ [] := by
      rintro rfl
      rw [List.append_nil] at hq
      rw [hq] at hshort
      exact Nat.lt_irrefl _ hshort
    rw [r.bodyStart_short hq hne, List.drop_eq_nil_of_le (Nat.le_of_lt hshort)]

theorem prefix_arrived (htext : reads.flatten = r.text) : r.arrived reads <+: r.body.text := by
  have hpre : (firstReads r.head.length reads).take (bufferSize - 1) <+: r.text := by
    rw [← htext]
    exact (List.take_prefix ..).trans (prefix_firstReads ..)
  have hdrop := hpre.drop r.head.length
  rwa [SqlPost.text, List.drop_left] at hdrop

/-- What is executed is what the handler makes of the body it has. -/
theorem executed_eq (hreads : [] ∉ reads) (htext : reads.flatten = r.text) :
    (handleHttpRequest [] reads).executed =
      if sqlOf (r.arrived reads) = [] then none else some (sqlOf (r.arrived reads)) := by
  have hpre : (firstReads r.head.length reads).take (bufferSize - 1) <+: r.text := by
    rw [← htext]
    exact (List.take_prefix ..).trans (prefix_firstReads ..)
  have harrived : 0 ∉ r.arrived reads := by
    intro h0
    have hmem := (prefix_arrived htext).subset h0
    exact r.body.noNul hmem
  -- the method and the path are at the front of the buffer
  obtain ⟨tail, htail⟩ : ∃ tail, cString ((firstReads r.head.length reads).take (bufferSize - 1)) =
      kwPost ++ (r.path ++ 32 :: tail) := by
    have hnul : 0 ∉ (firstReads r.head.length reads).take (bufferSize - 1) := fun h0 =>
      (List.mem_append.mp (hpre.subset h0)).elim r.head_noNul r.body.noNul
    have hpath : r.path.length ≤ 10 := by
      have hpaths : ∀ q ∈ queryPaths, q.length ≤ 10 := by decide
      exact hpaths _ r.path_ok
    have hhead : kwPost ++ (r.path ++ [32]) <+: r.head := by
      refine ⟨r.version ++ 13 :: 10 :: SqlPost.headText r.headers, ?_⟩
      simp [SqlPost.head, SqlPost.headText, SqlPost.requestLine]
    have htotal : r.head.length ≤ reads.flatten.length := by
      rw [htext, SqlPost.text, List.length_append]
      exact Nat.le_add_right _ _
    have hlen : (kwPost ++ (r.path ++ [32])).length ≤ ((firstReads r.head.length reads).take (bufferSize - 1)).length := by
      have hfront := hhead.length_le
      have hread := length_firstReads htotal
      have hkw : kwPost.length = 5 := rfl
      rw [List.length_append, List.length_append, List.length_singleton, hkw] at hfront ⊢
      rw [List.length_take, bufferSize]
      omega
    obtain ⟨tail, htail⟩ := List.prefix_of_prefix_length_le (hhead.trans ⟨r.body.text, rfl⟩) hpre hlen
    refine ⟨tail, ?_⟩
    rw [cString_eq hnul, ← htail]
    simp
  have hmethod : scanWord 15 (kwPost ++ (r.path ++ 32 :: tail)) = (kwPost.take 4, 32 :: (r.path ++ 32 :: tail)) := rfl
  have hpath : (scanWord 255 (32 :: (r.path ++ 32 :: tail))).1 = r.path := by
    have hpaths : ∀ q ∈ queryPaths, (scanWord 255 (32 :: (q ++ 32 :: tail))).1 = q := by
      intro q hq
      simp only [queryPaths, List.mem_cons, List.not_mem_nil, or_false] at hq
      rcases hq with rfl | rfl | rfl <;> rfl
    exact hpaths _ r.path_ok
  unfold handleHttpRequest
  dsimp only
  rw [readRequest_eq hreads htext]
  dsimp only
  rw [htail, hmethod, cString_eq harrived]
  dsimp only
  rw [hpath, if_neg (by decide), if_pos (by decide), if_pos r.path_ok]
  split <;> rfl

end Read

/-! ## The value -/

/-- What the handler makes of a character. -/
def copied : JsonChar → Text
  | .plain b _ => [b]
  | .short e => [unescapeChar e.letter]
  | .unicode u _ => 117 :: u.digits
  | .pair u v _ _ => 117 :: (u.digits ++ 117 :: v.digits)

/-- The handler knows the character: it is no `\b`, `\f` or `\u`. -/
def Known : JsonChar → Prop
  | .plain _ _ => True
  | .short e => e ≠ .backspace ∧ e ≠ .formFeed
  | .unicode _ _ => False
  | .pair _ _ _ _ => False

section Value

variable {p : Text} {n : Nat}

theorem unescape_other {b : UInt8} (h92 : b ≠ 92) (h34 : b ≠ 34) (n : Nat) (p : Text) :
    unescape (n + 1) (b :: p) = b :: unescape n p := by
  rw [unescape.eq_def]
  simp [h92, h34]

theorem unescape_plain {l : Text} (hl : ∀ b ∈ l, isPlain b = true) (hn : l.length ≤ n) (p : Text) :
    unescape n (l ++ p) = l ++ unescape (n - l.length) p := by
  induction l generalizing n with
  | nil => rfl
  | cons b l ih =>
    obtain ⟨m, rfl⟩ : ∃ m, n = m + 1 := ⟨n - 1, by simp at hn; omega⟩
    have hb := hl b (List.mem_cons_self ..)
    have h92 : b ≠ 92 := by
      rintro rfl
      cases hb
    have h34 : b ≠ 34 := by
      rintro rfl
      cases hb
    rw [List.cons_append, unescape_other h92 h34, ih (fun x hx => hl x (List.mem_cons_of_mem _ hx))
      (Nat.le_of_succ_le_succ hn), List.length_cons, Nat.add_sub_add_right, List.cons_append]

/-- A backslash and the letter behind it give one byte. -/
theorem unescape_escape (b : UInt8) (hn : 0 < n) (p : Text) :
    unescape n (92 :: b :: p) = unescapeChar b :: unescape (n - 1) p := by
  obtain ⟨m, rfl⟩ : ∃ m, n = m + 1 := ⟨n - 1, by omega⟩
  rw [unescape, if_pos rfl, Nat.add_sub_cancel]

theorem unescape_char (c : JsonChar) (hn : (copied c).length ≤ n) (p : Text) :
    unescape n (c.text ++ p) = copied c ++ unescape (n - (copied c).length) p := by
  have hdigits : ∀ u : Lib.JsonText.Unit16, ∀ b ∈ u.digits, isPlain b = true := fun u b hb =>
    Lib.JsonText.hex_plain (u.hex b hb)
  have hu : unescapeChar 117 = 117 := by decide
  cases c with
  | plain b h => exact unescape_plain (l := [b]) (fun x hx => (List.mem_singleton.mp hx) ▸ h) hn p
  | short e => exact unescape_escape e.letter hn p
  | unicode u h =>
    have hlen : u.digits.length + 1 ≤ n := hn
    show unescape n (92 :: 117 :: (u.digits ++ p)) = _
    rw [unescape_escape 117 (by omega), unescape_plain (hdigits u) (by omega), hu]
    show _ = 117 :: (u.digits ++ unescape (n - (u.digits.length + 1)) p)
    rw [Nat.sub_sub, Nat.add_comm]
  | pair u v hu' hv =>
    have hlen : (u.digits ++ 117 :: v.digits).length + 1 ≤ n := hn
    rw [List.length_append, List.length_cons] at hlen
    have htext : (JsonChar.pair u v hu' hv).text ++ p = 92 :: 117 :: (u.digits ++ 92 :: 117 :: (v.digits ++ p)) := by
      simp [JsonChar.text]
    rw [htext, unescape_escape 117 (by omega), unescape_plain (hdigits u) (by omega), unescape_escape 117 (by omega),
      unescape_plain (hdigits v) (by omega), hu]
    simp only [copied, List.length_cons, List.length_append, List.cons_append, List.append_assoc]
    congr 5
    omega

/-- The value is copied up to its closing quote, or to the end of what is there. -/
theorem unescape_value (cs : List JsonChar) (hp : p = [] ∨ peek p = 34) (hn : (cs.flatMap copied).length ≤ n) :
    unescape n (Lib.JsonText.text cs ++ p) = cs.flatMap copied := by
  induction cs generalizing n with
  | nil =>
    rcases hp with rfl | hp
    · cases n <;> rfl
    · cases p with
      | nil => cases n <;> rfl
      | cons b p =>
        have hb : b = 34 := hp
        subst hb
        cases n with
        | zero => rfl
        | succ n =>
          show unescape (n + 1) (34 :: p) = []
          rw [unescape.eq_def]
          rfl
  | cons c cs ih =>
    rw [List.flatMap_cons, List.length_append] at hn
    rw [Lib.JsonText.text_cons, List.append_assoc, unescape_char c (by omega), ih (by omega), List.flatMap_cons]

theorem length_copied (c : JsonChar) : 1 ≤ (copied c).length ∧ (copied c).length ≤ c.text.length := by
  cases c <;> simp [copied, JsonChar.text]
  omega

theorem length_copied_le (cs : List JsonChar) : (cs.flatMap copied).length ≤ (Lib.JsonText.text cs).length := by
  induction cs with
  | nil => exact Nat.le_refl _
  | cons c cs ih =>
    rw [List.flatMap_cons, List.length_append, Lib.JsonText.text_cons, List.length_append]
    exact Nat.add_le_add (length_copied c).2 ih

theorem length_value_le (c : JsonChar) : c.value.length ≤ (copied c).length := by
  cases c with
  | plain b h => exact Nat.le_refl _
  | short e => exact Nat.le_refl _
  | unicode u h =>
    have hlen := (Lib.JsonText.length_utf8 u.value).2
    show (Lib.JsonText.utf8 u.value).length ≤ u.digits.length + 1
    rw [u.four]
    omega
  | pair u v hu hv =>
    refine le_trans (Lib.JsonText.length_utf8 _).2 ?_
    simp [copied, u.four]
    omega

theorem copied_char_iff (c : JsonChar) : copied c = c.value ↔ Known c := by
  cases c with
  | plain b h => exact iff_of_true rfl trivial
  | short e =>
    cases e <;>
      simp [copied, JsonChar.value, Known, unescapeChar, Lib.JsonText.Short.letter, Lib.JsonText.Short.byte]
  | unicode u h =>
    refine iff_of_false (fun heq => ?_) id
    have hlen := (Lib.JsonText.length_utf8 u.value).2
    have hcopied : (copied (.unicode u h)).length = 5 := by rw [copied, List.length_cons, u.four]
    rw [heq] at hcopied
    have hvalue : ((JsonChar.unicode u h).value).length ≤ 4 := hlen
    omega
  | pair u v hu hv =>
    refine iff_of_false (fun heq => ?_) id
    have hcopied : (copied (.pair u v hu hv)).length = 10 := by simp [copied, u.four, v.four]
    rw [heq] at hcopied
    have hvalue : ((JsonChar.pair u v hu hv).value).length ≤ 4 := (Lib.JsonText.length_utf8 _).2
    omega

/-- The handler makes the value of a string if and only if it knows all its characters. -/
theorem copied_eq_iff (cs : List JsonChar) :
    cs.flatMap copied = Lib.JsonText.value cs ↔ ∀ c ∈ cs, Known c := by
  induction cs with
  | nil => simp
  | cons c cs ih =>
    have htail : (Lib.JsonText.value cs).length ≤ (cs.flatMap copied).length := by
      clear ih
      induction cs with
      | nil => exact Nat.le_refl _
      | cons c cs ih =>
        rw [Lib.JsonText.value_cons, List.length_append, List.flatMap_cons, List.length_append]
        exact Nat.add_le_add (length_value_le c) ih
    rw [List.forall_mem_cons, ← ih, ← copied_char_iff, List.flatMap_cons, Lib.JsonText.value_cons]
    constructor
    · intro h
      have hlen := congrArg List.length h
      have hhead := length_value_le c
      rw [List.length_append, List.length_append] at hlen
      exact List.append_inj h (by omega)
    · rintro ⟨hc, hcs⟩
      rw [hc, hcs]

end Value

/-! ## When the handler is right -/

section Request

variable {r : SqlPost} {reads : List Text} {p q v : Text}

/-- The value is where the search for `"sql"`, for a colon and for a quote finds it. -/
def SqlBody.Located (b : SqlBody) : Prop := valueStart b.text = some (Lib.JsonText.text b.chars ++ 34 :: b.back)

/-- The value came with the end of the head. -/
def SqlPost.Arrives (r : SqlPost) (reads : List Text) : Prop := r.body.upTo.length ≤ (r.arrived reads).length

/-- The value is found without what is behind it. -/
theorem valueStart_of_append (h : valueStart (p ++ q) = some (v ++ q)) : valueStart p = some v := by
  unfold valueStart at h ⊢
  obtain ⟨key, hkey, h⟩ := Option.bind_eq_some_iff.mp h
  obtain ⟨colon, hcolon, h⟩ := Option.bind_eq_some_iff.mp h
  obtain ⟨quote, hquote, h⟩ := Option.map_eq_some_iff.mp h
  -- the three searches end in front of what is left out
  have hquote1 := length_of_strstr hquote
  have hcolon1 := (strstr_suffix hquote).length_le
  have hkey1 := (strstr_suffix hcolon).length_le
  have hlen := congrArg List.length h
  rw [List.length_singleton] at hquote1
  rw [List.length_drop, List.length_append] at hlen
  rw [List.length_drop] at hkey1
  have hq : q <:+ key := List.suffix_of_suffix_length_le ⟨p, rfl⟩ (strstr_suffix hkey) (by omega)
  obtain ⟨k, rfl⟩ := hq
  rw [List.length_append] at hkey1
  have hlong : 5 ≤ k.length := by omega
  have hdrop : (k ++ q).drop 5 = k.drop 5 ++ q := List.drop_append_of_le_length hlong
  rw [hdrop] at hcolon
  have hq : q <:+ colon := List.suffix_of_suffix_length_le ⟨_, rfl⟩ (strstr_suffix hcolon) (by omega)
  obtain ⟨c, rfl⟩ := hq
  have hq : q <:+ quote := List.suffix_of_suffix_length_le ⟨_, rfl⟩ (strstr_suffix hquote) (by omega)
  obtain ⟨t, rfl⟩ := hq
  rw [List.length_append] at hlen hquote1 hcolon1
  rw [List.length_append] at hcolon1
  have ht : t ≠ [] := List.ne_nil_of_length_pos (by omega)
  have hc : c ≠ [] := List.ne_nil_of_length_pos (by omega)
  have hk : k ≠ [] := List.ne_nil_of_length_pos (by omega)
  have hkey' : strstr kwSql p = some k := strstr_of_append hkey hlong hk
  have hcolon' : strchr 58 (k.drop 5) = some c := strstr_of_append hcolon (List.length_pos_of_ne_nil hc) hc
  have hquote' : strchr 34 c = some t := strstr_of_append hquote (List.length_pos_of_ne_nil ht) ht
  have hv : t.drop 1 = v := by
    rw [List.drop_append_of_le_length (List.length_pos_of_ne_nil ht)] at h
    exact List.append_cancel_right h
  rw [hkey', Option.bind_some, hcolon', Option.bind_some, hquote', Option.map_some, hv]

/-- A value that was located and came is copied. -/
theorem sqlOf_arrived (htext : reads.flatten = r.text) (hlocated : r.body.Located) (harrives : r.Arrives reads) :
    sqlOf (r.arrived reads) = r.body.chars.flatMap copied := by
  obtain ⟨z, hz⟩ := prefix_arrived htext
  obtain ⟨w, hw⟩ : r.body.upTo <+: r.arrived reads :=
    List.prefix_of_prefix_length_le ⟨_, rfl⟩ ⟨z, hz⟩ harrives
  have hback : w ++ z = 34 :: r.body.back := by
    rw [← hw, List.append_assoc, SqlBody.text] at hz
    exact List.append_cancel_left hz
  have hfound : valueStart (r.arrived reads) = some (Lib.JsonText.text r.body.chars ++ w) := by
    apply valueStart_of_append (q := z)
    rw [hz, hlocated, List.append_assoc, hback]
  have hend : w = [] ∨ peek w = 34 := by
    cases w with
    | nil => exact Or.inl rfl
    | cons b w => exact Or.inr (List.cons.inj hback).1
  have hroom : (r.body.chars.flatMap copied).length ≤ bufferSize - 1 := by
    have hcopied := length_copied_le r.body.chars
    have hvalue : (Lib.JsonText.text r.body.chars).length ≤ r.body.upTo.length := by
      simp only [SqlBody.upTo, List.length_append, List.length_cons]
      omega
    have hread : (r.arrived reads).length ≤ bufferSize - 1 := by
      rw [SqlPost.arrived, List.length_drop, List.length_take]
      omega
    exact le_trans hcopied (le_trans hvalue (le_trans harrives hread))
  unfold sqlOf
  obtain ⟨key, hkey, -⟩ := Option.bind_eq_some_iff.mp hfound
  rw [hkey, hfound]
  exact unescape_value r.body.chars hend hroom

theorem copied_eq_nil {cs : List JsonChar} : cs.flatMap copied = [] ↔ cs = [] := by
  cases cs with
  | nil => simp
  | cons c cs =>
    have hc : copied c ≠ [] := List.ne_nil_of_length_pos (length_copied c).1
    simp [hc]

/-- Blanks are no query. -/
theorem sqlOf_blank (h : ∀ b ∈ p, isspace b = true) : sqlOf p = [] := by
  have hno : strstr kwSql p = none := by
    have hquote : ∀ b ∈ p, b ≠ 34 := fun b hb h34 => by
      have hspace := h b hb
      rw [h34] at hspace
      cases hspace
    have hskip := strstr_skip hquote (kwSql.drop 1) []
    rwa [List.append_nil] at hskip
  have hnil : skipWhitespace p = [] := List.dropWhile_eq_nil_iff.mpr h
  unfold sqlOf
  rw [hno, hnil]
  rfl

end Request

/-! ## A small request -/

/-- `{"sql":"a"}`. -/
def letterBody : SqlBody where
  front := [123]
  gap := ⟨[], by simp⟩
  gap' := ⟨[], by simp⟩
  chars := [.plain 97 rfl]
  back := [125]
  front_ok := by decide
  back_ok := by decide

set_option maxRecDepth 8000 in
/-- The request with that body. -/
def letterPost : SqlPost where
  path := pathSql
  path_ok := by simp [queryPaths]
  version := ascii ['H', 'T', 'T', 'P', '/', '1', '.', '1']
  headers := [kwContentLength ++ [49, 49]]
  body := letterBody
  version_ok := by decide
  headers_ok := by decide
  length_ok := ⟨_, List.mem_cons_self .., ⟨[], by simp⟩, by decide, by decide⟩

end CustomDB
