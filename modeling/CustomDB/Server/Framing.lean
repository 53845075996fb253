import CustomDB.Server.Session

/-!
# The queries of a stream

What the text of a client says, whatever reads it came in: the statements between the terminators outside of string
literals. The worker knows no literals and cuts what is too long.
-/

namespace CustomDB

/-! ## Statements -/

/-- The literal that is open behind `b`. -/
def quoteAfter (quote : Option UInt8) (b : UInt8) : Option UInt8 :=
  match quote with
  | some q => if b = q then none else some q
  | none => if b = 39 ∨ b = 34 then some b else none

/-- A carriage return outside of a literal, which no statement has. -/
def isDropped (quote : Option UInt8) (b : UInt8) : Bool := quote = none && b = 13

/-- What becomes of a statement. -/
inductive Outcome
  | executed (query : Text)
  | rejected
  deriving DecidableEq

/-- What a statement that ends here comes to, and whether it closes the connection: what does not fit with its
terminator is rejected, a blank line is nothing. -/
def outcomeOf (statement : Text) : List Outcome × Bool :=
  if bufferSize - 1 < statement.length then ([.rejected], false)
  else
    let query := statement.dropWhile isLead
    if query = [] then ([], false) else ([.executed query], isExit query)

/-- What the text comes to, behind `acc` of a statement in which the literal `quote` is open. What is longer than the
buffer is rejected before its end. -/
def outcomes : Option UInt8 → Text → Text → List Outcome
  | _, acc, [] => if bufferSize - 1 < acc.length then [.rejected] else []
  | quote, acc, b :: p =>
    if isDropped quote b then outcomes quote acc p
    else if quote = none ∧ isTerminator b then
      (outcomeOf (acc ++ [b])).1 ++ if (outcomeOf (acc ++ [b])).2 then [] else outcomes none [] p
    else outcomes (quoteAfter quote b) (acc ++ [b]) p

/-- Up to where the connection is closed, no literal has a terminator in it, and no statement is longer than the buffer
or has a carriage return in it. -/
def Unbroken : Option UInt8 → Text → Text → Prop
  | _, acc, [] => acc.length ≤ bufferSize - 1
  | quote, acc, b :: p =>
    if isDropped quote b then Unbroken quote acc p
    else if isTerminator b then
      quote = none ∧ 13 ∉ acc ∧ acc.length < bufferSize - 1 ∧
        ((outcomeOf (acc ++ [b])).2 = true ∨ Unbroken none [] p)
    else Unbroken (quoteAfter quote b) (acc ++ [b]) p

/-! ## What the worker does with a text -/

/-- The queries of a text behind `buf`. -/
def handled : Text → Text → List Text
  | _, [] => []
  | buf, b :: p =>
    if b = 13 then handled buf p
    else if isTerminator b then
      let query := cString ((pushByte buf b).dropWhile isLead)
      if query = [] then handled [] p else query :: if isExit query then [] else handled [] p
    else handled (pushByte buf b) p

theorem commandOf_exit {query : Text} : commandOf query = .exit ↔ isExit query = true := by
  unfold commandOf
  cases hexit : isExit query with
  | true => simp
  | false =>
    simp only [Bool.false_eq_true, if_false, iff_false]
    split_ifs <;> simp

theorem run_closed {s : Session} (h : s.closed = true) (p : Text) : Lib.Run.run Session.step s p = s := by
  induction p with
  | nil => rfl
  | cons b p ih => rw [Lib.Run.run_cons, Session.step, if_pos (Or.inl h), ih]

theorem run_handled (buf : Text) (queries : List Text) (p : Text) :
    (Lib.Run.run Session.step ⟨buf, queries, false⟩ p).queries = queries ++ handled buf p := by
  induction p generalizing buf queries with
  | nil => exact (List.append_nil _).symm
  | cons b p ih =>
    rw [Lib.Run.run_cons, handled]
    by_cases hcr : b = 13
    · rw [Session.step, if_pos (Or.inr hcr), if_pos hcr, ih]
    · rw [Session.step, if_neg (by simp [hcr]), if_neg hcr]
      dsimp only
      by_cases hterm : isTerminator b = true
      · rw [if_pos hterm, if_pos hterm]
        by_cases hnil : cString ((pushByte buf b).dropWhile isLead) = []
        · rw [if_pos hnil, if_pos hnil, ih]
        · rw [if_neg hnil, if_neg hnil]
          cases hexit : isExit (cString ((pushByte buf b).dropWhile isLead)) with
          | true =>
            rw [run_closed (by simpa using commandOf_exit.mpr hexit), if_pos rfl]
          | false =>
            have hcommand : decide (commandOf (cString ((pushByte buf b).dropWhile isLead)) = .exit) = false := by
              rw [decide_eq_false_iff_not, commandOf_exit, hexit]
              exact Bool.false_ne_true
            rw [hcommand, ih, if_neg Bool.false_ne_true, List.append_assoc]
            rfl
      · rw [if_neg hterm, if_neg hterm, ih]

theorem receive_flatten {reads : List Text} (h : [] ∉ reads) (s : Session) :
    s.receive reads = Lib.Run.run Session.step s reads.flatten := by
  induction reads generalizing s with
  | nil => rfl
  | cons r reads ih =>
    have hr : r ≠ [] := fun hnil => h (hnil ▸ List.mem_cons_self ..)
    rw [Session.receive, if_neg hr, ih (fun hmem => h (List.mem_cons_of_mem _ hmem)), List.flatten_cons,
      Lib.Run.run_append]

/-- The queries do not depend on how the text was cut. -/
theorem clientWorker_eq {peeked : Text} {reads : List Text} (hsql : isHttp peeked = false) (h : [] ∉ reads) :
    clientWorker peeked reads = handled [] reads.flatten := by
  rw [clientWorker, hsql, if_neg Bool.false_ne_true, receive_flatten h, Session.start, run_handled, List.nil_append]

/-! ## The literal behind a text -/

section States

variable {acc p q : Text} {b : UInt8} {quote : Option UInt8}

/-- The literal that is open behind a text. -/
def literalState (l : Text) : Option UInt8 := l.foldl quoteAfter none

theorem literalState_concat (l : Text) (b : UInt8) : literalState (l ++ [b]) = quoteAfter (literalState l) b := by
  rw [literalState, List.foldl_append]
  rfl

/-- What is open is a quote. -/
theorem literalState_quote (l : Text) {q : UInt8} (h : literalState l = some q) : q = 39 ∨ q = 34 := by
  induction l using List.reverseRecOn generalizing q with
  | nil => cases h
  | append_singleton l b ih =>
    rw [literalState_concat] at h
    cases hl : literalState l with
    | none =>
      rw [hl] at h
      simp only [quoteAfter] at h
      split at h
      · next hb =>
        cases h
        exact hb
      · cases h
    | some q' =>
      rw [hl] at h
      simp only [quoteAfter] at h
      split at h
      · cases h
      · cases h
        exact ih hl

/-- A byte that is no quote changes nothing. -/
theorem quoteAfter_plain (l : Text) (hb : b ≠ 39 ∧ b ≠ 34) : quoteAfter (literalState l) b = literalState l := by
  cases h : literalState l with
  | none => simp [quoteAfter, hb]
  | some q =>
    have hq : b ≠ q := by
      rcases literalState_quote l h with rfl | rfl
      · exact hb.1
      · exact hb.2
    simp [quoteAfter, hq]

theorem literalState_filter (l : Text) : literalState (l.filter (· ≠ 13)) = literalState l := by
  induction l using List.reverseRecOn with
  | nil => rfl
  | append_singleton l b ih =>
    rw [List.filter_append, literalState_concat]
    by_cases hb : b = 13
    · subst hb
      rw [quoteAfter_plain l (by decide), ← ih]
      simp
    · have hkeep : [b].filter (· ≠ 13) = [b] := by simp [hb]
      rw [hkeep, literalState_concat, ih]

theorem literalState_lead (l : Text) : literalState (l.dropWhile isLead) = literalState l := by
  induction l with
  | nil => rfl
  | cons b l ih =>
    cases hb : isLead b with
    | false => rw [List.dropWhile_cons_of_neg (by simp [hb])]
    | true =>
      rw [List.dropWhile_cons_of_pos hb, ih]
      have hplain : quoteAfter none b = none := by
        simp only [isLead, Bool.or_eq_true, decide_eq_true_eq] at hb
        rcases hb with (rfl | rfl) | rfl <;> rfl
      rw [literalState, literalState, List.foldl_cons, hplain]

theorem dropWhile_lead_concat (l : Text) (b : UInt8) :
    (l ++ [b]).dropWhile isLead = [] ∨ (l ++ [b]).dropWhile isLead = l.dropWhile isLead ++ [b] := by
  rw [List.dropWhile_append]
  split
  · next h =>
    rw [List.isEmpty_iff.mp h]
    cases hb : isLead b with
    | true => exact Or.inl (List.dropWhile_cons_of_pos hb)
    | false => exact Or.inr (List.dropWhile_cons_of_neg (by simp [hb]))
  · exact Or.inr rfl

/-- What is executed ends with a terminator outside of its literals. -/
theorem executed_ends (hquote : literalState acc = quote) (h : .executed q ∈ outcomes quote acc p) :
    ∃ t b, q = t ++ [b] ∧ isTerminator b = true ∧ literalState t = none := by
  induction p generalizing quote acc with
  | nil =>
    rw [outcomes] at h
    split at h <;> simp at h
  | cons b p ih =>
    rw [outcomes] at h
    split at h
    · exact ih hquote h
    · split at h
      · next hterm =>
        rcases List.mem_append.mp h with h | h
        · rw [outcomeOf] at h
          split at h
          · simp at h
          · dsimp only at h
            split at h
            · simp at h
            · next hne =>
              have heq : q = (acc ++ [b]).dropWhile isLead := by simpa using h
              rcases dropWhile_lead_concat acc b with hnil | hlead
              · exact absurd hnil hne
              · exact ⟨_, b, heq.trans hlead, hterm.2, by rw [literalState_lead, hquote, hterm.1]⟩
        · split at h
          · simp at h
          · exact @ih [] _ rfl h
      · exact ih (by rw [literalState_concat, hquote]) h

/-- What is longer than the buffer is rejected, wherever it ends. -/
theorem rejected_mem (h : bufferSize - 1 < acc.length) : .rejected ∈ outcomes quote acc p := by
  induction p generalizing quote acc with
  | nil =>
    rw [outcomes, if_pos h]
    exact List.mem_cons_self ..
  | cons b p ih =>
    have hlong : bufferSize - 1 < (acc ++ [b]).length := by
      rw [List.length_append]
      exact Nat.lt_add_right _ h
    rw [outcomes]
    split
    · exact ih h
    · split
      · rw [outcomeOf, if_pos hlong]
        exact List.mem_append_left _ (List.mem_cons_self ..)
      · exact ih hlong

end States

/-! ## What the worker has in its buffer -/

section Buffer

variable {buf p q : Text} {b : UInt8}

theorem pushByte_take (l : Text) (b : UInt8) :
    pushByte (l.take (bufferSize - 1)) b = (l ++ [b]).take (bufferSize - 1) := by
  unfold pushByte
  rw [List.length_take]
  by_cases h : l.length < bufferSize - 1
  · rw [if_pos (by omega), List.take_of_length_le (by omega), List.take_of_length_le (by simp; omega)]
  · rw [if_neg (by omega), List.take_append_of_le_length (by omega)]

theorem pushByte_subset {x : UInt8} (h : x ∈ pushByte buf b) : x ∈ buf ∨ x = b := by
  unfold pushByte at h
  split at h
  · simpa using h
  · exact Or.inl h

/-- A query has no carriage return. -/
theorem handled_noReturn (hbuf : 13 ∉ buf) (h : q ∈ handled buf p) : 13 ∉ q := by
  induction p generalizing buf with
  | nil => cases h
  | cons b p ih =>
    rw [handled] at h
    by_cases hcr : b = 13
    · rw [if_pos hcr] at h
      exact ih hbuf h
    · have hpush : 13 ∉ pushByte buf b := fun hmem => (pushByte_subset hmem).elim hbuf fun heq => hcr heq.symm
      rw [if_neg hcr] at h
      split at h
      · dsimp only at h
        split at h
        · exact ih List.not_mem_nil h
        · rcases List.mem_cons.mp h with rfl | h
          · exact fun hmem =>
              hpush ((List.dropWhile_sublist _).subset ((List.takeWhile_sublist _).subset hmem))
          · split at h
            · cases h
            · exact ih List.not_mem_nil h
      · exact ih hpush h

theorem cString_eq (h : 0 ∉ p) : cString p = p := by
  apply List.takeWhile_eq_self_iff.mpr
  intro x hx
  exact decide_eq_true fun h0 => h (h0 ▸ hx)

end Buffer

/-! ## When the worker is right -/

section Framing

variable {quote : Option UInt8} {acc buf p : Text} {b : UInt8}

theorem mem_lead {x : UInt8} (hx : isLead x = false) {l : Text} : x ∈ l → x ∈ l.dropWhile isLead := by
  induction l with
  | nil => exact id
  | cons b l ih =>
    intro h
    cases hb : isLead b with
    | false => rwa [List.dropWhile_cons_of_neg (by simp [hb])]
    | true =>
      rw [List.dropWhile_cons_of_pos hb]
      rcases List.mem_cons.mp h with rfl | h
      · rw [hx] at hb
        cases hb
      · exact ih h

/-- A terminator inside of a literal ends a query the text does not have. -/
theorem broken_literal {q : UInt8} (hquote : literalState acc = some q) (hb : isTerminator b = true)
    (hacc : ∀ x ∈ acc, isTerminator x = false) (h0 : 0 ∉ acc)
    (hbuf : buf = (acc.filter (· ≠ 13)).take (bufferSize - 1)) :
    (handled buf (b :: p)).map .executed ≠ outcomes (some q) acc (b :: p) := by
  intro heq
  have hcr : b ≠ 13 := by
    rintro rfl
    cases hb
  by_cases hlen : bufferSize - 1 < acc.length
  · -- the text is over the limit already: it is rejected, and the worker rejects nothing
    have hmem : .rejected ∈ outcomes (some q) acc (b :: p) := rejected_mem hlen
    rw [← heq] at hmem
    simp at hmem
  · have hfilter : (acc.filter (· ≠ 13)).length ≤ bufferSize - 1 :=
      le_trans (List.length_filter_le ..) (Nat.le_of_not_lt hlen)
    have hstate : literalState (buf.dropWhile isLead) = some q := by
      rw [hbuf, List.take_of_length_le hfilter, literalState_lead, literalState_filter, hquote]
    have hne : buf.dropWhile isLead ≠ [] := by
      intro hnil
      rw [hnil] at hstate
      cases hstate
    have hbuf0 : 0 ∉ pushByte buf b := by
      intro hmem
      rcases pushByte_subset hmem with hmem | rfl
      · rw [hbuf] at hmem
        exact h0 (List.mem_of_mem_filter (List.mem_of_mem_take hmem))
      · cases hb
    -- the query is what is in the buffer, or that and the terminator
    have hquery : (pushByte buf b).dropWhile isLead = buf.dropWhile isLead ∨
        (pushByte buf b).dropWhile isLead = buf.dropWhile isLead ++ [b] := by
      unfold pushByte
      split
      · rw [List.dropWhile_append, if_neg (by simpa using hne)]
        exact Or.inr rfl
      · exact Or.inl rfl
    have hnonempty : (pushByte buf b).dropWhile isLead ≠ [] := by
      rcases hquery with h | h
      · rw [h]
        exact hne
      · rw [h]
        simp
    have hfirst : .executed ((pushByte buf b).dropWhile isLead) ∈ (handled buf (b :: p)).map Outcome.executed := by
      rw [handled, if_neg hcr, if_pos hb]
      dsimp only
      rw [cString_eq fun h => hbuf0 ((List.dropWhile_sublist _).subset h), if_neg hnonempty]
      exact List.mem_cons_self ..
    rw [heq] at hfirst
    obtain ⟨t, c, ht, hc, hends⟩ := executed_ends hquote hfirst
    rcases hquery with h | h
    · -- without room for the terminator the query has none at its end
      have hmem : c ∈ buf.dropWhile isLead := by
        rw [← h, ht]
        simp
      rw [hbuf] at hmem
      rw [hacc c (List.mem_of_mem_filter (List.mem_of_mem_take ((List.dropWhile_sublist _).subset hmem)))] at hc
      cases hc
    · rw [h] at ht
      rw [(List.append_inj' ht rfl).1, hends] at hstate
      cases hstate

/-- The worker and the text go together exactly as long as the text is unbroken. -/
theorem handled_iff (hquote : literalState acc = quote) (hacc : ∀ x ∈ acc, isTerminator x = false) (h0 : 0 ∉ acc)
    (hp : 0 ∉ p) (hbuf : buf = (acc.filter (· ≠ 13)).take (bufferSize - 1)) :
    (handled buf p).map .executed = outcomes quote acc p ↔ Unbroken quote acc p := by
  induction p generalizing quote acc buf with
  | nil =>
    rw [handled, outcomes, Unbroken, List.map_nil]
    by_cases hlen : bufferSize - 1 < acc.length
    · simp [hlen, Nat.not_le.mpr hlen]
    · simp [hlen, Nat.le_of_not_lt hlen]
  | cons b p ih =>
    have hb0 : b ≠ 0 := fun h => hp (h ▸ List.mem_cons_self ..)
    have hp' : 0 ∉ p := fun h => hp (List.mem_cons_of_mem _ h)
    have h0' : 0 ∉ acc ++ [b] := by
      rw [List.mem_append, List.mem_singleton]
      exact fun h => h.elim h0 fun h => hb0 h.symm
    cases hdrop : isDropped quote b with
    | true =>
      have hcr : b = 13 := by
        simp only [isDropped, Bool.and_eq_true, decide_eq_true_eq] at hdrop
        exact hdrop.2
      rw [outcomes, if_pos hdrop, Unbroken, if_pos hdrop, handled, if_pos hcr]
      exact ih hquote hacc h0 hp' hbuf
    | false =>
      have hdrop' : ¬ isDropped quote b = true := Bool.eq_false_iff.mp hdrop
      cases hterm : isTerminator b with
      | false =>
        have hacc' : ∀ x ∈ acc ++ [b], isTerminator x = false := by
          intro x hx
          rcases List.mem_append.mp hx with hx | hx
          · exact hacc x hx
          · rwa [List.mem_singleton.mp hx]
        have hquote' : literalState (acc ++ [b]) = quoteAfter quote b := by rw [literalState_concat, hquote]
        rw [outcomes, if_neg hdrop', if_neg (by simp [hterm]), Unbroken, if_neg hdrop', hterm,
          if_neg Bool.false_ne_true, handled, hterm, if_neg Bool.false_ne_true]
        by_cases hcr : b = 13
        · rw [if_pos hcr]
          exact ih hquote' hacc' h0' hp' (by rw [hbuf, List.filter_append]; simp [hcr])
        · rw [if_neg hcr]
          refine ih hquote' hacc' h0' hp' ?_
          rw [hbuf, pushByte_take, List.filter_append]
          simp [hcr]
      | true =>
        have hcr : b ≠ 13 := by
          rintro rfl
          cases hterm
        cases quote with
        | some q =>
          have hne := broken_literal (p := p) hquote hterm hacc h0 hbuf
          rw [Unbroken, if_neg hdrop', if_pos hterm]
          exact ⟨fun h => absurd h hne, fun h => by cases h.1⟩
        | none =>
          rw [Unbroken, if_neg hdrop', if_pos hterm, outcomes, if_neg hdrop', if_pos ⟨rfl, hterm⟩]
          by_cases hlen : bufferSize - 1 < (acc ++ [b]).length
          · have hlong : ¬ acc.length < bufferSize - 1 := by
              rw [List.length_append, List.length_singleton] at hlen
              omega
            have hrejected : outcomeOf (acc ++ [b]) = ([.rejected], false) := by rw [outcomeOf, if_pos hlen]
            rw [hrejected]
            refine ⟨fun h => ?_, fun h => absurd h.2.2.1 hlong⟩
            have hmem : Outcome.rejected ∈ (handled buf (b :: p)).map Outcome.executed := by
              rw [h]
              exact List.mem_append_left _ (List.mem_cons_self ..)
            simp at hmem
          · have hfits : acc.length < bufferSize - 1 := by
              rw [List.length_append, List.length_singleton] at hlen
              omega
            by_cases hreturn : 13 ∈ acc
            · refine ⟨fun h => ?_, fun h => absurd hreturn h.2.1⟩
              -- the query keeps its carriage return, and the worker's queries have none
              have hmem : 13 ∈ (acc ++ [b]).dropWhile isLead := mem_lead rfl (List.mem_append_left _ hreturn)
              have hne : (acc ++ [b]).dropWhile isLead ≠ [] := List.ne_nil_of_mem hmem
              have hbuf13 : 13 ∉ buf := by
                rw [hbuf]
                intro h13
                simpa using List.of_mem_filter (List.mem_of_mem_take h13)
              have hexec : .executed ((acc ++ [b]).dropWhile isLead) ∈ (handled buf (b :: p)).map Outcome.executed := by
                rw [h, outcomeOf, if_neg hlen]
                dsimp only
                rw [if_neg hne]
                exact List.mem_append_left _ (List.mem_cons_self ..)
              obtain ⟨q, hq, heq⟩ := List.mem_map.mp hexec
              cases heq
              exact absurd hmem (handled_noReturn hbuf13 hq)
            · have hpush : pushByte buf b = acc ++ [b] := by
                have hkeep : acc.filter (· ≠ 13) = acc := by
                  rw [List.filter_eq_self]
                  exact fun x hx => decide_eq_true fun h13 => hreturn (h13 ▸ hx)
                rw [hbuf, hkeep, pushByte_take, List.take_of_length_le (Nat.le_of_not_lt hlen)]
              have hquery : cString ((pushByte buf b).dropWhile isLead) = (acc ++ [b]).dropWhile isLead := by
                rw [hpush, cString_eq fun h => h0' ((List.dropWhile_sublist _).subset h)]
              have hnext := @ih none [] [] rfl (fun x hx => absurd hx List.not_mem_nil)
                List.not_mem_nil hp' rfl
              rw [handled, if_neg hcr, if_pos hterm]
              dsimp only
              rw [hquery, outcomeOf, if_neg hlen]
              dsimp only
              by_cases hnil : (acc ++ [b]).dropWhile isLead = []
              · simp [hnil, hreturn, hfits, hnext]
              · by_cases hexit : isExit ((acc ++ [b]).dropWhile isLead) = true
                · simp [hnil, hreturn, hfits, hexit]
                · simp [hnil, hreturn, hfits, hexit, hnext]

end Framing

/-- However a text was cut into reads, the same queries are executed; they are its statements if and only if the text is
unbroken. -/
theorem framing_iff {peeked : Text} {reads : List Text} (hsql : isHttp peeked = false) (hreads : [] ∉ reads)
    (h0 : 0 ∉ reads.flatten) :
    (∀ peeked' reads', isHttp peeked' = false → [] ∉ reads' → reads'.flatten = reads.flatten →
      clientWorker peeked' reads' = clientWorker peeked reads) ∧
    ((clientWorker peeked reads).map .executed = outcomes none [] reads.flatten ↔ Unbroken none [] reads.flatten) := by
  constructor
  · intro peeked' reads' hsql' hreads' hflatten
    rw [clientWorker_eq hsql' hreads', clientWorker_eq hsql hreads, hflatten]
  · rw [clientWorker_eq hsql hreads]
    exact handled_iff rfl (fun x hx => absurd hx List.not_mem_nil) List.not_mem_nil h0 rfl

/-- `a;` and `'b';`, cut inside of the literal. -/
theorem framing_two :
    (clientWorker [97, 59] [[97, 59, 39], [98, 39, 59]]).map .executed =
      outcomes none [] [97, 59, 39, 98, 39, 59] := by
  have h := @framing_iff [97, 59] [[97, 59, 39], [98, 39, 59]] (by decide) (by decide) (by decide)
  refine h.2.mpr ?_
  simp [Unbroken, isDropped, isTerminator, quoteAfter, outcomeOf, bufferSize]

/-- `'a;b';` is executed in two parts. -/
theorem framing_splits_literal :
    ¬ ∀ (peeked : Text) (reads : List Text), isHttp peeked = false → [] ∉ reads → 0 ∉ reads.flatten →
      (clientWorker peeked reads).map .executed = outcomes none [] reads.flatten := by
  intro h
  have hrun := h [] [[39, 97, 59, 98, 39, 59]] (by decide) (by decide) (by decide)
  revert hrun
  decide

end CustomDB
