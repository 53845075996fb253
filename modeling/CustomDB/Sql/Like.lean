import CustomDB.Lib.Wildcard
import CustomDB.Sql.Scan

/-!
# What LIKE and GLOB mean

The languages of the patterns, and where `sql_like_match` and `sql_glob_match` decide them: `%%` and `**` at the end of
a pattern want a character of their own, and a class without its closing bracket is taken as if it had one.
-/

namespace CustomDB

open Lib.Wildcard (Piece Matches EndsTwice attempt)

/-! ## LIKE -/

/-- A character of a LIKE pattern. -/
def likePiece (coll : CollationType) (b : UInt8) : Piece UInt8 :=
  if b = 37 then .many
  else if b = 95 then .one fun _ => true
  else .one fun c => if coll = .nocase then tolower b = tolower c else b = c

/-- The string is in the language of the pattern. -/
def LikeMatches (coll : CollationType) (pattern str : Text) : Prop := Matches (pattern.map (likePiece coll)) str

theorem sqlLikeMatch_eq (coll : CollationType) (pattern str : Text) :
    sqlLikeMatch coll pattern str = attempt (pattern.map (likePiece coll)) str := by
  induction pattern generalizing str with
  | nil => rfl
  | cons p pattern ih =>
    have hany : (sqlLikeMatch coll pattern) = attempt (pattern.map (likePiece coll)) := funext ih
    by_cases hmany : p = 37
    · cases pattern with
      | nil => simp [sqlLikeMatch, likePiece, attempt, hmany]
      | cons q pattern =>
        rw [sqlLikeMatch.eq_def]
        simp [likePiece, attempt, hmany, hany]
    · cases str with
      | nil => by_cases hone : p = 95 <;> simp [sqlLikeMatch, likePiece, attempt, hmany, hone]
      | cons s str =>
        rw [sqlLikeMatch, if_neg hmany]
        by_cases hone : p = 95
        · simp [likePiece, attempt, hone, ih]
        · by_cases hcoll : coll = .nocase
          · subst hcoll
            by_cases heq : tolower p = tolower s <;> simp [likePiece, attempt, hmany, hone, heq, ih]
          · by_cases heq : p = s
            · subst heq
              simp [likePiece, attempt, hmany, hone, hcoll, ih]
            · simp [likePiece, attempt, hmany, hone, hcoll, heq]

/-! ## GLOB -/

/-- The characters of a class: ranges, in the order of `char`, and single ones. -/
def classItems : Text → List (UInt8 → Bool)
  | [] => []
  | [a] => [fun c => c = a]
  | [a, x] => [fun c => c = a, fun c => c = x]
  | a :: x :: b :: p =>
    if x = 45 then (fun c => a.toInt8 ≤ c.toInt8 && c.toInt8 ≤ b.toInt8) :: classItems p
    else (fun c => c = a) :: classItems (x :: b :: p)

/-- The character is in the class with this text. -/
def inClass (body : Text) (c : UInt8) : Bool := (classItems body).any fun item => item c

/-- `!` or `^` negates a class. -/
def negated (p : Text) : Bool := peek p = 33 || peek p = 94

/-- A class behind its bracket and the mark of its negation. -/
def classText (p : Text) : Text := if negated p then p.drop 1 else p

/-- A character of a GLOB pattern outside of a class. -/
def globPiece (b : UInt8) : Piece UInt8 :=
  if b = 42 then .many else if b = 63 then .one fun _ => true else .one fun c => b = c

theorem length_classText (p : Text) : (classText p).length ≤ p.length := by
  unfold classText
  split <;> simp

theorem length_behind (p : Text) : (((classText p).dropWhile (· ≠ 93)).drop 1).length ≤ p.length := by
  have hdrop := (List.dropWhile_sublist (· ≠ 93) (l := classText p)).length_le
  have htext := length_classText p
  rw [List.length_drop]
  omega

/-- The pieces of a GLOB pattern, and whether each class has its closing bracket. -/
def globRead : Text → Bool × List (Piece UInt8)
  | [] => (true, [])
  | b :: p =>
    if b = 91 then
      let r := globRead (((classText p).dropWhile (· ≠ 93)).drop 1)
      (decide (93 ∈ classText p) && r.1, .one (fun c => inClass ((classText p).takeWhile (· ≠ 93)) c != negated p) :: r.2)
    else
      let r := globRead p
      (r.1, globPiece b :: r.2)
  termination_by p => p.length
  decreasing_by
    · exact Nat.lt_succ_of_le (length_behind p)
    · exact Nat.lt_succ_self _

/-- The string is in the language of the pattern. -/
def GlobMatches (pattern str : Text) : Prop := (globRead pattern).1 = true ∧ Matches (globRead pattern).2 str

/-- A character that begins no range stands for itself. -/
theorem classItems_single {a : UInt8} {p : Text} (h : charAt p 0 = 45 → p.length < 2) :
    classItems (a :: p) = (fun c => decide (c = a)) :: classItems p := by
  match p with
  | [] => rfl
  | [x] => rfl
  | x :: y :: p =>
    have hx : x ≠ 45 := by
      rintro rfl
      have hlen := h rfl
      simp at hlen
    rw [classItems, if_neg hx]

theorem takeWhile_body {b : UInt8} (h : b ≠ 93) (p : Text) :
    (b :: p).takeWhile (· ≠ 93) = b :: p.takeWhile (· ≠ 93) := List.takeWhile_cons_of_pos (by simp [h])

theorem dropWhile_body {b : UInt8} (h : b ≠ 93) (p : Text) : (b :: p).dropWhile (· ≠ 93) = p.dropWhile (· ≠ 93) :=
  List.dropWhile_cons_of_pos (by simp [h])

/-- The class loop decides the class and stops behind its bracket. -/
theorem globClass_eq (c : UInt8) {fuel : Nat} {p : Text} (m : Bool) (hfuel : p.length < fuel) (h0 : 0 ∉ p) :
    globClass c fuel p m = (m || inClass (p.takeWhile (· ≠ 93)) c, (p.dropWhile (· ≠ 93)).drop 1) := by
  induction fuel generalizing p m with
  | zero => exact absurd hfuel (Nat.not_lt_zero _)
  | succ fuel ih =>
    cases p with
    | nil => simp [globClass, skipChar, inClass, classItems]
    | cons a p =>
      have ha : a ≠ 0 := fun h => h0 (by simp [h])
      by_cases h93 : a = 93
      · simp [globClass, skipChar, h93, inClass, classItems]
      · have hstop : ¬ (peek (a :: p) = 0 ∨ peek (a :: p) = 93) := by simp [ha, h93]
        rw [globClass, if_neg hstop, takeWhile_body h93, dropWhile_body h93]
        by_cases hrange : charAt (a :: p) 1 = 45 ∧ charAt (a :: p) 2 ≠ 0 ∧ charAt (a :: p) 2 ≠ 93
        · rw [if_pos hrange]
          rcases p with _ | ⟨x, _ | ⟨y, p⟩⟩
          · exact absurd rfl hrange.2.1
          · exact absurd rfl hrange.2.1
          · have hx : x = 45 := hrange.1
            have hy : y ≠ 93 := hrange.2.2
            subst hx
            have h0' : 0 ∉ p := fun h => h0 (by simp [h])
            have hlen : p.length < fuel := by
              simp at hfuel
              omega
            show globClass c fuel p _ = _
            rw [ih _ hlen h0', takeWhile_body (by decide), takeWhile_body hy, dropWhile_body (by decide),
              dropWhile_body hy, inClass, inClass, classItems, if_pos rfl, List.any_cons,
              ← Bool.or_assoc]
            rfl
        · rw [if_neg hrange]
          have h0' : 0 ∉ p := fun h => h0 (List.mem_cons_of_mem _ h)
          have hsingle : charAt (p.takeWhile (· ≠ 93)) 0 = 45 → (p.takeWhile (· ≠ 93)).length < 2 := by
            intro h45
            rcases p with _ | ⟨x, _ | ⟨y, p⟩⟩
            · exact Nat.zero_lt_two
            · exact Nat.lt_succ_of_le (List.takeWhile_sublist _).length_le
            · by_cases hx : x = 93
              · simp [hx]
              · have hx45 : x = 45 := by simpa [hx, charAt] using h45
                have hy : y = 93 := by
                  by_contra hy
                  exact hrange ⟨hx45, fun hy0 => h0' (by simp [charAt] at hy0; simp [hy0]), hy⟩
                simp [hx, hy]
          show globClass c fuel p _ = _
          rw [ih _ (Nat.lt_of_succ_lt_succ hfuel) h0', inClass, inClass, classItems_single hsingle, List.any_cons,
            ← Bool.or_assoc]
          rfl

theorem globRead_nil : globRead [] = (true, []) := by rw [globRead]

theorem globRead_class (p : Text) :
    globRead (91 :: p) =
      (decide (93 ∈ classText p) && (globRead (((classText p).dropWhile (· ≠ 93)).drop 1)).1,
        .one (fun c => inClass ((classText p).takeWhile (· ≠ 93)) c != negated p) ::
          (globRead (((classText p).dropWhile (· ≠ 93)).drop 1)).2) := by
  rw [globRead, if_pos rfl]

theorem globRead_char {b : UInt8} (h : b ≠ 91) (p : Text) :
    globRead (b :: p) = ((globRead p).1, globPiece b :: (globRead p).2) := by
  rw [globRead, if_neg h]

theorem globRead_ne_nil {p : Text} (h : p ≠ []) : (globRead p).2 ≠ [] := by
  cases p with
  | nil => exact absurd rfl h
  | cons b p =>
    by_cases hb : b = 91
    · rw [hb, globRead_class]
      exact fun h => List.cons_ne_nil _ _ h
    · rw [globRead_char hb]
      exact fun h => List.cons_ne_nil _ _ h

theorem zero_notMem_behind {p : Text} (h0 : 0 ∉ p) : 0 ∉ ((classText p).dropWhile (· ≠ 93)).drop 1 := by
  intro h
  have htext := (List.dropWhile_sublist _).subset (List.mem_of_mem_drop h)
  unfold classText at htext
  split at htext
  · exact h0 (List.mem_of_mem_drop htext)
  · exact h0 htext

/-- `sql_glob_match` tries the pieces of its pattern, whatever room is left for its calls. -/
theorem sqlGlobMatch_eq {fuel : Nat} {p : Text} (hfuel : p.length < fuel) (h0 : 0 ∉ p) (s : Text) :
    sqlGlobMatch fuel p s = attempt (globRead p).2 s := by
  induction fuel generalizing p s with
  | zero => exact absurd hfuel (Nat.not_lt_zero _)
  | succ fuel ih =>
    cases p with
    | nil => rw [globRead_nil, sqlGlobMatch, attempt]
    | cons b p =>
      have h0' : 0 ∉ p := fun h => h0 (List.mem_cons_of_mem _ h)
      have hlen : p.length < fuel := Nat.lt_of_succ_lt_succ hfuel
      have htry : sqlGlobMatch fuel p = attempt (globRead p).2 := funext (ih hlen h0')
      by_cases hclass : b = 91
      · subst hclass
        rw [globRead_class]
        cases s with
        | nil => simp [sqlGlobMatch, attempt]
        | cons c s =>
          have hbehind := length_behind p
          have htext := length_classText p
          have hsub := zero_notMem_behind h0'
          have hclass0 : 0 ∉ classText p := by
            unfold classText
            split
            · exact fun h => h0' (List.mem_of_mem_drop h)
            · exact h0'
          have hrun : sqlGlobMatch (fuel + 1) (91 :: p) (c :: s) =
              if (globClass c ((classText p).length + 1) (classText p) false).1 != negated p then
                sqlGlobMatch fuel (globClass c ((classText p).length + 1) (classText p) false).2 s
              else false := rfl
          rw [hrun, globClass_eq c false (Nat.lt_succ_self _) hclass0, ih (by omega) hsub, attempt, Bool.false_or]
          cases inClass ((classText p).takeWhile (· ≠ 93)) c != negated p <;> rfl
      · rw [globRead_char hclass]
        by_cases hmany : b = 42
        · subst hmany
          cases p with
          | nil => simp [sqlGlobMatch, globRead_nil, globPiece, attempt]
          | cons q p =>
            have hne : (globRead (q :: p)).2.isEmpty = false := by simpa using globRead_ne_nil (List.cons_ne_nil q p)
            rw [sqlGlobMatch.eq_def]
            simp [globPiece, attempt, htry, hne]
        · cases s with
          | nil => by_cases hone : b = 63 <;> simp [sqlGlobMatch, globPiece, attempt, hmany, hone]
          | cons c s =>
            rw [sqlGlobMatch.eq_def]
            by_cases hone : b = 63
            · simp [globPiece, attempt, hone, htry]
            · by_cases heq : b = c
              · subst heq
                simp [globPiece, attempt, hmany, hone, hclass, htry]
              · simp [globPiece, attempt, hmany, hone, hclass, heq]

/-- A class that stays open is the last piece. -/
theorem last_of_open {p : Text} (h : (globRead p).1 = false) : ¬ [.many] <:+ (globRead p).2 := by
  induction hlen : p.length using Nat.strong_induction_on generalizing p with
  | _ n ih =>
    cases p with
    | nil =>
      rw [globRead_nil] at h
      cases h
    | cons b p =>
      have hshort : p.length < n := by
        rw [← hlen]
        exact Nat.lt_succ_self _
      by_cases hclass : b = 91
      · subst hclass
        rw [globRead_class] at h ⊢
        intro hlast
        rcases List.suffix_cons_iff.mp hlast with heq | hlast
        · cases heq
        · by_cases hmem : 93 ∈ classText p
          · rw [decide_eq_true hmem, Bool.true_and] at h
            exact ih _ (lt_of_le_of_lt (length_behind p) hshort) h rfl hlast
          · have hall : ∀ x ∈ classText p, (decide (x ≠ 93)) = true := fun x hx =>
              decide_eq_true fun h93 => hmem (h93 ▸ hx)
            rw [List.dropWhile_eq_nil_iff.mpr hall, List.drop_nil, globRead_nil] at hlast
            simp at hlast
      · rw [globRead_char hclass] at h ⊢
        intro hlast
        rcases List.suffix_cons_iff.mp hlast with heq | hlast
        · have hnil : (globRead p).2 = [] := (List.cons.inj heq).2.symm
          have hp : p = [] := by
            by_contra hne
            exact globRead_ne_nil hne hnil
          rw [hp, globRead_nil] at h
          cases h
        · exact ih _ hshort h rfl hlast

/-! ## Where the matchers are right -/

/-- `%%` is not at the end of the pattern, or what matches is not over where the wildcards begin. -/
def LikeDecided (coll : CollationType) (pattern str : Text) : Prop :=
  [37, 37] <:+ pattern → LikeMatches coll pattern str → str ≠ [] ∧ LikeMatches coll pattern str.dropLast

/-- The same for `**`, where all classes are closed; where one is open, the string does not match up to there. -/
def GlobDecided (pattern str : Text) : Prop :=
  if (globRead pattern).1 then
    EndsTwice (globRead pattern).2 → GlobMatches pattern str → str ≠ [] ∧ GlobMatches pattern str.dropLast
  else ¬ Matches (globRead pattern).2 str

theorem likePiece_many {coll : CollationType} {b : UInt8} : likePiece coll b = .many ↔ b = 37 := by
  unfold likePiece
  split
  · simp [*]
  · split <;> simp [*]

theorem endsTwice_like {coll : CollationType} {pattern : Text} :
    EndsTwice (pattern.map (likePiece coll)) ↔ [37, 37] <:+ pattern := by
  constructor
  · rintro ⟨ts, hts⟩
    obtain ⟨front, back, rfl, -, hback⟩ := List.map_eq_append_iff.mp hts.symm
    obtain ⟨x, l, rfl, hx, hl⟩ := List.map_eq_cons_iff.mp hback
    obtain ⟨y, l', rfl, hy, hl'⟩ := List.map_eq_cons_iff.mp hl
    rw [List.map_eq_nil_iff] at hl'
    rw [hl', likePiece_many.mp hx, likePiece_many.mp hy]
    exact List.suffix_append ..
  · rintro ⟨front, rfl⟩
    rw [List.map_append]
    exact List.suffix_append ..

/-- LIKE and GLOB are what they mean where the pattern does not end in two wildcards, or what matches is not over
where they begin, and where no class is left open. -/
theorem like_glob_iff (coll : CollationType) {pattern : Text} (h0 : 0 ∉ pattern) (str : Text) :
    ((sqlLikeMatch coll pattern str = true ↔ LikeMatches coll pattern str) ↔ LikeDecided coll pattern str) ∧
      ∀ fuel, pattern.length < fuel →
        ((sqlGlobMatch fuel pattern str = true ↔ GlobMatches pattern str) ↔ GlobDecided pattern str) := by
  constructor
  · rw [sqlLikeMatch_eq, Lib.Wildcard.attempt_iff, endsTwice_like, LikeDecided]
    constructor
    · exact fun h h2 hm => (h.mpr hm).2 h2
    · exact fun h => ⟨fun hm => hm.1, fun hm => ⟨hm, fun h2 => h h2 hm⟩⟩
  · intro fuel hfuel
    rw [sqlGlobMatch_eq hfuel h0, Lib.Wildcard.attempt_iff, GlobDecided, GlobMatches, GlobMatches]
    by_cases hclosed : (globRead pattern).1 = true
    · simp only [hclosed, true_and, if_true]
      constructor
      · exact fun h h2 hm => (h.mpr hm).2 h2
      · exact fun h => ⟨fun hm => hm.1, fun hm => ⟨hm, fun h2 => h h2 hm⟩⟩
    · rw [if_neg hclosed]
      have hopen := last_of_open (Bool.eq_false_iff.mpr hclosed)
      constructor
      · exact fun h hm => hclosed (h.mp ⟨hm, fun h2 => absurd h2.last hopen⟩).1
      · exact fun h => ⟨fun hm => absurd hm.1 h, fun hm => absurd hm.1 hclosed⟩

/-- `a%` on `ab`, and `[a-c]*` on `b`. -/
theorem like_glob_prefix :
    (sqlLikeMatch .binary [97, 37] [97, 98] = true ↔ LikeMatches .binary [97, 37] [97, 98]) ∧
      (sqlGlobMatch 7 [91, 97, 45, 99, 93, 42] [98] = true ↔ GlobMatches [91, 97, 45, 99, 93, 42] [98]) := by
  refine ⟨(like_glob_iff .binary (by decide) [97, 98]).1.mpr ?_,
    ((like_glob_iff .binary (by decide) [98]).2 7 (by decide)).mpr ?_⟩
  · exact fun h => absurd h (by decide)
  · have hread : globRead [42] = (true, [.many]) := by rw [globRead_char (by decide), globRead_nil]; rfl
    have hclosed : (globRead [91, 97, 45, 99, 93, 42]).1 = true := by
      rw [globRead_class]
      show (true && (globRead [42]).1) = true
      rw [hread]
      rfl
    have hpieces : ¬ EndsTwice (globRead [91, 97, 45, 99, 93, 42]).2 := by
      rw [globRead_class]
      show ¬ EndsTwice (.one _ :: (globRead [42]).2)
      rw [Lib.Wildcard.endsTwice_one, hread]
      exact Lib.Wildcard.not_endsTwice_single
    unfold GlobDecided
    rw [if_pos hclosed]
    exact fun h => absurd h hpieces

/-- `%%` does not find the empty string. -/
theorem like_empty_missed :
    ¬ ∀ (coll : CollationType) (pattern str : Text), 0 ∉ pattern →
      (sqlLikeMatch coll pattern str = true ↔ LikeMatches coll pattern str) := by
  intro h
  have hm : LikeMatches .binary [37, 37] [] := .many [] (.many [] .nil)
  have hrun := (h .binary [37, 37] [] (by decide)).mpr hm
  revert hrun
  decide

end CustomDB
