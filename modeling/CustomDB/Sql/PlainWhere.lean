import CustomDB.Sql.Plain
import CustomDB.Sql.WhereSpec

/-!
# The columns of a WHERE clause

Which columns `parse_where_clause` finds in a clause of comparisons, patterns, IS NULL and BETWEEN: those that were
written, where there are at most four conditions and each name fits and does not start like EXISTS.
-/

namespace CustomDB

variable {p q rest tail : Text} {c d : SingleCond}

/-! ## The column of a condition -/

theorem parseSubTable_colName (c : SingleCond) (p : Text) : (parseSubTable c p).1.colName = c.colName := by
  unfold parseSubTable
  split <;> rfl

theorem parseExistsWhere_colName (c : SingleCond) (p : Text) : (parseExistsWhere c p).1.colName = c.colName := by
  unfold parseExistsWhere
  split
  · dsimp only
    split <;> rfl
  · rfl

theorem parseExists_colName (c : SingleCond) (p : Text) : (parseExists c p).1.colName = c.colName := by
  unfold parseExists
  dsimp only
  split
  · rw [parseExistsWhere_colName, parseSubTable_colName]
  · rfl

theorem parseInWhere_colName (c : SingleCond) (p : Text) : (parseInWhere c p).1.colName = c.colName := by
  unfold parseInWhere
  split <;> rfl

theorem parseIn_colName (c : SingleCond) (p : Text) : (parseIn c p).1.colName = c.colName := by
  unfold parseIn
  dsimp only
  split
  · rw [parseInWhere_colName, parseSubTable_colName]
  · rfl

theorem parseBetween_colName (h : parseBetween c p = some (d, q)) : d.colName = c.colName := by
  unfold parseBetween at h
  dsimp only at h
  split at h
  · cases h
    rfl
  · cases h

theorem colName_of_some {r : SingleCond × Text} (h : some r = some (d, q)) (hr : r.1.colName = c.colName) :
    d.colName = c.colName := by
  cases h
  exact hr

theorem parseOperator_colName (h : parseOperator c p = some (d, q)) : d.colName = c.colName := by
  unfold parseOperator at h
  split at h
  · cases h
    rfl
  · repeat' split at h
    all_goals first
      | exact parseBetween_colName h
      | exact colName_of_some h (by with_reducible rfl)
      | exact colName_of_some h (parseIn_colName c _)
      | cases h

theorem parseOperand_colName (h : parseOperand c p = some (d, q)) : d.colName = c.colName := by
  unfold parseOperand at h
  dsimp only at h
  split at h
  · split at h
    · cases h
    · cases h
      rfl
  · cases h
    rfl

theorem parseCollate_colName (c : SingleCond) (p : Text) : (parseCollate c p).1.colName = c.colName := by
  unfold parseCollate
  dsimp only
  repeat' split
  all_goals rfl

/-- The name of the column fits, and is not taken for EXISTS. -/
def WrittenCond.named (w : WrittenCond) : Bool := w.col.length < colNameSize && !startsCI kwExists w.col

theorem WrittenCond.readable_eq (w : WrittenCond) : w.readable = (w.named && w.op.readable) := rfl

set_option maxRecDepth 4000 in
/-- What comes out of a condition whose name is not read has another column. -/
theorem WrittenCond.col_ne_of_not_named (w : WrittenCond) (hw : w.named = false)
    (h : parseCond (w.text ++ rest) = some (c, p)) : c.colName ≠ w.col := by
  have htext : w.text ++ rest = w.col ++ (w.gap.text ++ (w.op.text ++ rest)) := by simp [WrittenCond.text]
  unfold parseCond at h
  rw [w.notExists rest, if_neg (by simp)] at h
  cases hex : startsCI kwExists (w.text ++ rest) with
  | true =>
    rw [hex, if_pos rfl] at h
    obtain ⟨r, hr, h⟩ := Option.bind_eq_some_iff.mp h
    cases hr
    obtain ⟨r, hoperand, h⟩ := Option.bind_eq_some_iff.mp h
    have hc : c = (parseCollate r.1 r.2).1 := (congrArg Prod.fst (Option.some.inj h)).symm
    rw [hc, parseCollate_colName, parseOperand_colName hoperand, parseExists_colName]
    exact fun hnil => w.col_ne hnil.symm
  | false =>
    have hplain : startsCI kwExists w.col = false := by
      rwa [htext, startsCI_before (by decide) (w.behind_col rest)] at hex
    have hlong : colNameSize ≤ w.col.length := by
      by_contra hfit
      rw [WrittenCond.named, hplain, decide_eq_true (Nat.lt_of_not_le hfit)] at hw
      cases hw
    rw [hex, if_neg (by simp)] at h
    obtain ⟨r, hr, h⟩ := Option.bind_eq_some_iff.mp h
    obtain ⟨r', hoperand, h⟩ := Option.bind_eq_some_iff.mp h
    have hc : c = (parseCollate r'.1 r'.2).1 := (congrArg Prod.fst (Option.some.inj h)).symm
    unfold parseComparison at hr
    rw [htext, parseIdentifier_append w.col_ne w.col_ident (w.behind_col rest)] at hr
    dsimp only at hr
    split at hr
    · cases hr
    · rw [hc, parseCollate_colName, parseOperand_colName hoperand, parseOperator_colName hr]
      intro heq
      have hlen := congrArg List.length heq
      rw [List.length_take] at hlen
      have : colNameSize = 32 := rfl
      omega

/-! ## The clause -/

/-- The loop only adds conditions. -/
theorem parseConds_grows {n : Nat} {wc wc' : WhereClause} (h : parseConds n p wc = some (q, wc')) :
    wc.conds <+: wc'.conds := by
  induction n generalizing p wc with
  | zero =>
    obtain ⟨_, hzero⟩ := parseConds_zero p wc
    rw [hzero] at h
    cases h
    exact List.prefix_refl _
  | succ n ih =>
    rw [parseConds] at h
    dsimp only at h
    split at h
    · cases h
      exact List.prefix_refl _
    · split at h
      · cases h
      · split at h
        · exact (List.prefix_append ..).trans (ih h)
        · cases h
          exact List.prefix_append ..

namespace WrittenClause

/-- The conditions in order. -/
def conds (w : WrittenClause) : List WrittenCond := w.first :: w.rest.map Prod.snd

/-- The columns in order. -/
def columns (w : WrittenClause) : List Text := w.conds.map WrittenCond.col

end WrittenClause

/-- The names of the columns of a parsed clause. -/
def WhereClause.columns (wc : WhereClause) : List Text := wc.conds.map SingleCond.colName

/-- A list that goes on behind another place is no list that differs there. -/
theorem prefix_ne {α : Type} {l out : List α} {x y : α} {rest : List α} (h : l ++ [x] <+: out) (hxy : x ≠ y) :
    out ≠ l ++ y :: rest := by
  rintro rfl
  obtain ⟨t, ht⟩ := h
  rw [List.append_assoc] at ht
  exact hxy (List.cons_eq_cons.mp (List.append_cancel_left ht)).1

theorem WrittenCond.cond_colName (w : WrittenCond) : w.cond.colName = w.col := by
  unfold WrittenCond.cond
  split <;> rfl

theorem WhereClause.columns_prefix {wc wc' : WhereClause} (h : wc.conds <+: wc'.conds) : wc.columns <+: wc'.columns :=
  h.map SingleCond.colName

theorem WhereClause.columns_push (wc : WhereClause) (c : SingleCond) (ops : List LogicOp) :
    (WhereClause.columns { wc with conds := wc.conds ++ [c], logicOps := ops }) = wc.columns ++ [c.colName] := by
  simp [WhereClause.columns]

/-- At a name that is not read the columns go wrong, whatever follows. -/
theorem parseConds_not_named {n : Nat} {w : WrittenCond} {wc wc' : WhereClause} (hw : w.named = false)
    (h : parseConds (n + 1) (w.text ++ rest) wc = some (q, wc')) (more : List Text) :
    wc'.columns ≠ wc.columns ++ w.col :: more := by
  have hident := w.peek_ident rest
  cases hcond : parseCond (w.text ++ rest) with
  | none =>
    have hstop : ¬ (peek (w.text ++ rest) = 0 ∨ peek (w.text ++ rest) = 59) := by
      rintro (hn | hn) <;> exact absurd (hn ▸ hident) (by decide)
    rw [parseConds] at h
    dsimp only at h
    rw [skipWhitespace_self (isspace_of_isIdent hident), if_neg hstop, hcond] at h
    cases h
  | some r =>
    obtain ⟨c, p⟩ := r
    have hne := w.col_ne_of_not_named hw hcond
    rw [parseConds_turn n w rest wc hcond] at h
    have hgrows : wc.columns ++ [c.colName] <+: wc'.columns := by
      split at h
      · have hmore := WhereClause.columns_prefix (parseConds_grows h)
        rwa [WhereClause.columns_push] at hmore
      · cases h
        rw [WhereClause.columns_push]
    exact prefix_ne hgrows hne

/-- The loop finds the columns as they are written where there is room for all and each of them is read; then it stops
behind the clause. -/
theorem parseConds_columns_iff (ht : Follows tail) (l : List (Joint × WrittenCond)) (n : Nat) (w : WrittenCond)
    (wc : WhereClause) (hset : SetOff w l) (hops : ∀ v ∈ w :: l.map Prod.snd, v.op.readable = true) :
    (∃ wc', parseConds (n + 1) (w.text ++ (WrittenClause.restText l ++ tail)) wc = some (q, wc') ∧
        wc'.columns = wc.columns ++ (w :: l.map Prod.snd).map WrittenCond.col) ↔
      q = skipWhitespace tail ∧ l.length ≤ n ∧ ∀ v ∈ w :: l.map Prod.snd, v.named = true := by
  induction l generalizing n w wc with
  | nil =>
    obtain ⟨hbehind, hcoll⟩ := hset.behind ht
    cases hw : w.named with
    | false =>
      constructor
      · rintro ⟨wc', hparse, hcols⟩
        exact absurd hcols (parseConds_not_named hw hparse [])
      · rintro ⟨-, -, hall⟩
        exact absurd (hall w (List.mem_cons_self ..)) (by simp [hw])
    | true =>
      have hread : w.readable = true := by rw [w.readable_eq, hw, hops w (List.mem_cons_self ..)]; rfl
      have hnone : parseConnective (skipWhitespace (WrittenClause.restText [] ++ tail)) = none := ht.noConnective
      rw [parseConds_turn n w _ wc (w.parse hread hbehind hcoll), skipWhitespace_idem, hnone]
      constructor
      · rintro ⟨wc', hsome, -⟩
        cases hsome
        exact ⟨rfl, Nat.zero_le n, fun v hv => List.mem_singleton.mp hv ▸ hw⟩
      · rintro ⟨rfl, -⟩
        refine ⟨_, rfl, ?_⟩
        rw [WhereClause.columns_push, w.cond_colName]
        rfl
  | cons x l ih =>
    obtain ⟨j, v⟩ := x
    obtain ⟨hbehind, hcoll⟩ := hset.behind ht
    cases hw : w.named with
    | false =>
      constructor
      · rintro ⟨wc', hparse, hcols⟩
        exact absurd hcols (parseConds_not_named hw hparse _)
      · rintro ⟨-, -, hall⟩
        exact absurd (hall w (List.mem_cons_self ..)) (by simp [hw])
    | true =>
      have hread : w.readable = true := by rw [w.readable_eq, hw, hops w (List.mem_cons_self ..)]; rfl
      obtain ⟨hlen, hlo, hhi⟩ := connWord_head j.conn
      have htext : WrittenClause.restText ((j, v) :: l) ++ tail =
          j.before.text ++ (j.kw.val ++ (j.after.text ++ (v.text ++ (WrittenClause.restText l ++ tail)))) := by
        simp [WrittenClause.restText]
      rw [parseConds_turn n w _ wc (w.parse hread hbehind hcoll), skipWhitespace_idem, htext, skipWhitespace_blank,
        j.kw.peek_space hlen ⟨hlo, hhi⟩, parseConnective_joint]
      dsimp only
      rw [parseConds_blank]
      have hpush := wc.columns_push w.cond (pushOp wc.logicOps j.conn)
      rw [w.cond_colName] at hpush
      cases n with
      | zero =>
        obtain ⟨q', hq⟩ := parseConds_zero (v.text ++ (WrittenClause.restText l ++ tail))
          { wc with conds := wc.conds ++ [w.cond], logicOps := pushOp wc.logicOps j.conn }
        rw [hq]
        refine iff_of_false ?_ fun hroom => absurd hroom.2.1 (Nat.not_succ_le_zero _)
        rintro ⟨wc', hsome, hcols⟩
        cases hsome
        rw [hpush] at hcols
        have hlength := congrArg List.length hcols
        simp at hlength
      | succ n =>
        have hrec := ih n v { wc with conds := wc.conds ++ [w.cond], logicOps := pushOp wc.logicOps j.conn } hset.2
          fun u hu => hops u (List.mem_cons_of_mem _ hu)
        rw [hpush, List.append_assoc] at hrec
        refine hrec.trans ?_
        rw [List.length_cons, Nat.succ_le_succ_iff, List.map_cons, List.forall_mem_cons (a := w)]
        exact and_congr_right fun _ => and_congr_right fun _ => (and_iff_right hw).symm

/-- What `parse_where_clause` gives of a written clause. -/
theorem WrittenClause.columns_iff (w : WrittenClause) (hops : ∀ v ∈ w.conds, v.op.readable = true) :
    (∃ wc, parseWhereClause w.text = some (q, wc) ∧ wc.columns = w.columns) ↔
      q = skipWhitespace w.tail ∧ w.conds.length ≤ maxWhereConds ∧ ∀ v ∈ w.conds, v.named = true := by
  have hparse : parseWhereClause w.text =
      parseConds maxWhereConds (w.first.text ++ (WrittenClause.restText w.rest ++ w.tail)) ⟨true, [], []⟩ := by
    unfold parseWhereClause WrittenClause.text
    dsimp only
    rw [skipWhitespace_blank, w.kw.peek_space (by decide) (by decide), w.kw.starts, if_pos rfl, w.kw.drop _ (n := 5) rfl,
      parseConds_blank]
  have hloop := parseConds_columns_iff (q := q) w.follows w.rest 3 w.first ⟨true, [], []⟩ w.setOff hops
  have hroom : w.conds.length ≤ maxWhereConds ↔ w.rest.length ≤ 3 := by
    rw [WrittenClause.conds, List.length_cons, List.length_map]
    exact Nat.succ_le_succ_iff
  rw [hparse, hroom]
  exact hloop

end CustomDB
