import CustomDB.Sql.Where

/-!
# The clauses the parser makes

`parse_where_clause` leaves an operator between any two conditions, and gives an EXISTS no column.
-/

namespace CustomDB

open Lib.Connective

/-- As the parser leaves a clause: an operator between any two conditions, and no column for EXISTS. -/
structure WhereClause.Joined (wc : WhereClause) : Prop where
  ops : wc.conds.length ≤ wc.logicOps.length + 1
  exist : ∀ c ∈ wc.conds, c.isExists || c.isNotExists → c.colName = []

/-! ## The clause as the parser leaves it -/

/-- What a condition is about. -/
def SingleCond.subject (c : SingleCond) : Text × Bool × Bool := (c.colName, c.isExists, c.isNotExists)

section Parser

variable (cond : SingleCond) (p : Text)

theorem parseSubTable_subject : (parseSubTable cond p).1.subject = cond.subject := by
  unfold parseSubTable
  split <;> rfl

theorem parseExistsWhere_subject : (parseExistsWhere cond p).1.subject = cond.subject := by
  unfold parseExistsWhere
  dsimp only
  split
  · split <;> rfl
  · rfl

theorem parseExists_subject : (parseExists cond p).1.subject = cond.subject := by
  unfold parseExists
  dsimp only
  split
  · dsimp only
    rw [parseExistsWhere_subject, parseSubTable_subject]
  · rfl

theorem parseInWhere_subject : (parseInWhere cond p).1.subject = cond.subject := by
  unfold parseInWhere
  dsimp only
  split <;> rfl

theorem parseIn_subject : (parseIn cond p).1.subject = cond.subject := by
  unfold parseIn
  dsimp only
  split
  · dsimp only
    rw [parseInWhere_subject, parseSubTable_subject]
    rfl
  · rfl

theorem parseBetween_subject {r : SingleCond × Text} (h : parseBetween cond p = some r) : r.1.subject = cond.subject := by
  unfold parseBetween at h
  dsimp only at h
  split at h
  · rw [← Option.some.inj h]
    rfl
  · cases h

theorem parseOperator_subject {r : SingleCond × Text} (h : parseOperator cond p = some r) : r.1.subject = cond.subject := by
  unfold parseOperator at h
  split at h
  · rw [← Option.some.inj h]
    rfl
  · iterate 7
      split at h
      · rw [← Option.some.inj h]
        rfl
    split at h
    · exact parseBetween_subject cond _ h
    · split at h
      · rw [← Option.some.inj h]
        exact parseIn_subject cond _
      · cases h

theorem parseOperand_subject {r : SingleCond × Text} (h : parseOperand cond p = some r) : r.1.subject = cond.subject := by
  unfold parseOperand at h
  dsimp only at h
  split at h
  · split at h
    · cases h
    · rw [← Option.some.inj h]
      rfl
  · rw [← Option.some.inj h]

theorem parseCollate_subject : (parseCollate cond p).1.subject = cond.subject := by
  unfold parseCollate
  dsimp only
  split
  · split
    · rfl
    · split
      · rfl
      · split <;> rfl
  · rfl

variable {p} in
/-- EXISTS has no column. -/
theorem parseCond_exists {r : SingleCond × Text} (h : parseCond p = some r) (he : r.1.isExists || r.1.isNotExists) :
    r.1.colName = [] := by
  have hrest : ∀ c : SingleCond × Text, (parseOperand c.1 c.2).bind (fun r => some (parseCollate r.1 r.2)) = some r →
      r.1.subject = c.1.subject := by
    intro c hc
    obtain ⟨e, he, hc⟩ := Option.bind_eq_some_iff.mp hc
    rw [← Option.some.inj hc, parseCollate_subject]
    exact parseOperand_subject c.1 c.2 he
  unfold parseCond at h
  dsimp only [Option.bind_eq_bind, Option.pure_def] at h
  split at h
  · exact congrArg Prod.fst ((hrest _ h).trans (parseExists_subject _ _))
  · split at h
    · exact congrArg Prod.fst ((hrest _ h).trans (parseExists_subject _ _))
    · obtain ⟨c, hc, h⟩ := Option.bind_eq_some_iff.mp h
      have hr := hrest c h
      unfold parseComparison at hc
      dsimp only at hc
      split at hc
      · cases hc
      · have hplain : r.1.isExists = false ∧ r.1.isNotExists = false :=
          Prod.mk.inj (congrArg Prod.snd (hr.trans (parseOperator_subject _ _ hc)))
        rw [hplain.1, hplain.2] at he
        cases he

end Parser

variable {wc : WhereClause}

/-- The loop keeps an operator for each condition but the last. -/
theorem parseConds_joined {slots : Nat} {p q : Text} {w : WhereClause} (hj : w.Joined)
    (hroom : w.conds.length + slots ≤ maxWhereConds) (hnext : w.conds.length ≤ w.logicOps.length ∨ slots = 0)
    (h : parseConds slots p w = some (q, wc)) : wc.Joined := by
  induction slots generalizing p w with
  | zero =>
    unfold parseConds at h
    dsimp only at h
    split at h
    · rwa [← (Prod.mk.inj (Option.some.inj h)).2]
    · rwa [← (Prod.mk.inj (Option.some.inj h)).2]
  | succ slots ih =>
    have hle : w.conds.length ≤ w.logicOps.length := hnext.resolve_right (Nat.succ_ne_zero _)
    unfold parseConds at h
    dsimp only at h
    split at h
    · rwa [← (Prod.mk.inj (Option.some.inj h)).2]
    · split at h
      · cases h
      next c p' hc =>
        have hone : ({ w with conds := w.conds ++ [c] } : WhereClause).Joined := by
          refine ⟨?_, fun e he => ?_⟩
          · show (w.conds ++ [c]).length ≤ w.logicOps.length + 1
            rw [List.length_append, List.length_singleton]
            omega
          · rcases List.mem_append.mp he with he | he
            · exact hj.exist e he
            · obtain rfl := List.mem_singleton.mp he
              exact parseCond_exists hc
        split at h
        next op p'' _ =>
          have hpush : (pushOp w.logicOps op).length = if w.logicOps.length < maxWhereConds - 1 then
              w.logicOps.length + 1 else w.logicOps.length := by
            unfold pushOp
            split
            · rw [List.length_append, List.length_singleton]
            · rfl
          have htwo : ({ w with conds := w.conds ++ [c], logicOps := pushOp w.logicOps op } : WhereClause).Joined := by
            refine ⟨?_, hone.exist⟩
            show (w.conds ++ [c]).length ≤ (pushOp w.logicOps op).length + 1
            rw [hpush, List.length_append, List.length_singleton]
            split <;> omega
          refine ih htwo ?_ ?_ h
          · show (w.conds ++ [c]).length + slots ≤ maxWhereConds
            rw [List.length_append, List.length_singleton]
            omega
          · show (w.conds ++ [c]).length ≤ (pushOp w.logicOps op).length ∨ slots = 0
            rw [hpush, List.length_append, List.length_singleton]
            unfold maxWhereConds at hroom ⊢
            split <;> omega
        next => rwa [← (Prod.mk.inj (Option.some.inj h)).2]

theorem parseWhereClause_joined {p q : Text} (h : parseWhereClause p = some (q, wc)) : wc.Joined := by
  unfold parseWhereClause at h
  dsimp only at h
  split at h
  · exact parseConds_joined ⟨Nat.zero_le _, fun c hc => absurd hc List.not_mem_nil⟩ (le_refl _) (Or.inl (le_refl _)) h
  · rw [← (Prod.mk.inj (Option.some.inj h)).2]
    exact ⟨Nat.zero_le _, fun c hc => absurd hc List.not_mem_nil⟩

end CustomDB
