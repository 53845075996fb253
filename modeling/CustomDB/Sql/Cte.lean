import CustomDB.Sql.Text
import CustomDB.Catalog.DefinitionSpec

/-!
# Common table expressions

`execute_statement` puts a temporary table behind those of the catalog for each CTE it can materialize, and takes as
many off as the statement has CTEs, at two of its five exits. The rows of the temporary tables are left out.
-/

namespace CustomDB

/-- `CteDef`: `source` is the table its SELECT reads. -/
structure CteDef where
  cteName : Text
  colName : Text
  isRecursive : Bool
  source : Text

/-- A SELECT as `execute_statement` dispatches on it. -/
structure SelectStmt where
  tableName : Text
  ctes : List CteDef
  /-- `set_op != SET_NONE && set_rhs != NULL`. -/
  isSetOp : Bool

/-- What `execute_statement` reads besides the statement and the tables. -/
structure CteEnv where
  /-- The page `get_unused_page_num` hands out, by the number of pages before it. -/
  unused : Nat → BitVec 32
  /-- The tables of an attached database. -/
  attached : Text → Option (List TableDef)
  /-- The views, each with its SELECT where that can be prepared. -/
  views : List (Text × Option SelectStmt)

/-- The catalog's tables, the pages allocated so far, and the calls of `pager_free_page`: the index of the definition
in the catalog, and its root page. -/
structure CteState where
  catalog : Catalog
  allocated : Nat
  freed : List (Nat × BitVec 32)

/-- `snprintf` into a `char[n]` that was zeroed. -/
def CharArray.print {n : Nat} (hn : 0 < n) (s : Text) : CharArray n :=
  CharArray.ofStr (s.take (n - 1)) (by rw [List.length_take]; omega)

/-- The table of a recursive CTE: one INT column. -/
def recursiveDef (cte : CteDef) (root : BitVec 32) : TableDef where
  name := CharArray.print CharArray.pos128 cte.cteName
  rootPageNum := root
  columns :=
    [{ intColumn [] CharArray.nil32 with
        name := CharArray.print CharArray.pos32 (if 0 < cte.colName.length then cte.colName else [120]) }]
  columns_le := by simp [maxColumns]
  pkCols := []
  isVirtual := false
  vtabModule := CharArray.ofStr [] CharArray.nil64
  vtabArgs := CharArray.ofStr [] CharArray.nil256
  defaultTtl := 0
  withHistory := false

/-- The table of another CTE: its source under the CTE's name. -/
def copiedDef (cte : CteDef) (src : TableDef) (root : BitVec 32) : TableDef :=
  { src with name := CharArray.print CharArray.pos128 cte.cteName, rootPageNum := root }

/-- `catalog_find`. -/
def catalogFind (tables : List TableDef) (name : Text) : Option TableDef := tables.find? fun d => d.name.str = name

/-- The definition a CTE is materialized with, where it is. -/
def cteTable (env : CteEnv) (s : CteState) (cte : CteDef) : Option TableDef :=
  if s.catalog.tables.length < maxTables then
    if cte.isRecursive then some (recursiveDef cte (env.unused s.allocated))
    else (catalogFind s.catalog.tables cte.source).map fun src => copiedDef cte src (env.unused s.allocated)
  else none

/-- A definition behind those of the catalog. -/
def CteState.push (s : CteState) (d : TableDef) : CteState :=
  if h : s.catalog.tables.length < maxTables then
    { s with
      catalog := ⟨s.catalog.tables ++ [d], by rw [List.length_append, List.length_singleton]; exact h⟩
      allocated := s.allocated + 1 }
  else s

/-- One turn of the loop that materializes the CTEs. -/
def materialize (env : CteEnv) (s : CteState) (cte : CteDef) : CteState :=
  match cteTable env s cte with
  | some d => s.push d
  | none => s

/-- One turn of the loop that cleans up: the last definition goes, and its root page is freed. -/
def CteState.pop (s : CteState) : CteState :=
  match s.catalog.tables.getLast? with
  | some d =>
    { s with
      catalog := ⟨s.catalog.tables.dropLast, Nat.le_trans (by simp) s.catalog.tables_le⟩
      freed := s.freed ++ [(s.catalog.tables.length - 1, d.rootPageNum)] }
  | none => s

/-- As many turns as the statement has CTEs. -/
def cleanUp (ctes : List CteDef) (s : CteState) : CteState := ctes.foldl (fun s _ => s.pop) s

/-- The main table: in the catalog, or behind `alias.` in an attached database. -/
def findMain (env : CteEnv) (s : CteState) (name : Text) : Option TableDef :=
  let aliasPart := name.takeWhile (· ≠ 46)
  match (if aliasPart.length < name.length ∧ aliasPart.length < 64 then env.attached aliasPart else none) with
  | some tables => catalogFind tables (name.drop (aliasPart.length + 1))
  | none => catalogFind s.catalog.tables name

/-- `execute_statement` on a SELECT. The fuel counts the views it goes through. -/
def executeSelect (env : CteEnv) : Nat → SelectStmt → CteState → Option CteState
  | 0, _, _ => none
  | fuel + 1, stmt, s =>
    let s := stmt.ctes.foldl (materialize env) s
    if stmt.isSetOp then some s
    else if stmt.tableName = [] then some s
    else
      match findMain env s stmt.tableName with
      | some _ => some (cleanUp stmt.ctes s)
      | none =>
        match env.views.find? fun v => v.1 = stmt.tableName with
        | some (_, some view) => executeSelect env fuel view s
        | some (_, none) => some s
        | none => some (cleanUp stmt.ctes s)

/-! ## What is pushed and popped -/

variable {env : CteEnv} {s s' : CteState}

/-- The catalog is as it was, and no root page of a definition it held was freed. -/
structure CteState.Unchanged (s s' : CteState) : Prop where
  tables : s'.catalog.tables = s.catalog.tables
  freed : ∀ x ∈ s'.freed, x ∈ s.freed ∨ s.catalog.tables.length ≤ x.1

/-- The number of CTEs that get a table. -/
def countMade (env : CteEnv) : CteState → List CteDef → Nat
  | _, [] => 0
  | s, cte :: ctes => (if (cteTable env s cte).isSome then 1 else 0) + countMade env (materialize env s cte) ctes

/-- The statement drops as many tables as it makes, `made` having been made before it over `before` tables: it gets to
a clean up with as many CTEs, or made none. Over an empty catalog it may drop more. -/
def Balanced (env : CteEnv) (before : Nat) : Nat → Nat → SelectStmt → CteState → Prop
  | 0, _, _, _ => False
  | fuel + 1, made, stmt, s =>
    let made := made + countMade env s stmt.ctes
    let s := stmt.ctes.foldl (materialize env) s
    let drops := stmt.ctes.length = made ∨ before = 0 ∧ made ≤ stmt.ctes.length
    if stmt.isSetOp then made = 0
    else if stmt.tableName = [] then made = 0
    else
      match findMain env s stmt.tableName with
      | some _ => drops
      | none =>
        match env.views.find? fun v => v.1 = stmt.tableName with
        | some (_, some view) => Balanced env before fuel made view s
        | some (_, none) => made = 0
        | none => drops

/-- The state in the middle of the statement: the tables of `s`, `made` temporary ones, and nothing freed. -/
structure Extends (s : CteState) (made : Nat) (t : CteState) : Prop where
  tables : ∃ temps, temps.length = made ∧ t.catalog.tables = s.catalog.tables ++ temps
  freed : t.freed = s.freed

theorem Extends.refl (s : CteState) : Extends s 0 s := ⟨⟨[], rfl, (List.append_nil _).symm⟩, rfl⟩

theorem cteTable_room {cte : CteDef} {d : TableDef} (h : cteTable env s cte = some d) :
    s.catalog.tables.length < maxTables := by
  unfold cteTable at h
  split at h
  · assumption
  · cases h

/-- A CTE adds a temporary table, or nothing. -/
theorem Extends.step {t : CteState} {made : Nat} (h : Extends s made t) (cte : CteDef) :
    Extends s (made + if (cteTable env t cte).isSome then 1 else 0) (materialize env t cte) := by
  obtain ⟨⟨temps, hlen, htables⟩, hfreed⟩ := h
  unfold materialize
  cases hd : cteTable env t cte with
  | none => exact ⟨⟨temps, hlen, htables⟩, hfreed⟩
  | some d =>
    have hroom := cteTable_room hd
    dsimp only
    rw [CteState.push, dif_pos hroom]
    refine ⟨⟨temps ++ [d], ?_, ?_⟩, hfreed⟩
    · rw [List.length_append, hlen]
      rfl
    · show t.catalog.tables ++ [d] = s.catalog.tables ++ (temps ++ [d])
      rw [htables, List.append_assoc]

theorem Extends.steps {t : CteState} {made : Nat} (h : Extends s made t) (ctes : List CteDef) :
    Extends s (made + countMade env t ctes) (ctes.foldl (materialize env) t) := by
  induction ctes generalizing made t with
  | nil => exact h
  | cons cte ctes ih =>
    rw [countMade, ← Nat.add_assoc]
    exact ih (h.step cte)

theorem Extends.unchanged_iff {t : CteState} {made : Nat} (h : Extends s made t) : s.Unchanged t ↔ made = 0 := by
  obtain ⟨⟨temps, rfl, htables⟩, hfreed⟩ := h
  constructor
  · intro hu
    have heq := htables.symm.trans hu.tables
    rw [List.length_eq_zero_iff]
    exact List.append_right_eq_self.mp heq
  · intro hz
    rw [List.length_eq_zero_iff.mp hz, List.append_nil] at htables
    exact ⟨htables, fun x hx => Or.inl (hfreed ▸ hx)⟩

/-- A turn of the clean up. -/
theorem CteState.pop_eq (s : CteState) : s.pop.catalog.tables = s.catalog.tables.take (s.catalog.tables.length - 1) ∧
    ∀ x ∈ s.pop.freed, x ∈ s.freed ∨ s.catalog.tables.length - 1 = x.1 := by
  unfold CteState.pop
  cases h : s.catalog.tables.getLast? with
  | none =>
    rw [List.getLast?_eq_none_iff] at h
    exact ⟨by simp [h], fun x hx => Or.inl hx⟩
  | some d =>
    refine ⟨List.dropLast_eq_take, fun x hx => ?_⟩
    rcases List.mem_append.mp hx with hx | hx
    · exact Or.inl hx
    · rw [List.mem_singleton.mp hx]
      exact Or.inr rfl

/-- The clean up leaves the first tables, and frees from the end on. -/
theorem cleanUp_eq (ctes : List CteDef) (s : CteState) :
    (cleanUp ctes s).catalog.tables = s.catalog.tables.take (s.catalog.tables.length - ctes.length) ∧
      ∀ x ∈ (cleanUp ctes s).freed, x ∈ s.freed ∨ s.catalog.tables.length - ctes.length ≤ x.1 := by
  induction ctes generalizing s with
  | nil => exact ⟨(List.take_of_length_le (Nat.le_refl _)).symm, fun x hx => Or.inl hx⟩
  | cons cte ctes ih =>
    obtain ⟨htables, hfreed⟩ := ih s.pop
    obtain ⟨hpop, hpopFreed⟩ := s.pop_eq
    have hlen : s.pop.catalog.tables.length = s.catalog.tables.length - 1 := by
      rw [hpop, List.length_take]
      omega
    constructor
    · show (cleanUp ctes s.pop).catalog.tables = _
      rw [htables, hlen, hpop, List.take_take, List.length_cons]
      congr 1
      omega
    · intro x hx
      rw [List.length_cons]
      rcases hfreed x hx with hx | hx
      · rcases hpopFreed x hx with hx | hx
        · exact Or.inl hx
        · exact Or.inr (by omega)
      · exact Or.inr (by omega)

theorem Extends.cleanUp_iff {t : CteState} {made : Nat} (h : Extends s made t) (ctes : List CteDef) :
    s.Unchanged (cleanUp ctes t) ↔ ctes.length = made ∨ s.catalog.tables.length = 0 ∧ made ≤ ctes.length := by
  obtain ⟨⟨temps, rfl, htables⟩, hfreed⟩ := h
  obtain ⟨hclean, hcleanFreed⟩ := cleanUp_eq ctes t
  have hlen : t.catalog.tables.length = s.catalog.tables.length + temps.length := by
    rw [htables, List.length_append]
  rw [hlen] at hclean hcleanFreed
  constructor
  · intro hu
    have hcount := congrArg List.length (hclean.symm.trans hu.tables)
    rw [List.length_take, hlen] at hcount
    omega
  · intro hb
    have hkeep : s.catalog.tables.length + temps.length - ctes.length = s.catalog.tables.length := by omega
    rw [hkeep] at hclean hcleanFreed
    refine ⟨?_, fun x hx => ?_⟩
    · rw [hclean, htables, List.take_left]
    · rw [← hfreed]
      exact hcleanFreed x hx

/-- A SELECT in the middle of another leaves the catalog of the beginning exactly when as many tables are dropped as
were made. -/
theorem executeSelect_extends (fuel : Nat) : ∀ {made : Nat} {stmt : SelectStmt} {t : CteState}, Extends s made t →
    executeSelect env fuel stmt t = some s' →
    (s.Unchanged s' ↔ Balanced env s.catalog.tables.length fuel made stmt t) := by
  induction fuel with
  | zero =>
    intro made stmt t _ hrun
    cases hrun
  | succ fuel ih =>
    intro made stmt t ht hrun
    have hmade : Extends s (made + countMade env t stmt.ctes) (stmt.ctes.foldl (materialize env) t) := ht.steps stmt.ctes
    unfold executeSelect at hrun
    unfold Balanced
    generalize stmt.ctes.foldl (materialize env) t = u at hmade hrun ⊢
    generalize made + countMade env t stmt.ctes = n at hmade ⊢
    dsimp only at hrun ⊢
    split at hrun
    · next hset =>
      obtain rfl := Option.some.inj hrun
      rw [if_pos hset]
      exact hmade.unchanged_iff
    · next hset =>
      rw [if_neg hset]
      split at hrun
      · next hname =>
        obtain rfl := Option.some.inj hrun
        rw [if_pos hname]
        exact hmade.unchanged_iff
      · next hname =>
        rw [if_neg hname]
        cases hmain : findMain env u stmt.tableName with
        | some d =>
          rw [hmain] at hrun
          obtain rfl := Option.some.inj hrun
          exact hmade.cleanUp_iff stmt.ctes
        | none =>
          rw [hmain] at hrun
          dsimp only at hrun ⊢
          rcases hview : env.views.find? (fun v => v.1 = stmt.tableName) with _ | ⟨name, _ | view⟩
          · rw [hview] at hrun ⊢
            obtain rfl := Option.some.inj hrun
            exact hmade.cleanUp_iff stmt.ctes
          · rw [hview] at hrun ⊢
            obtain rfl := Option.some.inj hrun
            exact hmade.unchanged_iff
          · rw [hview] at hrun ⊢
            exact ih hmade hrun

/-- A SELECT with CTEs leaves the catalog unchanged, and frees no root page of it, exactly when it drops as many tables
as it makes. -/
theorem executeSelect_unchanged_iff (env : CteEnv) (fuel : Nat) (stmt : SelectStmt) (s s' : CteState)
    (h : executeSelect env fuel stmt s = some s') :
    s.Unchanged s' ↔ Balanced env s.catalog.tables.length fuel 0 stmt s :=
  executeSelect_extends fuel (Extends.refl s) h

/-! ## A missing source -/

/-- A database with one table `t`, and no views. -/
def oneTableState : CteState := ⟨⟨[compositeKey], by decide⟩, 0, []⟩

def plainEnv : CteEnv := ⟨fun n => BitVec.ofNat 32 (40 + n), fun _ => none, []⟩

/-- WITH c AS (SELECT * FROM m) SELECT * FROM t. -/
def missingSource : SelectStmt := ⟨[116], [⟨[99], [], false, [109]⟩], false⟩

/-- WITH c AS (SELECT * FROM t) SELECT * FROM c. -/
def presentSource : SelectStmt := ⟨[99], [⟨[99], [], false, [116]⟩], false⟩

/-- The state after the statement. -/
def afterSelect (stmt : SelectStmt) : CteState := (executeSelect plainEnv 1 stmt oneTableState).getD oneTableState

/-- No table is made for `c`, and the clean up drops `t` and frees its root page. -/
theorem missing_source_drops_table : executeSelect plainEnv 1 missingSource oneTableState = some (afterSelect missingSource) ∧
    (afterSelect missingSource).catalog.tables.length = 0 ∧ (afterSelect missingSource).freed = [(0, 33)] ∧
    ¬ ∀ (env : CteEnv) (fuel : Nat) (stmt : SelectStmt) (s s' : CteState), executeSelect env fuel stmt s = some s' →
      s.Unchanged s' := by
  refine ⟨rfl, by decide, by decide, fun h => ?_⟩
  have hu := h plainEnv 1 missingSource oneTableState (afterSelect missingSource) rfl
  have hlen : (afterSelect missingSource).catalog.tables.length = oneTableState.catalog.tables.length := by rw [hu.tables]
  exact absurd hlen (by decide)

theorem presentSource_unchanged : Balanced plainEnv 1 1 0 presentSource oneTableState ∧
    oneTableState.Unchanged (afterSelect presentSource) := by
  have hbal : Balanced plainEnv 1 1 0 presentSource oneTableState := Or.inl rfl
  exact ⟨hbal, (executeSelect_unchanged_iff plainEnv 1 presentSource oneTableState (afterSelect presentSource) rfl).mpr hbal⟩

end CustomDB
