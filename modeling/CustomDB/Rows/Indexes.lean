import CustomDB.Rows.Inserted

/-!
# The entries of an index

Five loops fill the tree of an index: those of CREATE INDEX, REINDEX, VACUUM and VACUUM INTO over the cells of the
table, and the one of INSERT over the columns of one row. Each is given here by the entries it stores, in the order of
the loop; what the index should hold is one entry for each visible row that satisfies its predicate.
-/

namespace CustomDB

open Lib

def kwLower : Text := ascii ['l', 'o', 'w', 'e', 'r']
def kwUpper : Text := ascii ['u', 'p', 'p', 'e', 'r']

/-- `toupper`. -/
def toupper (b : UInt8) : UInt8 := if 97 ≤ b ∧ b ≤ 122 then b - 32 else b

/-- The operator of that code; no index stores one above 13. -/
def CompOp.ofCode (code : BitVec 32) : CompOp :=
  match code.toNat with
  | 1 => .gt | 2 => .lt | 3 => .gte | 4 => .lte | 5 => .isIn | 6 => .isNull | 7 => .isNotNull | 8 => .ftsMatch
  | 9 => .like | 10 => .between | 11 => .glob | 12 => .notLike | 13 => .notGlob | _ => .eq

namespace Column

variable (ops : WhereOps) (cols : List Column) (col : Column)

/-- `idx_where`. -/
def idxWhere : WhereClause where
  hasWhere := true
  conds := [{ SingleCond.zero with
    colName := col.idxWhereCol.str
    op := CompOp.ofCode col.idxWhereOp
    rawVal := col.idxWhereVal.str }]
  logicOps := []

/-- The row is one for the index. A predicate without a subquery reads no table. -/
def indexes (values : List Value) : Bool :=
  !col.idxIsPartial || evalWhereClauseCols ops (fun _ => none) cols values col.idxWhere

/-- What the expression of an index does to a byte. -/
def idxFunc : UInt8 → UInt8 :=
  if col.idxIsExpr && (col.type = .text || col.type = .varchar) then
    if strcasecmp col.idxExprFunc.str kwLower = .eq then tolower
    else if strcasecmp col.idxExprFunc.str kwUpper = .eq then toupper
    else id
  else id

/-- `idx_values[0]`: `lower` and `upper` change the text in place. -/
def idxKey (v : Value) : Value := { v with textVal := v.textVal.map col.idxFunc }

end Column

/-! ## The loops -/

section Loops

variable (ops : WhereOps) (t : RowTable) (c : Nat) (col : Column)

/-- `btree_insert` of a key and an id, as they are read back. -/
def storedEntry (key : Value) (id : BitVec 32) (idNull : Bool) : Value × Value :=
  (key.stored ops.toFloatOps col.type, ({ Value.init with intVal := id, isNull := idNull }).stored ops.toFloatOps .int)

/-- The entry of a row. -/
def indexEntry (values : List Value) : Value × Value :=
  storedEntry ops col (col.idxKey (values.getD c Value.init)) (values.getD 0 Value.init).intVal false

/-- What the index should hold. -/
def RowTable.indexRows (snapshot now : Nat) : List (Value × Value) :=
  ((t.shown snapshot now).cells.filter fun v => col.indexes ops t.tableDef.columns v.values).map fun v =>
    indexEntry ops c col v.values

/-- The loop of `execute_create_index`. -/
def createIndexEntries : List (Value × Value) :=
  (t.cells.filter fun v => col.indexes ops t.tableDef.columns v.values).map fun v => indexEntry ops c col v.values

/-- The loop of REINDEX, which leaves an index on column 0 as it was and does not set `is_null` of the id. -/
def reindexEntries (before : List (Value × Value)) (idNull : Version → Bool) : List (Value × Value) :=
  if c = 0 then before else t.cells.map fun v => storedEntry ops col (v.col c) v.id (idNull v)

/-- The loop that `execute_vacuum` and `execute_vacuum_into` have in common. -/
def copiedEntries (minActive now : Nat) (idNull : Version → Bool) : List (Value × Value) :=
  if c = 0 then []
  else (t.cells.filter fun v => !v.dead minActive now).map fun v => storedEntry ops col (v.col c) v.id (idNull v)

/-- What an INSERT adds: the values are made of the texts of the statement once more. -/
def insertEntries (s : InsertStmt) : List (Value × Value) :=
  let values := insertedValues ops t.tableDef s
  if c ≠ 0 ∧ col.indexes ops t.tableDef.columns values = true then [indexEntry ops c col values] else []

end Loops

/-- What the memory holds in which REINDEX, VACUUM and VACUUM INTO do not set `is_null`, at the turn of a version. -/
structure UnsetNull where
  reindex : Version → Bool
  vacuum : Version → Bool
  vacuumInto : Version → Bool

/-- Accepted statements, each with its registers, that stored the visible rows of the table. -/
structure Inserts (ops : WhereOps) (t : RowTable) (snapshot now : Nat) (ss : List (InsertStmt × List Value)) : Prop where
  accepted : ∀ p ∈ ss, ∃ db u, u.tableDef = t.tableDef ∧ insertOutcome ops db u p.1 = .row p.2
  rows : (ss.map fun p => t.tableDef.storedRow ops.toFloatOps p.2).Perm ((t.shown snapshot now).cells.map Version.values)

/-- Every way to fill the index of a column gives what it should hold. -/
structure SameIndex (ops : WhereOps) (t : RowTable) (c : Nat) (col : Column) (before : List (Value × Value))
    (unset : UnsetNull) (minActive snapshot now : Nat) (ss : List (InsertStmt × List Value)) : Prop where
  create : (createIndexEntries ops t c col).Perm (t.indexRows ops c col snapshot now)
  reindex : (reindexEntries ops t c col before unset.reindex).Perm (t.indexRows ops c col snapshot now)
  vacuum : (copiedEntries ops t c col minActive now unset.vacuum).Perm (t.indexRows ops c col snapshot now)
  vacuumInto : (copiedEntries ops t c col minActive now unset.vacuumInto).Perm (t.indexRows ops c col snapshot now)
  insert : (ss.flatMap fun p => insertEntries ops t c col p.1).Perm (t.indexRows ops c col snapshot now)

/-! ## Rebuilding a list -/

/-- A list that is rebuilt from more elements and by another function is the same list only if it is the same element by
element, as long as what the other function makes is not made of another element. -/
theorem rebuilt_iff {α β : Type} {l : List α} {more some : α → Bool} {f g : α → β}
    (hsome : ∀ v ∈ l, some v = true → more v = true) (hfix : ∀ v ∈ l, ∀ w ∈ l, g v = f w → g v = f v) :
    ((l.filter more).map g).Perm ((l.filter some).map f) ↔ ∀ v ∈ l, more v = true → some v = true ∧ g v = f v := by
  constructor
  · intro h
    have hsub : (l.filter more).filter some = l.filter some := by
      rw [List.filter_filter]
      refine List.filter_congr fun v hv => ?_
      cases hs : some v with
      | true => rw [hsome v hv hs, Bool.true_and]
      | false => rw [Bool.false_and]
    have hlen : ((l.filter more).filter some).length = (l.filter more).length := by
      rw [hsub]
      simpa using h.length_eq.symm
    have hall := List.length_filter_eq_length_iff.mp hlen
    intro v hv hm
    have hmem : v ∈ l.filter more := List.mem_filter.mpr ⟨hv, hm⟩
    obtain ⟨w, hw, hfw⟩ := List.mem_map.mp (h.subset (List.mem_map_of_mem hmem))
    exact ⟨hall v hmem, hfix v hv w (List.mem_of_mem_filter hw) hfw.symm⟩
  · intro h
    have hfilter : l.filter more = l.filter some := by
      refine List.filter_congr fun v hv => ?_
      cases hm : more v with
      | true => exact (h v hv hm).1.symm
      | false =>
        cases hs : some v with
        | true => rw [hsome v hv hs] at hm; exact hm.symm
        | false => rfl
    have hmap : (l.filter more).map g = (l.filter more).map f :=
      List.map_congr_left fun v hv => (h v (List.mem_of_mem_filter hv) (List.mem_filter.mp hv).2).2
    rw [hmap, hfilter]

/-! ## Keys -/

section Keys

variable {ops : WhereOps} {c : Nat} {col : Column}

set_option maxRecDepth 4000 in
theorem tolower_twice (b : UInt8) : tolower (tolower b) = tolower b :=
  byte_cases (P := fun b => tolower (tolower b) = tolower b) (by decide) b

set_option maxRecDepth 4000 in
theorem toupper_twice (b : UInt8) : toupper (toupper b) = toupper b :=
  byte_cases (P := fun b => toupper (toupper b) = toupper b) (by decide) b

set_option maxRecDepth 4000 in
theorem tolower_eq_zero (b : UInt8) : tolower b = 0 ↔ b = 0 :=
  byte_cases (P := fun b => tolower b = 0 ↔ b = 0) (by decide) b

set_option maxRecDepth 4000 in
theorem toupper_eq_zero (b : UInt8) : toupper b = 0 ↔ b = 0 :=
  byte_cases (P := fun b => toupper b = 0 ↔ b = 0) (by decide) b

theorem idxFunc_twice (col : Column) (b : UInt8) : col.idxFunc (col.idxFunc b) = col.idxFunc b := by
  unfold Column.idxFunc
  split
  · split
    · exact tolower_twice b
    · split
      · exact toupper_twice b
      · rfl
  · rfl

theorem idxFunc_eq_zero (col : Column) (b : UInt8) : col.idxFunc b = 0 ↔ b = 0 := by
  unfold Column.idxFunc
  split
  · split
    · exact tolower_eq_zero b
    · split
      · exact toupper_eq_zero b
      · rfl
  · rfl

theorem idxKey_twice (col : Column) (v : Value) : col.idxKey (col.idxKey v) = col.idxKey v := by
  simp [Column.idxKey, idxFunc_twice]

theorem strlen_idxFunc (col : Column) (s : Text) : strlen (s.map col.idxFunc) = strlen s := by
  unfold strlen
  rw [List.takeWhile_map, List.length_map]
  have hp : ((fun b => decide (b ≠ 0)) ∘ col.idxFunc) = fun b => decide (b ≠ 0) := by
    funext b
    simp [idxFunc_eq_zero]
  rw [hp]

/-- The expression of the key that is stored is the key of the expression. -/
theorem idxKey_stored (ops : FloatOps) (col : Column) (v : Value) :
    (col.idxKey v).stored ops col.type = col.idxKey (v.stored ops col.type) := by
  by_cases htext : col.type = .text ∨ col.type = .varchar
  · have hstored : ∀ w : Value, w.stored ops col.type = if w.isNull then { Value.init with isNull := true } else
        { Value.init with
          textVal := w.textVal.take (if 0 < w.textLen then w.textLen else strlen w.textVal)
          textLen := if 0 < w.textLen then w.textLen else strlen w.textVal } := fun w => by
      rcases htext with h | h <;> rw [h] <;> rfl
    rw [hstored, hstored]
    show (if v.isNull then _ else _) = _
    cases v.isNull with
    | true => rfl
    | false => simp [Column.idxKey, strlen_idxFunc, List.map_take]
  · have hid : ∀ w, col.idxKey w = w := fun w => by
      obtain ⟨h1, h2⟩ := not_or.mp htext
      have hfunc : col.idxFunc = id := by
        unfold Column.idxFunc
        simp [h1, h2]
      unfold Column.idxKey
      rw [hfunc, List.map_id]
    rw [hid, hid]

/-- A key without its expression is the key of some row only if it is the key of its own. -/
theorem storedEntry_eq_indexEntry {v w : Version} {idNull : Bool}
    (h : storedEntry ops col (v.col c) v.id idNull = indexEntry ops c col w.values) :
    storedEntry ops col (v.col c) v.id idNull = indexEntry ops c col v.values := by
  obtain ⟨hkey, hid⟩ := Prod.mk.inj h
  have hown : (col.idxKey (v.col c)).stored ops.toFloatOps col.type = (v.col c).stored ops.toFloatOps col.type := by
    rw [idxKey_stored, hkey, ← idxKey_stored, idxKey_twice]
  have hnull : idNull = false := by
    have hn := congrArg Value.isNull hid
    rwa [Value.stored_isNull, Value.stored_isNull] at hn
  subst hnull
  exact Prod.ext hown.symm rfl

theorem storedEntry_eq_iff {v : Version} {idNull : Bool}
    (hs : (v.col c).stored ops.toFloatOps col.type = v.col c) :
    storedEntry ops col (v.col c) v.id idNull = indexEntry ops c col v.values ↔
      idNull = false ∧ col.idxKey (v.col c) = v.col c := by
  constructor
  · intro h
    obtain ⟨hkey, hid⟩ := Prod.mk.inj h
    constructor
    · have hn := congrArg Value.isNull hid
      rwa [Value.stored_isNull, Value.stored_isNull] at hn
    · change (v.col c).stored ops.toFloatOps col.type = (col.idxKey (v.col c)).stored ops.toFloatOps col.type at hkey
      rw [idxKey_stored, hs] at hkey
      exact hkey.symm
  · rintro ⟨rfl, hkey⟩
    have hown : col.idxKey (v.values.getD c Value.init) = v.col c := hkey
    unfold indexEntry
    rw [hown]
    rfl

end Keys

/-! ## The values of INSERT -/

/-- The column that the predicate names. -/
def Column.whereColumn (cols : List Column) (col : Column) : Option Nat :=
  (findColumnCI cols col.idxWhereCol.str).or ((afterDot col.idxWhereCol.str).bind (findColumnCI cols))

/-- The columns of a row that its index entry depends on. -/
def Column.reads (cols : List Column) (c : Nat) (col : Column) : List Nat :=
  0 :: c :: (if col.idxIsPartial then (col.whereColumn cols).toList else [])

/-- The text of a column is what is stored of it: no DEFAULT takes its place, it is not left from another row, and no
BOOL is written true. -/
structure InsertStmt.Plain (s : InsertStmt) (k : Nat) (col : Column) : Prop where
  unbound : s.boundValues = none
  noDefault : s.valNull k = true → col.hasDefault = false
  ownText : k < s.numValues ∨ s.text k = []
  notTrue : col.type = .bool → boolOf (s.text k) = false

section Insert

variable {ops : WhereOps} {t : RowTable} {s : InsertStmt} {c k : Nat} {col : Column} {values values' : List Value}

/-- The value made of a literal for triggers and indexes is the one that is stored, a BOOL that is true aside. -/
theorem plainValue_stored {raw : Text} {v : Value} (hzero : ∀ d, nonzero d = false → ops.widen (ops.narrow d) = d)
    (h : literalRegister ops col raw = .ok v) (hbool : col.type = .bool → boolOf raw = false) :
    (match col.type with
      | .float => { Value.init with floatVal := ops.narrow (ops.atof raw), doubleVal := ops.atof raw }
      | c => filterValue ops c raw) = v.stored ops.toFloatOps col.type := by
  unfold literalRegister at h
  cases hc : col.type with
  | int | double | numeric | decimal =>
    rw [hc] at h
    obtain rfl := Except.ok.inj h
    rfl
  | bool =>
    rw [hc] at h
    obtain rfl := Except.ok.inj h
    show { Value.init with boolVal := boolOf raw } = Value.init
    rw [hbool hc]
    rfl
  | float =>
    rw [hc] at h
    obtain rfl := Except.ok.inj h
    have hd : (if nonzero (ops.atof raw) then ops.atof raw else ops.widen (ops.narrow (ops.atof raw))) = ops.atof raw := by
      split
      next => rfl
      next hnz => rw [hzero _ (Bool.eq_false_iff.mpr hnz)]
    show _ = ({ Value.init with floatVal := ops.narrow (if nonzero (ops.atof raw) then ops.atof raw
      else ops.widen (ops.narrow (ops.atof raw))), doubleVal := _ } : Value)
    rw [hd]
  | blob | text | vector =>
    rw [hc] at h
    obtain rfl := Except.ok.inj h
    rw [Value.stored_text ?_ rfl rfl]
    · rfl
    · unfold IsText
      decide
  | datetime | date | time | timestamp | varchar =>
    rw [hc] at h
    dsimp only at h
    split at h
    · cases h
    · obtain rfl := Except.ok.inj h
      rw [Value.stored_text ?_ rfl rfl]
      · rfl
      · unfold IsText
        decide

/-- A condition without a subquery reads the value of its column. -/
theorem evalCond_congr {subs : SubTables} {cols : List Column} {cond : SingleCond} (hexists : cond.isExists = false)
    (hnot : cond.isNotExists = false) (hvalue : ∀ k, (findColumnCI cols cond.colName).or
      ((afterDot cond.colName).bind (findColumnCI cols)) = some k → values.getD k Value.init = values'.getD k Value.init)
    (hsub : cond.isSubquery = false) : evalCond ops subs cols values cond = evalCond ops subs cols values' cond := by
  unfold evalCond
  rw [hexists, hnot, hsub, Bool.or_self, if_neg Bool.false_ne_true, if_neg Bool.false_ne_true]
  dsimp only
  cases hk : (findColumnCI cols cond.colName).or ((afterDot cond.colName).bind (findColumnCI cols)) with
  | none => rfl
  | some k =>
    rw [Option.bind_some, Option.bind_some, hvalue k hk]
    cases cols[k]? with
    | none => rfl
    | some col => simp only [Option.map_some, Bool.false_eq_true, if_false]

theorem indexes_congr {cols : List Column} (hchosen : col.idxIsPartial = true → ∀ k, col.whereColumn cols = some k →
    values.getD k Value.init = values'.getD k Value.init) : col.indexes ops cols values = col.indexes ops cols values' := by
  unfold Column.indexes
  cases hp : col.idxIsPartial with
  | false => rfl
  | true =>
    have hcond : ∀ cond ∈ col.idxWhere.conds,
        evalCond ops (fun _ => none) cols values cond = evalCond ops (fun _ => none) cols values' cond := fun cond hcond => by
      obtain rfl := List.mem_singleton.mp hcond
      exact evalCond_congr rfl rfl (hchosen hp) rfl
    unfold evalWhereClauseCols
    rw [List.map_congr_left hcond]

theorem length_insertedValues (ops : WhereOps) (d : TableDef) (s : InsertStmt) :
    (insertedValues ops d s).length = d.columns.length := by
  unfold insertedValues
  split <;> simp

/-- A plain text is read for the index as it is stored. -/
theorem insertedValues_plain (hzero : ∀ d, nonzero d = false → ops.widen (ops.narrow d) = d)
    (hcol : t.tableDef.columns[k]? = some col) (hp : s.Plain k col)
    (hreg : register ops s k col = .ok (values.getD k Value.init)) :
    (insertedValues ops t.tableDef s).getD k Value.init =
      (t.tableDef.storedRow ops.toFloatOps values).getD k Value.init := by
  obtain ⟨hlt, hget⟩ := List.getElem?_eq_some_iff.mp hcol
  have htype : t.tableDef.typeOf k = col.type := by
    rw [TableDef.typeOf, hcol]
    rfl
  rw [getD_storedRow _ hlt, htype]
  generalize values.getD k Value.init = v at hreg
  unfold insertedValues
  rw [hp.unbound]
  dsimp only
  rw [List.getD_eq_getElem _ _ (by rw [List.length_map, List.length_zipIdx]; exact hlt)]
  simp only [List.getElem_map, List.getElem_zipIdx, Nat.zero_add, hget]
  unfold register at hreg
  rw [hp.unbound] at hreg
  dsimp only at hreg
  unfold InsertStmt.given at hreg
  have hnull : s.valNull k = (s.text k = [] || (k < s.numValues && s.rawIsNull.getD k false)) := by
    unfold InsertStmt.valNull
    rcases hp.ownText with h | h <;> simp [h]
  rw [← hnull]
  cases hv : s.valNull k with
  | true =>
    rw [hv, if_pos rfl, hp.noDefault hv, if_neg Bool.false_ne_true] at hreg
    obtain rfl := Except.ok.inj hreg
    rw [if_pos rfl, Value.stored_null rfl]
  | false =>
    rw [hv, if_neg Bool.false_ne_true] at hreg
    rw [if_neg Bool.false_ne_true]
    exact plainValue_stored hzero hreg hp.notTrue

/-- A plain statement adds the entry of the row that it stores. -/
theorem insertEntries_plain (hzero : ∀ d, nonzero d = false → ops.widen (ops.narrow d) = d) (hc : c ≠ 0)
    (hreg : ∀ k kc, t.tableDef.columns[k]? = some kc → register ops s k kc = .ok (values.getD k Value.init))
    (hp : ∀ k ∈ col.reads t.tableDef.columns c, ∀ kc, t.tableDef.columns[k]? = some kc → s.Plain k kc) :
    insertEntries ops t c col s =
      if col.indexes ops t.tableDef.columns (t.tableDef.storedRow ops.toFloatOps values) then
        [indexEntry ops c col (t.tableDef.storedRow ops.toFloatOps values)]
      else [] := by
  have hread : ∀ k ∈ col.reads t.tableDef.columns c, (insertedValues ops t.tableDef s).getD k Value.init =
      (t.tableDef.storedRow ops.toFloatOps values).getD k Value.init := fun k hk => by
    cases hkc : t.tableDef.columns[k]? with
    | some kc => exact insertedValues_plain hzero hkc (hp k hk kc hkc) (hreg k kc hkc)
    | none =>
      have hge : t.tableDef.columns.length ≤ k := List.getElem?_eq_none_iff.mp hkc
      rw [getD_storedRow_ge _ hge, List.getD_eq_default _ _ (by rw [length_insertedValues]; exact hge)]
  have hindexes := @indexes_congr ops col (insertedValues ops t.tableDef s) (t.tableDef.storedRow ops.toFloatOps values)
    t.tableDef.columns fun hpart k hk => hread k (by simp [Column.reads, hpart, hk])
  have hentry : indexEntry ops c col (insertedValues ops t.tableDef s) =
      indexEntry ops c col (t.tableDef.storedRow ops.toFloatOps values) := by
    unfold indexEntry
    rw [hread 0 (by simp [Column.reads]), hread c (by simp [Column.reads])]
  unfold insertEntries
  dsimp only
  rw [hindexes, hentry]
  simp only [hc, ne_eq, not_false_eq_true, true_and]

end Insert

/-! ## Five ways to fill an index -/

/-- Each cell of the table is a visible row for the index, and its key is as the expression has it; an index on column
0 has nothing to hold. -/
structure Indexable (ops : WhereOps) (t : RowTable) (c : Nat) (col : Column) (before : List (Value × Value))
    (unset : UnsetNull) (snapshot now : Nat) : Prop where
  first : c = 0 → before = [] ∧ ∀ v ∈ t.cells, col.indexes ops t.tableDef.columns v.values = false
  others : c ≠ 0 → ∀ v ∈ t.cells, v.visible snapshot now = true ∧ col.indexes ops t.tableDef.columns v.values = true ∧
    col.idxKey (v.col c) = v.col c ∧ unset.reindex v = false ∧ unset.vacuum v = false ∧ unset.vacuumInto v = false

section Builds

variable {ops : WhereOps} {t : RowTable} {c : Nat} {col : Column} {before : List (Value × Value)} {unset : UnsetNull}
  {minActive snapshot now : Nat} {ss : List (InsertStmt × List Value)} {idNull : Version → Bool}

theorem indexRows_eq : t.indexRows ops c col snapshot now =
    (t.cells.filter fun v => col.indexes ops t.tableDef.columns v.values && v.visible snapshot now).map fun v =>
      indexEntry ops c col v.values := by
  unfold RowTable.indexRows RowTable.shown
  rw [List.filter_filter]

theorem createIndex_iff : (createIndexEntries ops t c col).Perm (t.indexRows ops c col snapshot now) ↔
    ∀ v ∈ t.cells, col.indexes ops t.tableDef.columns v.values = true → v.visible snapshot now = true := by
  unfold createIndexEntries
  rw [indexRows_eq, rebuilt_iff (fun v _ hs => (Bool.and_eq_true_iff.mp hs).1) fun _ _ _ _ _ => rfl]
  refine forall₂_congr fun v _ => ?_
  constructor
  · exact fun h hi => (Bool.and_eq_true_iff.mp (h hi).1).2
  · exact fun h hi => ⟨Bool.and_eq_true_iff.mpr ⟨hi, h hi⟩, rfl⟩

/-- The entries of the cells that a rebuild takes. -/
theorem rebuiltEntries_iff {taken : Version → Bool}
    (hstored : ∀ v ∈ t.cells, (v.col c).stored ops.toFloatOps col.type = v.col c)
    (htaken : ∀ v ∈ t.cells, v.visible snapshot now = true → taken v = true) :
    ((t.cells.filter taken).map fun v => storedEntry ops col (v.col c) v.id (idNull v)).Perm
      (t.indexRows ops c col snapshot now) ↔
    ∀ v ∈ t.cells, taken v = true → v.visible snapshot now = true ∧ col.indexes ops t.tableDef.columns v.values = true ∧
      col.idxKey (v.col c) = v.col c ∧ idNull v = false := by
  rw [indexRows_eq, rebuilt_iff (fun v hv hs => htaken v hv (Bool.and_eq_true_iff.mp hs).2)
    fun v _ w _ h => storedEntry_eq_indexEntry h]
  refine forall₂_congr fun v hv => imp_congr_right fun _ => ?_
  rw [storedEntry_eq_iff (hstored v hv), Bool.and_eq_true_iff]
  tauto

theorem reindexEntries_iff (hc : c ≠ 0) (hstored : ∀ v ∈ t.cells, (v.col c).stored ops.toFloatOps col.type = v.col c) :
    (reindexEntries ops t c col before idNull).Perm (t.indexRows ops c col snapshot now) ↔
      ∀ v ∈ t.cells, v.visible snapshot now = true ∧ col.indexes ops t.tableDef.columns v.values = true ∧
        col.idxKey (v.col c) = v.col c ∧ idNull v = false := by
  unfold reindexEntries
  have hall := @rebuiltEntries_iff ops t c col snapshot now idNull (fun _ => true) hstored fun _ _ _ => rfl
  rw [List.filter_true] at hall
  rw [if_neg hc, hall]
  exact forall₂_congr fun v _ => forall_prop_of_true rfl

theorem copiedEntries_iff (hc : c ≠ 0) (hstored : ∀ v ∈ t.cells, (v.col c).stored ops.toFloatOps col.type = v.col c)
    (hmin : minActive ≤ snapshot) :
    (copiedEntries ops t c col minActive now idNull).Perm (t.indexRows ops c col snapshot now) ↔
      ∀ v ∈ t.cells, v.dead minActive now = false → v.visible snapshot now = true ∧
        col.indexes ops t.tableDef.columns v.values = true ∧ col.idxKey (v.col c) = v.col c ∧ idNull v = false := by
  unfold copiedEntries
  rw [if_neg hc, rebuiltEntries_iff hstored fun v _ hv => by rw [dead_of_visible hmin hv]; rfl]
  simp only [Bool.not_eq_true']

theorem indexRows_nil : t.indexRows ops c col snapshot now = [] ↔
    ∀ v ∈ t.cells, col.indexes ops t.tableDef.columns v.values = true → v.visible snapshot now = false := by
  rw [indexRows_eq, List.map_eq_nil_iff, List.filter_eq_nil_iff]
  refine forall₂_congr fun v _ => ?_
  cases col.indexes ops t.tableDef.columns v.values <;> cases v.visible snapshot now <;> simp

/-- What plain statements add. -/
theorem insertEntries_perm (hzero : ∀ d, nonzero d = false → ops.widen (ops.narrow d) = d) (hc : c ≠ 0)
    (hins : Inserts ops t snapshot now ss)
    (hp : ∀ p ∈ ss, ∀ k ∈ col.reads t.tableDef.columns c, ∀ kc, t.tableDef.columns[k]? = some kc → p.1.Plain k kc) :
    (ss.flatMap fun p => insertEntries ops t c col p.1).Perm (t.indexRows ops c col snapshot now) := by
  have hone : ∀ p ∈ ss, insertEntries ops t c col p.1 =
      if col.indexes ops t.tableDef.columns (t.tableDef.storedRow ops.toFloatOps p.2) then
        [indexEntry ops c col (t.tableDef.storedRow ops.toFloatOps p.2)]
      else [] := fun p hmem => by
    obtain ⟨db, u, hu, hacc⟩ := hins.accepted p hmem
    refine insertEntries_plain hzero hc (fun k kc hkc => ?_) (hp p hmem)
    exact insertOutcome_registers hacc (by rw [hu]; exact hkc)
  have hflat : ∀ rows : List (List Value), (rows.flatMap fun row =>
      if col.indexes ops t.tableDef.columns row then [indexEntry ops c col row] else []) =
      (rows.filter fun row => col.indexes ops t.tableDef.columns row).map fun row => indexEntry ops c col row := by
    intro rows
    induction rows with
    | nil => rfl
    | cons row rows ih =>
      rw [List.flatMap_cons, List.filter_cons, ih]
      split <;> rfl
  have hrows := (hins.rows.filter fun row => col.indexes ops t.tableDef.columns row).map fun row => indexEntry ops c col row
  have hleft : (ss.flatMap fun p => insertEntries ops t c col p.1) =
      ((ss.map fun p => t.tableDef.storedRow ops.toFloatOps p.2).filter fun row =>
        col.indexes ops t.tableDef.columns row).map fun row => indexEntry ops c col row := by
    rw [← hflat, List.flatMap_map]
    exact List.flatMap_congr hone
  rw [hleft]
  refine hrows.trans (List.Perm.of_eq ?_)
  unfold RowTable.indexRows
  rw [List.filter_map, List.map_map]
  rfl

theorem insertEntries_first (s : InsertStmt) : insertEntries ops t 0 col s = [] := by
  unfold insertEntries
  exact if_neg fun h => h.1 rfl

/-- An index on column 0 is filled by CREATE INDEX alone. -/
theorem sameIndex_first : SameIndex ops t 0 col before unset minActive snapshot now ss ↔
    Indexable ops t 0 col before unset snapshot now := by
  have hinsert : (ss.flatMap fun p => insertEntries ops t 0 col p.1) = [] := by
    rw [List.flatMap_eq_nil_iff]
    exact fun p _ => insertEntries_first p.1
  constructor
  · intro h
    have hnil : t.indexRows ops 0 col snapshot now = [] := List.nil_perm.mp h.vacuum
    refine ⟨fun _ => ⟨?_, fun v hv => ?_⟩, fun h0 => absurd rfl h0⟩
    · have hbefore := h.reindex
      rw [hnil] at hbefore
      exact List.perm_nil.mp hbefore
    · cases hi : col.indexes ops t.tableDef.columns v.values with
      | false => rfl
      | true =>
        have hvisible := createIndex_iff.mp h.create v hv hi
        rw [indexRows_nil.mp hnil v hv hi] at hvisible
        exact hvisible.symm
  · intro h
    obtain ⟨rfl, hnone⟩ := h.first rfl
    have hno : ∀ v ∈ t.cells, ¬ col.indexes ops t.tableDef.columns v.values = true := fun v hv => by
      rw [hnone v hv]
      exact Bool.false_ne_true
    have hnil : t.indexRows ops 0 col snapshot now = [] := indexRows_nil.mpr fun v hv hi => absurd hi (hno v hv)
    refine ⟨createIndex_iff.mpr fun v hv hi => absurd hi (hno v hv), ?_, ?_, ?_, ?_⟩
    · rw [hnil]
      rfl
    · rw [hnil]
      rfl
    · rw [hnil]
      rfl
    · rw [hnil, hinsert]

end Builds

/-! ## A partial index -/

theorem columnId_fits : ([105, 100] : List UInt8).length < 32 := by decide
theorem digitOne_fits : ([49] : List UInt8).length < 64 := by decide

/-- Column `a INT` with an index, and with an index WHERE a > 1. -/
def indexedA : Column := { columnA with hasIndex := true, indexRootPage := 34 }
def partialA : Column :=
  { indexedA with
    idxIsPartial := true
    idxWhereCol := CharArray.ofStr [97] letterA_fits
    idxWhereOp := 1
    idxWhereVal := CharArray.ofStr [49] digitOne_fits }

theorem twoColumns_le (a : Column) : [intColumn [105, 100] columnId_fits, a].length ≤ maxColumns :=
  Nat.le_of_ble_eq_true rfl

/-- The rows (1, 1) and (2, 2) of `t (id INT, a INT)`. -/
def indexedPairs (a : Column) : RowTable :=
  ⟨{ compositeKey with columns := [intColumn [105, 100] columnId_fits, a], columns_le := twoColumns_le a, pkCols := [] },
    [pairRow 1 1, pairRow 2 2]⟩

/-- The statements that stored them. -/
def pairInserts : List (InsertStmt × List Value) :=
  [(insertStmt [token 49, token 49] 0, (pairRow 1 1).values), (insertStmt [token 50, token 50] 0, (pairRow 2 2).values)]

/-- `is_null` happens to be clear. -/
def clearNulls : UnsetNull := ⟨fun _ => false, fun _ => false, fun _ => false⟩

theorem pairInserts_stored {a : Column} (h : a = indexedA ∨ a = partialA) :
    Inserts wideOps (indexedPairs a) 1 0 pairInserts ∧ ∀ v ∈ (indexedPairs a).cells,
      (indexedPairs a).tableDef.storedRow wideOps.toFloatOps v.values = v.values := by
  have hempty : ∀ p ∈ pairInserts, insertOutcome wideOps ⟨[], none, false, 0, false⟩ { indexedPairs a with cells := [] } p.1 =
      .row p.2 := fun p hp => by
    rcases List.mem_pair.mp hp with rfl | rfl <;> rcases h with rfl | rfl <;> rfl
  refine ⟨⟨fun p hp => ⟨_, { indexedPairs a with cells := [] }, rfl, hempty p hp⟩, ?_⟩, fun v hv => ?_⟩
  · rcases h with rfl | rfl <;> exact List.Perm.refl _
  · rcases List.mem_pair.mp hv with rfl | rfl <;> rcases h with rfl | rfl <;> rfl

end CustomDB
