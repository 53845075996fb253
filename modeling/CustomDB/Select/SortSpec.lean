import CustomDB.Select.Sort
import CustomDB.Rows.TableSpec
import CustomDB.Rows.Inserted
import CustomDB.Lib.Integral

/-!
# Rows in order

When the comparison of the entries is the order asked for, and that this order is one.
-/

namespace CustomDB

open Lib.WeakOrder

/-- Comparisons of numbers do not depend on the format: FLOAT and INT values keep their order as doubles. -/
structure WhereOps.Monotone (ops : WhereOps) : Prop where
  widen : ∀ a b, ops.ltDouble (ops.widen a) (ops.widen b) = ops.ltFloat a b
  int : ∀ x y, ops.ltDouble (ops.doubleOfInt x) (ops.doubleOfInt y) = x.slt y

variable {env : SelectEnv} {stmt : SelectList} {cols : List Column} {rows : List (List Value)} {item : OrderByItem}

/-! ## The keys of an entry -/

/-- The key of an item. -/
def keyOf (env : SelectEnv) (stmt : SelectList) (cols : List Column) (row : List Value) (item : OrderByItem) : SortKey :=
  match findColumnCI cols (resolveOrder stmt item.colName) with
  | some c => ⟨row.getD c Value.init, typeAt cols c, item.collation, item.isDesc⟩
  | none => exprValue env stmt cols item row

/-- Direction and collation are the item's, whatever the expression gives. -/
theorem exprKey_item (out : Text) (item : OrderByItem) :
    (exprKey env out item).desc = item.isDesc ∧ (exprKey env out item).coll = item.collation := by
  unfold exprKey
  split
  · exact ⟨rfl, rfl⟩
  · dsimp only
    split
    · exact ⟨rfl, rfl⟩
    · split <;> exact ⟨rfl, rfl⟩

theorem keyOf_desc (row : List Value) : (keyOf env stmt cols row item).desc = item.isDesc := by
  unfold keyOf
  split
  · rfl
  · exact (exprKey_item _ _).1

/-- An expression that has no text on any row gives no key. -/
def Silent (env : SelectEnv) (stmt : SelectList) (cols : List Column) (rows : List (List Value)) (item : OrderByItem) :
    Prop :=
  findColumnCI cols (resolveOrder stmt item.colName) = none ∧
    ∀ row ∈ rows, env.evalExpr (resolveOrder stmt item.colName) cols row = []

instance : DecidablePred (Silent env stmt cols rows) := fun item =>
  inferInstanceAs (Decidable (findColumnCI cols (resolveOrder stmt item.colName) = none ∧
    ∀ row ∈ rows, env.evalExpr (resolveOrder stmt item.colName) cols row = []))

theorem ItemSortable.text (h : ItemSortable env stmt cols rows item)
    (hc : findColumnCI cols (resolveOrder stmt item.colName) = none) (hs : ¬ Silent env stmt cols rows item)
    {row : List Value} (hrow : row ∈ rows) :
    TextSortable env item (env.evalExpr (resolveOrder stmt item.colName) cols row) := by
  unfold ItemSortable at h
  rw [hc] at h
  exact h.resolve_left (fun hall => hs ⟨hc, hall⟩) row hrow

/-- Up to four items have their keys, but for the silent ones. -/
theorem addSortKey_foldl {row : List Value} (hrow : row ∈ rows) (items : List OrderByItem) (keys : List SortKey)
    (hlen : keys.length + items.length ≤ 4) (hitems : ∀ item ∈ items, ItemSortable env stmt cols rows item) :
    items.foldl (addSortKey env stmt cols row) keys =
      keys ++ (items.filter fun item => ¬ Silent env stmt cols rows item).map (keyOf env stmt cols row) := by
  induction items generalizing keys with
  | nil => simp
  | cons item items ih =>
    rw [List.length_cons] at hlen
    obtain ⟨hitem, hitems⟩ := List.forall_mem_cons.mp hitems
    rw [List.foldl_cons]
    by_cases hs : Silent env stmt cols rows item
    · have hstep : addSortKey env stmt cols row keys item = keys := by
        unfold addSortKey
        dsimp only
        rw [hs.1, hs.2 row hrow]
        simp
      rw [hstep, ih keys (by omega) hitems, List.filter_cons_of_neg (by simpa using hs)]
    · have hstep : addSortKey env stmt cols row keys item = keys ++ [keyOf env stmt cols row item] := by
        unfold addSortKey keyOf
        dsimp only
        cases hc : findColumnCI cols (resolveOrder stmt item.colName) with
        | some c => exact if_pos (by omega)
        | none => exact if_pos ⟨List.length_pos_iff.mpr (hitem.text hc hs hrow).nonempty, by omega⟩
      rw [hstep, ih _ (by simp; omega) hitems, List.filter_cons_of_pos (by simpa using hs), List.map_cons,
        List.append_assoc, List.singleton_append]

theorem sortKeys_eq (hlen : stmt.items.length ≤ 4) (hitems : ∀ item ∈ stmt.items, ItemSortable env stmt cols rows item)
    {row : List Value} (hrow : row ∈ rows) :
    (selectedEntry env stmt cols row).sortKeys =
      (stmt.items.filter fun item => ¬ Silent env stmt cols rows item).map (keyOf env stmt cols row) := by
  rw [selectedEntry, addSortKey_foldl hrow stmt.items [] (by simpa using hlen) hitems, List.nil_append]

/-! ## The order of one item -/

section Item

/-- The place of a value, NULL first. -/
def nullRank (v : Value) (r : List ℤ) : WithBot (List ℤ) := if v.isNull then ⊥ else (r : List ℤ)

theorem nullsFirst_compares {v w : Value} {o : Ordering} {r r' : List ℤ}
    (h : v.isNull = false → w.isNull = false → o.Compares r r') :
    (nullsFirst v w o).Compares (nullRank v r) (nullRank w r') := by
  unfold nullsFirst nullRank
  cases hv : v.isNull <;> cases hw : w.isNull
  · have h := h hv hw
    cases o with
    | lt => exact WithBot.coe_lt_coe.mpr h
    | eq => exact congrArg WithBot.some h
    | gt => exact WithBot.coe_lt_coe.mpr h
  · exact WithBot.bot_lt_coe _
  · exact WithBot.bot_lt_coe _
  · rfl

theorem compareValues_nullsFirst (ops : WhereOps) (type : ColumnType) (v w : Value) :
    compareValues ops type v w = nullsFirst v w (compareValues ops type v w) := by
  unfold nullsFirst compareValues
  cases v.isNull <;> cases w.isNull <;> rfl

variable {r32 : BitVec 32 → ℤ} {r64 : BitVec 64 → ℤ}

/-- The place of a value of a column. -/
def columnRank (ops : WhereOps) (r32 : BitVec 32 → ℤ) (r64 : BitVec 64 → ℤ) (type : ColumnType) (coll : CollationType)
    (v : Value) : WithBot (List ℤ) :=
  nullRank v (if IsText type then textRank coll v.str else rankOf r32 r64 type (v.number ops))

theorem columnCompare_compares (hr : RanksBy env.ops r32 r64) (hi : env.ops.Ieee) {type : ColumnType}
    (coll : CollationType) {v w : Value} (hv : v.stored env.ops.toFloatOps type = v)
    (hw : w.stored env.ops.toFloatOps type = w) (hvn : v.Number env.ops type) (hwn : w.Number env.ops type) :
    (columnCompare env type coll v w).Compares (columnRank env.ops r32 r64 type coll v)
      (columnRank env.ops r32 r64 type coll w) := by
  unfold columnCompare columnRank
  split
  · exact nullsFirst_compares fun _ _ => collated_compares (zero_notMem_str v) (zero_notMem_str w) coll
  · rw [compareValues_nullsFirst]
    exact nullsFirst_compares fun hv0 hw0 => compareValues_compares hr hv0 hw0
      (Value.stored_number hr hi hv hv0 hvn).1 (Value.stored_number hr hi hw hw0 hwn).1

/-- The place of the value of an expression. -/
def exprRank (r64 : BitVec 64 → ℤ) (k : SortKey) : WithBot (List ℤ) :=
  nullRank k.key (if k.type = .double then [0, r64 k.key.doubleVal] else 1 :: textRank k.coll k.key.str)

theorem exprCompare_compares (hr : RanksBy env.ops r32 r64) {ka kb : SortKey} (hcoll : ka.coll = kb.coll)
    (ha : ka.type = .double → env.ops.eqDouble ka.key.doubleVal ka.key.doubleVal = true)
    (hb : kb.type = .double → env.ops.eqDouble kb.key.doubleVal kb.key.doubleVal = true) :
    (exprCompare env ka kb).Compares (exprRank r64 ka) (exprRank r64 kb) := by
  unfold exprCompare exprRank
  refine nullsFirst_compares fun _ _ => ?_
  by_cases hka : ka.type = .double <;> by_cases hkb : kb.type = .double
  · rw [if_pos hka, if_pos hka, if_pos hkb, if_pos hkb]
    exact compares_cons 0 (hr.double_compares (ha hka) (hb hkb))
  · rw [if_pos hka, if_pos hka, if_neg hkb, if_neg hkb]
    exact List.cons_lt_cons_iff.mpr (Or.inl zero_lt_one)
  · rw [if_neg hka, if_neg hka, if_pos hkb, if_pos hkb]
    exact List.cons_lt_cons_iff.mpr (Or.inl zero_lt_one)
  · rw [if_neg hka, if_neg hka, if_neg hkb, if_neg hkb, ← hcoll]
    exact compares_cons 1 (collated_compares (zero_notMem_str _) (zero_notMem_str _) _)

theorem exprCompare_self (k : SortKey) : exprCompare env k k = .eq := by
  have htext := (collated_compares (zero_notMem_str k.key) (zero_notMem_str k.key) k.coll).eq_eq.mpr rfl
  have hsign : ∀ b : Bool, signOf b b = .eq := fun b => by cases b <;> rfl
  unfold exprCompare nullsFirst
  cases k.key.isNull with
  | true => rfl
  | false =>
    by_cases hk : k.type = .double
    · simp [hk, hsign]
    · simp [hk, htext]

/-- A silent item tells no rows apart. -/
theorem Silent.itemCompare_eq (h : Silent env stmt cols rows item) {a b : List Value} (ha : a ∈ rows) (hb : b ∈ rows) :
    itemCompare env stmt cols item a b = .eq := by
  unfold itemCompare exprValue
  rw [h.1, h.2 a ha, h.2 b hb]
  dsimp only
  rw [exprCompare_self]
  cases item.isDesc <;> rfl

/-- An item orders the rows weakly. -/
theorem itemCompare_weakOn (d : TableDef) (hi : env.ops.Ieee)
    (hrows : ∀ row ∈ rows, d.storedRow env.ops.toFloatOps row = row)
    (hitem : ItemSortable env stmt d.columns rows item) :
    WeakOn {row | row ∈ rows} (itemCompare env stmt d.columns item) := by
  by_cases hs : Silent env stmt d.columns rows item
  · refine ⟨fun a ha b hb => ?_, fun a ha b hb c hc _ _ => ?_⟩
    · rw [hs.itemCompare_eq ha hb, hs.itemCompare_eq hb ha]
      rfl
    · rw [hs.itemCompare_eq ha hc]
      exact Ordering.noConfusion
  obtain ⟨r32, r64, hr⟩ := hi.ranksBy
  have hweak : WeakOn {row | row ∈ rows} fun a b =>
      match findColumnCI d.columns (resolveOrder stmt item.colName) with
      | some c => columnCompare env (typeAt d.columns c) item.collation (a.getD c Value.init) (b.getD c Value.init)
      | none => exprCompare env (exprValue env stmt d.columns item a) (exprValue env stmt d.columns item b) := by
    cases hc : findColumnCI d.columns (resolveOrder stmt item.colName) with
    | some c =>
      unfold ItemSortable at hitem
      rw [hc] at hitem
      refine weakOn_of_rank (fun row : List Value => columnRank env.ops r32 r64 (typeAt d.columns c) item.collation (row.getD c Value.init)) ?_
      intro a ha b hb
      exact columnCompare_compares hr hi item.collation (stored_getD (hrows a ha) c) (stored_getD (hrows b hb) c)
        (hitem.2 a ha) (hitem.2 b hb)
    | none =>
      refine weakOn_of_rank (fun row : List Value => exprRank r64 (exprValue env stmt d.columns item row)) ?_
      intro a ha b hb
      exact exprCompare_compares hr ((exprKey_item _ _).2.trans (exprKey_item _ _).2.symm) (hitem.text hc hs ha).number
        (hitem.text hc hs hb).number
  unfold itemCompare
  cases item.isDesc with
  | false => exact hweak
  | true => exact hweak.reversed

theorem rowCompare_weakOn (d : TableDef) (hi : env.ops.Ieee)
    (hrows : ∀ row ∈ rows, d.storedRow env.ops.toFloatOps row = row) (items : List OrderByItem)
    (hitems : ∀ item ∈ items, ItemSortable env stmt d.columns rows item) :
    WeakOn {row | row ∈ rows} (rowCompare env stmt d.columns items) := by
  induction items with
  | nil => exact weakOn_eq
  | cons item items ih =>
    obtain ⟨hitem, hitems⟩ := List.forall_mem_cons.mp hitems
    exact (itemCompare_weakOn d hi hrows hitem).lex (ih hitems)

end Item

/-! ## The comparison of the entries -/

section Entries

theorem isSortText_of (c : ColumnType) (hc : IsText c) (h : c ∉ [ColumnType.datetime, .date, .time, .timestamp]) :
    isSortText c = true ∧ isNumberType c = false ∧ c ≠ .bool := by
  cases c <;> simp_all [IsText, isSortText, isNumberType]

/-- On two values of a column the comparison of keys is that of the column. -/
theorem compareSortKey_column (hi : env.ops.Ieee) (hm : env.ops.Monotone) {type : ColumnType}
    (htype : type ∉ [ColumnType.datetime, .date, .time, .timestamp]) {v w : Value} {coll : CollationType} {desc : Bool}
    (hv : v.stored env.ops.toFloatOps type = v) (hw : w.stored env.ops.toFloatOps type = w)
    (hvn : v.Number env.ops type) (hwn : w.Number env.ops type) :
    compareSortKey env.ops ⟨v, type, coll, desc⟩ ⟨w, type, coll, desc⟩ = columnCompare env type coll v w := by
  obtain ⟨r32, r64, hr⟩ := hi.ranksBy
  have hnulls : ∀ o : Ordering, (v.isNull = false → w.isNull = false →
      (if isNumberType type && isNumberType type then
        signOf (env.ops.ltDouble (keyDouble env.ops ⟨w, type, coll, desc⟩) (keyDouble env.ops ⟨v, type, coll, desc⟩))
          (env.ops.ltDouble (keyDouble env.ops ⟨v, type, coll, desc⟩) (keyDouble env.ops ⟨w, type, coll, desc⟩))
      else if type = .bool && type = .bool then signOf (v.boolVal && !w.boolVal) (!v.boolVal && w.boolVal)
      else compareStringsCollated (keyText ⟨v, type, coll, desc⟩) (keyText ⟨w, type, coll, desc⟩) coll) = o) →
      compareSortKey env.ops ⟨v, type, coll, desc⟩ ⟨w, type, coll, desc⟩ = nullsFirst v w o := by
    intro o h
    unfold compareSortKey nullsFirst
    cases hv0 : v.isNull <;> cases hw0 : w.isNull
    · exact h hv0 hw0
    · rfl
    · rfl
    · rfl
  unfold columnCompare
  by_cases ht : IsText type
  · obtain ⟨h1, h2, h3⟩ := isSortText_of type ht htype
    rw [if_pos ht]
    refine hnulls _ fun _ _ => ?_
    simp [h2, h3, keyText, h1]
  · rw [if_neg ht, compareValues_nullsFirst]
    refine hnulls _ fun hv0 hw0 => ?_
    have hcmp := compareValues_compares hr hv0 hw0 (Value.stored_number hr hi hv hv0 hvn).1
      (Value.stored_number hr hi hw hw0 hwn).1
    rw [(Value.stored_number hr hi hv hv0 hvn).2, (Value.stored_number hr hi hw hw0 hwn).2] at hcmp
    refine Ordering.Compares.inj ?_ hcmp
    cases type with
    | int =>
      show (signOf (env.ops.ltDouble (env.ops.doubleOfInt w.intVal) (env.ops.doubleOfInt v.intVal))
        (env.ops.ltDouble (env.ops.doubleOfInt v.intVal) (env.ops.doubleOfInt w.intVal))).Compares _ _
      rw [hm.int, hm.int, slt_eq, slt_eq]
      exact signOf_compares _ _
    | float =>
      show (signOf (env.ops.ltDouble (env.ops.widen w.floatVal) (env.ops.widen v.floatVal))
        (env.ops.ltDouble (env.ops.widen v.floatVal) (env.ops.widen w.floatVal))).Compares _ _
      rw [hm.widen, hm.widen]
      exact hr.float_compares hvn hwn
    | double => exact hr.double_compares hvn hwn
    | numeric => exact hr.double_compares hvn hwn
    | decimal => exact hr.double_compares hvn hwn
    | bool => exact bool_compares _ _
    | _ => exact absurd (by simp [IsText]) ht

/-- The key of an expression is NULL, a number or its text. -/
theorem exprKey_shape (out : Text) (item : OrderByItem) :
    (exprKey env out item).key.isNull = true ∧ (exprKey env out item).type = .int ∨
    (exprKey env out item).key.isNull = false ∧ (exprKey env out item).type = .double ∨
    (exprKey env out item).key.isNull = false ∧ (exprKey env out item).type = .text ∧
      (exprKey env out item).key.textVal = out := by
  unfold exprKey
  split
  · exact Or.inl ⟨rfl, rfl⟩
  · dsimp only
    split
    · exact Or.inr (Or.inr ⟨rfl, rfl, rfl⟩)
    · split
      · exact Or.inr (Or.inl ⟨rfl, rfl⟩)
      · exact Or.inr (Or.inr ⟨rfl, rfl, rfl⟩)

theorem TextSortable.textRank_ne_nil {out : Text} (h : TextSortable env item out) (h0 : 0 ∉ out) {v : Value}
    (hv : v.textVal = out) : textRank item.collation v.str ≠ [] := by
  have hstr : v.str = out := by
    rw [Value.str, hv]
    exact List.takeWhile_eq_self_iff.mpr fun b hb => by simpa using fun hb0 : b = 0 => h0 (hb0 ▸ hb)
  rw [hstr, textRank, ne_eq, List.map_eq_nil_iff]
  cases hcoll : item.collation with
  | rtrim =>
    obtain ⟨b, hb, hspace⟩ := List.any_eq_true.mp (h.blank hcoll)
    intro hnil
    have hall := List.dropWhile_eq_nil_iff.mp (List.reverse_eq_nil_iff.mp hnil) b (List.mem_reverse.mpr hb)
    rw [hall] at hspace
    cases hspace
  | nocase => exact fun hnil => h.nonempty (List.map_eq_nil_iff.mp hnil)
  | _ => exact h.nonempty

theorem nil_lt_of_ne_nil {l : List ℤ} (h : l ≠ []) : [] < l := by
  cases l with
  | nil => exact absurd rfl h
  | cons x l => exact List.nil_lt_cons x l

/-- On two values of an expression the comparison of keys is that of the expression. -/
theorem compareSortKey_expr {out out' : Text} (h : TextSortable env item out) (h' : TextSortable env item out')
    (h0 : 0 ∉ out) (h0' : 0 ∉ out') :
    compareSortKey env.ops (exprKey env out item) (exprKey env out' item) =
      exprCompare env (exprKey env out item) (exprKey env out' item) := by
  have hlt : ∀ {v : Value}, v.textVal = out' → compareStringsCollated [] v.str item.collation = .lt := by
    intro v hv
    rw [(collated_compares List.not_mem_nil (zero_notMem_str v) _).eq_lt]
    have hnil : textRank item.collation [] = [] := by cases item.collation <;> rfl
    rw [hnil]
    exact nil_lt_of_ne_nil (h'.textRank_ne_nil h0' hv)
  have hgt : ∀ {v : Value}, v.textVal = out → compareStringsCollated v.str [] item.collation = .gt := by
    intro v hv
    rw [(collated_compares (zero_notMem_str v) List.not_mem_nil _).eq_gt]
    have hnil : textRank item.collation [] = [] := by cases item.collation <;> rfl
    rw [hnil]
    exact nil_lt_of_ne_nil (h.textRank_ne_nil h0 hv)
  have hcoll := (@exprKey_item env out item).2
  unfold compareSortKey exprCompare nullsFirst
  rcases @exprKey_shape env out item with ⟨hn, ht⟩ | ⟨hn, ht⟩ | ⟨hn, ht, hv⟩ <;>
    rcases @exprKey_shape env out' item with ⟨hn', ht'⟩ | ⟨hn', ht'⟩ | ⟨hn', ht', hv'⟩ <;>
    simp only [hn, hn', ht, ht', hcoll, isNumberType, keyDouble, keyText, isSortText] <;> simp
  · exact hlt hv'
  · exact hgt hv

/-- What sorts by an item on rows that were read. -/
theorem compareSortKey_item (d : TableDef) (hi : env.ops.Ieee) (hm : env.ops.Monotone)
    (hexpr : ∀ e row, 0 ∉ env.evalExpr e d.columns row)
    (hrows : ∀ row ∈ rows, d.storedRow env.ops.toFloatOps row = row)
    (hitem : ItemSortable env stmt d.columns rows item) (hs : ¬ Silent env stmt d.columns rows item)
    {a b : List Value} (ha : a ∈ rows) (hb : b ∈ rows) :
    (if item.isDesc then (compareSortKey env.ops (keyOf env stmt d.columns a item)
        (keyOf env stmt d.columns b item)).swap
      else compareSortKey env.ops (keyOf env stmt d.columns a item) (keyOf env stmt d.columns b item)) =
      itemCompare env stmt d.columns item a b := by
  have hkeys : compareSortKey env.ops (keyOf env stmt d.columns a item) (keyOf env stmt d.columns b item) =
      match findColumnCI d.columns (resolveOrder stmt item.colName) with
      | some c => columnCompare env (typeAt d.columns c) item.collation (a.getD c Value.init) (b.getD c Value.init)
      | none => exprCompare env (exprValue env stmt d.columns item a) (exprValue env stmt d.columns item b) := by
    unfold keyOf
    cases hc : findColumnCI d.columns (resolveOrder stmt item.colName) with
    | some c =>
      unfold ItemSortable at hitem
      rw [hc] at hitem
      exact compareSortKey_column hi hm hitem.1 (stored_getD (hrows a ha) c) (stored_getD (hrows b hb) c)
        (hitem.2 a ha) (hitem.2 b hb)
    | none => exact compareSortKey_expr (hitem.text hc hs ha) (hitem.text hc hs hb) (hexpr _ _) (hexpr _ _)
  rw [hkeys]
  rfl

/-- The comparison of entries is that of their rows by the items in turn. -/
theorem compareRowSortEntries_eq (d : TableDef) (hi : env.ops.Ieee) (hm : env.ops.Monotone)
    (hexpr : ∀ e row, 0 ∉ env.evalExpr e d.columns row)
    (hrows : ∀ row ∈ rows, d.storedRow env.ops.toFloatOps row = row) (hlen : stmt.items.length ≤ 4)
    (hitems : ∀ item ∈ stmt.items, ItemSortable env stmt d.columns rows item) {a b : List Value} (ha : a ∈ rows)
    (hb : b ∈ rows) :
    compareRowSortEntries env.ops (selectedEntry env stmt d.columns a) (selectedEntry env stmt d.columns b) =
      rowCompare env stmt d.columns stmt.items a b := by
  rw [compareRowSortEntries, sortKeys_eq hlen hitems ha, sortKeys_eq hlen hitems hb]
  unfold rowCompare
  revert hitems
  generalize stmt.items = items
  intro hitems
  induction items with
  | nil => rfl
  | cons item items ih =>
    obtain ⟨hitem, hitems⟩ := List.forall_mem_cons.mp hitems
    have hrest := ih hitems
    unfold compareSortKeys at hrest ⊢
    by_cases hs : Silent env stmt d.columns rows item
    · rw [List.filter_cons_of_neg (by simpa using hs), List.foldr_cons, hs.itemCompare_eq ha hb, hrest]
      rfl
    have hkey := compareSortKey_item d hi hm hexpr hrows hitem hs ha hb
    rw [List.filter_cons_of_pos (by simpa using hs), List.map_cons, List.map_cons, List.zip_cons_cons, List.foldr_cons, List.foldr_cons, hrest, ← hkey, keyOf_desc]
    generalize compareSortKey env.ops (keyOf env stmt d.columns a item) (keyOf env stmt d.columns b item) = o
    cases o <;> cases item.isDesc <;> rfl

end Entries

/-! ## Numbers that are integers -/

/-- The integer of a double. -/
def integerOf (d : BitVec 64) : ℤ := if nonzero d then Lib.Integral.decode d else 0

/-- Comparisons of doubles that are integers. -/
def sortOps : WhereOps :=
  { wideOps with
    doubleOfInt := fun x => Lib.Integral.encode x.toInt
    ltFloat := fun a b => integerOf (wideOps.widen a) < integerOf (wideOps.widen b)
    ltDouble := fun a b => integerOf a < integerOf b }

theorem integerOf_zero {d : BitVec 64} (hd : nonzero d = false) : integerOf d = 0 := by
  rw [integerOf, hd]
  exact if_neg Bool.false_ne_true

theorem integerOf_not_lt {d e : BitVec 64} (hd : nonzero d = false) (he : nonzero e = false) :
    decide (integerOf d < integerOf e) = false := by
  rw [integerOf_zero hd, integerOf_zero he]
  rfl

theorem sortOps_ltFloat (a b : BitVec 32) :
    sortOps.ltFloat a b = decide (integerOf (wideOps.widen a) < integerOf (wideOps.widen b)) := by
  simp only [sortOps]

theorem sortOps_ltDouble (a b : BitVec 64) : sortOps.ltDouble a b = decide (integerOf a < integerOf b) := by
  simp only [sortOps]

theorem sortOps_ieee : sortOps.Ieee where
  float := ⟨fun a => integerOf (wideOps.widen a), fun a b _ _ => sortOps_ltFloat a b⟩
  double := ⟨integerOf, fun a b _ _ => sortOps_ltDouble a b⟩
  zero := wideOps_zero
  widen_zero := by decide
  zero_eq d hd := by
    rw [sortOps_ltDouble, sortOps_ltDouble, integerOf_zero hd, integerOf_zero (d := 0) (by decide)]
    exact ⟨rfl, rfl, rfl⟩

theorem integerOf_encode (x : BitVec 32) : integerOf (Lib.Integral.encode x.toInt) = x.toInt := by
  have habs : |x.toInt| ≤ 2 ^ 53 := by
    have h1 := BitVec.toInt_lt (x := x)
    have h2 := BitVec.le_toInt (x := x)
    rw [abs_le]
    constructor <;> omega
  have hback := Lib.Integral.decode_encode habs
  unfold integerOf
  cases hz : nonzero (Lib.Integral.encode x.toInt) with
  | true => exact hback
  | false =>
    -- the pattern of -0.0 is that of no integer
    have hsign : ¬ Lib.Integral.encode x.toInt = 0#64 → Lib.Integral.encode x.toInt = 9223372036854775808#64 := by
      simpa [nonzero] using hz
    by_cases h0 : Lib.Integral.encode x.toInt = 0
    · rw [h0] at hback
      exact hback
    · rw [hsign h0] at hback
      have hminus : x.toInt = -1 := hback.symm.trans (by decide +kernel)
      rw [hminus] at hsign h0
      exact absurd (hsign h0) (by decide +kernel)

theorem sortOps_monotone : sortOps.Monotone where
  widen _ _ := rfl
  int x y := by
    show decide (integerOf (Lib.Integral.encode x.toInt) < integerOf (Lib.Integral.encode y.toInt)) = x.slt y
    rw [integerOf_encode, integerOf_encode, slt_eq]

/-- No expression has a text. -/
def sortEnv : SelectEnv := ⟨sortOps, fun _ => [48], fun _ _ _ => [], fun _ => none⟩

/-- `ORDER BY a DESC`, or without DESC. -/
def orderByA (desc : Bool) : SelectList := ⟨[], false, true, ⟨[97], desc, .binary⟩, [⟨[97], desc, .binary⟩]⟩

theorem one_le_maxColumns : 1 ≤ maxColumns := by decide

/-- `t (a DATE)`. -/
def dateTable : TableDef :=
  { compositeKey with columns := [{ columnA with type := .date }], columns_le := one_le_maxColumns }

/-- A row of one text. -/
def textRow (s : Text) : List Value := [{ Value.init with textVal := s, textLen := s.length }]

end CustomDB
