import CustomDB.Page.Node
import CustomDB.Tree.Store

/-!
# Searching the pages

The two descents of `btree.c` over pages of bytes, for a column 0 of any type, and the loops that compare keys: those
for INT read the number where the others compare the 32 bytes. On a finite tree both descents end at the same cell.
-/

namespace CustomDB

namespace Page

open Lib.Bisect Lib.Memory

section

variable (ops : WhereOps) (c : ColumnType)

/-- The value of column 0 in the cell `i`. -/
def cellCol0 (m : Mem) (i : Nat) : Value :=
  (extractCol0FromPackedRecord ops.toFloatOps c m (leafNodeSlot m i).offset (leafNodeSlot m i).size).1

/-- The loop of `leaf_node_find` that compares `int_val`. -/
def leafNodeFindInt (m : Mem) (rawKey : List UInt8) : Nat :=
  lowerBound (fun mid => (cellCol0 ops .int m mid).intVal.slt (rawInt rawKey)) (leafNodeNumCells m) 0 (leafNodeNumCells m)

/-- The loop of `leaf_node_find` that calls `compare_keys`. -/
def leafNodeFindRaw (m : Mem) (rawKey : List UInt8) : Nat :=
  lowerBound (fun mid => compareRawKeys ops c (rawCol0Key c (cellCol0 ops c m mid)) rawKey = .lt)
    (leafNodeNumCells m) 0 (leafNodeNumCells m)

/-- `leaf_node_find`. -/
def leafNodeFind (m : Mem) (rawKey : List UInt8) : Nat :=
  if c = .int then leafNodeFindInt ops m rawKey else leafNodeFindRaw ops c m rawKey

/-- The loop of `internal_node_find_child` that compares numbers. -/
def internalNodeFindChildInt (m : Mem) (rawKey : List UInt8) : Nat :=
  lowerBound (fun mid => (rawInt (internalNodeKey m mid)).slt (rawInt rawKey)) (internalNodeNumKeys m) 0
    (internalNodeNumKeys m)

/-- The loop of `internal_node_find_child` that calls `compare_keys`. -/
def internalNodeFindChildRaw (m : Mem) (rawKey : List UInt8) : Nat :=
  lowerBound (fun mid => compareRawKeys ops c (internalNodeKey m mid) rawKey = .lt) (internalNodeNumKeys m) 0
    (internalNodeNumKeys m)

/-- `internal_node_find_child`. -/
def internalNodeFindChild (m : Mem) (rawKey : List UInt8) : Nat :=
  if c = .int then internalNodeFindChildInt m rawKey else internalNodeFindChildRaw ops c m rawKey

variable (pages : Nat → Mem)

/-- `leaf_node_navigate`. -/
def leafNodeNavigate (p : Nat) (rawKey : List UInt8) : Tree.Cursor :=
  let node := pages p
  let cell := leafNodeFind ops c node rawKey
  if leafNodeNumCells node ≤ cell then
    let next := leafNodeNextLeaf node
    if next = 0 then ⟨p, cell, true⟩ else ⟨next, 0, leafNodeNumCells (pages next) = 0⟩
  else ⟨p, cell, false⟩

/-- `internal_node_find`, in at most `depth` levels; `none` is a NULL, an `exit`, or a level too many. -/
def internalNodeFind : Nat → Nat → List UInt8 → Option Tree.Cursor
  | 0, _, _ => none
  | depth + 1, p, rawKey => do
    let child ← internalNodeChild (pages p) (internalNodeFindChild ops c (pages p) rawKey)
    if IsLeaf (pages child) then return leafNodeNavigate ops c pages child rawKey
    else if IsInternal (pages child) then internalNodeFind depth child rawKey
    else none

/-- `btree_find`. -/
def btreeFind (depth root : Nat) (keyValue : Value) : Option Tree.Cursor :=
  let rawKey := rawCol0Key c keyValue
  if IsLeaf (pages root) then some (leafNodeNavigate ops c pages root rawKey)
  else internalNodeFind ops c pages depth root rawKey

/-- The loop of `btree_find_out`: the page it stops at, in at most `depth` turns. -/
def findOutPage : Nat → Nat → List UInt8 → Option Nat
  | 0, p, _ => if IsInternal (pages p) then none else some p
  | depth + 1, p, rawKey =>
    if IsInternal (pages p) then do
      let child ← internalNodeChild (pages p) (internalNodeFindChild ops c (pages p) rawKey)
      findOutPage depth child rawKey
    else some p

/-- `btree_find_out`. -/
def btreeFindOut (depth root : Nat) (keyValue : Value) : Option Tree.Cursor := do
  let rawKey := rawCol0Key c keyValue
  let p ← findOutPage ops c pages depth root rawKey
  let node := pages p
  let outCursor : Tree.Cursor := ⟨p, leafNodeFind ops c node rawKey, false⟩
  if leafNodeNumCells node ≤ outCursor.cellNum then
    let next := leafNodeNextLeaf node
    if next = 0 then return { outCursor with endOfTable := true }
    else
      let outCursor := { outCursor with pageNum := next, cellNum := 0 }
      if leafNodeNumCells (pages next) = 0 then return { outCursor with endOfTable := true } else return outCursor
  else return outCursor

end

/-- A finite tree: below an inner node all children, the right one too, are finite trees. -/
inductive FiniteTree (pages : Nat → Mem) : Nat → Prop where
  | leaf (p : Nat) (h : IsLeaf (pages p)) : FiniteTree pages p
  | inner (p : Nat) (h : IsInternal (pages p))
      (child : ∀ i q, internalNodeChild (pages p) i = some q → FiniteTree pages q) : FiniteTree pages p

variable {ops : WhereOps} {c : ColumnType} {pages : Nat → Mem} {m : Mem} {p leaf depth : Nat} {rawKey : List UInt8}

/-! ## The loops -/

/-- `compare_keys` of two INT keys is below zero where the first number is the smaller one. -/
theorem compareRawKeys_int (ops : WhereOps) (k₁ k₂ : List UInt8) :
    decide (compareRawKeys ops .int k₁ k₂ = .lt) = (rawInt k₁).slt (rawInt k₂) := by
  have hasym : (rawInt k₁).slt (rawInt k₂) = true → (rawInt k₂).slt (rawInt k₁) = false := by
    simp only [BitVec.slt, decide_eq_true_eq, decide_eq_false_iff_not]
    omega
  rw [compareRawKeys, signOf]
  cases h₁ : (rawInt k₁).slt (rawInt k₂) with
  | true =>
    rw [hasym h₁]
    rfl
  | false => cases (rawInt k₂).slt (rawInt k₁) <;> rfl

theorem leafNodeFindInt_eq (ops : WhereOps) (m : Mem) (rawKey : List UInt8) :
    leafNodeFindInt ops m rawKey = leafNodeFindRaw ops .int m rawKey := by
  have hraw : ∀ v : Value, rawInt (rawCol0Key .int v) = v.intVal := fun v => rawInt_keyBuf v.intVal
  unfold leafNodeFindInt leafNodeFindRaw
  simp only [compareRawKeys_int, hraw]

theorem internalNodeFindChildInt_eq (ops : WhereOps) (m : Mem) (rawKey : List UInt8) :
    internalNodeFindChildInt m rawKey = internalNodeFindChildRaw ops .int m rawKey := by
  unfold internalNodeFindChildInt internalNodeFindChildRaw
  simp only [compareRawKeys_int]

/-! ## The descents -/

theorem internalNodeFindChild_le (ops : WhereOps) (c : ColumnType) (m : Mem) (rawKey : List UInt8) :
    internalNodeFindChild ops c m rawKey ≤ internalNodeNumKeys m := by
  unfold internalNodeFindChild
  split
  · exact lowerBound_le _ (Nat.zero_le _)
  · exact lowerBound_le _ (Nat.zero_le _)

/-- The search never asks for a child that the node does not have. -/
theorem internalNodeChild_found (ops : WhereOps) (c : ColumnType) (m : Mem) (rawKey : List UInt8) :
    ∃ q, internalNodeChild m (internalNodeFindChild ops c m rawKey) = some q := by
  have hle := internalNodeFindChild_le ops c m rawKey
  unfold internalNodeChild
  rw [if_neg (by omega)]
  split
  · exact ⟨_, rfl⟩
  · exact ⟨_, rfl⟩

theorem not_isInternal (h : IsLeaf m) : ¬ IsInternal m := by
  intro h0
  exact absurd (h.symm.trans h0) (by decide)

/-- At a leaf, what `btree_find_out` does behind its loop is `leaf_node_navigate`. -/
theorem btreeFindOut_of_page {v : Value} (h : findOutPage ops c pages depth p (rawCol0Key c v) = some leaf) :
    btreeFindOut ops c pages depth p v = some (leafNodeNavigate ops c pages leaf (rawCol0Key c v)) := by
  unfold btreeFindOut leafNodeNavigate
  simp only [h, Option.bind_eq_bind, Option.bind_some, Option.pure_def]
  split
  · split
    · rfl
    · split
      · next hn => rw [decide_eq_true hn]
      · next hn => rw [decide_eq_false hn]
  · rfl

/-- Both descents end on the same leaf, with levels to spare. -/
theorem descents_agree (h : FiniteTree pages p) (rawKey : List UInt8) : ∃ leaf levels, ∀ depth, levels ≤ depth →
    findOutPage ops c pages depth p rawKey = some leaf ∧
      (IsLeaf (pages p) → leaf = p) ∧
      (¬ IsLeaf (pages p) → internalNodeFind ops c pages depth p rawKey = some (leafNodeNavigate ops c pages leaf rawKey)) := by
  induction h with
  | leaf p h =>
    refine ⟨p, 0, fun depth _ => ⟨?_, fun _ => rfl, fun hn => absurd h hn⟩⟩
    cases depth with
    | zero => exact if_neg (not_isInternal h)
    | succ depth => exact if_neg (not_isInternal h)
  | inner p h child ih =>
    obtain ⟨q, hq⟩ := internalNodeChild_found ops c (pages p) rawKey
    obtain ⟨leaf, levels, hrest⟩ := ih _ q hq
    have hchild := child _ q hq
    refine ⟨leaf, levels + 1, fun depth hd => ?_⟩
    obtain ⟨depth, rfl⟩ : ∃ d, depth = d + 1 := ⟨depth - 1, by omega⟩
    obtain ⟨hout, hleaf, hinner⟩ := hrest depth (by omega)
    refine ⟨?_, fun hl => absurd h (not_isInternal hl), fun _ => ?_⟩
    · rw [findOutPage, if_pos h]
      simp only [hq, Option.bind_eq_bind, Option.bind_some]
      exact hout
    · rw [internalNodeFind]
      simp only [hq, Option.bind_eq_bind, Option.bind_some]
      by_cases hl : IsLeaf (pages q)
      · rw [if_pos hl, hleaf hl]
        rfl
      · have hi : IsInternal (pages q) := by
          cases hchild with
          | leaf _ h => exact absurd h hl
          | inner _ h _ => exact h
        rw [if_neg hl, if_pos hi]
        exact hinner hl

/-- The search variants agree: on a finite tree both descents return one cursor, and the loops for INT return the
index of the loops that compare the bytes. -/
theorem searches_agree (ops : WhereOps) (c : ColumnType) {pages : Nat → Mem} {root : Nat} (h : FiniteTree pages root)
    (keyValue : Value) :
    (∃ cursor levels, ∀ depth, levels ≤ depth → btreeFind ops c pages depth root keyValue = some cursor ∧
        btreeFindOut ops c pages depth root keyValue = some cursor) ∧
      (∀ m rawKey, leafNodeFindInt ops m rawKey = leafNodeFindRaw ops .int m rawKey) ∧
      ∀ m rawKey, internalNodeFindChildInt m rawKey = internalNodeFindChildRaw ops .int m rawKey := by
  refine ⟨?_, leafNodeFindInt_eq ops, internalNodeFindChildInt_eq ops⟩
  obtain ⟨leaf, levels, hdesc⟩ := @descents_agree ops c _ _ h (rawCol0Key c keyValue)
  refine ⟨leafNodeNavigate ops c pages leaf (rawCol0Key c keyValue), levels, fun depth hd => ?_⟩
  obtain ⟨hout, hleaf, hinner⟩ := hdesc depth hd
  refine ⟨?_, btreeFindOut_of_page hout⟩
  unfold btreeFind
  by_cases hl : IsLeaf (pages root)
  · rw [if_pos hl, hleaf hl]
  · rw [if_neg hl]
    exact hinner hl

/-- A root with the key 5 over the pages 2 and 3, two leaves without cells. -/
def smallPages (p : Nat) : Mem :=
  if p = 1 then
    write (fun _ => 0) 8 ([1, 0, 0, 0] ++ [3, 0, 0, 0] ++ [2, 0, 0, 0] ++ rawCol0Key .int { Value.init with intVal := 5 })
  else fun i => if i = 0 then 1 else 0

theorem smallPages_finite : FiniteTree smallPages 1 := by
  refine .inner 1 (by decide) fun i q hq => ?_
  have hkeys : internalNodeNumKeys (smallPages 1) = 1 := by decide
  have hleaf : ∀ r, r ≠ 1 → IsLeaf (smallPages r) := by
    intro r hr
    rw [smallPages, if_neg hr]
    decide
  unfold internalNodeChild at hq
  rw [hkeys] at hq
  have hi : i = 0 ∨ i = 1 := by
    by_contra hn
    rw [if_pos (by omega)] at hq
    cases hq
  rcases hi with rfl | rfl
  · exact .leaf q (hleaf q (by rw [← Option.some.inj hq]; decide))
  · exact .leaf q (hleaf q (by rw [← Option.some.inj hq]; decide))

/-- The descents for 7 in that tree. -/
theorem searches_agree_small : ∃ cursor levels, ∀ depth, levels ≤ depth →
    btreeFind ieeeOps .int smallPages depth 1 { Value.init with intVal := 7 } = some cursor ∧
      btreeFindOut ieeeOps .int smallPages depth 1 { Value.init with intVal := 7 } = some cursor :=
  (searches_agree ieeeOps .int smallPages_finite _).1

end Page

end CustomDB
