import CustomDB.Sql.Plain
import CustomDB.Sql.Digits
import CustomDB.Rows.KeySpec

/-!
# Arithmetic in a select list

`eval_expr_string` on a text that is neither a function call nor a CASE: the first operator between two characters it
takes for the ends of operands, and the two operands as doubles. On integers up to 2^53 doubles are exact.
-/

namespace CustomDB

/-! ## The evaluator -/

/-- The arithmetic of doubles that the compiler provides. -/
structure ArithOps extends WhereOps where
  /-- `(double)` of a `long long`. -/
  doubleOfLong : ℤ → BitVec 64
  /-- `(long long)` of a `double`. -/
  longOfDouble : BitVec 64 → ℤ
  add : BitVec 64 → BitVec 64 → BitVec 64
  sub : BitVec 64 → BitVec 64 → BitVec 64
  mul : BitVec 64 → BitVec 64 → BitVec 64
  div : BitVec 64 → BitVec 64 → BitVec 64

/-- The calls that `eval_expr_string` looks for. -/
def exprCalls : List Text :=
  [ascii ['a', 'b', 's', '('], ascii ['l', 'e', 'n', 'g', 't', 'h', '('], ascii ['t', 'y', 'p', 'e', 'o', 'f', '('],
    ascii ['c', 'a', 's', 't', '('], ascii ['s', 't', 'r', 'f', 't', 'i', 'm', 'e', '('],
    ascii ['j', 's', 'o', 'n', '_', 'e', 'x', 't', 'r', 'a', 'c', 't', '('],
    ascii ['j', 's', 'o', 'n', '_', 'a', 'r', 'r', 'a', 'y', '('],
    ascii ['j', 's', 'o', 'n', '_', 'o', 'b', 'j', 'e', 'c', 't', '('],
    ascii ['l', '2', '_', 'd', 'i', 's', 't', 'a', 'n', 'c', 'e', '('],
    ascii ['c', 'o', 's', 'i', 'n', 'e', '_', 's', 'i', 'm', 'i', 'l', 'a', 'r', 'i', 't', 'y', '(']]

def kwRandom : Text := ascii ['r', 'a', 'n', 'd', 'o', 'm', '(', ')']

/-- A function call, or a CASE. -/
def isCall (expr : Text) : Bool :=
  strcasecmp expr kwRandom = .eq || exprCalls.any (startsCI · expr) || startsCI kwCase expr && isspace (charAt expr 4)

def isOperator (b : UInt8) : Bool := b = 43 || b = 45 || b = 42 || b = 47

/-- What may stand beside an operator. -/
def besideOperator (b : UInt8) : Bool := b = 32 || isalnum b

/-- `op_ptr`: what stands before the operator, the operator, and what stands behind it. `prev` is the character
before the text. -/
def findOperator : Option UInt8 → Text → Option (Text × UInt8 × Text)
  | _, [] => none
  | prev, b :: p =>
    if isOperator b && prev.any besideOperator && besideOperator (peek p) then some ([], b, p)
    else (findOperator (some b) p).map fun r => (b :: r.1, r.2)

/-- `lstart`. A left side that is too long for `left_tok` is left out, and what the source reads behind the array for
it is not modelled. -/
def leftOperand (s : Text) : Text := skipWhitespace (trimEnd (if s.length < 128 then s else []))

/-- `rstart`. -/
def rightOperand (s : Text) : Text := trimEnd (skipWhitespace (s.take 127))

/-- The last column of that very name. -/
def lastColumn (cols : List Column) (name : Text) : Option (Nat × Column) :=
  cols.zipIdx.foldl (fun r c => if strcmp c.1.name.str name = .eq then some (c.2, c.1) else r) none

/-- The bytes `%lld` prints. -/
def printLong (n : ℤ) : Text :=
  let digits := (Nat.toDigits 10 n.natAbs).map fun c => UInt8.ofNat c.toNat
  if n < 0 then 45 :: digits else digits

section Eval

variable (ops : ArithOps) (cols : List Column) (vals : List Value)

/-- An operand: a column, or else a number. -/
def operandValue (tok : Text) : BitVec 64 :=
  match lastColumn cols tok with
  | some (i, c) =>
    let v := vals.getD i Value.init
    if c.type = .int then ops.doubleOfInt v.intVal else v.doubleVal
  | none => ops.atof tok

/-- `res`. -/
def applyOperator (op : UInt8) (l r : BitVec 64) : BitVec 64 :=
  if op = 43 then ops.add l r
  else if op = 45 then ops.sub l r
  else if op = 42 then ops.mul l r
  else if op = 47 ∧ ops.eqDouble r 0 = false then ops.div l r
  else 0

/-- A number without a fraction is printed whole. -/
def printNumber (res : BitVec 64) : Text :=
  if ops.eqDouble (ops.doubleOfLong (ops.longOfDouble res)) res then printLong (ops.longOfDouble res)
  else ops.printDouble res

def evalArithmetic (expr : Text) : Text :=
  match findOperator none expr with
  | none => []
  | some (l, op, r) =>
    printNumber ops (applyOperator ops op (operandValue ops cols vals (leftOperand l)) (operandValue ops cols vals (rightOperand r)))

/-- `eval_expr_string` into a buffer of 256 bytes; `calls` is what it prints for a function call or a CASE. Without a
row there are no columns. -/
def evalExprString (calls : List Column → List Value → Text → Text) (expr : Text) : Text :=
  if isCall expr then calls cols vals expr else (evalArithmetic ops cols vals expr).take 255

end Eval

/-! ## Integers as doubles -/

/-- A number as it is written: digits, with a minus sign or without. -/
structure IntLiteral where
  negative : Bool
  digits : Text
  ne_nil : digits ≠ []
  isDigit : ∀ b ∈ digits, isdigit b = true

namespace IntLiteral

def text (k : IntLiteral) : Text := if k.negative then 45 :: k.digits else k.digits

def value (k : IntLiteral) : ℤ := if k.negative then -decimal k.digits else decimal k.digits

end IntLiteral

namespace ArithOps

/-- The double is the integer `n`. -/
def Has (o : ArithOps) (d : BitVec 64) (n : ℤ) : Prop :=
  o.longOfDouble d = n ∧ o.eqDouble (o.doubleOfLong n) d = true

/-- Doubles hold the integers up to 2^53, and operations on them whose result is one too are exact. -/
structure Exact (o : ArithOps) : Prop where
  ofInt : ∀ x : BitVec 32, o.Has (o.doubleOfInt x) x.toInt
  atof : ∀ k : IntLiteral, |k.value| ≤ 2 ^ 53 → o.Has (o.atof k.text) k.value
  add : ∀ {d e m n}, o.Has d m → o.Has e n → |m| ≤ 2 ^ 53 → |n| ≤ 2 ^ 53 → |m + n| ≤ 2 ^ 53 → o.Has (o.add d e) (m + n)
  sub : ∀ {d e m n}, o.Has d m → o.Has e n → |m| ≤ 2 ^ 53 → |n| ≤ 2 ^ 53 → |m - n| ≤ 2 ^ 53 → o.Has (o.sub d e) (m - n)
  mul : ∀ {d e m n}, o.Has d m → o.Has e n → |m| ≤ 2 ^ 53 → |n| ≤ 2 ^ 53 → |m * n| ≤ 2 ^ 53 → o.Has (o.mul d e) (m * n)
  div : ∀ {d e m n}, o.Has d (m * n) → o.Has e n → n ≠ 0 → |m * n| ≤ 2 ^ 53 → |n| ≤ 2 ^ 53 → o.Has (o.div d e) m
  nonzero : ∀ {d n}, o.Has d n → n ≠ 0 → o.eqDouble d 0 = false

end ArithOps

/-! ## Steps -/

inductive ArithOp where
  | add | sub | mul | div
  deriving DecidableEq, Repr

namespace ArithOp

def char : ArithOp → UInt8
  | add => 43 | sub => 45 | mul => 42 | div => 47

/-- The integer `y` is the result for `x` and `c`. -/
def Gives (op : ArithOp) (c x y : ℤ) : Prop :=
  match op with
  | add => y = x + c
  | sub => y = x - c
  | mul => y = x * c
  | div => c ≠ 0 ∧ x = y * c

/-- There is one result at most. -/
theorem Gives.unique {op : ArithOp} {c : ℤ} : ∀ x y z, op.Gives c x y → op.Gives c x z → y = z := by
  intro x y z hy hz
  cases op with
  | add => exact hy.trans hz.symm
  | sub => exact hy.trans hz.symm
  | mul => exact hy.trans hz.symm
  | div => exact mul_right_cancel₀ hy.1 (hy.2.symm.trans hz.2)

end ArithOp

/-- An operator and a constant behind a column, with the blanks around the operator. -/
structure StepExpr where
  before : Blank
  op : ArithOp
  after : Blank
  const : IntLiteral

namespace StepExpr

/-- The expression with the column `col`. -/
def text (e : StepExpr) (col : Text) : Text := col ++ e.before.text ++ e.op.char :: (e.after.text ++ e.const.text)

/-- The evaluator sees the operator, and it has room for both sides. -/
structure Readable (e : StepExpr) (col : Text) : Prop where
  before : besideOperator ((col ++ e.before.text).getLastD 0) = true
  after : besideOperator (peek (e.after.text ++ e.const.text)) = true
  left : (col ++ e.before.text).length < 128
  right : (e.after.text ++ e.const.text).length < 128

end StepExpr

/-- The name of a column that an expression can begin with: no keyword and no number. -/
structure ExprColumn (col : Text) : Prop where
  ne_nil : col ≠ []
  ident : ∀ b ∈ col, isIdent b = true
  notCase : col.map tolower ≠ kwCase
  notNumber : ∃ b ∈ col, isdigit b = false

/-! ## Numbers as texts -/

namespace IntLiteral

variable (k : IntLiteral)

theorem head_digit : ∃ b s, k.digits = b :: s ∧ isdigit b = true := by
  obtain ⟨b, s, hs⟩ := List.exists_cons_of_ne_nil k.ne_nil
  exact ⟨b, s, hs, k.isDigit b (hs ▸ List.mem_cons_self)⟩

/-- `atoi` reads a number that fits. -/
theorem atoi_text (h : -2 ^ 31 ≤ k.value ∧ k.value < 2 ^ 31) : atoi k.text = BitVec.ofInt 32 k.value := by
  obtain ⟨b, s, hs, hb⟩ := k.head_digit
  obtain ⟨hspace, h45, h43, -⟩ := plain_of_isdigit hb
  have htake : k.digits.takeWhile isdigit = k.digits := List.takeWhile_eq_self_iff.mpr k.isDigit
  unfold value at h ⊢
  unfold atoi text
  by_cases hneg : k.negative = true
  · rw [if_pos hneg] at h ⊢
    rw [if_pos hneg]
    have hskip : skipWhitespace (45 :: k.digits) = 45 :: k.digits := rfl
    dsimp only
    rw [hskip]
    simp only [peek, List.headD_cons, true_or, if_true, List.drop_succ_cons, List.drop_zero]
    rw [htake]
    congr 1
    omega
  · rw [if_neg hneg] at h ⊢
    rw [if_neg hneg]
    have hskip : skipWhitespace k.digits = k.digits := by
      rw [hs]
      exact List.dropWhile_cons_of_neg (by simp [hspace])
    have hpeek : peek k.digits = b := by rw [hs]; rfl
    dsimp only
    rw [hskip, hpeek, if_neg h45, if_neg (not_or.mpr ⟨h45, h43⟩), htake]
    congr 1
    omega

/-- The characters of a number. -/
theorem mem_text {b : UInt8} (hb : b ∈ k.text) : b = 45 ∨ isdigit b = true := by
  unfold text at hb
  split at hb
  · exact (List.mem_cons.mp hb).imp_right (k.isDigit b)
  · exact Or.inr (k.isDigit b hb)

theorem text_ne_nil : k.text ≠ [] := by
  unfold text
  split
  · exact List.cons_ne_nil _ _
  · exact k.ne_nil

end IntLiteral

theorem printLong_eq {y : ℤ} (h : -2 ^ 31 ≤ y ∧ y < 2 ^ 31) : printLong y = printInt (BitVec.ofInt 32 y) := by
  have hy : (BitVec.ofInt 32 y).toInt = y := by
    rw [BitVec.toInt_ofInt]
    exact Int.bmod_eq_of_le (by omega) (by omega)
  unfold printLong printInt
  rw [hy]

/-! ## Reading a step -/

theorem isOperator_ident {b : UInt8} : isIdent b = true → isOperator b = false :=
  byte_cases (P := fun b => isIdent b = true → isOperator b = false) (by decide +kernel) b

theorem isOperator_space {b : UInt8} : isspace b = true → isOperator b = false :=
  byte_cases (P := fun b => isspace b = true → isOperator b = false) (by decide +kernel) b

theorem isOperator_digit {b : UInt8} : isdigit b = true → isOperator b = false :=
  byte_cases (P := fun b => isdigit b = true → isOperator b = false) (by decide +kernel) b

theorem digit_plain {b : UInt8} : isdigit b = true → b ≠ 0 ∧ tolower b ≠ 40 ∧ tolower b ≠ 99 :=
  byte_cases (P := fun b => isdigit b = true → b ≠ 0 ∧ tolower b ≠ 40 ∧ tolower b ≠ 99) (by decide +kernel) b

theorem findOperator_behind {s r : Text} {op : UInt8} (hs : ∀ b ∈ s, isOperator b = false) (hop : isOperator op = true)
    (hbehind : besideOperator (peek r) = true) : ∀ prev : UInt8, besideOperator (s.getLastD prev) = true →
    findOperator (some prev) (s ++ op :: r) = some (s, op, r) := by
  induction s with
  | nil =>
    intro prev hprev
    have hlast : besideOperator prev = true := hprev
    simp [findOperator, hop, hlast, hbehind]
  | cons b s ih =>
    intro prev hlast
    rw [List.cons_append, findOperator, hs b List.mem_cons_self]
    simp only [Bool.false_and, Bool.false_eq_true, if_false]
    rw [ih (fun c hc => hs c (List.mem_cons_of_mem _ hc)) b (by rwa [List.getLastD_cons] at hlast)]
    rfl

/-- The first operator behind a text without one. -/
theorem findOperator_eq {s r : Text} {op : UInt8} (hne : s ≠ []) (hs : ∀ b ∈ s, isOperator b = false)
    (hop : isOperator op = true) (hlast : besideOperator (s.getLastD 0) = true) (hbehind : besideOperator (peek r) = true) :
    findOperator none (s ++ op :: r) = some (s, op, r) := by
  obtain ⟨b, s, rfl⟩ := List.exists_cons_of_ne_nil hne
  rw [List.cons_append, findOperator, hs b List.mem_cons_self]
  simp only [Bool.false_and, Bool.false_eq_true, if_false]
  rw [findOperator_behind (fun c hc => hs c (List.mem_cons_of_mem _ hc)) hop hbehind b
    (by rwa [List.getLastD_cons] at hlast)]
  rfl

theorem findOperator_none {s : Text} (hs : ∀ b ∈ s, isOperator b = false) (prev : Option UInt8) :
    findOperator prev s = none := by
  induction s generalizing prev with
  | nil => rfl
  | cons b s ih =>
    rw [findOperator, hs b List.mem_cons_self]
    simp only [Bool.false_and, Bool.false_eq_true, if_false]
    rw [ih fun c hc => hs c (List.mem_cons_of_mem _ hc)]
    rfl

/-- The sign of a number is no operator. -/
theorem IntLiteral.findOperator_text (k : IntLiteral) : findOperator none k.text = none := by
  have hdigits : ∀ b ∈ k.digits, isOperator b = false := fun b hb => isOperator_digit (k.isDigit b hb)
  unfold IntLiteral.text
  split
  · rw [findOperator, findOperator_none hdigits]
    rfl
  · exact findOperator_none hdigits none

/-- No call is without a bracket. -/
theorem isCall_eq_false {s : Text} (hzero : 0 ∉ s) (hbracket : ∀ b ∈ s, tolower b ≠ 40)
    (hcase : (startsCI kwCase s && isspace (charAt s 4)) = false) : isCall s = false := by
  have hrandom : strcasecmp s kwRandom ≠ .eq := by
    intro heq
    have hmap : s.map tolower = kwRandom.map tolower := by
      refine eq_of_strcmp (fun h0 => ?_) (by decide) heq
      obtain ⟨b, hb, hb0⟩ := List.mem_map.mp h0
      exact tolower_ne_zero (fun h => hzero (h ▸ hb)) hb0
    have hmem : (40 : UInt8) ∈ s.map tolower := hmap ▸ (by decide : (40 : UInt8) ∈ kwRandom.map tolower)
    obtain ⟨b, hb, hb40⟩ := List.mem_map.mp hmem
    exact hbracket b hb hb40
  have hcalls : exprCalls.any (startsCI · s) = false := by
    rw [List.any_eq_false]
    intro kw hkw hstart
    have hmem : 40 ∈ kw := (by decide : ∀ kw ∈ exprCalls, 40 ∈ kw) kw hkw
    rw [← (of_decide_eq_true hstart : (s.take kw.length).map tolower = kw)] at hmem
    obtain ⟨b, hb, hb40⟩ := List.mem_map.mp hmem
    exact hbracket b (List.mem_of_mem_take hb) hb40
  unfold isCall
  rw [hcalls, hcase, decide_eq_false hrandom]
  rfl

theorem IntLiteral.isCall_text (k : IntLiteral) : isCall k.text = false := by
  have hchars : ∀ b ∈ k.text, b ≠ 0 ∧ tolower b ≠ 40 ∧ tolower b ≠ 99 := by
    intro b hb
    rcases k.mem_text hb with rfl | hd
    · decide
    · exact digit_plain hd
  refine isCall_eq_false (fun h => (hchars 0 h).1 rfl) (fun b hb => (hchars b hb).2.1) ?_
  obtain ⟨b, s, hs⟩ := List.exists_cons_of_ne_nil k.text_ne_nil
  have hb := hchars b (hs ▸ List.mem_cons_self)
  have hstart : startsCI kwCase k.text = false := by
    rw [hs]
    refine decide_eq_false fun h => hb.2.2 ?_
    exact (List.cons.inj h).1
  rw [hstart]
  rfl

/-! ## One column -/

theorem lastColumn_self {c : Column} {name : Text} (h : c.name.str = name) : lastColumn [c] name = some (0, c) := by
  subst h
  simp [lastColumn, strcmp_self]

theorem lastColumn_ne {c : Column} {name : Text} (hzero : 0 ∉ name) (h : c.name.str ≠ name) : lastColumn [c] name = none := by
  have hcmp : strcmp c.name.str name ≠ .eq := fun he => h (eq_of_strcmp (zero_notMem_takeWhile _) hzero he)
  simp [lastColumn, hcmp]

namespace ArithOps

variable {o : ArithOps}

/-- A result that fits is printed as an INT. -/
theorem Has.print {d : BitVec 64} {y : ℤ} (h : o.Has d y) (hy : -2 ^ 31 ≤ y ∧ y < 2 ^ 31) :
    printNumber o d = printInt (BitVec.ofInt 32 y) := by
  unfold printNumber
  rw [h.1, if_pos h.2, printLong_eq hy]

/-- The operators compute what they stand for. -/
theorem Exact.apply (ho : o.Exact) {op : ArithOp} {d e : BitVec 64} {c x y : ℤ} (hd : o.Has d x) (he : o.Has e c)
    (hgives : op.Gives c x y) (hx : |x| ≤ 2 ^ 53) (hc : |c| ≤ 2 ^ 53) (hy : |y| ≤ 2 ^ 53) :
    o.Has (applyOperator o op.char d e) y := by
  cases op with
  | add =>
    obtain rfl : y = x + c := hgives
    exact ho.add hd he hx hc hy
  | sub =>
    obtain rfl : y = x - c := hgives
    exact ho.sub hd he hx hc hy
  | mul =>
    obtain rfl : y = x * c := hgives
    exact ho.mul hd he hx hc hy
  | div =>
    obtain ⟨hne, rfl⟩ : c ≠ 0 ∧ x = y * c := hgives
    have happly : applyOperator o ArithOp.div.char d e = o.div d e := by
      show (if _ then _ else if _ then _ else if _ then _ else if _ then _ else _) = _
      rw [if_neg (by decide), if_neg (by decide), if_neg (by decide), if_pos ⟨rfl, ho.nonzero he hne⟩]
    rw [happly]
    exact ho.div hd he hne hx hc

end ArithOps

/-! ## A step over one column -/

theorem ident_plain {b : UInt8} : isIdent b = true → b ≠ 0 ∧ tolower b ≠ 40 :=
  byte_cases (P := fun b => isIdent b = true → b ≠ 0 ∧ tolower b ≠ 40) (by decide +kernel) b

theorem space_plain {b : UInt8} : isspace b = true → b ≠ 0 ∧ tolower b ≠ 40 :=
  byte_cases (P := fun b => isspace b = true → b ≠ 0 ∧ tolower b ≠ 40) (by decide +kernel) b

theorem notMem_case {b : UInt8} : isspace b = true ∨ isOperator b = true → tolower b ∉ kwCase :=
  byte_cases (P := fun b => isspace b = true ∨ isOperator b = true → tolower b ∉ kwCase) (by decide +kernel) b

namespace StepExpr

variable {e : StepExpr} {col : Text}

theorem isOperator_char (op : ArithOp) : isOperator op.char = true := by cases op <;> rfl

theorem findOperator_text (hcol : ExprColumn col) (h : e.Readable col) :
    findOperator none (e.text col) = some (col ++ e.before.text, e.op.char, e.after.text ++ e.const.text) := by
  refine findOperator_eq (List.append_ne_nil_of_left_ne_nil hcol.ne_nil _) (fun b hb => ?_) (isOperator_char _) h.before h.after
  rcases List.mem_append.mp hb with hb | hb
  · exact isOperator_ident (hcol.ident b hb)
  · exact isOperator_space (e.before.space b hb)

theorem leftOperand_text (hcol : ExprColumn col) (h : e.Readable col) : leftOperand (col ++ e.before.text) = col := by
  have hspace : ∀ b ∈ col, isspace b = false := fun b hb => isspace_of_isIdent (hcol.ident b hb)
  unfold leftOperand
  rw [if_pos h.left, trimEnd_append hcol.ne_nil (hspace _ (List.getLast_mem _)) e.before.space]
  apply skipWhitespace_self
  obtain ⟨b, s, rfl⟩ := List.exists_cons_of_ne_nil hcol.ne_nil
  exact hspace b List.mem_cons_self

theorem rightOperand_text (h : e.Readable col) : rightOperand (e.after.text ++ e.const.text) = e.const.text := by
  have hspace : ∀ b ∈ e.const.text, isspace b = false := by
    intro b hb
    rcases e.const.mem_text hb with rfl | hd
    · rfl
    · exact (plain_of_isdigit hd).1
  have hlen := h.right
  have hne := e.const.text_ne_nil
  have hpeek : isspace (peek e.const.text) = false := by
    obtain ⟨b, s, hs⟩ := List.exists_cons_of_ne_nil hne
    rw [hs]
    exact hspace b (hs ▸ List.mem_cons_self)
  have htrim := trimEnd_append hne (hspace _ (List.getLast_mem hne)) (g := []) fun b hb => absurd hb List.not_mem_nil
  unfold rightOperand
  rw [List.take_of_length_le (by omega), skipWhitespace_blank, skipWhitespace_self hpeek]
  rwa [List.append_nil] at htrim

theorem isCall_text (hcol : ExprColumn col) : isCall (e.text col) = false := by
  have hchars : ∀ b ∈ e.text col, b ≠ 0 ∧ tolower b ≠ 40 := by
    intro b hb
    rcases List.mem_append.mp hb with hb | hb
    · rcases List.mem_append.mp hb with hb | hb
      · exact ident_plain (hcol.ident b hb)
      · exact space_plain (e.before.space b hb)
    · rcases List.mem_cons.mp hb with rfl | hb
      · cases e.op <;> decide
      · rcases List.mem_append.mp hb with hb | hb
        · exact space_plain (e.after.space b hb)
        · rcases e.const.mem_text hb with rfl | hd
          · decide
          · exact ⟨(digit_plain hd).1, (digit_plain hd).2.1⟩
  refine isCall_eq_false (fun h => (hchars 0 h).1 rfl) (fun b hb => (hchars b hb).2) ?_
  -- the name is shorter than CASE, as long, or longer
  rw [Bool.and_eq_false_iff]
  have htext : e.text col = col ++ (e.before.text ++ e.op.char :: (e.after.text ++ e.const.text)) := List.append_assoc ..
  rcases Nat.lt_trichotomy col.length 4 with hlt | heq | hgt
  · left
    refine decide_eq_false fun hstart => ?_
    obtain ⟨b, s, hrest, hb⟩ : ∃ b s, e.before.text ++ e.op.char :: (e.after.text ++ e.const.text) = b :: s ∧
        (isspace b = true ∨ isOperator b = true) := by
      rcases hb : e.before.text with _ | ⟨b, s⟩
      · exact ⟨_, _, rfl, Or.inr (isOperator_char _)⟩
      · exact ⟨b, _, rfl, Or.inl (e.before.space b (hb ▸ List.mem_cons_self))⟩
    have hmem : b ∈ (e.text col).take 4 := by
      rw [htext, hrest, List.take_append, List.mem_append]
      right
      obtain ⟨n, hn⟩ : ∃ n, 4 - col.length = n + 1 := ⟨3 - col.length, by omega⟩
      rw [hn]
      exact List.mem_cons_self
    have hcase : tolower b ∈ kwCase := hstart ▸ List.mem_map_of_mem hmem
    exact notMem_case hb hcase
  · left
    refine decide_eq_false fun hstart => hcol.notCase ?_
    have htake : (e.text col).take 4 = col := by rw [htext, List.take_left' heq]
    rw [← htake]
    exact hstart
  · right
    have hat : charAt (e.text col) 4 = col[4] := by
      rw [charAt, htext, List.getD_eq_getElem?_getD, List.getElem?_append_left hgt, List.getElem?_eq_getElem hgt]
      rfl
    rw [hat]
    exact isspace_of_isIdent (hcol.ident _ (List.getElem_mem hgt))

/-- A number is not the name. -/
theorem const_ne (hcol : ExprColumn col) : col ≠ e.const.text := by
  rintro rfl
  obtain ⟨b, hb, hd⟩ := hcol.notNumber
  rcases e.const.mem_text hb with rfl | h
  · exact absurd (hcol.ident 45 hb) (by decide)
  · rw [hd] at h
    cases h

/-- What the step prints where its result fits. -/
theorem eval_text {o : ArithOps} (ho : o.Exact) (hcol : ExprColumn col) (h : e.Readable col) {c : Column}
    (hname : c.name.str = col) (htype : c.type = .int) {v : Value} {y : ℤ} (hgives : e.op.Gives e.const.value v.intVal.toInt y)
    (hconst : |e.const.value| ≤ 2 ^ 53) (hy : -2 ^ 31 ≤ y ∧ y < 2 ^ 31) (calls : List Column → List Value → Text → Text) :
    evalExprString o [c] [v] calls (e.text col) = printInt (BitVec.ofInt 32 y) := by
  have hzero : 0 ∉ e.const.text := by
    intro h0
    rcases e.const.mem_text h0 with h | h
    · cases h
    · exact absurd h (by decide)
  have hleft : operandValue o [c] [v] col = o.doubleOfInt v.intVal := by
    unfold operandValue
    rw [lastColumn_self hname]
    exact if_pos htype
  have hright : operandValue o [c] [v] e.const.text = o.atof e.const.text := by
    unfold operandValue
    rw [lastColumn_ne hzero (hname.trans_ne (const_ne hcol))]
  have hx : |v.intVal.toInt| ≤ 2 ^ 53 := by
    have hlt := @BitVec.toInt_lt 32 v.intVal
    have hle := @BitVec.le_toInt 32 v.intVal
    rw [abs_le]
    omega
  have hhas := ho.apply (ho.ofInt v.intVal) (ho.atof e.const hconst) hgives hx hconst (by rw [abs_le]; omega)
  unfold evalExprString evalArithmetic
  rw [isCall_text hcol, findOperator_text hcol h, if_neg Bool.false_ne_true]
  dsimp only
  rw [leftOperand_text hcol h, rightOperand_text h, hleft, hright, hhas.print hy]
  have hlen := length_printInt (BitVec.ofInt 32 y)
  exact List.take_of_length_le (by omega)

end StepExpr

/-- Nothing is printed for a number. -/
theorem IntLiteral.eval_text (k : IntLiteral) (o : ArithOps) (calls : List Column → List Value → Text → Text) :
    evalExprString o [] [] calls k.text = [] := by
  unfold evalExprString evalArithmetic
  rw [k.isCall_text, k.findOperator_text]
  rfl

end CustomDB
