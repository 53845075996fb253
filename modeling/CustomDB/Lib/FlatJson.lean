import CustomDB.Lib.JsonText

/-!
# Flat JSON objects

Objects whose members are strings without escapes or numbers, with the blanks they are written with, and the texts
between the quotation marks of a text.
-/

namespace Lib.FlatJson

open Lib.JsonText (isPlain)

/-! ## Values -/

/-- A blank of JSON. -/
def isBlank (b : UInt8) : Bool := b = 32 || b = 9 || b = 10 || b = 13

def isDigit (b : UInt8) : Bool := 48 ≤ b && b ≤ 57

/-- One digit or more. -/
def Digits (s : List UInt8) : Prop := s ≠ [] ∧ ∀ b ∈ s, isDigit b

/-- A JSON number: sign, integer, fraction and exponent. -/
def IsNumber (s : List UInt8) : Prop :=
  ∃ sign int frac exp : List UInt8, s = sign ++ int ++ frac ++ exp ∧ (sign = [] ∨ sign = [45]) ∧
    Digits int ∧ (int.head? = some 48 → int.length = 1) ∧
    (frac = [] ∨ ∃ ds, frac = 46 :: ds ∧ Digits ds) ∧
    (exp = [] ∨ ∃ e sg ds, exp = e :: (sg ++ ds) ∧ (e = 101 ∨ e = 69) ∧ (sg = [] ∨ sg = [43] ∨ sg = [45]) ∧ Digits ds)

/-- The value of a member. -/
inductive Value
  | text (s : List UInt8) (plain : ∀ b ∈ s, isPlain b)
  | number (s : List UInt8) (h : IsNumber s)

/-- The text of the value, without quotation marks. -/
def Value.bytes : Value → List UInt8
  | text s _ => s
  | number s _ => s

/-- The value as it is written. -/
def Value.written : Value → List UInt8
  | text s _ => 34 :: (s ++ [34])
  | number s _ => s

/-! ## Objects -/

/-- A member: its name and value, the blanks before the name, before and behind the colon, and behind the value. -/
structure Member where
  name : List UInt8
  plain : ∀ b ∈ name, isPlain b
  value : Value
  before : List UInt8
  colon : List UInt8 × List UInt8
  behind : List UInt8
  blanks : ∀ b ∈ before ++ colon.1 ++ colon.2 ++ behind, isBlank b

/-- What stands between the name and the value. -/
def Member.gap (m : Member) : List UInt8 := m.colon.1 ++ 58 :: m.colon.2

def Member.written (m : Member) : List UInt8 :=
  m.before ++ 34 :: (m.name ++ 34 :: (m.gap ++ m.value.written ++ m.behind))

/-- A flat object, with the blanks around it and in it when it is empty. -/
structure FlatObject where
  members : List Member
  before : List UInt8
  inner : List UInt8
  behind : List UInt8
  blanks : ∀ b ∈ before ++ inner ++ behind, isBlank b

/-- The members with the commas between them and what ends them. -/
def membersText (tail : List UInt8) : List Member → List UInt8
  | [] => tail
  | [m] => m.written ++ tail
  | m :: ms => m.written ++ 44 :: membersText tail ms

def FlatObject.written (o : FlatObject) : List UInt8 :=
  o.before ++ 123 :: ((if o.members = [] then o.inner else []) ++ membersText (125 :: o.behind) o.members)

/-- The text of the value of the first member with this name, nothing when there is none. -/
def FlatObject.lookup (o : FlatObject) (key : List UInt8) : List UInt8 :=
  ((o.members.find? fun m => m.name = key).map fun m => m.value.bytes).getD []

end Lib.FlatJson
