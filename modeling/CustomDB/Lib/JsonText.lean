import Mathlib

/-!
# JSON strings, as they are written

The characters of a JSON string with their escapes, the bytes they are written with and the bytes they stand for.
-/

namespace Lib.JsonText

/-! ## Characters -/

/-- A byte that stands for itself: no control character, no quote, no backslash. -/
def isPlain (b : UInt8) : Bool := 32 ≤ b && b ≠ 34 && b ≠ 92

/-- The escapes of one letter. -/
inductive Short
  | quote | backslash | slash | backspace | formFeed | newline | carriageReturn | tab
  deriving DecidableEq

/-- What stands behind the backslash. -/
def Short.letter : Short → UInt8
  | quote => 34
  | backslash => 92
  | slash => 47
  | backspace => 98
  | formFeed => 102
  | newline => 110
  | carriageReturn => 114
  | tab => 116

/-- What the escape stands for. -/
def Short.byte : Short → UInt8
  | quote => 34
  | backslash => 92
  | slash => 47
  | backspace => 8
  | formFeed => 12
  | newline => 10
  | carriageReturn => 13
  | tab => 9

/-- The value of a hexadecimal digit. -/
def hexValue (d : UInt8) : Option Nat :=
  if 48 ≤ d ∧ d ≤ 57 then some (d.toNat - 48)
  else if 65 ≤ d ∧ d ≤ 70 then some (d.toNat - 55)
  else if 97 ≤ d ∧ d ≤ 102 then some (d.toNat - 87)
  else none

/-- The four digits of `\u`. -/
structure Unit16 where
  digits : List UInt8
  four : digits.length = 4
  hex : ∀ d ∈ digits, (hexValue d).isSome

/-- The number the digits write. -/
def Unit16.value (u : Unit16) : Nat := u.digits.foldl (fun n d => 16 * n + (hexValue d).getD 0) 0

/-- UTF-8. -/
def utf8 (n : Nat) : List UInt8 :=
  if n < 0x80 then [UInt8.ofNat n]
  else if n < 0x800 then [UInt8.ofNat (0xC0 + n / 64), UInt8.ofNat (0x80 + n % 64)]
  else if n < 0x10000 then
    [UInt8.ofNat (0xE0 + n / 4096), UInt8.ofNat (0x80 + n / 64 % 64), UInt8.ofNat (0x80 + n % 64)]
  else
    [UInt8.ofNat (0xF0 + n / 262144), UInt8.ofNat (0x80 + n / 4096 % 64), UInt8.ofNat (0x80 + n / 64 % 64),
      UInt8.ofNat (0x80 + n % 64)]

/-- A character of a JSON string. -/
inductive JsonChar
  | plain (b : UInt8) (h : isPlain b = true)
  | short (e : Short)
  | unicode (u : Unit16) (h : u.value < 0xD800 ∨ 0xDFFF < u.value)
  | pair (u v : Unit16) (hu : 0xD800 ≤ u.value ∧ u.value < 0xDC00) (hv : 0xDC00 ≤ v.value ∧ v.value < 0xE000)

namespace JsonChar

/-- The bytes the character is written with. -/
def text : JsonChar → List UInt8
  | plain b _ => [b]
  | short e => [92, e.letter]
  | unicode u _ => 92 :: 117 :: u.digits
  | pair u v _ _ => 92 :: 117 :: (u.digits ++ 92 :: 117 :: v.digits)

/-- The bytes the character stands for. -/
def value : JsonChar → List UInt8
  | plain b _ => [b]
  | short e => [e.byte]
  | unicode u _ => utf8 u.value
  | pair u v _ _ => utf8 (0x10000 + (u.value - 0xD800) * 1024 + (v.value - 0xDC00))

end JsonChar

/-- The bytes between the quotes. -/
def text (cs : List JsonChar) : List UInt8 := cs.flatMap JsonChar.text

/-- The bytes the string stands for. -/
def value (cs : List JsonChar) : List UInt8 := cs.flatMap JsonChar.value

/-- The bytes are a JSON string between its quotes, and stand for `s`. -/
def Reads (t s : List UInt8) : Prop := ∃ cs, text cs = t ∧ value cs = s

/-! ## Lengths -/

theorem length_utf8 (n : Nat) : 1 ≤ (utf8 n).length ∧ (utf8 n).length ≤ 4 := by
  unfold utf8
  split_ifs <;> simp

theorem hex_plain {d : UInt8} (h : (hexValue d).isSome) : isPlain d = true := by
  unfold hexValue at h
  have key : ∀ x : UInt8, (48 ≤ x ∧ x ≤ 57) ∨ (65 ≤ x ∧ x ≤ 70) ∨ (97 ≤ x ∧ x ≤ 102) → isPlain x = true := by
    intro x hx
    simp only [isPlain, Bool.and_eq_true, decide_eq_true_eq, UInt8.le_iff_toNat_le, ne_eq] at hx ⊢
    have h34 : x = 34 → x.toNat = 34 := fun h => by rw [h]; rfl
    have h92 : x = 92 → x.toNat = 92 := fun h => by rw [h]; rfl
    simp only [UInt8.reduceToNat] at hx ⊢
    refine ⟨⟨by omega, fun h => ?_⟩, fun h => ?_⟩
    · have := h34 h
      omega
    · have := h92 h
      omega
  split_ifs at h with h1 h2 h3
  · exact key d (Or.inl h1)
  · exact key d (Or.inr (Or.inl h2))
  · exact key d (Or.inr (Or.inr h3))
  · cases h

theorem JsonChar.value_ne_nil (c : JsonChar) : c.value ≠ [] := by
  cases c with
  | plain b h => exact List.cons_ne_nil _ _
  | short e => exact List.cons_ne_nil _ _
  | unicode u h => exact List.ne_nil_of_length_pos (length_utf8 _).1
  | pair u v hu hv => exact List.ne_nil_of_length_pos (length_utf8 _).1

@[simp] theorem text_nil : text [] = [] := rfl

@[simp] theorem text_cons (c : JsonChar) (cs : List JsonChar) : text (c :: cs) = c.text ++ text cs := rfl

@[simp] theorem value_nil : value [] = [] := rfl

@[simp] theorem value_cons (c : JsonChar) (cs : List JsonChar) : value (c :: cs) = c.value ++ value cs := rfl

end Lib.JsonText
