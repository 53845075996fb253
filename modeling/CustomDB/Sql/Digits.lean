import CustomDB.Sql.Where

/-!
# The texts of integers

`printf` with `%d` and `atoi` are inverse to each other on 32 bits.
-/

namespace CustomDB

/-- The byte of a digit. -/
theorem digit_byte {c : Char} (hc : c.isDigit = true) : (UInt8.ofNat c.toNat).toNat = c.toNat ∧ 48 ≤ c.toNat ∧ c.toNat ≤ 57 := by
  simp only [Char.isDigit, Bool.and_eq_true, decide_eq_true_eq] at hc
  have h48 : 48 ≤ c.toNat := hc.1
  have h57 : c.toNat ≤ 57 := hc.2
  refine ⟨?_, h48, h57⟩
  rw [UInt8.toNat_ofNat']
  omega

/-- The bytes of a number are digits, and they add up to it. -/
theorem decimal_toDigits (n : Nat) : decimal ((Nat.toDigits 10 n).map fun c => UInt8.ofNat c.toNat) = n := by
  have hfold : ∀ (l : List Char), (∀ c ∈ l, c.isDigit = true) → ∀ m : Nat,
      (l.map fun c => UInt8.ofNat c.toNat).foldl (fun n b => 10 * n + (b.toNat - 48 : Int)) (m : Int) =
        (Nat.ofDigitChars 10 l m : Int) := by
    intro l
    induction l with
    | nil => exact fun _ m => rfl
    | cons c l ih =>
      intro h m
      obtain ⟨hbyte, h48, -⟩ := digit_byte (h c List.mem_cons_self)
      have hstep : (10 * (m : Int) + ((UInt8.ofNat c.toNat).toNat - 48 : Int)) = ((10 * m + (c.toNat - 48) : Nat) : Int) := by
        rw [hbyte]
        omega
      rw [List.map_cons, List.foldl_cons, hstep, ih (fun c hc => h c (List.mem_cons_of_mem _ hc)), Nat.ofDigitChars_cons]
      rfl
  have h := hfold (Nat.toDigits 10 n) (fun c hc => Nat.isDigit_of_mem_toDigits (by decide) (by decide) hc) 0
  rw [Nat.ofDigitChars_ten_toDigits] at h
  exact h

theorem isdigit_toDigits (n : Nat) : ∀ b ∈ (Nat.toDigits 10 n).map fun c => UInt8.ofNat c.toNat, isdigit b = true := by
  intro b hb
  obtain ⟨c, hc, rfl⟩ := List.mem_map.mp hb
  obtain ⟨hbyte, h48, h57⟩ := digit_byte (Nat.isDigit_of_mem_toDigits (by decide) (by decide) hc)
  have hle : ∀ k : UInt8, (48 ≤ k.toNat → 48 ≤ k) ∧ (k.toNat ≤ 57 → k ≤ 57) := fun k => ⟨id, id⟩
  simp only [isdigit, Bool.and_eq_true, decide_eq_true_eq]
  exact ⟨(hle _).1 (by rw [hbyte]; exact h48), (hle _).2 (by rw [hbyte]; exact h57)⟩

/-- No digit is white space or a sign. -/
theorem plain_of_isdigit {b : UInt8} (h : isdigit b = true) : isspace b = false ∧ b ≠ 45 ∧ b ≠ 43 ∧ b ≠ 0 := by
  obtain ⟨h48, h57⟩ : 48 ≤ b.toNat ∧ b.toNat ≤ 57 := by simpa [isdigit, UInt8.le_iff_toNat_le] using h
  have hne : ∀ k : UInt8, k.toNat < 48 → b ≠ k := fun k hk he => by
    rw [he] at h48
    omega
  refine ⟨?_, hne 45 (by decide), hne 43 (by decide), hne 0 (by decide)⟩
  have hspace : ¬b.toNat ≤ 13 := by omega
  simp [isspace, hne 32 (by decide), UInt8.le_iff_toNat_le, hspace]

/-- What `%d` prints `atoi` reads. -/
theorem atoi_printInt (x : BitVec 32) : atoi (printInt x) = x := by
  set digits := (Nat.toDigits 10 x.toInt.natAbs).map fun c => UInt8.ofNat c.toNat with hdigits
  have hall := isdigit_toDigits x.toInt.natAbs
  rw [← hdigits] at hall
  have htake : digits.takeWhile isdigit = digits := List.takeWhile_eq_self_iff.mpr hall
  have hdecimal : decimal digits = x.toInt.natAbs := decimal_toDigits _
  have hbound : x.toInt.natAbs ≤ 2 ^ 31 := by
    have hlt := @BitVec.toInt_lt 32 x
    have hle := @BitVec.le_toInt 32 x
    omega
  unfold atoi printInt
  dsimp only
  rw [← hdigits]
  split
  next hneg =>
    have hskip : skipWhitespace (45 :: digits) = 45 :: digits := rfl
    rw [hskip]
    simp only [peek, List.headD_cons, true_or, if_true, List.drop_succ_cons, List.drop_zero]
    rw [htake, hdecimal]
    have hvalue : max (-(x.toInt.natAbs : Int)) (-2 ^ 63) = x.toInt := by omega
    rw [hvalue, BitVec.ofInt_toInt]
  next hpos =>
    obtain ⟨b, bs, hcons⟩ : ∃ b bs, digits = b :: bs := by
      cases hd : digits with
      | nil => exact absurd (List.map_eq_nil_iff.mp hd) Nat.toDigits_ne_nil
      | cons b bs => exact ⟨b, bs, rfl⟩
    have hplain := plain_of_isdigit (hall b (by rw [hcons]; exact List.mem_cons_self))
    have hskip : skipWhitespace digits = digits := by
      rw [hcons]
      exact List.dropWhile_cons_of_neg (by rw [hplain.1]; exact Bool.false_ne_true)
    have hpeek : peek digits = b := by
      rw [hcons]
      rfl
    rw [hskip, hpeek, if_neg hplain.2.1, if_neg (not_or.mpr ⟨hplain.2.1, hplain.2.2.1⟩), htake, hdecimal]
    have hvalue : min (x.toInt.natAbs : Int) (2 ^ 63 - 1) = x.toInt := by omega
    rw [hvalue, BitVec.ofInt_toInt]

theorem length_printInt (x : BitVec 32) : (printInt x).length ≤ 11 := by
  have hbound : x.toInt.natAbs < 10 ^ 10 := by
    have hlt := @BitVec.toInt_lt 32 x
    have hle := @BitVec.le_toInt 32 x
    omega
  have hlen : (Nat.toDigits 10 x.toInt.natAbs).length ≤ 10 := (Nat.length_toDigits_le_iff (by decide) (by decide)).mpr hbound
  unfold printInt
  dsimp only
  split
  · rw [List.length_cons, List.length_map]
    omega
  · rw [List.length_map]
    omega

theorem printInt_ne_nil (x : BitVec 32) : printInt x ≠ [] := by
  unfold printInt
  dsimp only
  split
  · exact List.cons_ne_nil _ _
  · exact fun h => Nat.toDigits_ne_nil (List.map_eq_nil_iff.mp h)

/-- No number is the keyword NULL. -/
theorem printInt_not_null (x : BitVec 32) : ¬strcasecmp (printInt x) kwNull = .eq := by
  have hhead : ∀ b bs, b = 45 ∨ isdigit b = true → ¬strcasecmp (b :: bs) kwNull = .eq := by
    intro b bs hb
    have hlt : tolower b < 110 := by
      rcases hb with rfl | hb
      · decide
      · have hbounds : 48 ≤ b.toNat ∧ b.toNat ≤ 57 := by simpa [isdigit, UInt8.le_iff_toNat_le] using hb
        have hlower : tolower b = b := by
          apply if_neg
          intro h
          have h65 : 65 ≤ b.toNat := h.1
          omega
        rw [hlower, UInt8.lt_iff_toNat_lt]
        exact lt_of_le_of_lt hbounds.2 (by decide)
    have hne : ¬tolower b = 110 := by
      intro he
      rw [he] at hlt
      exact absurd hlt (by decide)
    show ¬strcmp (tolower b :: bs.map tolower) (110 :: _) = .eq
    rw [strcmp, if_neg hne, if_pos hlt]
    decide
  have hdigits := isdigit_toDigits x.toInt.natAbs
  unfold printInt
  dsimp only
  split
  · exact hhead 45 _ (Or.inl rfl)
  · cases hd : (Nat.toDigits 10 x.toInt.natAbs).map fun c => UInt8.ofNat c.toNat with
    | nil => exact absurd (List.map_eq_nil_iff.mp hd) Nat.toDigits_ne_nil
    | cons b bs => exact hhead b bs (Or.inr (hdigits b (by rw [hd]; exact List.mem_cons_self)))

end CustomDB
