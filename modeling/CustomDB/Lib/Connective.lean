import Mathlib.Data.List.Basic

/-!
# AND and OR without parentheses

A row of truth values joined by connectives has two readings: from left to right, and with AND binding tighter
than OR. They agree whatever the values are exactly when no AND comes after an OR.
-/

namespace Lib.Connective

inductive Conn where
  | and | or
  deriving DecidableEq, Repr

/-- The value so far, joined to the next. -/
def Conn.join : Conn → Bool → Bool → Bool
  | and, x, y => x && y
  | or, x, y => x || y

/-- From left to right. -/
def foldLeft : Bool → List (Conn × Bool) → Bool
  | acc, [] => acc
  | acc, (c, x) :: l => foldLeft (c.join acc x) l

/-- AND binds tighter than OR; `cur` is the group that is open. -/
def prec : Bool → List (Conn × Bool) → Bool
  | cur, [] => cur
  | cur, (.and, x) :: l => prec (cur && x) l
  | cur, (.or, x) :: l => cur || prec x l

/-- Joined by AND alone, a true value has true parts. -/
theorem foldLeft_and (acc : Bool) (l : List (Conn × Bool)) (h : ∀ x ∈ l, x.1 = .and) (hf : foldLeft acc l = true) :
    acc = true ∧ ∀ x ∈ l, x.2 = true := by
  induction l generalizing acc with
  | nil => exact ⟨hf, fun x hx => absurd hx List.not_mem_nil⟩
  | cons y l ih =>
    obtain ⟨op, b⟩ := y
    obtain rfl : op = .and := h _ List.mem_cons_self
    obtain ⟨hacc, hl⟩ := ih (acc && b) (fun x hx => h x (List.mem_cons_of_mem _ hx)) hf
    obtain ⟨hacc, hb⟩ := Bool.and_eq_true_iff.mp hacc
    refine ⟨hacc, fun x hx => ?_⟩
    rcases List.mem_cons.mp hx with rfl | hx
    · exact hb
    · exact hl x hx

/-- A value that can be read or not. -/
structure Item where
  conn : Conn
  readable : Bool
  value : Bool
  deriving DecidableEq, Repr

/-- What a reader with `n` places holds: it stops behind the first value it cannot read, which counts as false. -/
def cut : Nat → List Item → List (Conn × Bool)
  | 0, _ => []
  | _ + 1, [] => []
  | n + 1, i :: l => if i.readable then (i.conn, i.value) :: cut n l else [(i.conn, false)]

/-- The values as written. -/
def whole (l : List Item) : List (Conn × Bool) := l.map fun i => (i.conn, i.value)

/-- A shape: the connectives, and which values can be read. -/
abbrev Shape := List (Conn × Bool)

/-- The shape of a row of values. -/
def shape (l : List Item) : Shape := l.map fun i => (i.conn, i.readable)

@[simp] theorem shape_cons (c : Conn) (r x : Bool) (l : List Item) : shape (⟨c, r, x⟩ :: l) = (c, r) :: shape l := rfl

/-- `n` places are enough, every value can be read, and no AND comes after an OR. -/
structure Faithful (n : Nat) (s : Shape) : Prop where
  room : s.length ≤ n
  readable : ∀ x ∈ s, x.2 = true
  order : s.Pairwise fun x y => ¬ (x.1 = .or ∧ y.1 = .and)

/-- The values of a shape, all the same. -/
def constant (x : Bool) (s : Shape) : List Item := s.map fun y => ⟨y.1, y.2, x⟩

@[simp] theorem shape_constant (x : Bool) (s : Shape) : shape (constant x s) = s := by
  simp [shape, constant, Function.comp_def]

theorem prec_constant_true (s : Shape) : prec true (whole (constant true s)) = true := by
  induction s with
  | nil => rfl
  | cons y s ih =>
    obtain ⟨c, r⟩ := y
    cases c
    · exact ih
    · rfl

theorem prec_constant_false (s : Shape) : prec false (whole (constant false s)) = false := by
  induction s with
  | nil => rfl
  | cons y s ih =>
    obtain ⟨c, r⟩ := y
    cases c <;> exact ih

/-- Where everything fits, nothing is cut. -/
theorem Faithful.cut_eq {n : Nat} {l : List Item} (h : Faithful n (shape l)) : cut n l = whole l := by
  induction l generalizing n with
  | nil => cases n <;> rfl
  | cons i l ih =>
    obtain ⟨hroom, hread, hord⟩ := h
    rw [shape, List.map_cons] at hroom hread hord
    cases n with
    | zero => exact absurd hroom (by simp)
    | succ n =>
      have hi : i.readable = true := hread _ (List.mem_cons_self ..)
      have hrest : Faithful n (shape l) :=
        ⟨Nat.le_of_succ_le_succ hroom, fun x hx => hread x (List.mem_cons_of_mem _ hx), hord.of_cons⟩
      rw [cut, if_pos hi, ih hrest]
      rfl

/-- Joined by OR only, both readings look for a true value. -/
theorem or_only {l : List (Conn × Bool)} (h : ∀ x ∈ l, x.1 = .or) (b : Bool) :
    foldLeft b l = (b || l.any Prod.snd) ∧ prec b l = (b || l.any Prod.snd) := by
  induction l generalizing b with
  | nil => simp [foldLeft, prec]
  | cons x l ih =>
    obtain ⟨c, v⟩ := x
    obtain rfl : c = .or := h _ (List.mem_cons_self ..)
    have hl : ∀ x ∈ l, x.1 = Conn.or := fun x hx => h x (List.mem_cons_of_mem _ hx)
    constructor
    · rw [foldLeft, (ih hl _).1, List.any_cons, Conn.join, Bool.or_assoc]
    · rw [prec, (ih hl _).2, List.any_cons]

theorem Conn.eq_or {c : Conn} (h : c ≠ .and) : c = .or := by
  cases c
  · exact absurd rfl h
  · rfl

/-- Without an AND behind an OR the two readings agree. -/
theorem foldLeft_whole {l : List Item} (h : (shape l).Pairwise fun x y => ¬ (x.1 = .or ∧ y.1 = .and)) (b : Bool) :
    foldLeft b (whole l) = prec b (whole l) := by
  induction l generalizing b with
  | nil => rfl
  | cons i l ih =>
    obtain ⟨c, r, v⟩ := i
    rw [shape, List.map_cons, List.pairwise_cons] at h
    cases c with
    | and => exact ih h.2 (b && v)
    | or =>
      have hor : ∀ x ∈ whole l, x.1 = Conn.or := by
        intro x hx
        obtain ⟨j, hj, rfl⟩ := List.mem_map.mp hx
        exact Conn.eq_or fun hn => h.1 (j.conn, j.readable) (List.mem_map.mpr ⟨j, hj, rfl⟩) ⟨rfl, hn⟩
      show foldLeft (b || v) (whole l) = (b || prec v (whole l))
      rw [(or_only hor _).1, (or_only hor _).2, Bool.or_assoc]

/-- An AND among false values makes the fold false. -/
theorem foldLeft_constant_false {s : Shape} {r : Bool} (h : (Conn.and, r) ∈ s) (b : Bool) :
    foldLeft b (whole (constant false s)) = false := by
  have hfalse : ∀ s : Shape, foldLeft false (whole (constant false s)) = false := by
    intro s
    induction s with
    | nil => rfl
    | cons y s ih =>
      obtain ⟨c, r⟩ := y
      cases c <;> exact ih
  induction s generalizing b with
  | nil => exact absurd h List.not_mem_nil
  | cons y s ih =>
    obtain ⟨c, q⟩ := y
    cases c with
    | and =>
      show foldLeft (b && false) (whole (constant false s)) = false
      rw [Bool.and_false]
      exact hfalse s
    | or =>
      have hs : (Conn.and, r) ∈ s := by
        rcases List.mem_cons.mp h with h | h
        · cases h
        · exact h
      exact ih hs (b || false)

/-- A shape on which the reader from left to right with `n` places and the reader with precedence agree, whatever
the values are. -/
def Agree (n : Nat) (s : Shape) : Prop :=
  ∀ b l, shape l = s → foldLeft b (cut n l) = prec b (whole l)

/-- Agreement passes to the values behind the first. -/
theorem Agree.tail {n : Nat} {c : Conn} {s : Shape} (h : Agree (n + 1) ((c, true) :: s)) : Agree n s := by
  intro b l hl
  have hv := fun x => h x (⟨c, true, b⟩ :: l) (by rw [shape_cons, hl])
  cases c with
  | and => simpa [cut, foldLeft, Conn.join, whole, prec] using hv true
  | or => simpa [cut, foldLeft, Conn.join, whole, prec] using hv false

/-- A reader that skips the first value or takes it for false disagrees: behind AND where all values but the first
are false, behind OR where all are true. -/
theorem Agree.readable {n : Nat} {c : Conn} {r : Bool} {s : Shape} (h : Agree n ((c, r) :: s)) : 0 < n ∧ r = true := by
  have hand := fun x => h true (⟨c, r, x⟩ :: constant x s) (by rw [shape_cons, shape_constant])
  have hor := h false (⟨c, r, true⟩ :: constant true s) (by rw [shape_cons, shape_constant])
  have htrue : prec true (whole (constant true s)) = true := prec_constant_true s
  have hfalse : prec false (whole (constant false s)) = false := prec_constant_false s
  cases n with
  | zero =>
    cases c with
    | and =>
      have hp : true = prec false (whole (constant false s)) := hand false
      rw [hfalse] at hp
      cases hp
    | or =>
      have hp : false = prec true (whole (constant true s)) := hor
      rw [htrue] at hp
      cases hp
  | succ n =>
    refine ⟨Nat.succ_pos n, ?_⟩
    by_contra hr
    obtain rfl : r = false := by simpa using hr
    cases c with
    | and =>
      have hp : false = prec true (whole (constant true s)) := hand true
      rw [htrue] at hp
      cases hp
    | or =>
      have hp : false = prec true (whole (constant true s)) := hor
      rw [htrue] at hp
      cases hp

/-- The two readers agree exactly on the faithful shapes. -/
theorem agree_iff (n : Nat) (s : Shape) : Agree n s ↔ Faithful n s := by
  constructor
  · intro h
    induction s generalizing n with
    | nil => exact ⟨Nat.zero_le n, fun x hx => absurd hx List.not_mem_nil, List.Pairwise.nil⟩
    | cons y s ih =>
      obtain ⟨c, r⟩ := y
      obtain ⟨hn, rfl⟩ := h.readable
      obtain ⟨n, rfl⟩ := Nat.exists_eq_succ_of_ne_zero (Nat.pos_iff_ne_zero.mp hn)
      have hs := ih n h.tail
      refine ⟨Nat.succ_le_succ hs.room, ?_, List.Pairwise.cons ?_ hs.order⟩
      · intro x hx
        rcases List.mem_cons.mp hx with rfl | hx
        · rfl
        · exact hs.readable x hx
      · -- an AND behind this OR: the group before it true, all else false
        rintro ⟨d, q⟩ hd ⟨rfl, rfl⟩
        have hv := h true (⟨.or, true, false⟩ :: constant false s) (by rw [shape_cons, shape_constant])
        have hcut : cut n (constant false s) = whole (constant false s) :=
          Faithful.cut_eq (by rw [shape_constant]; exact hs)
        have hfold : foldLeft true (cut n (constant false s)) = true := hv
        rw [hcut, foldLeft_constant_false hd] at hfold
        cases hfold
  · rintro h b l rfl
    rw [h.cut_eq]
    exact foldLeft_whole h.order b

/-- The same with a first value, which no connective precedes. -/
theorem agree_first_iff (n : Nat) (r : Bool) (s : Shape) :
    (∀ x l, shape l = s → foldLeft false (cut (n + 1) (⟨.or, r, x⟩ :: l)) = prec x (whole l)) ↔
      r = true ∧ Faithful n s := by
  cases r with
  | true =>
    rw [← agree_iff]
    exact ⟨fun h => ⟨rfl, fun b l hl => h b l hl⟩, fun h b l hl => h.2 b l hl⟩
  | false =>
    refine ⟨fun h => ?_, fun h => nomatch h.1⟩
    have hp : false = prec true (whole (constant true s)) := h true (constant true s) (shape_constant true s)
    rw [prec_constant_true] at hp
    cases hp

end Lib.Connective
