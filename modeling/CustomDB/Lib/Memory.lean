import Mathlib.Data.List.GetD

/-!
# Byte memory

Copies into a memory, in program order. Copies at ascending addresses never overlap, so each of them can be
read back whatever the memory held before.
-/

namespace Lib.Memory

/-- A memory, by address. -/
abbrev Mem := Nat → UInt8

/-- `memcpy(m + off, bs, bs.length)`. -/
def write (m : Mem) (off : Nat) (bs : List UInt8) : Mem :=
  fun i => if off ≤ i ∧ i < off + bs.length then bs.getD (i - off) 0 else m i

/-- The `n` bytes from `off` on. -/
def read (m : Mem) (off n : Nat) : List UInt8 := (List.range n).map fun k => m (off + k)

/-- Copies in program order, each with its address. -/
def writeAll (m : Mem) (ws : List (Nat × List UInt8)) : Mem := ws.foldl (fun m w => write m w.1 w.2) m

/-- Each copy starts where the one before ends, or after that. -/
def Ascending : Nat → List (Nat × List UInt8) → Prop
  | _, [] => True
  | lo, w :: ws => lo ≤ w.1 ∧ Ascending (w.1 + w.2.length) ws

/-- Copies one behind the other, from `base` on. -/
def consecutive : Nat → List (List UInt8) → List (Nat × List UInt8)
  | _, [] => []
  | base, c :: cs => (base, c) :: consecutive (base + c.length) cs

variable {m : Mem} {ws vs : List (Nat × List UInt8)} {lo n : Nat}

theorem read_write_self (m : Mem) (off : Nat) (bs : List UInt8) : read (write m off bs) off bs.length = bs := by
  apply List.ext_getElem
  · simp [read]
  · intro k h1 h2
    simp [read, write, h2]

theorem read_congr {m m' : Mem} {off n : Nat} (h : ∀ i, off ≤ i → i < off + n → m' i = m i) :
    read m' off n = read m off n := by
  unfold read
  apply List.map_congr_left
  intro k hk
  rw [List.mem_range] at hk
  exact h _ (by omega) (by omega)

/-- A copy elsewhere changes nothing that is read. -/
theorem read_write_apart {off a n : Nat} {bs : List UInt8} (h : a + n ≤ off ∨ off + bs.length ≤ a) :
    read (write m off bs) a n = read m a n := by
  apply read_congr
  intro i h1 h2
  exact if_neg (by omega)

@[simp] theorem length_read (m : Mem) (off n : Nat) : (read m off n).length = n := by
  rw [read, List.length_map, List.length_range]

theorem read_add (m : Mem) (off a b : Nat) : read m off (a + b) = read m off a ++ read m (off + a) b := by
  rw [read, List.range_add, List.map_append, List.map_map]
  simp only [read, Function.comp_def, Nat.add_assoc]

/-- A part of what is read. -/
theorem read_part {m : Mem} {off n i k : Nat} (h : i + k ≤ n) : read m (off + i) k = ((read m off n).drop i).take k := by
  obtain ⟨r, rfl⟩ := Nat.exists_eq_add_of_le h
  rw [read_add, read_add, List.append_assoc, List.drop_left' (length_read ..), List.take_left' (length_read ..)]

/-- A copy of the bytes of another memory. -/
theorem write_read (m m' : Mem) (off n a : Nat) :
    write m off (read m' off n) a = if off ≤ a ∧ a < off + n then m' a else m a := by
  unfold write
  rw [length_read]
  split
  · next h =>
    simp only [read, List.getD_eq_getElem?_getD, List.getElem?_map, List.getElem?_range (show a - off < n by omega),
      Option.map_some, Option.getD_some]
    congr 1
    omega
  · rfl

/-- Ascending copies leave what is below them alone. -/
theorem Ascending.below (h : Ascending lo ws) {i : Nat} (hi : i < lo) : writeAll m ws i = m i := by
  induction ws generalizing m lo with
  | nil => rfl
  | cons w ws ih =>
    show writeAll (write m w.1 w.2) ws i = m i
    rw [ih h.2 (by have := h.1; omega)]
    exact if_neg fun hn => by have := h.1; omega

/-- Each of the copies can be read back. -/
theorem Ascending.read (h : Ascending lo ws) {w : Nat × List UInt8} (hw : w ∈ ws) :
    Memory.read (writeAll m ws) w.1 w.2.length = w.2 := by
  induction ws generalizing m lo with
  | nil => exact absurd hw List.not_mem_nil
  | cons v ws ih =>
    show Memory.read (writeAll (write m v.1 v.2) ws) w.1 w.2.length = w.2
    rcases List.mem_cons.mp hw with rfl | hw
    · rw [read_congr fun i _ hi => h.2.below hi, read_write_self]
    · exact ih h.2 hw

theorem Ascending.mono (h : Ascending n ws) (hle : lo ≤ n) : Ascending lo ws := by
  cases ws with
  | nil => trivial
  | cons w ws => exact ⟨Nat.le_trans hle h.1, h.2⟩

/-- Copies that end below `n`, and copies from `n` on. -/
theorem Ascending.append (h : Ascending lo ws) (hle : lo ≤ n) (hend : ∀ w ∈ ws, w.1 + w.2.length ≤ n)
    (h' : Ascending n vs) : Ascending lo (ws ++ vs) := by
  induction ws generalizing lo with
  | nil => exact h'.mono hle
  | cons w ws ih =>
    exact ⟨h.1, ih h.2 (hend w (List.mem_cons_self ..)) fun u hu => hend u (List.mem_cons_of_mem _ hu)⟩

theorem ascending_consecutive (base : Nat) (cs : List (List UInt8)) : Ascending base (consecutive base cs) := by
  induction cs generalizing base with
  | nil => trivial
  | cons c cs ih => exact ⟨Nat.le_refl base, ih _⟩

theorem consecutive_end {base : Nat} {cs : List (List UInt8)} {w : Nat × List UInt8} (h : w ∈ consecutive base cs) :
    base ≤ w.1 ∧ w.1 + w.2.length ≤ base + cs.flatten.length := by
  induction cs generalizing base with
  | nil => exact absurd h List.not_mem_nil
  | cons c cs ih =>
    rw [List.flatten_cons, List.length_append]
    rcases List.mem_cons.mp h with rfl | h
    · dsimp only
      omega
    · have := ih h
      omega

/-- The copy behind the copies `pre`. -/
theorem mem_consecutive (base : Nat) (pre : List (List UInt8)) (c : List UInt8) (post : List (List UInt8)) :
    (base + pre.flatten.length, c) ∈ consecutive base (pre ++ c :: post) := by
  induction pre generalizing base with
  | nil => exact List.mem_cons_self ..
  | cons d pre ih =>
    have := ih (base + d.length)
    rw [List.flatten_cons, List.length_append, ← Nat.add_assoc]
    exact List.mem_cons_of_mem _ this

theorem write_append (m : Mem) (off : Nat) (as bs : List UInt8) :
    write m off (as ++ bs) = write (write m off as) (off + as.length) bs := by
  funext i
  unfold write
  rw [List.length_append]
  by_cases hb : off + as.length ≤ i ∧ i < off + as.length + bs.length
  · rw [if_pos (by omega), if_pos hb, List.getD_append_right _ _ _ _ (by omega)]
    congr 1
    omega
  · rw [if_neg hb]
    by_cases ha : off ≤ i ∧ i < off + as.length
    · rw [if_pos (by omega), if_pos ha, List.getD_append _ _ _ _ (by omega)]
    · rw [if_neg (by omega), if_neg ha]

/-- One copy of an array is a copy of each of its elements. -/
theorem write_flatten (m : Mem) (off : Nat) (cs : List (List UInt8)) :
    write m off cs.flatten = writeAll m (consecutive off cs) := by
  induction cs generalizing m off with
  | nil =>
    funext i
    exact if_neg fun hn => by
      have : ([] : List (List UInt8)).flatten.length = 0 := rfl
      omega
  | cons c cs ih =>
    rw [List.flatten_cons, write_append, ih]
    rfl

/-- A byte stored inside what was just copied. -/
theorem write_set (m : Mem) (off : Nat) (bs : List UInt8) {j : Nat} (hj : j < bs.length) (b : UInt8) :
    write (write m off bs) (off + j) [b] = write m off (bs.set j b) := by
  funext i
  unfold write
  rw [List.length_set, List.length_singleton]
  by_cases hi : i = off + j
  · subst hi
    rw [if_pos (by omega), if_pos (by omega), Nat.sub_self, Nat.add_sub_cancel_left]
    simp [hj]
  · rw [if_neg (by omega)]
    split
    · have hne : j ≠ i - off := by omega
      simp [hne]
    · rfl

end Lib.Memory
