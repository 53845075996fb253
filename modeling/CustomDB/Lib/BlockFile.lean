import Mathlib.Data.List.Basic

/-!
# Files of whole blocks

A file that is only read and written in whole blocks, as the list of its blocks. A read past the
end gives the filler block, a write past the end fills the gap with it, and `truncate` cuts or
extends to an exact number of blocks, as `lseek`/`write`/`ftruncate` do with zero bytes.
-/

namespace Lib.BlockFile

variable {α : Type}

/-- The block at index `i`, the filler `z` past the end. -/
def read (z : α) (f : List α) (i : Nat) : α := f.getD i z

/-- Overwrite block `i`; a gap before it is filled with `z`. -/
def write (z : α) (f : List α) (i : Nat) (x : α) : List α :=
  if i < f.length then f.set i x else f ++ List.replicate (i - f.length) z ++ [x]

/-- Cut or extend to exactly `n` blocks. -/
def truncate (z : α) (f : List α) (n : Nat) : List α :=
  f.take n ++ List.replicate (n - f.length) z

theorem read_eq_filler (z : α) (f : List α) {i : Nat} (h : f.length ≤ i) : read z f i = z := by
  simp [read, List.getElem?_eq_none_iff.mpr h]

theorem read_append (z : α) (f g : List α) (i : Nat) :
    read z (f ++ g) i = if i < f.length then read z f i else read z g (i - f.length) := by
  simp only [read, List.getD_eq_getElem?_getD, List.getElem?_append]
  split <;> rfl

theorem read_replicate (z : α) (n i : Nat) : read z (List.replicate n z) i = z := by
  simp only [read, List.getD_eq_getElem?_getD, List.getElem?_replicate]
  split <;> rfl

@[simp] theorem read_write (z : α) (f : List α) (i j : Nat) (x : α) :
    read z (write z f i x) j = if j = i then x else read z f j := by
  unfold write
  split
  · next hi =>
    simp only [read, List.getD_eq_getElem?_getD, List.getElem?_set]
    by_cases hj : j = i
    · subst hj
      simp [hi]
    · rw [if_neg (fun h => hj h.symm), if_neg hj]
  · next hi =>
    rw [read_append, read_append]
    simp only [List.length_append, List.length_replicate, read_replicate]
    by_cases hj : j = i
    · subst hj
      rw [if_neg (by omega), if_pos rfl]
      simp [read, show j - (f.length + (j - f.length)) = 0 by omega]
    · rw [if_neg hj]
      split
      · split
        · rfl
        · exact (read_eq_filler z f (by omega)).symm
      · rw [read_eq_filler z f (by omega), read_eq_filler z [x]]
        simp only [List.length_singleton]
        omega

theorem length_write (z : α) (f : List α) (i : Nat) (x : α) :
    (write z f i x).length = max f.length (i + 1) := by
  unfold write
  split
  · rw [List.length_set]
    omega
  · simp only [List.length_append, List.length_replicate, List.length_singleton]
    omega

theorem write_length (z : α) (f : List α) (x : α) : write z f f.length x = f ++ [x] := by
  simp [write]

/-- Writing back the block that is there changes nothing. -/
theorem write_read_self (z : α) (f : List α) {i : Nat} (h : i < f.length) :
    write z f i (read z f i) = f := by
  rw [write, if_pos h]
  apply List.ext_getElem (by simp)
  intro j hj _
  simp only [List.getElem_set, read, List.getD_eq_getElem?_getD]
  split
  · next hij =>
    subst hij
    simp [h]
  · rfl

@[simp] theorem length_truncate (z : α) (f : List α) (n : Nat) : (truncate z f n).length = n := by
  simp only [truncate, List.length_append, List.length_take, List.length_replicate]
  omega

theorem read_truncate (z : α) (f : List α) (n i : Nat) :
    read z (truncate z f n) i = if i < n then read z f i else z := by
  rw [truncate, read_append, read_replicate, List.length_take]
  split
  · next h =>
    rw [if_pos (by omega)]
    simp only [read, List.getD_eq_getElem?_getD, List.getElem?_take]
    rw [if_pos (by omega)]
  · next h =>
    split
    · exact (read_eq_filler z f (by omega)).symm
    · rfl

/-- Truncating to the present length changes nothing. -/
theorem truncate_length (z : α) (f : List α) : truncate z f f.length = f := by
  simp [truncate]

/-- Two files of one length that read alike are equal. -/
theorem ext_read (z : α) {f g : List α} (hlen : f.length = g.length)
    (h : ∀ i, i < f.length → read z f i = read z g i) : f = g := by
  apply List.ext_getElem hlen
  intro i h1 h2
  have := h i h1
  simpa [read, List.getD_eq_getElem?_getD, h1, h2] using this

/-! ## Runs of writes -/

/-- The writes `ws`, first to last. -/
def writeAll (z : α) (f : List α) (ws : List (Nat × α)) : List α :=
  ws.foldl (fun f w => write z f w.1 w.2) f

@[simp] theorem writeAll_nil (z : α) (f : List α) : writeAll z f [] = f := rfl

theorem writeAll_append (z : α) (f : List α) (ws ws' : List (Nat × α)) :
    writeAll z f (ws ++ ws') = writeAll z (writeAll z f ws) ws' :=
  List.foldl_append ..

/-- The last write to a block decides what it reads as. -/
theorem read_writeAll (z : α) (f : List α) (ws : List (Nat × α)) (i : Nat) :
    read z (writeAll z f ws) i = (ws.reverse.lookup i).getD (read z f i) := by
  induction ws generalizing f with
  | nil => rfl
  | cons w ws ih =>
    obtain ⟨k, x⟩ := w
    have hcons : writeAll z f ((k, x) :: ws) = writeAll z (write z f k x) ws := rfl
    rw [hcons, ih, read_write, List.reverse_cons, List.lookup_append]
    by_cases hi : i = k <;> cases ws.reverse.lookup i <;> simp [hi, List.lookup_cons, beq_eq_decide]

theorem length_writeAll_ge (z : α) (f : List α) (ws : List (Nat × α)) :
    f.length ≤ (writeAll z f ws).length := by
  induction ws generalizing f with
  | nil => exact Nat.le_refl _
  | cons w ws ih =>
    have h := ih (write z f w.1 w.2)
    rw [length_write] at h
    exact Nat.le_trans (Nat.le_max_left _ _) h

/-- A block that is written is in the file. -/
theorem lt_length_writeAll {z : α} {f : List α} {ws : List (Nat × α)} {w : Nat × α} (h : w ∈ ws) :
    w.1 < (writeAll z f ws).length := by
  obtain ⟨before, after, rfl⟩ := List.append_of_mem h
  have hcons : writeAll z (writeAll z f before) (w :: after) =
      writeAll z (write z (writeAll z f before) w.1 w.2) after := rfl
  rw [writeAll_append, hcons]
  have hgrow := length_writeAll_ge z (write z (writeAll z f before) w.1 w.2) after
  rw [length_write] at hgrow
  omega

theorem length_writeAll_le (z : α) (f : List α) (ws : List (Nat × α)) (n : Nat)
    (h : ∀ w ∈ ws, w.1 < n) : (writeAll z f ws).length ≤ max f.length n := by
  induction ws generalizing f with
  | nil => exact Nat.le_max_left _ _
  | cons w ws ih =>
    have hw := h w (List.mem_cons_self ..)
    have hrest := ih (write z f w.1 w.2) fun w' hw' => h w' (List.mem_cons_of_mem _ hw')
    rw [length_write] at hrest
    exact Nat.le_trans hrest (by omega)

/-- A block no write of the run addresses keeps its content. -/
theorem read_writeAll_of_not_mem (z : α) (f : List α) (ws : List (Nat × α)) (i : Nat)
    (h : ∀ w ∈ ws, w.1 ≠ i) : read z (writeAll z f ws) i = read z f i := by
  have hn : ws.reverse.lookup i = none := by
    rw [List.lookup_eq_none_iff]
    intro w hw
    simpa using fun he : i = w.1 => h w (List.mem_reverse.mp hw) he.symm
  rw [read_writeAll, hn, Option.getD_none]

/-- Writes that all carry one content leave it where they address the block. -/
theorem read_writeAll_of_const (z : α) (f : List α) (ws : List (Nat × α)) (i : Nat) (x : α)
    (h : ∀ w ∈ ws, w.1 = i → w.2 = x) (hr : (∀ w ∈ ws, w.1 ≠ i) → read z f i = x) :
    read z (writeAll z f ws) i = x := by
  by_cases hn : ∀ w ∈ ws, w.1 ≠ i
  · rw [read_writeAll_of_not_mem z f ws i hn, hr hn]
  · rw [read_writeAll]
    cases hl : ws.reverse.lookup i with
    | none =>
      rw [List.lookup_eq_none_iff] at hl
      refine absurd (fun w hw he => ?_) hn
      simpa [he] using hl w (List.mem_reverse.mpr hw)
    | some y =>
      obtain ⟨l₁, l₂, hsplit, -⟩ := List.lookup_eq_some_iff.mp hl
      have hmem : (i, y) ∈ ws := List.mem_reverse.mp (by rw [hsplit]; simp)
      exact h _ hmem rfl

end Lib.BlockFile
