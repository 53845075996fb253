import Mathlib.Data.List.Basic
import Mathlib.Logic.Function.Basic

/-!
# Linked lists in an array of cells

A chain of links through cells that are reused for other things: where it starts and what the cells hold says
which list it is, and a store to a cell outside the list leaves the list alone.
-/

namespace Lib.Linked

variable {α : Type} {next next' : α → α} {ends : α → Prop} {a p : α} {l m : List α}

/-- From `a` on the links run through the cells `l`, to a value that ends the list. -/
def Chain (next : α → α) (ends : α → Prop) : α → List α → Prop
  | a, [] => ends a
  | a, p :: l => a = p ∧ ¬ ends a ∧ Chain next ends (next p) l

/-- A chain is determined by where it starts. -/
theorem Chain.unique (h : Chain next ends a l) (h' : Chain next ends a m) : l = m := by
  induction l generalizing a m with
  | nil =>
    cases m with
    | nil => rfl
    | cons q m => exact absurd h h'.2.1
  | cons p l ih =>
    cases m with
    | nil => exact absurd h' h.2.1
    | cons q m =>
      obtain ⟨rfl, -, h⟩ := h
      obtain ⟨rfl, -, h'⟩ := h'
      rw [ih h h']

/-- Only the links of the cells on the chain matter. -/
theorem Chain.congr (h : Chain next ends a l) (hl : ∀ q ∈ l, next' q = next q) : Chain next' ends a l := by
  induction l generalizing a with
  | nil => exact h
  | cons p l ih =>
    obtain ⟨rfl, hn, h⟩ := h
    refine ⟨rfl, hn, ?_⟩
    rw [hl a (List.mem_cons_self ..)]
    exact ih h fun q hq => hl q (List.mem_cons_of_mem _ hq)

/-- A chain that does not end at once starts with its first cell. -/
theorem Chain.head (h : Chain next ends a l) (hn : ¬ ends a) : ∃ m, l = a :: m ∧ Chain next ends (next a) m := by
  cases l with
  | nil => exact absurd h hn
  | cons p l =>
    obtain ⟨rfl, -, h⟩ := h
    exact ⟨l, rfl, h⟩

theorem Chain.mem_not_ends (h : Chain next ends a l) {q : α} (hq : q ∈ l) : ¬ ends q := by
  induction l generalizing a with
  | nil => exact absurd hq List.not_mem_nil
  | cons p l ih =>
    obtain ⟨rfl, hn, h⟩ := h
    rcases List.mem_cons.mp hq with rfl | hq
    · exact hn
    · exact ih h hq

/-- What comes behind a cell of the chain. -/
theorem Chain.tail {q : α} {xs ys : List α} (h : Chain next ends a (xs ++ q :: ys)) : Chain next ends q (q :: ys) := by
  induction xs generalizing a with
  | nil =>
    obtain ⟨rfl, h⟩ := h
    exact ⟨rfl, h⟩
  | cons x xs ih => exact ih h.2.2

/-- A chain that ends comes to no cell twice. -/
theorem Chain.nodup (h : Chain next ends a l) : l.Nodup := by
  induction l generalizing a with
  | nil => exact List.nodup_nil
  | cons p l ih =>
    refine List.nodup_cons.mpr ⟨fun hm => ?_, ih h.2.2⟩
    obtain ⟨xs, ys, rfl⟩ := List.append_of_mem hm
    obtain ⟨rfl, -⟩ := id h
    have hsplit : a :: (xs ++ a :: ys) = (a :: xs) ++ a :: ys := rfl
    have hback : Chain next ends a (a :: ys) := Chain.tail (hsplit ▸ h)
    have hlen := congrArg List.length (h.unique hback)
    simp only [List.length_cons, List.length_append] at hlen
    omega

/-- A cell pushed in front of the chain. -/
theorem Chain.push (h : Chain next ends a l) (hp : ¬ ends p) (hlink : next' p = a)
    (hl : ∀ q ∈ l, next' q = next q) : Chain next' ends p (p :: l) :=
  ⟨rfl, hp, by rw [hlink]; exact h.congr hl⟩

/-- A cell put behind another one. -/
theorem Chain.insert {q : α} {xs ys : List α} (h : Chain next ends a (xs ++ p :: ys))
    (hq : ¬ ends q) (hp : next' p = q) (hlink : next' q = next p)
    (hl : ∀ x ∈ xs ++ ys, next' x = next x) : Chain next' ends a (xs ++ p :: q :: ys) := by
  induction xs generalizing a with
  | nil =>
    obtain ⟨rfl, hn, h⟩ := h
    refine ⟨rfl, hn, ?_⟩
    rw [hp]
    exact h.push hq hlink hl
  | cons x xs ih =>
    obtain ⟨rfl, hn, h⟩ := h
    refine ⟨rfl, hn, ?_⟩
    rw [hl a (List.mem_cons_self ..)]
    exact ih h fun y hy => hl y (List.mem_cons_of_mem _ hy)

/-- A cell taken out from behind another one. -/
theorem Chain.remove {q : α} {xs ys : List α} (h : Chain next ends a (xs ++ p :: q :: ys)) (hp : next' p = next q)
    (hl : ∀ x ∈ xs ++ ys, next' x = next x) : Chain next' ends a (xs ++ p :: ys) := by
  induction xs generalizing a with
  | nil =>
    obtain ⟨rfl, hn, -, -, h⟩ := h
    refine ⟨rfl, hn, ?_⟩
    rw [hp]
    exact h.congr hl
  | cons x xs ih =>
    obtain ⟨rfl, hn, h⟩ := h
    refine ⟨rfl, hn, ?_⟩
    rw [hl a (List.mem_cons_self ..)]
    exact ih h fun y hy => hl y (List.mem_cons_of_mem _ hy)

/-- The same wherever the other cell is on the chain, if it is. -/
theorem Chain.splice [DecidableEq α] {q : α} (h : Chain next ends a l) (hq : p ∈ l → ¬ ends q)
    (hp : p ∈ l → next' p = q) (hlink : p ∈ l → next' q = next p) (hl : ∀ x ∈ l, x ≠ p → next' x = next x) :
    Chain next' ends a (l.flatMap fun x => if x = p then [p, q] else [x]) := by
  induction l generalizing a with
  | nil => exact h
  | cons x l ih =>
    obtain ⟨rfl, hn, h⟩ := h
    have hrest := ih h (fun hm => hq (List.mem_cons_of_mem _ hm)) (fun hm => hp (List.mem_cons_of_mem _ hm))
      (fun hm => hlink (List.mem_cons_of_mem _ hm)) (fun y hy => hl y (List.mem_cons_of_mem _ hy))
    rw [List.flatMap_cons]
    by_cases ha : a = p
    · subst ha
      have hmem : a ∈ a :: l := List.mem_cons_self
      rw [if_pos rfl]
      refine ⟨rfl, hn, ?_⟩
      rw [hp hmem]
      refine ⟨rfl, hq hmem, ?_⟩
      rw [hlink hmem]
      exact hrest
    · rw [if_neg ha]
      refine ⟨rfl, hn, ?_⟩
      rw [hl a List.mem_cons_self ha]
      exact hrest

end Lib.Linked
