import Mathlib.Logic.Function.Basic
import Mathlib.Data.List.Basic

/-!
# Scripts over a store

What a client does to a store of cells: it reads cells into a local state and writes cells as functions of
that state. A script is the list of its accesses, and running it on a store alone is its meaning.
-/

namespace Lib.Script

variable {L α : Type}

/-- One access: fold a cell into the local state, or rewrite a cell with the help of it. -/
inductive Access (L α : Type) where
  | read (p : Nat) (g : L → α → L)
  | write (p : Nat) (f : L → α → α)

/-- The local state and the store after one access. -/
def Access.run (c : L × (Nat → α)) : Access L α → L × (Nat → α)
  | .read p g => (g c.1 (c.2 p), c.2)
  | .write p f => (c.1, Function.update c.2 p (f c.1 (c.2 p)))

/-- The local state and the store after a script. -/
def run (c : L × (Nat → α)) (script : List (Access L α)) : L × (Nat → α) := script.foldl Access.run c

/-- Whether an access changes the store. -/
def Access.isWrite : Access L α → Bool
  | .read _ _ => false
  | .write _ _ => true

/-- Whether a script writes at all. -/
def writes (script : List (Access L α)) : Bool := script.any Access.isWrite

@[simp] theorem run_nil (c : L × (Nat → α)) : run c [] = c := rfl

theorem run_concat (c : L × (Nat → α)) (script : List (Access L α)) (a : Access L α) :
    run c (script ++ [a]) = a.run (run c script) := by
  rw [run, List.foldl_append]
  rfl

theorem writes_concat (script : List (Access L α)) (a : Access L α) :
    writes (script ++ [a]) = (writes script || a.isWrite) := by
  simp [writes, List.any_append]

/-- A script that only reads leaves the store alone. -/
theorem run_readOnly (c : L × (Nat → α)) (script : List (Access L α)) (h : writes script = false) :
    (run c script).2 = c.2 := by
  induction script generalizing c with
  | nil => rfl
  | cons a script ih =>
    obtain ⟨ha, hs⟩ := Bool.or_eq_false_iff.mp h
    have hrun : run c (a :: script) = run (a.run c) script := rfl
    rw [hrun, ih _ hs]
    cases a with
    | read p g => rfl
    | write p f => cases ha

end Lib.Script
