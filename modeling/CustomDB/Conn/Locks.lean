import CustomDB.Lib.Run
import CustomDB.Pager.Ops

/-!
# The lock table

Processes share the file through locks on three bytes, one `fcntl` call at a time: `pager_lock` climbs from state to
state with a call for each, and may be refused half way; `pager_unlock` lets go of the bytes one after another. Between
any two of these calls another process may run.
-/

namespace CustomDB

open Lib

/-- The bytes a lock state names. -/
def PagerLockState.bytes : PagerLockState → ByteLocks
  | noLock => ByteLocks.none
  | shared => ⟨true, false, false, false⟩
  | reserved => ⟨true, false, true, false⟩
  | pending => ⟨true, false, true, true⟩
  | exclusive => ⟨false, true, true, true⟩

/-- Where a process is in `pager_lock` or `pager_unlock`: in front of the next `fcntl` call. -/
inductive LockCall where
  | lock (want : PagerLockState) (pendingChecked : Bool)
  | unlockShared
  | unlockReserved
  | unlockPending
  deriving DecidableEq, Repr

/-- A process: its pager's `lock_state`, the locks the kernel has for it, and the call it is in. -/
structure LockProc where
  state : PagerLockState
  held : ByteLocks
  call : Option LockCall
  deriving DecidableEq, Repr

namespace LockProc

/-- `return false`, or the end of the call. -/
def leave (p : LockProc) : LockProc := { p with call := none }

/-- The next `fcntl` call of a process, and the assignment to `lock_state` behind it, where the other processes hold
`others`. -/
def next (p : LockProc) (others : ByteLocks) : LockProc :=
  match p.call with
  | none => p
  | some (.lock want pendingChecked) =>
    if want.level ≤ p.state.level then p.leave
    else
      match p.state with
      | .noLock =>
        if pendingChecked then
          if others.sharedWrite then p.leave
          else { p with state := .shared, held := { p.held with sharedRead := true } }
        else if others.pending then p.leave
        else { p with call := some (.lock want true) }
      | .shared =>
        if others.reserved then p.leave
        else { p with state := .reserved, held := { p.held with reserved := true } }
      | .reserved =>
        if others.pending then p.leave
        else { p with state := .pending, held := { p.held with pending := true } }
      | .pending =>
        if others.sharedRead || others.sharedWrite then p.leave
        else { p with state := .exclusive, held := { p.held with sharedRead := false, sharedWrite := true } }
      | .exclusive => p.leave
  | some .unlockShared =>
    { p with held := { p.held with sharedRead := false, sharedWrite := false }, call := some .unlockReserved }
  | some .unlockReserved => { p with held := { p.held with reserved := false }, call := some .unlockPending }
  | some .unlockPending => { state := .noLock, held := { p.held with pending := false }, call := none }

/-- The process is in `pager_unlock`. -/
def unlocking (p : LockProc) : Bool :=
  match p.call with
  | some .unlockShared | some .unlockReserved | some .unlockPending => true
  | _ => false

/-- The state a process is at. In `pager_unlock` it is on its way out. -/
def rung (p : LockProc) : PagerLockState := if p.unlocking then .noLock else p.state

end LockProc

/-- What happens next: a process calls `pager_lock` or `pager_unlock`, or the call it is in goes on. -/
inductive LockEvent where
  | lock (want : PagerLockState)
  | unlock
  | next

variable {n : Nat}

/-- Any number of processes, each with a pager on the file. -/
abbrev LockTable (n : Nat) := Fin n → LockProc

namespace LockTable

/-- Nobody has the file locked. -/
def opened : LockTable n := fun _ => ⟨.noLock, ByteLocks.none, none⟩

/-- What the other processes hold. -/
def others (t : LockTable n) (i : Fin n) : ByteLocks where
  sharedRead := (List.finRange n).any fun j => j ≠ i && (t j).held.sharedRead
  sharedWrite := (List.finRange n).any fun j => j ≠ i && (t j).held.sharedWrite
  reserved := (List.finRange n).any fun j => j ≠ i && (t j).held.reserved
  pending := (List.finRange n).any fun j => j ≠ i && (t j).held.pending

/-- A process in no call starts one; `pager_unlock` returns at once where there is no lock. -/
def step (t : LockTable n) (e : Fin n × LockEvent) : LockTable n :=
  let p := t e.1
  let q := match e.2 with
    | .lock want => if p.call = none then { p with call := some (.lock want false) } else p
    | .unlock => if p.call = none ∧ p.state ≠ .noLock then { p with call := some .unlockShared } else p
    | .next => p.next (t.others e.1)
  Function.update t e.1 q

end LockTable

/-! ## What a process holds -/

/-- The locks a process holds are those its state names, less those `pager_unlock` has let go of. -/
def LockProc.Named (p : LockProc) : Prop :=
  match p.call with
  | some .unlockReserved => p.held = { p.state.bytes with sharedRead := false, sharedWrite := false }
  | some .unlockPending => p.held = ⟨false, false, false, p.state.bytes.pending⟩
  | _ => p.held = p.state.bytes

/-- The kernel grants no two processes locks that conflict. -/
structure ByteLocks.Apart (h k : ByteLocks) : Prop where
  reserved : h.reserved = true → k.reserved = false
  pending : h.pending = true → k.pending = false
  write : h.sharedWrite = true → k.sharedRead = false ∧ k.sharedWrite = false

/-- From `h` to `h'` only locks were granted that nobody with `others` is in the way of. -/
structure ByteLocks.Granted (others h h' : ByteLocks) : Prop where
  reserved : h'.reserved = true → h.reserved = true ∨ others.reserved = false
  pending : h'.pending = true → h.pending = true ∨ others.pending = false
  write : h'.sharedWrite = true → h.sharedWrite = true ∨ others.sharedRead = false ∧ others.sharedWrite = false
  read : h'.sharedRead = true → h.sharedRead = true ∨ others.sharedWrite = false

theorem ByteLocks.Granted.refl (others h : ByteLocks) : Granted others h h := ⟨Or.inl, Or.inl, Or.inl, Or.inl⟩

namespace LockProc

variable {p : LockProc}

theorem named_of_lock {st : PagerLockState} {h : ByteLocks} {want : PagerLockState} {c : Bool}
    (hn : Named ⟨st, h, some (.lock want c)⟩) : h = st.bytes := hn

/-- One `fcntl` call takes the lock of the next rung, or one away. -/
theorem next_named (h : p.Named) (others : ByteLocks) : (p.next others).Named := by
  obtain ⟨st, held, call⟩ := p
  cases call with
  | none => exact h
  | some c =>
    cases c with
    | lock want checked =>
      obtain rfl := named_of_lock h
      unfold next
      dsimp only
      split
      · rfl
      · cases st with
        | noLock =>
          dsimp only
          split
          · split <;> rfl
          · split <;> rfl
        | shared => dsimp only; split <;> rfl
        | reserved => dsimp only; split <;> rfl
        | pending => dsimp only; split <;> rfl
        | exclusive => rfl
    | unlockShared =>
      obtain rfl : held = st.bytes := h
      rfl
    | unlockReserved =>
      obtain rfl : held = { st.bytes with sharedRead := false, sharedWrite := false } := h
      rfl
    | unlockPending =>
      obtain rfl : held = ⟨false, false, false, st.bytes.pending⟩ := h
      rfl

/-- The kernel refuses what another process is in the way of. -/
theorem next_granted (p : LockProc) (others : ByteLocks) : others.Granted p.held (p.next others).held := by
  obtain ⟨st, held, call⟩ := p
  have hsame := ByteLocks.Granted.refl others held
  cases call with
  | none => exact hsame
  | some c =>
    cases c with
    | lock want checked =>
      unfold next
      dsimp only
      split
      · exact hsame
      · cases st with
        | noLock =>
          dsimp only
          split
          · split
            · exact hsame
            · next hw => exact ⟨Or.inl, Or.inl, Or.inl, fun _ => Or.inr (by simpa using hw)⟩
          · split
            · exact hsame
            · exact hsame
        | shared =>
          dsimp only
          split
          · exact hsame
          · next hr => exact ⟨fun _ => Or.inr (by simpa using hr), Or.inl, Or.inl, Or.inl⟩
        | reserved =>
          dsimp only
          split
          · exact hsame
          · next hp => exact ⟨Or.inl, fun _ => Or.inr (by simpa using hp), Or.inl, Or.inl⟩
        | pending =>
          dsimp only
          split
          · exact hsame
          · next hw => exact ⟨Or.inl, Or.inl, fun _ => Or.inr (by simpa using hw), fun hf => (nomatch hf)⟩
        | exclusive => exact hsame
    | unlockShared => exact ⟨Or.inl, Or.inl, fun hf => (nomatch hf), fun hf => (nomatch hf)⟩
    | unlockReserved => exact ⟨fun hf => (nomatch hf), Or.inl, Or.inl, Or.inl⟩
    | unlockPending => exact ⟨Or.inl, fun hf => (nomatch hf), Or.inl, Or.inl⟩

/-- Outside `pager_unlock` the state names what is held. -/
theorem Named.held (h : p.Named) (hu : p.unlocking = false) : p.held = p.state.bytes := by
  obtain ⟨st, held, call⟩ := p
  cases call with
  | none => exact h
  | some c =>
    cases c with
    | lock want checked => exact h
    | unlockShared => cases hu
    | unlockReserved => cases hu
    | unlockPending => cases hu

/-- The bytes of the rung a process is on are held. -/
theorem Named.rung (h : p.Named) (hne : p.rung ≠ .noLock) : p.held = p.rung.bytes := by
  unfold LockProc.rung at hne ⊢
  cases hu : p.unlocking with
  | true =>
    rw [hu] at hne
    exact absurd rfl hne
  | false => exact h.held hu

end LockProc

/-! ## Any interleaving -/

namespace LockTable

variable {t : LockTable n}

/-- What holds of the lock table. -/
structure Kept (t : LockTable n) : Prop where
  named : ∀ i, (t i).Named
  apart : ∀ i j, i ≠ j → (t i).held.Apart (t j).held

theorem opened_kept : (opened : LockTable n).Kept where
  named _ := rfl
  apart _ _ _ := ⟨fun h => (nomatch h), fun h => (nomatch h), fun h => (nomatch h)⟩

theorem any_others {f : LockProc → Bool} {i j : Fin n} (hij : j ≠ i)
    (h : ((List.finRange n).any fun k => k ≠ i && f (t k)) = false) : f (t j) = false := by
  have hj := List.any_eq_false.mp h j (List.mem_finRange j)
  simpa [hij] using hj

/-- A step of one process, with the locks it was granted. -/
theorem Kept.update (h : t.Kept) {i : Fin n} {p : LockProc} (hp : p.Named)
    (hg : (t.others i).Granted (t i).held p.held) : Kept (Function.update t i p) where
  named j := by
    by_cases hj : j = i
    · rw [hj, Function.update_self]
      exact hp
    · rw [Function.update_of_ne hj]
      exact h.named j
  apart j k hjk := by
    by_cases hj : j = i
    · have hk : k ≠ i := fun hk => hjk (hj.trans hk.symm)
      rw [hj, Function.update_self, Function.update_of_ne hk]
      have hik := h.apart i k (Ne.symm hk)
      refine ⟨fun hr => ?_, fun hr => ?_, fun hr => ?_⟩
      · exact (hg.reserved hr).elim hik.reserved fun ho => any_others (f := fun p => p.held.reserved) hk ho
      · exact (hg.pending hr).elim hik.pending fun ho => any_others (f := fun p => p.held.pending) hk ho
      · exact (hg.write hr).elim hik.write fun ho =>
          ⟨any_others (f := fun p => p.held.sharedRead) hk ho.1, any_others (f := fun p => p.held.sharedWrite) hk ho.2⟩
    · rw [Function.update_of_ne hj]
      by_cases hk : k = i
      · rw [hk, Function.update_self]
        have hji := h.apart j i hj
        refine ⟨fun hr => ?_, fun hr => ?_, fun hr => ⟨?_, ?_⟩⟩
        · by_contra hc
          rcases hg.reserved (by simpa using hc) with ho | ho
          · rw [hji.reserved hr] at ho
            cases ho
          · rw [any_others (f := fun p => p.held.reserved) hj ho] at hr
            cases hr
        · by_contra hc
          rcases hg.pending (by simpa using hc) with ho | ho
          · rw [hji.pending hr] at ho
            cases ho
          · rw [any_others (f := fun p => p.held.pending) hj ho] at hr
            cases hr
        · by_contra hc
          rcases hg.read (by simpa using hc) with ho | ho
          · rw [(hji.write hr).1] at ho
            cases ho
          · rw [any_others (f := fun p => p.held.sharedWrite) hj ho] at hr
            cases hr
        · by_contra hc
          rcases hg.write (by simpa using hc) with ho | ho
          · rw [(hji.write hr).2] at ho
            cases ho
          · rw [any_others (f := fun p => p.held.sharedWrite) hj ho.2] at hr
            cases hr
      · rw [Function.update_of_ne hk]
        exact h.apart j k hjk

theorem named_of_none {p : LockProc} (h : p.Named) (hn : p.call = none) : p.held = p.state.bytes :=
  h.held (by rw [LockProc.unlocking, hn])

theorem Kept.step (h : t.Kept) (e : Fin n × LockEvent) : (t.step e).Kept := by
  obtain ⟨i, e⟩ := e
  have hsame := ByteLocks.Granted.refl (t.others i) (t i).held
  unfold LockTable.step
  cases e with
  | lock want =>
    refine h.update ?_ ?_
    · dsimp only
      split
      · next hn =>
        show (t i).held = (t i).state.bytes
        exact named_of_none (h.named i) hn
      · exact h.named i
    · dsimp only
      split <;> exact hsame
  | unlock =>
    refine h.update ?_ ?_
    · dsimp only
      split
      · next hn =>
        show (t i).held = (t i).state.bytes
        exact named_of_none (h.named i) hn.1
      · exact h.named i
    · dsimp only
      split <;> exact hsame
  | next => exact h.update (LockProc.next_named (h.named i) _) (LockProc.next_granted (t i) _)

theorem Kept.run (h : t.Kept) (es : List (Fin n × LockEvent)) : (Run.run LockTable.step t es).Kept := by
  induction es generalizing t with
  | nil => exact h
  | cons e es ih => exact ih (h.step e)

theorem bytes_reserved {l : PagerLockState} (h : PagerLockState.reserved.level ≤ l.level) : l.bytes.reserved = true := by
  cases l with
  | noLock => exact absurd h (by decide)
  | shared => exact absurd h (by decide)
  | reserved => rfl
  | pending => rfl
  | exclusive => rfl

/-- Whatever the interleaving: at most one process is at RESERVED or above, a process at EXCLUSIVE is alone, and the
state of a process that is not in `pager_unlock` names the locks it holds. -/
theorem locks_exclude (n : Nat) (es : List (Fin n × LockEvent)) :
    let t := Run.run LockTable.step (opened : LockTable n) es
    (∀ i j, PagerLockState.reserved.level ≤ (t i).rung.level → PagerLockState.reserved.level ≤ (t j).rung.level → i = j) ∧
      (∀ i j, (t i).rung = .exclusive → PagerLockState.shared.level ≤ (t j).rung.level → i = j) ∧
      ∀ i, (t i).unlocking = false → (t i).held = (t i).state.bytes := by
  intro t
  have h : t.Kept := opened_kept.run es
  have hheld : ∀ i, PagerLockState.shared.level ≤ (t i).rung.level → (t i).held = (t i).rung.bytes := fun i hi =>
    (h.named i).rung fun hn => by
      rw [hn] at hi
      exact absurd hi (by decide)
  refine ⟨fun i j hi hj => ?_, fun i j hi hj => ?_, fun i hu => (h.named i).held hu⟩
  · by_contra hij
    have hri := bytes_reserved hi
    have hrj := bytes_reserved hj
    rw [← hheld i (le_trans (by decide) hi)] at hri
    rw [← hheld j (le_trans (by decide) hj), (h.apart i j hij).reserved hri] at hrj
    cases hrj
  · by_contra hij
    have hi' : (t i).held.sharedWrite = true := by
      rw [hheld i (by rw [hi]; decide), hi]
      rfl
    obtain ⟨hr, hw⟩ := (h.apart i j hij).write hi'
    rw [hheld j hj] at hr hw
    generalize (t j).rung = l at hj hr hw
    cases l with
    | noLock => exact absurd hj (by decide)
    | shared => cases hr
    | reserved => cases hr
    | pending => cases hr
    | exclusive => cases hw

end LockTable

end CustomDB
