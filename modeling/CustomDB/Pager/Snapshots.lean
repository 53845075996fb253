import CustomDB.Lib.SlotArray
import CustomDB.Lib.Run
import CustomDB.Pager.Crash

/-!
# The snapshot registry

A pager has 64 slots for the snapshots in use. A transaction takes one at BEGIN, a VM when it is created, and callers
take them directly; they are given up by value. A commit retires the base pages it replaces, and their buffers are
freed once no slot holds a snapshot as old as they are. Beside the slots stand the snapshots that were taken and not
given up, and for each freed buffer those that were in use then.
-/

namespace CustomDB

open Lib

variable {B : Type} [PageBody B]

/-- A base page that a commit replaced. -/
structure RetiredPage (B : Type) where
  buffer : Option (Page B)
  retiredLsn : Nat

/-- The snapshots of a `Vdbe`. -/
structure Vdbe where
  registeredSnapshotXid : Nat
  snapshotXid : Nat
  deriving DecidableEq

/-- A pager with its registry and the VMs that are open on it. -/
structure Registry (B : Type) where
  pager : Pager B
  activeSnapshots : SlotArray Nat 64
  /-- `retired_pages_head`, the newest first. -/
  retired : List (RetiredPage B)
  vms : List Vdbe
  taken : Multiset Nat
  freed : List (RetiredPage B × Multiset Nat)

namespace Registry

/-- A pager that was just opened. -/
def opened (s : Pager B) : Registry B := ⟨s, SlotArray.empty, [], [], 0, []⟩

variable (r : Registry B)

/-! ## `pager.c` -/

/-- `pager_register_snapshot`. -/
def pagerRegisterSnapshot : Nat × Registry B :=
  let snap := if r.pager.inTransaction && 0 < r.pager.txSnapshotXid then r.pager.txSnapshotXid else r.pager.walLsn
  (snap, { r with activeSnapshots := r.activeSnapshots.put snap, taken := snap ::ₘ r.taken })

/-- `pager_get_min_active_snapshot_xid`. -/
def pagerGetMinActiveSnapshotXid : Nat := (r.activeSnapshots.slots.filterMap id).min?.getD r.pager.walLsn

/-- `pager_reclaim_retired_pages`. -/
def pagerReclaimRetiredPages : Registry B :=
  let minActive := r.pagerGetMinActiveSnapshotXid
  { r with
    retired := r.retired.filter fun e => minActive ≤ e.retiredLsn
    freed := r.freed ++ (r.retired.filter fun e => e.retiredLsn < minActive).map fun e => (e, r.taken) }

/-- `pager_unregister_snapshot`. -/
def pagerUnregisterSnapshot (xid : Nat) : Registry B :=
  pagerReclaimRetiredPages
    { r with activeSnapshots := r.activeSnapshots.drop xid, taken := r.taken.erase xid }

/-- `if (xid > 0) pager_unregister_snapshot(xid)`, by one who is done with the snapshot. -/
def release (xid : Nat) : Registry B :=
  if 0 < xid then r.pagerUnregisterSnapshot xid else { r with taken := r.taken.erase xid }

/-- `pager_begin_transaction`. -/
def pagerBeginTransaction : Registry B :=
  if r.pager.inTransaction then r
  else
    match r.pager.pagerBeginTransaction with
    | (false, s) => { r with pager := s }
    | (true, s) =>
      let q := pagerRegisterSnapshot { r with pager := { s with txSnapshotXid := r.pager.txSnapshotXid } }
      { q.2 with pager := { s with txSnapshotXid := q.1 } }

/-- The base pages that the pointer swap of `pager_commit` takes out, the last one in front. -/
def retiring (s : Pager B) : List (RetiredPage B) :=
  ((List.range s.shadowPages.cap).filterMap fun i =>
    (s.shadowPages.slot i).map fun _ => ⟨s.pages.slot i, s.walLsn⟩).reverse

/-- The pager of `pager_commit` before the pointer swap. -/
def flushed (s : Pager B) : Pager B := (if s.useWal then s else (s.pagerLock .exclusive).2).stamp.flushDirty

/-- `pager_commit`. -/
def pagerCommit : Registry B :=
  if r.pager.inTransaction = false then r
  else
    match r.pager.pagerCommit with
    | none => r
    | some s =>
      let q := if r.pager.hasWrites then
          pagerReclaimRetiredPages { r with pager := s, retired := retiring (flushed r.pager) ++ r.retired }
        else { r with pager := s }
      q.release r.pager.txSnapshotXid

/-- `pager_rollback`. -/
def pagerRollback : Registry B :=
  if r.pager.inTransaction = false then r
  else
    match r.pager.pagerRollback with
    | none => r
    | some s => release { r with pager := s } r.pager.txSnapshotXid

/-! ## `vdbe.c` -/

/-- `vdbe_create`. -/
def vdbeCreate : Registry B :=
  let q := r.pagerRegisterSnapshot
  let snapshotXid :=
    if r.pager.inTransaction && r.pager.isWriter && r.pager.shadowPages.any then
      if r.pager.currentCommitLsn ≠ 0 then r.pager.currentCommitLsn else r.pager.walLsn + 1
    else q.1
  { q.2 with vms := r.vms ++ [⟨q.1, snapshotXid⟩] }

/-- `vdbe_free` of the `k`-th VM. -/
def vdbeFree (k : Nat) : Registry B :=
  match r.vms[k]? with
  | none => r
  | some vm => release { r with vms := r.vms.eraseIdx k } vm.registeredSnapshotXid

end Registry

/-! ## Runs -/

/-- What the users of a pager do to the registry; between their calls they access pages. -/
inductive SnapshotOp (B : Type) where
  | begin
  | commit
  | rollback
  | create
  | free (k : Nat)
  | register
  | unregister (xid : Nat)
  | access (a : Pager.PageAct B)

namespace Registry

variable (r : Registry B)

/-- One call. A call that ends in `exit(1)` is no step. -/
def step : SnapshotOp B → Registry B
  | .begin => r.pagerBeginTransaction
  | .commit => r.pagerCommit
  | .rollback => r.pagerRollback
  | .create => r.vdbeCreate
  | .free k => r.vdbeFree k
  | .register => r.pagerRegisterSnapshot.2
  | .unregister xid => r.pagerUnregisterSnapshot xid
  | .access a => { r with pager := r.pager.act a }

/-- The slots hold the snapshots in use, and no freed buffer was as new as one of them. -/
structure Sound : Prop where
  active : r.activeSnapshots.held = r.taken
  freed : ∀ f ∈ r.freed, ∀ x ∈ f.2, f.1.retiredLsn < x

/-- A snapshot that is given up as 0 is not in a slot. -/
def Releases (xid : Nat) : Prop := xid = 0 → 0 ∉ r.activeSnapshots.held

/-- There is a free slot for a snapshot that is taken, and none holds a snapshot 0 that is given up. -/
def Registers : SnapshotOp B → Prop
  | .begin => r.pager.inTransaction = false → r.pager.pagerBeginTransaction.1 = true → r.activeSnapshots.HasRoom
  | .create | .register => r.activeSnapshots.HasRoom
  | .commit => r.pager.inTransaction = true → r.pager.pagerCommit.isSome = true → r.Releases r.pager.txSnapshotXid
  | .rollback => r.pager.inTransaction = true → r.pager.pagerRollback.isSome = true → r.Releases r.pager.txSnapshotXid
  | .free k => ∀ vm, r.vms[k]? = some vm → r.Releases vm.registeredSnapshotXid
  | .unregister _ | .access _ => True

variable {r : Registry B}

omit [PageBody B] in
theorem minActive_le {x : Nat} (hx : x ∈ r.activeSnapshots.held) : r.pagerGetMinActiveSnapshotXid ≤ x := by
  have hmem : x ∈ r.activeSnapshots.slots.filterMap id := hx
  unfold pagerGetMinActiveSnapshotXid
  cases hmin : (r.activeSnapshots.slots.filterMap id).min? with
  | none =>
    rw [List.min?_eq_none_iff.mp hmin] at hmem
    exact absurd hmem List.not_mem_nil
  | some m => exact (List.min?_eq_some_iff.mp hmin).2 x hmem

omit [PageBody B] in
/-- Reclaiming frees nothing that a snapshot in a slot needs. -/
theorem Sound.reclaim (h : r.Sound) : r.pagerReclaimRetiredPages.Sound where
  active := h.active
  freed := by
    intro f hf x hx
    rcases List.mem_append.mp hf with hf | hf
    · exact h.freed f hf x hx
    · obtain ⟨e, he, rfl⟩ := List.mem_map.mp hf
      have hlt : e.retiredLsn < r.pagerGetMinActiveSnapshotXid := by simpa using (List.mem_filter.mp he).2
      have hx : x ∈ r.taken := hx
      rw [← h.active] at hx
      exact lt_of_lt_of_le hlt (minActive_le hx)

omit [PageBody B] in
/-- The pager, the retired pages and the VMs are no part of the balance. -/
theorem Sound.congr {q : Registry B} (h : r.Sound) (ha : q.activeSnapshots = r.activeSnapshots) (ht : q.taken = r.taken)
    (hf : q.freed = r.freed) : q.Sound :=
  ⟨by rw [ha, ht]; exact h.active, by rw [hf]; exact h.freed⟩

omit [PageBody B] in
theorem Sound.unregister (h : r.Sound) (xid : Nat) : (r.pagerUnregisterSnapshot xid).Sound := by
  refine Sound.reclaim ⟨?_, h.freed⟩
  rw [SlotArray.held_drop, h.active]

omit [PageBody B] in
/-- Giving up a snapshot, 0 included. -/
theorem Sound.release_iff (h : r.Sound) (xid : Nat) : (r.release xid).Sound ↔ r.Releases xid := by
  unfold release Releases
  split
  · next hpos => exact ⟨fun _ h0 => absurd h0 (by omega), fun _ => h.unregister xid⟩
  · next hpos =>
    obtain rfl : xid = 0 := by omega
    constructor
    · intro hs _ hmem
      have hbal : r.activeSnapshots.held = r.taken.erase 0 := hs.active
      rw [h.active] at hbal hmem
      have hlt := Multiset.card_erase_lt_of_mem hmem
      rw [← hbal] at hlt
      exact lt_irrefl _ hlt
    · intro hn
      refine ⟨?_, h.freed⟩
      have hnot := hn rfl
      rw [h.active] at hnot
      show r.activeSnapshots.held = r.taken.erase 0
      rw [Multiset.erase_of_notMem hnot, h.active]

omit [PageBody B] in
theorem Sound.register_iff (h : r.Sound) : r.pagerRegisterSnapshot.2.Sound ↔ r.activeSnapshots.HasRoom := by
  constructor
  · intro hs
    by_contra hfull
    have hbal := hs.active
    unfold pagerRegisterSnapshot at hbal
    rw [SlotArray.held_put_full hfull, h.active] at hbal
    have hcard := congrArg Multiset.card hbal
    rw [Multiset.card_cons] at hcard
    omega
  · intro hroom
    refine ⟨?_, h.freed⟩
    unfold pagerRegisterSnapshot
    rw [SlotArray.held_put hroom, h.active]

theorem Sound.begin_iff (h : r.Sound) : r.pagerBeginTransaction.Sound ↔ r.Registers .begin := by
  unfold pagerBeginTransaction Registers
  split
  · next ht => exact ⟨fun _ hf => absurd (ht.symm.trans hf) (by simp), fun _ => h⟩
  · next ht =>
    split
    · next s hb =>
      rw [hb]
      exact ⟨fun _ _ hf => absurd hf (by simp), fun _ => h.congr rfl rfl rfl⟩
    · next s hb =>
      rw [hb]
      have hreg := (h.congr (q := { r with pager := { s with txSnapshotXid := r.pager.txSnapshotXid } })
        rfl rfl rfl).register_iff
      constructor
      · exact fun hs _ _ => hreg.mp (hs.congr rfl rfl rfl)
      · exact fun hroom => (hreg.mpr (hroom (by simpa using ht) rfl)).congr rfl rfl rfl

theorem Sound.commit_iff (h : r.Sound) : r.pagerCommit.Sound ↔ r.Registers .commit := by
  unfold pagerCommit Registers
  split
  · next ht => exact ⟨fun _ hf => absurd (ht.symm.trans hf) (by simp), fun _ => h⟩
  · next ht =>
    have ht : r.pager.inTransaction = true := by simpa using ht
    split
    · next hc =>
      rw [hc]
      exact ⟨fun _ _ hf => absurd hf (by simp), fun _ => h⟩
    · next s hc =>
      rw [hc]
      dsimp only
      split
      · have hq : (pagerReclaimRetiredPages
            { r with pager := s, retired := retiring (flushed r.pager) ++ r.retired }).Sound :=
          Sound.reclaim (h.congr rfl rfl rfl)
        exact ⟨fun hs _ _ => (hq.release_iff _).mp hs, fun hk => (hq.release_iff _).mpr (hk ht rfl)⟩
      · have hq : ({ r with pager := s } : Registry B).Sound := h.congr rfl rfl rfl
        exact ⟨fun hs _ _ => (hq.release_iff _).mp hs, fun hk => (hq.release_iff _).mpr (hk ht rfl)⟩

theorem Sound.rollback_iff (h : r.Sound) : r.pagerRollback.Sound ↔ r.Registers .rollback := by
  unfold pagerRollback Registers
  split
  · next ht => exact ⟨fun _ hf => absurd (ht.symm.trans hf) (by simp), fun _ => h⟩
  · next ht =>
    have ht : r.pager.inTransaction = true := by simpa using ht
    split
    · next hc =>
      rw [hc]
      exact ⟨fun _ _ hf => absurd hf (by simp), fun _ => h⟩
    · next s hc =>
      rw [hc]
      have hq : ({ r with pager := s } : Registry B).Sound := h.congr rfl rfl rfl
      exact ⟨fun hs _ _ => (hq.release_iff _).mp hs, fun hk => (hq.release_iff _).mpr (hk ht rfl)⟩

theorem Sound.free_iff (h : r.Sound) (k : Nat) : (r.vdbeFree k).Sound ↔ r.Registers (.free k) := by
  unfold vdbeFree Registers
  split
  · next hk => exact ⟨fun _ vm hvm => absurd (hk.symm.trans hvm) (by simp), fun _ => h⟩
  · next vm hk =>
    have hq : ({ r with vms := r.vms.eraseIdx k } : Registry B).Sound := h.congr rfl rfl rfl
    constructor
    · intro hs vm' hvm
      obtain rfl := Option.some.inj (hk.symm.trans hvm)
      exact (hq.release_iff _).mp hs
    · exact fun hr => (hq.release_iff _).mpr (hr vm hk)

/-- One call keeps the registry sound exactly under its condition. -/
theorem Sound.step_iff (h : r.Sound) (op : SnapshotOp B) : (r.step op).Sound ↔ r.Registers op := by
  cases op with
  | begin => exact h.begin_iff
  | commit => exact h.commit_iff
  | rollback => exact h.rollback_iff
  | create =>
    refine Iff.trans ?_ h.register_iff
    exact ⟨fun hs => hs.congr rfl rfl rfl, fun hs => hs.congr rfl rfl rfl⟩
  | free k => exact h.free_iff k
  | register => exact h.register_iff
  | unregister xid => exact ⟨fun _ => trivial, fun _ => h.unregister xid⟩
  | access a => exact ⟨fun _ => trivial, fun _ => h.congr rfl rfl rfl⟩

omit [PageBody B] in
theorem opened_sound (s : Pager B) : (opened s).Sound := ⟨SlotArray.held_empty, fun _ hf => absurd hf List.not_mem_nil⟩

/-- The slots are the snapshots in use, and no buffer is freed too early, after every call of a run exactly when each
call finds a free slot for the snapshot it takes and gives up no snapshot 0. -/
theorem registry_sound_iff (s : Pager B) (ops : List (SnapshotOp B)) :
    (∀ k, (Run.run step (opened s) (ops.take k)).Sound) ↔ Run.Meets step Registers (opened s) ops := by
  constructor
  · intro h pre op post he
    have hpre : ops.take pre.length = pre := by rw [he, List.take_left]
    have hop : ops.take (pre.length + 1) = pre ++ [op] := by
      rw [he, List.take_add_one, List.take_left, List.getElem?_append_right (le_refl _), Nat.sub_self]
      rfl
    have hs := h pre.length
    have hs' := h (pre.length + 1)
    rw [hpre] at hs
    rw [hop, Run.run_concat] at hs'
    exact (hs.step_iff op).mp hs'
  · intro h k
    refine (h.take k).invariant (fun _ r => r.Sound) (opened_sound s) fun pre op _ _ hs hok => ?_
    exact (hs.step_iff op).mpr hok

/-- A VM on a new database takes snapshot 0, and its slot is never free again. -/
theorem first_snapshot_leaks : ¬ ∀ (s : Pager Word) (ops : List (SnapshotOp Word)) k,
    (Run.run step (opened s) (ops.take k)).Sound := by
  intro h
  have hs := (h (Pager.pagerOpenMemory 0) [.create, .free 0] 2).active
  exact absurd hs (by decide)

end Registry

end CustomDB
