import CustomDB.Lib.Refcount
import CustomDB.Lib.Run
import CustomDB.Pager.State

/-!
# The lock nodes of a process

The pagers of one process that have one file open share a `FileLockNode`, which names the pager that may write. The
nodes are in a list behind `g_file_lock_head`: `pager_open` looks for the node of its file by device and inode, then by
canonical path, and counts it up; `pager_close` counts it down and frees it with the last pager.

A `LockRegistry` is that list with the open pagers; `NodeEvent` has what the pagers of a process do to it, each under
the mutex of the list or of the node, in any order. Over every such run, while the file system names the same file by
the same path, the node of an open pager is not freed and two pagers share a node exactly when they have the same file
open. `WriterTable` is what the nodes are for, one active writer for each file; the registry refines it.
-/

namespace CustomDB

open Lib Refcount

/-- A file as `get_file_lock_node` sees it: device and inode, where `fstat` succeeds, and the canonical path. -/
structure FileId where
  stat : Option (Nat × Nat)
  canon : String
  deriving DecidableEq, Repr

/-- `FileLockNode`. The reference count and the address are the registry's. -/
structure FileLockNode where
  dev : Nat
  ino : Nat
  canonicalPath : String
  activeWriter : Option Nat
  deriving DecidableEq, Repr

namespace FileLockNode

/-- The match of the loop in `get_file_lock_node`. -/
def fits (f : FileId) (n : FileLockNode) : Bool :=
  f.stat == some (n.dev, n.ino) || (f.canon != "" && n.canonicalPath != "" && n.canonicalPath == f.canon)

/-- The node that `get_file_lock_node` makes: `calloc` leaves 0 where `fstat` failed. -/
def new (f : FileId) : FileLockNode where
  dev := (f.stat.getD (0, 0)).1
  ino := (f.stat.getD (0, 0)).2
  canonicalPath := f.canon
  activeWriter := none

/-- `if (active_writer == NULL || active_writer == pager) active_writer = pager`, where `pager_ensure_write_lock` ends
its wait. Another writer is left in place. -/
def claim (pager : Nat) (n : FileLockNode) : FileLockNode :=
  if n.activeWriter = none ∨ n.activeWriter = some pager then { n with activeWriter := some pager } else n

/-- `if (active_writer == pager) active_writer = NULL`, at a transaction's end, at a failed lock and in `pager_close`. -/
def unclaim (pager : Nat) (n : FileLockNode) : FileLockNode :=
  if n.activeWriter = some pager then { n with activeWriter := none } else n

/-- Device and inode. -/
def id (n : FileLockNode) : Nat × Nat := (n.dev, n.ino)

@[simp] theorem claim_id (pager : Nat) (n : FileLockNode) : (n.claim pager).id = n.id := by
  rw [claim]
  split <;> rfl

@[simp] theorem claim_path (pager : Nat) (n : FileLockNode) : (n.claim pager).canonicalPath = n.canonicalPath := by
  rw [claim]
  split <;> rfl

@[simp] theorem unclaim_id (pager : Nat) (n : FileLockNode) : (n.unclaim pager).id = n.id := by
  rw [unclaim]
  split <;> rfl

@[simp] theorem unclaim_path (pager : Nat) (n : FileLockNode) :
    (n.unclaim pager).canonicalPath = n.canonicalPath := by
  rw [unclaim]
  split <;> rfl

/-- Who writes after a claim wrote before, or claimed. -/
theorem claim_activeWriter {pager w : Nat} {n : FileLockNode} (h : (n.claim pager).activeWriter = some w) :
    n.activeWriter = some w ∨ w = pager := by
  rw [claim] at h
  split at h
  · exact Or.inr (Option.some.inj h).symm
  · exact Or.inl h

/-- Who writes after another let go wrote before. -/
theorem unclaim_activeWriter {pager w : Nat} {n : FileLockNode} (h : (n.unclaim pager).activeWriter = some w) :
    n.activeWriter = some w ∧ w ≠ pager := by
  rw [unclaim] at h
  split at h
  next => cases h
  next hn => exact ⟨h, fun he => hn (he ▸ h)⟩

end FileLockNode

/-- An open pager: its address, `lock_node`, and the file it has open. -/
structure OpenPager where
  addr : Nat
  lockNode : Nat
  file : FileId
  deriving DecidableEq, Repr

/-- `g_file_lock_head` and the open pagers of the process. -/
structure LockRegistry where
  nodes : List (Node FileLockNode)
  pagers : List OpenPager
  deriving Repr

/-- What the pagers of a process do to the lock nodes. `opens` has the addresses that `malloc` gives the pager and, if
one is made, the node. -/
inductive NodeEvent where
  | opens (pager fresh : Nat) (file : FileId)
  | claims (pager : Nat)
  | unclaims (pager : Nat)
  | closes (pager : Nat)
  deriving DecidableEq, Repr

namespace LockRegistry

/-- No pager is open. -/
def empty : LockRegistry := ⟨[], []⟩

variable (S : LockRegistry)

/-- The open pager at an address. -/
def pager? (a : Nat) : Option OpenPager := S.pagers.find? fun p => p.addr = a

/-- `get_file_lock_node`. -/
def getFileLockNode (fresh : Nat) (f : FileId) : List (Node FileLockNode) × Nat :=
  acquire (FileLockNode.fits f) fresh (FileLockNode.new f) S.nodes

/-- `release_file_lock_node`. -/
def releaseFileLockNode (a : Nat) (nodes : List (Node FileLockNode)) : List (Node FileLockNode) :=
  release (fun n => n.addr = a) nodes

/-- One event. -/
def step : NodeEvent → LockRegistry
  | .opens a fresh f =>
    { nodes := (S.getFileLockNode fresh f).1, pagers := ⟨a, (S.getFileLockNode fresh f).2, f⟩ :: S.pagers }
  | .claims a =>
    match S.pager? a with
    | some p => { S with nodes := modify p.lockNode (FileLockNode.claim a) S.nodes }
    | none => S
  | .unclaims a =>
    match S.pager? a with
    | some p => { S with nodes := modify p.lockNode (FileLockNode.unclaim a) S.nodes }
    | none => S
  | .closes a =>
    match S.pager? a with
    | some p =>
      { nodes := releaseFileLockNode p.lockNode (modify p.lockNode (FileLockNode.unclaim a) S.nodes)
        pagers := S.pagers.erase p }
    | none => S

/-- What an event may assume: `malloc` gives fresh addresses, and `fstat` the device and inode of the file at the
canonical path, which `fs` says. -/
def Allowed (fs : String → Nat × Nat) : NodeEvent → Prop
  | .opens a fresh f => S.pager? a = none ∧ fresh ∉ S.nodes.map Node.addr ∧ f.stat = some (fs f.canon)
  | _ => True

instance (fs : String → Nat × Nat) (e : NodeEvent) : Decidable (S.Allowed fs e) := by
  cases e <;> unfold Allowed <;> infer_instance

/-- `lock_node->active_writer` of a pager. -/
def activeWriter (p : OpenPager) : Option Nat :=
  (S.nodes.find? fun n => n.addr = p.lockNode).bind fun n => n.val.activeWriter

/-- The registry is right: the counts are those of the open pagers, the nodes are those of different files, and each
pager's node is that of its file. -/
structure Right (fs : String → Nat × Nat) (S : LockRegistry) : Prop where
  sound : Sound (S.pagers.map OpenPager.lockNode) S.nodes
  addrs : (S.pagers.map OpenPager.addr).Nodup
  file : ∀ n ∈ S.nodes, n.val.id = fs n.val.canonicalPath
  one : ∀ m ∈ S.nodes, ∀ n ∈ S.nodes, m.val.id = n.val.id → m.addr = n.addr
  stat : ∀ p ∈ S.pagers, p.file.stat = some (fs p.file.canon)
  held : ∀ p ∈ S.pagers, ∀ n ∈ S.nodes, n.addr = p.lockNode → n.val.id = fs p.file.canon
  writer : ∀ n ∈ S.nodes, ∀ w, n.val.activeWriter = some w → ∃ p ∈ S.pagers, p.addr = w ∧ p.lockNode = n.addr

variable {S} {fs : String → Nat × Nat}

theorem right_empty : Right fs empty :=
  ⟨sound_nil, List.nodup_nil, fun _ h => absurd h List.not_mem_nil, fun _ h => absurd h List.not_mem_nil,
    fun _ h => absurd h List.not_mem_nil, fun _ h => absurd h List.not_mem_nil, fun _ h => absurd h List.not_mem_nil⟩

theorem pager?_eq_some {a : Nat} {p : OpenPager} (h : S.pager? a = some p) : p ∈ S.pagers ∧ p.addr = a := by
  have := List.find?_some h
  exact ⟨List.mem_of_find?_eq_some h, by simpa using this⟩

theorem pager?_eq_none {a : Nat} : S.pager? a = none ↔ a ∉ S.pagers.map OpenPager.addr := by
  rw [pager?, List.find?_eq_none, List.mem_map]
  constructor
  · rintro h ⟨p, hp, he⟩
    exact h p hp (by simpa using he)
  · intro h p hp he
    exact h ⟨p, hp, by simpa using he⟩

/-- Two open pagers at one address are one. -/
theorem Right.pager_eq (h : Right fs S) {p q : OpenPager} (hp : p ∈ S.pagers) (hq : q ∈ S.pagers)
    (he : p.addr = q.addr) : p = q :=
  List.inj_on_of_nodup_map h.addrs hp hq he

/-- A node fits a file exactly when it is the node of that file. -/
theorem fits_iff {n : FileLockNode} {f : FileId} (hn : n.id = fs n.canonicalPath)
    (hf : f.stat = some (fs f.canon)) : n.fits f = true ↔ n.id = fs f.canon := by
  rw [FileLockNode.fits, hf]
  constructor
  · intro h
    rcases Bool.or_eq_true_iff.mp h with h | h
    · exact (Option.some.inj (beq_iff_eq.mp h)).symm
    · rw [Bool.and_eq_true, beq_iff_eq] at h
      rw [hn, h.2]
  · intro h
    exact Bool.or_eq_true_iff.mpr (Or.inl (beq_iff_eq.mpr (congrArg some h.symm)))

theorem new_id {f : FileId} (hf : f.stat = some (fs f.canon)) : (FileLockNode.new f).id = fs f.canon := by
  rw [FileLockNode.id, FileLockNode.new, hf]
  rfl

theorem new_fits {f : FileId} (hf : f.stat = some (fs f.canon)) : (FileLockNode.new f).fits f = true :=
  (fits_iff (new_id hf) hf).mpr (new_id hf)

/-- `pager_open` keeps the registry right. -/
theorem Right.opens (h : Right fs S) {a fresh : Nat} {f : FileId} (ha : S.pager? a = none)
    (hf : fresh ∉ S.nodes.map Node.addr) (hs : f.stat = some (fs f.canon)) : Right fs (S.step (.opens a fresh f)) := by
  have hacq : Sound ((S.getFileLockNode fresh f).2 :: S.pagers.map OpenPager.lockNode) (S.getFileLockNode fresh f).1 :=
    h.sound.acquire hf (FileLockNode.fits f) (FileLockNode.new f)
  -- every node after the call has its old value, or is the new node of a file that had none
  have hmem : ∀ m ∈ (S.getFileLockNode fresh f).1, (∃ n ∈ S.nodes, n.addr = m.addr ∧ n.val = m.val) ∨
      (m = ⟨fresh, FileLockNode.new f, 1⟩ ∧ ∀ n ∈ S.nodes, n.val.fits f = false) := fun m hm => mem_acquire hm
  have hno : (∀ n ∈ S.nodes, n.val.fits f = false) → ∀ n ∈ S.nodes, n.val.id ≠ fs f.canon := by
    intro hnone n hn he
    exact absurd ((fits_iff (h.file n hn) hs).mpr he) (by rw [hnone n hn]; decide)
  refine ⟨hacq, ?_, ?_, ?_, ?_, ?_, ?_⟩
  · exact List.nodup_cons.mpr ⟨pager?_eq_none.mp ha, h.addrs⟩
  · intro m hm
    rcases hmem m hm with ⟨n, hn, -, hv⟩ | ⟨rfl, -⟩
    · exact hv ▸ h.file n hn
    · exact new_id hs
  · intro m hm m' hm' he
    rcases hmem m hm with ⟨n, hn, hna, hv⟩ | ⟨rfl, hnone⟩ <;> rcases hmem m' hm' with ⟨n', hn', hna', hv'⟩ | ⟨rfl, hnone'⟩
    · rw [← hna, ← hna']
      exact h.one n hn n' hn' (by rw [hv, hv', he])
    · exact absurd (by rw [hv, he]; exact new_id hs) (hno hnone' n hn)
    · exact absurd (by rw [hv', ← he]; exact new_id hs) (hno hnone n' hn')
    · rfl
  · exact List.forall_mem_cons.mpr ⟨hs, h.stat⟩
  · refine List.forall_mem_cons.mpr ⟨fun m hm hma => ?_, fun p hp m hm hma => ?_⟩
    · obtain ⟨k, hk, hka, hkf⟩ := acquire_fits (FileLockNode.fits f) fresh (new_fits hs) S.nodes
      have hmk : m = k := eq_of_addr hacq.nodup hm hk (hma.trans hka.symm)
      rcases hmem m hm with ⟨n, hn, -, hv⟩ | ⟨rfl, -⟩
      · exact (fits_iff (hv ▸ h.file n hn) hs).mp (hmk ▸ hkf)
      · exact new_id hs
    · rcases hmem m hm with ⟨n, hn, hna, hv⟩ | ⟨rfl, -⟩
      · exact hv ▸ h.held p hp n hn (hna.trans hma)
      · exact absurd (h.sound.alloc _ (List.mem_map_of_mem hp)) (hma ▸ hf)
  · intro m hm w hw
    rcases hmem m hm with ⟨n, hn, hna, hv⟩ | ⟨rfl, -⟩
    · obtain ⟨p, hp, hpa, hpn⟩ := h.writer n hn w (hv ▸ hw)
      exact ⟨p, List.mem_cons_of_mem _ hp, hpa, hpn.trans hna⟩
    · cases hw

/-- A change of active writers among the open pagers keeps the registry right. -/
theorem Right.modify (h : Right fs S) (a : Nat) {g : FileLockNode → FileLockNode} (hid : ∀ n, (g n).id = n.id)
    (hpath : ∀ n, (g n).canonicalPath = n.canonicalPath)
    (hw : ∀ n w, (g n).activeWriter = some w → n.activeWriter = some w ∨
      ∃ p ∈ S.pagers, p.addr = w ∧ p.lockNode = a) :
    Right fs { S with nodes := Refcount.modify a g S.nodes } := by
  have hval : ∀ m ∈ Refcount.modify a g S.nodes, ∃ n ∈ S.nodes, m.addr = n.addr ∧ m.val.id = n.val.id ∧
      m.val.canonicalPath = n.val.canonicalPath ∧ ∀ w, m.val.activeWriter = some w →
        n.val.activeWriter = some w ∨ ∃ p ∈ S.pagers, p.addr = w ∧ p.lockNode = n.addr := by
    intro m hm
    obtain ⟨n, hn, ha, -, hv⟩ := mem_modify.mp hm
    refine ⟨n, hn, ha, ?_⟩
    by_cases hna : n.addr = a
    · rw [hv, if_pos hna]
      exact ⟨hid _, hpath _, fun w hw' => hna.symm ▸ hw _ w hw'⟩
    · rw [hv, if_neg hna]
      exact ⟨rfl, rfl, fun w hw' => Or.inl hw'⟩
  refine ⟨h.sound.modify a g, h.addrs, ?_, ?_, h.stat, ?_, ?_⟩
  · intro m hm
    obtain ⟨n, hn, -, hi, hp, -⟩ := hval m hm
    rw [hi, hp]
    exact h.file n hn
  · intro m hm m' hm' he
    obtain ⟨n, hn, ha, hi, -⟩ := hval m hm
    obtain ⟨n', hn', ha', hi', -⟩ := hval m' hm'
    rw [ha, ha']
    exact h.one n hn n' hn' (by rw [← hi, ← hi', he])
  · intro p hp m hm hma
    obtain ⟨n, hn, ha, hi, -⟩ := hval m hm
    rw [hi]
    exact h.held p hp n hn (ha.symm.trans hma)
  · intro m hm w hw'
    obtain ⟨n, hn, ha, -, -, hwn⟩ := hval m hm
    rcases hwn w hw' with hw' | ⟨p, hp, hpa, hpn⟩
    · obtain ⟨p, hp, hpa, hpn⟩ := h.writer n hn w hw'
      exact ⟨p, hp, hpa, hpn.trans ha.symm⟩
    · exact ⟨p, hp, hpa, hpn.trans ha.symm⟩

/-- A pager that has let go of its node can leave it. -/
theorem Right.leaves (h : Right fs S) {p : OpenPager} (hp : p ∈ S.pagers)
    (hfree : ∀ n ∈ S.nodes, n.val.activeWriter ≠ some p.addr) :
    Right fs ⟨releaseFileLockNode p.lockNode S.nodes, S.pagers.erase p⟩ := by
  have hperm : S.pagers.Perm (p :: S.pagers.erase p) := List.perm_cons_erase hp
  have hsound : Sound (p.lockNode :: (S.pagers.erase p).map OpenPager.lockNode) S.nodes :=
    h.sound.perm (hperm.map OpenPager.lockNode)
  refine ⟨hsound.release fun n _ => decide_eq_true_iff, ?_, ?_, ?_, ?_, ?_, ?_⟩
  · exact h.addrs.sublist (List.erase_sublist.map _)
  · intro m hm
    obtain ⟨n, hn, -, hv⟩ := mem_release hm
    exact hv ▸ h.file n hn
  · intro m hm m' hm' he
    obtain ⟨n, hn, ha, hv⟩ := mem_release hm
    obtain ⟨n', hn', ha', hv'⟩ := mem_release hm'
    rw [← ha, ← ha']
    exact h.one n hn n' hn' (by rw [hv, hv', he])
  · exact fun q hq => h.stat q (List.mem_of_mem_erase hq)
  · intro q hq m hm hma
    obtain ⟨n, hn, ha, hv⟩ := mem_release hm
    exact hv ▸ h.held q (List.mem_of_mem_erase hq) n hn (ha.trans hma)
  · intro m hm w hw
    obtain ⟨n, hn, ha, hv⟩ := mem_release hm
    obtain ⟨q, hq, hqa, hqn⟩ := h.writer n hn w (hv ▸ hw)
    have hqp : q ≠ p := by
      rintro rfl
      exact hfree n hn (by rw [hv, hw, hqa])
    exact ⟨q, (List.mem_erase_of_ne hqp).mpr hq, hqa, hqn.trans ha⟩

/-- A pager lets go of its node. -/
theorem Right.unclaimed (h : Right fs S) (a b : Nat) :
    Right fs { S with nodes := Refcount.modify b (FileLockNode.unclaim a) S.nodes } :=
  h.modify b (FileLockNode.unclaim_id a) (FileLockNode.unclaim_path a)
    fun _ _ hw => Or.inl (FileLockNode.unclaim_activeWriter hw).1

/-- A pager that has let go of its node writes nowhere. -/
theorem Right.unclaimed_free (h : Right fs S) {p : OpenPager} (hp : p ∈ S.pagers) {m : Node FileLockNode}
    (hm : m ∈ Refcount.modify p.lockNode (FileLockNode.unclaim p.addr) S.nodes) :
    m.val.activeWriter ≠ some p.addr := by
  intro hw
  obtain ⟨n, hn, -, -, hv⟩ := mem_modify.mp hm
  rw [hv] at hw
  split at hw
  next => exact (FileLockNode.unclaim_activeWriter hw).2 rfl
  next hna =>
    -- a writer of another node would be a second open pager at the address
    obtain ⟨q, hq, hqa, hqn⟩ := h.writer n hn p.addr hw
    exact hna (by rw [← hqn, h.pager_eq hq hp hqa])

/-- Every event keeps the registry right. -/
theorem Right.step (h : Right fs S) {e : NodeEvent} (he : S.Allowed fs e) : Right fs (S.step e) := by
  cases e with
  | opens a fresh f => exact h.opens he.1 he.2.1 he.2.2
  | claims a =>
    rw [LockRegistry.step]
    cases hp : S.pager? a with
    | none => exact h
    | some p =>
      obtain ⟨hmem, haddr⟩ := pager?_eq_some hp
      refine h.modify p.lockNode (FileLockNode.claim_id a) (FileLockNode.claim_path a) fun n w hw => ?_
      rcases FileLockNode.claim_activeWriter hw with hw | rfl
      · exact Or.inl hw
      · exact Or.inr ⟨p, hmem, haddr, rfl⟩
  | unclaims a =>
    rw [LockRegistry.step]
    cases S.pager? a with
    | none => exact h
    | some p => exact h.unclaimed a p.lockNode
  | closes a =>
    rw [LockRegistry.step]
    cases hp : S.pager? a with
    | none => exact h
    | some p =>
      obtain ⟨hmem, rfl⟩ := pager?_eq_some hp
      exact (h.unclaimed p.addr p.lockNode).leaves hmem fun m hm => h.unclaimed_free hmem hm

/-- The registry is right in every run. -/
theorem right_run {es : List NodeEvent} (h : Run.Meets step (Allowed · fs) empty es) :
    Right fs (Run.run step empty es) :=
  h.invariant (fun _ S => Right fs S) right_empty fun _ _ _ _ hr he => hr.step he

/-- The node that a pager's `lock_node` points to. -/
theorem Right.node (h : Right fs S) {p : OpenPager} (hp : p ∈ S.pagers) : ∃ n ∈ S.nodes, n.addr = p.lockNode :=
  List.mem_map.mp (h.sound.alloc _ (List.mem_map_of_mem hp))

/-- Pagers share a node exactly when they have the same file open. -/
theorem Right.shared_iff (h : Right fs S) {p q : OpenPager} (hp : p ∈ S.pagers) (hq : q ∈ S.pagers) :
    p.lockNode = q.lockNode ↔ p.file.stat = q.file.stat := by
  obtain ⟨m, hm, hmp⟩ := h.node hp
  obtain ⟨n, hn, hnq⟩ := h.node hq
  rw [h.stat p hp, h.stat q hq, Option.some.injEq, ← h.held p hp m hm hmp, ← h.held q hq n hn hnq]
  constructor
  · intro he
    rw [eq_of_addr h.sound.nodup hm hn (by rw [hmp, hnq, he])]
  · intro he
    rw [← hmp, ← hnq]
    exact h.one m hm n hn he

theorem activeWriter_of_mem (h : Right fs S) {p : OpenPager} {n : Node FileLockNode} (hn : n ∈ S.nodes)
    (ha : n.addr = p.lockNode) : S.activeWriter p = n.val.activeWriter := by
  rw [activeWriter]
  cases hf : S.nodes.find? fun n => n.addr = p.lockNode with
  | none => exact absurd ha (by simpa using List.find?_eq_none.mp hf n hn)
  | some m =>
    have hm := List.find?_some hf
    rw [Option.bind_some, eq_of_addr h.sound.nodup (List.mem_of_find?_eq_some hf) hn
      ((by simpa using hm : m.addr = p.lockNode).trans ha.symm)]

/-- The reference count of a node is the number of pagers that have its file open. -/
theorem Right.refs (h : Right fs S) {n : Node FileLockNode} (hn : n ∈ S.nodes) :
    n.refs = S.pagers.countP fun p => p.file.stat = some n.val.id := by
  rw [h.sound.count n hn, List.count, List.countP_map]
  refine List.countP_congr fun p hp => ?_
  obtain ⟨m, hm, hmp⟩ := h.node hp
  rw [h.stat p hp, ← h.held p hp m hm hmp]
  simp only [Function.comp_apply, beq_iff_eq, decide_eq_true_eq, Option.some.injEq]
  constructor
  · intro he
    rw [eq_of_addr h.sound.nodup hm hn (by rw [hmp, he])]
  · intro he
    rw [← hmp]
    exact h.one m hm n hn he

end LockRegistry

open LockRegistry in
/-- In every run: an open pager's node is not freed, two pagers share a node exactly when they have the same file open,
each node counts the pagers on its file and has at least one, and the active writer a pager sees is an open pager on the
same file. -/
theorem lockNodes_sound (fs : String → Nat × Nat) (es : List NodeEvent)
    (h : Run.Meets LockRegistry.step (Allowed · fs) LockRegistry.empty es) :
    let S := Run.run LockRegistry.step LockRegistry.empty es
    (∀ p ∈ S.pagers, ∃ n ∈ S.nodes, n.addr = p.lockNode ∧ n.val.id = fs p.file.canon) ∧
      (∀ p ∈ S.pagers, ∀ q ∈ S.pagers, p.lockNode = q.lockNode ↔ p.file.stat = q.file.stat) ∧
      (∀ n ∈ S.nodes, 0 < n.refs ∧ n.refs = S.pagers.countP fun p => p.file.stat = some n.val.id) ∧
      ∀ p ∈ S.pagers, ∀ w, S.activeWriter p = some w → ∃ q ∈ S.pagers, q.addr = w ∧ q.file.stat = p.file.stat := by
  intro S
  have hr : Right fs S := right_run h
  refine ⟨fun p hp => ?_, fun p hp q hq => hr.shared_iff hp hq, fun n hn => ⟨hr.sound.pos n hn, hr.refs hn⟩, ?_⟩
  · obtain ⟨n, hn, ha⟩ := hr.node hp
    exact ⟨n, hn, ha, hr.held p hp n hn ha⟩
  · intro p hp w hw
    obtain ⟨n, hn, ha⟩ := hr.node hp
    rw [activeWriter_of_mem hr hn ha] at hw
    obtain ⟨q, hq, hqa, hqn⟩ := hr.writer n hn w hw
    exact ⟨q, hq, hqa, (hr.shared_iff hq hp).mp (hqn.trans ha)⟩

/-- Two pagers open one file by two of its names; the first writes and closes. -/
def openedTwice : List NodeEvent :=
  [.opens 1 10 ⟨some (1, 7), "a.db"⟩, .opens 2 20 ⟨some (1, 7), "b.db"⟩, .claims 1, .closes 1]

open LockRegistry in
theorem openedTwice_allowed :
    Run.Meets LockRegistry.step (Allowed · fun _ => (1, 7)) LockRegistry.empty openedTwice := by
  simp only [openedTwice, Run.meets_cons, Run.meets_nil, and_true]
  decide

theorem lockNodes_sound_twice :
    ∃ n ∈ (Run.run LockRegistry.step LockRegistry.empty openedTwice).nodes, n.addr = 10 ∧ n.val.id = (1, 7) :=
  (lockNodes_sound (fun _ => (1, 7)) openedTwice openedTwice_allowed).1 ⟨2, 10, ⟨some (1, 7), "b.db"⟩⟩ (by decide)

/-! ## One active writer a file -/

/-- The files the pagers of a process have open, and the active writer of each file. -/
structure WriterTable where
  pagers : List (Nat × (Nat × Nat))
  writer : Nat × Nat → Option Nat

namespace WriterTable

/-- The file of an open pager. -/
def file (T : WriterTable) (a : Nat) : Option (Nat × Nat) := (T.pagers.find? fun p => p.1 = a).map Prod.snd

/-- The claim of a pager: another writer stays. -/
def claim (a : Nat) (w : Option Nat) : Option Nat := if w = none ∨ w = some a then some a else w

/-- What is left of a claim when the pager lets go. -/
def unclaim (a : Nat) (w : Option Nat) : Option Nat := if w = some a then none else w

/-- One event on the table. -/
def step (T : WriterTable) : NodeEvent → WriterTable
  | .opens a _ f => { T with pagers := (a, f.stat.getD (0, 0)) :: T.pagers }
  | .claims a =>
    match T.file a with
    | some i => { T with writer := Function.update T.writer i (claim a (T.writer i)) }
    | none => T
  | .unclaims a =>
    match T.file a with
    | some i => { T with writer := Function.update T.writer i (unclaim a (T.writer i)) }
    | none => T
  | .closes a =>
    match T.file a with
    | some i =>
      { pagers := T.pagers.erase (a, i), writer := Function.update T.writer i (unclaim a (T.writer i)) }
    | none => T

end WriterTable

namespace LockRegistry

variable {S : LockRegistry} {fs : String → Nat × Nat}

/-- An open pager in the table. -/
def tableRow (fs : String → Nat × Nat) (p : OpenPager) : Nat × (Nat × Nat) := (p.addr, fs p.file.canon)

/-- The table says of each file what its node says; a file without a node has no writer. -/
structure Refines (fs : String → Nat × Nat) (S : LockRegistry) (T : WriterTable) : Prop where
  pagers : T.pagers = S.pagers.map (tableRow fs)
  node : ∀ n ∈ S.nodes, T.writer n.val.id = n.val.activeWriter
  noNode : ∀ i, (∀ n ∈ S.nodes, n.val.id ≠ i) → T.writer i = none

variable {T : WriterTable}

/-- The table knows the file of an open pager. -/
theorem Refines.file (h : Refines fs S T) (a : Nat) : T.file a = (S.pager? a).map fun p => fs p.file.canon := by
  rw [WriterTable.file, h.pagers, List.find?_map, Option.map_map]
  rfl

/-- A change of the node of a file is that change of the table. -/
theorem Refines.modify (hr : Right fs S) (h : Refines fs S T) {p : OpenPager} (hp : p ∈ S.pagers)
    {g : FileLockNode → FileLockNode} {w : Option Nat → Option Nat} (hid : ∀ n, (g n).id = n.id)
    (hg : ∀ n, (g n).activeWriter = w n.activeWriter) :
    Refines fs { S with nodes := Refcount.modify p.lockNode g S.nodes }
      { T with writer := Function.update T.writer (fs p.file.canon) (w (T.writer (fs p.file.canon))) } := by
  refine ⟨h.pagers, fun m hm => ?_, fun i hi => ?_⟩
  · obtain ⟨n, hn, -, -, hv⟩ := mem_modify.mp hm
    by_cases ha : n.addr = p.lockNode
    · have hf : n.val.id = fs p.file.canon := hr.held p hp n hn ha
      rw [hv, if_pos ha, hid, hf, hg, ← h.node n hn, hf]
      exact Function.update_self ..
    · have hf : n.val.id ≠ fs p.file.canon := by
        intro hf
        obtain ⟨k, hk, hkp⟩ := hr.node hp
        exact ha ((hr.one n hn k hk (hf.trans (hr.held p hp k hk hkp).symm)).trans hkp)
      rw [hv, if_neg ha]
      exact (Function.update_of_ne hf _ _).trans (h.node n hn)
  · have hi' : ∀ n ∈ S.nodes, n.val.id ≠ i := by
      intro n hn
      have hm := hi _ (mem_modify.mpr ⟨n, hn, rfl, rfl, rfl⟩ : Node.mk n.addr
        (if n.addr = p.lockNode then g n.val else n.val) n.refs ∈ Refcount.modify p.lockNode g S.nodes)
      dsimp only at hm
      split at hm
      · rwa [hid] at hm
      · exact hm
    obtain ⟨k, hk, hkp⟩ := hr.node hp
    have hne : i ≠ fs p.file.canon := fun he => hi' k hk ((hr.held p hp k hk hkp).trans he.symm)
    exact (Function.update_of_ne hne _ _).trans (h.noNode i hi')

/-- Erasing where the images are told apart. -/
theorem erase_map {f : OpenPager → Nat × (Nat × Nat)} {p : OpenPager} {l : List OpenPager}
    (h : ∀ q ∈ l, f q = f p → q = p) : (l.map f).erase (f p) = (l.erase p).map f := by
  induction l with
  | nil => rfl
  | cons q l ih =>
    rw [List.forall_mem_cons] at h
    rw [List.map_cons, List.erase_cons, List.erase_cons]
    by_cases hq : q = p
    · rw [if_pos (beq_iff_eq.mpr (congrArg f hq)), if_pos (beq_iff_eq.mpr hq)]
    · rw [if_neg fun he => hq (h.1 (beq_iff_eq.mp he)), if_neg fun he => hq (beq_iff_eq.mp he), List.map_cons, ih h.2]

theorem refines_empty : Refines fs empty ⟨[], fun _ => none⟩ :=
  ⟨rfl, fun _ h => absurd h List.not_mem_nil, fun _ _ => rfl⟩

/-- The node of a closed pager is freed where it was the last; its file has no writer then. -/
theorem Refines.leaves (hr : Right fs S) (h : Refines fs S T) {p : OpenPager} (hp : p ∈ S.pagers)
    (hfree : ∀ n ∈ S.nodes, n.val.activeWriter ≠ some p.addr) :
    Refines fs ⟨releaseFileLockNode p.lockNode S.nodes, S.pagers.erase p⟩
      { T with pagers := T.pagers.erase (tableRow fs p) } := by
  have hr' := hr.leaves hp hfree
  have hinj : ∀ q ∈ S.pagers, tableRow fs q = tableRow fs p → q = p :=
    fun q hq he => hr.pager_eq hq hp (congrArg Prod.fst he)
  refine ⟨?_, fun m hm => ?_, fun i hi => ?_⟩
  · exact (congrArg (List.erase · (tableRow fs p)) h.pagers).trans (erase_map hinj)
  · obtain ⟨n, hn, -, hv⟩ := mem_release hm
    exact hv ▸ h.node n hn
  · by_cases hall : ∀ n ∈ S.nodes, n.val.id ≠ i
    · exact h.noNode i hall
    · obtain ⟨n, hn, rfl⟩ : ∃ n ∈ S.nodes, n.val.id = i := by
        by_contra hno
        exact hall fun n hn he => hno ⟨n, hn, he⟩
      show T.writer n.val.id = none
      rw [h.node n hn]
      cases hw : n.val.activeWriter with
      | none => rfl
      | some w =>
        -- the writer of a freed node would be an open pager with a node of the file
        obtain ⟨q, hq, hqa, hqn⟩ := hr.writer n hn w hw
        have hqp : q ≠ p := fun he => hfree n hn (by rw [hw, ← hqa, he])
        have hq' : q ∈ S.pagers.erase p := (List.mem_erase_of_ne hqp).mpr hq
        obtain ⟨m, hm, hma⟩ := hr'.node hq'
        exact absurd ((hr'.held q hq' m hm hma).trans (hr.held q hq n hn hqn.symm).symm) (hi m hm)

/-- The nodes after `pager_open`. -/
theorem Refines.opens (hr : Right fs S) (h : Refines fs S T) {a fresh : Nat} {f : FileId}
    (hs : f.stat = some (fs f.canon)) :
    Refines fs (S.step (.opens a fresh f)) (T.step (.opens a fresh f)) := by
  refine ⟨?_, fun m hm => ?_, fun i hi => ?_⟩
  · show (a, f.stat.getD (0, 0)) :: T.pagers = _
    rw [hs, h.pagers]
    rfl
  · rcases mem_acquire hm with ⟨n, hn, -, hv⟩ | ⟨rfl, hno⟩
    · exact hv ▸ h.node n hn
    · refine h.noNode _ fun n hn he => ?_
      have hfit := (fits_iff (hr.file n hn) hs).mpr (he.trans (new_id hs))
      rw [hno n hn] at hfit
      cases hfit
  · refine h.noNode i fun n hn he => ?_
    obtain ⟨m, hm, -, hv⟩ := mem_acquire_of_mem (FileLockNode.fits f) fresh (FileLockNode.new f) hn
    exact hi m hm (by rw [hv, he])

/-- Every event on the registry is that event on the table. -/
theorem Refines.step (hr : Right fs S) (h : Refines fs S T) {e : NodeEvent} (he : S.Allowed fs e) :
    Refines fs (S.step e) (T.step e) := by
  have hclaim : ∀ a (n : FileLockNode), (n.claim a).activeWriter = WriterTable.claim a n.activeWriter := by
    intro a n
    rw [FileLockNode.claim, WriterTable.claim]
    split <;> rfl
  have hunclaim : ∀ a (n : FileLockNode), (n.unclaim a).activeWriter = WriterTable.unclaim a n.activeWriter := by
    intro a n
    rw [FileLockNode.unclaim, WriterTable.unclaim]
    split <;> rfl
  cases e with
  | opens a fresh f => exact h.opens hr he.2.2
  | claims a =>
    rw [LockRegistry.step, WriterTable.step, h.file]
    cases hp : S.pager? a with
    | none => exact h
    | some p => exact h.modify hr (pager?_eq_some hp).1 (FileLockNode.claim_id a) (hclaim a)
  | unclaims a =>
    rw [LockRegistry.step, WriterTable.step, h.file]
    cases hp : S.pager? a with
    | none => exact h
    | some p => exact h.modify hr (pager?_eq_some hp).1 (FileLockNode.unclaim_id a) (hunclaim a)
  | closes a =>
    rw [LockRegistry.step, WriterTable.step, h.file]
    cases hp : S.pager? a with
    | none => exact h
    | some p =>
      obtain ⟨hmem, rfl⟩ := pager?_eq_some hp
      have h' := h.modify hr hmem (FileLockNode.unclaim_id p.addr) (hunclaim p.addr)
      exact h'.leaves (hr.unclaimed p.addr p.lockNode) hmem fun m hm => hr.unclaimed_free hmem hm

/-- The table follows the registry through every run. -/
theorem refines_run {es : List NodeEvent} (h : Run.Meets LockRegistry.step (Allowed · fs) empty es) :
    Refines fs (Run.run LockRegistry.step empty es) (Run.run WriterTable.step ⟨[], fun _ => none⟩ es) := by
  refine (h.invariant (fun pre S => Right fs S ∧ Refines fs S (Run.run WriterTable.step ⟨[], fun _ => none⟩ pre))
    ⟨right_empty, refines_empty⟩ fun pre e _ _ hr he => ?_).2
  rw [Run.run_concat]
  exact ⟨hr.1.step he, hr.2.step hr.1 he⟩

end LockRegistry

open LockRegistry in
/-- The lock nodes are a table with one active writer for each file: through every run of opens, claims, releases and
closes, in any order, the writer that an open pager finds in its node is the one the table has for its file. -/
theorem lockNodes_refine (fs : String → Nat × Nat) (es : List NodeEvent)
    (h : Run.Meets LockRegistry.step (Allowed · fs) LockRegistry.empty es) :
    let S := Run.run LockRegistry.step LockRegistry.empty es
    let T := Run.run WriterTable.step ⟨[], fun _ => none⟩ es
    T.pagers = S.pagers.map (tableRow fs) ∧ ∀ p ∈ S.pagers, S.activeWriter p = T.writer (fs p.file.canon) := by
  intro S T
  have hr : Right fs S := right_run h
  have hT : Refines fs S T := refines_run h
  refine ⟨hT.pagers, fun p hp => ?_⟩
  obtain ⟨n, hn, ha⟩ := hr.node hp
  rw [activeWriter_of_mem hr hn ha, ← hT.node n hn, hr.held p hp n hn ha]

theorem lockNodes_refine_twice :
    (Run.run WriterTable.step ⟨[], fun _ => none⟩ openedTwice).writer (1, 7) = none :=
  ((lockNodes_refine (fun _ => (1, 7)) openedTwice openedTwice_allowed).2 ⟨2, 10, ⟨some (1, 7), "b.db"⟩⟩
    (by decide)).symm.trans (by decide)

end CustomDB
