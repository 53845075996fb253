import CustomDB.Conn.Steps
import CustomDB.Lib.Run

/-!
# No lost update

The invariant of the whole system: the file shows the committed transactions run one after another, at most
one connection holds the write lock, and every other one is passive.
-/

namespace CustomDB

open Lib Lib.Script

variable {B L : Type} [PageBody B] {n : Nat}

omit [PageBody B] in
theorem serial_concat (m : Nat → Page B) (ts : List (Txn B L)) (t : Txn B L) :
    serial m (ts ++ [t]) = t.apply (serial m ts) := by
  rw [serial, List.foldl_append]
  rfl

omit [PageBody B] in
/-- A transaction that only read leaves the content alone. -/
theorem Txn.apply_readOnly (t : Txn B L) (m : Nat → Page B) (h : writes t.script = false) : t.apply m = m := by
  rw [Txn.apply, if_neg (by simp [h])]
  exact run_readOnly _ _ h

namespace System

variable {S S' : System B L n} {m : Nat → Page B} {i j : Fin n}

/-- When `op` of connection `i` gives up the process's byte locks, no other connection of the process has
the write lock. -/
def Alone (S : System B L n) (i : Fin n) (op : ConnOp B L) : Prop :=
  Conn.Unlocks (S.attach i) op → ∀ j, j ≠ i → S.proc j = S.proc i → (S.conn j).pager.isWriter = false

/-- Where a step loses no update. The write lock is granted only to a transaction that no commit has
overtaken; so is the cut of the file in the rollback of a transaction that has read past the end; and the
end of a transaction takes no lock from another connection of its process. -/
def Safe (S : System B L n) (c : Fin n × ConnOp B L) : Prop :=
  match c.2 with
  | .begin _ _ => True
  | .access (.read p _) => p + 1 < fileLengthWrap
  | .access (.write p _) => p + 1 < fileLengthWrap ∧
    ((S.attach c.1).inTransaction = true → (S.attach c.1).isWriter = false → (S.attach c.1).Grantable →
      (S.attach c.1).diskLsn ≤ (S.attach c.1).walLsn)
  | .commit => S.Alone c.1 c.2
  | .rollback => S.Alone c.1 c.2 ∧
    ((S.attach c.1).inTransaction = true → (S.attach c.1).isWriter = false → (S.attach c.1).Grew →
      (S.attach c.1).diskLsn ≤ (S.attach c.1).walLsn)

/-! ## The invariant -/

/-- Connection `i` has the write lock. -/
structure Holder (m : Nat → Page B) (S : System B L n) (i : Fin n) (j : List (JournalEntry B)) : Prop
    extends Conn.Active m (S.conn i) j where
  active : S.activeWriter (S.proc i) = some i
  reserved : (S.held (S.proc i)).reserved = true
  journal : S.disk.journal = some j
  covers : S.disk.main.length ≤ (S.conn i).pager.filePages

/-- The system after the committed transactions have made `m` of the file. -/
structure Inv (m : Nat → Page B) (S : System B L n) : Prop where
  content : ∀ p, S.content p = m p
  size : S.disk.main.length < fileLengthWrap
  noWal : S.disk.wal = none
  calm : ∀ i, (S.held (S.proc i)).pending = false ∧ (S.held (S.proc i)).sharedWrite = false
  one : ∀ i j, (S.held (S.proc i)).reserved = true → (S.held (S.proc j)).reserved = true → S.proc i = S.proc j
  conn : ∀ i, Conn.Passive m (S.conn i) ∧ S.activeWriter (S.proc i) ≠ some i ∨ ∃ j, Holder m S i j
  noFile : (∀ i j, ¬ Holder m S i j) → S.disk.journal = none

/-- Two connections never hold the write lock at once. -/
theorem Inv.unique (h : Inv m S) {j₁ j₂ : List (JournalEntry B)} {k : Fin n} (hi : Holder m S i j₁)
    (hk : Holder m S k j₂) : i = k := by
  have hproc := h.one i k hi.reserved hk.reserved
  have ha := hi.active
  rw [hproc, hk.active] at ha
  exact (Option.some.inj ha).symm

omit [PageBody B] in
theorem others_eq_false {f : ByteLocks → Bool} (h : ∀ i, f (S.held (S.proc i)) = false) :
    ((List.finRange n).any fun j => S.proc j ≠ S.proc i && f (S.held (S.proc j))) = false := by
  rw [List.any_eq_false]
  intro j _
  simp [h j]

theorem Inv.sees (h : Inv m S) (i : Fin n) : Conn.Sees m (S.attach i) :=
  ⟨h.content, h.size, h.noWal, others_eq_false fun j => (h.calm j).2, others_eq_false fun j => (h.calm j).1⟩

theorem passive_attach (h : Conn.Passive m (S.conn i)) : Conn.Passive m { S.conn i with pager := S.attach i } :=
  ⟨⟨⟨h.isMemory, h.useWal, h.savepoints, h.count, h.bound⟩, h.notWriter, h.noJournal, h.noShadow, h.clean, h.unmarked,
    h.lock⟩, h.lsn_le, fun hl => ⟨(h.current hl).cached, (h.current hl).beyondFile, (h.current hl).beyondCount⟩,
    h.readOnly, h.knows⟩

theorem Holder.attach {j : List (JournalEntry B)} (h : Holder m S i j) :
    Conn.Active m { S.conn i with pager := S.attach i } j :=
  ⟨⟨⟨h.isMemory, h.useWal, h.savepoints, h.count, h.bound⟩, h.inTx, h.writer, h.lock, h.pos, h.lsn,
    ⟨h.current.cached, h.current.beyondFile, h.current.beyondCount⟩, h.start, h.knows, h.shows, h.backed, h.marked,
    h.images⟩, h.captured, h.wrote⟩

omit [PageBody B] in
theorem writerSlot_self : S.writerSlot i = .self ↔ S.activeWriter (S.proc i) = some i := by
  unfold writerSlot
  cases hs : S.activeWriter (S.proc i) with
  | none => simp
  | some j =>
    by_cases hj : j = i
    · simp [hj]
    · simp [hj]

theorem Holder.owns {j : List (JournalEntry B)} (hi : Inv m S) (h : Holder m S i j) : Conn.Owns (S.attach i) j := by
  refine ⟨h.journal, writerSlot_self.mpr h.active, ?_, h.covers⟩
  show (S.others i).reserved = false
  unfold others
  rw [List.any_eq_false]
  intro k _
  by_cases hk : S.proc k = S.proc i
  · simp [hk]
  · cases hr : (S.held (S.proc k)).reserved with
    | false => simp
    | true => exact absurd (hi.one k i hr h.reserved) hk

/-- The holder's RESERVED lock is seen by every other process. -/
theorem Holder.blocks {k : Fin n} {j : List (JournalEntry B)} (h : Holder m S k j) (hp : S.proc k ≠ S.proc i) :
    (S.others i).reserved = true := by
  unfold others
  rw [List.any_eq_true]
  exact ⟨k, List.mem_finRange k, by simp [hp, h.reserved]⟩

/-- Where the write lock is free, no connection holds it. -/
theorem not_holder_of_grantable (hg : (S.attach i).Grantable) (hi : S.activeWriter (S.proc i) ≠ some i) {k : Fin n}
    {j : List (JournalEntry B)} : ¬ Holder m S k j := by
  intro hk
  by_cases hp : S.proc k = S.proc i
  · have ha := hk.active
    rw [hp] at ha
    have hne : k ≠ i := fun he => hi (he ▸ ha)
    refine hg.2 (S.conn k).pager.isExplicitTx ?_
    show S.writerSlot i = _
    unfold writerSlot
    rw [ha]
    simp [hne]
  · have hres : (S.others i).reserved = false := hg.1
    rw [hk.blocks hp] at hres
    cases hres

/-! ## Locks -/

theorem take_calm {h : ByteLocks} (hc : h.pending = false ∧ h.sharedWrite = false) {lo hi : PagerLockState}
    (hhi : hi.level ≤ PagerLockState.reserved.level) :
    (h.take lo hi).pending = false ∧ (h.take lo hi).sharedWrite = false := by
  have h3 : ¬ 3 ≤ hi.level := fun hc => by have := le_trans hc hhi; exact absurd this (by decide)
  have h4 : ¬ 4 ≤ hi.level := fun hc => h3 (by omega)
  simp [ByteLocks.take, hc.1, hc.2, h3, h4]

theorem take_reserved (h : ByteLocks) (lo hi : PagerLockState) :
    (h.take lo hi).reserved = (h.reserved || (decide (lo.level < 2) && decide (2 ≤ hi.level))) := rfl

omit [PageBody B] in
/-- A step that ends at or below RESERVED leaves no lock above it. -/
theorem after_calm {op : ConnOp B L} {c : Conn B L} (h : ∀ k, (S.held (S.proc k)).pending = false ∧ (S.held (S.proc k)).sharedWrite = false)
    (hl : c.pager.lockState.level ≤ PagerLockState.reserved.level) (k : Fin n) :
    ((S.after i op c).held (S.proc k)).pending = false ∧ ((S.after i op c).held (S.proc k)).sharedWrite = false := by
  unfold after
  dsimp only
  rw [Function.update_apply]
  split
  · split
    · exact ⟨rfl, rfl⟩
    · exact take_calm (h i) hl
  · exact h k

omit [PageBody B] in
/-- A step that ends below RESERVED takes no such lock. -/
theorem after_reserved {op : ConnOp B L} {c : Conn B L}
    (hl : c.pager.lockState.level < PagerLockState.reserved.level) {k : Fin n}
    (hr : ((S.after i op c).held (S.proc k)).reserved = true) : (S.held (S.proc k)).reserved = true := by
  have h2 : ¬ 2 ≤ c.pager.lockState.level := Nat.not_le.mpr hl
  unfold after at hr
  dsimp only at hr
  rw [Function.update_apply] at hr
  split at hr
  · next hp =>
    rw [hp]
    split at hr
    · cases hr
    · rw [take_reserved] at hr
      simpa [h2] using hr
  · exact hr

omit [PageBody B] in
/-- A step that does not unlock keeps the lock of every process. -/
theorem after_keeps {op : ConnOp B L} {c : Conn B L} {k : Fin n}
    (hu : S.proc k = S.proc i → ¬ Conn.Unlocks (S.attach i) op) (hr : (S.held (S.proc k)).reserved = true) :
    ((S.after i op c).held (S.proc k)).reserved = true := by
  unfold after
  dsimp only
  rw [Function.update_apply]
  split
  · next hp =>
    rw [if_neg (hu hp), take_reserved, ← hp, hr]
    rfl
  · exact hr

/-! ## Steps -/

/-- A connection that holds the write lock keeps it while another one makes a step. -/
theorem Holder.transfer {j : List (JournalEntry B)} {k : Fin n} (h : Holder m S k j) (hp : S'.proc = S.proc)
    (hc : S'.conn k = S.conn k) (ha : S'.activeWriter = S.activeWriter)
    (hr : (S'.held (S.proc k)).reserved = true) (hd : S'.disk = S.disk) : Holder m S' k j := by
  refine ⟨?_, ?_, ?_, ?_, ?_⟩
  · rw [hc]
    exact h.toActive
  · rw [ha, hp]
    exact h.active
  · rw [hp]
    exact hr
  · rw [hd]
    exact h.journal
  · rw [hd, hc]
    exact h.covers

/-- A step of a connection that is passive before and after. -/
theorem Inv.stays (h : Inv m S) {op : ConnOp B L} {c : Conn B L} (hi : S.activeWriter (S.proc i) ≠ some i)
    (hst : Conn.Stays m { S.conn i with pager := S.attach i } c) (hal : S.Alone i op)
    (hd : ∀ k j, Holder m S k j → c.pager.disk = S.disk) : Inv m (S.after i op c) := by
  have hslot : c.pager.writerSlot ≠ .self := by
    rw [hst.slot]
    exact fun hn => hi (writerSlot_self.mp hn)
  have hact : (S.after i op c).activeWriter = S.activeWriter := by
    unfold after claim
    dsimp only
    rw [if_neg hslot, if_neg hi, Function.update_eq_self]
  have hne : ∀ {k j}, Holder m S k j → k ≠ i := fun hk he => hi (he ▸ hk.active)
  have hhold : ∀ {k j}, Holder m S k j → Holder m (S.after i op c) k j := by
    intro k j hk
    refine hk.transfer rfl (Function.update_of_ne (hne hk) _ _) hact
      (after_keeps (fun hp hu => ?_) hk.reserved) (hd k j hk)
    have := hal hu k (hne hk) hp
    rw [hk.writer] at this
    cases this
  refine ⟨hst.content, hst.size, hst.noWal, after_calm h.calm hst.lock.le, fun a b ha hb => ?_, fun k => ?_, fun hn => ?_⟩
  · exact h.one a b (after_reserved hst.lock ha) (after_reserved hst.lock hb)
  · rcases h.conn k with ⟨hp, ha⟩ | ⟨j, hk⟩
    · refine Or.inl ⟨?_, by rw [hact]; exact ha⟩
      show Conn.Passive m (Function.update S.conn i c k)
      rw [Function.update_apply]
      split
      · exact hst.toPassive
      · exact hp
    · exact Or.inr ⟨j, hhold hk⟩
  · exact hst.journal.trans (h.noFile fun k j hk => hn k j (hhold hk))

/-- A step after which connection `i` has the write lock, and had it before or nobody did. -/
theorem Inv.works (h : Inv m S) {op : ConnOp B L} {c : Conn B L} {j : List (JournalEntry B)}
    (hw : Conn.Works m c j) (hu : ¬ Conn.Unlocks (S.attach i) op)
    (hothers : ∀ k, k ≠ i → Conn.Passive m (S.conn k) ∧ S.activeWriter (S.proc k) ≠ some k)
    (hone : ∀ k, (S.held (S.proc k)).reserved = true → S.proc k = S.proc i)
    (hlock : (S.held (S.proc i)).reserved = true ∨
      (S.conn i).pager.lockState.level < PagerLockState.reserved.level) : Inv m (S.after i op c) := by
  have hself : ∀ k, (S.after i op c).activeWriter (S.proc k) =
      if S.proc k = S.proc i then some i else S.activeWriter (S.proc k) := by
    intro k
    unfold after claim
    dsimp only
    rw [if_pos hw.self, Function.update_apply]
  have hres : ((S.after i op c).held (S.proc i)).reserved = true := by
    unfold after
    dsimp only
    rw [Function.update_self, if_neg hu, take_reserved, hw.lock, Bool.or_eq_true]
    rcases hlock with hr | hl
    · exact Or.inl hr
    · refine Or.inr ?_
      rw [Bool.and_eq_true, decide_eq_true_eq]
      exact ⟨hl, rfl⟩
  have hproc : ∀ k, ((S.after i op c).held (S.proc k)).reserved = true → S.proc k = S.proc i := by
    intro k hk
    by_contra hne
    refine hne (hone k ?_)
    unfold after at hk
    dsimp only at hk
    rw [Function.update_of_ne hne] at hk
    exact hk
  have hconn : (S.after i op c).conn i = c := Function.update_self ..
  have hi : Holder m (S.after i op c) i j := by
    refine ⟨?_, ?_, hres, hw.journal, ?_⟩
    · rw [hconn]
      exact hw.toActive
    · show (S.after i op c).activeWriter (S.proc i) = some i
      rw [hself, if_pos rfl]
    · rw [hconn]
      exact hw.covers
  refine ⟨hw.content, hw.size, hw.noWal, after_calm h.calm (by rw [hw.lock]), fun a b ha hb => ?_, fun k => ?_,
    fun hn => absurd hi (hn i j)⟩
  · exact (hproc a ha).trans (hproc b hb).symm
  · by_cases hk : k = i
    · exact Or.inr ⟨j, hk ▸ hi⟩
    · obtain ⟨hp, ha⟩ := hothers k hk
      refine Or.inl ⟨?_, ?_⟩
      · show Conn.Passive m (Function.update S.conn i c k)
        rw [Function.update_of_ne hk]
        exact hp
      · show (S.after i op c).activeWriter (S.proc k) ≠ some k
        rw [hself]
        split
        · exact fun he => hk (Option.some.inj he).symm
        · exact ha

/-- The end of the writer's transaction, which leaves `m'` in the file. -/
theorem Inv.releases (h : Inv m S) {m' : Nat → Page B} {op : ConnOp B L} {c : Conn B L} {j : List (JournalEntry B)}
    (hi : Holder m S i j) (hu : Conn.Unlocks (S.attach i) op) (hc : Conn.Passive m' c)
    (hslot : c.pager.writerSlot = .free) (hcontent : ∀ p, c.pager.mainPage p = m' p)
    (hsize : c.pager.disk.main.length < fileLengthWrap) (hwal : c.pager.disk.wal = none)
    (hjournal : c.pager.disk.journal = none) (hothers : ∀ k, k ≠ i → Conn.Passive m' (S.conn k)) :
    Inv m' (S.after i op c) := by
  have hnone : ∀ k, ((S.after i op c).held (S.proc k)).reserved = true → False := by
    intro k hk
    have hp : S.proc k = S.proc i := h.one k i (after_reserved hc.lock hk) hi.reserved
    unfold after at hk
    dsimp only at hk
    rw [hp, Function.update_self, if_pos hu] at hk
    cases hk
  refine ⟨hcontent, hsize, hwal, after_calm h.calm hc.lock.le, fun a _ ha => (hnone a ha).elim, fun k => Or.inl ?_,
    fun _ => hjournal⟩
  by_cases hk : k = i
  · subst hk
    refine ⟨?_, ?_⟩
    · show Conn.Passive m' (Function.update S.conn k c k)
      rw [Function.update_self]
      exact hc
    · show Function.update S.activeWriter (S.proc k) (S.claim k c.pager.writerSlot) (S.proc k) ≠ some k
      rw [Function.update_self, claim, hslot, if_neg (by simp), if_pos hi.active]
      simp
  · refine ⟨?_, ?_⟩
    · show Conn.Passive m' (Function.update S.conn i c k)
      rw [Function.update_of_ne hk]
      exact hothers k hk
    · show Function.update S.activeWriter (S.proc i) (S.claim i c.pager.writerSlot) (S.proc k) ≠ some k
      rw [Function.update_apply]
      split
      · rw [claim, hslot, if_neg (by simp), if_pos hi.active]
        simp
      · rcases h.conn k with ⟨-, ha⟩ | ⟨j', hk'⟩
        · exact ha
        · exact absurd (h.unique hk' hi) hk

/-- Beside the holder of the write lock every connection is passive. -/
theorem Inv.others_passive (h : Inv m S) {j : List (JournalEntry B)} (hi : Holder m S i j) (k : Fin n) (hk : k ≠ i) :
    Conn.Passive m (S.conn k) ∧ S.activeWriter (S.proc k) ≠ some k := by
  rcases h.conn k with hp | ⟨j', hk'⟩
  · exact hp
  · exact absurd (h.unique hk' hi) hk

end System

namespace Conn

/-- A commit of another connection leaves a passive one behind. -/
theorem Passive.overtaken {m m' : Nat → Page B} {c : Conn B L} (h : Passive m c) (hl : (m' 0).lsn = (m 0).lsn + 1) :
    Passive m' c := by
  have hlt : c.pager.walLsn < (m' 0).lsn := by
    have := h.lsn_le
    omega
  exact ⟨h.toUnwritten, hlt.le, fun he => absurd he (by omega), h.readOnly, fun _ he => absurd he (by omega)⟩

end Conn

namespace System

variable {S S' : System B L n} {m : Nat → Page B} {i j : Fin n}

omit [PageBody B] in
theorem serial_committed {op : ConnOp B L} (h : op ≠ .commit) : serial m (S.committed i op) = m := by
  cases op with
  | commit => exact absurd rfl h
  | _ => rfl

/-- A step of a passive connection. -/
theorem Inv.passive_step (h : Inv m S) {op : ConnOp B L} {c : Conn B L} (hsafe : Safe S (i, op))
    (hc : Conn.step { S.conn i with pager := S.attach i } op = some c) (hp : Conn.Passive m (S.conn i))
    (ha : S.activeWriter (S.proc i) ≠ some i) : Inv (serial m (S.committed i op)) (S.after i op c) := by
  have hp := passive_attach hp
  have hs := h.sees i
  have hself : (S.attach i).writerSlot ≠ .self := fun hn => ha (writerSlot_self.mp hn)
  have hquiet : ∀ {op}, S.Alone i op → Conn.Quiet m { S.conn i with pager := S.attach i } c →
      Inv m (S.after i op c) :=
    fun hal hq => h.stays ha (hq.stays hs) hal fun _ _ _ => hq.disk
  have hcurrent : (S.attach i).diskLsn ≤ (S.attach i).walLsn → (S.attach i).walLsn = (m 0).lsn := by
    intro hle
    rw [hs.diskLsn] at hle
    exact le_antisymm hp.lsn_le hle
  cases op with
  | begin e l =>
    rw [serial_committed (by simp)]
    exact hquiet (fun hu => hu.elim) (hp.begin hs hc)
  | access a =>
    rw [serial_committed (by simp)]
    cases a with
    | read p g => exact hquiet (fun hu => hu.elim) (hp.read hs hsafe hc)
    | write p f =>
      by_cases hg : (S.attach i).inTransaction = true ∧ (S.attach i).Grantable
      · -- the write lock is granted: nobody else has it
        have hno : ∀ k j, ¬ Holder m S k j := fun k j => not_holder_of_grantable hg.2 ha
        obtain ⟨j, hw⟩ := hp.write hs hg.1 hg.2 (hcurrent (hsafe.2 hg.1 hp.notWriter hg.2)) (h.noFile hno) hsafe.1 hc
        refine h.works hw id (fun k _ => ?_) (fun k hk => ?_) (Or.inr hp.lock)
        · exact (h.conn k).resolve_right fun ⟨j, hk⟩ => hno k j hk
        · by_contra hne
          have hres : (S.others i).reserved = false := hg.2.1
          unfold others at hres
          rw [List.any_eq_false] at hres
          exact absurd hk (by simpa [hne] using hres k (List.mem_finRange k))
      · exact hquiet (fun hu => hu.elim) (hp.refused hs hself (fun ht hgr => hg ⟨ht, hgr⟩) hc)
  | commit =>
    have hser : serial m (S.committed i .commit) = m := by
      show serial m (if (S.conn i).pager.inTransaction then [⟨(S.conn i).params, (S.conn i).script⟩] else []) = m
      split
      · next ht => exact Txn.apply_readOnly _ m (hp.readOnly ht)
      · rfl
    rw [hser]
    exact hquiet hsafe (hp.commit hself hc)
  | rollback =>
    rw [serial_committed (by simp)]
    by_cases ht : (S.attach i).inTransaction = true
    · -- the EXCLUSIVE lock was granted, so no other connection has written
      have hno : ∀ k j, ¬ Holder m S k j := by
        intro k j hk
        obtain ⟨s', hrb, -⟩ := Option.map_eq_some_iff.mp hc
        have hres := Pager.rollback_blocked hs.sharedWrite hs.pending hp.isMemory hp.lock ht hrb
        by_cases hpk : S.proc k = S.proc i
        · have hw := hsafe.1 ht k (fun he : k = i => ha (he ▸ hk.active)) hpk
          rw [hk.writer] at hw
          cases hw
        · rw [show (S.attach i).others.reserved = (S.others i).reserved from rfl, hk.blocks hpk] at hres
          cases hres
      exact h.stays ha (hp.rollback hs hself (h.noFile hno) (fun hg => hcurrent (hsafe.2 ht hp.notWriter hg)) hc) hsafe.1
        fun k j hk => absurd hk (hno k j)
    · have hcc : c = { S.conn i with pager := S.attach i } := by
        simp only [Conn.step, Pager.pagerRollback] at hc
        rw [if_pos (by simpa using ht)] at hc
        exact (Option.some.inj hc).symm
      refine hquiet hsafe.1 ?_
      rw [hcc]
      exact ⟨hp, rfl, rfl⟩

/-- A step of the connection that has the write lock. -/
theorem Inv.holder_step (h : Inv m S) {op : ConnOp B L} {c : Conn B L} {j : List (JournalEntry B)}
    (hsafe : Safe S (i, op)) (hc : Conn.step { S.conn i with pager := S.attach i } op = some c) (hi : Holder m S i j) :
    Inv (serial m (S.committed i op)) (S.after i op c) := by
  have hact := hi.attach
  have ho := hi.owns h
  have hs := h.sees i
  have hothers := h.others_passive hi
  have hworks : ∀ {op} {j' : List (JournalEntry B)}, ¬ Conn.Unlocks (S.attach i) op → Conn.Works m c j' →
      Inv m (S.after i op c) :=
    fun hu hw => h.works hw hu hothers (fun k hk => h.one k i hk hi.reserved) (Or.inl hi.reserved)
  cases op with
  | begin e l =>
    rw [serial_committed (by simp)]
    exact hworks id (hact.begin hs ho hc)
  | access a =>
    rw [serial_committed (by simp)]
    cases a with
    | read p g => exact hworks id (hact.read hs ho hsafe hc)
    | write p f =>
      obtain ⟨j', hw⟩ := hact.write hs ho hsafe.1 hc
      exact hworks id hw
  | commit =>
    have hser : serial m (S.committed i .commit) = (⟨(S.conn i).params, (S.conn i).script⟩ : Txn B L).apply m := by
      show serial m (if (S.conn i).pager.inTransaction then [⟨(S.conn i).params, (S.conn i).script⟩] else []) = _
      rw [if_pos hi.inTx]
      rfl
    obtain ⟨hpass, hslot, hcontent, hsize, hwal, hjournal, hlsn⟩ := hact.commit hs ho hc
    rw [hser]
    exact h.releases hi ⟨hi.inTx, Or.inl hact.hasWrites⟩ hpass hslot hcontent hsize hwal hjournal
      fun k hk => (hothers k hk).1.overtaken hlsn
  | rollback =>
    obtain ⟨hpass, hslot, hcontent, hsize, hwal, hjournal⟩ := hact.rollback hs ho hc
    rw [serial_committed (by simp)]
    exact h.releases hi hi.inTx hpass hslot hcontent hsize hwal hjournal fun k hk => (hothers k hk).1

theorem Inv.step (h : Inv (serial m S.log) S) {a : Fin n × ConnOp B L} (hsafe : Safe S a) :
    Inv (serial m (S.step a).log) (S.step a) := by
  obtain ⟨i, op⟩ := a
  unfold System.step
  split
  · exact h
  · next c hc =>
    have hlog : serial m (S.after i op c).log = serial (serial m S.log) (S.committed i op) := List.foldl_append ..
    rw [hlog]
    rcases h.conn i with ⟨hp, ha⟩ | ⟨j, hi⟩
    · exact h.passive_step hsafe hc hp ha
    · exact h.holder_step hsafe hc hi

/-! ## Runs -/

/-- Connections that have just opened the file are passive. -/
theorem opened_inv (proc : Fin n → Nat) (main : List (Page B)) (clock : Nat) (l : L)
    (hsize : main.length < fileLengthWrap) :
    Inv (opened proc main clock l : System B L n).content (opened proc main clock l : System B L n) := by
  have hmod : main.length % fileLengthWrap = main.length := Nat.mod_eq_of_lt hsize
  have hmod' : main.length % 2 ^ 32 = main.length := Nat.mod_eq_of_lt (lt_trans hsize (by decide))
  refine ⟨fun _ => rfl, hsize, rfl, fun _ => ⟨rfl, rfl⟩, fun _ _ hr => (nomatch hr), fun i => Or.inl ⟨?_, by simp [opened]⟩,
    fun _ => rfl⟩
  have hno : ∀ {P : Prop}, (Pager.pagerOpen ⟨main, none, none⟩ ByteLocks.none .free clock).inTransaction = true → P :=
    fun hn => by cases hn
  have hbeyond : ∀ p, main.length ≤ p → BlockFile.read Page.zero main p = Page.zero :=
    fun p hp => BlockFile.read_eq_filler _ _ hp
  refine ⟨⟨⟨rfl, rfl, rfl, ?_, fun p x hx => (nomatch hx)⟩, rfl, rfl, fun _ => rfl, rfl, rfl, Nat.zero_lt_two⟩, ?_,
    fun _ => ⟨fun p x hx => (nomatch hx), fun p hp => hbeyond p ?_, fun p hp => hbeyond p ?_⟩, hno, hno⟩
  · show main.length % 2 ^ 32 < fileLengthWrap
    rw [hmod']
    exact hsize
  · show max (if 1 ≤ main.length then (BlockFile.read Page.zero main 0).lsn else 0) 0 ≤ (BlockFile.read Page.zero main 0).lsn
    split
    · simp
    · simp
  · rw [← hmod]
    exact hp
  · rw [← hmod']
    exact hp

/-- In every interleaving of the connections' steps that are all safe, the file shows the committed
transactions run one after another in commit order. -/
theorem no_lost_update (proc : Fin n → Nat) (main : List (Page B)) (clock : Nat) (l : L)
    (hsize : main.length < fileLengthWrap) (as : List (Fin n × ConnOp B L))
    (hsafe : Run.Meets System.step Safe (opened proc main clock l) as) :
    (Run.run System.step (opened proc main clock l) as).content =
      serial (opened proc main clock l : System B L n).content (Run.run System.step (opened proc main clock l) as).log := by
  have hinv := hsafe.invariant
    (fun _ S => Inv (serial (opened proc main clock l : System B L n).content S.log) S)
    (opened_inv proc main clock l hsize) fun pre a post _ h hok => h.step hok
  funext p
  exact hinv.content p

/-! ## A commit overtaken by an older transaction -/

/-- Two processes have opened a file of two pages. -/
def twoProcesses : System Word Unit 2 := opened (fun i => i.val) [⟨0, 0, 0⟩, ⟨0, 0, 0⟩] 1 ()

/-- Read page `p`. -/
def look (p : Nat) : ConnOp Word Unit := .access (.read p fun _ _ => ())

/-- Store a new body in page `p`. -/
def put (p : Nat) (w : Word) : ConnOp Word Unit := .access (.write p fun _ x => { x with body := w })

/-- Connection 0 has page 1 in its cache and begins; connection 1 changes page 1 and commits; connection 0
writes page 0 and commits. -/
def overtaken : List (Fin 2 × ConnOp Word Unit) :=
  [(0, .begin true ()), (0, look 1), (0, .commit), (0, .begin true ()),
    (1, .begin true ()), (1, put 1 5), (1, .commit), (0, put 0 6), (0, .commit)]

/-- The first capture of connection 0 flushes its cached page 1 over the commit of connection 1. -/
theorem overtaken_loses_update :
    (Run.run System.step twoProcesses overtaken).content ≠
      serial twoProcesses.content (Run.run System.step twoProcesses overtaken).log := by
  intro h
  have h1 := congrFun h 1
  revert h1
  decide

/-- Both connections write, one after the other. -/
def inTurn : List (Fin 2 × ConnOp Word Unit) :=
  [(1, .begin true ()), (1, put 1 5), (1, .commit), (0, .begin true ()), (0, put 0 6), (0, .commit)]

theorem no_lost_update_inTurn : (Run.run System.step twoProcesses inTurn).content =
    serial twoProcesses.content (Run.run System.step twoProcesses inTurn).log := by
  refine no_lost_update _ _ _ _ (by decide) inTurn ?_
  unfold inTurn
  simp only [Run.meets_cons]
  refine ⟨trivial, ⟨by decide, fun _ _ _ => by decide⟩, ?_, trivial, ⟨by decide, fun _ _ _ => by decide⟩, ?_, Run.meets_nil _ _ _⟩
  · rintro - j hj hp
    exact absurd (Fin.ext hp) hj
  · rintro - j hj hp
    exact absurd (Fin.ext hp) hj

end System

end CustomDB
