import Mathlib.Data.List.Count
import Mathlib.Data.List.Nodup

/-!
# Reference-counted registries

A registry is a list of nodes, each at an address, with a count of the clients that hold it. `acquire` counts up the
first node that fits, or puts a new one in front; `release` counts the first fitting node down and frees it at zero.
`Sound` relates a registry to the addresses its clients hold: it says that no client's node is freed under it, and that
no node outlives its clients.
-/

namespace Lib.Refcount

/-- A node of a registry: where it is, what it holds, and its reference count. -/
structure Node (N : Type) where
  addr : Nat
  val : N
  refs : Nat
  deriving DecidableEq, Repr

variable {N : Type}

/-- Counts up the first node that fits. -/
def bump (fits : N → Bool) : List (Node N) → Option (List (Node N) × Nat)
  | [] => none
  | n :: l =>
    if fits n.val then some ({ n with refs := n.refs + 1 } :: l, n.addr)
    else (bump fits l).map fun r => (n :: r.1, r.2)

/-- The first node that fits, with one client more; a new node at `fresh` where none does. -/
def acquire (fits : N → Bool) (fresh : Nat) (new : N) (l : List (Node N)) : List (Node N) × Nat :=
  (bump fits l).getD (⟨fresh, new, 1⟩ :: l, fresh)

/-- The first node that fits, with one client less; freed with its last one. -/
def release (fits : Node N → Bool) : List (Node N) → List (Node N)
  | [] => []
  | n :: l =>
    if fits n then if n.refs - 1 = 0 then l else { n with refs := n.refs - 1 } :: l
    else n :: release fits l

/-- What the node at address `a` holds, changed by `g`. -/
def modify (a : Nat) (g : N → N) (l : List (Node N)) : List (Node N) :=
  l.map fun n => if n.addr = a then { n with val := g n.val } else n

/-- The nodes of `l` count the clients that hold the addresses `held`. -/
structure Sound (held : List Nat) (l : List (Node N)) : Prop where
  nodup : (l.map Node.addr).Nodup
  pos : ∀ n ∈ l, 0 < n.refs
  count : ∀ n ∈ l, n.refs = held.count n.addr
  alloc : ∀ a ∈ held, a ∈ l.map Node.addr

theorem sound_nil : Sound [] ([] : List (Node N)) :=
  ⟨List.nodup_nil, fun _ h => absurd h List.not_mem_nil, fun _ h => absurd h List.not_mem_nil,
    fun _ h => absurd h List.not_mem_nil⟩

/-! ## Where the nodes are -/

/-- Two nodes at one address are one. -/
theorem eq_of_addr {l : List (Node N)} (hn : (l.map Node.addr).Nodup) {m n : Node N} (hm : m ∈ l) (hn' : n ∈ l)
    (h : m.addr = n.addr) : m = n :=
  List.inj_on_of_nodup_map hn hm hn' h

/-- What `bump` does: one node of the list fits, none before it does, and its count goes up. -/
theorem bump_spec {fits : N → Bool} {l l' : List (Node N)} {a : Nat} (h : bump fits l = some (l', a)) :
    ∃ pre n post, l = pre ++ n :: post ∧ (∀ m ∈ pre, fits m.val = false) ∧ fits n.val = true ∧ a = n.addr ∧
      l' = pre ++ { n with refs := n.refs + 1 } :: post := by
  induction l generalizing l' with
  | nil => cases h
  | cons n l ih =>
    rw [bump] at h
    split at h
    next hf =>
      cases h
      exact ⟨[], n, l, rfl, fun m hm => absurd hm List.not_mem_nil, hf, rfl, rfl⟩
    next hf =>
      obtain ⟨r, hr, he⟩ := Option.map_eq_some_iff.mp h
      cases he
      obtain ⟨pre, m, post, rfl, hpre, hm, ha, hl⟩ := ih hr
      refine ⟨n :: pre, m, post, rfl, ?_, hm, ha, by rw [hl]; rfl⟩
      intro k hk
      rcases List.mem_cons.mp hk with rfl | hk
      · exact Bool.eq_false_iff.mpr hf
      · exact hpre k hk

/-- `bump` finds nothing exactly where no node fits. -/
theorem bump_eq_none {fits : N → Bool} {l : List (Node N)} :
    bump fits l = none ↔ ∀ n ∈ l, fits n.val = false := by
  induction l with
  | nil => exact ⟨fun _ _ h => absurd h List.not_mem_nil, fun _ => rfl⟩
  | cons n l ih =>
    rw [bump]
    by_cases hf : fits n.val = true
    · rw [if_pos hf]
      exact ⟨fun h => (by cases h), fun h => absurd hf (Bool.eq_false_iff.mp (h n List.mem_cons_self))⟩
    · rw [if_neg hf, Option.map_eq_none_iff, ih, List.forall_mem_cons]
      exact ⟨fun h => ⟨Bool.eq_false_iff.mpr hf, h⟩, And.right⟩

/-- What `release` does where a node fits: it goes, or its count goes down. -/
theorem release_spec {fits : Node N → Bool} {l : List (Node N)} (h : ∃ n ∈ l, fits n = true) :
    ∃ pre n post, l = pre ++ n :: post ∧ (∀ m ∈ pre, fits m = false) ∧ fits n = true ∧
      release fits l = pre ++ (if n.refs - 1 = 0 then [] else [{ n with refs := n.refs - 1 }]) ++ post := by
  induction l with
  | nil => exact absurd h.choose_spec.1 List.not_mem_nil
  | cons n l ih =>
    by_cases hf : fits n = true
    · refine ⟨[], n, l, rfl, fun m hm => absurd hm List.not_mem_nil, hf, ?_⟩
      rw [release, if_pos hf]
      split <;> rfl
    · obtain ⟨m, hm, hfm⟩ := h
      have hm' : m ∈ l := by
        rcases List.mem_cons.mp hm with rfl | hm
        · exact absurd hfm hf
        · exact hm
      obtain ⟨pre, k, post, rfl, hpre, hk, hr⟩ := ih ⟨m, hm', hfm⟩
      refine ⟨n :: pre, k, post, rfl, ?_, hk, by rw [release, if_neg hf, hr]; rfl⟩
      intro j hj
      rcases List.mem_cons.mp hj with rfl | hj
      · exact Bool.eq_false_iff.mpr hf
      · exact hpre j hj

/-! ## The counts stay right -/

theorem Sound.perm {held held' : List Nat} {l : List (Node N)} (h : Sound held l) (hp : held.Perm held') :
    Sound held' l :=
  ⟨h.nodup, h.pos, fun n hn => (h.count n hn).trans (hp.count_eq _), fun a ha => h.alloc a (hp.mem_iff.mpr ha)⟩

/-- One client more on a node of the registry. -/
theorem Sound.bumped {held : List Nat} {pre post : List (Node N)} {n : Node N} (h : Sound held (pre ++ n :: post)) :
    Sound (n.addr :: held) (pre ++ { n with refs := n.refs + 1 } :: post) := by
  have hmap : (pre ++ { n with refs := n.refs + 1 } :: post).map Node.addr = (pre ++ n :: post).map Node.addr := by
    simp
  have hother : ∀ m, m ∈ pre ∨ m ∈ post → (n.addr :: held).count m.addr = held.count m.addr := by
    intro m hm
    refine List.count_cons_of_ne fun he => ?_
    have hd := h.nodup
    rw [List.map_append, List.map_cons, List.nodup_append, List.nodup_cons] at hd
    rcases hm with hm | hm
    · exact hd.2.2 _ (List.mem_map_of_mem hm) _ List.mem_cons_self he.symm
    · exact hd.2.1.1 (he ▸ List.mem_map_of_mem hm)
  refine ⟨hmap ▸ h.nodup, ?_, ?_, ?_⟩
  · intro m hm
    rcases List.mem_append.mp hm with hm | hm
    · exact h.pos m (List.mem_append_left _ hm)
    · rcases List.mem_cons.mp hm with rfl | hm
      · exact Nat.succ_pos _
      · exact h.pos m (List.mem_append_right _ (List.mem_cons_of_mem _ hm))
  · intro m hm
    rcases List.mem_append.mp hm with hm | hm
    · exact (h.count m (List.mem_append_left _ hm)).trans (hother m (Or.inl hm)).symm
    · rcases List.mem_cons.mp hm with rfl | hm
      · exact (congrArg (· + 1) (h.count n (by simp))).trans List.count_cons_self.symm
      · exact (h.count m (List.mem_append_right _ (List.mem_cons_of_mem _ hm))).trans (hother m (Or.inr hm)).symm
  · intro a ha
    rw [hmap]
    rcases List.mem_cons.mp ha with rfl | ha
    · simp
    · exact h.alloc a ha

/-- A new node with one client. -/
theorem Sound.pushed {held : List Nat} {l : List (Node N)} (h : Sound held l) {fresh : Nat}
    (hf : fresh ∉ l.map Node.addr) (v : N) : Sound (fresh :: held) (⟨fresh, v, 1⟩ :: l) := by
  have hheld : fresh ∉ held := fun hc => hf (h.alloc fresh hc)
  refine ⟨List.nodup_cons.mpr ⟨hf, h.nodup⟩, ?_, ?_, ?_⟩
  · exact List.forall_mem_cons.mpr ⟨Nat.one_pos, h.pos⟩
  · refine List.forall_mem_cons.mpr ⟨?_, fun m hm => ?_⟩
    · exact (by rw [List.count_cons_self, List.count_eq_zero.mpr hheld] : (1 : Nat) = (fresh :: held).count fresh)
    · have hne : fresh ≠ m.addr := fun he => hf (he ▸ List.mem_map_of_mem hm)
      rw [h.count m hm, List.count_cons_of_ne hne]
  · intro a ha
    rcases List.mem_cons.mp ha with rfl | ha
    · exact List.mem_cons_self
    · exact List.mem_cons_of_mem _ (h.alloc a ha)

/-- `acquire` keeps the counts right. -/
theorem Sound.acquire {held : List Nat} {l : List (Node N)} (h : Sound held l) {fresh : Nat}
    (hf : fresh ∉ l.map Node.addr) (fits : N → Bool) (v : N) :
    Sound ((acquire fits fresh v l).2 :: held) (acquire fits fresh v l).1 := by
  rw [Refcount.acquire]
  cases hb : bump fits l with
  | none => exact h.pushed hf v
  | some r =>
    obtain ⟨pre, n, post, rfl, -, -, ha, hl⟩ := bump_spec hb
    show Sound (r.2 :: held) r.1
    rw [hl, ha]
    exact h.bumped

/-- `release` keeps the counts right where the first node that fits is the one the client held. -/
theorem Sound.release {held : List Nat} {l : List (Node N)} {a : Nat} (h : Sound (a :: held) l)
    {fits : Node N → Bool} (hfits : ∀ n ∈ l, fits n = true ↔ n.addr = a) : Sound held (release fits l) := by
  obtain ⟨k, hk, hka⟩ := List.mem_map.mp (h.alloc a List.mem_cons_self)
  obtain ⟨pre, n, post, rfl, hpre, hn, hr⟩ := release_spec ⟨k, hk, (hfits k hk).mpr hka⟩
  have hna : n.addr = a := (hfits n (by simp)).mp hn
  have hd := h.nodup
  rw [List.map_append, List.map_cons, List.nodup_append, List.nodup_cons] at hd
  have hne : ∀ m, m ∈ pre ∨ m ∈ post → m.addr ≠ a := by
    rintro m (hm | hm) he
    · exact hd.2.2 _ (List.mem_map_of_mem hm) _ List.mem_cons_self (he.trans hna.symm)
    · exact hd.2.1.1 (hna ▸ he ▸ List.mem_map_of_mem hm)
  have hcount : ∀ m, m ∈ pre ∨ m ∈ post → m.refs = held.count m.addr := by
    intro m hm
    rw [h.count m (by simp; tauto), List.count_cons_of_ne (hne m hm).symm]
  have hself : n.refs = held.count a + 1 := by
    rw [h.count n (by simp), hna, List.count_cons_self]
  rw [hr]
  by_cases hz : held.count a = 0
  · -- the last client: the node is freed
    rw [if_pos (by omega), List.append_nil]
    refine ⟨?_, fun m hm => h.pos m (by simp at hm ⊢; tauto), fun m hm => hcount m (List.mem_append.mp hm), ?_⟩
    · refine h.nodup.sublist ?_
      rw [List.map_append, List.map_append]
      exact (List.Sublist.refl _).append ((List.sublist_cons_self _ _).map _)
    · intro b hb
      have hba : b ≠ a := fun he => List.count_eq_zero.mp hz (he ▸ hb)
      have := h.alloc b (List.mem_cons_of_mem _ hb)
      rw [List.map_append, List.map_cons, List.mem_append, List.mem_cons, hna] at this
      rw [List.map_append, List.mem_append]
      tauto
  · rw [if_neg (by omega), List.append_assoc, List.singleton_append]
    have hmap : (pre ++ { n with refs := n.refs - 1 } :: post).map Node.addr = (pre ++ n :: post).map Node.addr := by
      simp
    refine ⟨hmap ▸ h.nodup, ?_, ?_, fun b hb => hmap ▸ h.alloc b (List.mem_cons_of_mem _ hb)⟩
    · intro m hm
      rcases List.mem_append.mp hm with hm | hm
      · exact h.pos m (List.mem_append_left _ hm)
      · rcases List.mem_cons.mp hm with rfl | hm
        · exact (by omega : 0 < n.refs - 1)
        · exact h.pos m (List.mem_append_right _ (List.mem_cons_of_mem _ hm))
    · intro m hm
      rcases List.mem_append.mp hm with hm | hm
      · exact hcount m (Or.inl hm)
      · rcases List.mem_cons.mp hm with rfl | hm
        · exact (by rw [hna]; omega : n.refs - 1 = held.count n.addr)
        · exact hcount m (Or.inr hm)

/-! ## What the registry holds -/

/-- A node after `modify`. -/
theorem mem_modify {a : Nat} {g : N → N} {l : List (Node N)} {m : Node N} :
    m ∈ modify a g l ↔ ∃ n ∈ l, m.addr = n.addr ∧ m.refs = n.refs ∧ m.val = if n.addr = a then g n.val else n.val := by
  rw [modify, List.mem_map]
  constructor
  · rintro ⟨n, hn, rfl⟩
    refine ⟨n, hn, ?_⟩
    split <;> exact ⟨rfl, rfl, rfl⟩
  · rintro ⟨n, hn, ha, hr, hv⟩
    refine ⟨n, hn, ?_⟩
    cases m
    dsimp only at ha hr hv
    subst ha hr hv
    split <;> rfl

/-- `modify` keeps the counts. -/
theorem Sound.modify {held : List Nat} {l : List (Node N)} (h : Sound held l) (a : Nat) (g : N → N) :
    Sound held (modify a g l) := by
  have hmap : (Refcount.modify a g l).map Node.addr = l.map Node.addr := by
    rw [Refcount.modify, List.map_map]
    refine List.map_congr_left fun n _ => ?_
    show Node.addr (if _ then _ else _) = _
    split <;> rfl
  refine ⟨hmap ▸ h.nodup, ?_, ?_, fun b hb => hmap ▸ h.alloc b hb⟩
  · intro m hm
    obtain ⟨n, hn, -, hr, -⟩ := mem_modify.mp hm
    exact hr ▸ h.pos n hn
  · intro m hm
    obtain ⟨n, hn, ha, hr, -⟩ := mem_modify.mp hm
    rw [hr, ha, h.count n hn]

/-- The values after `acquire`: those before, and the new one where none fitted. -/
theorem mem_acquire {fits : N → Bool} {fresh : Nat} {v : N} {l : List (Node N)} {m : Node N}
    (hm : m ∈ (acquire fits fresh v l).1) :
    (∃ n ∈ l, n.addr = m.addr ∧ n.val = m.val) ∨ (m = ⟨fresh, v, 1⟩ ∧ ∀ n ∈ l, fits n.val = false) := by
  rw [Refcount.acquire] at hm
  cases hb : bump fits l with
  | none =>
    rw [hb, Option.getD_none, List.mem_cons] at hm
    rcases hm with rfl | hm
    · exact Or.inr ⟨rfl, bump_eq_none.mp hb⟩
    · exact Or.inl ⟨m, hm, rfl, rfl⟩
  | some r =>
    obtain ⟨pre, n, post, rfl, -, -, -, hl⟩ := bump_spec hb
    rw [hb, Option.getD_some, hl, List.mem_append, List.mem_cons] at hm
    rcases hm with hm | rfl | hm
    · exact Or.inl ⟨m, List.mem_append_left _ hm, rfl, rfl⟩
    · exact Or.inl ⟨n, by simp, rfl, rfl⟩
    · exact Or.inl ⟨m, by simp [hm], rfl, rfl⟩

/-- Every node stays through `acquire`. -/
theorem mem_acquire_of_mem (fits : N → Bool) (fresh : Nat) (v : N) {l : List (Node N)} {n : Node N} (hn : n ∈ l) :
    ∃ m ∈ (acquire fits fresh v l).1, m.addr = n.addr ∧ m.val = n.val := by
  rw [Refcount.acquire]
  cases hb : bump fits l with
  | none => exact ⟨n, List.mem_cons_of_mem _ hn, rfl, rfl⟩
  | some r =>
    obtain ⟨pre, k, post, rfl, -, -, -, hl⟩ := bump_spec hb
    rw [Option.getD_some, hl]
    rcases List.mem_append.mp hn with hn | hn
    · exact ⟨n, List.mem_append_left _ hn, rfl, rfl⟩
    · rcases List.mem_cons.mp hn with rfl | hn
      · exact ⟨_, List.mem_append_right _ List.mem_cons_self, rfl, rfl⟩
      · exact ⟨n, by simp [hn], rfl, rfl⟩

/-- The node `acquire` gives fits, or is the new one. -/
theorem acquire_fits (fits : N → Bool) (fresh : Nat) {v : N} (hv : fits v = true) (l : List (Node N)) :
    ∃ m ∈ (acquire fits fresh v l).1, m.addr = (acquire fits fresh v l).2 ∧ fits m.val = true := by
  rw [Refcount.acquire]
  cases hb : bump fits l with
  | none => exact ⟨_, List.mem_cons_self, rfl, hv⟩
  | some r =>
    obtain ⟨pre, n, post, rfl, -, hf, ha, hl⟩ := bump_spec hb
    rw [Option.getD_some, hl, ha]
    exact ⟨_, List.mem_append_right _ List.mem_cons_self, rfl, hf⟩

/-- The values after `release` were there before. -/
theorem mem_release {fits : Node N → Bool} {l : List (Node N)} {m : Node N} (hm : m ∈ release fits l) :
    ∃ n ∈ l, n.addr = m.addr ∧ n.val = m.val := by
  induction l with
  | nil => cases hm
  | cons n l ih =>
    rw [release] at hm
    split at hm
    next =>
      split at hm
      next => exact ⟨m, List.mem_cons_of_mem _ hm, rfl, rfl⟩
      next =>
        rcases List.mem_cons.mp hm with rfl | hm
        · exact ⟨n, List.mem_cons_self, rfl, rfl⟩
        · exact ⟨m, List.mem_cons_of_mem _ hm, rfl, rfl⟩
    next =>
      rcases List.mem_cons.mp hm with rfl | hm
      · exact ⟨m, List.mem_cons_self, rfl, rfl⟩
      · obtain ⟨k, hk, he⟩ := ih hm
        exact ⟨k, List.mem_cons_of_mem _ hk, he⟩

end Lib.Refcount
