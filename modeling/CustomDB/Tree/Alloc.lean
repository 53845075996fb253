import CustomDB.Tree.Context

/-!
# Stores to the pages of a tree

A store to a page the file has is `put`; a page handed out is a new one. `Extends` is what every part of an
insertion keeps.
-/

namespace CustomDB

namespace Tree

variable {C : Type}

/-- Page `p` holds `n`. -/
def Store.put (s : Store C) (p : Nat) (n : Node C) : Store C := { s with node := Function.update s.node p n }

/-- The node under another parent. -/
def Node.under (n : Node C) (q : Nat) : Node C := { n with parent := q }

/-- Pages handed out stay so, and the leaves of before keep their places in the chain. -/
structure Extends (s s' : Store C) : Prop where
  taken : ∀ q, Taken s q → Taken s' q
  nextLeaf : ∀ q, Taken s q → (s'.node q).nextLeaf = (s.node q).nextLeaf
  root : s'.rootPageNum = s.rootPageNum

variable {s s' s'' : Store C} {n m : Node C} {p q k : Nat} {f : Node C → Node C}

/-! ## Stores -/

@[simp] theorem put_node_same : (s.put p n).node p = n := Function.update_self ..

@[simp] theorem put_node_of_ne (h : q ≠ p) : (s.put p n).node q = s.node q := Function.update_of_ne h ..

@[simp] theorem put_put_same : (s.put p n).put p m = s.put p m := by
  unfold Store.put
  dsimp only
  rw [Function.update_idem]

@[simp] theorem put_root : (s.put p n).rootPageNum = s.rootPageNum := rfl

@[simp] theorem taken_put : Taken (s.put p n) q ↔ Taken s q := Iff.rfl

theorem Allocates.put (h : Allocates s k) : Allocates (s.put p n) k := ⟨h.nodup, h.free, h.reserved, h.room⟩

theorem getPage_of_taken (h : Taken s p) : s.getPage p = s := by
  have hmax : max s.numPages (p + 1) = s.numPages := by
    have := h.2.1
    omega
  unfold Store.getPage
  rw [hmax]

theorem modify_of_taken (h : Taken s p) : s.modify p f = s.put p (f (s.node p)) := by
  unfold Store.modify
  rw [getPage_of_taken h]
  rfl

theorem setParent_of_taken (h : Taken s p) : s.setParent p q = s.put p ((s.node p).under q) :=
  modify_of_taken h

theorem modify_getPage : s.modify p f = (s.getPage p).put p (f (s.node p)) := rfl

theorem node_modify_of_ne (h : q ≠ p) : (s.modify p f).node q = s.node q := Function.update_of_ne h ..

@[simp] theorem getPage_node : (s.getPage p).node = s.node := rfl

@[simp] theorem getPage_root : (s.getPage p).rootPageNum = s.rootPageNum := rfl

/-! ## What an insertion keeps -/

theorem Extends.refl (s : Store C) : Extends s s := ⟨fun _ h => h, fun _ _ => rfl, rfl⟩

theorem Extends.trans (h : Extends s s') (h' : Extends s' s'') : Extends s s'' :=
  ⟨fun q hq => h'.taken q (h.taken q hq), fun q hq => (h'.nextLeaf q (h.taken q hq)).trans (h.nextLeaf q hq),
    h'.root.trans h.root⟩

theorem Extends.put (hn : n.nextLeaf = (s.node p).nextLeaf) : Extends s (s.put p n) := by
  refine ⟨fun _ h => h, fun q _ => ?_, rfl⟩
  by_cases hq : q = p
  · rw [hq, put_node_same, hn]
  · rw [put_node_of_ne hq]

/-- A page that was not handed out may hold anything. -/
theorem Extends.put_new (hp : ¬ Taken s p) : Extends s (s.put p n) := by
  refine ⟨fun _ h => h, fun q hq => ?_, rfl⟩
  have hne : q ≠ p := fun h => hp (h ▸ hq)
  rw [put_node_of_ne hne]

/-! ## The allocator -/

theorem Allocates.valid (h : Allocates s k) (hp : Taken s p) : p ≠ 0 ∧ p ≠ invalidPageNum := by
  have := h.room
  have := hp.2.1
  exact ⟨hp.1, by omega⟩

theorem Allocates.mono {j : Nat} (h : Allocates s k) (hj : j ≤ k) : Allocates s j :=
  ⟨h.nodup, h.free, h.reserved, by have := h.room; omega⟩

/-- The page handed out is a new one. -/
structure Fresh (s : Store C) (p : Nat) (s' : Store C) (k : Nat) : Prop where
  new : ¬ Taken s p
  taken : Taken (s'.getPage p) p
  keeps : ∀ q, Taken s q → Taken (s'.getPage p) q
  node : ∀ q, q ≠ p → s'.node q = s.node q
  root : s'.rootPageNum = s.rootPageNum
  allocates : Allocates (s'.getPage p) k

theorem getUnusedPageNum_fresh (h : Allocates s (k + 1)) :
    Fresh s s.getUnusedPageNum.1 s.getUnusedPageNum.2 k := by
  have hroom := h.room
  have hres := h.reserved
  unfold Store.getUnusedPageNum
  cases hf : s.freelist with
  | nil =>
    have hnone : ∀ q, q ∉ s.freelist := fun q hq => List.not_mem_nil (hf ▸ hq)
    refine ⟨fun hp => ?_, ⟨?_, ?_, hnone _⟩, fun q hq => ⟨hq.1, ?_, hnone _⟩, fun _ _ => rfl, rfl,
      ⟨h.nodup, fun q hq => absurd hq (hnone q), hres, ?_⟩⟩
    · have := hp.2.1
      dsimp only at this
      omega
    · dsimp only
      omega
    · dsimp only [Store.getPage]
      omega
    · have := hq.2.1
      dsimp only [Store.getPage]
      omega
    · dsimp only [Store.getPage]
      omega
  | cons p rest =>
    have hnd := h.nodup
    have hfree := h.free
    rw [hf] at hnd hfree
    obtain ⟨hp, hnd⟩ := List.nodup_cons.mp hnd
    have hpf := hfree p (List.mem_cons_self ..)
    have hsub : ∀ q ∈ p :: rest, q ∈ s.freelist := fun q hq => by rwa [hf]
    refine ⟨fun ht => ht.2.2 (hsub p (List.mem_cons_self ..)), ⟨hpf.1, ?_, hp⟩, fun q hq => ⟨hq.1, ?_, fun hm => ?_⟩,
      fun q hq => Function.update_of_ne hq _ _, rfl, ⟨hnd, fun q hq => ?_, hres, ?_⟩⟩
    · dsimp only [Store.getPage]
      omega
    · have := hq.2.1
      dsimp only [Store.getPage]
      omega
    · exact hq.2.2 (hsub q (List.mem_cons_of_mem _ hm))
    · have := hfree q (List.mem_cons_of_mem _ hq)
      exact ⟨this.1, lt_of_lt_of_le this.2 (le_max_left _ _)⟩
    · have := hpf.2
      dsimp only [Store.getPage]
      omega

theorem Fresh.extends (h : Fresh s p s' k) : Extends s (s'.getPage p) := by
  refine ⟨h.keeps, fun q hq => ?_, h.root⟩
  rw [getPage_node, h.node q fun hn => h.new (hn ▸ hq)]

end Tree

end CustomDB
