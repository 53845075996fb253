import Mathlib.Order.Lattice
import Mathlib.Data.List.Basic

/-!
# Groups of rows between fences

A list of groups of rows with a key between each two neighbours, a fence: what is in front of a fence has keys up to
it, what is behind has larger keys. Unlike a separator that is the largest key in front of it, a fence stays one when
rows are taken out. A group can be looked up by its fences alone.
-/

namespace Lib.Fences

variable {α κ : Type*} [LinearOrder κ] {key : α → κ} {r r' l l' q q' : List α} {rs rs' a b : List (List α)} {x y k : κ}
  {xs ys : List κ} {c e : α}

/-- The groups `rs` with the fences `xs` between them. -/
def Fenced (key : α → κ) : List (List α) → List κ → Prop
  | [_], [] => True
  | r :: rs, x :: xs =>
    (∀ c ∈ r, key c ≤ x) ∧ (∀ c ∈ rs.flatten, x < key c) ∧ (∀ y ∈ xs, x ≤ y) ∧ Fenced key rs xs
  | _, _ => False

/-- Rows up to a fence, and rows behind it. -/
structure Fence (key : α → κ) (front : List (List α)) (x : κ) (behind : List (List α)) : Prop where
  front : ∀ c ∈ front.flatten, key c ≤ x
  behind : ∀ c ∈ behind.flatten, x < key c

@[simp] theorem fenced_singleton : Fenced key [r] [] := trivial

theorem fenced_cons : Fenced key (r :: rs) (x :: xs) ↔
    (∀ c ∈ r, key c ≤ x) ∧ (∀ c ∈ rs.flatten, x < key c) ∧ (∀ y ∈ xs, x ≤ y) ∧ Fenced key rs xs := by
  cases rs <;> rfl

theorem Fenced.length (h : Fenced key rs xs) : rs.length = xs.length + 1 := by
  induction xs generalizing rs with
  | nil =>
    match rs, h with
    | [r], _ => rfl
  | cons x xs ih =>
    cases rs with
    | nil => exact h.elim
    | cons r rs =>
      rw [List.length_cons, List.length_cons, ih (fenced_cons.mp h).2.2.2]

/-- The groups in front of a fence, the fence, and the groups behind it. -/
theorem fenced_append (hlen : a.length = xs.length + 1) : Fenced key (a ++ b) (xs ++ x :: ys) ↔
    Fenced key a xs ∧ Fenced key b ys ∧ Fence key a x b ∧ (∀ y ∈ xs, y ≤ x) ∧ ∀ y ∈ ys, x ≤ y := by
  induction xs generalizing a with
  | nil =>
    obtain ⟨r, rfl⟩ := List.length_eq_one_iff.mp hlen
    rw [List.nil_append, List.singleton_append, fenced_cons]
    constructor
    · rintro ⟨hr, hb, hy, hf⟩
      exact ⟨trivial, hf, ⟨by simpa using hr, hb⟩, by simp, hy⟩
    · rintro ⟨-, hf, hx, -, hy⟩
      exact ⟨by simpa using hx.front, hx.behind, hy, hf⟩
  | cons z zs ih =>
    match a, hlen with
    | r :: rs, hlen =>
      have hlen' : rs.length = zs.length + 1 := by simpa using hlen
      rw [List.cons_append, List.cons_append, fenced_cons, ih hlen', fenced_cons]
      constructor
      · rintro ⟨hr, hb, hz, ha, hf, hx, hle, hy⟩
        have hzx : z ≤ x := hz x (List.mem_append_right _ List.mem_cons_self)
        refine ⟨⟨hr, fun c hc => hb c ?_, fun y hy => hz y (List.mem_append_left _ hy), ha⟩, hf, ⟨fun c hc => ?_, hx.behind⟩,
          fun y hy => ?_, hy⟩
        · rw [List.flatten_append]
          exact List.mem_append_left _ hc
        · rw [List.flatten_cons] at hc
          rcases List.mem_append.mp hc with hc | hc
          · exact le_trans (hr c hc) hzx
          · exact hx.front c hc
        · rcases List.mem_cons.mp hy with rfl | hy
          · exact hzx
          · exact hle y hy
      · rintro ⟨⟨hr, ha, hz, hrs⟩, hf, hx, hle, hy⟩
        have hzx := hle z List.mem_cons_self
        refine ⟨hr, fun c hc => ?_, fun y hym => ?_, hrs, hf, ⟨fun c hc => hx.front c ?_, hx.behind⟩,
          fun y hy => hle y (List.mem_cons_of_mem _ hy), hy⟩
        · rw [List.flatten_append] at hc
          rcases List.mem_append.mp hc with hc | hc
          · exact ha c hc
          · exact lt_of_le_of_lt hzx (hx.behind c hc)
        · rcases List.mem_append.mp hym with hym | hym
          · exact hz y hym
          · rcases List.mem_cons.mp hym with rfl | hym
            · exact hzx
            · exact le_trans hzx (hy y hym)
        · rw [List.flatten_cons]
          exact List.mem_append_right _ hc

theorem mem_flatten_shrink (hr : r' ⊆ r) (hc : c ∈ (a ++ r' :: b).flatten) : c ∈ (a ++ r :: b).flatten := by
  obtain ⟨g, hg, hcg⟩ := List.mem_flatten.mp hc
  rcases List.mem_append.mp hg with hg | hg
  · exact List.mem_flatten.mpr ⟨g, List.mem_append_left _ hg, hcg⟩
  · rcases List.mem_cons.mp hg with rfl | hg
    · exact List.mem_flatten.mpr ⟨r, List.mem_append_right _ List.mem_cons_self, hr hcg⟩
    · exact List.mem_flatten.mpr ⟨g, List.mem_append_right _ (List.mem_cons_of_mem _ hg), hcg⟩

/-- Fences stay fences when rows of a group are taken out. -/
theorem Fenced.shrink (h : Fenced key (a ++ r :: b) xs) (hr : r' ⊆ r) : Fenced key (a ++ r' :: b) xs := by
  induction a generalizing xs with
  | nil =>
    cases xs with
    | nil =>
      cases b with
      | nil => trivial
      | cons g b => exact h.elim
    | cons x xs =>
      obtain ⟨h₁, h₂⟩ := fenced_cons.mp h
      exact fenced_cons.mpr ⟨fun c hc => h₁ c (hr hc), h₂⟩
  | cons g a ih =>
    cases xs with
    | nil => cases a <;> exact h.elim
    | cons x xs =>
      obtain ⟨h₁, h₂, h₃, h₄⟩ := fenced_cons.mp h
      exact fenced_cons.mpr ⟨h₁, fun c hc => h₂ c (mem_flatten_shrink hr hc), h₃, ih h₄⟩

/-- The fences in front of a row and those behind it. -/
theorem Fenced.around (h : Fenced key (a ++ r :: b) (xs ++ ys)) (hlen : a.length = xs.length) (hc : c ∈ r) :
    (∀ x ∈ xs, x < key c) ∧ ∀ y ∈ ys, key c ≤ y := by
  induction xs generalizing a with
  | nil =>
    obtain rfl := List.length_eq_zero_iff.mp hlen
    refine ⟨fun x hx => absurd hx List.not_mem_nil, fun y hy => ?_⟩
    cases ys with
    | nil => exact absurd hy List.not_mem_nil
    | cons x ys =>
      obtain ⟨h₁, -, h₃, -⟩ := fenced_cons.mp h
      rcases List.mem_cons.mp hy with rfl | hy
      · exact h₁ c hc
      · exact le_trans (h₁ c hc) (h₃ y hy)
  | cons x xs ih =>
    match a, hlen with
    | g :: a, hlen =>
      obtain ⟨-, h₂, -, h₄⟩ := fenced_cons.mp h
      obtain ⟨hx, hy⟩ := ih h₄ (Nat.succ.inj hlen)
      refine ⟨fun y hm => ?_, hy⟩
      rcases List.mem_cons.mp hm with rfl | hm
      · exact h₂ c (List.mem_flatten.mpr ⟨r, List.mem_append_right _ List.mem_cons_self, hc⟩)
      · exact hx y hm

/-- The keys ascend from group to group. -/
theorem Fenced.lt (h : Fenced key (a ++ r :: b) xs) (hc : c ∈ a.flatten) (he : e ∈ r) : key c < key e := by
  induction a generalizing xs with
  | nil => exact absurd hc List.not_mem_nil
  | cons g a ih =>
    cases xs with
    | nil => cases a <;> exact h.elim
    | cons x xs =>
      obtain ⟨h₁, h₂, -, h₄⟩ := fenced_cons.mp h
      rw [List.flatten_cons] at hc
      rcases List.mem_append.mp hc with hc | hc
      · exact lt_of_le_of_lt (h₁ c hc) (h₂ e (List.mem_flatten.mpr ⟨r, List.mem_append_right _ List.mem_cons_self, he⟩))
      · exact ih h₄ hc

/-- A fence may be lowered to the largest key that is left in front of it. -/
theorem Fenced.lower (h : Fenced key (a ++ r :: b) (xs ++ x :: ys)) (hlen : a.length = xs.length) (hr : r' ⊆ r)
    (he : e ∈ r') (hmax : ∀ c ∈ r', key c ≤ key e) : Fenced key (a ++ r' :: b) (xs ++ key e :: ys) := by
  have hsplit : ∀ g : List α, a ++ g :: b = (a ++ [g]) ++ b := fun g => by rw [List.append_assoc, List.singleton_append]
  have hcount : ∀ g : List α, (a ++ [g]).length = xs.length + 1 := fun g => by
    rw [List.length_append, List.length_singleton, hlen]
  obtain ⟨hfront, hback⟩ := h.around hlen (hr he)
  have hlt := fun c (hc : c ∈ a.flatten) => h.lt hc (hr he)
  rw [hsplit, fenced_append (hcount r)] at h
  obtain ⟨ha, hb, hx, -, hy⟩ := h
  have hle : key e ≤ x := hback x List.mem_cons_self
  rw [hsplit, fenced_append (hcount r')]
  refine ⟨ha.shrink hr, hb, ⟨fun c hc => ?_, fun c hc => lt_of_le_of_lt hle (hx.behind c hc)⟩,
    fun y hy => le_of_lt (hfront y hy), fun y hm => le_trans hle (hy y hm)⟩
  rw [List.flatten_append, List.flatten_singleton] at hc
  rcases List.mem_append.mp hc with hc | hc
  · exact le_of_lt (hlt c hc)
  · exact hmax c hc

theorem Fenced.gt (h : Fenced key (a ++ r :: b) xs) (he : e ∈ r) (hc : c ∈ b.flatten) : key e < key c := by
  obtain ⟨g, hg, hcg⟩ := List.mem_flatten.mp hc
  obtain ⟨b₁, b₂, rfl⟩ := List.append_of_mem hg
  have hsplit : a ++ r :: (b₁ ++ g :: b₂) = (a ++ r :: b₁) ++ g :: b₂ := by rw [List.append_assoc, List.cons_append]
  rw [hsplit] at h
  exact h.lt (List.mem_flatten.mpr ⟨r, List.mem_append_right _ List.mem_cons_self, he⟩) hcg

/-! ## Two neighbours -/

/-- The first group may have other rows up to the fences. -/
theorem Fenced.head (h : Fenced key (r :: b) xs) (hr : ∀ c ∈ r', ∀ x ∈ xs, key c ≤ x) : Fenced key (r' :: b) xs := by
  cases xs with
  | nil =>
    cases b with
    | nil => trivial
    | cons g b => exact h.elim
  | cons x xs =>
    obtain ⟨-, h₂⟩ := fenced_cons.mp h
    exact fenced_cons.mpr ⟨fun c hc => hr c hc x List.mem_cons_self, h₂⟩

/-- The last group may have other rows behind the fences. -/
theorem Fenced.last (h : Fenced key (a ++ [r]) xs) (hr : ∀ c ∈ r', ∀ x ∈ xs, x < key c) : Fenced key (a ++ [r']) xs := by
  induction a generalizing xs with
  | nil =>
    cases xs with
    | nil => trivial
    | cons x xs => exact (fenced_cons.mp h).2.2.2.elim
  | cons g a ih =>
    cases xs with
    | nil => cases a <;> exact h.elim
    | cons x xs =>
      obtain ⟨h₁, h₂, h₃, h₄⟩ := fenced_cons.mp h
      refine fenced_cons.mpr ⟨h₁, fun c hc => ?_, h₃, ih h₄ fun c hc y hy => hr c hc y (List.mem_cons_of_mem _ hy)⟩
      obtain ⟨k, hk, hck⟩ := List.mem_flatten.mp hc
      rcases List.mem_append.mp hk with hk | hk
      · exact h₂ c (List.mem_flatten.mpr ⟨k, List.mem_append_left _ hk, hck⟩)
      · obtain rfl := List.mem_singleton.mp hk
        exact hr c hck x List.mem_cons_self

/-- Where a row of two neighbours lies between the other groups. -/
theorem Fenced.between (h : Fenced key (a ++ l :: q :: b) (xs ++ x :: ys)) (hlen : a.length = xs.length)
    (he : e ∈ l ++ q) : (∀ y ∈ xs, y < key e) ∧ (∀ y ∈ ys, key e ≤ y) ∧ (∀ c ∈ a.flatten, key c < key e) ∧
      ∀ c ∈ b.flatten, key e < key c := by
  have hsplit : a ++ l :: q :: b = (a ++ [l]) ++ q :: b := by rw [List.append_assoc, List.singleton_append]
  have hfences : xs ++ x :: ys = (xs ++ [x]) ++ ys := by rw [List.append_assoc, List.singleton_append]
  rcases List.mem_append.mp he with he | he
  · obtain ⟨hfront, hback⟩ := h.around hlen he
    refine ⟨hfront, fun y hy => hback y (List.mem_cons_of_mem _ hy), fun c hc => h.lt hc he, fun c hc => h.gt he ?_⟩
    rw [List.flatten_cons]
    exact List.mem_append_right _ hc
  · rw [hsplit, hfences] at h
    obtain ⟨hfront, hback⟩ := h.around (by rw [List.length_append, List.length_append, hlen]; rfl) he
    refine ⟨fun y hy => hfront y (List.mem_append_left _ hy), hback, fun c hc => h.lt ?_ he, fun c hc => h.gt he hc⟩
    rw [List.flatten_append]
    exact List.mem_append_left _ hc

/-- The rows of two neighbours may be divided at another row, whose key is the fence then. -/
theorem Fenced.regroup (h : Fenced key (a ++ l :: q :: b) (xs ++ x :: ys)) (hlen : a.length = xs.length)
    (heq : l' ++ q' = l ++ q) (he : e ∈ l') (hl : ∀ c ∈ l', key c ≤ key e) (hq : ∀ c ∈ q', key e < key c) :
    Fenced key (a ++ l' :: q' :: b) (xs ++ key e :: ys) := by
  have hsplit : ∀ g g' : List α, a ++ g :: g' :: b = (a ++ [g]) ++ g' :: b := fun g g' => by
    rw [List.append_assoc, List.singleton_append]
  have hcount : ∀ g : List α, (a ++ [g]).length = xs.length + 1 := fun g => by
    rw [List.length_append, List.length_singleton, hlen]
  have hmem : ∀ c ∈ l' ++ q', c ∈ l ++ q := fun c hc => heq ▸ hc
  have hin := fun c (hc : c ∈ l' ++ q') => h.between hlen (hmem c hc)
  obtain ⟨hxs, hys, ha, hb⟩ := hin e (List.mem_append_left _ he)
  rw [hsplit, fenced_append (hcount l)] at h
  obtain ⟨hfront, hbehind, -⟩ := h
  rw [hsplit, fenced_append (hcount l')]
  refine ⟨hfront.last fun c hc => (hin c (List.mem_append_left _ hc)).1,
    hbehind.head fun c hc => (hin c (List.mem_append_right _ hc)).2.1, ⟨fun c hc => ?_, fun c hc => ?_⟩,
    fun y hy => le_of_lt (hxs y hy), hys⟩
  · rw [List.flatten_append, List.flatten_singleton] at hc
    rcases List.mem_append.mp hc with hc | hc
    · exact le_of_lt (ha c hc)
    · exact hl c hc
  · rw [List.flatten_cons] at hc
    rcases List.mem_append.mp hc with hc | hc
    · exact hq c hc
    · exact hb c hc

/-- Two neighbours may become one group. -/
theorem Fenced.merge (h : Fenced key (a ++ l :: q :: b) (xs ++ x :: ys)) (hlen : a.length = xs.length) :
    Fenced key (a ++ (l ++ q) :: b) (xs ++ ys) := by
  have hin := fun c (hc : c ∈ l ++ q) => h.between hlen hc
  have hsplit : ∀ g g' : List α, a ++ g :: g' :: b = (a ++ [g]) ++ g' :: b := fun g g' => by
    rw [List.append_assoc, List.singleton_append]
  have hcount : (a ++ [l]).length = xs.length + 1 := by rw [List.length_append, List.length_singleton, hlen]
  rw [hsplit, fenced_append hcount] at h
  obtain ⟨hfront, hbehind, hx, hle, hge⟩ := h
  have hlast : Fenced key (a ++ [l ++ q]) xs := hfront.last fun c hc => (hin c hc).1
  have hhead : Fenced key ((l ++ q) :: b) ys := hbehind.head fun c hc => (hin c hc).2.1
  cases ys with
  | nil =>
    cases b with
    | nil =>
      rw [List.append_nil]
      exact hlast
    | cons g b => exact hhead.elim
  | cons y ys =>
    obtain ⟨h₁, h₂, h₃, h₄⟩ := fenced_cons.mp hhead
    have happ : a ++ (l ++ q) :: b = (a ++ [l ++ q]) ++ b := by rw [List.append_assoc, List.singleton_append]
    rw [happ, fenced_append (by rw [List.length_append, List.length_singleton, hlen])]
    refine ⟨hlast, h₄, ⟨fun c hc => ?_, h₂⟩, fun z hz => le_trans (hle z hz) (hge y List.mem_cons_self), h₃⟩
    rw [List.flatten_append, List.flatten_singleton] at hc
    rcases List.mem_append.mp hc with hc | hc
    · refine le_trans (hx.front c ?_) (hge y List.mem_cons_self)
      rw [List.flatten_append]
      exact List.mem_append_left _ hc
    · exact h₁ c hc

end Lib.Fences
