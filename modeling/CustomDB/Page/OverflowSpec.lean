import CustomDB.Page.Overflow
import CustomDB.Page.Split
import CustomDB.Pager.Access

/-!
# Large rows round trip

The chain a record is written to is read back whatever happens to other pages, and freed page by page. What the
allocator does in between is one `Access` or `Allots` for each page.
-/

namespace CustomDB

namespace Page

open Lib Lib.Bytes Lib.Memory Pager

variable {s s' s₁ : Pager Block} {l m m' ps : List Nat} {p prev first n : Nat} {data chunk : List UInt8}

/-! ## Writing -/

/-- The allocator can hand out `n` pages before page numbers, or the length of the file, leave their 32 bits. -/
def Room (s : Pager Block) (n : Nat) : Prop :=
  max s.numPages s.reservedCatalogPages + n < if s.isMemory then invalidPageNum else fileLengthWrap

theorem Room.placed (h : Room s n) (hp : p < max s.numPages s.reservedCatalogPages + n) : s.Placed p := by
  intro hm
  rw [Room, hm, if_neg Bool.false_ne_true] at h
  omega

theorem Room.lt (h : Room s n) (hp : p < max s.numPages s.reservedCatalogPages + n) : p < invalidPageNum := by
  refine lt_trans hp (lt_of_lt_of_le h ?_)
  split
  · exact le_refl _
  · decide

/-- The pages `ps`, handed out one after the other and linked behind `prev`, the pages of the free list `l` first. -/
structure Extended (s s' : Pager Block) (prev : Nat) (ps l : List Nat) : Prop where
  works : Works s s'
  steady : Steady s'
  isMemory : s'.isMemory = s.isMemory
  others : ∀ q, q ∉ ps → q ≠ prev → q ≠ 0 → Undisturbed q s s' ∧ s'.view q = s.view q
  zero : HeadStored s s'
  link : prev ≠ 0 → s'.view prev = if ps = [] then s.view prev else setNext (ps.headD 0) (s.view prev)
  list : s'.FreeList (l.drop ps.length)
  nodup : ps.Nodup
  fresh : ∀ p ∈ ps, p ≠ 0 ∧ s.reservedCatalogPages ≤ p ∧ p < s'.numPages ∧ p ≠ prev ∧ p ∉ l.drop ps.length ∧
    (p ∈ l ∨ s.numPages ≤ p)
  le : max s'.numPages s.reservedCatalogPages ≤ max s.numPages s.reservedCatalogPages + ps.length

/-- One turn of the loop. -/
theorem extend_one (h : Steady s) (hl : s.FreeList l) (hnd : l.Nodup) (hlt : ∀ q ∈ l, q < s.numPages)
    (hprev : prev ≠ 0 → prev < s.numPages ∧ prev ∉ l) (hcat : 0 < s.reservedCatalogPages) (hroom : Room s (n + 1))
    (chunk : List UInt8) (hs' : s' = (let r := s.getUnusedPageNum
      let t := (r.2.pagerJournalPage r.1).modify r.1 fun _ => overflowPage chunk
      if prev = 0 then t else t.modify prev (setNext r.1))) :
    Extended s s' prev [s.getUnusedPageNum.1] l ∧ s'.view s.getUnusedPageNum.1 = overflowPage chunk := by
  have hplaced : ∀ q, q < max s.numPages s.reservedCatalogPages + 1 → s.Placed q := fun q hq => hroom.placed (by omega)
  obtain ⟨ha, hm, hcase⟩ := h.unused hl hnd hlt fun q hq => hplaced q (by omega)
  generalize hr : s.getUnusedPageNum = r at ha hm hcase hs' ⊢
  obtain ⟨p, s₀⟩ := r
  dsimp only at ha hm hcase hs' ⊢
  -- the page that is handed out
  obtain ⟨hp0, hres, hpm, hpprev, hpin⟩ : p ≠ 0 ∧ s.reservedCatalogPages ≤ p ∧ p ∉ l.drop 1 ∧ p ≠ prev ∧
      (p ∈ l ∨ s.numPages ≤ p) := by
    rcases hcase with hpl | ⟨rfl, he⟩
    · have hmem : p ∈ l := by
        rw [hpl]
        exact List.mem_cons_self
      have hends := Linked.Chain.mem_not_ends hl hmem
      unfold EndsList at hends
      rw [hpl] at hnd
      refine ⟨by omega, by omega, (List.nodup_cons.mp hnd).1, ?_, Or.inl hmem⟩
      rintro rfl
      exact (hprev (by omega)).2 hmem
    · obtain ⟨rfl, rfl⟩ := Prod.mk.inj he
      refine ⟨by omega, by omega, List.not_mem_nil, ?_, Or.inr (le_max_left _ _)⟩
      rintro rfl
      have := (hprev (by omega)).1
      omega
  have hpmax : p < max s.numPages s.reservedCatalogPages + 1 := by
    rcases hcase with hpl | ⟨rfl, he⟩
    · have := hlt p (by rw [hpl]; exact List.mem_cons_self)
      omega
    · rw [(Prod.mk.inj he).1]
      omega
  obtain ⟨hj, hjv⟩ := ha.steady.journal (p := p) fun hmem => hplaced p hpmax (ha.isMemory ▸ hmem)
  obtain ⟨hw, hwv, hwlt⟩ := hj.steady.write (p := p) (fun hmem => hplaced p hpmax (ha.isMemory ▸ hj.isMemory ▸ hmem))
    fun _ => overflowPage chunk
  have hacc := hj.trans hw
  generalize (s₀.pagerJournalPage p).modify p (fun _ => overflowPage chunk) = t at hw hwv hwlt hacc hs'
  have hle : t.numPages ≤ max s.numPages (p + 1) := le_trans hacc.le (max_le ha.le (le_max_right ..))
  have hview : ∀ q, q ≠ p → q ≠ 0 → t.view q = s.view q := fun q hq h0 => (hacc.view q hq).trans (ha.view q hq h0)
  have hothers : ∀ q, q ≠ p → q ≠ 0 → Undisturbed q s t := fun q hq h0 => (ha.others q hq h0).trans (hacc.others q hq h0)
  have hmemory : t.isMemory = s.isMemory := hacc.isMemory.trans ha.isMemory
  have hzero : HeadStored s t := HeadStored.trans (ha.zero hp0) (Or.inl ⟨hacc.view 0 hp0.symm, hacc.head⟩)
  have hlink : ∀ q ∈ l.drop 1, q ≠ p ∧ (prev ≠ 0 → q ≠ prev) := fun q hq =>
    ⟨fun he => hpm (he ▸ hq), fun h0 he => (hprev h0).2 (List.mem_of_mem_drop (he ▸ hq))⟩
  have hlist : t.FreeList (l.drop 1) := FreeList.next hm (hacc.works.reserved) hacc.head fun q hq =>
    congrArg (fun x : CustomDB.Page Block => PageBody.link x.body) (hacc.view q (hlink q hq).1)
  have hworks := ha.works.trans hacc.works
  by_cases hpz : prev = 0
  · rw [if_pos hpz] at hs'
    subst hs'
    refine ⟨⟨hworks, hacc.steady, hmemory, fun q hq _ h0 => ?_, hzero, fun hne => absurd hpz hne, hlist,
      List.nodup_singleton p, fun q hq => ?_, ?_⟩, hwv⟩
    · have hqp := fun he => hq (List.mem_singleton.mpr he)
      exact ⟨hothers q hqp h0, hview q hqp h0⟩
    · obtain rfl := List.mem_singleton.mp hq
      exact ⟨hp0, hres, hwlt, hpprev, hpm, hpin⟩
    · rw [List.length_singleton]
      omega
  · rw [if_neg hpz] at hs'
    have hprevt : prev < t.numPages := lt_of_lt_of_le (hprev hpz).1 hworks.numPages
    obtain ⟨hx, hxv, -⟩ := hacc.steady.write (p := prev) (fun hmem => hplaced prev (by have := (hprev hpz).1; omega)
      (hmemory ▸ hmem)) (setNext p)
    subst hs'
    have hge := hx.works.numPages
    have hle' := hx.le
    refine ⟨⟨hworks.trans hx.works, hx.steady, hx.isMemory.trans hmemory, fun q hq hqp h0 => ?_, ?_, fun _ => ?_,
      FreeList.next hlist hx.works.reserved hx.head fun q hq => ?_, List.nodup_singleton p, fun q hq => ?_, ?_⟩, ?_⟩
    · have hqne := fun he => hq (List.mem_singleton.mpr he)
      exact ⟨(hothers q hqne h0).trans (hx.others q hqp h0), (hx.view q hqp).trans (hview q hqne h0)⟩
    · exact HeadStored.trans hzero (Or.inl ⟨hx.view 0 (fun he => hpz he.symm), hx.head⟩)
    · rw [hxv, hview prev hpprev.symm hpz]
      rfl
    · exact congrArg (fun x : CustomDB.Page Block => PageBody.link x.body) (hx.view q ((hlink q hq).2 hpz))
    · obtain rfl := List.mem_singleton.mp hq
      exact ⟨hp0, hres, lt_of_lt_of_le hwlt hge, hpprev, hpm, hpin⟩
    · rw [List.length_singleton]
      omega
    · rw [hx.view p hpprev]
      exact hwv

theorem Extended.nil (h : Steady s) (hl : s.FreeList l) (prev : Nat) : Extended s s prev [] l :=
  ⟨Works.refl s, h, rfl, fun q _ _ _ => ⟨Undisturbed.refl q s, rfl⟩, Or.inl ⟨rfl, rfl⟩, fun _ => rfl, hl, List.nodup_nil, fun _ hq => (List.not_mem_nil hq).elim, le_refl _⟩

/-- A page, and the rest behind it. -/
theorem Extended.cons (h : Extended s s₁ prev [p] l) (h' : Extended s₁ s' p ps (l.drop 1))
    (hprev : prev ≠ 0 → prev < s.numPages ∧ prev ∉ l) : Extended s s' prev (p :: ps) l := by
  have hdrop : (l.drop 1).drop ps.length = l.drop (p :: ps).length := by
    rw [List.drop_drop, List.length_cons, Nat.add_comm]
  have hge := h.works.numPages
  have hge' := h'.works.numPages
  obtain ⟨hp0, hres, hplt, hpprev, hpm, hpin⟩ := h.fresh p (List.mem_singleton_self p)
  have hout : ∀ q ∈ ps, q ≠ prev := by
    rintro q hq rfl
    obtain ⟨h0, -, -, -, -, hin⟩ := h'.fresh q hq
    obtain ⟨hlt, hnl⟩ := hprev h0
    rcases hin with hin | hin
    · exact hnl (List.mem_of_mem_drop hin)
    · omega
  have hothers : ∀ q, q ∉ p :: ps → q ≠ prev → q ≠ 0 → Undisturbed q s s' ∧ s'.view q = s.view q := by
    intro q hq hqp h0
    obtain ⟨hne, hqps⟩ := not_or.mp (mt List.mem_cons.mpr hq)
    obtain ⟨hu, hv⟩ := h.others q (fun hn => hne (List.mem_singleton.mp hn)) hqp h0
    obtain ⟨hu', hv'⟩ := h'.others q hqps hne h0
    exact ⟨hu.trans hu', hv'.trans hv⟩
  refine ⟨h.works.trans h'.works, h'.steady, h'.isMemory.trans h.isMemory, hothers, HeadStored.trans h.zero h'.zero,
    fun h0 => ?_, hdrop ▸ h'.list, ?_, fun q hq => ?_, ?_⟩
  · rw [(h'.others prev (fun hn => hout prev hn rfl) hpprev.symm h0).2, h.link h0]
    rfl
  · exact List.nodup_cons.mpr ⟨fun hn => (h'.fresh p hn).2.2.2.1 rfl, h'.nodup⟩
  · rcases List.mem_cons.mp hq with rfl | hq
    · rw [← hdrop]
      exact ⟨hp0, hres, lt_of_lt_of_le hplt hge', hpprev, fun hn => hpm (List.mem_of_mem_drop hn), hpin⟩
    · obtain ⟨hq0, hqres, hqlt, -, hqm, hqin⟩ := h'.fresh q hq
      rw [h.works.reserved] at hqres
      rw [← hdrop]
      exact ⟨hq0, hqres, hqlt, hout q hq, hqm, hqin.imp List.mem_of_mem_drop fun hin => le_trans hge hin⟩
  · have hle := h.le
    have hle' := h'.le
    rw [h.works.reserved] at hle'
    rw [List.length_singleton] at hle
    rw [List.length_cons]
    omega

/-- The pages, linked from `first` on, hold the data. -/
def Held (s : Pager Block) : Nat → List Nat → List UInt8 → Prop
  | first, [], data => first = 0 ∧ data = []
  | first, p :: ps, data => first = p ∧ data ≠ [] ∧
      read (s.view p).body.rest overflowHeaderSize (min data.length overflowPayloadSize) = data.take overflowPayloadSize ∧
      Held s (s.view p).body.word ps (data.drop overflowPayloadSize)

theorem Held.congr (h : Held s first ps data) (hv : ∀ p ∈ ps, s'.view p = s.view p) : Held s' first ps data := by
  induction ps generalizing first data with
  | nil => exact h
  | cons p ps ih =>
    obtain ⟨hp, hne, hread, hrest⟩ := h
    refine ⟨hp, hne, ?_, ?_⟩
    · rw [hv p List.mem_cons_self]
      exact hread
    · rw [hv p List.mem_cons_self]
      exact ih hrest fun q hq => hv q (List.mem_cons_of_mem _ hq)

/-- The last page ends the chain. -/
theorem Held.last (h : Held s first ps data) (hne : ps ≠ []) (d : Nat) : (s.view (ps.getLastD d)).body.word = 0 := by
  induction ps generalizing first data d with
  | nil => exact absurd rfl hne
  | cons p ps ih =>
    rw [List.getLastD_cons]
    cases ps with
    | nil => exact h.2.2.2.1
    | cons q ps => exact ih h.2.2.2 (List.cons_ne_nil _ _) p

theorem Held.first_eq (h : Held s first ps data) : first = ps.headD 0 := by
  cases ps with
  | nil => exact h.1
  | cons p ps => exact h.1

/-- How many pages so many bytes take. -/
def overflowPages (len : Nat) : Nat := (len + (overflowPayloadSize - 1)) / overflowPayloadSize

theorem overflowPayload_eq : overflowPayloadSize = 4092 := rfl

/-- The loop writes the data to new pages behind `prev`. -/
theorem writeOverflowPages_spec (h : Steady s) (hl : s.FreeList l) (hnd : l.Nodup) (hlt : ∀ q ∈ l, q < s.numPages)
    (hprev : prev ≠ 0 → prev < s.numPages ∧ prev ∉ l) (hcat : 0 < s.reservedCatalogPages)
    (hn : overflowPages data.length = n) (hroom : Room s n) : ∃ ps s',
      writeOverflowPages s first prev data = (if first = 0 then ps.headD 0 else first, ps.getLastD prev, s') ∧
      ps.length = n ∧ Extended s s' prev ps l ∧ Held s' (ps.headD 0) ps data := by
  induction n generalizing s l prev first data with
  | zero =>
    have hnil : data = [] := List.eq_nil_of_length_eq_zero (by unfold overflowPages at hn; rw [overflowPayload_eq] at hn; omega)
    subst hnil
    refine ⟨[], s, ?_, rfl, Extended.nil h hl prev, rfl, rfl⟩
    rw [writeOverflowPages, if_pos rfl]
    split
    · next h0 => rw [h0]; rfl
    · rfl
  | succ n ih =>
    have hne : data ≠ [] := by
      rintro rfl
      cases hn
    rw [writeOverflowPages, if_neg hne]
    dsimp only
    generalize hs₁ : (if prev = 0 then _ else _ : Pager Block) = s₁
    obtain ⟨hx, hv⟩ := extend_one h hl hnd hlt hprev hcat hroom (data.take overflowPayloadSize) hs₁.symm
    generalize s.getUnusedPageNum.1 = p at hx hv ⊢
    obtain ⟨hp0, hres, hplt, hpprev, hpm, hpin⟩ := hx.fresh p (List.mem_singleton_self p)
    have hroom' : Room s₁ n := by
      have hle := hx.le
      rw [List.length_singleton] at hle
      unfold Room at hroom ⊢
      rw [hx.isMemory, hx.works.reserved]
      omega
    have hrest : overflowPages (data.drop overflowPayloadSize).length = n := by
      unfold overflowPages at hn ⊢
      rw [List.length_drop]
      rw [overflowPayload_eq] at hn ⊢
      omega
    obtain ⟨ps, s', heq, hlen, hx', hheld⟩ := @ih s₁ (l.drop 1) p (if first = 0 then p else first) _ hx.steady hx.list
      (hnd.sublist (List.drop_sublist ..)) (fun q hq => lt_of_lt_of_le (hlt q (List.mem_of_mem_drop hq)) hx.works.numPages)
      (fun _ => ⟨hplt, hpm⟩) (by rw [hx.works.reserved]; exact hcat) hrest hroom'
    refine ⟨p :: ps, s', ?_, ?_, hx.cons hx' hprev, rfl, hne, ?_, ?_⟩
    · rw [heq, List.getLastD_cons]
      by_cases h0 : first = 0
      · rw [if_pos h0, if_pos h0, if_neg hp0]
        rfl
      · rw [if_neg h0, if_neg h0, if_neg h0]
    · rw [List.length_cons, hlen]
    · rw [hx'.link hp0, hv]
      have hself := read_write_self (fun _ => 0) overflowHeaderSize (data.take overflowPayloadSize)
      rw [List.length_take, min_comm] at hself
      split <;> exact hself
    · rw [hx'.link hp0, hv]
      split
      · next hnil =>
        subst hnil
        exact hheld
      · exact hheld

theorem setNext_self (x : CustomDB.Page Block) (h : x.body.word = 0) : setNext 0 x = x := by
  obtain ⟨⟨w, rest⟩, lsn, head⟩ := x
  obtain rfl : w = 0 := h
  rfl

/-- `btree_write_overflow_chain`. The link it stores last is there already. -/
theorem btreeWriteOverflowChain_spec (h : Steady s) (hl : s.FreeList l) (hnd : l.Nodup) (hlt : ∀ q ∈ l, q < s.numPages)
    (hcat : 0 < s.reservedCatalogPages) (hroom : Room s (overflowPages data.length)) : ∃ ps s',
      btreeWriteOverflowChain s data = (ps.headD 0, s') ∧ ps.length = overflowPages data.length ∧ Extended s s' 0 ps l ∧
      Held s' (ps.headD 0) ps data := by
  obtain ⟨ps, s', heq, hlen, hx, hheld⟩ := @writeOverflowPages_spec s l 0 0 _ data h hl hnd hlt (fun h0 => absurd rfl h0) hcat
    rfl hroom
  unfold btreeWriteOverflowChain
  rw [heq]
  dsimp only
  by_cases hps : ps = []
  · subst hps
    exact ⟨[], s', rfl, hlen, hx, hheld⟩
  · have hmem : ps.getLastD 0 ∈ ps := by
      rw [List.getLastD_eq_getLast?, List.getLast?_eq_some_getLast hps]
      exact List.getLast_mem hps
    obtain ⟨hp0, -, hplt, -, hpl, -⟩ := hx.fresh _ hmem
    have hroom' := hx.le
    obtain ⟨ha, hv, -⟩ := hx.steady.write (p := ps.getLastD 0) (fun hm => by
      have := hx.steady.fits hm
      unfold Room at hroom
      rw [← hx.isMemory, hm, if_neg Bool.false_ne_true] at hroom
      omega) (setNext 0)
    rw [setNext_self _ (hheld.last hps 0)] at hv
    generalize s'.modify (ps.getLastD 0) (setNext 0) = s'' at ha hv
    have hview : ∀ q, s''.view q = s'.view q := fun q => by
      by_cases hq : q = ps.getLastD 0
      · rw [hq, hv]
      · exact ha.view q hq
    refine ⟨ps, s'', by rw [if_neg hp0]; rfl, hlen, ⟨hx.works.trans ha.works, ha.steady, ha.isMemory.trans hx.isMemory,
      fun q hq hqp h0 => ?_, HeadStored.trans hx.zero (Or.inl ⟨hview 0, ha.head⟩), fun h0 => absurd rfl h0,
      FreeList.next hx.list ha.works.reserved ha.head fun q _ => ?_, hx.nodup, fun q hq => ?_, ?_⟩, hheld.congr fun q _ => hview q⟩
    · obtain ⟨hu, hv'⟩ := hx.others q hq hqp h0
      exact ⟨hu.trans (ha.others q (fun he => hq (he ▸ hmem)) h0), (hview q).trans hv'⟩
    · exact congrArg (fun x : CustomDB.Page Block => PageBody.link x.body) (hview q)
    · obtain ⟨hq0, hres, hqlt, hrest⟩ := hx.fresh q hq
      exact ⟨hq0, hres, lt_of_lt_of_le hqlt ha.works.numPages, hrest⟩
    · have hle := ha.le
      omega

/-! ## Reading and freeing -/

/-- `btree_read_overflow_chain` reads what the chain holds. -/
theorem btreeReadOverflowChain_spec (h : Steady s) (hheld : Held s first ps data)
    (hps : ∀ p ∈ ps, p ≠ 0 ∧ p ≠ invalidPageNum ∧ s.Placed p) : (btreeReadOverflowChain s first data.length).1 = data := by
  induction ps generalizing s first data with
  | nil =>
    obtain ⟨rfl, rfl⟩ := hheld
    rw [btreeReadOverflowChain, if_pos (Or.inl rfl)]
  | cons p ps ih =>
    obtain ⟨rfl, hne, hread, hrest⟩ := hheld
    obtain ⟨hp0, hinv, hplaced⟩ := hps first List.mem_cons_self
    obtain ⟨ha, hv, hd⟩ := h.read hplaced
    have hpos := List.length_pos_of_ne_nil hne
    rw [btreeReadOverflowChain, if_neg (by omega)]
    dsimp only
    rw [hd]
    generalize s.getPage first = s₁ at ha hv
    have hlen : data.length - min data.length overflowPayloadSize = (data.drop overflowPayloadSize).length := by
      rw [List.length_drop]
      omega
    rw [hlen, ih ha.steady (hrest.congr fun q _ => hv q) fun q hq => ?_, hread, List.take_append_drop]
    obtain ⟨h0, h1, h2⟩ := hps q (List.mem_cons_of_mem _ hq)
    exact ⟨h0, h1, fun hm => h2 (ha.isMemory ▸ hm)⟩

/-- The pages `ps` are on the free list, in front of `l`; no other page but page 0 shows anything else. -/
structure Freed (s s' : Pager Block) (ps l : List Nat) : Prop where
  works : Works s s'
  steady : Steady s'
  isMemory : s'.isMemory = s.isMemory
  others : ∀ q, q ∉ ps → q ≠ 0 → Undisturbed q s s' ∧ s'.view q = s.view q
  zero : HeadStored s s'
  list : s'.FreeList (ps.reverse ++ l)
  lt : ∀ p ∈ ps, p < s'.numPages

/-- `btree_free_overflow_chain` frees the pages of the chain, from the first to the last. -/
theorem btreeFreeOverflowChain_spec (h : Steady s) (hl : s.FreeList l) (hheld : Held s first ps data) (hnd : ps.Nodup)
    (hps : ∀ p ∈ ps, s.Frees p ∧ s.Placed p ∧ p ∉ l) :
    ∃ s', (∀ fuel, ps.length < fuel → btreeFreeOverflowChain fuel s first = some s') ∧ Freed s s' ps l := by
  induction ps generalizing s first data l with
  | nil =>
    refine ⟨s, fun fuel hfuel => ?_, Works.refl s, h, rfl, fun q _ _ => ⟨Undisturbed.refl q s, rfl⟩, Or.inl ⟨rfl, rfl⟩, hl,
      nofun⟩
    obtain ⟨k, rfl⟩ := Nat.exists_eq_add_of_lt hfuel
    rw [btreeFreeOverflowChain, if_pos (Or.inl hheld.1)]
  | cons p ps ih =>
    obtain ⟨rfl, -, -, hrest⟩ := hheld
    obtain ⟨hnot, hnd⟩ := List.nodup_cons.mp hnd
    obtain ⟨hf, hplaced, hpl⟩ := hps first List.mem_cons_self
    have hends : ¬ (first = 0 ∨ first = invalidPageNum ∨ first < s.reservedCatalogPages) := by
      unfold Frees at hf
      omega
    have hp0 : first ≠ 0 := fun h0 => hends (Or.inl h0)
    obtain ⟨hj, hjv⟩ := h.journal hplaced
    obtain ⟨hr, hrv, hd⟩ := hj.steady.read (p := first) fun hm => hplaced (hj.isMemory ▸ hm)
    have ha := hj.trans hr
    have hv : ∀ q, ((s.pagerJournalPage first).getPage first).view q = s.view q := fun q => (hrv q).trans (hjv q)
    have hstep : ∀ fuel, btreeFreeOverflowChain (fuel + 1) s first = btreeFreeOverflowChain fuel
        (((s.pagerJournalPage first).getPage first).pagerFreePage first) (s.view first).body.word := fun fuel => by
      rw [btreeFreeOverflowChain, if_neg hends]
      dsimp only
      rw [hd, hjv]
    generalize (s.pagerJournalPage first).getPage first = s₁ at ha hv hstep
    have hl₁ : s₁.FreeList l := FreeList.next hl ha.works.reserved ha.head fun q _ =>
      congrArg (fun x : CustomDB.Page Block => PageBody.link x.body) (hv q)
    have hf₁ : s₁.Frees first := by
      unfold Frees
      rw [ha.works.reserved]
      exact hf
    obtain ⟨hfree, hlist, hlt⟩ := ha.steady.free hl₁ hf₁ (fun hm => hplaced (ha.isMemory ▸ hm)) hpl
    generalize s₁.pagerFreePage first = s₂ at hfree hlist hlt hstep
    have hview : ∀ q, q ≠ first → q ≠ 0 → s₂.view q = s.view q := fun q hq h0 => (hfree.view q hq h0).trans (hv q)
    have hres : s₂.reservedCatalogPages = s.reservedCatalogPages := hfree.works.reserved.trans ha.works.reserved
    have hin : ∀ q ∈ ps, q ≠ first ∧ q ≠ 0 := fun q hq =>
      ⟨fun he => hnot (he ▸ hq), fun h0 => (hps q (List.mem_cons_of_mem _ hq)).1 (Or.inr (Or.inl h0))⟩
    obtain ⟨s', heq, hx⟩ := @ih s₂ (first :: l) _ _ hfree.steady hlist (hrest.congr fun q hq => hview q (hin q hq).1 (hin q hq).2)
      hnd (fun q hq => by
        obtain ⟨hqf, hqp, hql⟩ := hps q (List.mem_cons_of_mem _ hq)
        refine ⟨?_, fun hm => hqp (ha.isMemory ▸ hfree.isMemory ▸ hm), ?_⟩
        · unfold Frees
          rw [hres]
          exact hqf
        · rw [List.mem_cons, not_or]
          exact ⟨(hin q hq).1, hql⟩)
    refine ⟨s', fun fuel hfuel => ?_, (ha.works.trans hfree.works).trans hx.works, hx.steady, (hx.isMemory.trans hfree.isMemory).trans ha.isMemory,
      fun q hq h0 => ?_, ?_, ?_, fun q hq => ?_⟩
    · obtain ⟨k, rfl⟩ := Nat.exists_eq_add_of_lt hfuel
      rw [hstep]
      exact heq _ (by rw [List.length_cons]; omega)
    · obtain ⟨hne, hqps⟩ := not_or.mp (mt List.mem_cons.mpr hq)
      obtain ⟨hu, hv'⟩ := hx.others q hqps h0
      exact ⟨((ha.others q hne h0).trans (hfree.others q hne h0)).trans hu, hv'.trans (hview q hne h0)⟩
    · exact HeadStored.trans (HeadStored.trans (Or.inl ⟨hv 0, ha.head⟩) (hfree.zero hp0)) hx.zero
    · rw [List.reverse_cons, List.append_assoc]
      exact hx.list
    · rcases List.mem_cons.mp hq with rfl | hq
      · exact lt_of_lt_of_le hlt hx.works.numPages
      · exact hx.lt q hq

/-! ## Rows -/

/-- How many pages the chain of a record of `n` bytes has. -/
def chainLength (n : Nat) : Nat :=
  if n < maxLocalPayload then 0 else overflowPages (n - (maxLocalPayload - overflowStubHeader))

variable {h h₁ h₂ h₃ : Heap Block} {record cell : List UInt8} {chain : List Nat} {page k : Nat}

/-- What storing a record does: its cell, and the pages of its chain. -/
structure StoredRow (h h₁ : Heap Block) (record cell : List UInt8) (chain : List Nat) : Prop where
  stub : CellIsOverflowStub cell.length ↔ 1024 ≤ record.length
  count : chain.length = chainLength record.length
  nodup : chain.Nodup
  fresh : ∀ p ∈ chain, p ∉ h.inUse ∧ h.pager.reservedCatalogPages ≤ p
  inUse : h₁.inUse = chain.toFinset ∪ h.inUse
  catalog : h₁.pager.reservedCatalogPages = h.pager.reservedCatalogPages
  others : ∀ q, q ∉ chain → q ≠ 0 → h₁.pager.view q = h.pager.view q
  zero : HeadStored h.pager h₁.pager

/-- What deleting the row does: the pages of the chain are free, before those that were. -/
structure DeletedRow (h₂ h₃ : Heap Block) (chain l : List Nat) : Prop where
  rest : AtRest h₃ (chain.reverse ++ l)
  inUse : h₃.inUse = h₂.inUse \ chain.toFinset
  others : ∀ q, q ∉ chain → q ≠ 0 → h₃.pager.view q = h₂.pager.view q
  zero : HeadStored h₂.pager h₃.pager

/-- The row of cell `k` on a page is the one that was stored, and its chain is as it was. -/
structure KeepsRow (h₁ h₂ : Heap Block) (cell : List UInt8) (chain : List Nat) (page k : Nat) : Prop where
  catalog : h₂.pager.reservedCatalogPages = h₁.pager.reservedCatalogPages
  pages : ∀ p ∈ chain, p ∈ h₂.inUse ∧ h₂.pager.view p = h₁.pager.view p
  leaf : page ∈ h₂.inUse ∧ page ∉ chain
  lt : k < leafNodeNumCells (h₂.pager.view page).body.bytes
  slot : cellOf (h₂.pager.view page).body.bytes (leafNodeSlot (h₂.pager.view page).body.bytes k) = cell

/-- The cell of a record whose chain, if it has one, starts at `first`. -/
structure RowCell (s : Pager Block) (record cell : List UInt8) (chain : List Nat) : Prop where
  cell : cell = packCell record (chain.headD 0)
  held : 1024 ≤ record.length → Held s (chain.headD 0) chain (record.drop 1016)
  inline : record.length < 1024 → chain = []
  pages : ∀ p ∈ chain, p ≠ 0 ∧ s.reservedCatalogPages ≤ p ∧ p < invalidPageNum

theorem length_packCell (hlen : 1024 ≤ record.length) (first : Nat) : (packCell record first).length = 1024 := by
  rw [packCell, if_neg (show ¬ record.length < maxLocalPayload from not_lt.mpr hlen), List.length_append, List.length_append,
    length_leBytes, length_leBytes, List.length_take]
  unfold maxLocalPayload overflowStubHeader
  omega

/-- `serialize_cell_for_leaf`. -/
theorem serializeCellForLeaf_spec (hr : AtRest h l) (hroom : Room h.pager (chainLength record.length)) :
    ∃ cell chain h₁, serializeCellForLeaf h.pager record = (cell, h₁.pager) ∧ AtRest h₁ (l.drop chain.length) ∧
      StoredRow h h₁ record cell chain ∧ RowCell h₁.pager record cell chain := by
  by_cases hlen : record.length < maxLocalPayload
  · have hlen' : record.length < 1024 := hlen
    refine ⟨record, [], h, if_pos hlen, hr, ⟨?_, (if_pos hlen).symm, List.nodup_nil, nofun, ?_, rfl, fun _ _ _ => rfl,
      Or.inl ⟨rfl, rfl⟩⟩, ⟨(if_pos hlen).symm, fun hn => absurd hlen' (not_lt.mpr hn), fun _ => rfl, nofun⟩⟩
    · rfl
    · rw [List.toFinset_nil, Finset.empty_union]
  · have hlen' : 1024 ≤ record.length := not_lt.mp hlen
    have hcount : chainLength record.length = overflowPages (record.drop (maxLocalPayload - overflowStubHeader)).length := by
      rw [chainLength, if_neg hlen, List.length_drop]
    rw [hcount] at hroom
    obtain ⟨ps, s', heq, hps, hx, hheld⟩ := btreeWriteOverflowChain_spec hr.steady hr.inv.chain hr.inv.nodup
      (fun q hq => (hr.inv.free q hq).1) hr.catalog hroom
    have hout : ∀ q ∈ ps, q ∉ h.inUse := by
      intro q hq hin
      rcases (hx.fresh q hq).2.2.2.2.2 with hql | hge
      · exact (hr.inv.free q hql).2.1 hin
      · have := hr.inv.used q hin
        omega
    have hlist : ∀ q ∈ l.drop ps.length, q ∈ l ∧ q ∉ ps ∧ q ≠ 0 := fun q hq =>
      ⟨List.mem_of_mem_drop hq, fun hn => (hx.fresh q hn).2.2.2.2.1 hq,
        fun h0 => Linked.Chain.mem_not_ends hx.list hq (Or.inl h0)⟩
    have hinv := hr.inv.advance hr.steady.ready hx.works (u := ps.toFinset ∪ h.inUse)
      (g := fun pt => { pt with freed := pt.freed \ ps.toFinset }) (fun _ => ⟨rfl, rfl⟩)
      (fun pt q hq hf => ⟨(hlist q hq).1, fun hn => hf (Finset.mem_sdiff.mpr
        ⟨hn, fun hps => (hlist q hq).2.1 (List.mem_toFinset.mp hps)⟩)⟩)
      (fun q hq _ => (hx.others q (hlist q hq).2.1 (hlist q hq).2.2 (hlist q hq).2.2).1) hx.list
      (hr.inv.nodup.sublist (List.drop_sublist ..)) (fun q hq => Or.inl (hlist q hq).1)
      (fun q hq hin => by
        rcases Finset.mem_union.mp hin with hps | hu
        · exact (hlist q hq).2.1 (List.mem_toFinset.mp hps)
        · exact (hr.inv.free q (hlist q hq).1).2.1 hu)
      (fun q hq => by
        rcases Finset.mem_union.mp hq with hps | hu
        · exact (hx.fresh q (List.mem_toFinset.mp hps)).2.2.1
        · exact lt_of_lt_of_le (hr.inv.used q hu) hx.works.numPages)
    refine ⟨packCell record (ps.headD 0), ps, _, ?_, ⟨hinv, hx.steady, lt_of_lt_of_eq hr.catalog hx.works.reserved.symm⟩,
      ⟨?_, hps.trans hcount.symm, hx.nodup, fun q hq => ⟨hout q hq, (hx.fresh q hq).2.1⟩, rfl,
        hx.works.reserved, fun q hq h0 => (hx.others q hq h0 h0).2, hx.zero⟩,
      ⟨rfl, fun _ => hheld, fun hn => absurd hn hlen, fun q hq => ?_⟩⟩
    · unfold serializeCellForLeaf
      rw [if_neg hlen, packCell, if_neg hlen]
      dsimp only
      rw [heq]
    · rw [length_packCell hlen']
      exact ⟨fun _ => hlen', fun _ => le_refl 1024⟩
    · obtain ⟨hq0, hres, hqlt, -⟩ := hx.fresh q hq
      refine ⟨hq0, hx.works.reserved ▸ hres, hroom.lt ?_⟩
      have := hx.le
      omega

/-- The header of a stub. -/
theorem packCell_stub {m : Mem} {off first : Nat} (hlen : 1024 ≤ record.length) (hlt : record.length < 2 ^ 32)
    (hfirst : first < 2 ^ 32) (hcell : read m off 1024 = packCell record first) :
    u32 m off = record.length ∧ u32 m (off + 4) = first ∧ read m (off + 8) 1016 = record.take 1016 := by
  have hpack : packCell record first = leBytes 4 record.length ++ (leBytes 4 first ++ record.take 1016) := by
    rw [packCell, if_neg (show ¬ record.length < maxLocalPayload from not_lt.mpr hlen), List.append_assoc]
    rfl
  have hword : ∀ n, n < 2 ^ 32 → leNat (leBytes 4 n) = n := fun n hn => by
    rw [leNat_leBytes]
    exact Nat.mod_eq_of_lt hn
  have hparts : ∀ i k, i + k ≤ 1024 → read m (off + i) k = ((packCell record first).drop i).take k := fun i k hik => by
    rw [read_part hik, hcell]
  have h0 := hparts 0 4 (by decide)
  have h4 := hparts 4 4 (by decide)
  have h8 := hparts 8 1016 (by decide)
  have h4l : (leBytes 4 record.length).length = 4 := length_leBytes 4 _
  have h4f : (leBytes 4 first).length = 4 := length_leBytes 4 _
  rw [hpack] at h0 h4 h8
  refine ⟨?_, ?_, ?_⟩
  · rw [u32, show read m off 4 = _ from h0, List.drop_zero, List.take_left' h4l, hword _ hlt]
  · rw [u32, h4, List.drop_left' h4l, List.take_left' h4f, hword _ hfirst]
  · rw [h8, show 8 = 4 + 4 from rfl, ← List.drop_drop, List.drop_left' h4l, List.drop_left' h4f, List.take_of_length_le]
    rw [List.length_take]
    omega

/-- What a page shows of the row's cell. -/
theorem RowCell.shown (hc : RowCell h₁.pager record cell chain) (hkeep : KeepsRow h₁ h₂ cell chain page k)
    (hlen : 1024 ≤ record.length) (hlt : record.length < 2 ^ 32) :
    let node := (h₂.pager.view page).body.bytes
    let slot := leafNodeSlot node k
    slot.size = 1024 ∧ u32 node slot.offset = record.length ∧ u32 node (slot.offset + 4) = chain.headD 0 ∧
      read node (slot.offset + 8) 1016 = record.take 1016 ∧ chain.headD 0 ∈ chain ∧
      Held h₂.pager (chain.headD 0) chain (record.drop 1016) := by
  intro node slot
  have hslot : cellOf node slot = packCell record (chain.headD 0) := hkeep.slot.trans hc.cell
  have hsize : slot.size = 1024 := by
    rw [← length_packCell hlen (chain.headD 0), ← hslot, cellOf, length_read]
  have hheld := hc.held hlen
  have hmem : chain.headD 0 ∈ chain := by
    cases hch : chain with
    | nil =>
      rw [hch] at hheld
      have hnil := congrArg List.length hheld.2
      rw [List.length_drop, List.length_nil] at hnil
      omega
    | cons p ps => exact List.mem_cons_self
  have hfirst : chain.headD 0 < 2 ^ 32 := lt_trans (hc.pages _ hmem).2.2 (by decide)
  have hread : read node slot.offset 1024 = packCell record (chain.headD 0) := by
    rw [← hsize]
    exact hslot
  obtain ⟨h1, h2, h3⟩ := packCell_stub hlen hlt hfirst hread
  exact ⟨hsize, h1, h2, h3, hmem, hheld.congr fun q hq => (hkeep.pages q hq).2⟩

/-- `cursor_value`. -/
theorem cursorValue_spec (hr : AtRest h₂ l) (hc : RowCell h₁.pager record cell chain)
    (hkeep : KeepsRow h₁ h₂ cell chain page k) (hlt : record.length < 2 ^ 32) :
    (cursorValue h₂.pager page k).1 = record := by
  obtain ⟨ha, hv, hd⟩ := hr.steady.read (hr.placed (hr.inv.used page hkeep.leaf.1))
  unfold cursorValue
  dsimp only
  rw [hd]
  by_cases hlen : 1024 ≤ record.length
  · obtain ⟨hsize, htotal, hfirst, hlocal, hmem, hheld⟩ := hc.shown hkeep hlen hlt
    obtain ⟨h0, hres, hinv⟩ := hc.pages _ hmem
    have hcat : (h₂.pager.getPage page).reservedCatalogPages = h₁.pager.reservedCatalogPages :=
      ha.works.reserved.trans hkeep.catalog
    have hstub : ¬ ¬ CellIsOverflowStub (leafNodeSlot (h₂.pager.view page).body.bytes k).size := by
      rw [hsize]
      exact not_not.mpr (le_refl 1024)
    have hrest : record.length - 1016 = (record.drop 1016).length := by rw [List.length_drop]
    rw [if_neg hstub, htotal, hfirst, hsize, hcat, show 1024 - overflowStubHeader = 1016 from rfl, if_neg (by omega)]
    dsimp only
    rw [show overflowStubHeader = 8 from rfl, hlocal, hrest,
      btreeReadOverflowChain_spec ha.steady (hheld.congr fun q _ => hv q) fun q hq => ?_, List.take_append_drop]
    obtain ⟨hq0, -, hqinv⟩ := hc.pages q hq
    exact ⟨hq0, by omega, fun hm => hr.placed (hr.inv.used q (hkeep.pages q hq).1) (ha.isMemory ▸ hm)⟩
  · have hrow : cell = record := by
      rw [hc.cell, packCell, if_pos (show record.length < maxLocalPayload from not_le.mp hlen)]
    have hsize := congrArg List.length hkeep.slot
    rw [cellOf, length_read, hrow] at hsize
    have hstub : ¬ CellIsOverflowStub (leafNodeSlot (h₂.pager.view page).body.bytes k).size := by
      rw [hsize]
      exact hlen
    rw [if_pos hstub]
    exact hkeep.slot.trans hrow

/-- The part of `btree_delete` that frees the chain. -/
theorem deleteOverflow_spec (hr : AtRest h₂ l) (hc : RowCell h₁.pager record cell chain) (hnd : chain.Nodup)
    (hkeep : KeepsRow h₁ h₂ cell chain page k) (hlt : record.length < 2 ^ 32) :
    ∃ h₃, (∀ fuel, chain.length < fuel → deleteOverflow fuel h₂.pager page k = some h₃.pager) ∧ DeletedRow h₂ h₃ chain l := by
  have hpage := hr.inv.used page hkeep.leaf.1
  obtain ⟨hj, hjv⟩ := hr.steady.journal (hr.placed hpage)
  obtain ⟨hg, hgv, hd⟩ := hj.steady.read (p := page) fun hm => hr.placed hpage (hj.isMemory ▸ hm)
  have ha := hj.trans hg
  have hv : ∀ q, ((h₂.pager.pagerJournalPage page).getPage page).view q = h₂.pager.view q := fun q => (hgv q).trans (hjv q)
  have hr₁ := hr.access ha hkeep.leaf.1
  have hcells := hkeep.lt
  unfold deleteOverflow
  dsimp only
  rw [hd, hjv]
  generalize (h₂.pager.pagerJournalPage page).getPage page = s₁ at ha hv hr₁
  have hnc : ¬ (leafNodeNumCells (h₂.pager.view page).body.bytes = 0 ∨
      leafNodeNumCells (h₂.pager.view page).body.bytes ≤ k) := by omega
  by_cases hlen : 1024 ≤ record.length
  · obtain ⟨hsize, -, hfirst, -, hmem, hheld⟩ := hc.shown hkeep hlen hlt
    have hps : ∀ q ∈ chain, s₁.Frees q ∧ s₁.Placed q ∧ q ∉ l := by
      intro q hq
      obtain ⟨hq0, hres, hinv⟩ := hc.pages q hq
      refine ⟨?_, fun hm => hr.placed (hr.inv.used q (hkeep.pages q hq).1) (ha.isMemory ▸ hm), fun hn =>
        (hr.inv.free q hn).2.1 (hkeep.pages q hq).1⟩
      unfold Frees
      rw [ha.works.reserved, hkeep.catalog]
      omega
    obtain ⟨s₂, heq, hx⟩ := @btreeFreeOverflowChain_spec s₁ l chain _ _ hr₁.steady hr₁.inv.chain
      (hheld.congr fun q _ => hv q) hnd hps
    have hstub : CellIsOverflowStub (leafNodeSlot (h₂.pager.view page).body.bytes k).size ∧
        u32 (h₂.pager.view page).body.bytes ((leafNodeSlot (h₂.pager.view page).body.bytes k).offset + 4) ≠ 0 := by
      rw [hsize, hfirst]
      exact ⟨le_refl 1024, (hc.pages _ hmem).1⟩
    have hnot : ∀ q ∈ l, q ∉ chain ∧ q ≠ 0 := fun q hq => ⟨fun hn => (hps q hn).2.2 hq, (hr.inv.beyond hq).1⟩
    have hsplit : ∀ q, q ∈ chain.reverse ++ l ↔ q ∈ chain ∨ q ∈ l := fun q => by rw [List.mem_append, List.mem_reverse]
    have hinv := hr₁.inv.advance hr₁.steady.ready hx.works (u := h₂.inUse \ chain.toFinset)
      (g := fun pt => { pt with freed := pt.freed ∪ chain.toFinset }) (fun _ => ⟨rfl, rfl⟩)
      (fun pt q hq hf => by
        rw [Finset.mem_union, not_or, List.mem_toFinset] at hf
        exact ⟨((hsplit q).mp hq).resolve_left hf.2, hf.1⟩)
      (fun q _ hq => (hx.others q (hnot q hq).1 (hnot q hq).2).1) hx.list
      (List.nodup_append'.mpr ⟨List.nodup_reverse.mpr hnd, hr.inv.nodup, fun q hq hql =>
        (hnot q hql).1 (List.mem_reverse.mp hq)⟩)
      (fun q hq => ((hsplit q).mp hq).symm.imp_right fun hqc => ⟨hx.lt q hqc, hx.steady.covered q⟩)
      (fun q hq hin => by
        obtain ⟨hu, hout⟩ := Finset.mem_sdiff.mp hin
        rcases (hsplit q).mp hq with hqc | hql
        · exact hout (List.mem_toFinset.mpr hqc)
        · exact (hr.inv.free q hql).2.1 hu)
      (fun q hq => lt_of_lt_of_le (hr₁.inv.used q (Finset.mem_sdiff.mp hq).1) hx.works.numPages)
    refine ⟨_, fun fuel hfuel => ?_, ⟨hinv, hx.steady, lt_of_lt_of_eq hr₁.catalog hx.works.reserved.symm⟩, rfl,
      fun q hq h0 => (hx.others q hq h0).2.trans (hv q), HeadStored.trans (Or.inl ⟨hv 0, ha.head⟩) hx.zero⟩
    rw [if_neg hnc, if_pos hstub, hfirst, heq fuel hfuel]
  · have hnil := hc.inline (not_le.mp hlen)
    have hrow : cell = record := by
      rw [hc.cell, packCell, if_pos (show record.length < maxLocalPayload from not_le.mp hlen)]
    have hsize := congrArg List.length hkeep.slot
    rw [cellOf, length_read, hrow] at hsize
    subst hnil
    refine ⟨_, fun fuel _ => ?_, hr₁, ?_, fun q _ _ => hv q, Or.inl ⟨hv 0, ha.head⟩⟩
    · rw [if_neg hnc, if_neg]
      rintro ⟨hstub, -⟩
      rw [hsize] at hstub
      exact hlen hstub
    · rw [List.toFinset_nil, Finset.sdiff_empty]

/-- A record is read back from its cell and its chain as long as the pages of the chain stay as they were written, and
deleting the row frees these pages and no other. Storing and deleting change nothing on other pages but the head of the
free list, on page 0. -/
theorem large_rows_round_trip (hr : AtRest h l) (hlt : record.length < 2 ^ 32)
    (hroom : Room h.pager (chainLength record.length)) :
    ∃ cell chain h₁, serializeCellForLeaf h.pager record = (cell, h₁.pager) ∧ AtRest h₁ (l.drop chain.length) ∧
      StoredRow h h₁ record cell chain ∧
      ∀ h₂ l₂ page k, AtRest h₂ l₂ → KeepsRow h₁ h₂ cell chain page k → (cursorValue h₂.pager page k).1 = record ∧
        ∃ h₃, (∀ fuel, chain.length < fuel → deleteOverflow fuel h₂.pager page k = some h₃.pager) ∧
          DeletedRow h₂ h₃ chain l₂ := by
  obtain ⟨cell, chain, h₁, heq, hr₁, hrow, hcell⟩ := serializeCellForLeaf_spec hr hroom
  refine ⟨cell, chain, h₁, heq, hr₁, hrow, fun h₂ l₂ page k hr₂ hkeep => ?_⟩
  exact ⟨cursorValue_spec hr₂ hcell hkeep hlt, deleteOverflow_spec hr₂ hcell hrow.nodup hkeep hlt⟩

/-! ## A database in memory -/

/-- A new database in memory, with the pages 33 and 34. -/
def memoryPager : Pager Block := ((pagerOpenMemory 1).getPage 33).getPage 34

theorem memoryPager_steady : Steady memoryPager ∧ (Idle memoryPager ∧ AsLeft memoryPager) ∧ memoryPager.numPages = 35 := by
  have hi : Idle (pagerOpenMemory 1 : Pager Block) :=
    { sharedWrite := rfl
      reserved := rfl
      pending := rfl
      slot := fun _ h => nomatch h
      notInTx := rfl
      noJournal := fun h => nomatch h
      noFile := rfl
      noShadow := fun _ => rfl
      unmarked := rfl
      lock := fun h => nomatch h
      cached := fun _ _ h => nomatch h
      memory := fun _ => rfl }
  have hleft : AsLeft (pagerOpenMemory 1 : Pager Block) := ⟨Or.inl rfl, nofun⟩
  have hs : Steady (pagerOpenMemory 1 : Pager Block) := ⟨Or.inr ⟨hi, hleft⟩, nofun, Nat.zero_le _, hi.cached⟩
  obtain ⟨ha, -, -⟩ := hs.read (p := 33) nofun
  obtain ⟨hb, -, -⟩ := ha.steady.read (p := 34) fun h => absurd (ha.isMemory.symm.trans h) (by decide)
  exact ⟨hb.steady, hb.works.idle (ha.works.idle ⟨hi, hleft⟩), rfl⟩

/-- Page 33 is a leaf of a table. -/
def leafInUse (s : Pager Block) : Heap Block := ⟨s, {33}, ⟨{33}, 35, ∅⟩, []⟩

theorem leafInUse_atRest : AtRest (leafInUse memoryPager) [] := by
  obtain ⟨hs, ⟨hi, -⟩, hn⟩ := memoryPager_steady
  have hl : memoryPager.FreeList [] := Or.inl rfl
  refine ⟨HeapInv.start hi hl List.nodup_nil nofun (fun p hp => ?_) _, hs, by decide⟩
  rw [Finset.mem_singleton.mp hp, hn]
  decide

theorem length_serializeCellForLeaf (s : Pager Block) (record : List UInt8) :
    (serializeCellForLeaf s record).1.length = min record.length 1024 := by
  unfold serializeCellForLeaf maxLocalPayload overflowStubHeader
  split
  · dsimp only
    omega
  · dsimp only
    rw [List.length_append, List.length_append, length_leBytes, length_leBytes, List.length_take]
    omega

/-- A leaf with the one cell. -/
def leafPage (cell : List UInt8) : Block := ⟨u32 (leafOf [cell]) 0, leafOf [cell]⟩

theorem leafPage_spec (hlen : 1 ≤ cell.length ∧ cell.length ≤ maxLocalPayload) : leafNodeNumCells (leafPage cell).bytes = 1 ∧
    cellOf (leafPage cell).bytes (leafNodeSlot (leafPage cell).bytes 0) = cell := by
  have hsizes : ∀ c ∈ [cell], 1 ≤ c.length ∧ c.length ≤ maxLocalPayload := fun c hc => by
    rw [List.mem_singleton.mp hc]
    exact hlen
  obtain ⟨hl, hc, hn⟩ := @leafOf_spec [cell] (by
    have := hlen.2
    unfold maxLocalPayload at this
    simp [Fits, slotAt, leafNodeHeaderSize, pageSize]
    omega) hsizes
  have hbytes : ∀ a, 4 ≤ a → (leafPage cell).bytes a = leafOf [cell] a := fun a ha => if_neg (not_lt.mpr ha)
  have hslot : leafNodeSlot (leafPage cell).bytes 0 = leafNodeSlot (leafOf [cell]) 0 :=
    leafNodeSlot_congr fun a h1 _ => hbytes a (le_trans (by decide) h1)
  have hcell := getElem?_cells (m := leafOf [cell]) (i := 0) (by rw [hn]; exact Nat.one_pos)
  rw [hc] at hcell
  have hin := (hl.inside _ (mem_slots.mpr ⟨0, by rw [hn]; exact Nat.one_pos, rfl⟩)).1
  have hends := hl.ends
  unfold slotsEnd slotAt leafNodeHeaderSize at hends
  refine ⟨(u32_congr fun a h1 _ => hbytes a (by omega)).trans hn, ?_⟩
  rw [hslot, cellOf, read_congr fun a h1 _ => hbytes a (by omega)]
  exact (Option.some.inj hcell).symm

/-- A record of 1024 zeros: one page is written, the stub goes to the leaf, and the record is read back and deleted. -/
theorem large_rows_round_trip_memory : ∃ (h₂ h₃ : Heap Block) (p : Nat), p ≠ 33 ∧
    (cursorValue h₂.pager 33 0).1 = blank 1024 ∧ deleteOverflow 2 h₂.pager 33 0 = some h₃.pager ∧ AtRest h₃ [p] := by
  have hlen : (blank 1024).length < 2 ^ 32 := by
    rw [length_blank]
    decide
  have hroom : Room (leafInUse memoryPager).pager (chainLength (blank 1024).length) := by
    rw [length_blank, Room, show (leafInUse memoryPager).pager.numPages = 35 from memoryPager_steady.2.2]
    decide
  obtain ⟨cell, chain, h₁, heq, hr₁, hrow, hrest⟩ := large_rows_round_trip leafInUse_atRest hlen hroom
  have hsize : cell.length = 1024 := by
    have hcell := length_serializeCellForLeaf (leafInUse memoryPager).pager (blank 1024)
    rw [heq, length_blank] at hcell
    exact hcell
  have hcount := hrow.count
  rw [length_blank] at hcount
  obtain ⟨p, rfl⟩ : ∃ p, chain = [p] := List.length_eq_one_iff.mp hcount
  have hp33 : p ≠ 33 := fun he => (hrow.fresh p (List.mem_singleton_self p)).1 (he ▸ Finset.mem_singleton_self 33)
  have hin : p ∈ h₁.inUse ∧ 33 ∈ h₁.inUse := by
    rw [hrow.inUse]
    exact ⟨by simp, Finset.mem_union_right _ (Finset.mem_singleton_self 33)⟩
  obtain ⟨ha, hv, -⟩ := hr₁.steady.write (hr₁.placed (hr₁.inv.used 33 hin.2)) fun x => { x with body := leafPage cell }
  obtain ⟨hn, hslot⟩ := @leafPage_spec cell ⟨by omega, le_of_eq hsize⟩
  have hr₂ := hr₁.access ha hin.2
  generalize h₁.pager.modify 33 _ = s₂ at ha hv hr₂
  have hkeep : KeepsRow h₁ { h₁ with pager := s₂ } cell [p] 33 0 := by
    refine ⟨ha.works.reserved, fun q hq => ?_, ⟨hin.2, ?_⟩, ?_, ?_⟩
    · obtain rfl := List.mem_singleton.mp hq
      exact ⟨hin.1, ha.view q hp33⟩
    · exact fun hn => hp33 (List.mem_singleton.mp hn).symm
    · rw [hv, hn]
      exact Nat.one_pos
    · rw [hv]
      exact hslot
  obtain ⟨hvalue, h₃, hdel, hdeleted⟩ := hrest _ _ _ _ hr₂ hkeep
  exact ⟨_, h₃, p, hp33, hvalue, hdel 2 Nat.one_lt_two, hdeleted.rest⟩

/-- Page 34 was freed before: the chain takes it from the list, and page 0 changes. -/
theorem storing_moves_the_head : ∃ h l, AtRest h l ∧ 0 < h.pager.reservedCatalogPages ∧
    (serializeCellForLeaf h.pager (blank 1024)).2.view 0 ≠ h.pager.view 0 := by
  obtain ⟨hs, hi, hn⟩ := memoryPager_steady
  have hl : memoryPager.FreeList [] := Or.inl rfl
  obtain ⟨hf, hlist, hlt⟩ := hs.free (p := 34) hl (by decide) nofun List.not_mem_nil
  have hmem : (memoryPager.pagerFreePage 34).isMemory = true := hf.isMemory
  have hres : (memoryPager.pagerFreePage 34).reservedCatalogPages = 33 := hf.works.reserved
  have hle := hf.le
  rw [hn] at hle
  generalize memoryPager.pagerFreePage 34 = s at hf hlist hlt hmem hres hle
  have hhead : s.freelistHead = 34 := hlist.1
  have hzero : (s.view 0).freelistHead = 34 := by
    rcases hf.zero (by decide) with ⟨-, hsame⟩ | hview
    · exact absurd (hhead.symm.trans hsame) (by decide)
    · rw [hview, ← hhead]
      rfl
  have hr : AtRest (leafInUse s) [34] := by
    refine ⟨HeapInv.start (hf.works.idle hi).1 hlist (List.nodup_singleton 34) (fun p hp => ?_) (fun p hp => ?_) _, hf.steady,
      by rw [show (leafInUse s).pager = s from rfl, hres]; decide⟩
    · obtain rfl := List.mem_singleton.mp hp
      exact ⟨hlt, by decide, hf.steady.covered 34⟩
    · rw [Finset.mem_singleton.mp hp]
      omega
  refine ⟨_, _, hr, hr.catalog, fun heq => ?_⟩
  have hroom : Room (leafInUse s).pager (chainLength (blank 1024).length) := by
    rw [length_blank, Room, show (leafInUse s).pager = s from rfl, hmem, hres, if_pos rfl,
      show chainLength 1024 = 1 by decide]
    unfold invalidPageNum
    omega
  obtain ⟨cell, chain, h₁, he, hr₁, hrow, -⟩ := serializeCellForLeaf_spec hr hroom
  have hcount := hrow.count
  rw [length_blank] at hcount
  have hcount : chain.length = 1 := hcount
  rw [hcount] at hr₁
  have hends : h₁.pager.EndsList h₁.pager.freelistHead := hr₁.inv.chain
  rw [he] at heq
  have h34 : h₁.pager.freelistHead = 34 := by
    rcases hrow.zero with ⟨-, hsame⟩ | hview
    · exact hsame.trans hhead
    · have hfield := congrArg Page.freelistHead (hview.symm.trans heq)
      exact hfield.trans hzero
  unfold EndsList at hends
  rw [h34, hrow.catalog, show (leafInUse s).pager = s from rfl, hres] at hends
  unfold invalidPageNum at hends
  omega

end Page

end CustomDB
