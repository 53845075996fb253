import CustomDB.Rows.Delete
import CustomDB.Rows.Traced

/-!
# PRAGMA reap_expired

The pragma notes the ids of the versions whose time is over, ended ones among them, and runs a DELETE for each. But
DELETE passes over a row that has expired, as every statement does: what it finds under the id is a row that has not.
-/

namespace CustomDB

open Lib Lib.Program

/-- The time of the version is over. -/
def Version.expired (v : Version) (now : Nat) : Bool := 0 < v.expireAt && v.expireAt < now

/-- `expired_ids`: the scan does not look at `xmin` and `xmax`. -/
def RowTable.expiredIds (t : RowTable) (now : Nat) : List (BitVec 32) :=
  (t.cells.filter fun v => v.expired now).map fun v => (v.col 0).intVal

/-- The table is one the pragma goes through: no name is given or this one, and there is a tree. -/
def reapChosen (target : Text) (d : TableDef) : Bool :=
  (target = [] || strcasecmp d.name.str target = .eq) && !d.isVirtual

section Pragma

variable (env : DmlEnv) (call : Call) (depth : Nat) (target : Text)

/-- `del_stmt`. -/
def reapWhere (d : TableDef) (id : BitVec 32) : WhereClause :=
  whereEq ((d.columns[0]?.map fun c => c.name.str).getD []) (printInt id)

/-- The DELETEs for the ids of a table. -/
def reapRows (i : Nat) (d : TableDef) (ids : List (BitVec 32)) : Dml Unit :=
  ids.forM fun id => do
    let _ ← runDeleteVm env call depth i (reapWhere d id)
    pure ()

/-- The loop over the tables: what it adds to `total_reaped`. -/
def reapTables (now : Nat) : List Nat → Dml Nat
  | [] => return 0
  | i :: is => do
    let t ← tableAt i
    if reapChosen target t.tableDef then
      let ids := t.expiredIds now
      reapRows env call depth i t.tableDef ids
      let n ← reapTables now is
      return ids.length + n
    else reapTables now is

/-- PRAGMA reap_expired: the number it prints. -/
def reapExpired : Dml Nat := do
  let now ← timeNow env
  let db ← current
  reapTables env call depth target now (List.range db.tables.length)

end Pragma

/-! ## What the pragma is for -/

/-- The versions that no transaction has ended. -/
def RowTable.standing (t : RowTable) : List Version := t.cells.filter fun v => v.xmax = 0

/-- The rows that stand in the chosen tables. -/
def standingRows (target : Text) (tables : List RowTable) : Nat :=
  ((tables.filter fun t => reapChosen target t.tableDef).map fun t => t.standing.length).sum

/-- No expired version stands in the chosen tables, in every snapshot to come each table shows the rows it would have
shown, and the number is that of the rows that are gone. -/
structure ReapsExactly (target : Text) (now : Nat) (db db' : RowDb) (count : Nat) : Prop where
  gone : ∀ t ∈ db'.tables, reapChosen target t.tableDef = true → ∀ v ∈ t.standing, v.expired now = false
  kept : List.Forall₂ (fun t t' => ∀ snapshot, db'.txnXid ≤ snapshot → (t'.rows snapshot now).Perm (t.rows snapshot now))
    db.tables db'.tables
  reported : count + standingRows target db'.tables = standingRows target db.tables

/-- The chosen tables store no version whose time is over, standing or ended. -/
def NoneExpired (target : Text) (now : Nat) (db : RowDb) : Prop :=
  ∀ t ∈ db.tables, reapChosen target t.tableDef = true → ∀ v ∈ t.cells, v.expired now = false

/-- The clock does not go back, nothing is vacuumed on the way, and no trigger, history or cascade hangs on the chosen
tables. -/
structure Quiet (env : DmlEnv) (target : Text) (db : RowDb) : Prop where
  clock : ∀ m n, m ≤ n → env.time m ≤ env.time n
  autoVacuum : db.autoVacuum = false
  plain : ∀ t ∈ db.tables, reapChosen target t.tableDef = true → NoCascade env db t.tableDef

theorem tableAt_some {i : Nat} {t : RowTable} {r r' : Trace RowDb RowStep} (h : tableAt i r = some (t, r')) :
    r.state.tables[i]? = some t ∧ r' = r := by
  unfold tableAt at h
  rw [bind_run (show current r = some (r.state, r) from rfl)] at h
  cases hi : r.state.tables[i]? with
  | none =>
    rw [hi] at h
    cases h
  | some u =>
    rw [hi] at h
    obtain ⟨rfl, rfl⟩ := Prod.mk.inj (Option.some.inj h)
    exact ⟨rfl, rfl⟩

section Idle

variable {env : DmlEnv} {call : Call} {depth : Nat} {target : Text} {r r' : Trace RowDb RowStep} {now count : Nat}

theorem expiredIds_nil {t : RowTable} : t.expiredIds now = [] ↔ ∀ v ∈ t.cells, v.expired now = false := by
  unfold RowTable.expiredIds
  rw [List.map_eq_nil_iff, List.filter_eq_nil_iff]
  simp only [Bool.not_eq_true]

/-- Nothing to note, nothing to do. -/
theorem reapTables_idle (h : NoneExpired target now r.state) {is : List Nat} (his : ∀ i ∈ is, i < r.state.tables.length) :
    reapTables env call depth target now is r = some (0, r) := by
  induction is with
  | nil => rfl
  | cons i is ih =>
    obtain ⟨t, hi⟩ : ∃ t, r.state.tables[i]? = some t := ⟨_, List.getElem?_eq_getElem (his i List.mem_cons_self)⟩
    have hrest := ih fun j hj => his j (List.mem_cons_of_mem _ hj)
    unfold reapTables
    rw [bind_run (tableAt_run hi)]
    split
    next hc =>
      rw [expiredIds_nil.mpr (h _ (List.mem_of_getElem? hi) hc)]
      show (reapTables env call depth target now is >>= fun n => pure (0 + n)) r = _
      rw [bind_run hrest]
      rfl
    next => exact hrest

/-- A turn of the loop over the tables. -/
theorem reapTables_cons {i : Nat} {is : List Nat}
    (hrun : reapTables env call depth target now (i :: is) r = some (count, r')) :
    ∃ t, r.state.tables[i]? = some t ∧
      ((reapChosen target t.tableDef = true ∧ ∃ r₁ n, reapRows env call depth i t.tableDef (t.expiredIds now) r = some ((), r₁) ∧
          reapTables env call depth target now is r₁ = some (n, r') ∧ count = (t.expiredIds now).length + n) ∨
        (¬reapChosen target t.tableDef = true ∧ reapTables env call depth target now is r = some (count, r'))) := by
  obtain ⟨⟨t, r₀⟩, htable, hturn⟩ := Option.bind_eq_some_iff.mp hrun
  obtain ⟨hi, hr⟩ := tableAt_some htable
  dsimp only at hturn
  rw [hr] at hturn
  refine ⟨t, hi, ?_⟩
  split at hturn
  next hc =>
    obtain ⟨⟨u, r₁⟩, hrows, hturn⟩ := Option.bind_eq_some_iff.mp hturn
    obtain ⟨⟨n, r₂⟩, hrest, hturn⟩ := Option.bind_eq_some_iff.mp hturn
    obtain ⟨rfl, rfl⟩ := Prod.mk.inj (Option.some.inj hturn)
    exact .inl ⟨hc, r₁, n, hrows, hrest, rfl⟩
  next hc => exact .inr ⟨hc, hturn⟩

/-- Who notes nothing had nothing to note. -/
theorem reapTables_zero {is : List Nat} (hrun : reapTables env call depth target now is r = some (0, r')) :
    ∀ i ∈ is, ∀ t, r.state.tables[i]? = some t → reapChosen target t.tableDef = true → t.expiredIds now = [] := by
  induction is with
  | nil => exact fun i hi => absurd hi List.not_mem_nil
  | cons i is ih =>
    obtain ⟨t, hi, hturn⟩ := reapTables_cons hrun
    have hhead : (reapChosen target t.tableDef = true → t.expiredIds now = []) ∧
        reapTables env call depth target now is r = some (0, r') := by
      rcases hturn with ⟨hc, r₁, n, hrows, hrest, hsum⟩ | ⟨hc, hrest⟩
      · obtain ⟨hlen, rfl⟩ := Nat.add_eq_zero_iff.mp hsum.symm
        have hids := List.eq_nil_of_length_eq_zero hlen
        rw [hids] at hrows
        obtain rfl : r = r₁ := (Prod.mk.inj (Option.some.inj hrows)).2
        exact ⟨fun _ => hids, hrest⟩
      · exact ⟨fun h => absurd h hc, hrest⟩
    intro j hj u hu hc
    rcases List.mem_cons.mp hj with rfl | hj
    · obtain rfl : t = u := Option.some.inj (hi.symm.trans hu)
      exact hhead.1 hc
    · exact ih hhead.2 j hj u hu hc

theorem reapExpired_run (hrun : reapExpired env call depth target r = some (count, r')) :
    reapTables env call depth target (env.time r.steps.length) (List.range r.state.tables.length) r = some (count, r') := by
  unfold reapExpired at hrun
  rw [bind_run (show timeNow env r = some (env.time r.steps.length, r) from rfl),
    bind_run (show current r = some (r.state, r) from rfl)] at hrun
  exact hrun

/-- The number is zero exactly if nothing has expired, whatever hangs on the tables. -/
theorem reapExpired_zero (hrun : reapExpired env call depth target r = some (0, r')) :
    NoneExpired target (env.time r.steps.length) r.state := by
  intro t ht hc
  obtain ⟨i, hi⟩ := List.mem_iff_getElem?.mp ht
  have hlt : i < r.state.tables.length := (List.getElem?_eq_some_iff.mp hi).1
  exact expiredIds_nil.mp (reapTables_zero (reapExpired_run hrun) i (List.mem_range.mpr hlt) t hi hc)

theorem reapExpired_idle (h : NoneExpired target (env.time r.steps.length) r.state)
    (hrun : reapExpired env call depth target r = some (count, r')) : count = 0 ∧ r' = r := by
  have hidle := (@reapTables_idle env call depth target r _ h _ fun i hi => List.mem_range.mp hi).symm.trans
    (reapExpired_run hrun)
  obtain ⟨rfl, rfl⟩ := Prod.mk.inj (Option.some.inj hidle)
  exact ⟨rfl, rfl⟩

end Idle

/-! ## No DELETE removes an expired row -/

section Stays

variable {env : DmlEnv} {call : Call} {depth i : Nat} {target : Text} {r r' r'' : Trace RowDb RowStep} {t : RowTable}
  {wc : WhereClause} {now count : Nat}

theorem not_visible_of_expired {v : Version} {later : Nat} (h : v.expired now = true) (hnow : now ≤ later) (snapshot : Nat) :
    v.visible snapshot later = false := by
  simp only [Version.expired, Version.visible, Bool.and_eq_true, decide_eq_true_eq] at h ⊢
  have hlater : (0 < v.expireAt ∧ 0 < later) ∧ v.expireAt < later := by omega
  simp [hlater]

/-- A turn of the second loop leaves what it does not see. -/
theorem mem_deleteId {ops : WhereOps} {id : BitVec 32} {txn : Nat} {v : Version} (hv : v ∈ t.cells)
    (hidden : v.visible txn now = false) : v ∈ (t.deleteId ops id txn now).cells := by
  unfold RowTable.deleteId
  split
  · exact hv
  next cursor old hfound =>
    obtain ⟨c, hseek, hcell⟩ := Option.bind_eq_some_iff.mp hfound
    obtain ⟨u, hu, hpair⟩ := Option.map_eq_some_iff.mp hcell
    obtain ⟨rfl, rfl⟩ := Prod.mk.inj hpair
    have hvisible : u.visible txn now = true := by
      rw [seekRow_eq] at hseek
      obtain ⟨k, hk, rfl⟩ := Option.map_eq_some_iff.mp hseek
      obtain ⟨hlt, hvis, -⟩ := List.findIdx?_eq_some_iff_getElem.mp hk
      have hrun : Struck.run (t.tableDef.belowId ops) Version.id id t.cells <+:
          t.cells.drop (t.cells.takeWhile (t.tableDef.belowId ops id)).length := by
        rw [Ranked.drop_takeWhile]
        exact List.takeWhile_prefix _
      have hget := hrun.getElem hlt
      rw [List.getElem_drop] at hget
      rw [List.getElem?_eq_some_iff] at hu
      obtain ⟨-, rfl⟩ := hu
      rw [← hget]
      exact hvis
    have herase : v ∈ t.cells.eraseIdx c := by
      obtain ⟨j, hj⟩ := List.mem_iff_getElem?.mp hv
      refine List.mem_eraseIdx_iff_getElem?.mpr ⟨j, fun hjc => ?_, hj⟩
      rw [hjc, hu] at hj
      obtain rfl := Option.some.inj hj
      rw [hvisible] at hidden
      cases hidden
    exact List.mem_insertIdx (List.takeWhile_sublist _).length_le |>.mpr (.inr herase)

theorem mem_deleteIds {ops : WhereOps} {txn : Nat} {v : Version} (hidden : v.visible txn now = false) (ids : List (BitVec 32))
    (hv : v ∈ t.cells) : v ∈ (t.deleteIds ops txn now ids).cells := by
  induction ids generalizing t with
  | nil => exact hv
  | cons id ids ih => exact ih (mem_deleteId hv hidden)

/-- The tables have their definitions and their expired versions still, and time has passed. -/
structure Stays (now : Nat) (r r' : Trace RowDb RowStep) : Prop where
  tables : List.Forall₂ (fun t t' => t'.tableDef = t.tableDef ∧ ∀ v ∈ t.cells, v.expired now = true → v ∈ t'.cells)
    r.state.tables r'.state.tables
  autoVacuum : r'.state.autoVacuum = r.state.autoVacuum
  steps : r.steps.length ≤ r'.steps.length

theorem Stays.refl (now : Nat) (r : Trace RowDb RowStep) : Stays now r r :=
  ⟨List.forall₂_same.mpr fun _ _ => ⟨rfl, fun _ hv _ => hv⟩, rfl, le_refl _⟩

theorem Stays.trans (h : Stays now r r') (h' : Stays now r' r'') : Stays now r r'' := by
  refine ⟨?_, h'.autoVacuum.trans h.autoVacuum, le_trans h.steps h'.steps⟩
  have hcomp : ∀ {a b c : List RowTable},
      List.Forall₂ (fun t t' => t'.tableDef = t.tableDef ∧ ∀ v ∈ t.cells, v.expired now = true → v ∈ t'.cells) a b →
      List.Forall₂ (fun t t' => t'.tableDef = t.tableDef ∧ ∀ v ∈ t.cells, v.expired now = true → v ∈ t'.cells) b c →
      List.Forall₂ (fun t t' => t'.tableDef = t.tableDef ∧ ∀ v ∈ t.cells, v.expired now = true → v ∈ t'.cells) a c := by
    intro a b c hab
    induction hab generalizing c with
    | nil => exact id
    | cons h₁ hab ih =>
      intro hbc
      cases hbc with
      | cons h₂ hbc => exact .cons ⟨h₂.1.trans h₁.1, fun v hv he => h₂.2 v (h₁.2 v hv he) he⟩ (ih hbc)
  exact hcomp h.tables h'.tables

theorem Stays.get (h : Stays now r r') (hi : r.state.tables[i]? = some t) :
    ∃ t', r'.state.tables[i]? = some t' ∧ t'.tableDef = t.tableDef ∧ ∀ v ∈ t.cells, v.expired now = true → v ∈ t'.cells := by
  obtain ⟨hlt, rfl⟩ := List.getElem?_eq_some_iff.mp hi
  have hlt' : i < r'.state.tables.length := h.tables.length_eq ▸ hlt
  exact ⟨_, List.getElem?_eq_getElem hlt', h.tables.get hlt hlt'⟩

theorem Stays.before (h : Stays now r r') {u : RowTable} (hu : u ∈ r'.state.tables) :
    ∃ t ∈ r.state.tables, u.tableDef = t.tableDef := by
  obtain ⟨k, hk⟩ := List.mem_iff_getElem?.mp hu
  have hlt : k < r.state.tables.length := h.tables.length_eq ▸ (List.getElem?_eq_some_iff.mp hk).1
  obtain ⟨t', ht', hdef, -⟩ := h.get (List.getElem?_eq_getElem hlt)
  obtain rfl : t' = u := Option.some.inj (ht'.symm.trans hk)
  exact ⟨_, List.getElem_mem hlt, hdef⟩

theorem Stays.noCascade (h : Stays now r r') {d : TableDef} (hq : NoCascade env r.state d) : NoCascade env r'.state d := by
  refine ⟨hq.toUntriggered, fun child hchild hname => ?_⟩
  obtain ⟨before, hbefore, hdef⟩ := h.before hchild
  rw [hdef] at hname ⊢
  exact hq.cascades before hbefore hname

theorem Stays.quiet (h : Stays now r r') (hq : Quiet env target r.state) : Quiet env target r'.state := by
  refine ⟨hq.clock, h.autoVacuum.trans hq.autoVacuum, fun u hu hc => ?_⟩
  obtain ⟨before, hbefore, hdef⟩ := h.before hu
  rw [hdef] at hc ⊢
  exact h.noCascade (hq.plain before hbefore hc)

section Calls

variable (hcall : ∀ depth task, Steps env (call depth task)) (hclock : ∀ m n, m ≤ n → env.time m ≤ env.time n)

include hcall hclock

theorem runDeleteVm_stays {result : DmlResult} (hi : r.state.tables[i]? = some t) (hq : NoCascade env r.state t.tableDef)
    (hvac : r.state.autoVacuum = false) (hnow : now ≤ env.time r.steps.length)
    (hrun : runDeleteVm env call depth i wc r = some (result, r')) : Stays now r r' := by
  obtain ⟨is, -, hfollow⟩ := steps_runDeleteVm hcall i wc r result r' hrun
  refine ⟨?_, (follow_settings hfollow).1, (Steps.later (steps_runDeleteVm hcall i wc) hrun).1⟩
  obtain ⟨-, -, hsame⟩ | ⟨-, auto, r₂, hset, hend, -⟩ := runDeleteVm_loop hi hq hrun
  · rw [hsame.tables]
    exact (Stays.refl now r).tables
  · have hlater : now ≤ startTime env r := hnow.trans (le_startTime hclock r)
    obtain ⟨r₃, hcommit, htables⟩ := commitAuto_run env auto r₂
    have hr' : r₃ = r' := by
      unfold endDelete at hend
      rw [if_neg (by rw [hvac]; exact Bool.false_ne_true)] at hend
      dsimp only at hend
      rw [bind_run hcommit] at hend
      exact (Prod.mk.inj (Option.some.inj hend)).2
    rw [← hr', htables, hset.tables]
    refine List.forall₂_iff_get.mpr ⟨(List.length_set ..).symm, fun k hk hk' => ?_⟩
    simp only [List.get_eq_getElem, List.getElem_set]
    obtain ⟨hlt, rfl⟩ := List.getElem?_eq_some_iff.mp hi
    split
    next hik =>
      subst hik
      exact ⟨deleteIds_def _ _ _ _, fun v hv he => mem_deleteIds (not_visible_of_expired he hlater _) _ hv⟩
    next => exact ⟨rfl, fun _ hv _ => hv⟩

theorem reapRows_stays (hi : r.state.tables[i]? = some t) (hq : NoCascade env r.state t.tableDef)
    (hvac : r.state.autoVacuum = false) (hnow : now ≤ env.time r.steps.length) {ids : List (BitVec 32)}
    (hrun : reapRows env call depth i t.tableDef ids r = some ((), r')) : Stays now r r' := by
  induction ids generalizing r t with
  | nil =>
    obtain rfl : r = r' := (Prod.mk.inj (Option.some.inj hrun)).2
    exact Stays.refl now r
  | cons id ids ih =>
    obtain ⟨⟨u, r₁⟩, hone, hrest⟩ := Option.bind_eq_some_iff.mp hrun
    obtain ⟨⟨result, r₂⟩, hdelete, hpure⟩ := Option.bind_eq_some_iff.mp hone
    obtain rfl : r₂ = r₁ := (Prod.mk.inj (Option.some.inj hpure)).2
    have hfirst := runDeleteVm_stays hcall hclock hi hq hvac hnow hdelete
    obtain ⟨t', hi', hdef, -⟩ := hfirst.get hi
    refine hfirst.trans (ih hi' (hdef ▸ hfirst.noCascade hq) (hfirst.autoVacuum.trans hvac) ?_ (hdef ▸ hrest))
    exact hnow.trans (hclock _ _ hfirst.steps)

theorem Quiet.reapTables_stays (hq : Quiet env target r.state) (hnow : now ≤ env.time r.steps.length) {is : List Nat}
    (hrun : reapTables env call depth target now is r = some (count, r')) : Stays now r r' := by
  induction is generalizing r count with
  | nil =>
    obtain rfl : r = r' := (Prod.mk.inj (Option.some.inj hrun)).2
    exact Stays.refl now r
  | cons i is ih =>
    obtain ⟨t, hi, ⟨hc, r₁, n, hrows, hrest, -⟩ | ⟨-, hrest⟩⟩ := reapTables_cons hrun
    · have hfirst := reapRows_stays hcall hclock hi (hq.plain t (List.mem_of_getElem? hi) hc) hq.autoVacuum hnow hrows
      exact hfirst.trans (ih (hfirst.quiet hq) (hnow.trans (hclock _ _ hfirst.steps)) hrest)
    · exact ih hq hnow hrest

end Calls

end Stays

/-! ## The whole pragma -/

section Whole

variable {env : DmlEnv} {target : Text} {now count : Nat} {t t' : RowTable}

/-- A snapshot newer than every stamp shows what stands and has not expired. -/
theorem length_rows_newest (t : RowTable) (now : Nat) {snapshot : Nat} (h : ∀ v ∈ t.cells, v.xmin ≤ snapshot ∧ v.xmax ≤ snapshot) :
    (t.rows snapshot now).length = (t.standing.filter fun v => !v.expired now).length := by
  unfold RowTable.rows RowTable.shown RowTable.standing
  rw [List.length_map, List.filter_filter]
  congr 1
  refine List.filter_congr fun v hv => ?_
  obtain ⟨hmin, hmax⟩ := h v hv
  simp only [Version.visible, Version.alive, Version.live, Version.expired]
  grind

/-- A snapshot newer than every stamp there is. -/
theorem exists_newest (vs : List Version) : ∃ n, ∀ v ∈ vs, v.xmin ≤ n ∧ v.xmax ≤ n := by
  induction vs with
  | nil => exact ⟨0, fun v hv => absurd hv List.not_mem_nil⟩
  | cons u vs ih =>
    obtain ⟨n, hn⟩ := ih
    refine ⟨n + u.xmin + u.xmax, fun v hv => ?_⟩
    rcases List.mem_cons.mp hv with rfl | hv
    · omega
    · have hle := hn v hv
      omega

/-- Where nothing that stands has expired, before and after, as many rows stand. -/
theorem length_standing {from' : Nat} (hkept : ∀ snapshot, from' ≤ snapshot → (t'.rows snapshot now).Perm (t.rows snapshot now))
    (ht : ∀ v ∈ t.standing, v.expired now = false) (ht' : ∀ v ∈ t'.standing, v.expired now = false) :
    t'.standing.length = t.standing.length := by
  have hall : ∀ u : RowTable, (∀ v ∈ u.standing, v.expired now = false) → (u.standing.filter fun v => !v.expired now) = u.standing := by
    intro u hu
    refine List.filter_eq_self.mpr fun v hv => ?_
    rw [hu v hv]
    rfl
  obtain ⟨n, hn⟩ := exists_newest (t.cells ++ t'.cells)
  have hlen := (hkept (from' + n) (Nat.le_add_right _ _)).length_eq
  rw [length_rows_newest t' now fun v hv => ?_, length_rows_newest t now fun v hv => ?_, hall t' ht', hall t ht] at hlen
  · exact hlen
  · have hle := hn v (List.mem_append_left _ hv)
    omega
  · have hle := hn v (List.mem_append_right _ hv)
    omega

theorem standingRows_eq {a b : List RowTable} {newest : Nat} (hdefs : List.Forall₂ (fun t t' => t'.tableDef = t.tableDef) a b)
    (hkept : List.Forall₂ (fun t t' : RowTable => ∀ snapshot, newest ≤ snapshot → (t'.rows snapshot now).Perm (t.rows snapshot now)) a b)
    (ha : ∀ t ∈ a, reapChosen target t.tableDef = true → ∀ v ∈ t.standing, v.expired now = false)
    (hb : ∀ t ∈ b, reapChosen target t.tableDef = true → ∀ v ∈ t.standing, v.expired now = false) :
    standingRows target b = standingRows target a := by
  induction hdefs with
  | nil => rfl
  | @cons t t' a b hdef _ ih =>
    cases hkept with
    | cons hhead hkept =>
      have hrest := ih hkept (fun u hu => ha u (List.mem_cons_of_mem _ hu)) fun u hu => hb u (List.mem_cons_of_mem _ hu)
      unfold standingRows at hrest ⊢
      cases hc : reapChosen target t.tableDef with
      | false =>
        simp only [List.filter_cons, hdef, hc, Bool.false_eq_true, if_false]
        exact hrest
      | true =>
        have hlen := length_standing hhead (ha t List.mem_cons_self hc) (hb t' List.mem_cons_self (by rw [hdef]; exact hc))
        simp only [List.filter_cons, hdef, hc, if_true, List.map_cons, List.sum_cons, hrest, hlen]

/-- The pragma does what it is for when nothing has expired, and on tables with nothing attached only then. -/
theorem reapExpired_iff (env : DmlEnv) (fuel depth : Nat) (target : Text) (r r' : Trace RowDb RowStep) (count : Nat)
    (hrun : reapExpired env (run env fuel) depth target r = some (count, r')) :
    (NoneExpired target (env.time r.steps.length) r.state →
      ReapsExactly target (env.time r.steps.length) r.state r'.state count) ∧
    (Quiet env target r.state → (ReapsExactly target (env.time r.steps.length) r.state r'.state count ↔
      NoneExpired target (env.time r.steps.length) r.state)) := by
  have hidle : NoneExpired target (env.time r.steps.length) r.state →
      ReapsExactly target (env.time r.steps.length) r.state r'.state count := by
    intro hnone
    obtain ⟨rfl, rfl⟩ := reapExpired_idle hnone hrun
    refine ⟨fun t ht hc v hv => hnone t ht hc v (List.mem_of_mem_filter hv), ?_, Nat.zero_add _⟩
    exact List.forall₂_same.mpr fun t _ snapshot _ => List.Perm.refl _
  refine ⟨hidle, fun hquiet => ⟨fun hreaps => ?_, hidle⟩⟩
  have hstays := hquiet.reapTables_stays (steps_run fuel) hquiet.clock (le_refl _) (reapExpired_run hrun)
  have hstanding : ∀ t ∈ r.state.tables, reapChosen target t.tableDef = true → ∀ v ∈ t.standing,
      v.expired (env.time r.steps.length) = false := by
    intro t ht hc v hv
    obtain ⟨hmem, hend⟩ := List.mem_filter.mp hv
    obtain ⟨i, hi⟩ := List.mem_iff_getElem?.mp ht
    obtain ⟨t', hi', hdef, hexpired⟩ := hstays.get hi
    by_contra he
    have hexp : v.expired (env.time r.steps.length) = true := by
      rw [Bool.not_eq_false] at he
      exact he
    have hgone := hreaps.gone t' (List.mem_of_getElem? hi') (by rw [hdef]; exact hc) v
      (List.mem_filter.mpr ⟨hexpired v hmem hexp, hend⟩)
    exact he hgone
  have hsame := standingRows_eq (hstays.tables.imp fun _ _ h => h.1) hreaps.kept hstanding hreaps.gone
  have hzero : count = 0 := by
    have hreported := hreaps.reported
    omega
  rw [hzero] at hrun
  exact reapExpired_zero hrun

end Whole

/-! ## A row whose time is over, and one under the same id -/

/-- The clock stands at 10. -/
def atTen : DmlEnv := { rowsEnv with time := fun _ => 10 }

/-- A table of one row that expired at 5, and one of a row that was ended with such a time and inserted anew. -/
def reapDb : RowDb :=
  ⟨[⟨compositeKey, [{ pairRow 1 10 with expireAt := 5 }]⟩,
    ⟨compositeKey, [pairRow 1 20, { pairRow 1 10 with expireAt := 5, xmax := 1 }]⟩], none, false, 1, false⟩

/-- What the pragma prints, and which rows stand after it. -/
def reaped (db : RowDb) : Option (Nat × List (List (List (BitVec 32) × Nat))) :=
  (reapExpired atTen (run atTen 0) 0 [] ⟨db, []⟩).map fun r =>
    (r.1, r.2.state.tables.map fun t => t.standing.map fun v => rowInts (v.values, v.expireAt))

/-- Nothing to reap. -/
theorem reapExpired_twoPairs : ∃ r', reapExpired atTen (run atTen 0) 0 [] ⟨twoPairsDb, []⟩ = some (0, r') ∧
    ReapsExactly [] 10 twoPairsDb r'.state 0 := by
  have hrun : (reaped twoPairsDb).map Prod.fst = some 0 := by decide
  obtain ⟨⟨count, stand⟩, hreaped, hzero⟩ := Option.map_eq_some_iff.mp hrun
  obtain ⟨⟨count', r'⟩, hrun, hpair⟩ := Option.map_eq_some_iff.mp hreaped
  obtain rfl : count' = 0 := (Prod.mk.inj hpair).1.trans hzero
  refine ⟨r', hrun, (reapExpired_iff atTen 0 0 [] ⟨twoPairsDb, []⟩ r' 0 hrun).1 fun t ht _ => ?_⟩
  rw [List.mem_singleton.mp ht]
  decide

/-- The pragma says that it removed two rows: the one that expired is still there, and one that had not is gone. -/
theorem reapExpired_wrong_row :
    reaped reapDb = some (2, [[([1, 10], 5)], []]) ∧
    ∃ r', reapExpired atTen (run atTen 0) 0 [] ⟨reapDb, []⟩ = some (2, r') ∧ ¬ReapsExactly [] 10 reapDb r'.state 2 := by
  have hreaped : reaped reapDb = some (2, [[([1, 10], 5)], []]) := by decide
  obtain ⟨⟨count, r'⟩, hrun, hpair⟩ := Option.map_eq_some_iff.mp hreaped
  obtain ⟨rfl, hstand⟩ := Prod.mk.inj hpair
  have hstanding : (reapExpired atTen (run atTen 0) 0 [] ⟨reapDb, []⟩).map (fun r => standingRows [] r.2.state.tables) =
      some 1 := by decide
  rw [hrun] at hstanding
  have hafter : standingRows [] r'.state.tables = 1 := Option.some.inj hstanding
  refine ⟨hreaped, r', hrun, fun h => ?_⟩
  have hreported := h.reported
  have hbefore : standingRows [] reapDb.tables = 2 := by decide
  omega

end CustomDB
