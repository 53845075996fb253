import CustomDB.Exec.Ddl

/-!
# What a ROLLBACK undoes of schema statements

The pages come back where the statement stores to captured pages only and `catalog_save` has no flush to make. The
catalog in memory comes back only where the front end loads it anew, or where no statement changed it.
-/

namespace CustomDB

open Lib Pager

variable {B : Type} [PageBody B] {env : DdlEnv B} {s s' : Database B} {b : Pager B} {P : Set Nat}

/-! ## The condition on a statement -/

/-- A statement that finds nothing to do: the catalog has no room, or the name is there or missing. -/
def Refused (s : Database B) : Ddl → Prop
  | .createTable d _ => maxTables ≤ s.catalog.tables.length ∨ (s.catalog.findTable d.name.str).isSome = true
  | .dropTable name => s.catalog.findTable name = none
  | .createIndex name col _ => ∀ i d c, s.catalog.findTable name = some i → s.catalog.tables[i]? = some d →
      d.findColumn col = some c → (d.columns[c]?.map Column.hasIndex).getD true = true
  | .alterTable name (.rename new) => s.catalog.findTable name = none ∨ (s.catalog.findTable new).isSome = true
  | .alterTable name (.addColumn _) => ∀ i d, s.catalog.findTable name = some i → s.catalog.tables[i]? = some d →
      maxColumns ≤ d.columns.length
  | .alterTable name (.dropColumn col) => ∀ i d, s.catalog.findTable name = some i → s.catalog.tables[i]? = some d →
      d.findColumn col = none
  | .createView _ _ => s.views.numViews = maxViews
  | .dropView name => s.views.findView name = none
  | .createTrigger .. => s.views.numTriggers = maxViews
  | .dropTrigger name => s.views.findTrigger name = none

/-- The page of a new root is taken off the free list only where the list's pages are captured. -/
def RootOk (s : Database B) : Prop := s.pager.Undoable .alloc

/-- The tree stores to captured pages only. -/
def FillOk (env : DdlEnv B) (s : Database B) (d : TableDef) (root : Nat) : Prop :=
  Run.Meets Pager.act Undoable s.pager (env.fillTree s d root)

/-- The rows of a rewritten table go to captured pages only. -/
def RewriteOk (env : DdlEnv B) (s : Database B) (d : TableDef) : Prop :=
  FillOk env (s.newRoot env) (d.atRoot s.unusedPage) s.unusedPage

/-- Where a rollback can undo what an accepted statement does to the pages. -/
def StoresOk (env : DdlEnv B) (s : Database B) : Ddl → Prop
  | .createTable d e => RootOk s.reserved ∧ (d.withHistory = true → RootOk (createOne env s d e).2.reserved)
  | .dropTable name => s.autoVacuum = false ∧ ∀ i d, s.catalog.findTable name = some i → s.catalog.tables[i]? = some d →
      ∀ p ∈ d.roots, s.pager.Sheltered p ∧ s.pager.Sheltered 0
  | .createIndex name col x => RootOk s ∧ ∀ i d c, s.catalog.findTable name = some i → s.catalog.tables[i]? = some d →
      d.findColumn col = some c →
        FillOk env (withIndex env s.ensureWriteLock.2 i c d x) (d.addIndex c x s.ensureWriteLock.2.unusedPage)
          s.ensureWriteLock.2.unusedPage
  | .alterTable _ (.rename _) => True
  | .alterTable name (.addColumn c) => RootOk s ∧ ∀ i d, s.catalog.findTable name = some i →
      s.catalog.tables[i]? = some d → ∀ h, RewriteOk env s.ensureWriteLock.2 (d.addColumn c h)
  | .alterTable name (.dropColumn col) => RootOk s ∧ ∀ i d c, s.catalog.findTable name = some i →
      s.catalog.tables[i]? = some d → d.findColumn col = some c → RewriteOk env s.ensureWriteLock.2 (d.dropColumn c)
  | _ => True

/-- Where a ROLLBACK undoes a statement: it finds nothing to do, or the front end loads the catalog anew, no flush of
`catalog_save` reaches the file, and the stores can be undone. -/
def StatementOk (env : DdlEnv B) (reload : Bool) (s : Database B) (stmt : Ddl) : Prop :=
  s.pager.Unmoved ∧ (Refused s stmt ∨
    reload = true ∧ (s.pager.isMemory = true ∨ s.pager.useWal = true) ∧ StoresOk env s stmt)

/-! ## Pieces of a statement -/

omit [PageBody B] in
theorem confined_catalogActs (img : CatalogImage B) (P : Set Nat) : Confined P (catalogActs img) := by
  have hloop : ∀ (ts : List Nat) (P : Set Nat) (rest : List (PageAct B)), (∀ P : Set Nat, 0 ∈ P → Confined P rest) → 0 ∈ P →
      Confined P ((ts.flatMap fun t => [.shadow (entryPage t), .modify (entryPage t) (onBody (img.entry t))]) ++ rest) := by
    intro ts
    induction ts with
    | nil => exact fun P rest hrest h0 => hrest P h0
    | cons t ts ih => exact fun P rest hrest h0 => ⟨Or.inl rfl, ih _ rest hrest (Or.inr h0)⟩
  unfold catalogActs
  rw [List.append_assoc]
  refine ⟨Or.inl rfl, hloop _ _ _ (fun P h0 => ?_) (Or.inl rfl)⟩
  exact ⟨Or.inl rfl, Or.inr h0, trivial⟩

theorem catalogSave_held (h : Held b s.pager P) (hfit : Fits b) : Held b (s.catalogSave env).pager P := by
  unfold Database.catalogSave
  split
  · exact h
  · exact h.run hfit (confined_catalogActs _ P)

theorem newRoot_held (h : Held b s.pager P) (hfit : Fits b) (hr : RootOk s) : Held b (s.newRoot env).pager P := by
  have h₁ := h.act hfit hr
  have hroot : Confined P [.shadow s.unusedPage, .modify s.unusedPage (onBody env.initializeRootLeaf)] :=
    ⟨Or.inl rfl, trivial⟩
  exact h₁.run hfit hroot

/-- The write lock, which nobody else holds. -/
theorem ensure_held (h : ∃ j, Undo b s.pager j) (hfit : Fits b) (hn : s.pager.Unmoved)
    (hq : s.pager.isMemory = true ∨ s.pager.useWal = true) :
    ∃ s₁, s.ensureWriteLock = (true, s₁) ∧ Held b s₁.pager {p | s.pager.Sheltered p} ∧
      (∃ p, s₁ = { s with pager := p }) ∧ (RootOk s → RootOk s₁) ∧ (RootOk s.reserved → RootOk s₁.reserved) := by
  obtain ⟨j, h⟩ := h
  obtain ⟨p, he, ⟨j', h'⟩, hw, hhead, hres, hsh⟩ := h.ensure hfit hn
  have hact : Run.run Pager.act s.pager [.ensure] = p := by
    show s.pager.pagerEnsureWriteLock.2 = p
    rw [he]
  refine ⟨{ s with pager := p }, ?_, ⟨⟨j', h'⟩, hw, fun q hq => hsh q hq, ?_⟩, ⟨p, rfl⟩, fun hr hp => ?_, fun hr hp => ?_⟩
  · unfold Database.ensureWriteLock Database.pageActs
    rw [hact, he]
  · rw [h'.isMemory, h'.useWal, ← h.isMemory, ← h.useWal]
    exact hq
  · have hp' : s.pager.Pops := by
      unfold Pops at hp ⊢
      rw [← hhead, ← hres]
      exact hp
    rw [show ({ s with pager := p } : Database B).pager.freelistHead = s.pager.freelistHead from hhead]
    exact ⟨hsh _ (hr hp').1, hsh _ (hr hp').2⟩
  · have hp' : s.reserved.pager.Pops := by
      have hh : s.reserved.pager.freelistHead = p.freelistHead := hhead.symm
      unfold Pops
      rw [hh]
      exact hp
    have hgoal := hr hp'
    have hh : ({ s with pager := p } : Database B).reserved.pager.freelistHead = s.reserved.pager.freelistHead := hhead
    rw [hh]
    exact ⟨hsh _ hgoal.1, hsh _ hgoal.2⟩

/-! ## The pages after a statement -/

/-- The transaction is one that a rollback undoes. -/
def Inside (b : Pager B) (s : Database B) : Prop := ∃ j, Undo b s.pager j

theorem createOne_held (h : Held b s.pager P) (hfit : Fits b) (hr : RootOk s.reserved) (d : TableDef) (e : Bool) :
    Held b (createOne env s d e).2.pager P := by
  obtain ⟨j, -, hw⟩ := h.writing
  have hens : s.ensureWriteLock = (true, s) := by
    unfold Database.ensureWriteLock Database.pageActs
    rw [Run.run_cons, Pager.act, hw.ensure]
    rfl
  unfold createOne
  split
  · split
    · exact h
    · rw [hens]
      refine catalogSave_held ?_ hfit
      exact newRoot_held (h.act hfit (a := .reserve _) trivial) hfit hr
  · exact h

theorem createOne_inside (h : Inside b s) (hfit : Fits b) (hn : s.pager.Unmoved)
    (hq : s.pager.isMemory = true ∨ s.pager.useWal = true) (hr : RootOk s.reserved) (d : TableDef) (e : Bool)
    (hroom : s.catalog.tables.length < maxTables) (hnew : (s.catalog.findTable d.name.str).isSome = false) :
    Held b (createOne env s d e).2.pager {p | s.pager.Sheltered p} := by
  obtain ⟨s₁, he, hheld, ⟨p, rfl⟩, -, hres⟩ := ensure_held h hfit hn hq
  unfold createOne
  rw [dif_pos hroom, if_neg (by simp [hnew]), he]
  refine catalogSave_held ?_ hfit
  exact newRoot_held (hheld.act hfit (a := .reserve _) trivial) hfit (hres hr)

theorem executeCreateTable_inside (h : Inside b s) (hfit : Fits b) (hn : s.pager.Unmoved)
    (hq : s.pager.isMemory = true ∨ s.pager.useWal = true) (d : TableDef) (e : Bool)
    (hok : StoresOk env s (.createTable d e)) (hno : ¬ Refused s (.createTable d e)) :
    Inside b (executeCreateTable env s d e).2 := by
  obtain ⟨hroom, hnew⟩ := not_or.mp hno
  have hroom : s.catalog.tables.length < maxTables := Nat.not_le.mp hroom
  have h₁ : Held b (createOne env s d e).2.pager _ := createOne_inside h hfit hn hq hok.1 d e hroom (by simpa using hnew)
  unfold executeCreateTable
  split
  · next s' he =>
    rw [he] at h₁
    split
    · next hc =>
      have hhist : d.withHistory = true := (Bool.and_eq_true_iff.mp hc).2
      have hr := hok.2 hhist
      rw [he] at hr
      exact (createOne_held h₁ hfit hr _ _).undo
    · exact h₁.undo
  · exact h₁.undo

omit [PageBody B] in
/-- The definition that `catalog_find` finds. -/
theorem findTable_getElem {cat : Catalog} {name : Text} {i : Nat} (h : cat.findTable name = some i) :
    ∃ d, cat.tables[i]? = some d := by
  obtain ⟨hi, -⟩ := List.findIdx?_eq_some_iff_getElem.mp h
  exact ⟨cat.tables[i], List.getElem?_eq_getElem hi⟩

theorem executeDropTable_inside (h : Inside b s) (hfit : Fits b) (hn : s.pager.Unmoved)
    (hq : s.pager.isMemory = true ∨ s.pager.useWal = true) (name : Text) (hok : StoresOk env s (.dropTable name)) :
    Inside b (executeDropTable env s name).2 := by
  obtain ⟨s₁, he, hheld, ⟨p, rfl⟩, -⟩ := ensure_held h hfit hn hq
  unfold executeDropTable
  split
  · exact h
  · next i hi =>
    obtain ⟨d, hd⟩ := findTable_getElem hi
    have hroots : ∀ (ps : List Nat), (∀ p ∈ ps, s.pager.Sheltered p ∧ s.pager.Sheltered 0) →
        Confined {p | s.pager.Sheltered p} (ps.map (.free (B := B))) := by
      intro ps
      induction ps with
      | nil => exact fun _ => trivial
      | cons q ps ih =>
        exact fun hps => ⟨hps q (List.mem_cons_self ..), ih fun p hp => hps p (List.mem_cons_of_mem _ hp)⟩
    rw [he]
    simp only [hd, Option.map_some, Option.getD_some]
    unfold Database.vacuumed
    have hav : ∀ (t : Database B), (t.catalogSave env).autoVacuum = t.autoVacuum := fun t => by
      unfold Database.catalogSave Database.pageActs
      split <;> rfl
    rw [hav, if_neg (by simp [Database.pageActs, hok.1])]
    exact (catalogSave_held (hheld.run hfit (hroots _ (hok.2 i d hi hd))) hfit).undo

theorem executeCreateIndex_inside (h : Inside b s) (hfit : Fits b) (hn : s.pager.Unmoved)
    (hq : s.pager.isMemory = true ∨ s.pager.useWal = true) (name col : Text) (x : IndexSpec)
    (hok : StoresOk env s (.createIndex name col x)) : Inside b (executeCreateIndex env s name col x).2 := by
  obtain ⟨s₁, he, hheld, ⟨p, rfl⟩, hroot, -⟩ := ensure_held h hfit hn hq
  unfold executeCreateIndex
  split
  · exact h
  · next i hi =>
    rw [he]
    simp only
    split
    · exact hheld.undo
    · next d hd =>
      split
      · exact hheld.undo
      · next c hc =>
        split
        · exact hheld.undo
        · have hfill := hok.2 i d c hi hd hc
          rw [he] at hfill
          have hidx : Held b (withIndex env { s with pager := p } i c d x).pager {p | s.pager.Sheltered p} :=
            catalogSave_held (newRoot_held hheld hfit (hroot hok.1)) hfit
          exact (hidx.meets hfit hfill).undo

theorem rewriteTable_inside {s : Database B} (h : Held b s.pager P) (hfit : Fits b) (hr : RootOk s) (i : Nat) (d : TableDef)
    (hfill : RewriteOk env s d) : Inside b (rewriteTable env s i d).2 := by
  have hroot : Held b (s.newRoot env).pager P := newRoot_held h hfit hr
  have hfilled := hroot.meets hfit hfill
  exact (catalogSave_held (s := { (s.newRoot env).pageActs _ with catalog := _ }) hfilled hfit).undo

theorem executeAlterTable_inside (h : Inside b s) (hfit : Fits b) (hn : s.pager.Unmoved)
    (hq : s.pager.isMemory = true ∨ s.pager.useWal = true) (name : Text) (a : AlterAction)
    (hok : StoresOk env s (.alterTable name a)) : Inside b (executeAlterTable env s name a).2 := by
  obtain ⟨s₁, he, hheld, ⟨p, rfl⟩, hroot, -⟩ := ensure_held h hfit hn hq
  unfold executeAlterTable
  split
  · exact h
  · next i hi =>
    obtain ⟨d, hd⟩ := findTable_getElem hi
    rw [he]
    cases a with
    | rename new =>
      simp only [hd]
      split
      · exact hheld.undo
      · exact (catalogSave_held (s := { s with pager := p, catalog := s.catalog.renameTable i name new }) hheld hfit).undo
    | addColumn c =>
      simp only [hd]
      split
      · next hlt =>
        have hfill := hok.2 i d hi hd hlt
        rw [he] at hfill
        exact rewriteTable_inside hheld hfit (hroot hok.1) i _ hfill
      · exact hheld.undo
    | dropColumn col =>
      simp only [hd]
      split
      · exact hheld.undo
      · next c hc =>
        have hfill := hok.2 i d c hi hd hc
        rw [he] at hfill
        exact rewriteTable_inside hheld hfit (hroot hok.1) i _ hfill

theorem executeViews_inside (h : Inside b s) (hfit : Fits b) (hn : s.pager.Unmoved)
    (hq : s.pager.isMemory = true ∨ s.pager.useWal = true) (edit : Option ViewCatalog) (r : ExecuteResult) :
    Inside b (executeViews env s edit r).2 := by
  obtain ⟨s₁, he, hheld, ⟨p, rfl⟩, -⟩ := ensure_held h hfit hn hq
  unfold executeViews
  split
  · exact h
  · next vt =>
    rw [he]
    exact (catalogSave_held (s := { s with pager := p, views := vt }) hheld hfit).undo

/-- An accepted statement leaves a transaction that a rollback undoes. -/
theorem executeDdl_inside (h : Inside b s) (hfit : Fits b) (hn : s.pager.Unmoved)
    (hq : s.pager.isMemory = true ∨ s.pager.useWal = true) (stmt : Ddl) (hok : StoresOk env s stmt)
    (hno : ¬ Refused s stmt) : Inside b (executeDdl env s stmt).2 := by
  cases stmt with
  | createTable d e => exact executeCreateTable_inside h hfit hn hq d e hok hno
  | dropTable name => exact executeDropTable_inside h hfit hn hq name hok
  | createIndex name col x => exact executeCreateIndex_inside h hfit hn hq name col x hok
  | alterTable name a => exact executeAlterTable_inside h hfit hn hq name a hok
  | createView name sql => exact executeViews_inside h hfit hn hq _ _
  | dropView name => exact executeViews_inside h hfit hn hq _ _
  | createTrigger name table timing event action => exact executeViews_inside h hfit hn hq _ _
  | dropTrigger name => exact executeViews_inside h hfit hn hq _ _

/-! ## A refused statement -/

/-- The catalog in memory is the same. -/
structure SameCatalog (s s' : Database B) : Prop where
  catalog : s'.catalog = s.catalog
  views : s'.views = s.views
  autoVacuum : s'.autoVacuum = s.autoVacuum

omit [PageBody B] in
theorem SameCatalog.trans {t : Database B} (h : SameCatalog s s') (h' : SameCatalog s' t) : SameCatalog s t :=
  ⟨h'.catalog.trans h.catalog, h'.views.trans h.views, h'.autoVacuum.trans h.autoVacuum⟩

/-- What a refused statement leaves: at most the write lock is new. -/
structure Idles (b : Pager B) (s s' : Database B) : Prop where
  inside : Inside b s'
  same : SameCatalog s s'

theorem Idles.refl (h : Inside b s) : Idles b s s := ⟨h, rfl, rfl, rfl⟩

theorem ensure_idles (h : Inside b s) (hfit : Fits b) (hn : s.pager.Unmoved) {x : Bool}
    (he : s.ensureWriteLock = (x, s')) : Idles b s s' := by
  obtain ⟨-, rfl⟩ := Prod.mk.inj he
  obtain ⟨j, h⟩ := h
  exact ⟨h.act hfit (a := .ensure) hn, rfl, rfl, rfl⟩

theorem executeAlterTable_refused (h : Inside b s) (hfit : Fits b) (hn : s.pager.Unmoved) (name : Text) (a : AlterAction)
    (hr : Refused s (.alterTable name a)) : Idles b s (executeAlterTable env s name a).2 := by
  unfold executeAlterTable
  split
  · exact Idles.refl h
  · next i hi =>
    obtain ⟨d, hd⟩ := findTable_getElem hi
    split
    · next he => exact ensure_idles h hfit hn he
    · next s₁ he =>
      have hid := ensure_idles h hfit hn he
      have hcat := hid.same.catalog
      cases a with
      | rename new =>
        have hnew : (s.catalog.findTable new).isSome = true := by
          rcases hr with hr | hr
          · rw [hi] at hr
            cases hr
          · exact hr
        simp only [hcat, hd, hnew]
        exact hid
      | addColumn c =>
        have hfull := hr i d hi hd
        simp only [hcat, hd]
        rw [dif_neg (by omega)]
        exact hid
      | dropColumn col =>
        have hcol := hr i d hi hd
        simp only [hcat, hd, hcol]
        exact hid

theorem executeCreateIndex_refused (h : Inside b s) (hfit : Fits b) (hn : s.pager.Unmoved) (name col : Text) (x : IndexSpec)
    (hr : Refused s (.createIndex name col x)) : Idles b s (executeCreateIndex env s name col x).2 := by
  unfold executeCreateIndex
  split
  · exact Idles.refl h
  · next i hi =>
    split
    · next he => exact ensure_idles h hfit hn he
    · next s₁ he =>
      have hid := ensure_idles h hfit hn he
      have hcat := hid.same.catalog
      rw [hcat]
      split
      · exact hid
      · next d hd =>
        split
        · exact hid
        · next c hc =>
          rw [if_pos (hr i d c hi hd hc)]
          exact hid

theorem executeCreateTable_refused (d : TableDef) (e : Bool) (hr : Refused s (.createTable d e)) :
    (executeCreateTable env s d e).2 = s := by
  by_cases hroom : s.catalog.tables.length < maxTables
  · have hname := hr.resolve_left (Nat.not_le.mpr hroom)
    have hone : createOne env s d e = (if e then .success else .tableExists, s) := by
      unfold createOne
      rw [dif_pos hroom, if_pos hname]
    have hnone : (s.catalog.findTable d.name.str).isNone = false := by
      rw [← Option.not_isSome, hname]
      rfl
    unfold executeCreateTable
    rw [hone, hnone]
    cases e <;> rfl
  · have hone : createOne env s d e = (.catalogFull, s) := by
      unfold createOne
      rw [dif_neg hroom]
    unfold executeCreateTable
    rw [hone]

/-- A refused statement changes nothing but the lock. -/
theorem executeDdl_refused (h : Inside b s) (hfit : Fits b) (hn : s.pager.Unmoved) (stmt : Ddl) (hr : Refused s stmt) :
    Idles b s (executeDdl env s stmt).2 := by
  cases stmt with
  | createTable d e =>
    show Idles b s (executeCreateTable env s d e).2
    rw [executeCreateTable_refused d e hr]
    exact Idles.refl h
  | dropTable name =>
    show Idles b s (executeDropTable env s name).2
    unfold executeDropTable
    rw [show s.catalog.findTable name = none from hr]
    exact Idles.refl h
  | createIndex name col x => exact executeCreateIndex_refused h hfit hn name col x hr
  | alterTable name a => exact executeAlterTable_refused h hfit hn name a hr
  | createView name sql =>
    have hfull : s.views.createView name sql = none := dif_neg (by rw [show s.views.numViews = maxViews from hr]; omega)
    show Idles b s (executeViews env s (s.views.createView name sql) .badSchema).2
    rw [hfull]
    exact Idles.refl h
  | dropView name =>
    show Idles b s (executeViews env s ((s.views.findView name).map s.views.dropView) .tableNotFound).2
    rw [show s.views.findView name = none from hr]
    exact Idles.refl h
  | createTrigger name table timing event action =>
    have hfull : s.views.createTrigger name table timing event action = none :=
      dif_neg (by rw [show s.views.numTriggers = maxViews from hr]; omega)
    show Idles b s (executeViews env s (s.views.createTrigger name table timing event action) .badSchema).2
    rw [hfull]
    exact Idles.refl h
  | dropTrigger name =>
    show Idles b s (executeViews env s ((s.views.findTrigger name).map s.views.dropTrigger) .tableNotFound).2
    rw [show s.views.findTrigger name = none from hr]
    exact Idles.refl h

/-! ## Loading the catalog -/

/-- The same views and triggers, up to what lies behind the counts. -/
structure ViewCatalog.Same (vt vt' : ViewCatalog) : Prop where
  numViews : vt'.numViews = vt.numViews
  views : ∀ i, i.val < vt.numViews → vt'.views i = vt.views i
  numTriggers : vt'.numTriggers = vt.numTriggers
  triggers : ∀ i, i.val < vt.numTriggers → vt'.triggers i = vt.triggers i

/-- What `catalog_load` takes from page 15 does not depend on what was in memory. -/
theorem ViewCatalog.load_same {vt₁ vt₂ vt : ViewCatalog} {m : Memory.Mem} (h : vt.Same (vt₁.load m)) :
    vt.Same (vt₂.load m) := by
  refine ⟨h.numViews, fun i hi => ?_, h.numTriggers, fun i hi => ?_⟩
  · have hlt : i.val < loadCount m 0 := lt_of_lt_of_eq hi h.numViews.symm
    rw [← h.views i hi]
    show (if _ then _ else _) = if _ then _ else _
    rw [if_pos hlt, if_pos hlt]
  · have hlt : i.val < loadCount m (4 + sizeofView * 4) := lt_of_lt_of_eq hi h.numTriggers.symm
    rw [← h.triggers i hi]
    show (if _ then _ else _) = if _ then _ else _
    rw [if_pos hlt, if_pos hlt]

/-- `catalog_load` from pages with these bytes gives the catalog of the connection. -/
structure Database.LoadedFrom (s : Database B) (m : Nat → Memory.Mem) : Prop where
  tables : loadTables m = s.catalog.tables
  views : s.views.Same (s.views.load (m 15))
  autoVacuum : loadAutoVacuum (m 15) = s.autoVacuum

theorem mem_catalogPages {m : Memory.Mem} {p : Nat} :
    p ∈ catalogPages m ↔ (∃ t < loadNumTables m, entryPage t = p) ∨ p = 15 := by
  simp [catalogPages]

theorem loadTables_congr {m m' : Nat → Memory.Mem} (h : ∀ p ∈ 0 :: catalogPages (m 0), m' p = m p) :
    loadTables m' = loadTables m := by
  have h0 : m' 0 = m 0 := h 0 (List.mem_cons_self ..)
  unfold loadTables
  rw [h0]
  apply List.map_congr_left
  intro t ht
  have hmem : entryPage t ∈ catalogPages (m 0) := mem_catalogPages.mpr (Or.inl ⟨t, List.mem_range.mp ht, rfl⟩)
  rw [h _ (List.mem_cons_of_mem _ hmem)]

omit [PageBody B] in
/-- Only the catalog's pages count. -/
theorem Database.LoadedFrom.congr {m m' : Nat → Memory.Mem} (h : s.LoadedFrom m)
    (hm : ∀ p ∈ 0 :: catalogPages (m 0), m' p = m p) : s.LoadedFrom m' := by
  have h15 : m' 15 = m 15 := hm 15 (List.mem_cons_of_mem _ (mem_catalogPages.mpr (Or.inr rfl)))
  refine ⟨(loadTables_congr hm).trans h.tables, ?_, ?_⟩
  · rw [h15]
    exact h.views
  · rw [h15]
    exact h.autoVacuum

theorem loadHead_inside (h : Inside b s) (hfit : Fits b) : Inside b s.loadHead := by
  obtain ⟨j, h⟩ := h
  obtain ⟨j', h'⟩ := h.act hfit (a := .read 0) trivial
  exact ⟨j', h'.setHead 33 _ _⟩

theorem reads_inside (h : Inside b s) (hfit : Fits b) (ps : List Nat) : Inside b (s.pageActs (ps.map .read)) := by
  obtain ⟨j, h⟩ := h
  refine h.run hfit fun pre a post he => ?_
  have ha : a ∈ ps.map PageAct.read := by
    rw [he]
    simp
  obtain ⟨p, -, rfl⟩ := List.mem_map.mp ha
  trivial

theorem catalogLoad_pager (env : DdlEnv B) (s : Database B) : (s.catalogLoad env).pager = (s.readCatalog env).pager := by
  unfold Database.catalogLoad
  dsimp only

theorem catalogLoad_inside (h : Inside b s) (hfit : Fits b) : Inside b (s.catalogLoad env) := by
  unfold Inside
  rw [catalogLoad_pager]
  unfold Database.readCatalog
  exact reads_inside (loadHead_inside h hfit) hfit _

/-! ## A run of statements -/

/-- One statement where a ROLLBACK undoes it. -/
theorem frontEnd_inside {reload : Bool} {stmt : Ddl} (h : Inside b s) (hfit : Fits b) (hok : StatementOk env reload s stmt) :
    Inside b (frontEnd env reload s stmt) ∧ (reload = false → SameCatalog s (frontEnd env reload s stmt)) := by
  obtain ⟨hn, hok⟩ := hok
  have hexec : Inside b (executeDdl env s stmt).2 ∧ (reload = false → SameCatalog s (executeDdl env s stmt).2) := by
    by_cases hr : Refused s stmt
    · have hid : Idles b s (executeDdl env s stmt).2 := executeDdl_refused h hfit hn stmt hr
      exact ⟨hid.inside, fun _ => hid.same⟩
    · obtain ⟨hre, hq, hst⟩ := hok.resolve_left hr
      refine ⟨executeDdl_inside h hfit hn hq stmt hst hr, fun hf => ?_⟩
      rw [hre] at hf
      cases hf
  unfold frontEnd
  split
  · next he =>
    rw [he] at hexec
    cases reload with
    | false => exact hexec
    | true => exact ⟨catalogLoad_inside hexec.1 hfit, fun hf => by cases hf⟩
  · next he =>
    rw [he] at hexec
    exact hexec

theorem frontEnd_run {reload : Bool} {stmts : List Ddl} (h : Inside b s) (hfit : Fits b)
    (hok : Run.Meets (frontEnd env reload) (StatementOk env reload) s stmts) :
    Inside b (Run.run (frontEnd env reload) s stmts) ∧
      (reload = false → SameCatalog s (Run.run (frontEnd env reload) s stmts)) :=
  hok.invariant (fun _ t => Inside b t ∧ (reload = false → SameCatalog s t)) ⟨h, fun _ => ⟨rfl, rfl, rfl⟩⟩
    fun _ _ _ _ ht ha => by
      obtain ⟨hin, hsame⟩ := frontEnd_inside ht.1 hfit ha
      exact ⟨hin, fun hf => (ht.2 hf).trans (hsame hf)⟩

/-! ## After the ROLLBACK -/

/-- BEGIN finds a connection whose catalog is the one on its pages, and whose pages are those of its files. -/
structure InSync (env : DdlEnv B) (s : Database B) : Prop where
  loaded : s.LoadedFrom (s.bytes env)
  pages : ∀ p ∈ 0 :: catalogPages (s.bytes env 0), p < s.pager.numPages
  agrees : Agrees s.pager

/-- The ROLLBACK gave the catalog of BEGIN back, in memory and in the file, and the pages of the tables. -/
structure Transactional (env : DdlEnv B) (s s' : Database B) : Prop where
  catalog : s'.catalog = s.catalog
  views : s.views.Same s'.views
  autoVacuum : s'.autoVacuum = s.autoVacuum
  file : s.pager.isMemory = false → s.LoadedFrom fun p => env.bytes (found s'.pager.disk p).body
  rows : ∀ p < s.pager.numPages, s'.pager.view p = s.pager.view p

omit [PageBody B] in
theorem Catalog.eq_of_tables {c d : Catalog} (h : c.tables = d.tables) : c = d := by
  cases c
  cases d
  subst h
  rfl

theorem loadHead_shows {t : Database B} {n : Nat} {f : Nat → Page B} {m : Bool} (h : Pager.Shows n f (t.pager.getPage 0) m) :
    Pager.Shows n f t.loadHead.pager m := by
  unfold Database.loadHead
  exact h.setHead 33 _ _

theorem readCatalog_shows {t : Database B} {n : Nat} {f : Nat → Page B} {m : Bool} (h : Pager.Shows n f (t.pager.getPage 0) m) :
    Pager.Shows n f (t.readCatalog env).pager m := by
  unfold Database.readCatalog Database.pageActs
  dsimp only
  exact (loadHead_shows h).reads _

theorem readCatalog_loaded {t : Database B} {m : Bool} (hsync : InSync env s)
    (h : Pager.Shows s.pager.numPages s.pager.view t.pager m) : s.LoadedFrom (t.bytes env) :=
  hsync.loaded.congr fun p hp => congrArg (fun x : Page B => env.bytes x.body) (h.view (hsync.pages p hp))

/-- What `catalog_load` finds where the pager shows the pages of `s`. -/
theorem catalogLoad_shows {t : Database B} {m : Bool} (hsync : InSync env s)
    (hshow : Pager.Shows s.pager.numPages s.pager.view (t.pager.getPage 0) m) :
    Pager.Shows s.pager.numPages s.pager.view (t.catalogLoad env).pager m ∧ (t.catalogLoad env).catalog = s.catalog ∧
      s.views.Same (t.catalogLoad env).views ∧ (t.catalogLoad env).autoVacuum = s.autoVacuum := by
  have hpager : Pager.Shows s.pager.numPages s.pager.view (t.readCatalog env).pager m := readCatalog_shows hshow
  have hload := readCatalog_loaded hsync hpager
  rw [catalogLoad_pager]
  exact ⟨hpager, Catalog.eq_of_tables hload.tables, ViewCatalog.load_same hload.views, hload.autoVacuum⟩

/-- Schema statements between BEGIN and ROLLBACK: where each finds nothing to do, or the front end loads the catalog
anew, no flush of `catalog_save` reaches the file and the stores are to captured pages, the ROLLBACK gives back the
catalog of BEGIN, in memory and in the file, and the pages of every table. -/
theorem ddl_transactional (env : DdlEnv B) (reload : Bool) {s s' : Database B} {p : Pager B} {stmts : List Ddl}
    (hi : Idle s.pager) (hb : s.pager.pagerBeginTransaction = (true, p)) (hfit : Fits p)
    (hsync : InSync env { s with pager := p })
    (hok : Run.Meets (frontEnd env reload) (StatementOk env reload) { s with pager := p } stmts)
    (hr : frontEndRollback env reload (Run.run (frontEnd env reload) { s with pager := p } stmts) = some s') :
    Transactional env { s with pager := p } s' := by
  have hundo := begin_undo hi hb hfit
  have hreading := (begin_readPhase hi hb hfit).reading
  have hpos : 0 < p.numPages := hsync.pages 0 (List.mem_cons_self ..)
  have hstart : Inside p { s with pager := p } := ⟨[], hundo⟩
  obtain ⟨⟨j, hin⟩, hsame⟩ := frontEnd_run hstart hfit hok
  generalize Run.run (frontEnd env reload) { s with pager := p } stmts = t at hin hsame hr
  obtain ⟨q, hq, hs'⟩ := Option.map_eq_some_iff.mp hr
  have hback : Undone p q := hin.rollback hfit hpos hreading.notWriter hreading.noFile hq
  cases reload with
  | true =>
    obtain rfl : ({ t with pager := q } : Database B).catalogLoad env = s' := hs'
    obtain ⟨hshow, hcat, hviews, hav⟩ := catalogLoad_shows (t := { t with pager := q }) hsync (hback.shows hsync.agrees 0)
    refine ⟨hcat, hviews, hav, fun hm => hsync.loaded.congr fun r hr => ?_, fun r hr => hshow.view hr⟩
    rw [show p.isMemory = false from hm] at hshow
    exact congrArg (fun x : Page B => env.bytes x.body) (hshow.found (hsync.pages r hr))
  | false =>
    obtain rfl : ({ t with pager := q } : Database B) = s' := hs'
    obtain ⟨hcat, hviews, hav⟩ := hsame rfl
    refine ⟨hcat, ?_, hav, fun hm => hsync.loaded.congr fun r hr => ?_, hback.view⟩
    · rw [show t.views = s.views from hviews]
      exact ⟨rfl, fun _ _ => rfl, rfl, fun _ _ => rfl⟩
    · have hfound := hback.found hm (hsync.agrees.found hm) r (hsync.pages r hr)
      exact congrArg (fun x : Page B => env.bytes x.body) hfound

/-! ## A view on the command line -/

/-- The bytes of a page, with the link as a number of its own. -/
abbrev PageBytes := Memory.Mem × Nat

instance : PageBody PageBytes := ⟨(fun _ => 0, 0), Prod.snd, fun n => (fun _ => 0, n), rfl, fun _ => rfl⟩

/-- No statement below builds a tree or vacuums. -/
def byteEnv : DdlEnv PageBytes where
  bytes := Prod.fst
  edit f x := (f x.1, x.2)
  bytes_edit _ _ := rfl
  initializeRootLeaf x := x
  fillTree _ _ _ := []
  executeVacuum s := s

/-- A memory database, its catalog loaded. -/
def emptyDatabase : Database PageBytes :=
  Database.catalogLoad byteEnv ⟨pagerOpenMemory 0, ⟨[], by decide⟩, noViews, false⟩

/-- BEGIN. -/
def begunDatabase : Database PageBytes := { emptyDatabase with pager := emptyDatabase.pager.pagerBeginTransaction.2 }

/-- CREATE VIEW v AS x. -/
def createViewV : Ddl := .createView [118] [120]

theorem openMemory_idle : Idle (pagerOpenMemory 0 : Pager PageBytes) where
  sharedWrite := rfl
  reserved := rfl
  pending := rfl
  slot _ h := nomatch h
  notInTx := rfl
  noJournal h := nomatch h
  noFile := rfl
  noShadow _ := rfl
  unmarked := rfl
  lock h := nomatch h
  cached _ _ h := nomatch h
  memory _ := rfl

theorem emptyDatabase_idle : Idle emptyDatabase.pager := by
  have h₀ := (openMemory_idle.getPage 0).1
  have h₁ : Idle (Database.loadHead ⟨pagerOpenMemory 0, ⟨[], by decide⟩, noViews, false⟩ : Database PageBytes).pager :=
    ⟨h₀.toSole.congr rfl rfl, h₀.notInTx, h₀.noJournal, h₀.noFile, h₀.noShadow, h₀.unmarked, h₀.lock, h₀.cached, h₀.memory⟩
  exact (h₁.getPage 15).1

theorem emptyDatabase_begins : emptyDatabase.pager.pagerBeginTransaction = (true, begunDatabase.pager) :=
  Prod.ext (by decide +kernel) rfl

theorem begunDatabase_inSync : InSync byteEnv begunDatabase := by
  refine ⟨⟨rfl, ⟨rfl, fun i hi => ?_, rfl, fun i hi => ?_⟩, rfl⟩, ?_, ⟨rfl, nofun, nofun⟩⟩
  · exact absurd hi (Nat.not_lt_zero _)
  · exact absurd hi (Nat.not_lt_zero _)
  · decide

/-- After the ROLLBACK the command line still has the view. -/
theorem ddl_not_transactional : ¬ ∀ (env : DdlEnv PageBytes) (reload : Bool) (s s' : Database PageBytes)
    (p : Pager PageBytes) (stmts : List Ddl), Idle s.pager → s.pager.pagerBeginTransaction = (true, p) → Fits p →
    InSync env { s with pager := p } →
    frontEndRollback env reload (Run.run (frontEnd env reload) { s with pager := p } stmts) = some s' →
    Transactional env { s with pager := p } s' := by
  intro h
  have hsome : (frontEndRollback byteEnv false (Run.run (frontEnd byteEnv false) begunDatabase [createViewV])).isSome =
      true := by decide +kernel
  obtain ⟨s', hs⟩ := Option.isSome_iff_exists.mp hsome
  have hone : (frontEndRollback byteEnv false (Run.run (frontEnd byteEnv false) begunDatabase [createViewV])).map
      (fun t => t.views.numViews) = some 1 := by decide +kernel
  have ht := h byteEnv false emptyDatabase s' begunDatabase.pager [createViewV] emptyDatabase_idle emptyDatabase_begins nofun
    begunDatabase_inSync hs
  rw [hs] at hone
  have hzero : s'.views.numViews = 0 := ht.views.numViews
  rw [Option.map_some, hzero] at hone
  cases hone

/-- The program interface, which loads the catalog anew, does not have it. -/
theorem ddl_transactional_view : ∃ s', frontEndRollback byteEnv true
      (Run.run (frontEnd byteEnv true) begunDatabase [createViewV]) = some s' ∧
    Transactional byteEnv begunDatabase s' := by
  have hsome : (frontEndRollback byteEnv true (Run.run (frontEnd byteEnv true) begunDatabase [createViewV])).isSome =
      true := by decide +kernel
  obtain ⟨s', hs⟩ := Option.isSome_iff_exists.mp hsome
  refine ⟨s', hs, ddl_transactional byteEnv true emptyDatabase_idle emptyDatabase_begins nofun begunDatabase_inSync ?_ hs⟩
  rw [Run.meets_cons]
  exact ⟨⟨nofun, Or.inr ⟨rfl, Or.inl rfl, trivial⟩⟩, Run.meets_nil _ _ _⟩

end CustomDB
