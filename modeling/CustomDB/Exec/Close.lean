import CustomDB.Exec.DdlSpec
import CustomDB.Pager.Backup
import CustomDB.Rows.Dml

/-!
# Closing a connection

`dbms_close` saves the catalog that the connection has in memory, in no transaction, and closes the pager. The
files are compared before and after by what a connection finds that opens them.
-/

namespace CustomDB

open Lib

variable {B : Type} [PageBody B]

/-! ## The operation -/

namespace Pager

/-- The flush loop of `pager_close`. -/
def closeFlush (s : Pager B) : Pager B :=
  (List.range s.pages.cap).foldl
    (fun s i => if (s.pages.slot i).isSome ∧ i ∈ s.isDirty then s.pagerFlush i else s) s

/-- `pager_close`. -/
def pagerClose (s : Pager B) : Option (Pager B) :=
  if s.isMemory then some s
  else (if s.inTransaction then s.pagerCommit else some s).map fun s => s.closeFlush.pagerUnlock.releaseWriter

/-- What `catalog_save` stores in the pages, before it flushes them. -/
def catalogStores (s : Pager B) (img : CatalogImage B) : Pager B :=
  let s := { s with reservedCatalogPages := 33 }
  let s := (s.pagerShadowPageWrite 0).modify 0 (onBody img.count)
  let s := (List.range img.numTables).foldl (saveEntry img) s
  let s := (s.pagerShadowPageWrite 15).modify 15 (onBody img.views)
  s.modify 0 fun x => { x with freelistHead := s.freelistHead, lsn := s.walLsn }

end Pager

open Pager

/-- `dbms_close`. -/
def Database.dbmsClose (env : DdlEnv B) (s : Database B) : Option (Pager B) := (s.catalogSave env).pager.pagerClose

/-! ## What a close has to leave -/

/-- Page `p` as a connection finds it that opens the files. -/
def seen (env : DdlEnv B) (d : Disk B) (p : Nat) : Memory.Mem := env.bytes (reopened d 0 [] p).body

/-- The same tables, views and triggers, and the same bytes on every page that can hold rows. -/
structure SameContent (env : DdlEnv B) (d d' : Disk B) : Prop where
  tables : loadTables (seen env d') = loadTables (seen env d)
  views : loadViews (seen env d' 15) = loadViews (seen env d 15)
  triggers : loadTriggers (seen env d' 15) = loadTriggers (seen env d 15)
  rows : ∀ p, 33 ≤ p → seen env d' p = seen env d p

/-- The close ends, and leaves the content of the files as it was. -/
def CloseHarmless (env : DdlEnv B) (s : Database B) : Prop :=
  ∃ p, s.dbmsClose env = some p ∧ SameContent env s.pager.disk p.disk

/-- Page `p` as the connection itself reads it. -/
def Database.shown (env : DdlEnv B) (s : Database B) (p : Nat) : Memory.Mem := env.bytes ((s.pager.getPage p).deref p).body

/-- The connection's catalog and its pages are those of the files: each definition as the format stores it, the
arrays of views and triggers, and every page above the catalog's. -/
structure UpToDate (env : DdlEnv B) (s : Database B) : Prop where
  tables : s.catalog.tables.map TableDef.reloaded = loadTables (seen env s.pager.disk)
  views : (s.views.viewBlocks (flagByte s.autoVacuum)).take s.views.numViews = loadViews (seen env s.pager.disk 15)
  triggers : s.views.triggerBlocks.take s.views.numTriggers = loadTriggers (seen env s.pager.disk 15)
  /-- From the 33rd table on a definition is stored among the rows. -/
  entries : ∀ t (ht : t < s.catalog.tables.length), 33 ≤ entryPage t →
    Memory.writeAll (s.shown env (entryPage t)) (s.catalog.tables[t].writes 0) = seen env s.pager.disk (entryPage t)
  rows : ∀ p, 33 ≤ p → p ∉ definitionPages s.catalog.tables.length → s.shown env p = seen env s.pager.disk p

/-! ## A definition read back -/

section Reload

variable {m m' : Memory.Mem} {base base' : Nat}

/-- Two memories hold the same copies, each from a base of its own. -/
theorem Holds.read_eq {cs : List (List UInt8)} (h : Holds m (Memory.consecutive base cs))
    (h' : Holds m' (Memory.consecutive base' cs)) {k off n : Nat} {c : List UInt8} (hc : cs[k]? = some c)
    (hn : c.length = n) (hoff : (cs.take k).flatten.length = off) :
    Memory.read m (base + off) n = Memory.read m' (base' + off) n := by
  rw [← hn, h.chunk hc hoff, h'.chunk hc hoff]

theorem CharArray.load_congr {n k off off' : Nat} {hk : 0 < k ∧ k ≤ n} (h : Memory.read m off k = Memory.read m' off' k) :
    (CharArray.load m off k hk : CharArray n) = CharArray.load m' off' k hk := by
  simp only [CharArray.load, h]

theorem u32At_congr {off off' : Nat} (h : Memory.read m off 4 = Memory.read m' off' 4) : u32At m off = u32At m' off' := by
  rw [u32At, u32At, h]

/-- What `catalog_load` makes of a column depends on what was copied for it. -/
theorem loadColumn_congr {c : Column} (h : Holds m (Memory.consecutive base c.chunks))
    (h' : Holds m' (Memory.consecutive base' c.chunks)) : loadColumn m base = loadColumn m' base' := by
  have hread : ∀ k off n, chunkSizes[k]? = some n → (chunkSizes.take k).sum = off →
      Memory.read m (base + off) n = Memory.read m' (base' + off) n := by
    intro k off n hk hoff
    rw [← c.chunk_sizes, List.getElem?_map] at hk
    obtain ⟨x, hx, hn⟩ := Option.map_eq_some_iff.mp hk
    exact h.read_eq h' hx hn ((c.chunk_offset k).trans hoff)
  have hnum : ∀ k off, chunkSizes[k]? = some 4 → (chunkSizes.take k).sum = off →
      u32At m (base + off) = u32At m' (base' + off) := fun k off hk hoff => u32At_congr (hread k off 4 hk hoff)
  have hstr : ∀ k off {n : Nat} (hn : 0 < 16 ∧ 16 ≤ n), chunkSizes[k]? = some 16 → (chunkSizes.take k).sum = off →
      (CharArray.load m (base + off) 16 hn : CharArray n) = CharArray.load m' (base' + off) 16 hn :=
    fun k off n hn hk hoff => CharArray.load_congr (hread k off 16 hk hoff)
  have hname : (CharArray.load m base 32 (by decide) : CharArray 32) = CharArray.load m' base' 32 (by decide) :=
    CharArray.load_congr (hread 0 0 32 rfl rfl)
  unfold loadColumn
  rw [hname, hnum 1 32 rfl rfl, hnum 2 36 rfl rfl, hnum 3 40 rfl rfl, hnum 4 44 rfl rfl, hnum 5 48 rfl rfl,
    hnum 6 52 rfl rfl, hstr 7 56 _ rfl rfl, hstr 8 72 _ rfl rfl, hstr 9 88 _ rfl rfl, hstr 10 104 _ rfl rfl,
    hstr 11 120 _ rfl rfl, hnum 12 136 rfl rfl, hstr 13 140 _ rfl rfl, hstr 14 156 _ rfl rfl]

/-- What `catalog_load` makes of a table depends on what was copied for it. -/
theorem loadDef_congr {d : TableDef} (h : Holds m (d.writes base)) (h' : Holds m' (d.writes base')) :
    loadDef m base = loadDef m' base' := by
  have hcols : (loadDef m base).columns = (loadDef m' base').columns := by
    rw [loadDef_columns h, loadDef_columns h']
    refine List.map_congr_left fun k hk => ?_
    have hk := List.mem_range.mp hk
    exact loadColumn_congr (h.right.left.column hk) (h'.right.left.column hk)
  have hname : (CharArray.load m base 128 (by decide) : CharArray 128) = CharArray.load m' base' 128 (by decide) :=
    CharArray.load_congr (h.left.read_eq h'.left (k := 0) rfl d.name.length_eq rfl)
  have hroot : u32At m (base + 128) = u32At m' (base' + 128) :=
    u32At_congr (h.left.read_eq h'.left (k := 1) rfl (length_u32 _) (by simp [d.name.length_eq]))
  have htail := h.right.right
  have htail' := h'.right.right
  have hvirtual : Memory.read m (base + vtabBaseOffset) 1 = Memory.read m' (base' + vtabBaseOffset) 1 :=
    htail.read_eq htail' (k := 0) rfl (length_u8 _) rfl
  have hmodule : (CharArray.load m (base + vtabBaseOffset + 1) 64 (by decide) : CharArray 64) =
      CharArray.load m' (base' + vtabBaseOffset + 1) 64 (by decide) :=
    CharArray.load_congr (htail.read_eq htail' (k := 1) rfl d.vtabModule.length_eq rfl)
  have hargs : (CharArray.load m (base + vtabBaseOffset + 65) 256 (by decide) : CharArray 256) =
      CharArray.load m' (base' + vtabBaseOffset + 65) 256 (by decide) :=
    CharArray.load_congr (htail.read_eq htail' (k := 2) rfl d.vtabArgs.length_eq (by simp [u8, d.vtabModule.length_eq]))
  have httl : u32At m (base + vtabBaseOffset + 321) = u32At m' (base' + vtabBaseOffset + 321) :=
    u32At_congr (htail.read_eq htail' (k := 3) rfl (length_u32 _)
      (by simp [u8, d.vtabModule.length_eq, d.vtabArgs.length_eq]))
  have hhistory : Memory.read m (base + vtabBaseOffset + 325) 1 = Memory.read m' (base' + vtabBaseOffset + 325) 1 :=
    htail.read_eq htail' (k := 4) rfl (length_u8 _)
      (by simp [u8, d.vtabModule.length_eq, d.vtabArgs.length_eq, length_u32])
  unfold loadDef at hcols ⊢
  dsimp only at hcols
  simp only [hname, hroot, hcols, hvirtual, hmodule, hargs, httl, hhistory]

theorem loadDef_reloaded {d : TableDef} (h : Holds m (d.writes base)) : loadDef m base = d.reloaded :=
  loadDef_congr h fun _ hw => (TableDef.writes_ascending d 0).read hw

end Reload

/-! ## What a save leaves -/

section Saved

variable (cat : Catalog) (views : Memory.Mem → Memory.Mem) (pages : Nat → Memory.Mem)

/-- `catalog_load` finds the tables that were saved, as the format stores them. -/
theorem loadTables_saved : loadTables ((cat.image views).pages pages) = cat.tables.map TableDef.reloaded := by
  unfold loadTables
  rw [cat.count_saved]
  dsimp only
  rw [if_pos cat.tables_le]
  apply List.ext_getElem
  · simp
  · intro t ht _
    rw [List.length_map, List.length_range] at ht
    rw [List.getElem_map, List.getElem_range, List.getElem_map]
    exact loadDef_reloaded (cat.holds_entry views pages ht)

theorem image_views : ∃ m, (cat.image views).pages pages 15 = views m := by
  unfold CatalogImage.pages
  exact ⟨_, Function.update_self ..⟩

/-- Where a definition is stored among the rows. -/
theorem image_entry {t : Nat} (ht : t < cat.tables.length) (h33 : 33 ≤ entryPage t) :
    (cat.image views).pages pages (entryPage t) = Memory.writeAll (pages (entryPage t)) (cat.tables[t].writes 0) := by
  have h0 : t ≠ 0 := by
    rintro rfl
    exact absurd h33 (by decide)
  rw [CatalogImage.pages_entry _ _ ht, if_neg h0]
  show Memory.writeAll _ ((cat.tables[t]?.map (TableDef.writes (entryBase t))).getD []) = _
  rw [List.getElem?_eq_getElem ht, entryBase, if_neg h0]
  rfl

/-- The rows' other pages stay. -/
theorem image_rows {p : Nat} (h33 : 33 ≤ p) (hp : p ∉ definitionPages cat.tables.length) :
    (cat.image views).pages pages p = pages p := by
  have hne : ∀ t ∈ List.range cat.tables.length, entryPage t ≠ p := fun t ht he =>
    hp (mem_definitionPages.mpr ⟨t, List.mem_range.mp ht, he⟩)
  have hloop := (foldl_storeEntry (cat.image views) (Function.update pages 0 ((cat.image views).count (pages 0)))
    _ List.nodup_range).2 p hne
  unfold CatalogImage.pages
  rw [Function.update_of_ne (by omega)]
  exact hloop.trans (Function.update_of_ne (by omega) ..)

omit [PageBody B] in
/-- Bodies and bytes change alike. -/
theorem bytes_pages (env : DdlEnv B) (s : Database B) (f : Nat → B) (p : Nat) : env.bytes ((s.image env).pages f p) =
    (s.catalog.image (s.views.store s.autoVacuum)).pages (fun q => env.bytes (f q)) p := by
  have hstep : ∀ (g : Nat → B) h p (e : Memory.Mem → Memory.Mem), (fun q => env.bytes (g q)) = h →
      (fun q => env.bytes (Function.update g p (env.edit e (g p)) q)) = Function.update h p (e (h p)) := by
    rintro g h p e rfl
    funext q
    by_cases hq : q = p
    · rw [hq, Function.update_self, Function.update_self, env.bytes_edit]
    · rw [Function.update_of_ne hq, Function.update_of_ne hq]
  have hloop : ∀ (ts : List Nat) (g : Nat → B) h, (fun q => env.bytes (g q)) = h →
      (fun q => env.bytes (ts.foldl (s.image env).storeEntry g q)) =
        ts.foldl (s.catalog.image (s.views.store s.autoVacuum)).storeEntry h := by
    intro ts
    induction ts with
    | nil => exact fun g h hg => hg
    | cons t ts ih => exact fun g h hg => ih _ _ (hstep g h (entryPage t) _ hg)
  exact congrFun (hstep _ _ 15 _ (hloop _ _ _ (hstep f _ 0 _ rfl))) p

end Saved

/-! ## Stores in no transaction -/

namespace Pager

variable {s t : Pager B} {d : Disk B} {f : Nat → B}

/-- What a store leaves alone. A pager that reads the WAL goes on to do so. -/
structure Stays (s t : Pager B) : Prop where
  disk : t.disk = s.disk
  isDirty : t.isDirty = s.isDirty
  isMemory : t.isMemory = s.isMemory
  inTransaction : t.inTransaction = s.inTransaction
  useWal : s.useWal = true → t.useWal = true

omit [PageBody B] in
theorem Stays.refl (s : Pager B) : Stays s s := ⟨rfl, rfl, rfl, rfl, id⟩

omit [PageBody B] in
theorem Stays.trans {r : Pager B} (h : Stays s t) (h' : Stays t r) : Stays s r :=
  ⟨h'.disk.trans h.disk, h'.isDirty.trans h.isDirty, h'.isMemory.trans h.isMemory,
    h'.inTransaction.trans h.inTransaction, fun hu => h'.useWal (h.useWal hu)⟩

theorem refresh_stays (s : Pager B) : Stays s s.pagerRefreshIfModified ∧
    (s.inTransaction = false → s.isMemory = false → s.disk.wal.isSome = true → s.pagerRefreshIfModified.useWal = true) := by
  have hopen : Stays s s.openWal ∧ (s.disk.wal.isSome = true → s.openWal.useWal = true) := by
    unfold openWal
    split
    · exact ⟨⟨rfl, rfl, rfl, rfl, fun _ => rfl⟩, fun _ => rfl⟩
    · next hw => exact ⟨Stays.refl s, fun h => absurd h hw⟩
  unfold pagerRefreshIfModified
  split
  · next hn => exact ⟨Stays.refl s, fun ht hm => by simp [ht, hm] at hn⟩
  · dsimp only
    split
    · exact ⟨hopen.1.trans ⟨rfl, rfl, rfl, rfl, id⟩, fun _ _ hw => hopen.2 hw⟩
    · exact ⟨hopen.1, fun _ _ hw => hopen.2 hw⟩

theorem getPage_stays (s : Pager B) (p : Nat) : Stays s (s.getPage p) ∧
    (s.inTransaction = false → s.isMemory = false → s.disk.wal.isSome = true → (s.getPage p).useWal = true) := by
  have hlock : ∃ l e, (if s.isMemory then s else { (s.pagerLock .shared).2 with lockError := false }) =
      { s with lockState := l, lockError := e } := by
    split
    · exact ⟨_, _, rfl⟩
    · obtain ⟨l, hl⟩ := pagerLock_frame s .shared
      rw [hl]
      exact ⟨_, _, rfl⟩
  obtain ⟨l, e, hl⟩ := hlock
  obtain ⟨hstays, hwal⟩ := refresh_stays { s with lockState := l, lockError := e }
  have hlocked : Stays s { s with lockState := l, lockError := e } := ⟨rfl, rfl, rfl, rfl, id⟩
  have hstays := hlocked.trans hstays
  unfold getPage
  rw [hl]
  dsimp only
  split
  · exact ⟨hstays, hwal⟩
  · exact ⟨hstays.trans ⟨rfl, rfl, rfl, rfl, id⟩, hwal⟩

theorem modify_stays (s : Pager B) (p : Nat) (g : Page B → Page B) : Stays s (s.modify p g) ∧
    (s.inTransaction = false → s.isMemory = false → s.disk.wal.isSome = true → (s.modify p g).useWal = true) := by
  obtain ⟨hstays, hwal⟩ := getPage_stays s p
  unfold modify store
  dsimp only
  split
  · exact ⟨hstays.trans ⟨rfl, rfl, rfl, rfl, id⟩, hwal⟩
  · exact ⟨hstays.trans ⟨rfl, rfl, rfl, rfl, id⟩, hwal⟩

theorem shadow_idle (ht : s.inTransaction = false) (p : Nat) : s.pagerShadowPageWrite p = s := if_pos ht

theorem Stays.store (h : Stays s t) (ht : s.inTransaction = false) (p : Nat) (g : Page B → Page B) :
    Stays s ((t.pagerShadowPageWrite p).modify p g) := by
  rw [shadow_idle (h.inTransaction.trans ht)]
  exact h.trans (modify_stays t p g).1

theorem Stays.entries (img : CatalogImage B) (h : Stays s t) (ht : s.inTransaction = false) (ts : List Nat) :
    Stays s (ts.foldl (saveEntry img) t) := by
  induction ts generalizing t with
  | nil => exact h
  | cons k ts ih => exact ih (h.store ht (entryPage k) (onBody (img.entry k)))

/-- The first page that `catalog_save` stores to. -/
theorem countStored_stays (img : CatalogImage B) (ht : s.inTransaction = false) : ∃ t, Stays s t ∧ Stays t (s.catalogStores img) ∧
    (s.isMemory = false → s.disk.wal.isSome = true → t.useWal = true) := by
  let s₁ : Pager B := { s with reservedCatalogPages := 33 }
  obtain ⟨h, hwal⟩ := modify_stays s₁ 0 (onBody img.count)
  have hs₁ : Stays s s₁ := ⟨rfl, rfl, rfl, rfl, id⟩
  have h₁ := hs₁.trans h
  have ht₁ := h₁.inTransaction.trans ht
  refine ⟨s₁.modify 0 (onBody img.count), h₁, ?_, fun hm hw => hwal ht hm hw⟩
  have h₂ := ((Stays.refl (s₁.modify 0 (onBody img.count))).entries img ht₁ (List.range img.numTables)).store
    ht₁ 15 (onBody img.views)
  unfold catalogStores
  dsimp only
  rw [shadow_idle (s := { s with reservedCatalogPages := 33 }) ht]
  exact h₂.trans (modify_stays _ _ _).1

theorem catalogStores_stays (img : CatalogImage B) (ht : s.inTransaction = false) : Stays s (s.catalogStores img) := by
  obtain ⟨t, h, h', -⟩ := countStored_stays img ht
  exact h.trans h'

theorem catalogSave_stores {img : CatalogImage B} (h : s.lockError = false) : s.catalogSave img =
    if (s.catalogStores img).useWal then s.catalogStores img else (s.catalogStores img).flushCached :=
  if_neg (by simp [h])

/-! ## The flushes -/

theorem flush_clean (h : s.isDirty = ∅) (l : List Nat) : (l.foldl pagerFlush s).isDirty = ∅ := by
  induction l generalizing s with
  | nil => exact h
  | cons i l ih =>
    refine ih ?_
    unfold pagerFlush
    split
    · exact h
    · split
      · exact h
      · split
        · exact h
        · show s.isDirty.erase i = ∅
          rw [h, Finset.erase_empty]

/-- With no flag up nothing is left for `pager_close` to write. -/
theorem closeFlush_clean (h : s.isDirty = ∅) : s.closeFlush = s := by
  unfold closeFlush
  induction List.range s.pages.cap with
  | nil => rfl
  | cons i l ih =>
    rw [List.foldl_cons, if_neg fun hn => by simp [h] at hn]
    exact ih

theorem pagerClose_clean (ht : s.inTransaction = false) (h : s.isDirty = ∅) :
    ∃ t, s.pagerClose = some t ∧ t.disk = s.disk := by
  unfold pagerClose
  split
  · exact ⟨s, rfl, rfl⟩
  · rw [if_neg (by simp [ht])]
    refine ⟨_, rfl, ?_⟩
    show s.closeFlush.disk = s.disk
    rw [closeFlush_clean h]

/-! ## Stores to a database file -/

/-- The state `get_page` finds the page in, between transactions of a database file without a WAL. -/
def afterRefresh (s : Pager B) : Pager B :=
  let s₁ := { s with lockState := s.lockedAt .shared, lockError := false }
  if s.walLsn < max s.walMaxLsn s.diskLsn ∨ s.disk.main.length % fileLengthWrap ≠ s.filePages then
    { s₁ with
      pages := Slots.empty
      filePages := s.disk.main.length % fileLengthWrap
      numPages := s.disk.main.length % fileLengthWrap
      walLsn := max s.walLsn (max s.walMaxLsn s.diskLsn) }
  else s₁

/-- A database file between transactions, without a WAL. -/
structure Resting (s : Pager B) : Prop extends Idle s where
  file : s.isMemory = false
  rollback : s.useWal = false
  noWal : s.disk.wal = none

theorem Resting.refresh (h : Resting s) : ({ (s.pagerLock .shared).2 with lockError := false } : Pager B).pagerRefreshIfModified =
    s.afterRefresh := by
  rw [pagerLock_shared h.sharedWrite h.pending]
  exact refresh_rollback h.notInTx h.file h.noWal

theorem Resting.afterRefresh (h : Resting s) : Resting s.afterRefresh ∧ AsLeft s.afterRefresh ∧
    s.afterRefresh.disk = s.disk := by
  have hlock : (s.lockedAt .shared).level < PagerLockState.reserved.level := by
    have := h.lock h.file
    rw [lockedAt, if_neg (by simp [h.file]), PagerLockState.raise]
    split
    · exact this
    · decide
  have hwal : ∀ s : Pager B, s.disk.wal = none → WalKnown s := fun s hw hs => by simp [hw] at hs
  unfold Pager.afterRefresh
  dsimp only
  split
  · refine ⟨⟨⟨h.toSole.congr rfl rfl, h.notInTx, h.noJournal, h.noFile, h.noShadow, h.unmarked, fun _ => hlock, fun q x hx => absurd hx (by simp),
      fun hm => absurd hm (by simp [h.file])⟩, h.file, h.rollback, h.noWal⟩, ⟨Or.inr ⟨rfl, le_max_right _ _⟩, hwal _ h.noWal⟩, rfl⟩
  · next hn =>
    push Not at hn
    exact ⟨⟨⟨h.toSole.congr rfl rfl, h.notInTx, h.noJournal, h.noFile, h.noShadow, h.unmarked, fun _ => hlock, h.cached,
      fun hm => absurd hm (by simp [h.file])⟩, h.file, h.rollback, h.noWal⟩, ⟨Or.inr ⟨hn.2, hn.1⟩, hwal _ h.noWal⟩, rfl⟩

/-- `get_page` depends on the state the refresh leaves. -/
theorem getPage_congr (p : Nat)
    (h : (if s.isMemory then s else { (s.pagerLock .shared).2 with lockError := false }).pagerRefreshIfModified =
      (if t.isMemory then t else { (t.pagerLock .shared).2 with lockError := false }).pagerRefreshIfModified) :
    s.getPage p = t.getPage p := by
  unfold Pager.getPage
  dsimp only at h ⊢
  rw [h]

theorem Resting.getPage (h : Resting s) (p : Nat) : s.getPage p = s.afterRefresh.getPage p := by
  obtain ⟨hr, hl, -⟩ := h.afterRefresh
  have hlock : s.afterRefresh.lockedAt .shared = s.lockedAt .shared := by
    refine lockedAt_shared_idem (s := s) rfl ?_ ?_ <;>
      · unfold Pager.afterRefresh
        dsimp only
        split <;> rfl
  have hsame : ({ (s.afterRefresh.pagerLock .shared).2 with lockError := false } : Pager B) = s.afterRefresh := by
    rw [pagerLock_shared hr.sharedWrite hr.pending, hlock]
    unfold Pager.afterRefresh
    dsimp only
    split <;> rfl
  refine getPage_congr p ?_
  rw [if_neg (by simp [h.file]), if_neg (by simp [hr.file]), h.refresh, hsame, refresh_asLeft hl]

theorem Resting.deref (h : Resting s) (q : Nat) : (s.getPage q).deref q = s.afterRefresh.base q := by
  obtain ⟨hr, hl, -⟩ := h.afterRefresh
  have hready : Ready s.afterRefresh := Or.inr ⟨hr.toIdle, hl⟩
  rw [h.getPage, (hready.loaded q).deref, view_unshadowed (not_shadowed hr.noShadow q)]

theorem afterRefresh_reserved (s : Pager B) (k : Nat) : ({ s with reservedCatalogPages := k } : Pager B).afterRefresh =
    { s.afterRefresh with reservedCatalogPages := k } := by
  by_cases hc : s.walLsn < max s.walMaxLsn s.diskLsn ∨ s.disk.main.length % fileLengthWrap ≠ s.filePages
  · have h₁ : s.afterRefresh = _ := if_pos hc
    have h₂ : ({ s with reservedCatalogPages := k } : Pager B).afterRefresh = _ := if_pos hc
    rw [h₁, h₂]
    rfl
  · have h₁ : s.afterRefresh = _ := if_neg hc
    have h₂ : ({ s with reservedCatalogPages := k } : Pager B).afterRefresh = _ := if_neg hc
    rw [h₁, h₂]
    rfl

/-- On the way through `catalog_save`: nothing is written yet, and the pages have the bodies `f`. -/
structure Saving (d : Disk B) (f : Nat → B) (t : Pager B) : Prop where
  resting : Resting t
  left : AsLeft t
  disk : t.disk = d
  numPages : t.numPages < fileLengthWrap
  body : ∀ q, (t.base q).body = f q

theorem Saving.modify (h : Saving d f t) {p : Nat} (hp : p + 1 < fileLengthWrap) (g : Page B → Page B) {b : B}
    (hb : (g (t.base p)).body = b) : Saving d (Function.update f p b) (t.modify p g) := by
  have hready : Ready t := Or.inr ⟨h.resting.toIdle, h.left⟩
  have hm := hready.modified p g
  have hns := not_shadowed h.resting.noShadow p
  obtain ⟨hi, hl⟩ := hm.works.idle ⟨h.resting.toIdle, h.left⟩
  have hnum : (t.modify p g).numPages < fileLengthWrap := by
    have := h.numPages
    rw [hm.numPages]
    split <;> omega
  have hbody : ∀ q, ((t.modify p g).base q).body = Function.update f p b q := by
    intro q
    rw [hm.base]
    by_cases hq : q = p
    · rw [if_pos ⟨hq, hns⟩, view_unshadowed hns, hq, Function.update_self, hb]
    · rw [if_neg fun hn => hq hn.1, Function.update_of_ne hq, h.body]
  have hsame : (t.modify p g).isMemory = t.isMemory ∧ (t.modify p g).useWal = t.useWal ∧ (t.modify p g).disk = t.disk := by
    obtain ⟨_, _, _, _, _, he⟩ := hm.same
    rw [he]
    exact ⟨rfl, rfl, rfl⟩
  obtain ⟨hmem, huse, hdisk⟩ := hsame
  exact ⟨⟨hi, hmem.trans h.resting.file, huse.trans h.resting.rollback, by rw [hdisk]; exact h.resting.noWal⟩, hl,
    hdisk.trans h.disk, hnum, hbody⟩

theorem Saving.store (h : Saving d f t) {p : Nat} (hp : p + 1 < fileLengthWrap) (g : B → B) :
    Saving d (Function.update f p (g (f p))) ((t.pagerShadowPageWrite p).modify p (onBody g)) := by
  rw [shadow_idle h.resting.notInTx]
  exact h.modify hp _ (by rw [onBody, h.body])

theorem Saving.trailer (h : Saving d f t) (head l : Nat) :
    Saving d f (t.modify 0 fun x => { x with freelistHead := head, lsn := l }) := by
  have hm := h.modify (p := 0) (by decide) (fun x => { x with freelistHead := head, lsn := l }) (b := f 0) (h.body 0)
  rwa [Function.update_eq_self] at hm

theorem Saving.entries (img : CatalogImage B) (h : Saving d f t) {ts : List Nat} (hts : ∀ k ∈ ts, k < maxTables) :
    Saving d (ts.foldl img.storeEntry f) (ts.foldl (saveEntry img) t) := by
  induction ts generalizing f t with
  | nil => exact h
  | cons k ts ih =>
    have hk := hts k (List.mem_cons_self ..)
    have hp := entryPage_le k
    refine ih (h.store (p := entryPage k) ?_ (img.entry k)) fun i hi => hts i (List.mem_cons_of_mem _ hi)
    unfold maxTables at hk
    unfold fileLengthWrap
    omega

/-- Before its flush, `catalog_save` has stored the image over the pages as the connection reads them. -/
theorem Resting.catalogStores (img : CatalogImage B) (h : Resting s) (hn : s.numPages < fileLengthWrap) (hlen : img.numTables ≤ maxTables) :
    Saving s.disk (img.pages fun q => ((s.getPage q).deref q).body) (s.catalogStores img) := by
  let s₁ : Pager B := { s with reservedCatalogPages := 33 }
  have h₁ : Resting s₁ := ⟨⟨h.toSole.congr rfl rfl, h.notInTx, h.noJournal, h.noFile, h.noShadow, h.unmarked, h.lock,
    h.cached, h.memory⟩, h.file, h.rollback, h.noWal⟩
  obtain ⟨hr, hl, hd⟩ := h₁.afterRefresh
  have hbase : ∀ q, (s₁.afterRefresh.base q).body = ((s.getPage q).deref q).body := by
    intro q
    have hbase := congrArg (fun t : Pager B => (t.base q).body) (afterRefresh_reserved s 33)
    rw [h.deref]
    exact hbase
  have hnum : s₁.afterRefresh.numPages < fileLengthWrap := by
    unfold Pager.afterRefresh
    dsimp only
    split
    · exact Nat.mod_lt _ (by decide)
    · exact hn
  have hfirst : s₁.modify 0 (onBody img.count) = s₁.afterRefresh.modify 0 (onBody img.count) := by
    unfold Pager.modify
    rw [h₁.getPage]
  have hstart : Saving s.disk (fun q => ((s.getPage q).deref q).body) s₁.afterRefresh := ⟨hr, hl, hd, hnum, hbase⟩
  have hcount := hstart.store (p := 0) (by decide) img.count
  rw [shadow_idle hr.notInTx, ← hfirst] at hcount
  have hstored := (hcount.entries img fun k hk => lt_of_lt_of_le (List.mem_range.mp hk) hlen).store (p := 15)
    (by decide) img.views
  unfold Pager.catalogStores
  dsimp only
  rw [shadow_idle (s := { s with reservedCatalogPages := 33 }) h.notInTx]
  exact hstored.trailer _ _

/-- The flush of `catalog_save` brings the pages into the main file. -/
theorem Saving.flush (h : Saving d f t) (hd : d.main.length < fileLengthWrap) (q : Nat) :
    (found t.flushCached.disk q).body = f q := by
  obtain ⟨fp, di, he⟩ := foldl_flush h.resting.file h.resting.rollback
    ((List.range t.pages.cap).filter fun i => (t.pages.slot i).isSome)
  have hmain : t.disk.main.length < fileLengthWrap := by
    rw [h.disk]
    exact hd
  have hbuf : t.flushBuf q = t.pages.slot q := by
    unfold flushBuf
    rw [h.resting.noShadow q]
    rfl
  have hlen : (BlockFile.writeAll Page.zero t.disk.main
      (t.flushed ((List.range t.pages.cap).filter fun i => (t.pages.slot i).isSome))).length < fileLengthWrap := by
    have hle := BlockFile.length_writeAll_le Page.zero t.disk.main
      (t.flushed ((List.range t.pages.cap).filter fun i => (t.pages.slot i).isSome)) t.numPages fun e he => by
        have hbuf := (mem_flushed he).2
        unfold flushBuf at hbuf
        rw [h.resting.noShadow] at hbuf
        exact h.resting.cached e.1 e.2 hbuf
    have := h.numPages
    omega
  have hdisk : t.flushCached.disk = ⟨BlockFile.writeAll Page.zero t.disk.main
      (t.flushed ((List.range t.pages.cap).filter fun i => (t.pages.slot i).isSome)), none, none⟩ := by
    rw [flushCached_eq, he]
    dsimp only
    rw [h.resting.noFile, h.resting.noWal]
  have hread : t.readPage q = t.mainPage q := by
    have hlimit : t.filePages = t.disk.main.length := by
      rcases h.left.1 with hm | ⟨hm, -⟩
      · exact absurd hm (by simp [h.resting.file])
      · rw [← hm, Nat.mod_eq_of_lt hmain]
    unfold readPage
    rw [h.resting.rollback, Bool.false_and, if_neg Bool.false_ne_true]
    split
    · rfl
    · exact (BlockFile.read_eq_filler _ _ (by omega)).symm
  have hslot : t.pages.slot q = none → (t.base q).body = (t.mainPage q).body := by
    intro hq
    unfold Pager.base
    rw [hq, Option.getD_none, hread]
  rw [hdisk]
  show (recoveredPage _ q).body = f q
  rw [recoveredPage_plain hlen, read_flushed, hbuf, ← h.body q]
  cases hq : t.pages.slot q with
  | none =>
    rw [hslot hq, Option.getD_none, ite_self]
  | some x =>
    have hcap : q < t.pages.cap := by
      by_contra hn
      rw [t.pages.bound q (by omega)] at hq
      cases hq
    rw [if_pos (by simp [hcap, hq]), Option.getD_some, Pager.base, hq, Option.getD_some]

end Pager

/-! ## The close -/

section Close

variable (env : DdlEnv B) {s : Database B}

theorem seen_eq (d : Disk B) (p : Nat) : seen env d p = env.bytes (found d p).body := by
  rw [seen, reopened_eq]

theorem catalogSave_pager (s : Database B) :
    (s.catalogSave env).pager = s.pager.catalogSave (s.image env) := by
  unfold Database.catalogSave
  split
  · next hl => exact (if_pos hl).symm
  · next hl => exact (catalogSave_acts _ _ (by simpa using hl)).symm

/-- A close that writes nothing. -/
theorem close_silent (ht : s.pager.inTransaction = false) (hd : s.pager.isDirty = ∅)
    (h : s.pager.isMemory = true ∨ s.pager.lockError = true ∨ s.pager.useWal = true ∨ s.pager.disk.wal.isSome = true) :
    ∃ p, s.dbmsClose env = some p ∧ p.disk = s.pager.disk := by
  have hsave : Stays s.pager (s.pager.catalogSave (s.image env)) := by
    by_cases hl : s.pager.lockError = true
    · rw [catalogSave, if_pos hl]
      exact Stays.refl s.pager
    · obtain ⟨t, h₁, h₂, hwal⟩ := countStored_stays (s.image env) ht
      have hstores := h₁.trans h₂
      rw [catalogSave_stores (by simpa using hl)]
      split
      · exact hstores
      · next hu =>
        -- the flush would write in rollback mode only, and a memory database has no file
        have hm : s.pager.isMemory = true := by
          by_contra hm
          rcases h with h | h | h | h
          · exact hm h
          · exact hl h
          · exact hu (hstores.useWal h)
          · exact hu (h₂.useWal (hwal (by simpa using hm) h))
        rw [flushCached_eq, foldl_flush_memory (hstores.isMemory.trans hm)]
        exact hstores
  obtain ⟨p, hp, hdisk⟩ := pagerClose_clean (hsave.inTransaction.trans ht) (hsave.isDirty.trans hd)
  refine ⟨p, ?_, hdisk.trans hsave.disk⟩
  rw [Database.dbmsClose, catalogSave_pager]
  exact hp

/-- A close that writes leaves the connection's catalog over the pages as the connection reads them. -/
theorem close_writes (h : Resting s.pager) (hd : s.pager.isDirty = ∅) (hl : s.pager.lockError = false)
    (hf : FitsLength s.pager) : ∃ p, s.dbmsClose env = some p ∧ seen env p.disk =
      (s.catalog.image (s.views.store s.autoVacuum)).pages (s.shown env) := by
  have hsaving := h.catalogStores (s.image env) hf.pages s.catalog.tables_le
  have hu : (s.pager.catalogStores (s.image env)).useWal = false := hsaving.resting.rollback
  have hstores := catalogStores_stays (s.image env) h.notInTx
  have hsave : s.pager.catalogSave (s.image env) = (s.pager.catalogStores (s.image env)).flushCached := by
    rw [catalogSave_stores hl, if_neg (by simp [hu])]
  obtain ⟨fp, di, he⟩ := foldl_flush hsaving.resting.file hu
    ((List.range (s.pager.catalogStores (s.image env)).pages.cap).filter
      fun i => ((s.pager.catalogStores (s.image env)).pages.slot i).isSome)
  have ht : (s.pager.catalogStores (s.image env)).flushCached.inTransaction = false := by
    rw [flushCached_eq, he]
    exact hsaving.resting.notInTx
  have hclean : (s.pager.catalogStores (s.image env)).flushCached.isDirty = ∅ := by
    rw [flushCached_eq]
    exact flush_clean (hstores.isDirty.trans hd) _
  obtain ⟨p, hp, hdisk⟩ := pagerClose_clean ht hclean
  refine ⟨p, ?_, ?_⟩
  · rw [Database.dbmsClose, catalogSave_pager, hsave]
    exact hp
  · funext q
    rw [hdisk, seen_eq, hsaving.flush hf.main q, bytes_pages]
    rfl

/-- Closing a connection between transactions changes nothing exactly when the database is in memory or has a WAL,
when the save is refused for a lock that was not granted, or when the catalog in memory and the pages that the
connection reads are those of the files. -/
theorem close_harmless_iff (s : Database B) (hi : Idle s.pager) (hd : s.pager.isDirty = ∅)
    (hf : FitsLength s.pager) : CloseHarmless env s ↔ s.pager.isMemory = true ∨ s.pager.lockError = true ∨
      s.pager.useWal = true ∨ s.pager.disk.wal.isSome = true ∨ UpToDate env s := by
  by_cases hsilent : s.pager.isMemory = true ∨ s.pager.lockError = true ∨ s.pager.useWal = true ∨
      s.pager.disk.wal.isSome = true
  · obtain ⟨p, hp, hdisk⟩ := close_silent env hi.notInTx hd hsilent
    refine ⟨fun _ => hsilent.imp_right (Or.imp_right (Or.imp_right Or.inl)), fun _ => ⟨p, hp, ?_⟩⟩
    rw [hdisk]
    exact ⟨rfl, rfl, rfl, fun _ _ => rfl⟩
  · push Not at hsilent
    obtain ⟨hm, hl, hu, hw⟩ := hsilent
    have hrest : Resting s.pager := ⟨hi, by simpa using hm, by simpa using hu, by simpa using hw⟩
    obtain ⟨p, hp, hseen⟩ := close_writes env hrest hd (by simpa using hl) hf
    obtain ⟨m, hm15⟩ := image_views s.catalog (s.views.store s.autoVacuum) (s.shown env)
    have htables := loadTables_saved s.catalog (s.views.store s.autoVacuum) (s.shown env)
    have hviews := s.views.loadViews_store s.autoVacuum m
    have htriggers := s.views.loadTriggers_store s.autoVacuum m
    constructor
    · rintro ⟨p', hp', hc⟩
      obtain rfl : p = p' := Option.some.inj (hp.symm.trans hp')
      refine Or.inr (Or.inr (Or.inr (Or.inr ⟨?_, ?_, ?_, fun t ht h33 => ?_, fun q h33 hq => ?_⟩)))
      · rw [← hc.tables, hseen, htables]
      · rw [← hc.views, hseen, hm15, hviews]
      · rw [← hc.triggers, hseen, hm15, htriggers]
      · rw [← hc.rows _ h33, hseen, image_entry _ _ _ ht h33]
      · rw [← hc.rows q h33, hseen, image_rows _ _ _ h33 hq]
    · intro h
      have hup : UpToDate env s := by
        rcases h with h | h | h | h | h
        · exact absurd h hm
        · exact absurd h hl
        · exact absurd h hu
        · exact absurd h hw
        · exact h
      refine ⟨p, hp, ?_, ?_, ?_, fun q h33 => ?_⟩
      · rw [hseen, htables, hup.tables]
      · rw [hseen, hm15, hviews, hup.views]
      · rw [hseen, hm15, htriggers, hup.triggers]
      · rw [hseen]
        by_cases hq : q ∈ definitionPages s.catalog.tables.length
        · obtain ⟨t, ht, rfl⟩ := mem_definitionPages.mp hq
          rw [image_entry _ _ _ ht h33, hup.entries t ht h33]
        · rw [image_rows _ _ _ h33 hq, hup.rows q h33 hq]

end Close

/-! ## A connection that was idle -/

theorem noTables_le : ([] : List TableDef).length ≤ maxTables := Nat.zero_le _

theorem compositeKey_le : [compositeKey].length ≤ maxTables := by decide

/-- A connection that opened an empty file. -/
def openedEmpty : Database PageBytes := ⟨pagerOpen ⟨[], none, none⟩ ByteLocks.none .free 0, ⟨[], noTables_le⟩, noViews, false⟩

theorem openedEmpty_idle : Idle openedEmpty.pager where
  sharedWrite := rfl
  reserved := rfl
  pending := rfl
  slot _ h := nomatch h
  notInTx := rfl
  noJournal _ := rfl
  noFile := rfl
  noShadow _ := rfl
  unmarked := rfl
  lock _ := by decide
  cached _ _ h := nomatch h
  memory h := nomatch h

/-- The catalog after another connection's CREATE TABLE. -/
def createdCatalog : Catalog := ⟨[compositeKey], compositeKey_le⟩

/-- The bytes of the pages after that. -/
def createdPages : Nat → Memory.Mem := (createdCatalog.image (noViews.store false)).pages fun _ _ => 0

/-- The file after that: the catalog's pages and the root of the table. -/
def createdFile : Disk PageBytes := ⟨(List.range 34).map fun p => ⟨(createdPages p, 0), 1, 0⟩, none, none⟩

/-- The connection that did nothing meanwhile. -/
def idleConnection : Database PageBytes := { openedEmpty with pager := { openedEmpty.pager with disk := createdFile } }

/-- As long as the file is empty, the close leaves it so. -/
theorem close_empty : CloseHarmless byteEnv openedEmpty := by
  have hf : FitsLength openedEmpty.pager := ⟨by decide, by decide, fun e he => nomatch he⟩
  refine (close_harmless_iff byteEnv openedEmpty openedEmpty_idle rfl hf).mpr (Or.inr (Or.inr (Or.inr (Or.inr ?_))))
  have hzero : ∀ p, seen byteEnv openedEmpty.pager.disk p = fun _ => 0 := by
    intro p
    rw [seen_eq]
    rfl
  refine ⟨?_, ?_, ?_, fun t ht => absurd ht (Nat.not_lt_zero t), fun p _ _ => ?_⟩
  · rw [show seen byteEnv openedEmpty.pager.disk = fun _ _ => 0 from funext hzero]
    rfl
  · rw [hzero]
    rfl
  · rw [hzero]
    rfl
  · have hrest : Resting openedEmpty.pager := ⟨openedEmpty_idle, rfl, rfl, rfl⟩
    rw [hzero, Database.shown, hrest.deref]
    rfl

theorem createdFile_seen {p : Nat} (hp : p < 34) : seen byteEnv createdFile p = createdPages p := by
  have hlen : createdFile.main.length = 34 := by simp [createdFile]
  have hread : recoveredPage createdFile p = ⟨(createdPages p, 0), 1, 0⟩ := by
    have hsmall : createdFile.main.length < fileLengthWrap := by
      rw [hlen]
      decide
    refine (recoveredPage_plain hsmall none p).trans ?_
    unfold BlockFile.read createdFile
    simp [hp]
  rw [seen_eq]
  show byteEnv.bytes (recoveredPage createdFile p).body = _
  rw [hread]
  rfl

/-- The close of the idle connection drops the table that the other one created. -/
theorem idle_close_drops_table : ¬ CloseHarmless byteEnv idleConnection ∧
    loadTables (seen byteEnv createdFile) = [compositeKey.reloaded] ∧
    ∃ p, idleConnection.dbmsClose byteEnv = some p ∧ loadTables (seen byteEnv p.disk) = [] := by
  have hbefore : loadTables (seen byteEnv createdFile) = [compositeKey.reloaded] := by
    have hcount : loadNumTables (createdPages 0) = 1 := by
      have hsaved := createdCatalog.count_saved (noViews.store false) fun _ _ => 0
      unfold loadNumTables createdPages
      rw [hsaved]
      rfl
    have hpages : ∀ p ∈ 0 :: catalogPages (createdPages 0), seen byteEnv createdFile p = createdPages p := by
      intro p hp
      rw [catalogPages, hcount] at hp
      have hp : p = 0 ∨ p = 0 ∨ p = 15 := by simpa [entryPage] using hp
      exact createdFile_seen (by omega)
    exact (loadTables_congr hpages).trans (loadTables_saved createdCatalog (noViews.store false) fun _ _ => 0)
  have hi : Idle idleConnection.pager := by
    have h := openedEmpty_idle
    exact ⟨h.toSole.congr rfl rfl, h.notInTx, h.noJournal, rfl, h.noShadow, h.unmarked, h.lock, h.cached,
      fun hm => absurd hm Bool.false_ne_true⟩
  have hrest : Resting idleConnection.pager := ⟨hi, rfl, rfl, rfl⟩
  have hf : FitsLength idleConnection.pager :=
    ⟨by simp [idleConnection, createdFile, fileLengthWrap], by decide, fun e he => absurd he List.not_mem_nil⟩
  obtain ⟨p, hp, hseen⟩ := close_writes byteEnv hrest rfl rfl hf
  have hafter : loadTables (seen byteEnv p.disk) = [] := by
    rw [hseen, loadTables_saved]
    rfl
  refine ⟨fun h => ?_, hbefore, p, hp, hafter⟩
  obtain ⟨q, hq, hc⟩ := h
  obtain rfl : p = q := Option.some.inj (hp.symm.trans hq)
  have htables := hc.tables
  rw [hafter] at htables
  exact absurd (htables.trans hbefore) (List.cons_ne_nil _ _).symm

end CustomDB
