import CustomDB.Catalog.DefinitionSpec

/-!
# Views, triggers and the vacuum flag on page 15

`catalog_save` copies the view array, the trigger array and the `auto_vacuum` flag to page 15. The arrays lie one
behind the other; the flag goes to byte 500, and byte 500 belongs to the second view.
-/

namespace CustomDB

open Lib Lib.Bytes

/-! ## In memory -/

/-- A `char[n]`, whatever is in it. -/
abbrev Chars (n : Nat) := List.Vector UInt8 n

/-- `snprintf(a, sizeof(a), "%s", s)`: the string cut to the array, a 0, and what was behind it. -/
def Chars.print {n : Nat} (a : Chars n) (hn : 0 < n) (s : List UInt8) : Chars n :=
  ⟨s.take (n - 1) ++ 0 :: a.val.drop (min (n - 1) s.length + 1), by
    have := a.property
    simp only [List.length_append, List.length_take, List.length_cons, List.length_drop]
    omega⟩

/-- `ViewDef`. -/
structure ViewDef where
  viewName : Chars 64
  selectSql : Chars 256

inductive TriggerTiming where
  | before | after
  deriving DecidableEq, Repr

inductive TriggerEvent where
  | insert | update | delete
  deriving DecidableEq, Repr

/-- `TriggerDef`. -/
structure TriggerDef where
  name : Chars 64
  targetTable : Chars 64
  timing : TriggerTiming
  event : TriggerEvent
  actionSql : Chars 256

/-- `MAX_VIEWS`, and `MAX_TRIGGERS`. -/
abbrev maxViews : Nat := 4

/-- The views and triggers of a `Catalog`. -/
structure ViewCatalog where
  numViews : Nat
  numViews_le : numViews ≤ maxViews
  views : Fin maxViews → ViewDef
  numTriggers : Nat
  numTriggers_le : numTriggers ≤ maxViews
  triggers : Fin maxViews → TriggerDef

namespace ViewCatalog

/-- CREATE VIEW; `none` where the array is full. -/
def createView (vt : ViewCatalog) (name sql : List UInt8) : Option ViewCatalog :=
  if h : vt.numViews < maxViews then
    let v := vt.views ⟨vt.numViews, h⟩
    some { vt with
      numViews := vt.numViews + 1
      numViews_le := h
      views := Function.update vt.views ⟨vt.numViews, h⟩
        ⟨v.viewName.print (by decide) name, v.selectSql.print (by decide) sql⟩ }
  else none

/-- CREATE TRIGGER; `none` where the array is full. -/
def createTrigger (vt : ViewCatalog) (name table : List UInt8) (timing : TriggerTiming) (event : TriggerEvent)
    (action : List UInt8) : Option ViewCatalog :=
  if h : vt.numTriggers < maxViews then
    let t := vt.triggers ⟨vt.numTriggers, h⟩
    some { vt with
      numTriggers := vt.numTriggers + 1
      numTriggers_le := h
      triggers := Function.update vt.triggers ⟨vt.numTriggers, h⟩
        ⟨t.name.print (by decide) name, t.targetTable.print (by decide) table, timing, event,
          t.actionSql.print (by decide) action⟩ }
  else none

end ViewCatalog

/-! ## On page 15 -/

/-- `sizeof(ViewDef)`. -/
def sizeofView : Nat := 320

/-- `sizeof(TriggerDef)`. -/
def sizeofTrigger : Nat := 392

/-- The bytes of the structure. -/
def ViewDef.bytes (v : ViewDef) : List UInt8 := v.viewName.val ++ v.selectSql.val

def TriggerTiming.code : TriggerTiming → BitVec 32
  | before => 0 | after => 1

def TriggerEvent.code : TriggerEvent → BitVec 32
  | insert => 0 | update => 1 | delete => 2

/-- The bytes of the structure. -/
def TriggerDef.bytes (t : TriggerDef) : List UInt8 :=
  t.name.val ++ t.targetTable.val ++ u32 t.timing.code ++ u32 t.event.code ++ t.actionSql.val

/-- What `catalog_save` does to page 15. -/
def ViewCatalog.store (vt : ViewCatalog) (autoVacuum : Bool) (m : Memory.Mem) : Memory.Mem :=
  let m := Memory.write m 0 (u32 (BitVec.ofNat 32 vt.numViews))
  let m := Memory.write m 4 (List.ofFn fun i => (vt.views i).bytes).flatten
  let m := Memory.write m (4 + sizeofView * 4) (u32 (BitVec.ofNat 32 vt.numTriggers))
  let m := Memory.write m (8 + sizeofView * 4) (List.ofFn fun i => (vt.triggers i).bytes).flatten
  Memory.write m 500 (u8 autoVacuum)

/-- A count that `catalog_load` takes from page 15; one above 4 is none. -/
def loadCount (m : Memory.Mem) (off : Nat) : Nat := if 4 < (u32At m off).toNat then 0 else (u32At m off).toNat

/-- The view definitions `catalog_load` finds, byte by byte. -/
def loadViews (m : Memory.Mem) : List (List UInt8) :=
  (List.range (loadCount m 0)).map fun i => Memory.read m (4 + i * sizeofView) sizeofView

/-- The trigger definitions `catalog_load` finds, byte by byte. -/
def loadTriggers (m : Memory.Mem) : List (List UInt8) :=
  (List.range (loadCount m (4 + sizeofView * 4))).map fun i =>
    Memory.read m (8 + sizeofView * 4 + i * sizeofTrigger) sizeofTrigger

/-- `pager->auto_vacuum` after `catalog_load`. -/
def loadAutoVacuum (m : Memory.Mem) : Bool := Memory.read m 500 1 = [1]

/-- What `catalog_load` finds on the page is what the catalog and the pager held. -/
structure ViewCatalog.Returned (vt : ViewCatalog) (autoVacuum : Bool) (m : Memory.Mem) : Prop where
  views : loadViews m = (List.ofFn fun i => (vt.views i).bytes).take vt.numViews
  triggers : loadTriggers m = (List.ofFn fun i => (vt.triggers i).bytes).take vt.numTriggers
  autoVacuum : loadAutoVacuum m = autoVacuum

/-! ## What the page holds -/

theorem ViewDef.length_bytes (v : ViewDef) : v.bytes.length = sizeofView := by
  simp [ViewDef.bytes, sizeofView]

theorem TriggerDef.length_bytes (t : TriggerDef) : t.bytes.length = sizeofTrigger := by
  simp [TriggerDef.bytes, sizeofTrigger, length_u32]

/-- The byte of the flag. -/
def flagByte (b : Bool) : UInt8 := if b then 1 else 0

namespace ViewCatalog

variable (vt : ViewCatalog) (av : Bool) {m : Memory.Mem}

/-- The view array with the byte `b` where the flag goes. -/
def viewBlocks (b : UInt8) : List (List UInt8) := (List.ofFn fun i => (vt.views i).bytes).modify 1 (·.set 176 b)

/-- The trigger array. -/
def triggerBlocks : List (List UInt8) := List.ofFn fun i => (vt.triggers i).bytes

/-- The copies of page 15, one behind the other. -/
def blocks (b : UInt8) : List (List UInt8) :=
  u32 (BitVec.ofNat 32 vt.numViews) ::
    (vt.viewBlocks b ++ u32 (BitVec.ofNat 32 vt.numTriggers) :: vt.triggerBlocks)

/-- The bytes of each of the copies. -/
def blockSizes : List Nat := [4, 320, 320, 320, 320, 4, 392, 392, 392, 392]

theorem block_sizes (b : UInt8) : (vt.blocks b).map List.length = blockSizes := by
  simp [blocks, viewBlocks, triggerBlocks, blockSizes, List.ofFn_succ, length_u32, ViewDef.length_bytes,
    TriggerDef.length_bytes, sizeofView, sizeofTrigger]

theorem block_offset (b : UInt8) (k : Nat) : ((vt.blocks b).take k).flatten.length = (blockSizes.take k).sum := by
  rw [List.length_flatten, List.map_take, vt.block_sizes]

/-- Byte 500 is byte 176 of the second view. -/
theorem flatten_blocks (b : UInt8) : (vt.blocks b).flatten =
    (u32 (BitVec.ofNat 32 vt.numViews) ++ ((List.ofFn fun i => (vt.views i).bytes).flatten ++
      (u32 (BitVec.ofNat 32 vt.numTriggers) ++ vt.triggerBlocks.flatten))).set 500 b := by
  have h0 : (vt.views 0).bytes.length = 320 := ViewDef.length_bytes _
  have h1 : (vt.views 1).bytes.length = 320 := ViewDef.length_bytes _
  simp [blocks, viewBlocks, List.ofFn_succ, length_u32, h0, h1]

theorem store_eq (m : Memory.Mem) : vt.store av m = Memory.write m 0 (vt.blocks (flagByte av)).flatten := by
  have hv : (List.ofFn fun i => (vt.views i).bytes).flatten.length = 1280 := by
    simp [List.ofFn_succ, ViewDef.length_bytes, sizeofView]
  have hu := length_u32
  have hlen : 500 < (u32 (BitVec.ofNat 32 vt.numViews) ++ ((List.ofFn fun i => (vt.views i).bytes).flatten ++
      (u32 (BitVec.ofNat 32 vt.numTriggers) ++ vt.triggerBlocks.flatten))).length := by
    rw [List.length_append, List.length_append, hv, hu]
    omega
  rw [flatten_blocks, ← Memory.write_set _ _ _ hlen, Memory.write_append, Memory.write_append, Memory.write_append]
  simp only [hv, hu]
  rfl

theorem store_holds (m : Memory.Mem) : Holds (vt.store av m) (Memory.consecutive 0 (vt.blocks (flagByte av))) := by
  rw [store_eq, Memory.write_flatten]
  exact fun w hw => (Memory.ascending_consecutive 0 _).read hw

/-- The `k`th of the copies, where it was put. -/
theorem read_store (m : Memory.Mem) {k off : Nat} {c : List UInt8} (hc : (vt.blocks (flagByte av))[k]? = some c)
    (hoff : (blockSizes.take k).sum = off) : Memory.read (vt.store av m) off c.length = c := by
  have h := (vt.store_holds av m).chunk hc ((vt.block_offset _ k).trans hoff)
  rwa [Nat.zero_add] at h

/-- The `k`th of the copies, by the size of its place. -/
theorem read_block (m : Memory.Mem) {k off size : Nat} {c : List UInt8}
    (hc : (vt.blocks (flagByte av))[k]? = some c) (hplace : blockSizes[k]? = some size ∧ (blockSizes.take k).sum = off) :
    Memory.read (vt.store av m) off size = c := by
  have hmap := congrArg (Option.map List.length) hc
  rw [← List.getElem?_map, vt.block_sizes, hplace.1] at hmap
  have hsize : size = c.length := Option.some.inj hmap
  rw [hsize]
  exact vt.read_store av m hc hplace.2

theorem loadCount_store {k off n : Nat} (hn : n ≤ 4) (m : Memory.Mem)
    (hc : (vt.blocks (flagByte av))[k]? = some (u32 (BitVec.ofNat 32 n))) (hoff : (blockSizes.take k).sum = off) :
    loadCount (vt.store av m) off = n := by
  have h := u32At_eq (vt.read_store av m hc hoff)
  have hval : (BitVec.ofNat 32 n).toNat = n := by
    rw [BitVec.toNat_ofNat]
    omega
  rw [loadCount, h, hval, if_neg (by omega)]

/-- The first `n` elements of an array of which every element can be read back. -/
theorem read_array {base size n : Nat} {l : List (List UInt8)} (hn : n ≤ l.length)
    (h : ∀ i (hi : i < l.length), Memory.read m (base + i * size) size = l[i]) :
    ((List.range n).map fun i => Memory.read m (base + i * size) size) = l.take n := by
  apply List.ext_getElem
  · rw [List.length_map, List.length_range, List.length_take, Nat.min_eq_left hn]
  · intro i h1 h2
    rw [List.length_map, List.length_range] at h1
    rw [List.getElem_map, List.getElem_range, List.getElem_take]
    exact h i (by omega)

theorem length_viewBlocks (b : UInt8) : (vt.viewBlocks b).length = 4 := by
  simp [viewBlocks]

theorem length_triggerBlocks : vt.triggerBlocks.length = 4 := List.length_ofFn

/-- The views come back with the flag's byte in the second of them. -/
theorem loadViews_store (m : Memory.Mem) :
    loadViews (vt.store av m) = (vt.viewBlocks (flagByte av)).take vt.numViews := by
  have hcount : loadCount (vt.store av m) 0 = vt.numViews := vt.loadCount_store av (k := 0) vt.numViews_le m rfl rfl
  have hlen := vt.length_viewBlocks (flagByte av)
  unfold loadViews
  rw [hcount]
  refine read_array (by rw [hlen]; exact vt.numViews_le) fun i hi => ?_
  have hget : (vt.blocks (flagByte av))[1 + i]? = some (vt.viewBlocks (flagByte av))[i] := by
    rw [Nat.add_comm, blocks, List.getElem?_cons_succ, List.getElem?_append_left hi, List.getElem?_eq_getElem hi]
  have hplace : ∀ i < 4, blockSizes[1 + i]? = some sizeofView ∧ (blockSizes.take (1 + i)).sum = 4 + i * sizeofView := by
    decide
  exact vt.read_block av m hget (hplace i (by omega))

/-- The triggers come back as they were. -/
theorem loadTriggers_store (m : Memory.Mem) : loadTriggers (vt.store av m) = vt.triggerBlocks.take vt.numTriggers := by
  have hlen := vt.length_triggerBlocks
  have hviews := vt.length_viewBlocks (flagByte av)
  have hcount : loadCount (vt.store av m) (4 + sizeofView * 4) = vt.numTriggers := by
    refine vt.loadCount_store av (k := 5) vt.numTriggers_le m ?_ rfl
    rw [blocks, List.getElem?_cons_succ, List.getElem?_append_right (by omega), hviews]
    rfl
  unfold loadTriggers
  rw [hcount]
  refine read_array (by rw [hlen]; exact vt.numTriggers_le) fun i hi => ?_
  have hget : (vt.blocks (flagByte av))[6 + i]? = some vt.triggerBlocks[i] := by
    have hsub : 5 + i - (vt.viewBlocks (flagByte av)).length = i + 1 := by omega
    rw [show 6 + i = 5 + i + 1 by omega, blocks, List.getElem?_cons_succ, List.getElem?_append_right (by omega), hsub,
      List.getElem?_cons_succ, List.getElem?_eq_getElem hi]
  have hplace : ∀ i < 4, blockSizes[6 + i]? = some sizeofTrigger ∧
      (blockSizes.take (6 + i)).sum = 8 + sizeofView * 4 + i * sizeofTrigger := by
    decide
  exact vt.read_block av m hget (hplace i (by omega))

theorem loadAutoVacuum_store (m : Memory.Mem) : loadAutoVacuum (vt.store av m) = av := by
  have hread : Memory.read (vt.store av m) 500 1 = u8 av := Memory.read_write_self _ 500 (u8 av)
  rw [loadAutoVacuum, hread]
  exact u8_eq_one av

/-- The byte of the second view that lies where the flag goes: character 112 of its SELECT. -/
def sharedByte : UInt8 := (vt.views 1).bytes.getD 176 0

/-- The view array keeps its bytes where the shared byte has the flag's value, or no view reaches it. -/
theorem take_viewBlocks_iff (b : UInt8) :
    (vt.viewBlocks b).take vt.numViews = (List.ofFn fun i => (vt.views i).bytes).take vt.numViews ↔
      (2 ≤ vt.numViews → vt.sharedByte = b) := by
  have hlen : (vt.views 1).bytes.length = 320 := ViewDef.length_bytes _
  have hset : (vt.views 1).bytes.set 176 b = (vt.views 1).bytes ↔ vt.sharedByte = b := by
    rw [sharedByte, List.getD_eq_getElem _ _ (by omega)]
    constructor
    · intro h
      have hget := congrArg (fun l : List UInt8 => l[176]?) h
      simpa [hlen] using hget.symm
    · rintro rfl
      exact List.set_getElem_self _
  have hle := vt.numViews_le
  rcases vt.numViews with _ | _ | n
  · simp
  · simp [viewBlocks, List.ofFn_succ]
  · simp [viewBlocks, List.ofFn_succ, hset]

/-- What `catalog_load` finds on page 15 is what was saved exactly when there is no second view, or its SELECT has
the flag's value as character 112. -/
theorem returned_store_iff (m : Memory.Mem) :
    vt.Returned av (vt.store av m) ↔ (2 ≤ vt.numViews → vt.sharedByte = flagByte av) := by
  rw [← take_viewBlocks_iff, ← vt.loadViews_store av m]
  exact ⟨fun h => h.views, fun h => ⟨h, vt.loadTriggers_store av m, vt.loadAutoVacuum_store av m⟩⟩

end ViewCatalog

/-! ## As texts -/

/-- The C string at the front of an array. -/
def cstr (l : List UInt8) : List UInt8 := l.takeWhile (· ≠ 0)

/-- The name and the SELECT of a view definition. -/
def viewTexts (l : List UInt8) : List UInt8 × List UInt8 := (cstr (l.take 64), cstr (l.drop 64))

/-- A byte stored behind the end of a string does not change it. -/
theorem cstr_set_iff {l : List UInt8} {k : Nat} (hk : k < l.length) (b : UInt8) :
    cstr (l.set k b) = cstr l ↔ (cstr l).length < k ∨ l[k] = b := by
  induction l generalizing k with
  | nil => exact absurd hk (Nat.not_lt_zero k)
  | cons x l ih =>
    cases k with
    | zero =>
      by_cases hb : b = 0
      · by_cases hx : x = 0 <;> simp [cstr, hb, hx]
      · by_cases hx : x = 0
        · simp [cstr, hb, hx, Ne.symm hb]
        · simp [cstr, hb, hx, eq_comm]
    | succ k =>
      by_cases hx : x = 0
      · simp [cstr, hx]
      · simpa [cstr, hx] using ih (Nat.lt_of_succ_lt_succ hk)

namespace ViewCatalog

/-- What `catalog_load` finds on the page reads as what the catalog and the pager held. -/
structure ReturnedTexts (vt : ViewCatalog) (autoVacuum : Bool) (m : Memory.Mem) : Prop where
  views : (loadViews m).map viewTexts = ((List.ofFn fun i => (vt.views i).bytes).take vt.numViews).map viewTexts
  triggers : loadTriggers m = (List.ofFn fun i => (vt.triggers i).bytes).take vt.numTriggers
  autoVacuum : loadAutoVacuum m = autoVacuum

variable (vt : ViewCatalog) (av : Bool)

theorem viewTexts_set (v : ViewDef) (b : UInt8) : viewTexts (v.bytes.set 176 b) = viewTexts v.bytes ↔
    (cstr v.selectSql.val).length < 112 ∨ v.bytes.getD 176 0 = b := by
  have hname : v.viewName.val.length = 64 := v.viewName.property
  have hsql : v.selectSql.val.length = 256 := v.selectSql.property
  have hset : v.bytes.set 176 b = v.viewName.val ++ v.selectSql.val.set 112 b := by
    rw [ViewDef.bytes, List.set_append_right _ _ (by omega), hname]
  have hget : v.bytes.getD 176 0 = v.selectSql.val.get ⟨112, by omega⟩ := by
    rw [ViewDef.bytes, List.getD_append_right _ _ _ _ (by omega), hname, List.getD_eq_getElem _ _ (by omega)]
    rfl
  rw [hset, hget, List.get_eq_getElem, ← cstr_set_iff (by omega)]
  unfold viewTexts ViewDef.bytes
  rw [List.take_left' hname, List.drop_left' hname, List.take_left' hname, List.drop_left' hname, Prod.mk.injEq]
  exact and_iff_right rfl

theorem map_viewBlocks_iff (b : UInt8) : ((vt.viewBlocks b).take vt.numViews).map viewTexts =
      ((List.ofFn fun i => (vt.views i).bytes).take vt.numViews).map viewTexts ↔
      (2 ≤ vt.numViews → (cstr (vt.views 1).selectSql.val).length < 112 ∨ vt.sharedByte = b) := by
  have hset := viewTexts_set (vt.views 1) b
  rcases vt.numViews with _ | _ | n
  · simp
  · simp [viewBlocks, List.ofFn_succ]
  · simp [viewBlocks, List.ofFn_succ, hset, sharedByte]

/-- The texts survive also where the second SELECT ends before character 112. -/
theorem returnedTexts_store_iff (m : Memory.Mem) : vt.ReturnedTexts av (vt.store av m) ↔
    (2 ≤ vt.numViews → (cstr (vt.views 1).selectSql.val).length < 112 ∨ vt.sharedByte = flagByte av) := by
  rw [← map_viewBlocks_iff, ← vt.loadViews_store av m]
  exact ⟨fun h => h.views, fun h => ⟨h, vt.loadTriggers_store av m, vt.loadAutoVacuum_store av m⟩⟩

end ViewCatalog

/-! ## A restart -/

section Restart

variable (cat : Catalog) (vt : ViewCatalog) (autoVacuum : Bool) (pages : Nat → Memory.Mem)

/-- Page 15 after `catalog_save`. -/
def viewPage : Memory.Mem := (cat.image (vt.store autoVacuum)).pages pages 15

/-- `catalog_save` followed by `catalog_load` gives the views, the triggers and the flag back, byte by byte, exactly
when there is no second view or its SELECT has the flag's value as character 112; and as texts also where that SELECT
ends before. -/
theorem views_round_trip_iff :
    (vt.Returned autoVacuum (viewPage cat vt autoVacuum pages) ↔
      (2 ≤ vt.numViews → vt.sharedByte = flagByte autoVacuum)) ∧
    (vt.ReturnedTexts autoVacuum (viewPage cat vt autoVacuum pages) ↔
      (2 ≤ vt.numViews → (cstr (vt.views 1).selectSql.val).length < 112 ∨ vt.sharedByte = flagByte autoVacuum)) := by
  obtain ⟨m, hm⟩ : ∃ m, viewPage cat vt autoVacuum pages = vt.store autoVacuum m := by
    unfold viewPage CatalogImage.pages
    exact ⟨_, Function.update_self ..⟩
  rw [hm]
  exact ⟨vt.returned_store_iff autoVacuum m, vt.returnedTexts_store_iff autoVacuum m⟩

end Restart

/-! ## A long second view -/

/-- A database without views and triggers, its memory zeroed. -/
def noViews : ViewCatalog where
  numViews := 0
  numViews_le := by decide
  views _ := ⟨List.Vector.replicate 64 0, List.Vector.replicate 256 0⟩
  numTriggers := 0
  numTriggers_le := by decide
  triggers _ := ⟨List.Vector.replicate 64 0, List.Vector.replicate 64 0, .before, .insert, List.Vector.replicate 256 0⟩

/-- CREATE VIEW a AS x, then CREATE VIEW b with a SELECT of 150 characters. -/
def longView : ViewCatalog :=
  ((noViews.createView [97] [120]).bind fun vt => vt.createView [98] (List.replicate 150 120)).getD noViews

theorem longView_eq : longView.numViews = 2 ∧ longView.sharedByte = 120 := by
  decide +kernel

/-- With `auto_vacuum` off, a SELECT of 150 characters in the second view comes back cut to 112. -/
theorem long_view_cut :
    (∀ m, (loadViews (longView.store false m)).map viewTexts = [([97], [120]), ([98], List.replicate 112 120)]) ∧
    ¬ ∀ (cat : Catalog) (vt : ViewCatalog) (autoVacuum : Bool) (pages : Nat → Memory.Mem),
      vt.Returned autoVacuum (viewPage cat vt autoVacuum pages) := by
  refine ⟨fun m => by rw [longView.loadViews_store]; decide +kernel, fun h => ?_⟩
  have hpage := h ⟨[], by decide⟩ longView false fun _ _ => 0
  obtain ⟨hnum, hbyte⟩ := longView_eq
  have hshared := (longView.returned_store_iff false fun _ => 0).mp hpage (by omega)
  rw [hbyte] at hshared
  exact absurd hshared (by decide)

end CustomDB
