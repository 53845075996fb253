import CustomDB.Sql.UpdateText
import CustomDB.Catalog.Views

/-!
# CREATE TRIGGER, as it is parsed and stored

The action of a trigger is the text from BEGIN to the END that matches it, where words inside of strings do not count
and every CASE has an END of its own. The parser copies up to the first three letters that spell `end`, wherever they
stand, or until 255 bytes are copied.
-/

namespace CustomDB

def kwCreate : Text := ascii ['c', 'r', 'e', 'a', 't', 'e']
def kwTrigger : Text := ascii ['t', 'r', 'i', 'g', 'g', 'e', 'r']
def kwBefore : Text := ascii ['b', 'e', 'f', 'o', 'r', 'e']
def kwAfter : Text := ascii ['a', 'f', 't', 'e', 'r']
def kwDelete : Text := ascii ['d', 'e', 'l', 'e', 't', 'e']
def kwOn : Text := ascii ['o', 'n']
def kwBegin : Text := ascii ['b', 'e', 'g', 'i', 'n']
def kwCase : Text := ascii ['c', 'a', 's', 'e']
def kwEnd : Text := ascii ['e', 'n', 'd']

/-! ## The parser -/

/-- The fields of a `Statement` that CREATE TRIGGER sets. -/
structure TriggerStatement where
  triggerName : Text
  triggerTiming : TriggerTiming
  triggerEvent : TriggerEvent
  tableName : Text
  triggerActionSql : Text
  deriving DecidableEq

/-- A word that may be left out. -/
def skipWord (kw p : Text) : Text := if startsCI kw p then p.drop kw.length else p

/-- BEFORE or AFTER; AFTER where neither is there. -/
def parseTiming (p : Text) : TriggerTiming × Text :=
  if startsCI kwBefore p then (.before, p.drop 6)
  else if startsCI kwAfter p then (.after, p.drop 5)
  else (.after, p)

/-- INSERT, UPDATE or DELETE; INSERT, which is 0, where none is there. -/
def parseEvent (p : Text) : TriggerEvent × Text :=
  if startsCI kwInsert p then (.insert, p.drop 6)
  else if startsCI kwUpdate p then (.update, p.drop 6)
  else if startsCI kwDelete p then (.delete, p.drop 6)
  else (.insert, p)

/-- Copy to `trigger_action_sql` up to the letters `end`, or as much as there is room for. -/
def copyAction : Nat → Text → Text
  | 0, _ => []
  | _, [] => []
  | room + 1, b :: p => if startsCI kwEnd (b :: p) then [] else b :: copyAction room p

/-- `sizeof(out->trigger_action_sql)`. -/
def actionSize : Nat := 256


/-- What is behind CREATE TRIGGER; `none` for any other statement. -/
def behindTrigger (input : Text) : Option Text :=
  let p := skipWhitespace input
  if startsCI kwCreate p then
    let p := skipWhitespace (p.drop 6)
    if startsCI kwTrigger p then some (p.drop 7) else none
  else none

/-- Where the name of the table begins, at the latest behind ON. -/
def atTable (p : Text) : Text :=
  let p := skipWhitespace (parseIdentifier p tblNameSize).2
  let p := skipWhitespace (parseTiming p).2
  let p := skipWhitespace (parseEvent p).2
  skipWhitespace (skipWord kwOn p)

/-- Where BEGIN stands, if it is there. -/
def atBegin (p : Text) : Text := skipWhitespace (parseIdentifier (atTable p) tblNameSize).2

/-- The action that is copied, from behind BEGIN if it is there. -/
def copiedAction (p : Text) : Text := copyAction (actionSize - 1) (skipWhitespace (skipWord kwBegin (atBegin p)))

/-- The CREATE TRIGGER branch of `prepare_statement`; `none` is a syntax error. -/
def prepareTrigger (p : Text) : Option TriggerStatement :=
  let name := (parseIdentifier p tblNameSize).1
  if name = [] then none
  else
    let timing := parseTiming (skipWhitespace (parseIdentifier p tblNameSize).2)
    let event := parseEvent (skipWhitespace timing.2)
    let table := (parseIdentifier (atTable p) tblNameSize).1
    some ⟨name, timing.1, event.1, table, copiedAction p⟩

/-- `prepare_statement` and `execute_statement` of a CREATE TRIGGER; `none` where one of them refuses. -/
def runCreateTrigger (vt : ViewCatalog) (input : Text) : Option ViewCatalog := do
  let p ← behindTrigger input
  let s ← prepareTrigger p
  vt.createTrigger s.triggerName s.tableName s.triggerTiming s.triggerEvent s.triggerActionSql

/-! ## The matching END -/

/-- Where a reader of SQL is: between words, in a word, or in a string opened by a quote. -/
inductive Place where
  | between
  | word
  | string (quote : UInt8)

/-- Where the reader is behind a character outside of strings. -/
def Place.behind (b : UInt8) : Place := if b = 39 ∨ b = 34 then .string b else if isIdent b then .word else .between

/-- The word in front, in small letters. -/
def wordAt (p : Text) : Text := (p.takeWhile isIdent).map tolower

/-- How far it is to the END that matches, `depth` further CASE or BEGIN being open. -/
def matchingEnd : Nat → Place → Text → Option Nat
  | _, _, [] => none
  | depth, .string q, b :: p => (matchingEnd depth (if b = q then .between else .string q) p).map (· + 1)
  | depth, .word, b :: p => (matchingEnd depth (.behind b) p).map (· + 1)
  | depth, .between, b :: p =>
    if wordAt (b :: p) = kwEnd then
      match depth with
      | 0 => some 0
      | depth + 1 => (matchingEnd depth .word p).map (· + 1)
    else
      let opens := wordAt (b :: p) = kwCase ∨ wordAt (b :: p) = kwBegin
      (matchingEnd (if opens then depth + 1 else depth) (.behind b) p).map (· + 1)

/-- What is behind the word BEGIN and the blanks that follow it. -/
def behindBegin (p : Text) : Option Text :=
  if wordAt (atBegin p) = kwBegin then some (skipWhitespace ((atBegin p).drop 5)) else none

/-- The action, as written: from BEGIN to the matching END. -/
structure Action (p : Text) where
  body : Text
  length : Nat
  begins : behindBegin p = some body
  ends : matchingEnd 0 .between body = some length

/-- The trigger's name, as written. -/
def writtenName (p : Text) : Text := (skipWhitespace p).takeWhile isIdent

/-- The table's name, as written. -/
def writtenTable (p : Text) : Text := (skipWhitespace (atTable p)).takeWhile isIdent

/-- The definition holds the names and the action in full. -/
structure TriggerDef.Whole (t : TriggerDef) (p : Text) : Prop where
  name : cstr t.name.val = writtenName p
  targetTable : cstr t.targetTable.val = writtenTable p
  actionSql : ∃ a : Action p, cstr t.actionSql.val = a.body.take a.length

/-- The trigger that was created is whole. -/
def StoresWhole (vt vt' : ViewCatalog) (input : Text) : Prop :=
  ∀ p, behindTrigger input = some p → ∃ i : Fin maxViews, i.val = vt.numTriggers ∧ (vt'.triggers i).Whole p

/-- The names and the action fit, and the letters `end` stand nowhere before the matching END. -/
structure FitsPlain (p : Text) : Prop where
  name : (writtenName p).length < tblNameSize
  table : (writtenTable p).length < tblNameSize
  action : ∃ a : Action p, a.length < actionSize ∧ ∀ i < a.length, startsCI kwEnd (a.body.drop i) = false

/-! ## What is copied -/

section Copy

variable {depth : Nat} {place : Place} {p : Text}

/-- A whole word in front is what the text starts with. -/
theorem startsCI_of_wordAt {kw : Text} (h : wordAt p = kw) : startsCI kw p = true := by
  have hlen := congrArg List.length h
  rw [wordAt, List.length_map] at hlen
  have htake : p.take kw.length = p.takeWhile isIdent := by
    rw [← hlen]
    exact (List.prefix_iff_eq_take.mp (List.takeWhile_prefix _)).symm
  rw [startsCI, htake]
  exact decide_eq_true h

/-- Where the matching END is found the letters `end` stand. -/
theorem matchingEnd_spec {n : Nat} (h : matchingEnd depth place p = some n) :
    n < p.length ∧ startsCI kwEnd (p.drop n) = true := by
  induction p generalizing depth place n with
  | nil => simp [matchingEnd] at h
  | cons b p ih =>
    have hnext : ∀ {d pl m}, matchingEnd d pl p = some m →
        m + 1 < (b :: p).length ∧ startsCI kwEnd ((b :: p).drop (m + 1)) = true := by
      intro d pl m hm
      exact ⟨Nat.succ_lt_succ (ih hm).1, (ih hm).2⟩
    cases place with
    | string q =>
      obtain ⟨m, hm, rfl⟩ := Option.map_eq_some_iff.mp h
      exact hnext hm
    | word =>
      obtain ⟨m, hm, rfl⟩ := Option.map_eq_some_iff.mp h
      exact hnext hm
    | between =>
      rw [matchingEnd.eq_def] at h
      dsimp only at h
      split at h
      · next hword =>
        cases depth with
        | zero =>
          obtain rfl := Option.some.inj h
          exact ⟨Nat.succ_pos _, startsCI_of_wordAt hword⟩
        | succ d =>
          obtain ⟨m, hm, rfl⟩ := Option.map_eq_some_iff.mp h
          exact hnext hm
      · obtain ⟨m, hm, rfl⟩ := Option.map_eq_some_iff.mp h
        exact hnext hm

/-- The copy is what is before an END exactly if there is room for it and the letters stand nowhere before. -/
theorem copyAction_eq_take_iff {n : Nat} (room : Nat) (hn : n < p.length) (hend : startsCI kwEnd (p.drop n) = true) :
    copyAction room p = p.take n ↔ n ≤ room ∧ ∀ i < n, startsCI kwEnd (p.drop i) = false := by
  induction n generalizing p room with
  | zero =>
    have hnil : copyAction room p = [] := by
      cases room with
      | zero => rfl
      | succ room =>
        cases p with
        | nil => rfl
        | cons b p => exact if_pos hend
    simp [hnil]
  | succ n ih =>
    cases p with
    | nil => exact absurd hn (Nat.not_lt_zero _)
    | cons b p =>
      cases room with
      | zero => simp [copyAction]
      | succ room =>
        have hrest := ih room (Nat.lt_of_succ_lt_succ hn) hend
        rw [copyAction]
        split
        · next hstart =>
          refine ⟨fun h => by simp at h, fun h => ?_⟩
          have hfalse := h.2 0 (Nat.succ_pos n)
          rw [List.drop_zero, hstart] at hfalse
          cases hfalse
        · next hstart =>
          rw [List.take_succ_cons, List.cons.injEq, and_iff_right rfl, hrest, Nat.succ_le_succ_iff]
          refine and_congr_right fun _ => ⟨fun h i hi => ?_, fun h i hi => h (i + 1) (Nat.succ_lt_succ hi)⟩
          cases i with
          | zero => simpa using hstart
          | succ i => exact h i (Nat.lt_of_succ_lt_succ hi)

end Copy

/-! ## What is stored -/

theorem length_copyAction_le (room : Nat) (p : Text) : (copyAction room p).length ≤ room := by
  induction room generalizing p with
  | zero => exact Nat.le_refl 0
  | succ room ih =>
    cases p with
    | nil => exact Nat.zero_le _
    | cons b p =>
      rw [copyAction]
      split
      · exact Nat.zero_le _
      · exact Nat.succ_le_succ (ih p)

theorem copyAction_sublist (room : Nat) (p : Text) : List.Sublist (copyAction room p) p := by
  induction room generalizing p with
  | zero => exact List.nil_sublist p
  | succ room ih =>
    cases p with
    | nil => exact List.nil_sublist _
    | cons b p =>
      rw [copyAction]
      split
      · exact List.nil_sublist _
      · exact (ih p).cons_cons b

section Suffix

variable (p : Text)

theorem skipWhitespace_suffix : skipWhitespace p <:+ p := List.dropWhile_suffix _

theorem parseIdentifier_suffix (n : Nat) : (parseIdentifier p n).2 <:+ p :=
  (List.dropWhile_suffix _).trans (skipWhitespace_suffix p)

theorem skipWord_suffix (kw : Text) : skipWord kw p <:+ p := by
  unfold skipWord
  split
  · exact List.drop_suffix ..
  · exact List.suffix_rfl

theorem parseTiming_suffix : (parseTiming p).2 <:+ p := by
  unfold parseTiming
  split
  · exact List.drop_suffix ..
  · split
    · exact List.drop_suffix ..
    · exact List.suffix_rfl

theorem parseEvent_suffix : (parseEvent p).2 <:+ p := by
  unfold parseEvent
  split
  · exact List.drop_suffix ..
  · split
    · exact List.drop_suffix ..
    · split
      · exact List.drop_suffix ..
      · exact List.suffix_rfl

theorem atTable_suffix : atTable p <:+ p :=
  calc
    atTable p <:+ skipWhitespace (parseEvent _).2 := (skipWhitespace_suffix _).trans (skipWord_suffix _ kwOn)
    _ <:+ skipWhitespace (parseTiming _).2 := (skipWhitespace_suffix _).trans (parseEvent_suffix _)
    _ <:+ skipWhitespace (parseIdentifier p tblNameSize).2 := (skipWhitespace_suffix _).trans (parseTiming_suffix _)
    _ <:+ p := (skipWhitespace_suffix _).trans (parseIdentifier_suffix p _)

theorem atBegin_suffix : atBegin p <:+ p :=
  (skipWhitespace_suffix _).trans ((parseIdentifier_suffix _ _).trans (atTable_suffix p))

end Suffix

theorem behindTrigger_suffix {input p : Text} (h : behindTrigger input = some p) : p <:+ input := by
  simp only [behindTrigger, Option.ite_none_right_eq_some, Option.some.injEq] at h
  obtain ⟨-, -, rfl⟩ := h
  exact (List.drop_suffix ..).trans ((skipWhitespace_suffix _).trans
    ((List.drop_suffix ..).trans (skipWhitespace_suffix _)))

/-- A text without a 0 that is printed into an array reads as what fits of it. -/
theorem cstr_print {n : Nat} (a : Chars n) (hn : 0 < n) {s : Text} (hs : ∀ b ∈ s, b ≠ 0) :
    cstr (a.print hn s).val = s.take (n - 1) := by
  have hall : ∀ b ∈ s.take (n - 1), decide (b ≠ 0) = true := fun b hb => decide_eq_true (hs b (List.mem_of_mem_take hb))
  have hval : (a.print hn s).val = s.take (n - 1) ++ 0 :: a.val.drop (min (n - 1) s.length + 1) := rfl
  rw [hval, cstr, List.takeWhile_append_of_pos hall, List.takeWhile_cons_of_neg (by decide), List.append_nil]

/-- The definition holds what fits of the names, and the action that is copied. -/
structure TriggerDef.Copied (t : TriggerDef) (p : Text) : Prop where
  name : cstr t.name.val = (writtenName p).take (tblNameSize - 1)
  targetTable : cstr t.targetTable.val = (writtenTable p).take (tblNameSize - 1)
  actionSql : cstr t.actionSql.val = copiedAction p

theorem take_eq_self_iff {l : Text} {n : Nat} (hn : 0 < n) : l.take (n - 1) = l ↔ l.length < n := by
  rw [List.take_eq_self_iff]
  omega

theorem TriggerDef.Copied.whole_iff {t : TriggerDef} {p : Text} (h : t.Copied p) : t.Whole p ↔ FitsPlain p := by
  have hname : cstr t.name.val = writtenName p ↔ (writtenName p).length < tblNameSize := by
    rw [h.name]
    exact take_eq_self_iff (by decide)
  have htable : cstr t.targetTable.val = writtenTable p ↔ (writtenTable p).length < tblNameSize := by
    rw [h.targetTable]
    exact take_eq_self_iff (by decide)
  have haction : ∀ a : Action p, cstr t.actionSql.val = a.body.take a.length ↔
      a.length < actionSize ∧ ∀ i < a.length, startsCI kwEnd (a.body.drop i) = false := by
    intro a
    obtain ⟨hlen, hend⟩ := matchingEnd_spec a.ends
    have hbody : skipWhitespace (skipWord kwBegin (atBegin p)) = a.body := by
      have hbegins := a.begins
      simp only [behindBegin, Option.ite_none_right_eq_some, Option.some.injEq] at hbegins
      rw [skipWord, if_pos (startsCI_of_wordAt hbegins.1)]
      exact hbegins.2
    rw [h.actionSql, copiedAction, hbody, copyAction_eq_take_iff _ hlen hend]
    exact and_congr_left fun _ => Nat.lt_succ_iff.symm
  exact ⟨fun w => ⟨hname.mp w.name, htable.mp w.targetTable, w.actionSql.imp fun a => (haction a).mp⟩,
    fun w => ⟨hname.mpr w.name, htable.mpr w.table, w.action.imp fun a => (haction a).mpr⟩⟩

section Run

variable {input p : Text} {vt vt' : ViewCatalog}

theorem parsedName_eq_nil_iff (p : Text) : (parseIdentifier p tblNameSize).1 = [] ↔ writtenName p = [] := by
  have hname : (parseIdentifier p tblNameSize).1 = (writtenName p).take (tblNameSize - 1) := rfl
  rw [hname, List.take_eq_nil_iff]
  simp [tblNameSize]

/-- Without a name there is no trigger. -/
theorem runCreateTrigger_noName (hp : behindTrigger input = some p) (hname : writtenName p = []) :
    runCreateTrigger vt input = none := by
  simp [runCreateTrigger, hp, prepareTrigger, (parsedName_eq_nil_iff p).mpr hname]

/-- With a name and room in the array there is one. -/
theorem runCreateTrigger_some (hp : behindTrigger input = some p) (hname : writtenName p ≠ [])
    (hroom : vt.numTriggers < maxViews) : ∃ vt', runCreateTrigger vt input = some vt' := by
  simp [runCreateTrigger, hp, prepareTrigger, mt (parsedName_eq_nil_iff p).mp hname, ViewCatalog.createTrigger, hroom]

/-- The definition that is added to the array. -/
theorem createTrigger_added {name table action : Text} {timing : TriggerTiming} {event : TriggerEvent}
    (h : vt.createTrigger name table timing event action = some vt') :
    ∃ i : Fin maxViews, i.val = vt.numTriggers ∧ ∃ t : TriggerDef, vt'.triggers i =
      ⟨t.name.print (by decide) name, t.targetTable.print (by decide) table, timing, event,
        t.actionSql.print (by decide) action⟩ := by
  unfold ViewCatalog.createTrigger at h
  split at h
  next hroom =>
    rw [← Option.some.inj h]
    exact ⟨⟨vt.numTriggers, hroom⟩, rfl, vt.triggers ⟨vt.numTriggers, hroom⟩, Function.update_self ..⟩
  next => cases h

/-- A name of the statement, printed into the definition. -/
theorem cstr_printName {q : Text} (a : Chars 64) (hq : ∀ b ∈ (parseIdentifier q tblNameSize).1, b ≠ 0) :
    cstr (a.print (by decide) (parseIdentifier q tblNameSize).1).val =
      ((skipWhitespace q).takeWhile isIdent).take (tblNameSize - 1) := by
  have hname : (parseIdentifier q tblNameSize).1 = ((skipWhitespace q).takeWhile isIdent).take 63 := rfl
  have hsize : tblNameSize - 1 = 63 := rfl
  rw [cstr_print a _ hq, hname, hsize, List.take_take]
  rfl

theorem parsedName_ne_zero {q : Text} (hq : ∀ b ∈ q, b ≠ 0) : ∀ b ∈ (parseIdentifier q tblNameSize).1, b ≠ 0 := by
  intro b hb
  have hmem : b ∈ skipWhitespace q := (List.takeWhile_sublist _).subset (List.mem_of_mem_take hb)
  exact hq b ((List.dropWhile_sublist _).subset hmem)

theorem runCreateTrigger_copied (h0 : ∀ b ∈ input, b ≠ 0) (hp : behindTrigger input = some p)
    (h : runCreateTrigger vt input = some vt') :
    ∃ i : Fin maxViews, i.val = vt.numTriggers ∧ (vt'.triggers i).Copied p := by
  have hplain : ∀ q, q <:+ p → ∀ b ∈ q, b ≠ 0 := fun q hq b hb => h0 b ((behindTrigger_suffix hp).subset (hq.subset hb))
  have hname := parsedName_ne_zero (hplain p List.suffix_rfl)
  have htable := parsedName_ne_zero (hplain (atTable p) (atTable_suffix p))
  have hbody : skipWhitespace (skipWord kwBegin (atBegin p)) <:+ p :=
    (skipWhitespace_suffix _).trans ((skipWord_suffix _ _).trans (atBegin_suffix p))
  have haction : ∀ b ∈ copiedAction p, b ≠ 0 := fun b hb => hplain _ hbody b ((copyAction_sublist _ _).subset hb)
  simp only [runCreateTrigger, hp, Option.bind_eq_bind, Option.bind_some] at h
  obtain ⟨s, hs, hcreate⟩ := Option.bind_eq_some_iff.mp h
  obtain ⟨i, hi, t, ht⟩ := createTrigger_added hcreate
  refine ⟨i, hi, ?_⟩
  unfold prepareTrigger at hs
  dsimp only at hs
  split at hs
  · cases hs
  · obtain rfl := Option.some.inj hs
    dsimp only at ht
    rw [ht]
    have hroom : (copiedAction p).length ≤ 255 := length_copyAction_le ..
    have hprint := cstr_print t.actionSql (by decide) haction
    rw [List.take_of_length_le hroom] at hprint
    exact ⟨cstr_printName t.name hname, cstr_printName t.targetTable htable, hprint⟩

/-- Every trigger that is created holds its names and its action in full exactly if the statement has no name, and is
refused, or the names and the action fit and `end` is spelled nowhere before the matching END. -/
theorem trigger_whole_iff (h0 : ∀ b ∈ input, b ≠ 0) :
    (∀ vt vt', runCreateTrigger vt input = some vt' → StoresWhole vt vt' input) ↔
      ∀ p, behindTrigger input = some p → writtenName p ≠ [] → FitsPlain p := by
  constructor
  · intro h p hp hname
    have hroom : noViews.numTriggers < maxViews := by decide
    obtain ⟨vt', hrun⟩ := runCreateTrigger_some hp hname hroom
    obtain ⟨i, hi, hwhole⟩ := h noViews vt' hrun p hp
    obtain ⟨j, hj, hcopied⟩ := runCreateTrigger_copied h0 hp hrun
    obtain rfl : i = j := Fin.ext (hi.trans hj.symm)
    exact hcopied.whole_iff.mp hwhole
  · intro h vt vt' hrun p hp
    obtain ⟨i, hi, hcopied⟩ := runCreateTrigger_copied h0 hp hrun
    have hname : writtenName p ≠ [] := fun hnil => by
      rw [runCreateTrigger_noName hp hnil] at hrun
      cases hrun
    exact ⟨i, hi, hcopied.whole_iff.mpr (h p hp hname)⟩

end Run

/-- ` t insert on a begin delete from b; end`. -/
def plainAction : Text := [32, 116, 32, 105, 110, 115, 101, 114, 116, 32, 111, 110, 32, 97, 32, 98, 101, 103, 105, 110, 32, 100, 101, 108, 101, 116, 101, 32, 102, 114, 111, 109, 32, 98, 59, 32, 101, 110, 100]

/-- ` t insert on a begin insert into vendor; end`. -/
def vendorAction : Text := [32, 116, 32, 105, 110, 115, 101, 114, 116, 32, 111, 110, 32, 97, 32, 98, 101, 103, 105, 110, 32, 105, 110, 115, 101, 114, 116, 32, 105, 110, 116, 111, 32, 118, 101, 110, 100, 111, 114, 59, 32, 101, 110, 100]

/-- CREATE TRIGGER before what follows it. -/
def createTriggerText (p : Text) : Text := kwCreate ++ 32 :: (kwTrigger ++ p)

theorem behindTrigger_createTriggerText (p : Text) : behindTrigger (createTriggerText p) = some p := rfl

theorem trigger_whole_plain : (runCreateTrigger noViews (createTriggerText plainAction)).isSome = true ∧
    ∀ vt vt', runCreateTrigger vt (createTriggerText plainAction) = some vt' →
      StoresWhole vt vt' (createTriggerText plainAction) := by
  refine ⟨by decide +kernel, (trigger_whole_iff (by decide +kernel)).mpr fun p hp _ => ?_⟩
  obtain rfl : plainAction = p := Option.some.inj ((behindTrigger_createTriggerText _).symm.trans hp)
  exact ⟨by decide +kernel, by decide +kernel,
    ⟨plainAction.drop 21, 15, by decide +kernel, by decide +kernel⟩, by decide +kernel, by decide +kernel⟩

/-- Of an action that names the table `vendor` the parser keeps `insert into v`. -/
theorem vendor_cut :
    copiedAction vendorAction = (vendorAction.drop 21).take 13 ∧
    ¬ ∀ input vt vt', (∀ b ∈ input, b ≠ 0) → runCreateTrigger vt input = some vt' → StoresWhole vt vt' input := by
  have hcopied : copiedAction vendorAction = (vendorAction.drop 21).take 13 := by decide +kernel
  refine ⟨hcopied, fun h => ?_⟩
  have hbehind := behindTrigger_createTriggerText vendorAction
  have h0 : ∀ b ∈ createTriggerText vendorAction, b ≠ 0 := by decide +kernel
  obtain ⟨vt', hrun⟩ : ∃ vt', runCreateTrigger noViews (createTriggerText vendorAction) = some vt' :=
    runCreateTrigger_some hbehind (by decide) (by decide)
  obtain ⟨i, hi, hwhole⟩ := h _ noViews vt' h0 hrun _ hbehind
  obtain ⟨j, hj, hstored⟩ := runCreateTrigger_copied h0 hbehind hrun
  obtain rfl : i = j := Fin.ext (hi.trans hj.symm)
  obtain ⟨⟨body, n, hbegins, hends⟩, haction⟩ := hwhole.actionSql
  have hbody : behindBegin vendorAction = some (vendorAction.drop 21) := by decide +kernel
  obtain rfl : vendorAction.drop 21 = body := Option.some.inj (hbody.symm.trans hbegins)
  have hend : matchingEnd 0 .between (vendorAction.drop 21) = some 20 := by decide +kernel
  obtain rfl : 20 = n := Option.some.inj (hend.symm.trans hends)
  have hne : (vendorAction.drop 21).take 13 ≠ (vendorAction.drop 21).take 20 := by decide +kernel
  exact hne (hcopied.symm.trans (hstored.actionSql.symm.trans haction))

end CustomDB
