import CustomDB.Lib.FlatJson
import CustomDB.Server.Request

/-!
# `json_extract`

`eval_json_extract` on the text of a flat object. The key is looked for as a word in quotation marks anywhere in the
text, so that it is answered rightly exactly where the first such word is followed by the member's value.
-/

namespace CustomDB

open Lib.FlatJson

/-! ## The function -/

/-- `key_pattern`: the key in quotation marks, as far as the buffer holds them. -/
def keyPattern (key : Text) : Text := (34 :: (key ++ [34])).take 255

/-- The text behind the first occurrence of the pattern. -/
def behindPattern (pat p : Text) : Option Text := (strstr pat p).map (·.drop pat.length)

/-- `key_pos` and behind the pattern: the key, or the two parts of a dotted key one behind the other. -/
def findKey (json key : Text) : Option Text :=
  match behindPattern (keyPattern key) json with
  | some p => some p
  | none =>
    match strchr 46 key with
    | none => none
    | some dot =>
      let len := key.length - dot.length
      if len < 64 then (behindPattern (keyPattern (key.take len)) json).bind (behindPattern (keyPattern (dot.drop 1)))
      else none

/-- What is skipped before a value. -/
def skippedByExtract (b : UInt8) : Bool := b = 32 || b = 58 || b = 9

/-- What ends a value that is not in quotation marks. -/
def endsBareValue (b : UInt8) : Bool := b = 44 || b = 125 || b = 93 || b = 32

/-- The value at `p`, at most `room` bytes of it. -/
def readJsonValue (room : Nat) (p : Text) : Text :=
  let p := p.dropWhile skippedByExtract
  if peek p = 34 then ((p.drop 1).takeWhile fun b => b ≠ 34).take room
  else (p.takeWhile fun b => ¬ endsBareValue b).take room

/-- `eval_json_extract`; `outSize` is not 0. -/
def evalJsonExtract (json path : Text) (outSize : Nat) : Text :=
  let key := if starts (ascii ['$', '.']) path then path.drop 2 else path
  ((findKey json key).map (readJsonValue (outSize - 1))).getD []

/-! ## Where it is right -/

/-- The bytes up to one that ends them, or as many as there is room for. -/
def UpTo (stop : UInt8 → Bool) (room : Nat) (v p : Text) : Prop :=
  v <+: p ∧ (∀ b ∈ v, stop b = false) ∧ v.length ≤ room ∧
    (v.length = room ∨ ∀ b, (p.drop v.length).head? = some b → stop b = true)

/-- The value stands at `p`: behind blanks, tabs and colons it is there in quotation marks, or up to a comma, a closing
bracket or a blank. -/
def ValueAt (room : Nat) (v p : Text) : Prop :=
  ∃ skipped rest, p = skipped ++ rest ∧ (∀ b ∈ skipped, skippedByExtract b) ∧
    (∀ b, rest.head? = some b → skippedByExtract b = false) ∧
    ((∃ q, rest = 34 :: q ∧ UpTo (fun b => b = 34) room v q) ∨ (rest.head? ≠ some 34 ∧ UpTo endsBareValue room v rest))

theorem take_takeWhile_iff {stop : UInt8 → Bool} {room : Nat} {v p : Text} :
    (p.takeWhile fun b => ¬ stop b).take room = v ↔ UpTo stop room v p := by
  induction p generalizing room v with
  | nil =>
    rw [List.takeWhile_nil, List.take_nil]
    constructor
    · rintro rfl
      exact ⟨List.nil_prefix, fun _ h => absurd h List.not_mem_nil, Nat.zero_le _, Or.inr fun _ h => by cases h⟩
    · exact fun h => (List.prefix_nil.mp h.1).symm
  | cons c p ih =>
    cases room with
    | zero =>
      rw [List.take_zero]
      constructor
      · rintro rfl
        exact ⟨List.nil_prefix, fun _ h => absurd h List.not_mem_nil, le_refl _, Or.inl rfl⟩
      · exact fun h => (List.eq_nil_of_length_eq_zero (Nat.le_zero.mp h.2.2.1)).symm
    | succ room =>
      cases hc : stop c with
      | true =>
        rw [List.takeWhile_cons_of_neg (by simp [hc]), List.take_nil]
        constructor
        · rintro rfl
          refine ⟨List.nil_prefix, fun _ h => absurd h List.not_mem_nil, Nat.zero_le _, Or.inr fun b h => ?_⟩
          rw [← Option.some.inj h]
          exact hc
        · rintro ⟨hpre, hstop, -, -⟩
          cases v with
          | nil => rfl
          | cons d v =>
            obtain ⟨rfl, -⟩ := List.cons_prefix_cons.mp hpre
            exact absurd (hstop d List.mem_cons_self) (by simp [hc])
      | false =>
        rw [List.takeWhile_cons_of_pos (by simp [hc]), List.take_succ_cons]
        cases v with
        | nil =>
          refine ⟨fun h => (List.cons_ne_nil _ _ h).elim, ?_⟩
          rintro ⟨-, -, -, hlen | hend⟩
          · exact absurd hlen (Nat.succ_ne_zero room).symm
          · exact absurd (hend c rfl) (by simp [hc])
        | cons d v =>
          rw [List.cons.injEq, ih]
          constructor
          · rintro ⟨rfl, hpre, hstop, hlen, hend⟩
            refine ⟨List.cons_prefix_cons.mpr ⟨rfl, hpre⟩, fun b hb => ?_, Nat.succ_le_succ hlen, ?_⟩
            · rcases List.mem_cons.mp hb with rfl | hb
              · exact hc
              · exact hstop b hb
            · exact hend.imp (congrArg (· + 1)) id
          · rintro ⟨hbegins, hstop, hlen, hend⟩
            obtain ⟨rfl, hpre⟩ := List.cons_prefix_cons.mp hbegins
            exact ⟨rfl, hpre, fun b hb => hstop b (List.mem_cons_of_mem _ hb), Nat.le_of_succ_le_succ hlen,
              hend.imp Nat.succ.inj id⟩

/-- There is one way to skip. -/
theorem dropWhile_skipped {skipped rest : Text} (hs : ∀ b ∈ skipped, skippedByExtract b)
    (hr : ∀ b, rest.head? = some b → skippedByExtract b = false) : (skipped ++ rest).dropWhile skippedByExtract = rest := by
  rw [List.dropWhile_append_of_pos hs]
  cases rest with
  | nil => rfl
  | cons b rest => exact List.dropWhile_cons_of_neg (by simp [hr b rfl])

theorem readJsonValue_iff {room : Nat} {v p : Text} : readJsonValue room p = v ↔ ValueAt room v p := by
  have hread : ∀ skipped rest, (∀ b ∈ skipped, skippedByExtract b) →
      (∀ b, rest.head? = some b → skippedByExtract b = false) → (readJsonValue room (skipped ++ rest) = v ↔
        (∃ q, rest = 34 :: q ∧ UpTo (fun b => b = 34) room v q) ∨ (rest.head? ≠ some 34 ∧ UpTo endsBareValue room v rest)) := by
    intro skipped rest hs hr
    unfold readJsonValue
    rw [dropWhile_skipped hs hr]
    dsimp only
    rcases rest with - | ⟨b, q⟩
    · rw [if_neg (by decide), take_takeWhile_iff]
      simp
    · by_cases hb : b = 34
      · subst hb
        have hquote : (q.takeWhile fun b => b ≠ 34) = q.takeWhile fun b => ¬ (decide (b = 34)) = true := by simp
        rw [show peek (34 :: q) = 34 from rfl, if_pos rfl, List.drop_one, List.tail_cons, hquote, take_takeWhile_iff]
        simp
      · rw [show peek (b :: q) = b from rfl, if_neg hb, take_takeWhile_iff]
        simp [hb]
  constructor
  · intro h
    obtain ⟨skipped, rest, hp, hs, hr⟩ : ∃ skipped rest, p = skipped ++ rest ∧ (∀ b ∈ skipped, skippedByExtract b) ∧
        ∀ b, rest.head? = some b → skippedByExtract b = false := by
      refine ⟨_, _, List.takeWhile_append_dropWhile.symm, fun b hb => List.mem_takeWhile_imp hb, fun b hb => ?_⟩
      have := List.head?_dropWhile_not skippedByExtract p
      rw [hb] at this
      exact this
    subst hp
    exact ⟨skipped, rest, rfl, hs, hr, (hread skipped rest hs hr).mp h⟩
  · rintro ⟨skipped, rest, rfl, hs, hr, h⟩
    exact (hread skipped rest hs hr).mpr h

/-- What stands in the text is found. -/
theorem isSome_strstr (pat a b : Text) : (strstr pat (a ++ (pat ++ b))).isSome := by
  induction a with
  | nil =>
    have hstarts : starts pat (pat ++ b) = true := by
      rw [starts, List.take_left]
      exact decide_eq_true rfl
    cases h : pat ++ b with
    | nil =>
      obtain ⟨rfl, -⟩ := List.append_eq_nil_iff.mp h
      rfl
    | cons c p =>
      rw [h] at hstarts
      rw [List.nil_append, strstr, if_pos hstarts]
      rfl
  | cons c a ih =>
    rw [List.cons_append, strstr]
    split
    · rfl
    · exact ih

/-- A member's name stands in the text, in quotation marks. -/
theorem written_of_mem {m : Member} {tail : Text} {ms : List Member} (h : m ∈ ms) :
    ∃ a b, membersText tail ms = a ++ (34 :: (m.name ++ [34]) ++ b) := by
  induction ms with
  | nil => cases h
  | cons m' ms ih =>
    rcases List.mem_cons.mp h with rfl | h
    · cases ms with
      | nil => exact ⟨m.before, m.gap ++ m.value.written ++ m.behind ++ tail, by simp [membersText, Member.written]⟩
      | cons m'' ms =>
        exact ⟨m.before, m.gap ++ m.value.written ++ m.behind ++ 44 :: membersText tail (m'' :: ms), by
          simp [membersText, Member.written]⟩
    · obtain ⟨a, b, hab⟩ := ih h
      cases ms with
      | nil => cases h
      | cons m'' ms => exact ⟨m'.written ++ 44 :: a, b, by simp [membersText, hab]⟩

/-- A key that is not found is no member's name. -/
theorem lookup_of_not_found {o : FlatObject} {key : Text} (h : strstr (keyPattern key) o.written = none) :
    o.lookup key = [] := by
  have hnone : o.members.find? (fun m => m.name = key) = none := by
    rw [List.find?_eq_none]
    intro m hm hname
    obtain rfl : m.name = key := of_decide_eq_true hname
    obtain ⟨a, b, hab⟩ := @written_of_mem m (125 :: o.behind) _ hm
    obtain ⟨rest, hrest⟩ : ∃ rest, 34 :: (m.name ++ [34]) = keyPattern m.name ++ rest :=
      ⟨_, (List.take_append_drop 255 _).symm⟩
    rw [FlatObject.written, hab, hrest] at h
    have hsome := isSome_strstr (keyPattern m.name) (o.before ++ 123 :: ((if o.members = [] then o.inner else []) ++ a))
      (rest ++ b)
    simp only [List.append_assoc, List.cons_append] at h hsome
    rw [h] at hsome
    cases hsome
  rw [FlatObject.lookup, hnone]
  rfl

/-- A member with a text value, written without blanks. -/
def textMember (name s : Text) (hn : ∀ b ∈ name, Lib.JsonText.isPlain b) (hs : ∀ b ∈ s, Lib.JsonText.isPlain b) : Member :=
  ⟨name, hn, .text s hs, [], ([], []), [], by simp⟩

/-- A value that is the same as another member's name. -/
def nameInValue : FlatObject :=
  ⟨[textMember [97] [98] (by simp; decide) (by simp; decide), textMember [98] [99] (by simp; decide) (by simp; decide)],
    [], [], [], by simp⟩

end CustomDB
