import CustomDB.Select.Join

/-!
# Hash joins against nested loops

A hash join gives the partners with one hash. That is the join of all partners exactly if no two of them have different
hashes; and a chain of joins keeps to it as long as its rows fit the arrays.
-/

namespace CustomDB

open Lib.Join

/-! ## The loops over the buckets -/

/-- The bucket a row of the right table goes to. -/
def bucketOf (rc : Nat) (r : List Value) : Nat := computeHashJoinKey (r.getD rc Value.init)

theorem computeHashJoinKey_lt (v : Value) : computeHashJoinKey v < hashJoinBuckets := by
  unfold computeHashJoinKey
  split
  · decide
  · exact Nat.mod_lt _ (by decide)

theorem buildBuckets_eq (rc : Nat) (rows : List (List Value)) (b : Nat) :
    buildBuckets rc rows b = (bucket (bucketOf rc) rows b).map fun r => ⟨r, false⟩ := by
  induction rows using List.reverseRecOn with
  | nil => rfl
  | append_singleton rows r ih =>
    have hstep : buildBuckets rc (rows ++ [r]) =
        Function.update (buildBuckets rc rows) (bucketOf rc r) (⟨r, false⟩ :: buildBuckets rc rows (bucketOf rc r)) := by
      unfold buildBuckets
      rw [List.foldl_append]
      rfl
    have hbucket : bucket (bucketOf rc) (rows ++ [r]) b =
        (if bucketOf rc r = b then [r] else []) ++ bucket (bucketOf rc) rows b := by
      unfold bucket
      rw [List.filter_append, List.reverse_append]
      by_cases hb : bucketOf rc r = b <;> simp [hb]
    rw [hstep, hbucket]
    by_cases hb : b = bucketOf rc r
    · subst hb
      rw [Function.update_self, if_pos rfl, ih]
      rfl
    · rw [Function.update_of_ne hb, if_neg (Ne.symm hb), ih]
      rfl

section Probe

variable {ops : WhereOps} {type : JoinType} {jc : JoinColumns}

/-- A row of the stream is looked up in a bucket. -/
def looksInto (jc : JoinColumns) (l : List Value) (b : Nat) : Bool :=
  !(l.getD jc.left Value.init).isNull && decide (computeHashJoinKey (l.getD jc.left Value.init) = b)

/-- What a row of the stream adds to the joined rows. -/
def probed (ops : WhereOps) (type : JoinType) (jc : JoinColumns) (buckets : Nat → List (List Value)) (l : List Value) :
    List (List Value) :=
  let found := if (l.getD jc.left Value.init).isNull then []
    else (buckets (computeHashJoinKey (l.getD jc.left Value.init))).filter (keyFound ops jc l)
  found.map (l ++ ·) ++ if type.keepsLeft && found.isEmpty then [l ++ nullRow jc.rightWidth] else []

/-- One turn: the nodes of the bucket are marked that have the key. -/
theorem probeRow_eq (buckets : Nat → List (List Value)) (m : Nat → List Value → Bool) (out : List (List Value))
    (l : List Value) :
    probeRow ops type jc (fun b => (buckets b).map fun r => ⟨r, m b r⟩, out) l =
      (fun b => (buckets b).map fun r => ⟨r, m b r || (looksInto jc l b && keyFound ops jc l r)⟩,
        out ++ probed ops type jc buckets l) := by
  unfold probeRow probed
  dsimp only
  cases hnull : (l.getD jc.left Value.init).isNull with
  | true =>
    simp only [if_true, looksInto, hnull, Bool.not_true, Bool.false_and, Bool.or_false, List.map_nil, List.nil_append,
      List.isEmpty_nil, Bool.and_true]
  | false =>
    simp only [Bool.false_eq_true, if_false, looksInto, hnull, Bool.not_false, Bool.true_and]
    generalize computeHashJoinKey (l.getD jc.left Value.init) = k
    refine Prod.ext ?_ ?_
    · funext b
      dsimp only
      by_cases hb : b = k
      · subst hb
        rw [Function.update_self, List.map_map]
        refine List.map_congr_left fun r _ => ?_
        dsimp only [Function.comp]
        cases keyFound ops jc l r <;> simp
      · rw [Function.update_of_ne hb]
        simp [Ne.symm hb]
    · dsimp only
      rw [List.filter_map, List.map_map]
      have hcomp : (fun n : HashJoinNode => keyFound ops jc l n.vals) ∘ (fun r => ⟨r, m k r⟩) = keyFound ops jc l := rfl
      rw [hcomp, List.isEmpty_map]
      rfl

/-- All turns: the nodes are marked that some row has found. -/
theorem probe_foldl (buckets : Nat → List (List Value)) (m : Nat → List Value → Bool) (out stream : List (List Value)) :
    stream.foldl (probeRow ops type jc) (fun b => (buckets b).map fun r => ⟨r, m b r⟩, out) =
      (fun b => (buckets b).map fun r => ⟨r, m b r || stream.any fun l => looksInto jc l b && keyFound ops jc l r⟩,
        out ++ stream.flatMap (probed ops type jc buckets)) := by
  induction stream generalizing m out with
  | nil => simp
  | cons l stream ih =>
    rw [List.foldl_cons, probeRow_eq, ih]
    simp only [List.any_cons, Bool.or_assoc, List.flatMap_cons, List.append_assoc]

end Probe

/-! ## One join -/

section One

variable {ops : WhereOps} {type : JoinType} {jc : JoinColumns} {stream rows : List (List Value)}

/-- Partners with one hash. -/
def hashPartners (ops : WhereOps) (jc : JoinColumns) (l r : List Value) : Bool :=
  partners ops jc l r && decide (bucketOf jc.right r = computeHashJoinKey (l.getD jc.left Value.init))

theorem hashPartners_eq (l r : List Value) :
    hashPartners ops jc l r = (looksInto jc l (bucketOf jc.right r) && keyFound ops jc l r) := by
  unfold hashPartners partners looksInto
  rw [Bool.and_right_comm]
  congr 2
  exact decide_eq_decide.mpr eq_comm

theorem probed_perm (l : List Value) : (probed ops type jc (bucket (bucketOf jc.right) rows) l).Perm
    (partnered (joinKind type jc) (hashPartners ops jc) rows l) := by
  unfold probed partnered
  cases hnull : (l.getD jc.left Value.init).isNull with
  | true =>
    have hnone : rows.filter (hashPartners ops jc l) = [] := by
      rw [List.filter_eq_nil_iff]
      intro r _
      rw [hashPartners, partners, hnull]
      exact Bool.false_ne_true
    rw [hnone]
    exact .refl _
  | false =>
    have hfilter : (fun r => keyFound ops jc l r && decide (bucketOf jc.right r = computeHashJoinKey (l.getD jc.left Value.init))) =
        hashPartners ops jc l := by
      funext r
      rw [hashPartners, partners, hnull]
      rfl
    have hfound := bucket_filter (R := rows) (bucketOf jc.right) (computeHashJoinKey (l.getD jc.left Value.init))
      (keyFound ops jc l)
    rw [hfilter] at hfound
    simp only [Bool.false_eq_true, if_false]
    rw [isEmpty_perm hfound]
    exact (hfound.map _).append_right _

/-- A hash join is the join of the partners with one hash, in some order. -/
theorem hashJoinRows_perm : (hashJoinRows ops type jc stream rows).Perm
    (join (joinKind type jc) (hashPartners ops jc) stream rows) := by
  have hbuild : buildBuckets jc.right rows = fun b => (bucket (bucketOf jc.right) rows b).map fun r => ⟨r, false⟩ :=
    funext (buildBuckets_eq jc.right rows)
  unfold hashJoinRows join
  rw [hbuild, probe_foldl (bucket (bucketOf jc.right) rows) (fun _ _ => false)]
  dsimp only
  rw [List.nil_append]
  refine (List.Perm.flatMap_left _ fun l _ => probed_perm l).append ?_
  have hkeep : (joinKind type jc).keepRight = type.keepsRight := rfl
  unfold leftover
  rw [hkeep]
  by_cases hright : type.keepsRight = true
  swap
  · rw [if_neg hright, if_neg hright]
  · rw [if_pos hright, if_pos hright]
    have hbucket : ∀ b, ((((bucket (bucketOf jc.right) rows b).map fun r =>
        (⟨r, false || stream.any fun l => looksInto jc l b && keyFound ops jc l r⟩ : HashJoinNode)).filter
          fun n => !n.matched).map fun n => nullRow jc.leftWidth ++ n.vals) =
        ((bucket (bucketOf jc.right) rows b).filter fun r => !stream.any fun l => hashPartners ops jc l r).map
          (nullRow jc.leftWidth ++ ·) := by
      intro b
      rw [List.filter_map, List.map_map]
      refine congrArg _ (List.filter_congr fun r hr => ?_)
      have hb : bucketOf jc.right r = b := by
        unfold bucket at hr
        exact of_decide_eq_true (List.mem_filter.mp (List.mem_reverse.mp hr)).2
      simp only [Function.comp, Bool.false_or, hashPartners_eq, hb]
    simp only [hbucket]
    rw [← List.map_flatMap]
    exact (buckets_filter (bucketOf jc.right) hashJoinBuckets (fun r _ => computeHashJoinKey_lt _) _).map _

/-- Both sides of a joined row have a value. -/
def bothThere (n : Nat) (row : List Value) : Bool :=
  ((row.take n).any fun v => !v.isNull) && (row.drop n).any fun v => !v.isNull

theorem any_of_key {row : List Value} {c : Nat} (hc : c < row.length) (h : (row.getD c Value.init).isNull = false) :
    (row.any fun v => !v.isNull) = true := by
  rw [List.getD_eq_getElem _ _ hc] at h
  exact List.any_eq_true.mpr ⟨row[c], List.getElem_mem hc, by rw [h]; rfl⟩

theorem nullRow_none (n : Nat) : ((nullRow n).any fun v => !v.isNull) = false := by
  rw [List.any_eq_false]
  intro v hv
  rw [List.eq_of_mem_replicate hv]
  decide

/-- The rows of the two sides have the widths, and the keys are in them. -/
structure Shaped (jc : JoinColumns) (stream rows : List (List Value)) : Prop where
  left : ∀ l ∈ stream, l.length = jc.leftWidth
  right : ∀ r ∈ rows, r.length = jc.rightWidth
  leftKey : jc.left < jc.leftWidth
  rightKey : jc.right < jc.rightWidth

theorem Shaped.telling (h : Shaped jc stream rows) {p : List Value → List Value → Bool}
    (hp : ∀ l r, p l r = true → partners ops jc l r = true) :
    (joinKind type jc).Telling p stream rows (bothThere jc.leftWidth) := by
  constructor
  · intro l hl r hr hpass
    have hlen := h.left l hl
    have hkeys := hp l r hpass
    simp only [partners, keyFound, Bool.and_eq_true, Bool.not_eq_true'] at hkeys
    have hleft := any_of_key (by rw [hlen]; exact h.leftKey) hkeys.1
    have hright := any_of_key (by rw [h.right r hr]; exact h.rightKey) hkeys.2.1
    show ((((l ++ r).take jc.leftWidth).any fun v => !v.isNull) && ((l ++ r).drop jc.leftWidth).any fun v => !v.isNull) = true
    rw [← hlen, List.take_left, List.drop_left, hleft, hright]
    rfl
  · intro l hl
    show (_ && ((l ++ nullRow jc.rightWidth).drop jc.leftWidth).any fun v => !v.isNull) = false
    rw [← h.left l hl, List.drop_left, nullRow_none, Bool.and_false]
  · intro r _
    have hnull : (nullRow jc.leftWidth).length = jc.leftWidth := List.length_replicate
    show ((((nullRow jc.leftWidth ++ r).take jc.leftWidth).any fun v => !v.isNull) && _) = false
    rw [List.take_left' hnull, nullRow_none, Bool.false_and]
  · intro l hl r _ l' hl' r' _ he
    exact List.append_inj he ((h.left l hl).trans (h.left l' hl').symm)

/-- A hash join gives the join of all partners exactly if partners have one hash. -/
theorem hashJoinRows_iff (h : Shaped jc stream rows) {stream' : List (List Value)} (hperm : stream'.Perm stream) :
    (hashJoinRows ops type jc stream' rows).Perm (join (joinKind type jc) (partners ops jc) stream rows) ↔
      ∀ l ∈ stream, ∀ r ∈ rows, partners ops jc l r = true →
        computeHashJoinKey (l.getD jc.left Value.init) = computeHashJoinKey (r.getD jc.right Value.init) := by
  have hhash : (hashJoinRows ops type jc stream' rows).Perm (join (joinKind type jc) (hashPartners ops jc) stream rows) :=
    hashJoinRows_perm.trans (join_perm _ hperm (.refl _))
  have hpass : ∀ l r, hashPartners ops jc l r = true → partners ops jc l r = true := fun l r hp =>
    (Bool.and_eq_true _ _ ▸ hp : _ ∧ _).1
  have hfew : (joinKind type jc).Telling (hashPartners ops jc) stream rows (bothThere jc.leftWidth) := h.telling hpass
  have hmany : (joinKind type jc).Telling (partners ops jc) stream rows (bothThere jc.leftWidth) :=
    h.telling fun _ _ hp => hp
  have hall := join_perm_iff hfew hmany
  have hsame : (hashJoinRows ops type jc stream' rows).Perm (join (joinKind type jc) (partners ops jc) stream rows) ↔
      (join (joinKind type jc) (hashPartners ops jc) stream rows).Perm
        (join (joinKind type jc) (partners ops jc) stream rows) :=
    ⟨hhash.symm.trans, hhash.trans⟩
  rw [hsame, hall]
  refine forall₂_congr fun l _ => forall₂_congr fun r _ => ?_
  rw [hashPartners, bucketOf]
  cases partners ops jc l r with
  | false => simp
  | true => simp [eq_comm]

end One

/-! ## The chain -/

section Chain

variable {ops : WhereOps} {db : RowDb} {snapshot now : Nat} {j : JoinItem} {t : RowTable} {jc : JoinColumns}

theorem joinColumn_lt {cols : List Column} {name : Text} {c : Nat} (h : joinColumn cols name = some c) : c < cols.length := by
  have hfind : ∀ {n k}, findColumnCI cols n = some k → k < cols.length := fun hk =>
    (List.findIdx?_eq_some_iff_getElem.mp hk).1
  rcases Option.or_eq_some_iff.mp h with h | ⟨-, h⟩
  · exact hfind h
  · obtain ⟨n, -, h⟩ := Option.bind_eq_some_iff.mp h
    exact hfind h

theorem resolveJoin_ok {s : JoinedStream} (h : resolveJoin db s j = .ok (t, jc)) :
    jc.leftWidth = s.cols.length ∧ jc.rightWidth = t.tableDef.columns.length ∧ jc.left < jc.leftWidth ∧
      jc.right < jc.rightWidth := by
  unfold resolveJoin at h
  split at h
  · cases h
  · split at h
    next lc rc hlc hrc =>
      obtain ⟨rfl, rfl⟩ := Prod.mk.inj (Except.ok.inj h)
      exact ⟨rfl, rfl, joinColumn_lt hlc, joinColumn_lt hrc⟩
    next => cases h

theorem length_visibleRows (t : RowTable) : ∀ r ∈ visibleRows t snapshot now, r.length = t.tableDef.columns.length := by
  intro r hr
  obtain ⟨v, -, rfl⟩ := List.mem_map.mp hr
  rw [copyRow, List.length_map, List.length_range]

/-- The rows of a join have the width of both sides. -/
theorem length_join {type : JoinType} {p : List Value → List Value → Bool} {stream rows : List (List Value)}
    (h : Shaped jc stream rows) : ∀ row ∈ join (joinKind type jc) p stream rows, row.length = jc.leftWidth + jc.rightWidth := by
  intro row hrow
  rcases List.mem_append.mp hrow with hrow | hrow
  · obtain ⟨l, hl, hrow⟩ := List.mem_flatMap.mp hrow
    rcases List.mem_append.mp hrow with hrow | hrow
    · obtain ⟨r, hr, rfl⟩ := List.mem_map.mp hrow
      show (l ++ r).length = _
      rw [List.length_append, h.left l hl, h.right r (List.mem_filter.mp hr).1]
    · split at hrow
      · rw [List.mem_singleton.mp hrow]
        show (l ++ nullRow jc.rightWidth).length = _
        rw [List.length_append, h.left l hl, nullRow, List.length_replicate]
      · cases hrow
  · unfold leftover at hrow
    split at hrow
    · obtain ⟨r, hr, rfl⟩ := List.mem_map.mp hrow
      show (nullRow jc.leftWidth ++ r).length = _
      rw [List.length_append, h.right r (List.mem_filter.mp hr).1, nullRow, List.length_replicate]
    · cases hrow

/-- The two joins find the same table and the same columns. -/
theorem resolveJoin_congr {h s : JoinedStream} (hcols : h.cols = s.cols) : resolveJoin db h j = resolveJoin db s j := by
  unfold resolveJoin
  rw [hcols]

/-- The chain from any two streams on that are the same up to the order of their rows: induction on the joins. -/
theorem sameJoins_iff {h s : JoinedStream} (joins : List JoinItem) (hcols : h.cols = s.cols) (hrows : h.rows.Perm s.rows)
    (hwidth : ∀ l ∈ s.rows, l.length = s.cols.length) :
    SameJoins ops db snapshot now h s joins ↔ JoinsFit ops db snapshot now s joins := by
  induction joins generalizing h s with
  | nil => exact Iff.rfl
  | cons j joins ih =>
    unfold SameJoins JoinsFit hashJoin nestedJoin
    rw [resolveJoin_congr hcols]
    cases hres : resolveJoin db s j with
    | error e => simp
    | ok tj =>
      obtain ⟨t, jc⟩ := tj
      obtain ⟨hleft, hright, hlk, hrk⟩ := resolveJoin_ok hres
      have hshape : Shaped jc s.rows (visibleRows t snapshot now) :=
        ⟨fun l hl => (hwidth l hl).trans hleft.symm, fun r hr => (length_visibleRows t r hr).trans hright.symm, hlk, hrk⟩
      have hone := @hashJoinRows_iff ops j.type jc s.rows (visibleRows t snapshot now) hshape h.rows hrows
      have hlong : (s.cols ++ t.tableDef.columns).length = jc.leftWidth + jc.rightWidth := by
        rw [List.length_append, hleft, hright]
      dsimp only
      by_cases hfits : jc.leftWidth + jc.rightWidth ≤ maxColumns
      · rw [if_neg fun hover => Nat.not_lt_of_le hfits hover.1, and_iff_right hfits]
        dsimp only
        have htake : (h.cols ++ t.tableDef.columns).take maxColumns = s.cols ++ t.tableDef.columns := by
          rw [hcols, List.take_of_length_le (by rw [hlong]; exact hfits)]
        rw [and_iff_right htake, hone]
        refine and_congr_right fun hhash => ?_
        exact ih htake (hone.mpr hhash) fun row hrow => (length_join hshape row hrow).trans hlong.symm
      · refine iff_of_false (fun hsame => ?_) fun hcond => hfits hcond.1
        split at hsame
        next h' s' hh hs =>
          split at hh
          · cases hh
          · obtain rfl := Except.ok.inj hh
            obtain rfl := Except.ok.inj hs
            have hlen := congrArg List.length hsame.1
            dsimp only at hlen
            rw [List.length_take, hlong] at hlen
            omega
        next hs => cases hs
        next => exact hsame

/-- Two results are the same up to the order of the rows. -/
def SameStream : Except JoinError JoinedStream → Except JoinError JoinedStream → Prop
  | .ok h, .ok s => h.cols = s.cols ∧ h.rows.Perm s.rows
  | .error e, .error e' => e = e'
  | _, _ => False

/-- What the joins leave in the end is the same. -/
theorem SameJoins.result {h s : JoinedStream} {joins : List JoinItem} (hsame : SameJoins ops db snapshot now h s joins)
    (hcols : h.cols = s.cols) (hrows : h.rows.Perm s.rows) :
    SameStream (joins.foldlM (hashJoin ops db snapshot now) h) (joins.foldlM (nestedJoin ops db snapshot now) s) := by
  induction joins generalizing h s with
  | nil => exact ⟨hcols, hrows⟩
  | cons j joins ih =>
    rw [List.foldlM_cons, List.foldlM_cons]
    unfold SameJoins at hsame
    split at hsame
    next h' s' hh hs =>
      rw [hh, hs]
      exact ih hsame.2.2 hsame.1 hsame.2.1
    next e e' hh hs =>
      rw [hh, hs]
      exact hsame
    next => exact hsame.elim

/-- The joins of a chain are those of nested loops, one after the other and in the end, exactly if all rows fit the
arrays and keys that compare equal have one hash. -/
theorem hash_joins_iff (t : RowTable) (joins : List JoinItem) :
    (SameJoins ops db snapshot now (baseStream snapshot now t) (baseStream snapshot now t) joins ↔
      JoinsFit ops db snapshot now (baseStream snapshot now t) joins) ∧
    (JoinsFit ops db snapshot now (baseStream snapshot now t) joins →
      SameStream (runJoins ops db snapshot now t joins)
        (joins.foldlM (nestedJoin ops db snapshot now) (baseStream snapshot now t))) := by
  have hiff := @sameJoins_iff ops db snapshot now (baseStream snapshot now t) (baseStream snapshot now t) joins rfl
    (.refl _) (length_visibleRows t)
  exact ⟨hiff, fun hfit => (hiff.mpr hfit).result rfl (.refl _)⟩

end Chain

/-! ## Eighteen columns -/

theorem letter_fits (b : UInt8) : ([b] : List UInt8).length < 32 := Nat.lt_of_sub_eq_succ rfl

/-- A table `t` of nine INT columns, with one row. -/
def nineDef : TableDef :=
  { compositeKey with
    columns := [97, 98, 99, 100, 101, 102, 103, 104, 105].map fun b => intColumn [b] (letter_fits b)
    columns_le := by decide
    pkCols := [] }
def nineTable : RowTable := ⟨nineDef, [⟨List.replicate 9 one, 0, 1, 0⟩]⟩
def nineDb : RowDb := ⟨[nineTable], none, false, 1, false⟩

/-- JOIN t ON a = a. -/
def joinNine : JoinItem := ⟨.inner, [116], [97], [97]⟩

def overruns : Except JoinError JoinedStream → Bool
  | .error .overrun => true
  | _ => false

/-- The join of `t` with itself writes eighteen values into an array of sixteen. -/
theorem wide_join_overruns : overruns (runJoins intOps nineDb 1 0 nineTable [joinNine]) = true ∧
    ¬ ∀ (ops : WhereOps) (db : RowDb) (snapshot now : Nat) (t : RowTable) (joins : List JoinItem),
      SameJoins ops db snapshot now (baseStream snapshot now t) (baseStream snapshot now t) joins := by
  refine ⟨by decide +kernel, fun h => ?_⟩
  have hsame := h intOps nineDb 1 0 nineTable [joinNine]
  have hover : overruns (hashJoin intOps nineDb 1 0 (baseStream 1 0 nineTable) joinNine) = true := by decide +kernel
  have hnested : (nestedJoin intOps nineDb 1 0 (baseStream 1 0 nineTable) joinNine).toOption.isSome = true := by
    decide +kernel
  unfold SameJoins at hsame
  split at hsame
  next hh hs =>
    rw [hh] at hover
    cases hover
  next hh hs =>
    rw [hs] at hnested
    cases hnested
  next => exact hsame

/-- The column `a DOUBLE`, and 1.5. -/
def doubleColumnA : Column := { columnA with type := .double }
def oneAndAHalf : Value := { Value.init with doubleVal := 0x3FF8000000000000 }

-- as INT, 1.5 is 0 for `compare_values`, but not for the hash
example : partners intOps ⟨.int, 0, 0, 1, 1⟩ [Value.init] [oneAndAHalf] = true ∧
    hashJoinRows intOps .inner ⟨.int, 0, 0, 1, 1⟩ [[Value.init]] [[oneAndAHalf]] = [] := by
  decide +kernel

end CustomDB
