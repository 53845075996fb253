import CustomDB.Lib.Refcount
import CustomDB.Lib.Run

/-!
# The mutexes of the database files

Every call of the API on an open database runs under a mutex that the databases of one filename share. `dbms_open` gets
it from the list behind `g_path_mutex_head` and `dbms_close` gives it back, both under the global mutex. A node keeps at
most 255 characters of its filename, but `dbms_open` looks for the whole name and `dbms_close` releases by the first 255.
-/

namespace CustomDB

open Lib Refcount

/-- An open database: its address, `file_mutex`, and the filename it was opened with. -/
structure OpenDbms where
  addr : Nat
  fileMutex : Nat
  filename : List Char
  deriving DecidableEq, Repr

/-- `g_path_mutex_head` and the open databases. A node's value is its `filename`. -/
structure PathMutexes where
  nodes : List (Node (List Char))
  dbs : List OpenDbms
  deriving DecidableEq, Repr

/-- A call of `dbms_open`, with the addresses that `malloc` gives the database and, if one is made, the node; or a call
of `dbms_close`. -/
inductive DbmsCall where
  | dbmsOpen (db fresh : Nat) (filename : List Char)
  | dbmsClose (db : Nat)
  deriving DecidableEq, Repr

/-- `char filename[256]`, filled by `strncpy`. -/
def filenameField (name : List Char) : List Char := name.take 255

namespace PathMutexes

/-- No database is open. -/
def empty : PathMutexes := ⟨[], []⟩

variable (S : PathMutexes)

/-- The open database at an address. -/
def db? (a : Nat) : Option OpenDbms := S.dbs.find? fun d => d.addr = a

/-- `get_file_path_mutex`. -/
def getFilePathMutex (fresh : Nat) (filename : List Char) : List (Node (List Char)) × Nat :=
  acquire (fun stored => stored = filename) fresh (filenameField filename) S.nodes

/-- `release_file_path_mutex`. -/
def releaseFilePathMutex (filename : List Char) : List (Node (List Char)) :=
  release (fun n => n.val = filename) S.nodes

/-- One call. -/
def step : DbmsCall → PathMutexes
  | .dbmsOpen a fresh name =>
    { nodes := (S.getFilePathMutex fresh name).1, dbs := ⟨a, (S.getFilePathMutex fresh name).2, name⟩ :: S.dbs }
  | .dbmsClose a =>
    match S.db? a with
    | some d => { nodes := S.releaseFilePathMutex (filenameField d.filename), dbs := S.dbs.erase d }
    | none => S

/-- `malloc` gives fresh addresses, and the filename fits its field. -/
def Allowed : DbmsCall → Prop
  | .dbmsOpen a fresh name => S.db? a = none ∧ fresh ∉ S.nodes.map Node.addr ∧ name.length ≤ 255
  | .dbmsClose _ => True

instance (c : DbmsCall) : Decidable (S.Allowed c) := by
  cases c <;> unfold Allowed <;> infer_instance

/-- The counts are those of the open databases, one node for each filename, and a database has the node of its name. -/
structure Right (S : PathMutexes) : Prop where
  sound : Sound (S.dbs.map OpenDbms.fileMutex) S.nodes
  one : ∀ m ∈ S.nodes, ∀ n ∈ S.nodes, m.val = n.val → m.addr = n.addr
  short : ∀ d ∈ S.dbs, d.filename.length ≤ 255
  held : ∀ d ∈ S.dbs, ∀ n ∈ S.nodes, n.addr = d.fileMutex → n.val = d.filename

variable {S}

theorem right_empty : Right empty :=
  ⟨sound_nil, fun _ h => absurd h List.not_mem_nil, fun _ h => absurd h List.not_mem_nil,
    fun _ h => absurd h List.not_mem_nil⟩

theorem Right.node (h : Right S) {d : OpenDbms} (hd : d ∈ S.dbs) : ∃ n ∈ S.nodes, n.addr = d.fileMutex :=
  List.mem_map.mp (h.sound.alloc _ (List.mem_map_of_mem hd))

/-- `dbms_open` with a name that fits. -/
theorem Right.dbmsOpen (h : Right S) {a fresh : Nat} {name : List Char} (hf : fresh ∉ S.nodes.map Node.addr)
    (hname : name.length ≤ 255) : Right (S.step (.dbmsOpen a fresh name)) := by
  have hfield : filenameField name = name := List.take_of_length_le hname
  have hacq : Sound ((S.getFilePathMutex fresh name).2 :: S.dbs.map OpenDbms.fileMutex)
      (S.getFilePathMutex fresh name).1 := h.sound.acquire hf _ _
  have hmem : ∀ m ∈ (S.getFilePathMutex fresh name).1, (∃ n ∈ S.nodes, n.addr = m.addr ∧ n.val = m.val) ∨
      (m = ⟨fresh, filenameField name, 1⟩ ∧ ∀ n ∈ S.nodes, decide (n.val = name) = false) := fun m hm => mem_acquire hm
  refine ⟨hacq, ?_, List.forall_mem_cons.mpr ⟨hname, h.short⟩, ?_⟩
  · intro m hm m' hm' he
    rcases hmem m hm with ⟨n, hn, hna, hv⟩ | ⟨rfl, hno⟩ <;> rcases hmem m' hm' with ⟨n', hn', hna', hv'⟩ | ⟨rfl, hno'⟩
    · rw [← hna, ← hna']
      exact h.one n hn n' hn' (by rw [hv, hv', he])
    · exact absurd (hv.trans (he.trans hfield)) (of_decide_eq_false (hno' n hn))
    · exact absurd (hv'.trans (he.symm.trans hfield)) (of_decide_eq_false (hno n' hn'))
    · rfl
  · refine List.forall_mem_cons.mpr ⟨fun m hm hma => ?_, fun d hd m hm hma => ?_⟩
    · obtain ⟨k, hk, hka, hkf⟩ := acquire_fits (fun stored => decide (stored = name)) fresh (v := filenameField name)
        (decide_eq_true hfield) S.nodes
      rw [eq_of_addr hacq.nodup hm hk (hma.trans hka.symm)]
      exact of_decide_eq_true hkf
    · rcases hmem m hm with ⟨n, hn, hna, hv⟩ | ⟨rfl, -⟩
      · exact hv ▸ h.held d hd n hn (hna.trans hma)
      · exact absurd (h.sound.alloc _ (List.mem_map_of_mem hd)) (hma ▸ hf)

/-- `dbms_close`: the node it releases is the database's. -/
theorem Right.dbmsClose (h : Right S) {d : OpenDbms} (hd : d ∈ S.dbs) :
    Right ⟨S.releaseFilePathMutex (filenameField d.filename), S.dbs.erase d⟩ := by
  have hfield : filenameField d.filename = d.filename := List.take_of_length_le (h.short d hd)
  obtain ⟨k, hk, hkd⟩ := h.node hd
  have hsound : Sound (d.fileMutex :: (S.dbs.erase d).map OpenDbms.fileMutex) S.nodes :=
    h.sound.perm ((List.perm_cons_erase hd).map OpenDbms.fileMutex)
  have hfits : ∀ n ∈ S.nodes, decide (n.val = filenameField d.filename) = true ↔ n.addr = d.fileMutex := by
    intro n hn
    rw [decide_eq_true_iff, hfield]
    exact ⟨fun hv => (h.one n hn k hk (hv.trans (h.held d hd k hk hkd).symm)).trans hkd, h.held d hd n hn⟩
  refine ⟨hsound.release hfits, ?_, fun e he => h.short e (List.mem_of_mem_erase he), ?_⟩
  · intro m hm m' hm' he
    obtain ⟨n, hn, ha, hv⟩ := mem_release hm
    obtain ⟨n', hn', ha', hv'⟩ := mem_release hm'
    rw [← ha, ← ha']
    exact h.one n hn n' hn' (by rw [hv, hv', he])
  · intro e he m hm hma
    obtain ⟨n, hn, ha, hv⟩ := mem_release hm
    exact hv ▸ h.held e (List.mem_of_mem_erase he) n hn (ha.trans hma)

theorem Right.step (h : Right S) {c : DbmsCall} (hc : S.Allowed c) : Right (S.step c) := by
  cases c with
  | dbmsOpen a fresh name => exact h.dbmsOpen hc.2.1 hc.2.2
  | dbmsClose a =>
    rw [PathMutexes.step]
    cases hd : S.db? a with
    | none => exact h
    | some d => exact h.dbmsClose (List.mem_of_find?_eq_some hd)

theorem right_run {cs : List DbmsCall} (h : Run.Meets step Allowed empty cs) : Right (Run.run step empty cs) :=
  h.invariant (fun _ S => Right S) right_empty fun _ _ _ _ hr hc => hr.step hc

end PathMutexes

open PathMutexes in
/-- While every filename has at most 255 characters, an open database's mutex is not freed, two databases share one
exactly when their names are the same, and the list holds nothing else. -/
theorem pathMutexes_sound (cs : List DbmsCall) (h : Run.Meets PathMutexes.step Allowed PathMutexes.empty cs) :
    let S := Run.run PathMutexes.step PathMutexes.empty cs
    (∀ d ∈ S.dbs, ∃ n ∈ S.nodes, n.addr = d.fileMutex ∧ n.val = d.filename) ∧
      (∀ d ∈ S.dbs, ∀ e ∈ S.dbs, d.fileMutex = e.fileMutex ↔ d.filename = e.filename) ∧
      ∀ n ∈ S.nodes, ∃ d ∈ S.dbs, d.fileMutex = n.addr := by
  intro S
  have hr : Right S := right_run h
  refine ⟨fun d hd => ?_, fun d hd e he => ?_, fun n hn => ?_⟩
  · obtain ⟨n, hn, ha⟩ := hr.node hd
    exact ⟨n, hn, ha, hr.held d hd n hn ha⟩
  · obtain ⟨m, hm, hmd⟩ := hr.node hd
    obtain ⟨n, hn, hne⟩ := hr.node he
    rw [← hr.held d hd m hm hmd, ← hr.held e he n hn hne]
    constructor
    · intro hde
      rw [eq_of_addr hr.sound.nodup hm hn (by rw [hmd, hne, hde])]
    · intro hv
      rw [← hmd, ← hne]
      exact hr.one m hm n hn hv
  · have hpos : 0 < (S.dbs.map OpenDbms.fileMutex).count n.addr := hr.sound.count n hn ▸ hr.sound.pos n hn
    exact List.mem_map.mp (List.count_pos_iff.mp hpos)

/-- Two databases opened with one name, the first closed again. -/
def openOpenClose (name : List Char) : List DbmsCall :=
  [.dbmsOpen 1 10 name, .dbmsOpen 2 20 name, .dbmsClose 1]

open PathMutexes in
theorem pathMutexes_sound_twice :
    ∃ n ∈ (Run.run PathMutexes.step PathMutexes.empty (openOpenClose ['a'])).nodes, n.addr = 10 ∧ n.val = ['a'] := by
  refine (pathMutexes_sound (openOpenClose ['a']) ?_).1 ⟨2, 10, ['a']⟩ (by decide)
  simp only [openOpenClose, Run.meets_cons, Run.meets_nil, and_true]
  decide

/-- A longer name has a node for each database, and closing the first frees the second's. -/
theorem openOpenClose_freed {name : List Char} (h : 255 < name.length) :
    Run.run PathMutexes.step PathMutexes.empty (openOpenClose name) =
      ⟨[⟨10, filenameField name, 1⟩], [⟨2, 20, name⟩]⟩ := by
  have hne : filenameField name ≠ name := by
    intro he
    have := congrArg List.length he
    rw [filenameField, List.length_take] at this
    omega
  simp [openOpenClose, Run.run, PathMutexes.step, PathMutexes.empty, PathMutexes.getFilePathMutex, acquire, bump, hne,
    PathMutexes.db?, PathMutexes.releaseFilePathMutex, release]

end CustomDB
