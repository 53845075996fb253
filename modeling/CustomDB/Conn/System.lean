import CustomDB.Pager.Ops
import CustomDB.Lib.Script

/-!
# Several connections on one file

Each connection has a pager of its own. They share the three files, the byte locks, which the operating
system keeps per process, and within a process the `active_writer` of the file's lock node. A step runs one
pager operation to its end, as `file_mutex` and the EXCLUSIVE lock have it.
-/

namespace CustomDB

open Lib Lib.Script

variable {B L : Type} [PageBody B] {n : Nat}

namespace ByteLocks

/-- The byte locks a process has once one of its pagers went from lock state `lo` to `hi`. The write lock
on the SHARED byte replaces the read lock. -/
def take (h : ByteLocks) (lo hi : PagerLockState) : ByteLocks where
  sharedRead := (h.sharedRead || (decide (lo.level < 1) && decide (1 ≤ hi.level))) &&
    !(decide (lo.level < 4) && decide (4 ≤ hi.level))
  sharedWrite := h.sharedWrite || (decide (lo.level < 4) && decide (4 ≤ hi.level))
  reserved := h.reserved || (decide (lo.level < 2) && decide (2 ≤ hi.level))
  pending := h.pending || (decide (lo.level < 3) && decide (3 ≤ hi.level))

end ByteLocks

/-! ## One connection -/

/-- A connection: its pager, and what its open transaction was started with, has done so far and knows
from its reads. -/
structure Conn (B L : Type) where
  pager : Pager B
  params : L
  script : List (Access L (Page B))
  loc : L

/-- What a connection does. A statement outside a transaction is `begin`, its accesses and `commit`. -/
inductive ConnOp (B L : Type) where
  | begin (explicitTx : Bool) (params : L)
  | access (a : Access L (Page B))
  | commit
  | rollback

namespace Conn

/-- Run one operation on the connection's pager; `none` is `exit(1)`. A statement that writes asks for the
write lock first, and is refused without it. -/
def step (c : Conn B L) : ConnOp B L → Option (Conn B L)
  | .begin explicitTx params =>
    if c.pager.inTransaction then some c
    else
      match c.pager.pagerBeginTransaction with
      | (false, s) => some { c with pager := s }
      | (true, s) => some ⟨{ s with isExplicitTx := explicitTx }, params, [], params⟩
  | .access (.read p g) =>
    let s := c.pager.getPage p
    some { c with pager := s, loc := g c.loc (s.deref p), script := c.script ++ [.read p g] }
  | .access (.write p f) =>
    if c.pager.inTransaction then
      match c.pager.pagerEnsureWriteLock with
      | (false, s) => some { c with pager := s }
      | (true, s) =>
        some { c with
          pager := (s.pagerJournalPage p).modify p (f c.loc), script := c.script ++ [.write p f] }
    else some c
  | .commit => c.pager.pagerCommit.map fun s => { c with pager := s }
  | .rollback => c.pager.pagerRollback.map fun s => { c with pager := s }

/-- Whether the operation reaches `pager_unlock` with a lock held, so that the process lets go of every
byte of the file. -/
def Unlocks (s : Pager B) : ConnOp B L → Prop
  | .commit => s.inTransaction = true ∧ (s.hasWrites = true ∨ s.lockState ≠ .noLock)
  | .rollback => s.inTransaction = true
  | _ => False

instance (s : Pager B) : (op : ConnOp B L) → Decidable (Unlocks s op)
  | .commit => inferInstanceAs (Decidable (_ ∧ _))
  | .rollback => inferInstanceAs (Decidable (_ = _))
  | .begin _ _ | .access _ => inferInstanceAs (Decidable False)

end Conn

/-! ## The system -/

/-- A committed transaction: its parameters and its accesses. -/
structure Txn (B L : Type) where
  params : L
  script : List (Access L (Page B))

/-- The transaction run alone on the content `m`. One that writes leaves the next LSN on page 0. -/
def Txn.apply (t : Txn B L) (m : Nat → Page B) : Nat → Page B :=
  let m' := (run (t.params, m) t.script).2
  if writes t.script then Function.update m' 0 ((m' 0).setLsn ((m 0).lsn + 1)) else m'

/-- The content after the transactions `ts`, one after another. -/
def serial (m : Nat → Page B) (ts : List (Txn B L)) : Nat → Page B := ts.foldl (fun m t => t.apply m) m

/-- All connections on one file. Connection `i` belongs to process `proc i`. -/
structure System (B L : Type) (n : Nat) where
  proc : Fin n → Nat
  disk : Disk B
  conn : Fin n → Conn B L
  /-- The byte locks of each process. -/
  held : Nat → ByteLocks
  /-- `active_writer` of the lock node of each process. -/
  activeWriter : Nat → Option (Fin n)
  /-- The committed transactions, in commit order. -/
  log : List (Txn B L)

namespace System

variable (S : System B L n) (i : Fin n)

/-- The byte locks that other processes than that of connection `i` hold. -/
def others : ByteLocks where
  sharedRead := (List.finRange n).any fun j => S.proc j ≠ S.proc i && (S.held (S.proc j)).sharedRead
  sharedWrite := (List.finRange n).any fun j => S.proc j ≠ S.proc i && (S.held (S.proc j)).sharedWrite
  reserved := (List.finRange n).any fun j => S.proc j ≠ S.proc i && (S.held (S.proc j)).reserved
  pending := (List.finRange n).any fun j => S.proc j ≠ S.proc i && (S.held (S.proc j)).pending

/-- The lock node as connection `i` sees it. -/
def writerSlot : WriterSlot :=
  match S.activeWriter (S.proc i) with
  | none => .free
  | some j => if j = i then .self else .other (S.conn j).pager.isExplicitTx

/-- The pager of connection `i` with the files and locks as they are now. -/
def attach : Pager B :=
  { (S.conn i).pager with disk := S.disk, others := S.others i, writerSlot := S.writerSlot i }

/-- Who is the active writer once the pager of connection `i` sees the lock node as `slot`. -/
def claim (slot : WriterSlot) : Option (Fin n) :=
  if slot = .self then some i
  else if S.activeWriter (S.proc i) = some i then none
  else S.activeWriter (S.proc i)

/-- The transaction that `op` of connection `i` commits. -/
def committed : ConnOp B L → List (Txn B L)
  | .commit => if (S.conn i).pager.inTransaction then [⟨(S.conn i).params, (S.conn i).script⟩] else []
  | _ => []

/-- The system once `op` has left connection `i` as `conn`. -/
def after (op : ConnOp B L) (conn : Conn B L) : System B L n :=
  { S with
    disk := conn.pager.disk
    conn := Function.update S.conn i conn
    held := Function.update S.held (S.proc i)
      (if Conn.Unlocks (S.attach i) op then ByteLocks.none
        else (S.held (S.proc i)).take (S.attach i).lockState conn.pager.lockState)
    activeWriter := Function.update S.activeWriter (S.proc i) (S.claim i conn.pager.writerSlot)
    log := S.log ++ S.committed i op }

/-- Connection `i` runs `op`. An operation that ends in `exit(1)` is no step. -/
def step (S : System B L n) (c : Fin n × ConnOp B L) : System B L n :=
  match Conn.step { S.conn c.1 with pager := S.attach c.1 } c.2 with
  | none => S
  | some conn => S.after c.1 c.2 conn

/-- The main file's content. -/
def content (p : Nat) : Page B := BlockFile.read Page.zero S.disk.main p

/-- The connections of `proc` have just opened a database file in rollback mode. -/
def opened (proc : Fin n → Nat) (main : List (Page B)) (clock : Nat) (l : L) : System B L n where
  proc := proc
  disk := ⟨main, none, none⟩
  conn _ := ⟨Pager.pagerOpen ⟨main, none, none⟩ ByteLocks.none .free clock, l, [], l⟩
  held _ := ByteLocks.none
  activeWriter _ := none
  log := []

end System

end CustomDB
