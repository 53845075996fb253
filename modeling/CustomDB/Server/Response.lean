import CustomDB.Server.Session
import CustomDB.Lib.JsonText

/-!
# The answer to a query

The JSON that `handle_http_request` builds of a result. The room that is left is a subtraction without sign, and the
last one starts from half of the buffer.
-/

namespace CustomDB

/-! ## `snprintf` -/

/-- The buffer of the answer: `roff`, the string in it, the end of what was written, and whether a subtraction of
`roff` went below zero. -/
structure Resp where
  roff : Nat
  body : Text
  top : Nat
  wrapped : Bool
  deriving DecidableEq

/-- Nothing is written. -/
def Resp.empty : Resp := ⟨0, [], 0, false⟩

/-- `roff += snprintf(resp + roff, limit - roff, "%s", s)`. -/
def Resp.print (limit : Nat) (r : Resp) (s : Text) : Resp :=
  let size := (BitVec.ofNat 64 limit - BitVec.ofNat 64 r.roff).toNat
  let written := s.take (size - 1)
  ⟨r.roff + s.length,
    if size = 0 ∨ r.body.length < r.roff then r.body else r.body.take r.roff ++ written,
    if size = 0 then r.top else max r.top (r.roff + written.length + 1),
    r.wrapped || decide (limit < r.roff)⟩

/-- Several of them. -/
def Resp.printAll (limit : Nat) (r : Resp) (pieces : List Text) : Resp := pieces.foldl (Resp.print limit) r

/-! ## Escaping -/

/-- What `escape_json_string` makes of a character. -/
def escapeByte (b : UInt8) : Text :=
  if b = 34 then [92, 34]
  else if b = 92 then [92, 92]
  else if b = 10 then [92, 110]
  else if b = 13 then [92, 114]
  else if b = 9 then [92, 116]
  else [b]

/-- `escape_json_string`, with `d` bytes written. -/
def escapeJsonString (dstMax : Nat) : Nat → Text → Text
  | _, [] => []
  | d, b :: p =>
    if d + 4 < dstMax then escapeByte b ++ escapeJsonString dstMax (d + (escapeByte b).length) p else []

/-! ## The answer -/

/-- `resp_cap`. -/
def respCap : Nat := bufferSize * 4

def kwColumns : Text := ascii ['{', '"', 'c', 'o', 'l', 'u', 'm', 'n', 's', '"', ':', ' ', '[']
def kwRows : Text := ascii [']', ',', ' ', '"', 'r', 'o', 'w', 's', '"', ':', ' ', '[']
def kwJsonNull : Text := ascii ['n', 'u', 'l', 'l']

/-- A name in quotes; what does not fit into 128 bytes is left out. -/
def nameText (name : Text) : Text := 34 :: (escapeJsonString 128 0 name ++ [34])

/-- A cell: NULL, or its text in quotes. -/
def cellText : Option Text → Text
  | none => kwJsonNull
  | some txt => 34 :: (escapeJsonString (txt.length * 2 + 16) 0 txt ++ [34])

/-- `", "` in front of all but the first. -/
def comma (i : Nat) : List Text := if 0 < i then [[44, 32]] else []

/-- What is printed for the columns. -/
def columnPieces : Nat → List Text → List Text
  | _, [] => []
  | i, name :: names => ((comma i).flatten ++ nameText name) :: columnPieces (i + 1) names

/-- What is printed for the cells of a row. -/
def cellPieces : Nat → List (Option Text) → List Text
  | _, [] => []
  | i, cell :: cells => comma i ++ cellText cell :: cellPieces (i + 1) cells

/-- What is printed for a row. -/
def rowPieces (i : Nat) (row : List (Option Text)) : List Text := comma i ++ [91] :: (cellPieces 0 row ++ [[93]])

/-- The loop over the rows, which stops where little room is left. -/
def printRows : Resp → Nat → List (List (Option Text)) → Resp
  | r, _, [] => r
  | r, i, row :: rows =>
    if r.roff + 4096 < respCap then printRows (r.printAll respCap (rowPieces i row)) (i + 1) rows else r

/-- The answer to a query that came to its end. -/
def respond (columns : List Text) (rows : List (List (Option Text))) : Resp :=
  let r := Resp.empty.printAll respCap ([kwColumns] ++ columnPieces 0 columns ++ [kwRows])
  (printRows r 0 rows).print (bufferSize * 2) [93, 125]

/-! ## What an answer should be -/

/-- Values with commas between them. -/
def commas : List Text → Text
  | [] => []
  | x :: l => x ++ l.flatMap fun y => 44 :: 32 :: y

/-- The JSON text of a string. -/
def IsString (t s : Text) : Prop := ∃ l, t = 34 :: (l ++ [34]) ∧ Lib.JsonText.Reads l s

/-- The JSON text of a cell. -/
def IsCell : Text → Option Text → Prop
  | t, none => t = kwJsonNull
  | t, some s => IsString t s

/-- JSON with every row once, in order, and names for the columns. -/
def IsAnswer (rows : List (List (Option Text))) (body : Text) : Prop :=
  ∃ (names : List Text) (cells : List (List Text)),
    (∀ t ∈ names, ∃ s, IsString t s) ∧ List.Forall₂ (List.Forall₂ IsCell) cells rows ∧
    body = kwColumns ++ commas names ++ kwRows ++ commas (cells.map fun row => 91 :: (commas row ++ [93])) ++ [93, 125]

/-- Nothing is written outside of the buffer, and no room is below zero. -/
def Resp.Safe (r : Resp) : Prop := r.top ≤ respCap ∧ r.wrapped = false

end CustomDB
