import CustomDB.Sql.Text
import CustomDB.Lib.Run

/-!
# A client's connection

The loop of `client_worker`: the bytes of each read go one by one into a buffer, and a semicolon or a newline hands the
buffer on as a query. The bytes that do not fit are dropped.
-/

namespace CustomDB

/-! ## Commands -/

/-- `BUFFER_SIZE`. -/
def bufferSize : Nat := 65536

/-- `MAX_CHANNEL_NAME_LEN`. -/
def maxChannelNameLen : Nat := 64

def kwDotExit : Text := ascii ['.', 'e', 'x', 'i', 't']
def kwExit : Text := ascii ['e', 'x', 'i', 't']
def kwQuit : Text := ascii ['q', 'u', 'i', 't']
def kwPing : Text := ascii ['p', 'i', 'n', 'g']
def kwListen : Text := ascii ['l', 'i', 's', 't', 'e', 'n']
def kwNotify : Text := ascii ['n', 'o', 't', 'i', 'f', 'y']

/-- What the worker does with a query. -/
inductive Command
  | exit
  | ping
  | listen (channel : Text)
  | notify (channel payload : Text)
  | sql (query : Text)
  deriving DecidableEq

/-- `.exit`, `exit` and `quit`, whatever follows. -/
def isExit (query : Text) : Bool := startsCI kwDotExit query || startsCI kwExit query || startsCI kwQuit query

/-- The payload of NOTIFY: a string without its quotes, or what is up to a semicolon without the blanks behind it. -/
def notifyPayload (p : Text) : Text :=
  if peek p = 39 ∨ peek p = 34 then (p.tail.takeWhile (· ≠ peek p)).take (bufferSize - 1)
  else (((p.takeWhile (· ≠ 59)).take (bufferSize - 1)).reverse.dropWhile isspace).reverse

/-- The command of a query, as `client_worker` tells it by its first word. -/
def commandOf (query : Text) : Command :=
  if isExit query then .exit
  else if startsCI kwPing query then .ping
  else if startsCI kwListen query && isspace (peek (query.drop 6)) then
    .listen (((skipWhitespace (query.drop 6)).takeWhile fun b => !isspace b && b ≠ 59).take (maxChannelNameLen - 1))
  else if startsCI kwNotify query && isspace (peek (query.drop 6)) then
    let p := skipWhitespace (query.drop 6)
    let channel := (p.takeWhile fun b => !isspace b && b ≠ 44 && b ≠ 59).take (maxChannelNameLen - 1)
    .notify channel (notifyPayload ((p.drop channel.length).dropWhile fun b => isspace b || b = 44))
  else .sql query

/-! ## The loop -/

/-- A connection: `sql_buf` up to `sql_len`, the queries that were handled, and whether one of them closed it. -/
structure Session where
  sqlBuf : Text
  queries : List Text
  closed : Bool
  deriving DecidableEq

/-- Nothing was read. -/
def Session.start : Session := ⟨[], [], false⟩

/-- A semicolon or a newline. -/
def isTerminator (b : UInt8) : Bool := b = 59 || b = 10

/-- A blank in front of a query. -/
def isLead (b : UInt8) : Bool := b = 32 || b = 9 || b = 10

/-- The string that begins here, up to its terminating 0. -/
def cString (p : Text) : Text := p.takeWhile (· ≠ 0)

/-- `sql_buf[sql_len++] = c`, where there is room. -/
def pushByte (buf : Text) (b : UInt8) : Text := if buf.length < bufferSize - 1 then buf ++ [b] else buf

/-- One turn of the loop over the bytes of a read. -/
def Session.step (s : Session) (b : UInt8) : Session :=
  if s.closed ∨ b = 13 then s
  else
    let buf := pushByte s.sqlBuf b
    if isTerminator b then
      let query := cString (buf.dropWhile isLead)
      if query = [] then { s with sqlBuf := [] }
      else ⟨[], s.queries ++ [query], commandOf query = .exit⟩
    else { s with sqlBuf := buf }

/-- The loop over the reads; an empty one is the end of the stream. -/
def Session.receive : Session → List Text → Session
  | s, [] => s
  | s, r :: reads => if r = [] then s else (Lib.Run.run Session.step s r).receive reads

def kwGet : Text := ascii ['G', 'E', 'T', ' ']
def kwPost : Text := ascii ['P', 'O', 'S', 'T', ' ']
def kwOptions : Text := ascii ['O', 'P', 'T', 'I', 'O', 'N', 'S', ' ']
def kwHead : Text := ascii ['H', 'E', 'A', 'D', ' ']

/-- What is there to peek at begins an HTTP request. -/
def isHttp (p : Text) : Bool := starts kwGet p || starts kwPost p || starts kwOptions p || starts kwHead p

/-- `client_worker` for a client that is not served by HTTP: the queries that are handled. -/
def clientWorker (peeked : Text) (reads : List Text) : List Text :=
  if isHttp peeked then [] else (Session.start.receive reads).queries

end CustomDB
