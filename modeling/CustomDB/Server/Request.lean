import CustomDB.Server.Session
import CustomDB.Sql.Digits

/-!
# HTTP requests

`handle_http_request`: what it reads of a request, and what it takes for the SQL text. The length of the body is looked
for before anything is read, so that the loop that waits for the body has nothing to wait for.
-/

namespace CustomDB

/-! ## Searching -/

/-- `strstr`: the text from the first occurrence on. -/
def strstr (pat : Text) : Text → Option Text
  | [] => if pat = [] then some [] else none
  | b :: p => if starts pat (b :: p) then some (b :: p) else strstr pat p

/-- `strcasestr` for a word in lower case. -/
def strcasestr (pat : Text) : Text → Option Text
  | [] => if pat = [] then some [] else none
  | b :: p => if startsCI pat (b :: p) then some (b :: p) else strcasestr pat p

/-- `strchr`. -/
def strchr (c : UInt8) (p : Text) : Option Text := strstr [c] p

/-! ## Reading -/

def crlfTwice : Text := [13, 10, 13, 10]
def lfTwice : Text := [10, 10]
def kwContentLength : Text := ascii ['c', 'o', 'n', 't', 'e', 'n', 't', '-', 'l', 'e', 'n', 'g', 't', 'h', ':']

/-- `body_start`: from the empty line on. -/
def bodyStart (buf : Text) : Option Text := (strstr crlfTwice (cString buf)).or (strstr lfTwice (cString buf))

/-- `content_length`. -/
def contentLength (buf : Text) : Int :=
  match strcasestr kwContentLength (cString buf) with
  | some p => (atoi (p.drop 15)).toInt
  | none => 0

/-- Read into `req_buf` until the head is there, the buffer is full or nothing comes: the buffer and what was not read. -/
def readHead : Text → List Text → Text × List Text
  | buf, [] => (buf, [])
  | buf, c :: cs =>
    if (bodyStart buf).isSome ∨ bufferSize - 1 ≤ buf.length then (buf, c :: cs)
    else if c = [] then (buf, cs)
    else if c.length ≤ bufferSize - 1 - buf.length then readHead (buf ++ c) cs
    else (buf ++ c.take (bufferSize - 1 - buf.length), c.drop (bufferSize - 1 - buf.length) :: cs)

/-- Read until `content_length` bytes are there behind `at`, the buffer is full or nothing comes. -/
def readBody (length : Int) (start : Nat) : Text → List Text → Text
  | buf, [] => buf
  | buf, c :: cs =>
    if length ≤ ((buf.length - start : Nat) : Int) ∨ bufferSize - 1 ≤ buf.length then buf
    else if c = [] then buf
    else if c.length ≤ bufferSize - 1 - buf.length then readBody length start (buf ++ c) cs
    else buf ++ c.take (bufferSize - 1 - buf.length)

/-- `req_buf` and `actual_body` when the reading is done, behind the bytes that were there before. -/
def readRequest (initial : Text) (reads : List Text) : Text × Text :=
  let buf := initial.take (bufferSize - 1)
  let length := contentLength buf
  let head := readHead buf reads
  match bodyStart head.1 with
  | none => (head.1, [])
  | some p =>
    let body := p.drop (if starts crlfTwice p then 4 else 2)
    let start := (cString head.1).length - body.length
    let buf := readBody length start head.1 head.2
    (buf, buf.drop start)

/-! ## The SQL text -/

def kwSql : Text := ascii ['"', 's', 'q', 'l', '"']

/-- `sql_key` to `val_start`: from behind the quote that begins the value. -/
def valueStart (body : Text) : Option Text :=
  (strstr kwSql body).bind fun key => (strchr 58 (key.drop 5)).bind fun colon => (strchr 34 colon).map (·.drop 1)

/-- The character behind a backslash. -/
def unescapeChar (b : UInt8) : UInt8 := if b = 110 then 10 else if b = 114 then 13 else if b = 116 then 9 else b

/-- The loop that copies the value, with room for so many bytes. -/
def unescape : Nat → Text → Text
  | 0, _ => []
  | _, [] => []
  | room + 1, b :: p =>
    if b = 92 then
      match p with
      | [] => []
      | c :: q => unescapeChar c :: unescape room q
    else if b = 34 then []
    else b :: unescape room p

/-- `sql`: the value of the first `"sql"` of the body, or the body. -/
def sqlOf (body : Text) : Text :=
  match strstr kwSql body with
  | some _ =>
    match valueStart body with
    | some p => unescape (bufferSize - 1) p
    | none => []
  | none => (((skipWhitespace body).take (bufferSize - 1)).reverse.dropWhile isspace).reverse

/-! ## Dispatch -/

def kwHttpGet : Text := ascii ['g', 'e', 't']
def kwHttpPost : Text := ascii ['p', 'o', 's', 't']
def pathQuery : Text := ascii ['/', 'q', 'u', 'e', 'r', 'y']
def pathApiQuery : Text := ascii ['/', 'a', 'p', 'i', '/', 'q', 'u', 'e', 'r', 'y']
def pathSql : Text := ascii ['/', 's', 'q', 'l']
def pathHealth : Text := ascii ['/', 'h', 'e', 'a', 'l', 't', 'h']
def pathApiHealth : Text := ascii ['/', 'a', 'p', 'i', '/', 'h', 'e', 'a', 'l', 't', 'h']

/-- The paths that run a query. -/
def queryPaths : List Text := [pathQuery, pathApiQuery, pathSql]

/-- What the server does with a request. -/
inductive HttpAction
  | health
  | notFound
  | noQuery
  | notAllowed
  | run (sql : Text)
  deriving DecidableEq

/-- `%<n>s` of `sscanf`: a word, and what is behind it. -/
def scanWord (n : Nat) (p : Text) : Text × Text :=
  let p := skipWhitespace p
  let w := (p.takeWhile (!isspace ·)).take n
  (w, p.drop w.length)

/-- `handle_http_request` up to the query. -/
def handleHttpRequest (initial : Text) (reads : List Text) : HttpAction :=
  let r := readRequest initial reads
  let method := scanWord 15 (cString r.1)
  let path := scanWord 255 method.2
  if strcasecmp method.1 kwHttpGet = .eq then
    if path.1 = pathHealth ∨ path.1 = pathApiHealth then .health else .notFound
  else if strcasecmp method.1 kwHttpPost = .eq then
    if path.1 ∈ queryPaths then
      let sql := sqlOf (cString r.2)
      if sql = [] then .noQuery else .run sql
    else .notFound
  else .notAllowed

/-- The text that is executed. -/
def HttpAction.executed : HttpAction → Option Text
  | run sql => some sql
  | _ => none

end CustomDB
