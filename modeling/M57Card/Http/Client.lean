import M57Card.Http.UrlCodec
import M57Card.Lib.Fields
import M57Card.Rest.Handlers

/-!
# Reading requests

A client of the HTTP server (`client.c`) reads from its stream line by line: the request line, the
headers, and for a POST as many bytes of a body as the headers announce. `uh_client_read_cb` is
called when bytes have arrived; it shows what the stream holds to the callback of the state that the
client is in, until one says that it needs more.

What the handlers of the server do with a request is a parameter; the client sees whether they have
answered, leave the request as it is, or go on to send a file. Programs below `/cgi-bin` are left
out.

## Main definitions

* `HttpRequest`, `Dispatch`, `HttpClient`, `Handler` : the data.
* `clientParseRequest`, `clientParseHeader`, `uhHandleRequest`, `postPostData`,
  `clientPollPostData` : a line, a body.
* `clientInitCb`, `clientHeaderCb`, `clientDataCb`, `uhClientReadCb`.
-/

namespace M57Card.Http

open Rest (Text Kvlist kvlistGet kvlistSet isSpace)
open Numerals

/-! ### Data -/

/-- `enum http_method`. -/
inductive Method where
  | get | post | head | put | delete
  deriving DecidableEq

/-- `enum http_version`. -/
inductive Version where
  | http09 | http10 | http11
  deriving DecidableEq

/-- `enum client_state`. -/
inductive ClientState where
  | init | header | data | done | close
  deriving DecidableEq

/-- `http_methods`. -/
def httpMethods : List (Text × Method) :=
  [("GET".toList, .get), ("POST".toList, .post), ("HEAD".toList, .head), ("PUT".toList, .put),
    ("DELETE".toList, .delete)]

/-- `http_versions`. -/
def httpVersions : List (Text × Version) :=
  [("HTTP/0.9".toList, .http09), ("HTTP/1.0".toList, .http10), ("HTTP/1.1".toList, .http11)]

/-- `find_idx`. -/
def findIdx {α : Type} (list : List (Text × α)) (str : Text) : Option α :=
  (list.find? fun entry => entry.1 == str).map Prod.snd

/-- The fields of `struct http_request` that the client reads. -/
structure HttpRequest where
  method : Method := .get
  version : Version := .http09
  contentLength : ℤ := 0
  url : Kvlist := fun _ => none
  var : Kvlist := fun _ => none
  header : Kvlist := fun _ => none

/-- The fields of `struct dispatch` for the body of a POST: whether `post_data` and `post_done` are
set, the length so far, and the block with its size. -/
structure Dispatch where
  postData : Bool := false
  postLen : ℤ := 0
  body : Text := []
  room : ℤ := 0

/-- A request as the handlers of the server see it. -/
structure Handled where
  method : Method
  path : Option Text
  var : Kvlist
  header : Kvlist
  body : Text

/-- What the client has done: it has called the handlers, or sent an error. -/
inductive Reply where
  | handled (r : Handled)
  | error (code : ℕ)

/-- `struct uh_client`, and what it has done. -/
structure HttpClient where
  state : ClientState := .init
  request : HttpRequest := {}
  dispatch : Dispatch := {}
  connectionClose : Bool := false
  log : List Reply := []

/-- How the handlers of the server leave a request. -/
inductive Answer where
  /-- it has been answered and `request_done` has run -/
  | done
  /-- nothing has been sent -/
  | pending
  /-- a file is being sent -/
  | file
  deriving DecidableEq

/-- The handlers of the server. -/
abbrev Handler : Type := Handled → Answer

/-- How a call does not come back. -/
inductive Fault where
  /-- a loop goes on for ever -/
  | loops
  /-- bytes are copied outside of a block -/
  | overrun
  /-- the request is for a program -/
  | cgi
  deriving DecidableEq

/-! ### Answers -/

/-- `client_request_done`. -/
def HttpClient.requestDone (cl : HttpClient) : HttpClient :=
  if cl.connectionClose then { cl with dispatch := {}, state := .close }
  else { cl with dispatch := {}, state := .init, request := {} }

/-- `client_send_error` and `client_send_error_json`. -/
def HttpClient.sendError (cl : HttpClient) (code : ℕ) : HttpClient :=
  ({ cl with log := cl.log ++ [.error code] } : HttpClient).requestDone

/-- The request as the handlers see it. -/
def HttpClient.handled (cl : HttpClient) : Handled :=
  ⟨cl.request.method, kvlistGet cl.request.url "path".toList, cl.request.var, cl.request.header,
    cl.dispatch.body⟩

/-- The handlers run. -/
def HttpClient.serve (h : Handler) (cl : HttpClient) : HttpClient :=
  let cl' := { cl with log := cl.log ++ [.handled cl.handled] }
  match h cl.handled with
  | .done => cl'.requestDone
  | .pending => cl'
  | .file => { cl' with state := .done }

/-! ### The request line -/

/-- `parse_var`. -/
def parseVar (kv : Kvlist) (query : Text) : Kvlist :=
  (query.splitOn '&').foldl
    (fun kv piece =>
      let k := piece.takeWhile (· ≠ '=')
      match Fields.after '=' piece with
      | none => kv
      | some v => if k = [] then kv else kvlistSet kv k v)
    kv

/-- `client_parse_request`, with the state that it returns. -/
def clientParseRequest (cl : HttpClient) (data : Text) : HttpClient × ClientState :=
  match (data.splitOn ' ').filter (· ≠ []) with
  | type :: url :: version :: _ =>
    match findIdx httpMethods type, findIdx httpVersions version with
    | some method, some version =>
      let kv := kvlistSet cl.request.url "url".toList url
      let query := (Fields.after '?' url).getD []
      let kv := if query = [] then kv else kvlistSet kv "query".toList query
      let var := if query = [] then cl.request.var else parseVar cl.request.var query
      match uhUrldecode 4095 (url.takeWhile (· ≠ '?')) with
      | .text path =>
        -- the path is stored up to its first zero
        ({ cl with
            request := { cl.request with
              method := method
              version := version
              url := kvlistSet kv "path".toList (path.takeWhile (· ≠ '\x00'))
              var := var }
            connectionClose := cl.connectionClose || version != .http11 }, .header)
      | _ => ({ cl with request := { cl.request with url := kv, var := var } }, .done)
    | _, _ => ({ cl with request := { cl.request with version := .http10 } }, .done)
  | _ => (cl, .done)

/-- `strstr` for the end of a line. -/
def findNewline : Text → Option ℕ
  | [] => none
  | c :: buf =>
    if c = '\x00' then none
    else if c = '\r' ∧ buf.head? = some '\n' then some 0
    else (findNewline buf).map (· + 1)

/-- `client_init_cb`: the client, what is left in the stream, and the result. -/
def clientInitCb (cl : HttpClient) (buf : Text) : HttpClient × Text × Bool :=
  match findNewline buf with
  | none => (cl, buf, false)
  | some n =>
    if n = 0 then (cl, buf.drop 2, true)
    else
      let parsed := clientParseRequest cl (buf.take n)
      let cl := { parsed.1 with state := parsed.2 }
      (if parsed.2 = .done then cl.sendError 400 else cl, buf.drop (n + 2), true)

/-! ### A body -/

/-- `post_post_data`, with the number that it returns. -/
def postPostData (cl : HttpClient) (data : Text) (len : ℤ) : Except Fault (HttpClient × ℤ) :=
  let offset := cl.dispatch.postLen + len
  if 4096 < offset then .ok (cl.sendError 413, 0)
  else
    let room := if 1024 < offset then 4096 else cl.dispatch.room
    if len < 0 ∨ room < offset then .error .overrun
    else
      .ok ({ cl with
        dispatch := { cl.dispatch with
          room := room
          body := cl.dispatch.body ++ data.take len.toNat
          postLen := offset } }, len)

/-- The loop of `client_poll_post_data`, with what is left in the stream and whether the loop is
left by a `break`. -/
def clientPollLoop : ℕ → HttpClient → Text → Except Fault (HttpClient × Text × Bool)
  | 0, _, _ => .error .loops
  | fuel + 1, cl, buf =>
    if buf = [] then .ok (cl, buf, true)
    else if cl.dispatch.postData = false then .ok (cl, buf, false)
    else
      let curLen : ℤ := min cl.request.contentLength buf.length
      if curLen = 0 then clientPollLoop fuel cl buf
      else
        match postPostData cl buf curLen with
        | .error fault => .error fault
        | .ok (cl, n) =>
          let contentLength := cl.request.contentLength - n
          let cl := { cl with request := { cl.request with contentLength := contentLength } }
          if contentLength ≤ 0 then .ok (cl, buf.drop n.toNat, true)
          else clientPollLoop fuel cl (buf.drop n.toNat)

/-- `client_poll_post_data` and `post_post_done`. -/
def clientPollPostData (h : Handler) (cl : HttpClient) (buf : Text) :
    Except Fault (HttpClient × Text) :=
  if cl.state = .done then .ok (cl, buf)
  else
    match clientPollLoop (buf.length + 2) cl buf with
    | .error fault => .error fault
    | .ok (cl, buf, broke) =>
      if broke ∧ cl.request.contentLength = 0 ∧ cl.state ≠ .done ∧ cl.dispatch.postData then
        .ok (cl.serve h, buf)
      else .ok (cl, buf)

/-! ### The headers -/

/-- `client_path_match` for `CGI_BIN`. -/
def isCgiBin (path : Text) : Bool :=
  "/cgi-bin".toList.isPrefixOf path && (path[8]?.getD '/' == '/')

/-- `uh_handle_request`. -/
def uhHandleRequest (h : Handler) (cl : HttpClient) : Except Fault HttpClient :=
  match cl.request.method with
  | .get | .delete | .put => .ok (cl.serve h)
  | .post =>
    if (kvlistGet cl.request.url "path".toList).any isCgiBin then .error .cgi
    else
      .ok { cl with dispatch := { cl.dispatch with postData := true, body := [], room := 1024 } }
  | .head => .ok (cl.sendError 400)

/-- `uh_split_header`: the name and the value. -/
def uhSplitHeader (str : Text) : Option (Text × Text) :=
  (Fields.after ':' str).map fun val => (str.takeWhile (· ≠ ':'), val.dropWhile isSpace)

/-- The header is stored. -/
def HttpClient.storeHeader (cl : HttpClient) (name val : Text) : HttpClient :=
  { cl with
    request := { cl.request with header := kvlistSet cl.request.header name val }
    state := .header }

/-- What `client_parse_header` does with a name and a value. -/
def HttpClient.takeHeader (cl : HttpClient) (name val : Text) : HttpClient :=
  if name = "content-length".toList then
    -- an `unsigned long` becomes an `int`
    let cl := { cl with
      request := { cl.request with contentLength := ((strtoul val).1 : ℤ).bmod (2 ^ 32) } }
    if (strtoul val).2 ≠ [] then cl.sendError 400 else cl.storeHeader name val
  else if name = "transfer-encoding".toList ∧ val = "chunked".toList then cl.sendError 501
  else if name = "connection".toList ∧ val.map Char.toLower = "close".toList then
    { cl with connectionClose := true }.storeHeader name val
  else cl.storeHeader name val

/-- `client_parse_header`. -/
def clientParseHeader (h : Handler) (cl : HttpClient) (data : Text) : Except Fault HttpClient :=
  if data = [] then uhHandleRequest h { cl with state := .data }
  else
    match uhSplitHeader data with
    | none => .ok { cl with state := .done }
    | some (name, val) => .ok (cl.takeHeader (name.map Char.toLower) val)

/-! ### The callbacks -/

/-- `client_data_cb`. -/
def clientDataCb (h : Handler) (cl : HttpClient) (buf : Text) :
    Except Fault (HttpClient × Text × Bool) :=
  (clientPollPostData h cl buf).map fun p => (p.1, p.2, false)

/-- `client_header_cb`. -/
def clientHeaderCb (h : Handler) (cl : HttpClient) (buf : Text) :
    Except Fault (HttpClient × Text × Bool) :=
  match findNewline buf with
  | none => .ok (cl, buf, false)
  | some n =>
    match clientParseHeader h cl (buf.take n) with
    | .error fault => .error fault
    | .ok cl =>
      if cl.state = .data then clientDataCb h cl (buf.drop (n + 2))
      else .ok (cl, buf.drop (n + 2), true)

/-- `read_cbs`. -/
def readCbs (h : Handler) (cl : HttpClient) (buf : Text) :
    Option (Except Fault (HttpClient × Text × Bool)) :=
  match cl.state with
  | .init => some (.ok (clientInitCb cl buf))
  | .header => some (clientHeaderCb h cl buf)
  | .data => some (clientDataCb h cl buf)
  | .done | .close => none

/-- `r.buffer_len` of the stream. -/
def BUFFER_LEN : ℕ := 32768

/-- The loop of `uh_client_read_cb`. -/
def readLoop (h : Handler) : ℕ → HttpClient → Text → Except Fault (HttpClient × Text)
  | 0, _, _ => .error .loops
  | fuel + 1, cl, buf =>
    if buf = [] then .ok (cl, buf)
    else
      match readCbs h cl buf with
      | none => .ok (cl, buf)
      | some (.error fault) => .error fault
      | some (.ok (cl, rest, true)) => readLoop h fuel cl rest
      | some (.ok (cl, rest, false)) =>
        .ok (if buf.length = BUFFER_LEN ∧ cl.state ≠ .data then cl.sendError 413 else cl, rest)

/-- `uh_client_read_cb`: the client and what is left in the stream. -/
def uhClientReadCb (h : Handler) (cl : HttpClient) (buf : Text) :
    Except Fault (HttpClient × Text) :=
  readLoop h (buf.length + 1) cl buf

/-- More bytes arrive. -/
def feed (h : Handler) (st : HttpClient × Text) (chunk : Text) :
    Except Fault (HttpClient × Text) :=
  uhClientReadCb h st.1 (st.2 ++ chunk)

end M57Card.Http
