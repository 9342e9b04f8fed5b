import M57Card.Http.Pieces

/-!
# Requests are understood as they have been sent

A client sends requests one after the other, each when the last one has been answered. However its
bytes are cut into pieces on the way, the handlers see each request once, with its method, path,
variables, headers and body, and the connection is then ready for the next.

## Main definitions

* `Sent`, `Sent.text`, `Sent.Ok` : a request and its text.
* `Sent.handled` : what the handlers see of it.

## Main results

* `Sent.takes` : the text of a request is read.
* `requests_of_run` : all requests of a connection.
-/

namespace M57Card.Http

open Rest (Text Kvlist kvlistGet kvlistSet isSpace)
open Numerals

/-! ### Requests -/

/-- The name of a method. -/
def Method.name : Method → Text
  | .get => "GET".toList
  | .post => "POST".toList
  | .head => "HEAD".toList
  | .put => "PUT".toList
  | .delete => "DELETE".toList

/-- A request of HTTP 1.1. -/
structure Sent where
  method : Method
  target : Text
  query : List (Text × Text)
  headers : List (Text × Text)
  body : Text

/-- A variable. -/
def pairText (x : Text × Text) : Text := x.1 ++ '=' :: x.2

/-- A header. -/
def headerLine (x : Text × Text) : Text := x.1 ++ ':' :: ' ' :: x.2

/-- The headers, and the body behind them. -/
def headersText : List (Text × Text) → Text → Text
  | [], body => [] ++ (crlf ++ body)
  | x :: headers, body => headerLine x ++ (crlf ++ headersText headers body)

namespace Sent

variable (r : Sent)

/-- The path and the variables. -/
def url : Text :=
  encoded r.target ++
    if r.query = [] then [] else '?' :: ['&'].intercalate (r.query.map pairText)

/-- The request line. -/
def line : Text := r.method.name ++ ' ' :: (r.url ++ ' ' :: "HTTP/1.1".toList)

/-- The text of a request. -/
def text : Text := r.line ++ (crlf ++ headersText r.headers r.body)

/-- What the handlers see. -/
def handled : Handled where
  method := r.method
  path := some r.target
  var := r.query.foldl (fun kv x => kvlistSet kv x.1 x.2) fun _ => none
  header := r.headers.foldl (fun kv x => kvlistSet kv (x.1.map Char.toLower) x.2) fun _ => none
  body := r.body

end Sent

/-- A header that tells the length of the body. -/
def IsContentLength (x : Text × Text) : Prop := x.1.map Char.toLower = "content-length".toList

instance : DecidablePred IsContentLength := fun _ => inferInstanceAs (Decidable (_ = _))

/-- A header that the server only stores, or that tells the length of the body. -/
structure HeaderOk (body : Text) (x : Text × Text) : Prop where
  clean : Clean (x.1 ++ x.2)
  name : ':' ∉ x.1
  value : ∀ c ∈ x.2.head?, isSpace c = false
  contentLength : IsContentLength x → x.2 = Nat.toDigits 10 body.length
  transferEncoding : x.1.map Char.toLower = "transfer-encoding".toList → x.2 ≠ "chunked".toList
  connection : x.1.map Char.toLower = "connection".toList → x.2.map Char.toLower ≠ "close".toList

/-- A request as a well-behaved client makes it: the names and values do not contain what separates
them, a body is announced and has at most 4096 bytes, and the connection is kept. -/
structure Sent.Ok (r : Sent) : Prop where
  method : r.method ≠ .head
  target_ne : r.target ≠ []
  target : ∀ c ∈ r.target, IsByte c ∧ c ≠ '\x00'
  target_le : r.target.length ≤ 4095
  query_ne : ∀ x ∈ r.query, x.1 ≠ [] ∧ '=' ∉ x.1
  query : ∀ x ∈ r.query, Clean (x.1 ++ x.2) ∧ ' ' ∉ x.1 ++ x.2 ∧ '&' ∉ x.1 ++ x.2
  headers : ∀ x ∈ r.headers, HeaderOk r.body x
  body : if r.method = .post then
      r.body ≠ [] ∧ r.body.length ≤ 4096 ∧ isCgiBin r.target = false ∧
        ∃ x ∈ r.headers, IsContentLength x
    else r.body = []
  length : r.text.length < BUFFER_LEN

/-- A client between two requests. -/
def idle (log : List Reply) : HttpClient := { log := log }

/-! ### The request line -/

theorem not_mem_encoded {c : Char} (hc : isPlain c = false) (hne : c ≠ '%')
    (hx : digitVal c = 36) (src : Text) : c ∉ encoded src := by
  have hdigit : ∀ n < 16, c ≠ hexDigit n := by
    rintro n hn rfl
    rw [digitVal_hexDigit hn] at hx
    omega
  rw [encoded, List.mem_flatMap]
  rintro ⟨d, -, hmem⟩
  rw [encodeChar] at hmem
  split_ifs at hmem with hplain
  · rw [List.mem_singleton] at hmem
    exact Bool.false_ne_true (hc.symm.trans (hmem ▸ hplain))
  · simp only [List.mem_cons, List.not_mem_nil, or_false] at hmem
    rcases hmem with heq | heq | heq
    · exact hne heq
    · exact hdigit _ (Nat.mod_lt _ (by decide)) heq
    · exact hdigit _ (Nat.mod_lt _ (by decide)) heq

theorem encoded_ne_nil {src : Text} (hsrc : src ≠ []) : encoded src ≠ [] := by
  obtain ⟨c, src, rfl⟩ := List.exists_cons_of_ne_nil hsrc
  rw [encoded_cons]
  refine List.append_ne_nil_of_left_ne_nil (List.ne_nil_of_length_pos ?_) _
  rw [length_encodeChar]
  split_ifs <;> decide

theorem findIdx_name (m : Method) : findIdx httpMethods m.name = some m := by
  cases m <;> rfl

/-- Three words are read. -/
theorem words_line {a b c : Text} (ha : ' ' ∉ a) (hb : ' ' ∉ b) (hc : ' ' ∉ c) (hane : a ≠ [])
    (hbne : b ≠ []) (hcne : c ≠ []) :
    ((a ++ ' ' :: (b ++ ' ' :: c)).splitOn ' ').filter (· ≠ []) = [a, b, c] := by
  rw [List.splitOn_append_cons_self_of_not_mem ha, List.splitOn_append_cons_self_of_not_mem hb,
    List.splitOn_eq_singleton hc]
  simp [hane, hbne, hcne]

/-- The variables of a query are read back. -/
theorem parseVar_intercalate {query : List (Text × Text)} (hne : query ≠ [])
    (hname : ∀ x ∈ query, x.1 ≠ [] ∧ '=' ∉ x.1) (hamp : ∀ x ∈ query, '&' ∉ x.1 ++ x.2)
    (kv : Kvlist) :
    parseVar kv (['&'].intercalate (query.map pairText)) =
      query.foldl (fun kv x => kvlistSet kv x.1 x.2) kv := by
  have hpieces : ∀ l ∈ query.map pairText, '&' ∉ l := by
    refine List.forall_mem_map.mpr fun x hx => ?_
    have h := hamp x hx
    rw [List.mem_append, not_or] at h
    simp [pairText, h.1, h.2]
  have hmap : query.map pairText ≠ [] := mt List.map_eq_nil_iff.mp hne
  rw [parseVar, List.splitOn_intercalate '&' hpieces hmap, List.foldl_map]
  clear hne hamp hpieces hmap
  induction query generalizing kv with
  | nil => rfl
  | cons x query ih =>
    rw [List.forall_mem_cons] at hname
    rw [List.foldl_cons, List.foldl_cons, pairText, Fields.takeWhile_append_cons hname.1.2,
      Fields.after_append_cons hname.1.2]
    dsimp only
    rw [if_neg hname.1.1]
    exact ih hname.2 _

theorem not_mem_intercalate {c : Char} (hamp : c ≠ '&') {ls : List Text}
    (hls : ∀ l ∈ ls, c ∉ l) : c ∉ ['&'].intercalate ls := by
  induction ls with
  | nil => exact List.not_mem_nil
  | cons l ls ih =>
    rw [List.forall_mem_cons] at hls
    by_cases hnil : ls = []
    · rw [hnil, List.intercalate_singleton]
      exact hls.1
    · rw [List.intercalate_cons_of_ne_nil hnil]
      simp [hls.1, ih hls.2, hamp]

section

variable {r : Sent}

theorem not_mem_pairText {c : Char} {x : Text × Text} (heq : c ≠ '=') (hx : c ∉ x.1 ++ x.2) :
    c ∉ pairText x := by
  rw [List.mem_append, not_or] at hx
  simp [pairText, hx.1, hx.2, heq]

/-- A character that separates the words or the lines is not in the path or the variables. -/
theorem Sent.Ok.not_mem_url (hr : r.Ok) {c : Char} (hc : c = ' ' ∨ c = '\r' ∨ c = '\x00') :
    c ∉ r.url := by
  obtain ⟨hplain, hpercent, hdigit, hmark, heq, hamp⟩ : isPlain c = false ∧ c ≠ '%' ∧
      digitVal c = 36 ∧ c ≠ '?' ∧ c ≠ '=' ∧ c ≠ '&' := by
    rcases hc with rfl | rfl | rfl <;> decide
  have hquery : ∀ l ∈ r.query.map pairText, c ∉ l := by
    refine List.forall_mem_map.mpr fun x hx => not_mem_pairText heq ?_
    obtain ⟨hclean, hspace, -⟩ := hr.query x hx
    rcases hc with rfl | rfl | rfl
    · exact hspace
    · exact hclean.1
    · exact hclean.2
  rw [Sent.url, List.mem_append, not_or]
  refine ⟨not_mem_encoded hplain hpercent hdigit r.target, ?_⟩
  split_ifs
  · exact List.not_mem_nil
  · rw [List.mem_cons, not_or]
    exact ⟨hmark, not_mem_intercalate hamp hquery⟩

/-- The path is cut off at its `?`. -/
theorem Sent.url_split (r : Sent) :
    r.url.takeWhile (· ≠ '?') = encoded r.target ∧
      (Fields.after '?' r.url).getD [] = ['&'].intercalate (r.query.map pairText) := by
  have hmark : '?' ∉ encoded r.target := not_mem_encoded rfl (by decide) rfl r.target
  rw [Sent.url]
  split_ifs with hquery
  · rw [List.append_nil, Fields.after_of_not_mem hmark, hquery]
    refine ⟨?_, rfl⟩
    have htake := Fields.takeWhile_of_not_mem hmark []
    rwa [List.takeWhile_nil, List.append_nil] at htake
  · rw [Fields.takeWhile_append_cons hmark, Fields.after_append_cons hmark]
    exact ⟨rfl, rfl⟩

theorem intercalate_eq_nil {query : List (Text × Text)} :
    ['&'].intercalate (query.map pairText) = [] ↔ query = [] := by
  cases query with
  | nil => simp
  | cons x query =>
    refine iff_of_false ?_ (List.cons_ne_nil _ _)
    cases query with
    | nil => simp [pairText]
    | cons y query => simp [pairText]

/-- The request line is read. -/
theorem Sent.Ok.clientParseRequest (hr : r.Ok) (log : List Reply) :
    ∃ url, kvlistGet url "path".toList = some r.target ∧
      Http.clientParseRequest (idle log) r.line =
        ({ idle log with
          request := {
            method := r.method
            version := .http11
            url := url
            var := r.handled.var } }, .header) := by
  have hwords : (r.line.splitOn ' ').filter (· ≠ []) =
      [r.method.name, r.url, "HTTP/1.1".toList] := by
    refine words_line ?_ (hr.not_mem_url (Or.inl rfl)) (by decide) ?_ ?_ (by decide)
    · cases r.method <;> decide
    · cases r.method <;> decide
    · exact List.append_ne_nil_of_left_ne_nil (encoded_ne_nil hr.target_ne) _
  have hversion : findIdx httpVersions "HTTP/1.1".toList = some .http11 := rfl
  have hpath : uhUrldecode 4095 (encoded r.target) = .text r.target := by
    rw [uhUrldecode_encoded fun c hc => (hr.target c hc).1, if_pos hr.target_le]
  have hzero : r.target.takeWhile (· ≠ '\x00') = r.target :=
    List.takeWhile_eq_self_iff.mpr fun c hc => decide_eq_true (hr.target c hc).2
  have hvar : (if ['&'].intercalate (r.query.map pairText) = [] then fun _ => none
      else parseVar (fun _ => none) (['&'].intercalate (r.query.map pairText))) =
      r.handled.var := by
    rw [Sent.handled]
    split_ifs with hnil
    · rw [intercalate_eq_nil.mp hnil]
      rfl
    · exact parseVar_intercalate (mt intercalate_eq_nil.mpr hnil) hr.query_ne
        (fun x hx => (hr.query x hx).2.2) _
  refine ⟨kvlistSet (if ['&'].intercalate (r.query.map pairText) = []
      then kvlistSet (fun _ => none) "url".toList r.url
      else kvlistSet (kvlistSet (fun _ => none) "url".toList r.url) "query".toList
        (['&'].intercalate (r.query.map pairText))) "path".toList r.target, ?_, ?_⟩
  · rw [kvlistGet, kvlistSet, Function.update_self]
  · rw [Http.clientParseRequest, hwords]
    dsimp only
    rw [findIdx_name, hversion]
    dsimp only
    rw [r.url_split.1, r.url_split.2, hpath]
    dsimp only
    rw [hzero, ← hvar]
    rfl

/-! ### The headers -/

/-- The client when headers have been read. -/
def HttpClient.headed (cl : HttpClient) (body : Text) (headers : List (Text × Text)) :
    HttpClient :=
  { cl with
    request := { cl.request with
      header := headers.foldl (fun kv x => kvlistSet kv (x.1.map Char.toLower) x.2)
        cl.request.header
      contentLength :=
        if ∃ x ∈ headers, IsContentLength x then body.length else cl.request.contentLength } }

theorem HttpClient.headed_cons (cl : HttpClient) (body : Text) (x : Text × Text)
    (headers : List (Text × Text)) :
    cl.headed body (x :: headers) = (cl.headed body [x]).headed body headers := by
  have hlen : (if ∃ y ∈ x :: headers, IsContentLength y then (body.length : ℤ)
      else cl.request.contentLength) =
      if ∃ y ∈ headers, IsContentLength y then (body.length : ℤ)
      else if ∃ y ∈ [x], IsContentLength y then (body.length : ℤ)
      else cl.request.contentLength := by
    simp only [List.exists_mem_cons_iff, List.not_mem_nil, false_and, exists_false, or_false]
    split_ifs <;> simp_all
  rw [headed, hlen]
  rfl

theorem clean_headerLine {x : Text × Text} (hx : Clean (x.1 ++ x.2)) : Clean (headerLine x) := by
  simp only [Clean, List.mem_append, not_or] at hx
  simp [Clean, headerLine, hx.1, hx.2]

/-- A header is split where it has been put together. -/
theorem HeaderOk.uhSplitHeader {body : Text} {x : Text × Text} (hx : HeaderOk body x) :
    Http.uhSplitHeader (headerLine x) = some x := by
  have hval : (' ' :: x.2).dropWhile isSpace = x.2 := by
    rw [List.dropWhile_cons_of_pos rfl]
    cases hx2 : x.2 with
    | nil => rfl
    | cons c v =>
      have hc := hx.value c (by rw [hx2]; rfl)
      rw [List.dropWhile_cons_of_neg (by simp [hc])]
  rw [Http.uhSplitHeader, headerLine, Fields.after_append_cons hx.name,
    Fields.takeWhile_append_cons hx.name, Option.map_some, hval]

/-- A header is stored, and the length of the body is read. -/
theorem HeaderOk.clientParseHeader {body : Text} {x : Text × Text} (hx : HeaderOk body x)
    (hbody : body.length ≤ 4096) (h : Handler) {cl : HttpClient} (hcl : cl.state = .header) :
    Http.clientParseHeader h cl (headerLine x) = .ok (cl.headed body [x]) := by
  have hne : headerLine x ≠ [] := by simp [headerLine]
  have hone : (∃ y ∈ [x], IsContentLength y) ↔ IsContentLength x := by simp
  have htake : Http.clientParseHeader h cl (headerLine x) =
      .ok (cl.takeHeader (x.1.map Char.toLower) x.2) := by
    rw [Http.clientParseHeader, if_neg hne, hx.uhSplitHeader]
  rw [htake, HttpClient.takeHeader, HttpClient.headed]
  by_cases hlength : IsContentLength x
  · have hname : x.1.map Char.toLower = "content-length".toList := hlength
    have hread : strtoul x.2 = (body.length, []) := by
      have hdigits := @strtoul_toDigits_append body.length (by omega) [] fun c hc =>
        absurd hc (by simp)
      rwa [List.append_nil, ← hx.contentLength hlength] at hdigits
    have hmod : ((body.length : ℕ) : ℤ).bmod (2 ^ 32) = body.length :=
      Int.bmod_eq_of_le (by omega) (by omega)
    rw [if_pos hname, hread, if_pos (hone.mpr hlength)]
    dsimp only
    rw [hmod, if_neg (by simp), HttpClient.storeHeader, ← hcl]
    rfl
  · have hname : x.1.map Char.toLower ≠ "content-length".toList := hlength
    rw [if_neg hname, if_neg fun hc => hx.transferEncoding hc.1 hc.2,
      if_neg fun hc => hx.connection hc.1 hc.2, if_neg (mt hone.mp hlength),
      HttpClient.storeHeader, ← hcl]
    rfl

/-- The headers are read, and then what is behind them. -/
theorem takes_headersText {h : Handler} {body : Text} (hbody : body.length ≤ 4096)
    {final : HttpClient} {headers : List (Text × Text)} (hheaders : ∀ x ∈ headers, HeaderOk body x)
    {cl : HttpClient} (hcl : cl.state = .header)
    (hend : Takes h (cl.headed body headers) ([] ++ (crlf ++ body)) final) :
    Takes h cl (headersText headers body) final := by
  induction headers generalizing cl with
  | nil => exact hend
  | cons x headers ih =>
    rw [List.forall_mem_cons] at hheaders
    rw [HttpClient.headed_cons] at hend
    exact .header hcl (clean_headerLine hheaders.1.clean)
      (hheaders.1.clientParseHeader hbody h hcl) hcl (ih hheaders.2 hcl hend)

/-! ### The answer -/

theorem serve_of_done {h : Handler} {cl : HttpClient} {seen : Handled} {log : List Reply}
    (hdone : h seen = .done) (hseen : cl.handled = seen) (hclose : cl.connectionClose = false)
    (hlog : cl.log = log) : cl.serve h = idle (log ++ [.handled seen]) := by
  rw [HttpClient.serve, hseen, hdone, hlog]
  dsimp only
  rw [HttpClient.requestDone, if_neg (by simp [hclose]), idle, hclose]

/-- The client when the line and the headers of a request have been read. -/
structure Sent.Headed (r : Sent) (log : List Reply) (cl : HttpClient) : Prop where
  state : cl.state = .header
  log_eq : cl.log = log
  connectionClose : cl.connectionClose = false
  dispatch : cl.dispatch = {}
  handled : cl.handled = { r.handled with body := [] }
  method : cl.request.method = r.method
  path : kvlistGet cl.request.url "path".toList = some r.target
  contentLength : r.method = .post → cl.request.contentLength = r.body.length

theorem Sent.Ok.length_body (hr : r.Ok) : r.body.length ≤ 4096 := by
  have hb := hr.body
  split_ifs at hb
  · exact hb.2.1
  · simp [hb]

theorem Sent.Ok.clean_line (hr : r.Ok) : Clean r.line := by
  have hreturn := hr.not_mem_url (c := '\r') (Or.inr (Or.inl rfl))
  have hzero := hr.not_mem_url (c := '\x00') (Or.inr (Or.inr rfl))
  rw [Sent.line, Clean]
  cases r.method <;> simp [Method.name, hreturn, hzero]

/-- The line and the headers are read, and then what is behind them. -/
theorem Sent.Ok.takes_text (hr : r.Ok) {h : Handler} {log : List Reply} {final : HttpClient}
    (hend : ∀ cl, r.Headed log cl → Takes h cl ([] ++ (crlf ++ r.body)) final) :
    Takes h (idle log) r.text final := by
  obtain ⟨url, hpath, hparse⟩ := hr.clientParseRequest log
  have hne : r.line ≠ [] := by simp [Sent.line]
  refine .line rfl hr.clean_line hne hparse (takes_headersText hr.length_body hr.headers rfl ?_)
  refine hend _ ⟨rfl, rfl, rfl, rfl, ?_, rfl, hpath, fun hpost => ?_⟩
  · rw [HttpClient.handled, Sent.handled]
    dsimp only [HttpClient.headed]
    rw [hpath]
    rfl
  · have hb := hr.body
    rw [if_pos hpost] at hb
    rw [HttpClient.headed, if_pos hb.2.2.2]

/-- Without a body the request is answered at the end of its headers. -/
theorem Sent.Ok.takes_of_ne_post (hr : r.Ok) {h : Handler} (hdone : h r.handled = .done)
    {log : List Reply} (hpost : r.method ≠ .post) :
    Takes h (idle log) r.text (idle (log ++ [.handled r.handled])) := by
  have hnil : r.body = [] := by
    have hb := hr.body
    rwa [if_neg hpost] at hb
  refine hr.takes_text fun cl hcl => ?_
  have hhandled : ({ cl with state := .data } : HttpClient).handled = r.handled := by
    have heq := hcl.handled
    rw [← hnil] at heq
    exact heq
  have hserve : ({ cl with state := .data } : HttpClient).serve h =
      idle (log ++ [.handled r.handled]) :=
    serve_of_done hdone hhandled hcl.connectionClose hcl.log_eq
  rw [hnil]
  refine .answered hcl.state ?_ (by simp [idle])
  rw [Http.clientParseHeader, if_pos rfl, uhHandleRequest, ← hserve, hcl.method]
  have hhead := hr.method
  cases hmethod : r.method with
  | post => exact absurd hmethod hpost
  | head => exact absurd hmethod hhead
  | get | put | delete => rfl

/-- A request with a body is answered when its last byte has been read. -/
theorem Sent.Ok.takes_of_post (hr : r.Ok) {h : Handler} (hdone : h r.handled = .done)
    {log : List Reply} (hpost : r.method = .post) :
    Takes h (idle log) r.text (idle (log ++ [.handled r.handled])) := by
  have hbody := hr.body
  rw [if_pos hpost] at hbody
  obtain ⟨hne, hle, hcgi, -⟩ := hbody
  refine hr.takes_text fun cl hcl => ?_
  let cl' : HttpClient := { cl with state := .data, dispatch := ⟨true, 0, [], 1024⟩ }
  have hhandled : (cl'.copied r.body).handled = r.handled := by
    have heq := hcl.handled
    rw [HttpClient.handled, Handled.mk.injEq] at heq
    rw [HttpClient.handled, HttpClient.copied]
    dsimp only [cl']
    rw [heq.1, heq.2.1, heq.2.2.1, heq.2.2.2.1]
    rfl
  have hserve : (cl'.copied r.body).serve h = idle (log ++ [.handled r.handled]) :=
    serve_of_done hdone hhandled hcl.connectionClose hcl.log_eq
  have hparse : Http.clientParseHeader h cl [] = .ok cl' := by
    rw [Http.clientParseHeader, if_pos rfl, uhHandleRequest, hcl.method, hpost]
    dsimp only
    rw [hcl.path, Option.any_some, hcgi, hcl.dispatch]
    rfl
  refine .body hcl.state hparse ⟨rfl, rfl, hcl.contentLength hpost, hne, le_rfl, ?_, ?_, ?_⟩
  · dsimp only [cl']
    omega
  · exact ⟨le_rfl, fun hlt => absurd hlt (by simp [cl'])⟩
  · exact hserve.symm

theorem Sent.Ok.takes (hr : r.Ok) {h : Handler} (hdone : h r.handled = .done) (log : List Reply) :
    Takes h (idle log) r.text (idle (log ++ [.handled r.handled])) := by
  by_cases hpost : r.method = .post
  · exact hr.takes_of_post hdone hpost
  · exact hr.takes_of_ne_post hdone hpost

/-! ### A connection -/

/-- Requests that are sent one after the other and answered by the handlers are understood as they
have been sent, whatever the pieces in which they arrive. -/
theorem requests_of_run {h : Handler} {rs : List Sent} {css : List (List Text)}
    (hrs : ∀ r ∈ rs, r.Ok ∧ h r.handled = .done)
    (hcss : List.Forall₂ (fun r chunks => chunks.flatten = r.text) rs css) :
    css.flatten.foldlM (feed h) (idle [], []) =
      .ok (idle (rs.map fun r => .handled r.handled), []) := by
  have hrun : ∀ log, css.flatten.foldlM (feed h) (idle log, []) =
      .ok (idle (log ++ rs.map fun r => .handled r.handled), []) := by
    induction hcss with
    | nil => simp [pure, Except.pure]
    | @cons r chunks rs css hchunks hcss ih =>
      intro log
      rw [List.forall_mem_cons] at hrs
      have htakes := hrs.1.1.takes hrs.1.2 log
      rw [← List.nil_append r.text, ← hchunks] at htakes
      have hlen : ([] ++ chunks.flatten).length < BUFFER_LEN := by
        rw [hchunks]
        exact hrs.1.1.length
      have hread := htakes.feed hlen htakes.ne_nil
      rw [List.flatten_cons, List.foldlM_append, hread]
      refine (ih hrs.2 _).trans ?_
      simp
  exact hrun []

end

/-- A GET with a variable, and a POST with a body; the second arrives in two pieces. -/
theorem requests_of_run_two :
    ∃ get post : Sent, get.method = .get ∧ post.method = .post ∧
      ([[get.text], [post.text.take 40, post.text.drop 40]].flatten).foldlM
          (feed fun _ => .done) (idle [], []) =
        .ok (idle [.handled get.handled, .handled post.handled], []) := by
  let get : Sent := ⟨.get, "/a b".toList, [("k".toList, "v=1".toList)], [], []⟩
  let post : Sent :=
    ⟨.post, "/x".toList, [], [("Content-Length".toList, "3".toList)], "abc".toList⟩
  have hget : get.Ok :=
    ⟨by decide, by decide, by simp [get, IsByte], by decide, by simp [get], by simp [get, Clean],
      by simp [get], by decide, by decide⟩
  have hheader : HeaderOk post.body ("Content-Length".toList, "3".toList) :=
    ⟨by simp [Clean], by simp, by simp [isSpace], fun _ => by decide, by decide, by decide⟩
  have hpost : post.Ok :=
    ⟨by decide, by decide, by simp [post, IsByte], by decide, by simp [post], by simp [post],
      List.forall_mem_singleton.mpr hheader, by decide, by decide⟩
  have hrs : ∀ r ∈ [get, post], r.Ok ∧ (fun _ : Handled => Answer.done) r.handled = .done := by
    simp [hget, hpost]
  refine ⟨get, post, rfl, rfl, requests_of_run hrs (.cons ?_ (.cons ?_ .nil))⟩
  · simp
  · simp

end M57Card.Http
