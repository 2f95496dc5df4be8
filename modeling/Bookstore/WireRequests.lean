import Bookstore.ApiRoutes
import Bookstore.ChunkedParsing
import Bookstore.ParserExceptions
import Bookstore.QueryStrings

/-!
What `do_request` is called with when a whole request has been read. The method and
the URL are those of the request line, the other fields those of the header lines,
and the body is what follows the blank line.
-/
namespace Bookstore.WireRequests

open HttpTypes RequestParser RequestParser.HttpConn LineReading ChunkedParsing

/-! ## Header lines -/

/-- The fields that header lines set, besides the content length. -/
structure Said where
  linger : Bool
  host : Bytes
deriving DecidableEq

def Said.after (said : Said) (line : Bytes) : Said :=
  let connection := headerVal (line ++ [0, 0]) (ascii "Connection:")
  let length := headerVal (line ++ [0, 0]) (ascii "Content-length:")
  let host := headerVal (line ++ [0, 0]) (ascii "Host:")
  if connection ≠ [] then { said with linger := sameNoCase connection (ascii "keep-alive") }
  else if length ≠ [] then said
  else if host ≠ [] then { said with host := host }
  else said

/-- The connection after a header line. -/
def afterLine (c : HttpConn) (line : Bytes) : HttpConn :=
  { passed c line with
    linger := (Said.after ⟨c.linger, c.host⟩ line).linger
    host := (Said.after ⟨c.linger, c.host⟩ line).host
    contentLength := lengthAfter c.contentLength line }

theorem parseHeaders_line {line : Bytes} (hline : HeaderLine line) (c : HttpConn) :
    c.parseHeaders (line ++ [0, 0]) = .ok (.noRequest, { c with
      linger := (Said.after ⟨c.linger, c.host⟩ line).linger
      host := (Said.after ⟨c.linger, c.host⟩ line).host
      contentLength := lengthAfter c.contentLength line }) := by
  have hempty : headerVal (line ++ [0, 0]) (ascii "Content-length:") = [] →
      lengthAfter c.contentLength line = c.contentLength := by
    intro hnone
    unfold lengthAfter
    rw [hnone]
    rfl
  unfold HttpConn.parseHeaders Said.after
  dsimp only
  rw [if_neg hline.named]
  by_cases hconnection : headerVal (line ++ [0, 0]) (ascii "Connection:") = []
  · by_cases hlength : headerVal (line ++ [0, 0]) (ascii "Content-length:") = []
    · by_cases hhost : headerVal (line ++ [0, 0]) (ascii "Host:") = []
      · simp only [hconnection, hlength, hhost, hempty, ne_eq, not_true_eq_false, if_false]
      · simp only [hconnection, hlength, hhost, hempty, ne_eq, not_true_eq_false, not_false_eq_true,
          if_true, if_false]
    · obtain ⟨n, hn⟩ := hline.number hlength
      have hafter : lengthAfter c.contentLength line = n := by
        unfold lengthAfter
        rw [hn]
      simp only [hconnection, hlength, hn, hafter, ne_eq, not_true_eq_false, not_false_eq_true,
        if_true, if_false]
      rfl
  · have hlength := hempty (contentLength_of_connection hconnection)
    simp only [hconnection, hlength, ne_eq, not_false_eq_true, if_true]

section Lines

variable {env : Env} {c : HttpConn}

theorem handleLine_afterLine (hall : AllHandled c) (hstate : c.checkState = .header) {line : Bytes}
    (hline : HeaderLine line) : (endedBy c line).handleLine env = .inl (afterLine c line, .ok) := by
  have hparse := parseHeaders_line hline (passed c line)
  unfold HttpConn.handleLine
  dsimp only
  rw [getLine_endedBy hall]
  unfold passed at hparse
  split
  · rename_i hother
    cases hother.symm.trans hstate
  · rw [hparse]
    rfl
  · rename_i hother
    cases hother.symm.trans hstate

/-- Only the blank line of the head is left. -/
theorem processRead_headers {headers : List Bytes} (hheader : ∀ line ∈ headers, HeaderLine line)
    (hall : AllHandled c) (hstate : c.checkState = .header) (rest : Bytes) :
    processRead env (c.receive (headerBytes headers ++ rest)) =
      processRead env ((headers.foldl afterLine c).receive (13 :: 10 :: rest)) := by
  induction headers generalizing c with
  | nil => rfl
  | cons line headers ih =>
    obtain ⟨hline, hheaders⟩ := List.forall_mem_cons.mp hheader
    have hcontent : c.checkState ≠ .content := by
      rw [hstate]
      exact nofun
    have hfirst := processRead_line hall hcontent hline.plain
      (@handleLine_afterLine env c hall hstate line hline) (headerBytes headers ++ rest)
    have hrest := @ih (afterLine c line) hheaders ⟨rfl, rfl⟩ hstate
    rw [headerBytes, List.append_assoc]
    exact hfirst.trans hrest

end Lines

/-- The fields of the connection after header lines. -/
structure Carried (c : HttpConn) (headers : List Bytes) (d : HttpConn) : Prop where
  method : d.method = c.method
  url : d.url = c.url
  said : ⟨d.linger, d.host⟩ = headers.foldl Said.after ⟨c.linger, c.host⟩
  length : d.contentLength = headers.foldl lengthAfter c.contentLength
  state : d.checkState = c.checkState
  realFile : d.realFile = c.realFile
  requestBody : d.requestBody = c.requestBody
  handled : AllHandled c → AllHandled d

theorem carried_headers (headers : List Bytes) (c : HttpConn) :
    Carried c headers (headers.foldl afterLine c) := by
  induction headers generalizing c with
  | nil => exact ⟨rfl, rfl, rfl, rfl, rfl, rfl, rfl, id⟩
  | cons line headers ih =>
    have h := ih (afterLine c line)
    exact ⟨h.method, h.url, h.said, h.length, h.state, h.realFile, h.requestBody,
      fun _ => h.handled ⟨rfl, rfl⟩⟩

/-! ## Calls of the handler -/

/-- Without a gateway's answer nothing differs but the text of the response. -/
def answered (dispatch : HttpRequest → Option HttpResponse) : Outcome → Outcome
  | .ok (.apiResponse, d) => .ok (.apiResponse, { d with
      apiResponse := ((dispatch d.apiRequest).getD .routeNotFound).toHttpString d.linger })
  | outcome => outcome

/-- The gateway finds no route. -/
def asking (env : Env) : Env := { env with gateway := some fun _ => none }

section Handler

variable {env : Env} {dispatch : HttpRequest → Option HttpResponse}

theorem doRequest_answered (hgateway : env.gateway = some dispatch) (c : HttpConn) :
    .ok (c.doRequest env) = answered dispatch (.ok (c.doRequest (asking env))) := by
  have hasking : (asking env).gateway = some fun _ => none := rfl
  by_cases hapi : (ascii "/api/").isPrefixOf c.url = true
  · simp only [HttpConn.doRequest, hapi, if_true, hgateway, hasking]
    rfl
  · have hsame : c.doRequest (asking env) = c.doRequest env := by
      unfold HttpConn.doRequest
      rw [if_neg hapi, if_neg hapi]
      rfl
    have hcode : (c.doRequest env).1 ≠ .apiResponse := by
      unfold HttpConn.doRequest
      rw [if_neg hapi]
      dsimp only
      repeat' split
      all_goals simp
    rw [hsame]
    rcases hrequest : c.doRequest env with ⟨ret, d⟩
    rw [hrequest] at hcode
    cases ret with
    | apiResponse => exact absurd rfl hcode
    | _ => rfl

/-- A line is handled alike, but for the answer. -/
theorem handleLine_answered (hgateway : env.gateway = some dispatch) (c : HttpConn) :
    c.handleLine env = (c.handleLine (asking env)).map id (answered dispatch) := by
  unfold HttpConn.handleLine
  dsimp only
  split
  · split <;> rfl
  · split
    · rfl
    · split
      · exact congrArg Sum.inr (doRequest_answered hgateway _)
      · rfl
  · split
    · rfl
    · split
      · exact congrArg Sum.inr (doRequest_answered hgateway _)
      · rfl

theorem turn_answered (hgateway : env.gateway = some dispatch) (s : HttpConn × LineStatus) :
    turn env s = (turn (asking env) s).map id (answered dispatch) := by
  by_cases hhandles : ∃ d, Handles s d
  · obtain ⟨d, hd⟩ := hhandles
    rw [turn_of_handles hd, turn_of_handles hd, handleLine_answered hgateway]
  · have hnone := not_exists.mp hhandles
    obtain ⟨c, lineSt⟩ := s
    rw [turn_of_not_handles hnone, turn_of_not_handles hnone]
    rfl

/-- The handler is called once, behind everything that is parsed. -/
theorem processRead_answered (hgateway : env.gateway = some dispatch) (c : HttpConn) :
    processRead env c = answered dispatch (processRead (asking env) c) := by
  obtain ⟨t, hpasses, hlast⟩ := (readLoop (asking env)).exists_last (c, .ok)
  have hpasses' : (readLoop env).Passes (c, .ok) t := by
    refine Relation.ReflTransGen.mono (fun s u hbody => ?_) _ _ hpasses
    have hturn : turn (asking env) s = .inl u := hbody
    show turn env s = .inl u
    rw [turn_answered hgateway, hturn]
    rfl
  have hlast' : turn (asking env) t = .inr (processRead (asking env) c) := hlast
  have hturn := turn_answered hgateway t
  rw [hlast'] at hturn
  unfold processRead at hturn ⊢
  rw [Loops.Loop.run_of_passes hpasses']
  exact Loops.Loop.run_of_leaves hturn

/-- A call that asks for more has not changed how much there is. -/
theorem length_of_waits {c d : HttpConn} (hread : processRead env c = .ok (.noRequest, d)) :
    d.readBuf.length = c.readBuf.length := by
  obtain ⟨t, lineSt, hpasses, -, rfl⟩ := ParserExceptions.exists_stop hread
  have hsame : t.readBuf.length = c.readBuf.length := by
    refine hpasses.invariant (P := fun s => s.1.readBuf.length = c.readBuf.length) ?_ rfl
    intro s u hs hbody
    have hturn : turn env s = .inl u := hbody
    obtain ⟨d, hd⟩ : ∃ d, Handles s d := by
      by_contra hnone
      rw [turn_of_not_handles (not_exists.mp hnone)] at hturn
      cases hturn
    rw [turn_of_handles hd] at hturn
    rw [(handleLine_goes_on hturn).1, ← hs]
    unfold Handles at hd
    split at hd
    · rw [hd]
    · exact (parseLine_ok hd).1
  exact hsame

end Handler

/-! ## Requests -/

/-- What an accepted request line sets, on any connection. -/
theorem parseRequestLine_reset {text : Bytes}
    (h : (HttpConn.reset.parseRequestLine text).1 = .noRequest) (c : HttpConn) :
    c.parseRequestLine text = (.noRequest, { c with
      method := (HttpConn.reset.parseRequestLine text).2.method
      url := (HttpConn.reset.parseRequestLine text).2.url
      checkState := .header }) := by
  unfold HttpConn.parseRequestLine at h ⊢
  dsimp only at h ⊢
  split at h
  · cases h
  · rename_i hrest
    split at h
    · cases h
    · rename_i method hmethod
      split at h
      · cases h
      · rename_i url hurl
        simp only [hrest, if_false]

end Bookstore.WireRequests

namespace Bookstore.ChunkedParsing.Request

open HttpTypes RequestParser RequestParser.HttpConn LineReading WireRequests

variable (r : Request)

/-- The request line, read by itself. -/
def parsed : HttpConn := (HttpConn.reset.parseRequestLine (r.requestLine ++ [0, 0])).2

def url : Bytes := r.parsed.url

def said : Said := r.headers.foldl Said.after ⟨false, []⟩

def keepAlive : Bool := r.said.linger

/-- The request that the gateway is asked. -/
def asked : HttpRequest where
  method := toApiMethod r.parsed.method
  path := (UrlParams.splitPathAndQuery r.url).1
  body := r.body
  headers := if r.said.host = [] then [] else [(ascii "Host", r.said.host)]
  queryParams := (UrlParams.splitPathAndQuery r.url).2

/-- The connection behind the request line. -/
def lineRead : HttpConn :=
  { passed .reset r.requestLine with
    method := r.parsed.method
    url := r.url
    checkState := .header }

/-- Behind the header lines. -/
def headersRead : HttpConn := r.headers.foldl afterLine r.lineRead

/-- Behind the blank line. -/
def headRead : HttpConn := { passed r.headersRead [] with checkState := .content }

/-- The connection that `do_request` is called on. -/
def wholeRead : HttpConn :=
  if r.body = [] then passed r.headersRead []
  else { r.headRead.receive r.body with
    lineStart := r.headRead.checkedIdx
    requestBody := r.body }

variable {r} {env : Env}

theorem carried_headersRead : Carried r.lineRead r.headers r.headersRead :=
  carried_headers r.headers r.lineRead

theorem handled_headersRead : AllHandled r.headersRead :=
  r.carried_headersRead.handled ⟨rfl, rfl⟩

theorem handleLine_lineRead : (endedBy .reset r.requestLine).handleLine env =
    .inl (r.lineRead, .ok) := by
  have hparse := parseRequestLine_reset r.accepted (passed .reset r.requestLine)
  unfold HttpConn.handleLine
  dsimp only
  rw [getLine_endedBy allHandled_reset]
  unfold passed at hparse
  split
  · rw [hparse]
    rfl
  · rename_i hother
    cases hother
  · rename_i hother
    cases hother

theorem processRead_head (rest : Bytes) :
    processRead env (HttpConn.reset.receive (r.head ++ rest)) =
      processRead env (r.headersRead.receive (13 :: 10 :: rest)) := by
  have hline := processRead_line allHandled_reset reset_not_content r.plain
    (@handleLine_lineRead r env) (headerBytes r.headers ++ rest)
  have hheaders := @processRead_headers env r.lineRead r.headers r.header ⟨rfl, rfl⟩ rfl rest
  rw [Written.head, headBytes, List.append_assoc]
  exact hline.trans hheaders

theorem length_headersRead : r.headersRead.contentLength.toInt = r.body.length := by
  rw [carried_headersRead.length]
  exact r.length

theorem checkState_headersRead : r.headersRead.checkState = .header := carried_headersRead.state

theorem readBuf_headersRead : r.headersRead.readBuf.length + 2 = r.head.length := by
  have hsame : ∀ (headers : List Bytes) (c : HttpConn),
      (headers.foldl afterLine c).readBuf.length + 2 =
        c.readBuf.length + (headerBytes headers).length := by
    intro headers
    induction headers with
    | nil => exact fun _ => rfl
    | cons line headers ih =>
      intro c
      have hline : (afterLine c line).readBuf.length = c.readBuf.length + line.length + 2 := by
        show (c.readBuf ++ line ++ [0, 0]).length = _
        simp only [List.length_append, List.length_cons, List.length_nil]
      rw [List.foldl_cons, ih, hline, headerBytes]
      simp only [List.length_append, List.length_cons]
      omega
  have hfirst : r.lineRead.readBuf.length = r.requestLine.length + 2 := by
    show (([] : Bytes) ++ r.requestLine ++ [0, 0]).length = _
    simp only [List.length_append, List.length_cons, List.length_nil]
    omega
  rw [headersRead, hsame, hfirst, Written.head, headBytes]
  simp only [List.length_append, List.length_cons]
  omega

theorem atBody_headRead : AtBody r r.headRead where
  all := ⟨rfl, rfl⟩
  state := rfl
  length := length_headersRead
  buf := by
    rw [← readBuf_headersRead]
    show (r.headersRead.readBuf ++ [] ++ [0, 0]).length = _
    simp only [List.length_append, List.length_cons, List.length_nil, Nat.add_zero]
  last := by
    show (r.headersRead.readBuf ++ [] ++ [0, 0])[_]? = _
    rw [List.append_nil]
    simp [headRead, passed, endedBy]

theorem processRead_blankLine (hbody : r.body ≠ []) (rest : Bytes) :
    processRead env (r.headersRead.receive (13 :: 10 :: rest)) =
      processRead env (r.headRead.receive rest) := by
  have hsome : r.headersRead.contentLength ≠ 0 := by
    intro hzero
    have hlength := r.length_headersRead
    rw [hzero, Int64.toInt_zero] at hlength
    exact hbody (List.eq_nil_of_length_eq_zero (by omega))
  have hcontent : r.headersRead.checkState ≠ .content := by
    rw [checkState_headersRead]
    exact nofun
  have hhandle := @handleLine_blank env r.headersRead handled_headersRead checkState_headersRead
  rw [if_pos hsome] at hhandle
  exact processRead_line handled_headersRead hcontent plainLine_nil hhandle rest

/-- The whole body is there: `do_request` is called. -/
theorem processRead_body (hbody : r.body ≠ []) : processRead env (r.headRead.receive r.body) =
    .ok ((r.wholeRead).doRequest env) := by
  have h := r.atBody_headRead
  have hin := h.inBuffer (Nat.le_refl _)
  have hidx : (r.headRead.receive r.body).checkedIdx = r.headRead.readBuf.length := h.all.checked
  have hlength : (r.headRead.receive r.body).contentLength.toInt = r.body.length := h.length
  have hsize : (r.headRead.receive r.body).readBuf.length =
      r.headRead.readBuf.length + r.body.length := List.length_append
  have hpos := List.length_pos_iff.mpr hbody
  have hparse := @parseContent_complete
    { r.headRead.receive r.body with lineStart := (r.headRead.receive r.body).checkedIdx }
    ⟨hin.checked, hin.size⟩
    (by
      change 0 < (r.headRead.receive r.body).contentLength.toInt
      omega)
    (by
      change ((r.headRead.receive r.body).checkedIdx : ℤ) +
        (r.headRead.receive r.body).contentLength.toInt ≤ (r.headRead.receive r.body).readBuf.length
      omega)
  have htaken : ((r.headRead.receive r.body).readBuf.drop
      (r.headRead.receive r.body).checkedIdx).take
        (r.headRead.receive r.body).contentLength.toInt.toNat = r.body := by
    rw [hidx, hlength, Int.toNat_natCast]
    show ((r.headRead.readBuf ++ r.body).drop _).take _ = _
    rw [List.drop_left, List.take_length]
  have hhandles : Handles (r.headRead.receive r.body, .ok) (r.headRead.receive r.body) := by
    unfold Handles
    rw [if_pos ⟨h.state, rfl⟩]
  have hhandle : (r.headRead.receive r.body).handleLine env =
      .inr (.ok (r.wholeRead.doRequest env)) := by
    unfold HttpConn.handleLine
    dsimp only
    split
    · rename_i hother
      cases hother.symm.trans h.state
    · rename_i hother
      cases hother.symm.trans h.state
    · rw [hparse]
      dsimp only
      rw [htaken, if_pos rfl, wholeRead, if_neg hbody]
      rfl
  exact Loops.Loop.run_of_leaves ((turn_of_handles hhandles).trans hhandle)

/-- The whole request is answered by one call of `do_request`. -/
theorem processRead_whole (env : Env) (r : Request) :
    processRead env (HttpConn.reset.receive r.bytes) = .ok (r.wholeRead.doRequest env) := by
  rw [Written.bytes, processRead_head]
  by_cases hbody : r.body = []
  · have hzero : r.headersRead.contentLength = 0 := by
      apply Int64.toInt_inj.mp
      rw [length_headersRead, hbody]
      rfl
    have hlast := @processRead_blank env r.headersRead handled_headersRead checkState_headersRead
      hzero
    rw [hbody, hlast, wholeRead, if_pos hbody]
  · rw [processRead_blankLine hbody, processRead_body hbody]

/-- What `do_request` is called with. -/
structure Reads (r : Request) (c : HttpConn) : Prop where
  url : c.url = r.url
  linger : c.linger = r.keepAlive
  request : c.apiRequest = r.asked
  realFile : c.realFile = []

theorem reads_wholeRead (r : Request) : Reads r r.wholeRead := by
  have h := r.carried_headersRead
  have hbody : r.headersRead.requestBody = [] := h.requestBody
  have hsaid : (⟨r.headersRead.linger, r.headersRead.host⟩ : Said) = r.said := h.said
  have hurl : r.headersRead.url = r.url := h.url
  have hmethod : r.headersRead.method = r.parsed.method := h.method
  have hlinger : r.headersRead.linger = r.keepAlive := congrArg Said.linger hsaid
  have hhost : r.headersRead.host = r.said.host := congrArg Said.host hsaid
  have hfields : r.wholeRead.method = r.headersRead.method ∧ r.wholeRead.url = r.headersRead.url ∧
      r.wholeRead.linger = r.headersRead.linger ∧ r.wholeRead.host = r.headersRead.host ∧
      r.wholeRead.realFile = r.headersRead.realFile ∧ r.wholeRead.requestBody = r.body := by
    unfold wholeRead
    split
    · rename_i hnil
      exact ⟨rfl, rfl, rfl, rfl, rfl, hbody.trans hnil.symm⟩
    · exact ⟨rfl, rfl, rfl, rfl, rfl, rfl⟩
  obtain ⟨hm, hu, hl, hh, hf, hb⟩ := hfields
  refine ⟨hu.trans hurl, hl.trans hlinger, ?_, hf.trans h.realFile⟩
  unfold HttpConn.apiRequest asked
  rw [hm, hu, hh, hb, hmethod, hurl, hhost]

end Bookstore.ChunkedParsing.Request

namespace Bookstore.WireRequests

open HttpTypes RequestParser RequestParser.HttpConn LineReading ChunkedParsing ApiRoutes
open QueryStrings UrlParams

/-! ## Messages -/

/-- The URL of a path and of encoded pairs. -/
def urlText (path : Bytes) (texts : List (Bytes × Bytes)) : Bytes :=
  if texts = [] then path else path ++ 63 :: queryText texts

/-- A request as a client writes it: a path, pairs in their encoded texts, header lines
and a body. -/
structure Message where
  method : Method
  path : Bytes
  pairs : List (Bytes × Bytes)
  texts : List (Bytes × Bytes)
  headers : List Bytes
  body : Bytes
  target : Target path
  encoded : List.Forall₂ EncodesPair pairs texts
  keys : (pairs.map Prod.fst).Nodup
  header : ∀ line ∈ headers, HeaderLine line
  length : (headers.foldl lengthAfter 0).toInt = body.length
  fits : (headBytes (requestLine (toApiMethod method) (urlText path texts)) headers).length +
    body.length ≤ kReadBufSize

/-- Nothing of an encoded text ends the URL. -/
theorem encodes_address {s text : Bytes} (h : Encodes s text) :
    ∀ b ∈ text, isBlank b = false ∧ isEol b = false := by
  have hplain : ∀ c, Unreserved c → isBlank c = false ∧ isEol c = false :=
    forall_byte (p := fun c => Unreserved c → isBlank c = false ∧ isEol c = false) (by decide +kernel)
  have hdigit : ∀ n, n < 16 → (isBlank (upperHex n) = false ∧ isEol (upperHex n) = false) ∧
      isBlank (lowerHex n) = false ∧ isEol (lowerHex n) = false :=
    forall_byte (p := fun n => n < 16 →
      (isBlank (upperHex n) = false ∧ isEol (upperHex n) = false) ∧
        isBlank (lowerHex n) = false ∧ isEol (lowerHex n) = false) (by decide +kernel)
  have hhex : ∀ {n digit}, n < 16 → HexDigit n digit →
      isBlank digit = false ∧ isEol digit = false := by
    intro n digit hn hdig
    rcases hdig with rfl | rfl
    · exact (hdigit n hn).1
    · exact (hdigit n hn).2
  induction h with
  | nil => exact fun b hb => absurd hb List.not_mem_nil
  | plain hc _ ih => exact List.forall_mem_cons.mpr ⟨hplain _ hc, ih⟩
  | @escaped c high low s text _ hhigh hlow _ ih =>
    exact List.forall_mem_cons.mpr ⟨by decide, List.forall_mem_cons.mpr
      ⟨hhex (digits_lt c).1 hhigh, List.forall_mem_cons.mpr ⟨hhex (digits_lt c).2 hlow, ih⟩⟩⟩

theorem mem_intercalate {sep b : UInt8} {parts : List Bytes}
    (h : b ∈ List.intercalate [sep] parts) : b = sep ∨ ∃ part ∈ parts, b ∈ part := by
  induction parts with
  | nil => exact absurd h List.not_mem_nil
  | cons part parts ih =>
    cases parts with
    | nil =>
      rw [List.intercalate_singleton] at h
      exact .inr ⟨part, List.mem_cons_self, h⟩
    | cons next parts =>
      rw [List.intercalate_cons_cons, List.append_assoc] at h
      rcases List.mem_append.mp h with hfirst | hrest
      · exact .inr ⟨part, List.mem_cons_self, hfirst⟩
      · rcases List.mem_cons.mp hrest with rfl | hlater
        · exact .inl rfl
        · rcases ih hlater with hsep | ⟨other, hother, hmem⟩
          · exact .inl hsep
          · exact .inr ⟨other, List.mem_cons_of_mem _ hother, hmem⟩

theorem queryText_address {pairs texts : List (Bytes × Bytes)}
    (h : List.Forall₂ EncodesPair pairs texts) :
    ∀ b ∈ queryText texts, isBlank b = false ∧ isEol b = false := by
  have htoken : ∀ t ∈ texts.map token, ∀ b ∈ t, isBlank b = false ∧ isEol b = false := by
    induction h with
    | nil => exact fun t ht => absurd ht List.not_mem_nil
    | @cons pair text pairs texts hfirst _ ih =>
      refine List.forall_mem_cons.mpr ⟨fun b hb => ?_, ih⟩
      rcases List.mem_append.mp hb with hkey | hrest
      · exact encodes_address hfirst.1 b hkey
      · rcases List.mem_cons.mp hrest with rfl | hvalue
        · decide
        · exact encodes_address hfirst.2 b hvalue
  intro b hb
  rcases mem_intercalate hb with rfl | ⟨t, ht, hmem⟩
  · decide
  · exact htoken t ht b hmem

namespace Message

variable (m : Message)

def url : Bytes := urlText m.path m.texts

theorem url_address : Address m.url := by
  by_cases hnone : m.texts = []
  · rw [url, urlText, if_pos hnone]
    exact m.target.address
  · have hquery := queryText_address m.encoded
    have hbytes : ∀ b ∈ m.path ++ 63 :: queryText m.texts, isBlank b = false ∧ isEol b = false := by
      intro b hb
      rcases List.mem_append.mp hb with hpath | hrest
      · exact ⟨m.target.blank b hpath, m.target.eol b hpath⟩
      · rcases List.mem_cons.mp hrest with rfl | hlater
        · decide
        · exact hquery b hlater
    obtain ⟨rest, hpath⟩ := List.head?_eq_some_iff.mp m.target.slash
    rw [url, urlText, if_neg hnone]
    refine ⟨?_, ?_, fun b hb => (hbytes b hb).1, fun b hb => (hbytes b hb).2⟩
    · rw [hpath]
      rfl
    · rw [hpath]
      simp

theorem parseMethod_methodText (method : Method) :
    parseMethod (methodText (toApiMethod method)) = some method := by
  cases method <;> decide

theorem parseRequestLine_message (c : HttpConn) :
    c.parseRequestLine (requestLine (toApiMethod m.method) m.url ++ [0, 0]) =
      (.noRequest, { c with
        method := m.method
        url := m.url
        checkState := .header }) :=
  parseRequestLine_known m.url_address (parseMethod_methodText m.method) c

/-- The bytes that go over the wire. -/
def request : Request where
  requestLine := requestLine (toApiMethod m.method) m.url
  headers := m.headers
  body := m.body
  plain := requestLine_plain m.url_address (toApiMethod m.method)
  accepted := congrArg Prod.fst (m.parseRequestLine_message .reset)
  header := m.header
  length := m.length
  fits := m.fits

theorem url_request : m.request.url = m.url := by
  show (HttpConn.reset.parseRequestLine _).2.url = m.url
  exact congrArg (fun r => r.2.url) (m.parseRequestLine_message .reset)

theorem splitPathAndQuery_url : splitPathAndQuery m.url = (m.path, m.pairs) := by
  by_cases hnone : m.texts = []
  · have hpairs : m.pairs = [] := by
      have hencoded := m.encoded
      rw [hnone] at hencoded
      cases hpairs : m.pairs with
      | nil => rfl
      | cons pair pairs =>
        rw [hpairs] at hencoded
        cases hencoded
    rw [url, urlText, if_pos hnone, splitPathAndQuery, if_neg m.target.query, hpairs]
  · have hmark : 63 ∈ m.path ++ 63 :: queryText m.texts :=
      List.mem_append_right _ List.mem_cons_self
    rw [url, urlText, if_neg hnone, splitPathAndQuery, if_pos hmark, takeWhile_stop m.target.query,
      dropWhile_stop m.target.query, parseQueryString_queryText m.encoded m.keys]

/-- The gateway is asked what the client has written. -/
theorem asked_request : m.request.asked =
    { method := toApiMethod m.method
      path := m.path
      body := m.body
      headers := if m.request.said.host = [] then [] else [(ascii "Host", m.request.said.host)]
      queryParams := m.pairs } := by
  have hmethod : m.request.parsed.method = m.method :=
    congrArg (fun r => r.2.method) (m.parseRequestLine_message .reset)
  unfold Request.asked
  rw [m.url_request, m.splitPathAndQuery_url, hmethod]
  rfl

/-- The message in any chunks that the parser puts together again asks the gateway for
exactly what the client has written, and is answered with what the gateway says. -/
theorem message_answered (hapi : (ascii "/api/").isPrefixOf m.path = true)
    {dispatch : HttpRequest → Option HttpResponse} (hgateway : env.gateway = some dispatch)
    {chunks : List Bytes} (hjoin : chunks.flatten = m.request.bytes)
    (hlast : chunks.getLast? ≠ some [])
    (hkept : ∀ pre part, pre <+: chunks → pre.flatten = m.request.head ++ part →
      part = [] ∨ part = m.body ∨ KeepsIndex part) :
    ∃ c, feed env .reset chunks =
        .ok (List.replicate (chunks.length - 1) .noRequest ++ [.apiResponse], c) ∧
      c.apiResponse = ((dispatch {
        method := toApiMethod m.method
        path := m.path
        body := m.body
        headers := if m.request.said.host = [] then [] else [(ascii "Host", m.request.said.host)]
        queryParams := m.pairs }).getD .routeNotFound).toHttpString m.request.keepAlive := by
  have hreads := Request.reads_wholeRead m.request
  have hurl : (ascii "/api/").isPrefixOf m.request.wholeRead.url = true := by
    rw [hreads.url, m.url_request, List.isPrefixOf_iff_prefix]
    refine (List.isPrefixOf_iff_prefix.mp hapi).trans ?_
    rw [url, urlText]
    split
    · exact List.prefix_rfl
    · exact List.prefix_append _ _
  have hwhole : processRead env (HttpConn.reset.receive m.request.bytes) =
      .ok (.apiResponse, { m.request.wholeRead with
        apiResponse := ((dispatch m.request.asked).getD .routeNotFound).toHttpString
          m.request.keepAlive }) := by
    rw [Request.processRead_whole, HttpConn.doRequest]
    simp only [hurl, if_true, hgateway, hreads.request, hreads.linger]
  have hnonempty : chunks ≠ [] := by
    rintro rfl
    have hlength := congrArg List.length hjoin
    rw [Written.bytes, Written.head, headBytes] at hlength
    simp at hlength
  refine ⟨_, feed_of_kept (w := []) (fun _ => rfl) hjoin hnonempty hlast hkept hwhole, ?_⟩
  rw [asked_request]

end Message

/-- `POST /api/books?title=C%2B%2B`, with a stock. -/
def stocking : Message where
  method := .post
  path := ascii "/api/books"
  pairs := [(ascii "title", ascii "C++")]
  texts := [(ascii "title", encodeURIComponent (ascii "C++"))]
  headers := [ascii "Host: books", ascii "Connection: keep-alive", ascii "Content-Length: 13"]
  body := ascii "\x7b\"stock\": 12\x7d"
  target := ⟨by decide, by decide, by decide +kernel, by decide, by decide +kernel⟩
  encoded := .cons ⟨.plain (by decide) (.plain (by decide) (.plain (by decide) (.plain (by decide)
    (.plain (by decide) .nil)))), encodes_encodeURIComponent _⟩ .nil
  keys := by decide
  header := by
    intro line hmem
    simp only [List.mem_cons, List.not_mem_nil, or_false] at hmem
    obtain rfl | rfl | rfl := hmem
    · exact ⟨plainLine_of_all (by decide), by decide, fun h => absurd (by decide) h⟩
    · exact ⟨plainLine_of_all (by decide), by decide, fun h => absurd (by decide) h⟩
    · exact ⟨plainLine_of_all (by decide), by decide, fun _ => ⟨13, by decide +kernel⟩⟩
  length := by decide
  fits := by decide

/-- A gateway that answers with the values of the query and the body. -/
def echo (request : HttpRequest) : Option HttpResponse :=
  some (.json 200 (request.queryParams.flatMap Prod.snd ++ request.body))

def echoing : Env := ⟨[], some echo, fun _ => none, fun _ => false, fun _ => false⟩

/-- The first cut is inside the escaped title, the second one behind the head. -/
def stockingChunks : List Bytes :=
  [stocking.request.head.take 25, stocking.request.head.drop 25] ++ [stocking.body]

/-- To a gateway that sends the text back. -/
theorem stocking_answered : ∃ c,
    feed echoing .reset stockingChunks = .ok ([.noRequest, .noRequest, .apiResponse], c) ∧
      c.apiResponse =
        (HttpResponse.json 200 (ascii "C++\x7b\"stock\": 12\x7d")).toHttpString true := by
  have hjoin : stockingChunks.flatten = stocking.request.bytes := by decide +kernel
  have hlast : stockingChunks.getLast? ≠ some [] := by decide +kernel
  have hkept := @Written.kept_of_cutInHead stocking.request.toWritten
    [stocking.request.head.take 25, stocking.request.head.drop 25] stocking.body
    (by decide +kernel) (by decide +kernel)
  have hgateway : echoing.gateway = some echo := rfl
  have hlinger : stocking.request.keepAlive = true := by decide +kernel
  obtain ⟨c, hfeed, hresponse⟩ :=
    stocking.message_answered (by decide) hgateway hjoin hlast hkept
  rw [hlinger] at hresponse
  exact ⟨c, hfeed, hresponse⟩

end Bookstore.WireRequests
