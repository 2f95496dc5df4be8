import Bookstore.Loops
import Bookstore.UrlParams
import Mathlib.Algebra.Group.Int.Defs
import Mathlib.Data.Int.Notation
import Mathlib.Data.List.TakeDrop

/-!
The reading half of `HttpConn`: the parser over the bytes received so far, and
`do_request`. The bytes of `read_buf_` after `read_idx_` are not modelled, they
are never read. An exception is the error of the result.
-/
namespace Bookstore.RequestParser

open HttpTypes

/-! ## C strings -/

def toLower (c : UInt8) : UInt8 := if 65 ≤ c ∧ c ≤ 90 then c + 32 else c

/-- `strncasecmp(s, pattern, size of pattern) == 0`; the view `s` is followed by
a NUL, or has one. -/
def sameNoCase : Bytes → Bytes → Bool
  | _, [] => true
  | [], _ :: _ => false
  | c :: s, p :: pattern => toLower c == toLower p && sameNoCase s pattern

def isBlank (c : UInt8) : Bool := c == 32 || c == 9

def isSpace (c : UInt8) : Bool := c == 32 || 9 ≤ c && c ≤ 13

def isDigit (c : UInt8) : Bool := 48 ≤ c && c ≤ 57

def decimalValue (digits : Bytes) : ℤ :=
  digits.foldl (fun n c => 10 * n + (c.toNat - 48 : ℕ)) 0

/-- The number at the start of a string, `none` when there is none. -/
def strtol (s : Bytes) : Option ℤ :=
  let s := s.dropWhile isSpace
  let negative := s.head? == some 45
  let s := if negative || s.head? == some 43 then s.tail else s
  let digits := s.takeWhile isDigit
  if digits = [] then none
  else some (if negative then -decimalValue digits else decimalValue digits)

/-- What the standard library throws here. `tooLong` stands for `length_error`
or `bad_alloc`, as its `max_size` has it. -/
inductive Exception
  | invalidArgument
  | outOfRange
  | tooLong
deriving DecidableEq

/-- `std::stol`. -/
def stol (s : Bytes) : Except Exception Int64 :=
  match strtol s with
  | none => .error .invalidArgument
  | some n =>
    if -2 ^ 63 ≤ n ∧ n < 2 ^ 63 then .ok (Int64.ofInt n) else .error .outOfRange

/-! ## The connection -/

/-- What the file system says of a path. -/
structure FileStat where
  othersRead : Bool
  isDir : Bool
deriving DecidableEq

/-- What `do_request` asks: the configuration, the router, and the file system
(`stat`, then `open` and `mmap`). -/
structure Env where
  docRoot : Bytes
  gateway : Option (HttpRequest → Option HttpResponse)
  stat : Bytes → Option FileStat
  canOpen : Bytes → Bool
  canMap : Bytes → Bool

/-- The fields that reading a request uses; `read_idx_` is the length of
`readBuf`. -/
structure HttpConn where
  readBuf : Bytes
  checkedIdx : ℕ
  lineStart : ℕ
  checkState : CheckState
  method : Method
  linger : Bool
  url : Bytes
  host : Bytes
  contentLength : Int64
  requestBody : Bytes
  realFile : Bytes
  apiResponse : Bytes
deriving DecidableEq

namespace HttpConn

/-- `reset_state`, also the state of a new connection. -/
def reset : HttpConn where
  readBuf := []
  checkedIdx := 0
  lineStart := 0
  checkState := .requestLine
  method := .get
  linger := false
  url := []
  host := []
  contentLength := 0
  requestBody := []
  realFile := []
  apiResponse := []

/-- `read_once` has received more bytes. -/
def receive (c : HttpConn) (chunk : Bytes) : HttpConn := { c with readBuf := c.readBuf ++ chunk }

def getLine (c : HttpConn) : Bytes :=
  (c.readBuf.drop c.lineStart).take (c.checkedIdx - c.lineStart)

def isEol (c : UInt8) : Bool := c == 13 || c == 10

/-- Where the loop of `parse_line` meets the next CR or LF, or stops. -/
def eolIdx (c : HttpConn) : ℕ :=
  c.checkedIdx + ((c.readBuf.drop c.checkedIdx).takeWhile fun b => !isEol b).length

/-- Both bytes of a line end become NUL. -/
def endLine (c : HttpConn) (i : ℕ) : HttpConn :=
  { c with readBuf := (c.readBuf.set i 0).set (i + 1) 0, checkedIdx := i + 2 }

def parseLine (c : HttpConn) : LineStatus × HttpConn :=
  let i := c.eolIdx
  match c.readBuf.drop i with
  | [] => (.open, { c with checkedIdx := i })
  | 13 :: rest =>
    match rest with
    | [] => (.open, { c with checkedIdx := i })
    | 10 :: _ => (.ok, c.endLine i)
    | _ => (.bad, { c with checkedIdx := i })
  | _ =>
    if 0 < i ∧ c.readBuf[i - 1]? = some 13 then (.ok, c.endLine (i - 1))
    else (.bad, { c with checkedIdx := i })

/-- `http://` or `https://` and the host are taken off; `none` when no path
follows. -/
def stripScheme (url : Bytes) : Option Bytes :=
  if 7 < url.length && sameNoCase url (ascii "http://") then
    let rest := (url.drop 7).dropWhile (· ≠ 47)
    if rest = [] then none else some rest
  else if 8 < url.length && sameNoCase url (ascii "https://") then
    let rest := (url.drop 8).dropWhile (· ≠ 47)
    if rest = [] then none else some rest
  else some url

def parseMethod (method : Bytes) : Option Method :=
  if method = ascii "GET" then some .get
  else if method = ascii "POST" then some .post
  else none

/-- The URL and the version after the method. The version is compared through
its pointer, so that cutting NULs off its end changes nothing. -/
def parseTarget (rest : Bytes) : Option Bytes :=
  let fromUrl := rest.dropWhile isBlank
  let url := fromUrl.takeWhile fun b => !isBlank b
  let afterUrl := fromUrl.dropWhile fun b => !isBlank b
  let version := afterUrl.dropWhile isBlank
  if fromUrl = [] ∨ afterUrl = [] ∨ version = [] then none
  else if sameNoCase version (ascii "HTTP/1.1") then
    match stripScheme url with
    | some (47 :: path) => some (47 :: path)
    | _ => none
  else none

def parseRequestLine (c : HttpConn) (text : Bytes) : HttpCode × HttpConn :=
  let rest := text.dropWhile fun b => !isBlank b
  if rest = [] then (.badRequest, c)
  else
    match parseMethod (text.takeWhile fun b => !isBlank b) with
    | none => (.badRequest, c)
    | some method =>
      let c := { c with method := method }
      match parseTarget rest with
      | none => (.badRequest, c)
      | some url =>
        (.noRequest, { c with
          url := if url.length = 1 then ascii "/judge.html" else url
          checkState := .header })

/-- The value of a header, without leading blanks; empty when it is another. -/
def headerVal (text name : Bytes) : Bytes :=
  if text.length ≤ name.length then []
  else if sameNoCase text name then (text.drop name.length).dropWhile isBlank
  else []

def parseHeaders (c : HttpConn) (text : Bytes) : Except Exception (HttpCode × HttpConn) :=
  if text.head? = some 0 then
    if c.contentLength ≠ 0 then .ok (.noRequest, { c with checkState := .content })
    else .ok (.getRequest, c)
  else
    let connection := headerVal text (ascii "Connection:")
    let length := headerVal text (ascii "Content-length:")
    let host := headerVal text (ascii "Host:")
    if connection ≠ [] then
      .ok (.noRequest, { c with linger := sameNoCase connection (ascii "keep-alive") })
    else if length ≠ [] then
      (stol length).map fun n => (.noRequest, { c with contentLength := n })
    else if host ≠ [] then .ok (.noRequest, { c with host := host })
    else .ok (.noRequest, c)

/-- `long` arithmetic wraps. -/
def contentEnd (c : HttpConn) : Int64 := Int64.ofInt c.checkedIdx + c.contentLength

def parseContent (c : HttpConn) : Except Exception (HttpCode × HttpConn) :=
  if c.contentLength ≤ 0 ∨ Int64.ofInt c.readBuf.length < c.contentEnd then .ok (.noRequest, c)
  else if c.contentLength.toInt ≤ c.readBuf.length - c.checkedIdx then
    .ok (.getRequest, { c with
      requestBody := (c.readBuf.drop c.checkedIdx).take c.contentLength.toInt.toNat })
  else .error .tooLong

/-- The string a C function sees. -/
def cString (s : Bytes) : Bytes := s.takeWhile (· ≠ 0)

def toApiMethod : Method → HttpMethod
  | .get => .get
  | .post => .post

def apiRequest (c : HttpConn) : HttpRequest where
  method := toApiMethod c.method
  path := (UrlParams.splitPathAndQuery c.url).1
  body := c.requestBody
  headers := if c.host = [] then [] else [(ascii "Host", c.host)]
  queryParams := (UrlParams.splitPathAndQuery c.url).2

def doRequest (env : Env) (c : HttpConn) : HttpCode × HttpConn :=
  if (ascii "/api/").isPrefixOf c.url then
    match env.gateway with
    | none => (.internalError, c)
    | some dispatch =>
      let response := (dispatch c.apiRequest).getD .routeNotFound
      (.apiResponse, { c with apiResponse := response.toHttpString c.linger })
  else
    let c := { c with realFile := env.docRoot ++ c.url }
    match env.stat (cString c.realFile) with
    | none => (.noResource, c)
    | some stat =>
      if !stat.othersRead then (.forbiddenRequest, c)
      else if stat.isDir then (.badRequest, c)
      else if !env.canOpen (cString c.realFile) then (.noResource, c)
      else if !env.canMap (cString c.realFile) then (.internalError, c)
      else (.fileRequest, c)

/-! ## The loop of `process_read` -/

abbrev Outcome := Except Exception (HttpCode × HttpConn)

/-- What is done with the line that ends at `checked_idx_`. -/
def handleLine (env : Env) (c : HttpConn) : (HttpConn × LineStatus) ⊕ Outcome :=
  let text := c.getLine
  let c := { c with lineStart := c.checkedIdx }
  match c.checkState with
  | .requestLine =>
    let (ret, c) := c.parseRequestLine text
    if ret = .badRequest then .inr (.ok (.badRequest, c)) else .inl (c, .ok)
  | .header =>
    match c.parseHeaders text with
    | .error e => .inr (.error e)
    | .ok (ret, c) => if ret = .getRequest then .inr (.ok (c.doRequest env)) else .inl (c, .ok)
  | .content =>
    match c.parseContent with
    | .error e => .inr (.error e)
    | .ok (ret, c) => if ret = .getRequest then .inr (.ok (c.doRequest env)) else .inl (c, .open)

/-- One turn: the body is looked at without a line, else a line is needed. -/
def turn (env : Env) : HttpConn × LineStatus → (HttpConn × LineStatus) ⊕ Outcome
  | (c, lineSt) =>
    if c.checkState = .content ∧ lineSt = .ok then c.handleLine env
    else
      let (lineSt, c) := c.parseLine
      if lineSt = .ok then c.handleLine env else .inr (.ok (.noRequest, c))

/-! ## What each step touches -/

@[simp] theorem readBuf_parseRequestLine (c : HttpConn) (text : Bytes) :
    (c.parseRequestLine text).2.readBuf = c.readBuf ∧
      (c.parseRequestLine text).2.checkedIdx = c.checkedIdx := by
  unfold parseRequestLine
  dsimp only
  repeat' split
  all_goals exact ⟨rfl, rfl⟩

theorem readBuf_parseHeaders {c d : HttpConn} {text : Bytes} {ret : HttpCode}
    (h : c.parseHeaders text = .ok (ret, d)) :
    d.readBuf = c.readBuf ∧ d.checkedIdx = c.checkedIdx := by
  unfold parseHeaders at h
  dsimp only at h
  repeat' split at h
  all_goals try (cases h; exact ⟨rfl, rfl⟩)
  cases hstol : stol (headerVal text (ascii "Content-length:")) with
  | error e => simp [hstol, Except.map] at h
  | ok n =>
    simp only [hstol, Except.map, Except.ok.injEq, Prod.mk.injEq] at h
    rw [← h.2]
    exact ⟨rfl, rfl⟩

theorem readBuf_parseContent {c d : HttpConn} {ret : HttpCode}
    (h : c.parseContent = .ok (ret, d)) :
    d.readBuf = c.readBuf ∧ d.checkedIdx = c.checkedIdx := by
  unfold parseContent at h
  repeat' split at h
  all_goals cases h
  all_goals exact ⟨rfl, rfl⟩

/-- Handling a line moves no index but `line_start_`. -/
theorem handleLine_goes_on {env : Env} {c d : HttpConn} {lineSt : LineStatus}
    (h : c.handleLine env = .inl (d, lineSt)) :
    d.readBuf = c.readBuf ∧ d.checkedIdx = c.checkedIdx ∧
      lineSt = if c.checkState = .content then .open else .ok := by
  unfold handleLine at h
  dsimp only at h
  split at h
  · rename_i hstate
    split at h
    · cases h
    · cases h
      have hsame := readBuf_parseRequestLine { c with lineStart := c.checkedIdx } c.getLine
      exact ⟨hsame.1, hsame.2, by rw [hstate]; rfl⟩
  · rename_i hstate
    split at h
    · cases h
    · rename_i hparse
      split at h
      · cases h
      · cases h
        have hsame := readBuf_parseHeaders hparse
        exact ⟨hsame.1, hsame.2, by rw [hstate]; rfl⟩
  · rename_i hstate
    split at h
    · cases h
    · rename_i hparse
      split at h
      · cases h
      · cases h
        have hsame := readBuf_parseContent hparse
        exact ⟨hsame.1, hsame.2, by rw [hstate]; rfl⟩

theorem eolIdx_le (c : HttpConn) (h : c.checkedIdx ≤ c.readBuf.length) :
    c.eolIdx ≤ c.readBuf.length := by
  have htake : ((c.readBuf.drop c.checkedIdx).takeWhile fun b => !isEol b).length ≤ _ :=
    (List.takeWhile_prefix _).length_le
  rw [List.length_drop] at htake
  unfold eolIdx
  omega

/-- A complete line moves the index on, inside the bytes received. -/
theorem parseLine_ok {c d : HttpConn} (h : c.parseLine = (.ok, d)) :
    d.readBuf.length = c.readBuf.length ∧ c.checkedIdx < d.checkedIdx ∧
      d.checkedIdx ≤ c.readBuf.length := by
  have hle : c.checkedIdx ≤ c.eolIdx := Nat.le_add_right _ _
  unfold parseLine at h
  dsimp only at h
  split at h
  · cases h
  · rename_i rest hdrop
    have hlength := congrArg List.length hdrop
    rw [List.length_drop, List.length_cons] at hlength
    split at h
    · cases h
    · cases h
      simp only [List.length_cons] at hlength
      refine ⟨by simp [endLine], ?_, ?_⟩ <;> dsimp only [endLine] <;> omega
    · cases h
  · rename_i hnil _
    have hlength : c.eolIdx < c.readBuf.length :=
      Nat.lt_of_not_le fun hle => hnil (List.drop_eq_nil_of_le hle)
    split at h
    · cases h
      refine ⟨by simp [endLine], ?_, ?_⟩ <;> dsimp only [endLine] <;> omega
    · cases h

/-- Without a complete line only the index moves, to the next line end or to
the end of the bytes. -/
theorem parseLine_stops {c d : HttpConn} {lineSt : LineStatus} (h : c.parseLine = (lineSt, d))
    (hst : lineSt ≠ .ok) : d = { c with checkedIdx := c.eolIdx } := by
  unfold parseLine at h
  dsimp only at h
  repeat' split at h
  all_goals cases h
  all_goals first | rfl | exact absurd rfl hst

/-- Turns left at most: a line read, or one look at the body. -/
def turnsLeft : HttpConn × LineStatus → ℕ
  | (c, lineSt) => 2 * (c.readBuf.length - c.checkedIdx) + if lineSt = .ok then 1 else 0

theorem turn_decreases (env : Env) {s t : HttpConn × LineStatus} (h : turn env s = .inl t) :
    turnsLeft t < turnsLeft s := by
  obtain ⟨c, lineSt⟩ := s
  obtain ⟨d, lineSt'⟩ := t
  unfold turn at h
  dsimp only at h
  split at h
  · rename_i hcontent
    obtain ⟨hbuf, hidx, hst⟩ := handleLine_goes_on h
    rw [if_pos hcontent.1] at hst
    simp only [turnsLeft, hbuf, hidx, hst, hcontent.2, if_true, reduceCtorEq, if_false]
    omega
  · rcases hparse : c.parseLine with ⟨st, c'⟩
    rw [hparse] at h
    dsimp only at h
    split at h
    · rename_i hok
      rw [hok] at hparse
      obtain ⟨hlength, hlt, hle⟩ := parseLine_ok hparse
      obtain ⟨hbuf, hidx, -⟩ := handleLine_goes_on h
      have hbonus : (if lineSt' = .ok then 1 else 0) ≤ 1 := by split <;> omega
      simp only [turnsLeft, hbuf, hidx, hlength]
      omega
    · cases h

/-! ## The body -/

/-- The indices stay inside the bytes received, and these inside the buffer. -/
structure InBuffer (c : HttpConn) : Prop where
  checked : c.checkedIdx ≤ c.readBuf.length
  size : c.readBuf.length ≤ kReadBufSize

theorem InBuffer.toInt_length {c : HttpConn} (h : InBuffer c) :
    (Int64.ofInt c.readBuf.length).toInt = c.readBuf.length := by
  have hsize : c.readBuf.length ≤ 2048 := h.size
  exact Int64.toInt_ofInt_of_le (by omega) (by omega)

/-- The end of the body, as far as `long` holds it. -/
theorem InBuffer.toInt_contentEnd {c : HttpConn} (h : InBuffer c) (hpos : 0 < c.contentLength.toInt) :
    c.contentEnd.toInt =
      if c.checkedIdx + c.contentLength.toInt < 2 ^ 63 then c.checkedIdx + c.contentLength.toInt
      else c.checkedIdx + c.contentLength.toInt - 2 ^ 64 := by
  have hchecked := h.checked
  have hsize : c.readBuf.length ≤ 2048 := h.size
  have hhigh := c.contentLength.toInt_lt
  have hidx : (Int64.ofInt c.checkedIdx).toInt = c.checkedIdx :=
    Int64.toInt_ofInt_of_le (by omega) (by omega)
  rw [contentEnd, Int64.toInt_add, hidx]
  split
  · rw [Int.bmod_eq_of_le] <;> omega
  · have hwrap : (c.checkedIdx + c.contentLength.toInt).bmod (2 ^ 64) =
        (c.checkedIdx + c.contentLength.toInt - (2 ^ 64 : ℕ)).bmod (2 ^ 64) :=
      (Int.sub_bmod_right _ _).symm
    rw [hwrap, Int.bmod_eq_of_le] <;> omega

/-- The body would end beyond `long`. -/
def BodyOverflows (c : HttpConn) : Prop :=
  0 < c.contentLength.toInt ∧ 2 ^ 63 ≤ c.checkedIdx + c.contentLength.toInt

theorem parseContent_incomplete {c : HttpConn} (h : InBuffer c)
    (hmissing : c.contentLength.toInt ≤ 0 ∨ c.readBuf.length < c.checkedIdx + c.contentLength.toInt)
    (hfits : ¬ BodyOverflows c) : c.parseContent = .ok (.noRequest, c) := by
  unfold parseContent
  rw [if_pos]
  rw [Int64.le_iff_toInt_le, Int64.lt_iff_toInt_lt, Int64.toInt_zero, h.toInt_length]
  rcases Int.lt_or_le 0 c.contentLength.toInt with hpos | hnone
  · right
    have hlt : c.checkedIdx + c.contentLength.toInt < 2 ^ 63 :=
      Int.not_le.mp fun hle => hfits ⟨hpos, hle⟩
    rw [h.toInt_contentEnd hpos, if_pos hlt]
    omega
  · exact .inl hnone

theorem parseContent_complete {c : HttpConn} (h : InBuffer c) (hpos : 0 < c.contentLength.toInt)
    (hthere : c.checkedIdx + c.contentLength.toInt ≤ c.readBuf.length) :
    c.parseContent = .ok (.getRequest, { c with
      requestBody := (c.readBuf.drop c.checkedIdx).take c.contentLength.toInt.toNat }) := by
  have hsize : c.readBuf.length ≤ 2048 := h.size
  unfold parseContent
  rw [if_neg, if_pos (by omega)]
  rw [Int64.le_iff_toInt_le, Int64.lt_iff_toInt_lt, Int64.toInt_zero, h.toInt_length,
    h.toInt_contentEnd hpos, if_pos (by omega)]
  omega

theorem parseContent_overflow {c : HttpConn} (h : InBuffer c) (hover : BodyOverflows c) :
    c.parseContent = .error .tooLong := by
  have hchecked := h.checked
  have hsize : c.readBuf.length ≤ 2048 := h.size
  have hhigh := c.contentLength.toInt_lt
  obtain ⟨hpos, hend⟩ := hover
  unfold parseContent
  rw [if_neg, if_neg (by omega)]
  rw [Int64.le_iff_toInt_le, Int64.lt_iff_toInt_lt, Int64.toInt_zero, h.toInt_length,
    h.toInt_contentEnd hpos, if_neg (by omega)]
  omega

/-- The loop of `process_read`. -/
def readLoop (env : Env) : Loops.Loop (HttpConn × LineStatus) Outcome where
  body := turn env
  measure := turnsLeft
  decreases := turn_decreases env

def processRead (env : Env) (c : HttpConn) : Outcome := (readLoop env).run (c, .ok)

/-! ## Turns -/

theorem InBuffer.parseLine {c : HttpConn} (h : InBuffer c) : InBuffer c.parseLine.2 := by
  rcases hparse : c.parseLine with ⟨st, d⟩
  by_cases hok : st = .ok
  · rw [hok] at hparse
    obtain ⟨hlength, -, hle⟩ := parseLine_ok hparse
    exact ⟨hlength ▸ hle, hlength ▸ h.size⟩
  · rw [parseLine_stops hparse hok]
    exact ⟨eolIdx_le c h.checked, h.size⟩

/-- The connection whose line, or body, the next turn handles. -/
def Handles (s : HttpConn × LineStatus) (d : HttpConn) : Prop :=
  if s.1.checkState = .content ∧ s.2 = .ok then d = s.1 else s.1.parseLine = (.ok, d)

theorem InBuffer.handles {c d : HttpConn} {lineSt : LineStatus} (h : InBuffer c)
    (hd : Handles (c, lineSt) d) : InBuffer d := by
  unfold Handles at hd
  split at hd
  · exact hd ▸ h
  · have hnext := h.parseLine
    rw [hd] at hnext
    exact hnext

theorem turn_of_handles {env : Env} {s : HttpConn × LineStatus} {d : HttpConn} (h : Handles s d) :
    turn env s = d.handleLine env := by
  obtain ⟨c, lineSt⟩ := s
  unfold Handles at h
  dsimp only [turn] at h ⊢
  split at h
  · rename_i hcontent
    rw [if_pos hcontent, h]
  · rename_i hcontent
    rw [if_neg hcontent, h]
    dsimp only
    rw [if_pos rfl]

theorem turn_of_not_handles {env : Env} {c : HttpConn} {lineSt : LineStatus}
    (h : ∀ d, ¬ Handles (c, lineSt) d) :
    turn env (c, lineSt) = .inr (.ok (.noRequest, { c with checkedIdx := c.eolIdx })) := by
  have hcontent : ¬ (c.checkState = .content ∧ lineSt = .ok) := by
    intro hcontent
    exact h c (by rw [Handles, if_pos hcontent])
  rcases hparse : c.parseLine with ⟨st, d⟩
  have hst : st ≠ .ok := by
    intro hok
    exact h d (by rw [Handles, if_neg hcontent, hparse, hok])
  dsimp only [turn]
  rw [if_neg hcontent, hparse]
  dsimp only
  rw [if_neg hst, parseLine_stops hparse hst]

theorem doRequest_code (env : Env) (c : HttpConn) : (c.doRequest env).1 ≠ .noRequest := by
  unfold doRequest
  dsimp only
  repeat' split
  all_goals exact fun h => nomatch h

/-- `process_read` asks for more only when it lacks a line. -/
theorem handleLine_answers {env : Env} {c d : HttpConn} {ret : HttpCode}
    (h : c.handleLine env = .inr (.ok (ret, d))) : ret ≠ .noRequest := by
  unfold handleLine at h
  dsimp only at h
  have hdo : ∀ e : HttpConn, e.doRequest env = (ret, d) → ret ≠ .noRequest := by
    intro e he
    have hcode := doRequest_code env e
    rwa [he] at hcode
  repeat' split at h
  all_goals simp only [Sum.inr.injEq, Except.ok.injEq, reduceCtorEq] at h
  · rw [Prod.mk.injEq] at h
    exact h.1 ▸ fun hno => nomatch hno
  · exact hdo _ h
  · exact hdo _ h

theorem InBuffer.turn {env : Env} {c d : HttpConn} {lineSt lineSt' : LineStatus} (h : InBuffer c)
    (hturn : HttpConn.turn env (c, lineSt) = .inl (d, lineSt')) : InBuffer d := by
  by_cases hhandles : ∃ e, Handles (c, lineSt) e
  · obtain ⟨e, he⟩ := hhandles
    rw [turn_of_handles he] at hturn
    obtain ⟨hbuf, hidx, -⟩ := handleLine_goes_on hturn
    have hin := h.handles he
    exact ⟨hbuf ▸ hidx ▸ hin.checked, hbuf ▸ hin.size⟩
  · rw [turn_of_not_handles (not_exists.mp hhandles)] at hturn
    cases hturn

end HttpConn

end Bookstore.RequestParser
