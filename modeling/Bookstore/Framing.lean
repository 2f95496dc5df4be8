import Bookstore.ApiDelivery
import Bookstore.Decimals
import Bookstore.FileDelivery
import Bookstore.PartialHeaders

/-!
How the responses of `process_write` are framed: a header block, and a body as
long as the block says. The header always fits in `write_buf_`; what can go
wrong are the lengths that pass through `int`.
-/
namespace Bookstore.Framing

open HttpTypes GatherWrites ResponseWriter MachineInt Decimals
open ResponseWriter.HttpConn LineReading PartialHeaders
open RequestParser (Env sameNoCase isBlank)

/-! ## Header blocks -/

/-- Lines, and the blank line behind them. -/
def block (lines : List Bytes) : Bytes := lines.flatMap (fun line => line ++ [13, 10]) ++ [13, 10]

/-- The values of the content length headers. -/
def announced (lines : List Bytes) : List Bytes :=
  lines.filterMap fun line =>
    if sameNoCase line lengthName then some ((line.drop 15).dropWhile isBlank) else none

/-- One header block, whose lines are not blank, and a body of the length that its
one content length header says. -/
def Framed (bytes : Bytes) : Prop :=
  ∃ lines body, bytes = block lines ++ body ∧ (∀ line ∈ lines, line ≠ [] ∧ PlainLine line) ∧
    announced lines = [ascii (toString body.length)]

theorem Framed.length_pos {bytes : Bytes} (h : Framed bytes) : 0 < bytes.length := by
  obtain ⟨lines, body, rfl, _⟩ := h
  rw [block, List.length_append, List.length_append, List.length_cons]
  omega

/-- What the ranges describe is framed, and the counter is its length. -/
structure WellFramed (c : HttpConn) : Prop where
  framed : ∀ beyond, Framed (gather (c.memory beyond) c.segments)
  counted : c.bytesToSend.toInt = offered c.segments

/-- The four lines of a response; `gap` is what stands behind the colons. -/
def headLines (status contentType gap : Bytes) (size : ℕ) (linger : Bool) : List Bytes :=
  [status, ascii "Content-Type:" ++ (gap ++ contentType),
    ascii "Content-Length:" ++ (gap ++ ascii (toString size)),
    ascii "Connection:" ++ (gap ++ ascii (if linger then "keep-alive" else "close"))]

theorem ascii_toString (n : ℕ) : ascii (toString n) = decimal n := toUTF8_toString n

theorem plain_decimal (n : ℕ) : PlainLine (decimal n) ∧ ∀ b ∈ decimal n, isBlank b = false := by
  refine ⟨fun b hb => ?_, fun b hb => ?_⟩
  · have hdigit := mem_decimal hb
    rw [RequestParser.HttpConn.isEol, Bool.or_eq_false_iff, beq_eq_false_iff_ne,
      beq_eq_false_iff_ne]
    refine ⟨?_, ?_⟩ <;> intro heq <;> rw [heq] at hdigit <;> simp at hdigit
  · have hdigit := mem_decimal hb
    rw [isBlank, Bool.or_eq_false_iff, beq_eq_false_iff_ne, beq_eq_false_iff_ne]
    refine ⟨?_, ?_⟩ <;> intro heq <;> rw [heq] at hdigit <;> simp at hdigit

theorem plain_signed (z : ℤ) : PlainLine (ascii (toString z)) := by
  rw [show ascii (toString z) = signed z from toUTF8_toString_int z, signed]
  split
  · exact @plainLine_append [45] _ (plainLine_of_all rfl) (plain_decimal _).1
  · exact (plain_decimal _).1

theorem dropWhile_gap {gap : Bytes} (hgap : gap = [] ∨ gap = [32]) (n : ℕ) :
    (gap ++ decimal n).dropWhile isBlank = decimal n := by
  obtain ⟨b, rest, hcons⟩ := List.exists_cons_of_ne_nil (decimal_ne_nil n)
  have hb := (plain_decimal n).2 b (by rw [hcons]; exact List.mem_cons_self)
  rw [hcons]
  rcases hgap with rfl | rfl
  · rw [List.nil_append, List.dropWhile_cons_of_neg (by rw [hb]; exact Bool.false_ne_true)]
  · rw [List.cons_append, List.nil_append, List.dropWhile_cons_of_pos rfl,
      List.dropWhile_cons_of_neg (by rw [hb]; exact Bool.false_ne_true)]

/-- A status line: not blank, and not a content length. -/
structure StatusLine (status : Bytes) : Prop where
  nonempty : status ≠ []
  plain : PlainLine status
  other : sameNoCase status lengthName = false

theorem announced_headLines {status contentType gap : Bytes} (hstatus : StatusLine status)
    (hgap : gap = [] ∨ gap = [32]) (size : ℕ) (linger : Bool) :
    announced (headLines status contentType gap size linger) = [ascii (toString size)] := by
  have htype : sameNoCase (ascii "Content-Type:" ++ (gap ++ contentType)) lengthName = false := rfl
  have hconnection : sameNoCase (ascii "Connection:" ++
      (gap ++ ascii (if linger then "keep-alive" else "close"))) lengthName = false := rfl
  have hlength : sameNoCase (ascii "Content-Length:" ++ (gap ++ decimal size)) lengthName = true :=
    @sameNoCase_longer (ascii "Content-Length:") _ _ (by decide)
  have hvalue : ((ascii "Content-Length:" ++ (gap ++ decimal size)).drop 15).dropWhile isBlank =
      decimal size := dropWhile_gap hgap size
  simp only [announced, headLines, ascii_toString, List.filterMap_cons, hstatus.other, htype,
    hconnection, hlength, hvalue, Bool.false_eq_true, if_false, if_true, List.filterMap_nil]

theorem framed_headLines {status contentType gap : Bytes} (hstatus : StatusLine status)
    (hgap : gap = [] ∨ gap = [32]) (htype : PlainLine contentType) (linger : Bool) (body : Bytes) :
    Framed (block (headLines status contentType gap body.length linger) ++ body) := by
  refine ⟨_, body, rfl, ?_, announced_headLines hstatus hgap body.length linger⟩
  have hplain : PlainLine gap := by
    rcases hgap with rfl | rfl
    · exact plainLine_nil
    · exact plainLine_of_all rfl
  intro line hline
  simp only [headLines, List.mem_cons, List.not_mem_nil, or_false] at hline
  rcases hline with rfl | rfl | rfl | rfl
  · exact ⟨hstatus.nonempty, hstatus.plain⟩
  · exact ⟨List.cons_ne_nil _ _,
      plainLine_append (plainLine_of_all rfl) (plainLine_append hplain htype)⟩
  · refine ⟨List.cons_ne_nil _ _, plainLine_append (plainLine_of_all rfl)
      (plainLine_append hplain ?_)⟩
    rw [ascii_toString]
    exact (plain_decimal _).1
  · refine ⟨List.cons_ne_nil _ _, plainLine_append (plainLine_of_all rfl)
      (plainLine_append hplain ?_)⟩
    cases linger <;> exact plainLine_of_all rfl

/-! ## Building a header -/

/-- The MIME type of a path. -/
def mime (realFile : Bytes) : Bytes :=
  ((extension realFile).bind fun ext => kMimeTypes.lookup ext).getD
    (ascii "application/octet-stream")

theorem lookup_mem {α β : Type} [BEq α] [LawfulBEq α] {l : List (α × β)} {a : α} {b : β}
    (h : l.lookup a = some b) : (a, b) ∈ l := by
  induction l with
  | nil => cases h
  | cons p l ih =>
    rw [List.lookup_cons] at h
    split at h
    · rename_i heq
      cases h
      rw [beq_iff_eq.mp heq]
      exact List.mem_cons_self
    · exact List.mem_cons_of_mem _ (ih h)

theorem mime_facts (realFile : Bytes) :
    PlainLine (mime realFile) ∧ (mime realFile).length ≤ 24 := by
  have hall : kMimeTypes.all (fun p => p.2.all (fun b => !RequestParser.HttpConn.isEol b) &&
      decide (p.2.length ≤ 24)) = true := by decide
  unfold mime
  cases hmime : (extension realFile).bind fun ext => kMimeTypes.lookup ext with
  | none => exact ⟨plainLine_of_all rfl, by decide⟩
  | some value =>
    obtain ⟨ext, -, hlookup⟩ := Option.bind_eq_some_iff.mp hmime
    have hfacts := List.all_eq_true.mp hall _ (lookup_mem hlookup)
    rw [Bool.and_eq_true, decide_eq_true_eq] at hfacts
    exact ⟨plainLine_of_all hfacts.1, hfacts.2⟩

theorem addContentType_eq (c : HttpConn) :
    c.addContentType = c.addResponse (ascii "Content-Type:" ++ mime c.realFile ++ ascii "\r\n") := by
  unfold HttpConn.addContentType mime
  cases (extension c.realFile).bind fun ext => kMimeTypes.lookup ext <;> rfl

/-- The header so far. -/
def Holds (c : HttpConn) (text : Bytes) : Prop := c.writeBuf.header = text

theorem Holds.idx {c : HttpConn} {text : Bytes} (h : Holds c text) :
    c.writeBuf.idx = text.length := by
  rw [← c.writeBuf.length_header, h]

/-- What fits is added. -/
theorem Holds.add {c : HttpConn} {before text : Bytes} (h : Holds c before)
    (hfits : before.length + text.length < 1023) :
    (c.addResponse text).1 = true ∧ Holds (c.addResponse text).2 (before ++ text) := by
  have hroom : text.length < c.writeBuf.room := by
    rw [WriteBuffer.room, h.idx]
    show text.length < 1024 - 1 - before.length
    omega
  have hadded : (c.addResponse text).1 = true := by
    unfold HttpConn.addResponse WriteBuffer.addResponse
    rw [dif_pos hroom]
  have hheader := c.writeBuf.header_addResponse text
  refine ⟨hadded, ?_⟩
  rw [show (c.writeBuf.addResponse text).1 = true from hadded, if_pos rfl, h] at hheader
  exact hheader

theorem length_decimal (n : Int32) : (HttpConn.decimal n).length ≤ 11 := by
  have hlow := n.le_toInt
  have hhigh := n.toInt_lt
  have hdigits : (Decimals.decimal n.toInt.natAbs).length ≤ 10 :=
    length_decimal_le (by decide) (by omega)
  rw [HttpConn.decimal,
    show ascii (toString n.toInt) = signed n.toInt from toUTF8_toString_int _, signed]
  split
  · rw [List.length_cons]
    omega
  · omega

theorem decimal_ofInt {size : ℕ} (h : size < 2 ^ 31) :
    HttpConn.decimal (Int32.ofInt size) = ascii (toString size) := by
  have hsame : (Int32.ofInt size).toInt = size :=
    toCInt_of_fits (by omega) (by unfold intMax; omega)
  rw [HttpConn.decimal, hsame]
  rfl

def lengthLine (size : Int32) : Bytes :=
  ascii "Content-Length:" ++ HttpConn.decimal size ++ ascii "\r\n"

def connectionLine (linger : Bool) : Bytes :=
  ascii "Connection:" ++ ascii (if linger then "keep-alive" else "close") ++ ascii "\r\n"

theorem length_lengthLine (size : Int32) : (lengthLine size).length ≤ 28 := by
  have hdecimal := length_decimal size
  rw [lengthLine, List.length_append, List.length_append]
  show 15 + _ + 2 ≤ 28
  omega

theorem length_connectionLine (linger : Bool) : (connectionLine linger).length ≤ 23 := by
  cases linger <;> decide

theorem andThen_of_true {r : Bool × HttpConn}
    {next : HttpConn → Bool × HttpConn} (h : r.1 = true) :
    andThen r next = next r.2 := if_pos h

/-- The headers behind the content type, and the blank line. -/
theorem Holds.addHeaders {c : HttpConn} {before : Bytes} (h : Holds c before)
    (hfits : before.length ≤ 900) (size : Int32) :
    Holds (c.addHeaders size).2
      (before ++ lengthLine size ++ connectionLine c.linger ++ ascii "\r\n") := by
  have hlength := length_lengthLine size
  have hconnection := length_connectionLine c.linger
  obtain ⟨hfirst, hheld⟩ := @Holds.add c before (lengthLine size) h (by omega)
  obtain ⟨hsecond, hheld⟩ := @Holds.add _ _ (connectionLine c.linger) hheld (by
    rw [List.length_append]
    omega)
  obtain ⟨-, hheld⟩ := @Holds.add _ _ (ascii "\r\n") hheld (by
    rw [List.length_append, List.length_append]
    show _ + 2 < 1023
    omega)
  unfold HttpConn.addHeaders
  rw [andThen_of_true (show (c.addContentLength size).1 = true from hfirst),
    andThen_of_true (show (HttpConn.addLinger (c.addContentLength size).2).1 = true from hsecond)]
  exact hheld

theorem Holds.header {c : HttpConn} (h : Holds c []) {first second : Bytes}
    (hfits : first.length + second.length ≤ 900) (size : Int32) :
    Holds (((c.addResponse first).2.addResponse second).2.addHeaders size).2
      (first ++ second ++ lengthLine size ++ connectionLine c.linger ++ ascii "\r\n") := by
  obtain ⟨-, hheld⟩ := @Holds.add c [] first h (by
    rw [List.length_nil]
    omega)
  obtain ⟨-, hheld⟩ := @Holds.add _ _ second hheld (by
    rw [List.nil_append]
    omega)
  have hheaders := hheld.addHeaders (by
    rw [List.nil_append, List.length_append]
    omega) size
  rw [List.nil_append] at hheaders
  exact hheaders

/-- The four lines are those of a header block, when the length is in the range of
`int`. -/
theorem block_headLines (status contentType : Bytes) {size : ℕ} (h : size < 2 ^ 31)
    (linger : Bool) : block (headLines status contentType [] size linger) =
      status ++ ascii "\r\n" ++ (ascii "Content-Type:" ++ contentType ++ ascii "\r\n") ++
        lengthLine (Int32.ofInt size) ++ connectionLine linger ++ ascii "\r\n" := by
  have hcrlf : ascii "\r\n" = [13, 10] := rfl
  simp only [block, headLines, lengthLine, connectionLine, decimal_ofInt h, hcrlf,
    List.flatMap_cons, List.flatMap_nil, List.nil_append, List.append_assoc]

theorem length_block (status contentType : Bytes) {size : ℕ} (h : size < 2 ^ 31) (linger : Bool) :
    (block (headLines status contentType [] size linger)).length ≤
      status.length + contentType.length + 70 := by
  have hlength := length_lengthLine (Int32.ofInt size)
  have hconnection := length_connectionLine linger
  rw [block_headLines status contentType h]
  simp only [List.length_append]
  show _ + 2 + (13 + _ + 2) + _ + _ + 2 ≤ _
  omega

/-! ## The ranges -/

theorem bytes_writeBuf (c : HttpConn) (beyond : Memory Region) :
    Segment.bytes (c.memory beyond) ⟨.writeBuf, 0, c.writeBuf.idx⟩ = c.writeBuf.header := by
  have hidx := c.writeBuf.idx_lt
  have hsize := c.writeBuf.size
  have hall := @Segment.bytes_eq_drop _ (c.memory beyond) .writeBuf c.writeBuf.bytes
    (fun i hi => FileDelivery.memory_writeBuf c beyond i hi) 0 c.writeBuf.bytes.length
    (Nat.zero_add _)
  have htake := Segment.take_bytes (c.memory beyond) .writeBuf 0
    (show c.writeBuf.idx ≤ c.writeBuf.bytes.length by omega)
  rw [← htake]
  exact congrArg (List.take c.writeBuf.idx) hall

theorem bytes_file {c : HttpConn} {file : MappedFile} (hfile : c.mmapFile = some file)
    (beyond : Memory Region) :
    Segment.bytes (c.memory beyond) ⟨.mappedFile, 0, file.bytes.length⟩ = file.bytes :=
  @Segment.bytes_eq_drop _ (c.memory beyond) .mappedFile file.bytes
    (fun i hi => FileDelivery.memory_file hfile beyond i hi) 0 file.bytes.length (Nat.zero_add _)

theorem bytes_apiResponse (c : HttpConn) (beyond : Memory Region) :
    Segment.bytes (c.memory beyond) ⟨.apiResponse, 0, c.apiResponse.length⟩ = c.apiResponse := by
  refine @Segment.bytes_eq_drop _ (c.memory beyond) .apiResponse c.apiResponse (fun i hi => ?_) 0
    c.apiResponse.length (Nat.zero_add _)
  simp [HttpConn.memory, hi]

/-! ## Replies -/

/-- A static file that `do_request` finds readable. -/
structure Lookup where
  env : Env
  conn : RequestParser.HttpConn
  file : MappedFile
  static : (ascii "/api/").isPrefixOf conn.url = false
  found : ∃ stat, env.stat (RequestParser.HttpConn.cString (env.docRoot ++ conn.url)) = some stat ∧
    stat.othersRead = true ∧ stat.isDir = false
  opened : env.canOpen (RequestParser.HttpConn.cString (env.docRoot ++ conn.url)) = true
  mapped : file.bytes = [] →
    env.canMap (RequestParser.HttpConn.cString (env.docRoot ++ conn.url)) = false

namespace Lookup

variable (l : Lookup)

def canMap : Bool :=
  l.env.canMap (RequestParser.HttpConn.cString (l.env.docRoot ++ l.conn.url))

/-- What `do_request` returns. -/
def code : HttpCode := (l.conn.doRequest l.env).1

/-- What it leaves for `process_write`, on a connection that has been reset. -/
def handedOver : HttpConn :=
  { HttpConn.reset with
    linger := (l.conn.doRequest l.env).2.linger
    realFile := (l.conn.doRequest l.env).2.realFile
    mmapFile := if l.code = .fileRequest then some l.file else none }

theorem doRequest_eq : l.conn.doRequest l.env =
    (if l.canMap then .fileRequest else .internalError,
      { l.conn with realFile := l.env.docRoot ++ l.conn.url }) := by
  obtain ⟨stat, hstat, hread, hdir⟩ := l.found
  have hopened := l.opened
  have hstatic := l.static
  unfold RequestParser.HttpConn.doRequest canMap
  rw [if_neg (by rw [hstatic]; exact Bool.false_ne_true)]
  simp only [hstat, hread, hdir, hopened, Bool.not_true, Bool.false_eq_true, if_false]
  cases l.env.canMap (RequestParser.HttpConn.cString (l.env.docRoot ++ l.conn.url)) <;> rfl

end Lookup

/-- The responses that `process_write` emits. -/
inductive Reply
  | api (linger : Bool) (status : Int32) (payload : Bytes)
  | file (lookup : Lookup)
  | page (linger : Bool) (realFile : Bytes) (code : HttpCode)
      (built : (errDesc code).isSome = true)

namespace Reply

def written : Reply → Bool × HttpConn
  | .api linger status payload =>
    (ApiDelivery.answering linger
      ((HttpResponse.json status payload).toHttpString linger)).processWrite .apiResponse
  | .file l => l.handedOver.processWrite l.code
  | .page linger realFile code _ =>
    HttpConn.processWrite { HttpConn.reset with linger := linger, realFile := realFile } code

/-- The lines of an API response. -/
def apiLines (linger : Bool) (status : Int32) (size : ℕ) : List Bytes :=
  headLines (ascii "HTTP/1.1 " ++ ascii (toString status.toInt) ++ ascii " " ++ reasonPhrase status)
    (ascii "application/json") (ascii " ") size linger

/-- The lines of a file response. -/
def fileLines (l : Lookup) : List Bytes :=
  headLines (ascii "HTTP/1.1 200 OK") (mime (l.env.docRoot ++ l.conn.url)) [] l.file.bytes.length
    l.conn.linger

/-- Header and body together are in the range of `int`. -/
def Fits : Reply → Prop
  | .api linger status payload =>
    (block (apiLines linger status payload.length)).length + payload.length < 2 ^ 31
  | .file l => l.canMap = true → (block (fileLines l)).length + l.file.bytes.length < 2 ^ 31
  | .page _ _ _ _ => True

/-- The response is emitted, and framed. -/
def Right (r : Reply) : Prop := r.written.1 = true ∧ WellFramed r.written.2

end Reply

/-! ## API responses -/

theorem plainLine_ite {p : Prop} [Decidable p] {line other : Bytes} (h : PlainLine line)
    (hother : PlainLine other) : PlainLine (if p then line else other) := by
  split
  · exact h
  · exact hother

theorem reasonPhrase_plain (status : Int32) : PlainLine (reasonPhrase status) := by
  unfold reasonPhrase
  iterate 10 refine plainLine_ite (plainLine_of_all rfl) ?_
  exact plainLine_of_all rfl

theorem statusLine_api (status : Int32) : StatusLine
    (ascii "HTTP/1.1 " ++ ascii (toString status.toInt) ++ ascii " " ++ reasonPhrase status) where
  nonempty := List.cons_ne_nil _ _
  plain := plainLine_append (plainLine_append (plainLine_append (plainLine_of_all rfl)
    (plain_signed _)) (plainLine_of_all rfl)) (reasonPhrase_plain status)
  other := rfl

theorem toHttpString_json (status : Int32) (payload : Bytes) (linger : Bool) :
    (HttpResponse.json status payload).toHttpString linger =
      block (Reply.apiLines linger status payload.length) ++ payload := by
  have hcrlf : ascii "\r\n" = [13, 10] := rfl
  have htype : ascii "Content-Type: " = ascii "Content-Type:" ++ ascii " " := rfl
  have hlength : ascii "Content-Length: " = ascii "Content-Length:" ++ ascii " " := rfl
  have hconnection : ascii "Connection: " = ascii "Connection:" ++ ascii " " := rfl
  simp only [HttpResponse.toHttpString, HttpResponse.json, block, Reply.apiLines, headLines, hcrlf,
    htype, hlength, hconnection, List.flatMap_cons, List.flatMap_nil, List.append_nil,
    List.append_assoc]

/-- What `process_write` makes of a response of the API. -/
theorem wellFramed_answering (linger : Bool) (response : Bytes) :
    ((ApiDelivery.answering linger response).processWrite .apiResponse).1 = true ∧
      WellFramed ((ApiDelivery.answering linger response).processWrite .apiResponse).2 ↔
    Framed response ∧ 0 < response.length ∧ response.length < 2 ^ 31 := by
  have hwritten : (ApiDelivery.answering linger response).processWrite .apiResponse =
      (decide (0 < Int32.ofInt response.length), ApiDelivery.sending linger response) := rfl
  have hgather (beyond : Memory Region) :
      gather ((ApiDelivery.sending linger response).memory beyond)
        (ApiDelivery.sending linger response).segments = response := by
    have hbytes := bytes_apiResponse (ApiDelivery.sending linger response) beyond
    exact (List.append_nil _).trans hbytes
  have hoffered : offered (ApiDelivery.sending linger response).segments = response.length :=
    Nat.add_zero _
  have hcounter : (ApiDelivery.sending linger response).bytesToSend.toInt =
      toCInt response.length := rfl
  have hemitted : decide (0 < Int32.ofInt response.length) = true ↔ 0 < toCInt response.length := by
    rw [decide_eq_true_eq, Int32.lt_iff_toInt_lt, Int32.toInt_zero]
    rfl
  rw [hwritten, hemitted]
  constructor
  · intro h
    obtain ⟨hpos, hframed, hcounted⟩ := h
    rw [hcounter, hoffered] at hcounted
    have hmax := toInt_le_intMax (ApiDelivery.sending linger response).bytesToSend
    rw [hcounter] at hmax
    unfold intMax at hmax
    refine ⟨?_, by omega, by omega⟩
    rw [← hgather fun _ _ => 0]
    exact hframed fun _ _ => 0
  · intro h
    obtain ⟨hframed, hpos, hlt⟩ := h
    have hsame : toCInt response.length = response.length :=
      toCInt_of_fits (by omega) (by unfold intMax; omega)
    refine ⟨by omega, fun beyond => ?_, ?_⟩
    · rw [hgather]
      exact hframed
    · rw [hcounter, hoffered, hsame]

/-! ## Pages -/

def statusText (status : Int32) (title : Bytes) : Bytes :=
  ascii "HTTP/1.1 " ++ HttpConn.decimal status ++ ascii " " ++ title

theorem errDesc_facts {code : HttpCode} {status : Int32} {title body : Bytes}
    (h : errDesc code = some (status, title, body)) :
    StatusLine (statusText status title) ∧ (statusText status title).length ≤ 40 ∧
      body.length ≤ 80 := by
  cases code <;> cases h <;>
    exact ⟨⟨List.cons_ne_nil _ _, plainLine_of_all (by decide), rfl⟩, by decide +kernel,
      by decide⟩

theorem processWrite_page {code : HttpCode} {status : Int32} {title body : Bytes}
    (h : errDesc code = some (status, title, body)) (c : HttpConn) :
    c.processWrite code = ((((c.addResponse (statusText status title ++ ascii "\r\n")).2.addResponse
      (ascii "Content-Type:" ++ ascii "text/html" ++ ascii "\r\n")).2.addHeaders
        (Int32.ofInt body.length)).2.finishWith body) := by
  cases code <;> cases h <;> rfl

/-- A page is held in the write buffer as a whole. -/
theorem wellFramed_finish {c : HttpConn} {text : Bytes} (h : Holds c text) (hframed : Framed text) :
    WellFramed c.finish := by
  have hidx := c.writeBuf.idx_lt
  refine ⟨fun beyond => ?_, ?_⟩
  · show Framed (Segment.bytes (c.finish.memory beyond) ⟨.writeBuf, 0, c.finish.writeBuf.idx⟩ ++ [])
    rw [bytes_writeBuf, List.append_nil]
    exact (show c.finish.writeBuf.header = text from h) ▸ hframed
  · have hsame : (Int32.ofInt c.writeBuf.idx).toInt = c.writeBuf.idx := by
      refine toCInt_of_fits (by omega) ?_
      unfold intMax kWriteBufSize at *
      omega
    exact hsame

theorem page_right {c : HttpConn} (hempty : Holds c []) {code : HttpCode}
    (hbuilt : (errDesc code).isSome = true) :
    (c.processWrite code).1 = true ∧ WellFramed (c.processWrite code).2 := by
  obtain ⟨⟨status, title, body⟩, hdesc⟩ := Option.isSome_iff_exists.mp hbuilt
  obtain ⟨hstatus, hlength, hbody⟩ := errDesc_facts hdesc
  rw [processWrite_page hdesc]
  have hheader := @Holds.header c hempty (statusText status title ++ ascii "\r\n")
    (ascii "Content-Type:" ++ ascii "text/html" ++ ascii "\r\n") (by
      rw [List.length_append]
      show _ + 2 + 24 ≤ 900
      omega) (Int32.ofInt body.length)
  rw [← block_headLines _ _ (by omega)] at hheader
  have hblock := length_block (statusText status title) (ascii "text/html")
    (show body.length < 2 ^ 31 by omega) c.linger
  obtain ⟨hadded, hheld⟩ := @Holds.add _ _ body hheader (by
    change _ ≤ _ + 9 + 70 at hblock
    omega)
  unfold HttpConn.finishWith
  rw [if_pos (show (HttpConn.addContent _ body).1 = true from hadded)]
  refine ⟨rfl, wellFramed_finish hheld ?_⟩
  exact framed_headLines hstatus (.inl rfl) (plainLine_of_all rfl) c.linger body

/-! ## Files -/

section Files

variable {linger : Bool} {realFile : Bytes} {file : MappedFile}

/-- The header of a file response, with a length in the range of `int`. -/
theorem headerBuffer_holds (h : file.bytes.length < 2 ^ 31) :
    (FileDelivery.headerBuffer linger realFile file).header =
      block (headLines (ascii "HTTP/1.1 200 OK") (mime realFile) [] file.bytes.length linger) := by
  have hmime := (mime_facts realFile).2
  have hempty : Holds (FileDelivery.serving linger realFile file) [] := rfl
  have hheader := @Holds.header _ hempty (ascii "HTTP/1.1 200 OK" ++ ascii "\r\n")
    (ascii "Content-Type:" ++ mime realFile ++ ascii "\r\n") (by
      simp only [List.length_append]
      show 15 + 2 + (13 + _ + 2) ≤ 900
      omega) (Int32.ofInt file.bytes.length)
  rw [block_headLines _ _ h]
  unfold FileDelivery.headerBuffer HttpConn.fileHeader
  rw [addContentType_eq]
  exact hheader

theorem wellFramed_sending :
    WellFramed (FileDelivery.sending linger realFile file
      (FileDelivery.headerBuffer linger realFile file)) ↔
    (block (headLines (ascii "HTTP/1.1 200 OK") (mime realFile) [] file.bytes.length linger)).length +
      file.bytes.length < 2 ^ 31 := by
  let buffer := FileDelivery.headerBuffer linger realFile file
  let d := FileDelivery.sending linger realFile file buffer
  have hgather (beyond : Memory Region) :
      gather (d.memory beyond) d.segments = buffer.header ++ file.bytes := by
    have hheader := bytes_writeBuf d beyond
    have hfile := @bytes_file d file rfl beyond
    have hsplit : gather (d.memory beyond) d.segments = d.iv0.bytes (d.memory beyond) ++
        (d.iv1.bytes (d.memory beyond) ++ []) := rfl
    rw [hsplit, List.append_nil]
    exact congrArg₂ (· ++ ·) hheader hfile
  have hoffered : offered d.segments = buffer.idx + file.bytes.length := rfl
  have hcounter : d.bytesToSend.toInt = toCInt (buffer.idx + file.bytes.length : ℕ) := by
    show (Int32.ofInt buffer.idx + Int32.ofInt file.bytes.length).toInt = _
    rw [toCInt, Nat.cast_add, Int32.ofInt_add]
  have hidx (hsize : file.bytes.length < 2 ^ 31) : buffer.idx =
      (block (headLines (ascii "HTTP/1.1 200 OK") (mime realFile) [] file.bytes.length
        linger)).length := by
    rw [← buffer.length_header, headerBuffer_holds hsize]
  constructor
  · intro h
    have hcounted := h.counted
    have hmax := toInt_le_intMax d.bytesToSend
    change d.bytesToSend.toInt = offered d.segments at hcounted
    rw [hcounted, hoffered] at hmax
    unfold intMax at hmax
    rw [← hidx (by omega)]
    omega
  · intro h
    have hsize : file.bytes.length < 2 ^ 31 := by omega
    rw [← hidx hsize] at h
    refine ⟨fun beyond => ?_, ?_⟩
    · show Framed (gather (d.memory beyond) d.segments)
      rw [hgather, headerBuffer_holds hsize]
      exact framed_headLines ⟨List.cons_ne_nil _ _, plainLine_of_all rfl, rfl⟩ (.inl rfl)
        (mime_facts realFile).1 linger file.bytes
    · show d.bytesToSend.toInt = offered d.segments
      rw [hcounter, hoffered]
      exact toCInt_of_fits (by omega) (by unfold intMax; omega)

end Files

theorem file_right_iff (l : Lookup) : (Reply.file l).Right ↔ (Reply.file l).Fits := by
  have hcode : l.code = if l.canMap then .fileRequest else .internalError :=
    congrArg Prod.fst l.doRequest_eq
  have hfields := congrArg Prod.snd l.doRequest_eq
  show (l.handedOver.processWrite l.code).1 = true ∧
    WellFramed (l.handedOver.processWrite l.code).2 ↔ (l.canMap = true → _)
  cases hmap : l.canMap with
  | false =>
    rw [hmap, if_neg Bool.false_ne_true] at hcode
    rw [hcode]
    have hempty : Holds l.handedOver [] := rfl
    exact iff_of_true (page_right hempty rfl) nofun
  | true =>
    rw [hmap, if_pos rfl] at hcode
    have hfile : l.file.bytes ≠ [] := fun hempty => by
      rw [Lookup.canMap, l.mapped hempty] at hmap
      cases hmap
    have hserving : l.handedOver =
        FileDelivery.serving l.conn.linger (l.env.docRoot ++ l.conn.url) l.file := by
      unfold Lookup.handedOver FileDelivery.serving
      rw [hfields, hcode, if_pos rfl]
    rw [hcode, hserving, FileDelivery.processWrite_serving _ _ hfile, wellFramed_sending]
    exact ⟨fun h _ => h.2, fun h => ⟨rfl, h rfl⟩⟩

/-- A response is emitted with the right frame exactly when its length is in the
range of `int`; the built-in pages always are. -/
theorem responses_framed_iff (r : Reply) : r.Right ↔ r.Fits := by
  cases r with
  | api linger status payload =>
    have hframed : Framed ((HttpResponse.json status payload).toHttpString linger) := by
      rw [toHttpString_json]
      exact framed_headLines (statusLine_api status) (.inr rfl) (plainLine_of_all rfl) linger payload
    have hpos := hframed.length_pos
    have hright : (Reply.api linger status payload).Right ↔ _ :=
      wellFramed_answering linger ((HttpResponse.json status payload).toHttpString linger)
    rw [hright, and_iff_right hframed, and_iff_right hpos, toHttpString_json, List.length_append]
    exact Iff.rfl
  | file l => exact file_right_iff l
  | page linger realFile code built =>
    have hempty : Holds { HttpConn.reset with linger := linger, realFile := realFile } [] := rfl
    exact iff_of_true (page_right hempty built) trivial

/-- A file of 2 GiB: its length is announced as a negative number. -/
def bigFile : Lookup where
  env := ⟨[], none, fun _ => some ⟨true, false⟩, fun _ => true, fun _ => true⟩
  conn := { RequestParser.HttpConn.reset with url := ascii "/big.mp4" }
  file := ⟨List.replicate (2 ^ 31) 0, by rw [List.length_replicate]; decide⟩
  static := rfl
  found := ⟨_, rfl, rfl, rfl⟩
  opened := rfl
  mapped h := by
    have hlength := congrArg List.length h
    rw [List.length_replicate] at hlength
    cases hlength

theorem big_file_misframed : ¬ ∀ r : Reply, r.Right := by
  intro h
  have hfits := (file_right_iff bigFile).mp (h (.file bigFile)) rfl
  have hlength : bigFile.file.bytes.length = 2 ^ 31 := List.length_replicate
  omega

end Bookstore.Framing
