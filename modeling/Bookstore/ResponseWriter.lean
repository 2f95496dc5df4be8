import Bookstore.GatherWrites
import Bookstore.HttpTypes
import Bookstore.MachineInt

/-!
The writing half of `HttpConn`: building a response and sending it. A response
is sent from `api_response_`, or from the header in `write_buf_` followed by
the mapped file.
-/
namespace Bookstore.ResponseWriter

open HttpTypes GatherWrites MachineInt

/-! ## The write buffer -/

/-- `write_buf_` and `write_idx_`. -/
structure WriteBuffer where
  bytes : Bytes
  idx : ℕ
  size : bytes.length = kWriteBufSize
  idx_lt : idx < kWriteBufSize
deriving DecidableEq

def WriteBuffer.empty : WriteBuffer where
  bytes := List.replicate kWriteBufSize 0
  idx := 0
  size := List.length_replicate
  idx_lt := by decide

/-- What `vsnprintf` stores of a text that has no NUL. -/
def vsnprintf (room : ℕ) (text : Bytes) : Bytes :=
  if room = 0 then [] else text.take (room - 1) ++ [0]

def overwrite (bytes : Bytes) (idx : ℕ) (stored : Bytes) : Bytes :=
  bytes.take idx ++ stored ++ bytes.drop (idx + stored.length)

theorem length_vsnprintf_le (room : ℕ) (text : Bytes) : (vsnprintf room text).length ≤ room := by
  unfold vsnprintf
  split
  · exact Nat.zero_le _
  · simp only [List.length_append, List.length_take, List.length_singleton]
    omega

theorem length_overwrite {bytes stored : Bytes} {idx : ℕ} (h : idx + stored.length ≤ bytes.length) :
    (overwrite bytes idx stored).length = bytes.length := by
  simp only [overwrite, List.length_append, List.length_take, List.length_drop]
  omega

namespace WriteBuffer

def room (b : WriteBuffer) : ℕ := kWriteBufSize - 1 - b.idx

def stored (b : WriteBuffer) (text : Bytes) : Bytes :=
  overwrite b.bytes b.idx (vsnprintf b.room text)

theorem length_stored (b : WriteBuffer) (text : Bytes) : (b.stored text).length = kWriteBufSize := by
  have hroom : (vsnprintf b.room text).length ≤ kWriteBufSize - 1 - b.idx :=
    length_vsnprintf_le b.room text
  have hidx := b.idx_lt
  rw [stored, length_overwrite, b.size]
  rw [b.size]
  omega

/-- A text that does not fit is cut, and the index stays. -/
def addResponse (b : WriteBuffer) (text : Bytes) : Bool × WriteBuffer :=
  if h : text.length < b.room then
    (true, ⟨b.stored text, b.idx + text.length, b.length_stored text, by
      have hidx := b.idx_lt
      unfold room at h
      omega⟩)
  else (false, ⟨b.stored text, b.idx, b.length_stored text, b.idx_lt⟩)

/-- The header written so far. -/
def header (b : WriteBuffer) : Bytes := b.bytes.take b.idx

theorem length_header (b : WriteBuffer) : b.header.length = b.idx := by
  have hidx := b.idx_lt
  rw [header, List.length_take, b.size]
  omega

/-- Either the whole text is added to the header, or nothing of it. -/
theorem header_addResponse (b : WriteBuffer) (text : Bytes) :
    (b.addResponse text).2.header = if (b.addResponse text).1 then b.header ++ text else b.header := by
  have hidx := b.idx_lt
  have hsize := b.size
  have htake : (b.bytes.take b.idx).length = b.idx := b.length_header
  by_cases h : text.length < b.room
  · have htext : text.take (b.room - 1) = text := List.take_of_length_le (by omega)
    simp only [addResponse, dif_pos h, header, stored, overwrite, vsnprintf, if_true,
      if_neg (show ¬ b.room = 0 by omega), htext]
    rw [List.append_assoc, List.take_append, htake, List.take_of_length_le (by omega),
      Nat.add_sub_cancel_left, List.append_assoc, List.take_append, List.take_length, Nat.sub_self,
      List.take_zero, List.append_nil]
  · simp only [addResponse, dif_neg h, header, stored, overwrite]
    rw [List.append_assoc, List.take_append, htake, List.take_of_length_le (by omega), Nat.sub_self,
      List.take_zero, List.append_nil]
    rfl

end WriteBuffer

/-! ## The connection -/

/-- A mapping of a file of `off_t` size. -/
structure MappedFile where
  bytes : Bytes
  size_lt : bytes.length < 2 ^ 63
deriving DecidableEq

inductive Region
  | null
  | apiResponse
  | writeBuf
  | mappedFile
deriving DecidableEq

/-- The fields that building and sending a response use. The size in
`file_stat_` is that of the mapping made from it. -/
structure HttpConn where
  linger : Bool
  realFile : Bytes
  apiResponse : Bytes
  mmapFile : Option MappedFile
  writeBuf : WriteBuffer
  bytesToSend : Int32
  bytesSent : Int32
  iv0 : Segment Region
  iv1 : Segment Region
  ivCount : ℕ
deriving DecidableEq

/-- `reset_state`, also the state of a new connection. -/
def HttpConn.reset : HttpConn where
  linger := false
  realFile := []
  apiResponse := []
  mmapFile := none
  writeBuf := .empty
  bytesToSend := 0
  bytesSent := 0
  iv0 := ⟨.null, 0, 0⟩
  iv1 := ⟨.null, 0, 0⟩
  ivCount := 0

def HttpConn.fileSize (c : HttpConn) : ℕ :=
  match c.mmapFile with
  | some file => file.bytes.length
  | none => 0

/-- The memory the ranges point into; `beyond` is what lies outside the three
objects. -/
def HttpConn.memory (c : HttpConn) (beyond : Memory Region) : Memory Region := fun region offset =>
  let bytes : Bytes :=
    match region with
    | .null => []
    | .apiResponse => c.apiResponse
    | .writeBuf => c.writeBuf.bytes
    | .mappedFile =>
      match c.mmapFile with
      | some file => file.bytes
      | none => []
  if 0 ≤ offset then bytes[offset.toNat]?.getD (beyond region offset) else beyond region offset

/-! ## Building a response -/

namespace HttpConn

def addResponse (c : HttpConn) (text : Bytes) : Bool × HttpConn :=
  ((c.writeBuf.addResponse text).1, { c with writeBuf := (c.writeBuf.addResponse text).2 })

def decimal (n : Int32) : Bytes := ascii (toString n.toInt)

def addStatusLine (c : HttpConn) (status : Int32) (title : Bytes) : Bool × HttpConn :=
  c.addResponse (ascii "HTTP/1.1 " ++ decimal status ++ ascii " " ++ title ++ ascii "\r\n")

def addContentLength (c : HttpConn) (contentLen : Int32) : Bool × HttpConn :=
  c.addResponse (ascii "Content-Length:" ++ decimal contentLen ++ ascii "\r\n")

def kMimeTypes : List (Bytes × Bytes) :=
  [(".html", "text/html"), (".htm", "text/html"), (".css", "text/css"),
    (".js", "application/javascript"), (".json", "application/json"), (".jpg", "image/jpeg"),
    (".jpeg", "image/jpeg"), (".png", "image/png"), (".gif", "image/gif"),
    (".ico", "image/x-icon"), (".svg", "image/svg+xml"), (".mp4", "video/mp4"),
    (".webm", "video/webm"), (".txt", "text/plain"), (".xml", "application/xml"),
    (".pdf", "application/pdf")].map fun (ext, mime) => (ascii ext, ascii mime)

/-- From the last dot to the first NUL after it. -/
def extension (realFile : Bytes) : Option Bytes :=
  let dot := (ascii ".").headD 0
  if dot ∈ realFile then
    some (dot :: ((realFile.reverse.takeWhile (· ≠ dot)).reverse.takeWhile (· ≠ 0)))
  else none

def addContentType (c : HttpConn) : Bool × HttpConn :=
  match (extension c.realFile).bind fun ext => kMimeTypes.lookup ext with
  | some mime => c.addResponse (ascii "Content-Type:" ++ mime ++ ascii "\r\n")
  | none => c.addResponse (ascii "Content-Type:application/octet-stream\r\n")

def addLinger (c : HttpConn) : Bool × HttpConn :=
  c.addResponse
    (ascii "Connection:" ++ ascii (if c.linger then "keep-alive" else "close") ++ ascii "\r\n")

def addBlankLine (c : HttpConn) : Bool × HttpConn := c.addResponse (ascii "\r\n")

/-- The next part is added when this one was. -/
def andThen (r : Bool × HttpConn) (next : HttpConn → Bool × HttpConn) : Bool × HttpConn :=
  if r.1 then next r.2 else r

def addHeaders (c : HttpConn) (contentLen : Int32) : Bool × HttpConn :=
  andThen (andThen (c.addContentLength contentLen) addLinger) addBlankLine

def addContent (c : HttpConn) (content : Bytes) : Bool × HttpConn := c.addResponse content

def kEmpty : Bytes := ascii "<html><body></body></html>"

/-- The built-in error pages: status, title and body. -/
def errDesc : HttpCode → Option (Int32 × Bytes × Bytes)
  | .internalError => some (500, ascii "Internal Error",
      ascii "There was an unusual problem serving the request file.\n")
  | .badRequest => some (400, ascii "Bad Request",
      ascii "Your request has bad syntax or is inherently impossible to satisfy.\n")
  | .forbiddenRequest => some (403, ascii "Forbidden",
      ascii "You do not have permission to get file from this server.\n")
  | .noResource => some (404, ascii "Not Found",
      ascii "The requested file was not found on this server.\n")
  | _ => none

/-- The common end of the responses held in `write_buf_` alone. -/
def finish (c : HttpConn) : HttpConn :=
  { c with
    iv0 := ⟨.writeBuf, 0, c.writeBuf.idx⟩
    ivCount := 1
    bytesToSend := Int32.ofInt c.writeBuf.idx }

def finishWith (c : HttpConn) (content : Bytes) : Bool × HttpConn :=
  let r := c.addContent content
  if r.1 then (true, r.2.finish) else r

/-- The header of a file response. -/
def fileHeader (c : HttpConn) : HttpConn :=
  ((c.addStatusLine 200 (ascii "OK")).2.addContentType.2.addHeaders (Int32.ofInt c.fileSize)).2

def processWrite (c : HttpConn) (ret : HttpCode) : Bool × HttpConn :=
  match ret with
  | .apiResponse =>
    let c : HttpConn := { c with
      iv0 := ⟨.apiResponse, 0, c.apiResponse.length⟩
      ivCount := 1
      bytesToSend := Int32.ofInt c.apiResponse.length }
    (decide (0 < c.bytesToSend), c)
  | .fileRequest =>
    if c.fileSize ≠ 0 then
      let c := c.fileHeader
      (true, { c with
        iv0 := ⟨.writeBuf, 0, c.writeBuf.idx⟩
        iv1 := ⟨.mappedFile, 0, c.fileSize⟩
        ivCount := 2
        bytesToSend := Int32.ofInt c.writeBuf.idx + Int32.ofInt c.fileSize })
    else
      let c := (c.addStatusLine 200 (ascii "OK")).2.addContentType.2.addContentType.2
      (c.addHeaders (Int32.ofInt kEmpty.length)).2.finishWith kEmpty
  | _ =>
    match errDesc ret with
    | some (status, title, body) =>
      let c := ((c.addStatusLine status title).2.addResponse (ascii "Content-Type:text/html\r\n")).2
      (c.addHeaders (Int32.ofInt body.length)).2.finishWith body
    | none => (false, c)

/-- Building a header touches the write buffer only. -/
def OnlyBuffer (c d : HttpConn) : Prop := { c with writeBuf := d.writeBuf } = d

theorem OnlyBuffer.trans {c d e : HttpConn} (hcd : OnlyBuffer c d) (hde : OnlyBuffer d e) :
    OnlyBuffer c e := by
  unfold OnlyBuffer at hcd hde ⊢
  rw [← hde, ← hcd]

theorem addContentType_only (c : HttpConn) : OnlyBuffer c c.addContentType.2 := by
  unfold addContentType
  split <;> rfl

theorem andThen_only {c : HttpConn} {r : Bool × HttpConn} {next : HttpConn → Bool × HttpConn}
    (hr : OnlyBuffer c r.2) (hnext : ∀ d, OnlyBuffer d (next d).2) :
    OnlyBuffer c (andThen r next).2 := by
  unfold andThen
  split
  · exact hr.trans (hnext r.2)
  · exact hr

theorem addHeaders_only (c : HttpConn) (contentLen : Int32) :
    OnlyBuffer c (c.addHeaders contentLen).2 :=
  andThen_only (andThen_only rfl fun _ => rfl) fun _ => rfl

theorem fileHeader_only (c : HttpConn) : OnlyBuffer c c.fileHeader := by
  have hstatus : OnlyBuffer c (c.addStatusLine 200 (ascii "OK")).2 := rfl
  exact (hstatus.trans (addContentType_only _)).trans (addHeaders_only _ _)

/-! ## Sending it -/

/-- The region `mmap_file_.get()` points to. -/
def mmapGet (c : HttpConn) : Region :=
  match c.mmapFile with
  | some _ => .mappedFile
  | none => .null

/-- Subtraction of `size_t`. -/
def subSize (a b : ℕ) : ℕ := if b ≤ a then a - b else a + 2 ^ 64 - b

/-- The ranges after a partial write of `n` bytes. -/
def adjust (c : HttpConn) (n : ℕ) : HttpConn :=
  if Int32.ofInt c.iv0.length ≤ c.bytesSent then
    { c with
      iv0 := { c.iv0 with length := 0 }
      iv1 := ⟨c.mmapGet, (c.bytesSent - Int32.ofInt c.writeBuf.idx).toInt, c.bytesToSend.toInt.toNat⟩ }
  else
    { c with iv0 := ⟨.writeBuf, c.bytesSent.toInt, subSize c.iv0.length n⟩ }

/-- The top of `write`. -/
def enter (c : HttpConn) : Phase HttpConn :=
  if c.bytesToSend = 0 then .returned .reset .idle else .looping c

def took (c : HttpConn) (n : ℕ) : HttpConn :=
  { c with
    bytesSent := c.bytesSent + Int32.ofInt n
    bytesToSend := c.bytesToSend - Int32.ofInt n }

/-- What the loop of `write` does with the answer of `writev`. -/
def next (c : HttpConn) : Result → Phase HttpConn
  | .failed => .returned { c with mmapFile := none } .failed
  | .again => .waiting c
  | .accepted n =>
    let c := c.took n
    if c.bytesToSend ≤ 0 then
      .returned (if c.linger then .reset else { c with mmapFile := none }) .completed
    else .looping (c.adjust n)

def segments (c : HttpConn) : List (Segment Region) := [c.iv0, c.iv1].take c.ivCount

def write : Sender HttpConn Region := ⟨enter, segments, next⟩

/-- Where sending starts: `process` closes the connection when there is no
response. -/
def respond (c : HttpConn) (ret : HttpCode) : Phase HttpConn :=
  if (c.processWrite ret).1 then (c.processWrite ret).2.enter
  else .returned (c.processWrite ret).2 .failed

end HttpConn

/-! ## Runs of the loop -/

open HttpConn

theorem adjust_of_le {c : HttpConn} (n : ℕ) (h : toCInt c.iv0.length ≤ c.bytesSent.toInt) :
    c.adjust n = { c with
      iv0 := { c.iv0 with length := 0 }
      iv1 := ⟨c.mmapGet, (c.bytesSent - Int32.ofInt c.writeBuf.idx).toInt,
        c.bytesToSend.toInt.toNat⟩ } := by
  rw [adjust, if_pos (Int32.le_iff_toInt_le.mpr h)]

theorem adjust_of_lt {c : HttpConn} (n : ℕ) (h : c.bytesSent.toInt < toCInt c.iv0.length) :
    c.adjust n =
      { c with iv0 := ⟨.writeBuf, c.bytesSent.toInt, subSize c.iv0.length n⟩ } := by
  rw [adjust, if_neg (fun hle => Int.not_le.mpr h (Int32.le_iff_toInt_le.mp hle))]

/-- The two counters after `n` of `total` bytes. -/
structure Counted (total n : ℕ) (c : HttpConn) : Prop where
  sent : c.bytesSent = Int32.ofInt n
  left : c.bytesToSend = Int32.ofInt (total - n)

theorem Counted.took {total n : ℕ} {c : HttpConn} (h : Counted total n c) (m : ℕ) :
    Counted total (n + m) (c.took m) where
  sent := by simp only [HttpConn.took, h.sent, Nat.cast_add, Int32.ofInt_add]
  left := by
    have hsub : (total : ℤ) - (n + m : ℕ) = total - n - m := by omega
    simp only [HttpConn.took, h.left, hsub, Int32.ofInt_sub]

theorem Counted.adjust {total n : ℕ} {c : HttpConn} (h : Counted total n c) (m : ℕ) :
    Counted total n (c.adjust m) := by
  unfold HttpConn.adjust
  split
  · exact ⟨h.sent, h.left⟩
  · exact ⟨h.sent, h.left⟩

/-- The loop goes on while the counter says that bytes are left. -/
theorem Counted.next_accepted {total n : ℕ} {c : HttpConn} (h : Counted total n c) (m : ℕ) :
    (toCInt (total - (n + m : ℕ)) ≤ 0 ∧ ∃ t, c.next (.accepted m) = .returned t .completed) ∨
    (0 < toCInt (total - (n + m : ℕ)) ∧ c.next (.accepted m) = .looping ((c.took m).adjust m)) := by
  by_cases hdone : toCInt (total - (n + m : ℕ)) ≤ 0
  · refine .inl ⟨hdone, if (c.took m).linger then .reset else { c.took m with mmapFile := none }, ?_⟩
    simp only [HttpConn.next, (h.took m).left, if_pos ((ofInt_le_zero_iff _).mpr hdone)]
  · refine .inr ⟨Int.not_le.mp hdone, ?_⟩
    simp only [HttpConn.next, (h.took m).left,
      if_neg (fun hle => hdone ((ofInt_le_zero_iff _).mp hle))]

/-- By the counts alone the loop is still going on after `k` answers. -/
def Unfinished (total : ℕ) (results : ℕ → Result) (k : ℕ) : Prop :=
  toCInt total ≠ 0 ∧ ∀ j ≤ k, 0 < sent results j → 0 < toCInt (total - sent results j)

theorem Unfinished.mono {total j k : ℕ} {results : ℕ → Result} (h : Unfinished total results k)
    (hj : j ≤ k) : Unfinished total results j :=
  ⟨h.1, fun i hi => h.2 i (Nat.le_trans hi hj)⟩

theorem Unfinished.succ {total k : ℕ} {results : ℕ → Result} (h : Unfinished total results k)
    (hnext : 0 < sent results (k + 1) → 0 < toCInt (total - sent results (k + 1))) :
    Unfinished total results (k + 1) := by
  refine ⟨h.1, fun j hj hsent => ?_⟩
  rcases Nat.lt_or_eq_of_le hj with hlt | rfl
  · exact h.2 j (Nat.le_of_lt_succ hlt) hsent
  · exact hnext hsent

theorem Unfinished.left_ne_zero {total k : ℕ} {results : ℕ → Result}
    (h : Unfinished total results k) : toCInt (total - sent results k) ≠ 0 := by
  rcases Nat.eq_zero_or_pos (sent results k) with hzero | hpos
  · rw [hzero, Nat.cast_zero, Int.sub_zero]
    exact h.1
  · exact (h.2 k (Nat.le_refl k) hpos).ne'

theorem ofInt_ne_zero {z : ℤ} (h : toCInt z ≠ 0) : Int32.ofInt z ≠ 0 := by
  intro heq
  apply h
  rw [toCInt, heq, Int32.toInt_zero]

section Runs

variable {mem : Memory Region} {c₀ : HttpConn} {results : ℕ → Result} {total : ℕ}
  {I : ℕ → HttpConn → Prop}

theorem head_waiting {c : HttpConn} (h : c.bytesToSend ≠ 0) : write.head (.waiting c) = some c := by
  simp only [Sender.head, Sender.resume, write, enter, if_neg h]

theorem head_enter {c : HttpConn} (h : c.bytesToSend ≠ 0) : write.head c.enter = some c := by
  simp only [enter, if_neg h, Sender.head, Sender.resume]

/-- At a head that offers something an accepting answer moves the run on. -/
theorem count_pos {k n : ℕ} {c : HttpConn} (hobeys : write.Obeys mem c₀.enter results)
    (hhead : write.head (write.after mem c₀.enter results k).phase = some c)
    (hoffered : 0 < offered c.segments) (hr : results k = .accepted n) :
    0 < n ∧ n ≤ offered c.segments := by
  have hlegal := hobeys k c hhead
  rw [hr] at hlegal
  exact ⟨hlegal.2 hoffered, hlegal.1⟩

/-- An invariant of the partial writes holds at every head of the loop. -/
theorem head_of_unfinished (hobeys : write.Obeys mem c₀.enter results)
    (hcounted : ∀ n c, I n c → Counted total n c) (hstart : I 0 c₀)
    (hoffered : ∀ n c, I n c → toCInt (total - n) ≠ 0 → 0 < offered c.segments)
    (hstep : ∀ k c n, Unfinished total results (k + 1) →
      write.head (write.after mem c₀.enter results k).phase = some c → I (sent results k) c →
      results k = .accepted n → I (sent results k + n) ((c.took n).adjust n))
    {k : ℕ} (hk : Unfinished total results k) :
    ∃ c, write.head (write.after mem c₀.enter results k).phase = some c ∧ I (sent results k) c := by
  induction k with
  | zero =>
    refine ⟨c₀, head_enter ?_, hstart⟩
    rw [(hcounted 0 c₀ hstart).left]
    exact ofInt_ne_zero (by simpa using hk.1)
  | succ k ih =>
    have hprev := hk.mono (Nat.le_succ k)
    obtain ⟨c, hhead, hc⟩ := ih hprev
    have hcount := hcounted _ c hc
    rw [Sender.after_succ_of_head hhead]
    rcases hr : results k with n | _ | _
    · have hsent : sent results (k + 1) = sent results k + n := by rw [sent, hr, Result.count]
      have hpos := (count_pos hobeys hhead (hoffered _ c hc hprev.left_ne_zero) hr).1
      rcases hcount.next_accepted n with ⟨hdone, -⟩ | ⟨-, hnext⟩
      · rw [← hsent] at hdone
        exact absurd (hk.2 (k + 1) (Nat.le_refl _) (by omega)) (Int.not_lt.mpr hdone)
      · refine ⟨(c.took n).adjust n, ?_, hsent ▸ hstep k c n hk hhead hc hr⟩
        change write.head (c.next (.accepted n)) = _
        rw [hnext, Sender.head_looping]
    · have hsent : sent results (k + 1) = sent results k := by
        simp only [sent, hr, Result.count, Nat.add_zero]
      refine ⟨c, head_waiting ?_, hsent ▸ hc⟩
      rw [hcount.left]
      exact ofInt_ne_zero hprev.left_ne_zero
    · have hlegal := hobeys k c hhead
      rw [hr] at hlegal
      exact hlegal.elim

theorem enter_ne_waiting (c t : HttpConn) : write.enter c ≠ .waiting t := by
  simp only [write, enter]
  split <;> exact fun h => nomatch h

/-- The loop goes on only while the counts say so. -/
theorem unfinished_of_head (hobeys : write.Obeys mem c₀.enter results)
    (hcounted : ∀ n c, I n c → Counted total n c) (hstart : I 0 c₀)
    (hoffered : ∀ n c, I n c → toCInt (total - n) ≠ 0 → 0 < offered c.segments)
    (hstep : ∀ k c n, Unfinished total results (k + 1) →
      write.head (write.after mem c₀.enter results k).phase = some c → I (sent results k) c →
      results k = .accepted n → I (sent results k + n) ((c.took n).adjust n))
    {k : ℕ} {c : HttpConn} (h : write.head (write.after mem c₀.enter results k).phase = some c) :
    Unfinished total results k := by
  induction k generalizing c with
  | zero =>
    refine ⟨fun hzero => ?_, fun j hj hsent => ?_⟩
    · have hleft := (hcounted 0 c₀ hstart).left
      have hnothing : c₀.bytesToSend = 0 := by
        rw [hleft, ← Int32.toInt_inj, Int32.toInt_zero]
        simpa [toCInt] using hzero
      simp [Sender.after, Sender.head, Sender.resume, enter, hnothing] at h
    · rw [Nat.le_zero.mp hj] at hsent
      exact absurd hsent (Nat.lt_irrefl 0)
  | succ k ih =>
    obtain ⟨d, hd⟩ := Sender.head_of_head_succ enter_ne_waiting h
    have hprev := ih hd
    obtain ⟨d', hd', hI⟩ := head_of_unfinished hobeys hcounted hstart hoffered hstep hprev
    cases Option.some.inj (hd.symm.trans hd')
    refine hprev.succ fun hsent => ?_
    rw [Sender.after_succ_of_head hd] at h
    rcases hr : results k with n | _ | _
    · have hsum : sent results (k + 1) = sent results k + n := by rw [sent, hr, Result.count]
      rcases (hcounted _ d hI).next_accepted n with ⟨-, t, hback⟩ | ⟨hmore, -⟩
      · rw [hr] at h
        change write.head (d.next (.accepted n)) = _ at h
        rw [hback] at h
        cases h
      · rw [hsum]
        exact hmore
    · have hsum : sent results (k + 1) = sent results k := by
        simp only [sent, hr, Result.count, Nat.add_zero]
      rw [hsum] at hsent ⊢
      exact hprev.2 k (Nat.le_refl k) hsent
    · have hlegal := hobeys k d hd
      rw [hr] at hlegal
      exact hlegal.elim

end Runs

end Bookstore.ResponseWriter
