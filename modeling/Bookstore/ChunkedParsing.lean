import Bookstore.LineReading

/-!
One request that arrives in several chunks, each followed by a call of
`process_read`. A call that finds the body incomplete looks for a line in it; it
stays at the start of the body only when no line and no other byte comes first.
-/
namespace Bookstore.ChunkedParsing

open HttpTypes RequestParser RequestParser.HttpConn LineReading

/-! ## Requests -/

/-- The header lines with their ends, and the blank line. -/
def headerBytes : List Bytes → Bytes
  | [] => [13, 10]
  | line :: rest => line ++ 13 :: 10 :: headerBytes rest

def headBytes (requestLine : Bytes) (headers : List Bytes) : Bytes :=
  requestLine ++ 13 :: 10 :: headerBytes headers

/-- A request line, header lines, and as many bytes of a body as the last content
length says. -/
structure Written where
  requestLine : Bytes
  headers : List Bytes
  body : Bytes
  plain : PlainLine requestLine
  header : ∀ line ∈ headers, HeaderLine line
  length : (headers.foldl lengthAfter 0).toInt = body.length
  fits : (headBytes requestLine headers).length + body.length ≤ kReadBufSize

namespace Written

def head (r : Written) : Bytes := headBytes r.requestLine r.headers

def bytes (r : Written) : Bytes := r.head ++ r.body

/-- The request line is one that `parse_request_line` takes. -/
def Accepted (r : Written) : Prop :=
  (HttpConn.reset.parseRequestLine (r.requestLine ++ [0, 0])).1 = .noRequest

instance (r : Written) : Decidable r.Accepted :=
  inferInstanceAs (Decidable (_ = HttpCode.noRequest))

end Written

/-- A request whose line is accepted. -/
structure Request extends Written where
  accepted : toWritten.Accepted

/-- The verdicts of the calls after each chunk. -/
def feed (env : Env) : HttpConn → List Bytes → Except Exception (List HttpCode × HttpConn)
  | c, [] => .ok ([], c)
  | c, chunk :: rest =>
    match processRead env (c.receive chunk) with
    | .error e => .error e
    | .ok (ret, d) => (feed env d rest).map fun answer => (ret :: answer.1, answer.2)

/-- The chunks end in the verdict and the fields that the whole gives at once,
and every verdict before asks for more. -/
def ParsesAlike (env : Env) (bytes : Bytes) (chunks : List Bytes) : Prop :=
  ∃ rets ret c d, feed env .reset chunks = .ok (rets, c) ∧
    processRead env (HttpConn.reset.receive bytes) = .ok (ret, d) ∧
    rets = List.replicate (chunks.length - 1) .noRequest ++ [ret] ∧
    c.method = d.method ∧ c.url = d.url ∧ c.linger = d.linger ∧ c.host = d.host ∧
    c.requestBody = d.requestBody

/-- The part of a body at which looking for a line does not move on. -/
def KeepsIndex (part : Bytes) : Prop :=
  part.head? = some 10 ∨ part.head? = some 13 ∧ part[1]? ≠ some 10

/-- Cuts in the head leave no part of the body. -/
theorem Written.kept_of_cutInHead (r : Written) {front : List Bytes} {last : Bytes}
    (hjoin : front.flatten ++ last = r.bytes) (hinside : front.flatten.length ≤ r.head.length) :
    ∀ pre part, pre <+: front ++ [last] → pre.flatten = r.head ++ part →
      part = [] ∨ part = r.body ∨ KeepsIndex part := by
  intro pre part hpre hcut
  rcases List.prefix_concat_iff.mp hpre with rfl | hfront
  · right
    left
    have hflat : (front ++ [last]).flatten = front.flatten ++ last := by simp
    exact List.append_cancel_left (hcut.symm.trans (hflat.trans hjoin))
  · left
    obtain ⟨more, rfl⟩ := hfront
    have hlength := congrArg List.length hcut
    simp only [List.flatten_append, List.length_append] at hlength hinside
    exact List.eq_nil_of_length_eq_zero (by omega)

/-! ## The head -/

section Head

variable {env : Env} {c : HttpConn}

/-- The bytes received stop in the first line or go beyond it. -/
theorem prefix_line_cases {line rest part : Bytes} (hpart : part <+: line ++ 13 :: 10 :: rest) :
    (part <+: line ++ [13, 10] ∧ part.length < line.length + 2) ∨
      ∃ part', part = line ++ 13 :: 10 :: part' ∧ part' <+: rest := by
  have hlong : line ++ [13, 10] <+: line ++ 13 :: 10 :: rest :=
    ⟨rest, by rw [List.append_assoc]; rfl⟩
  have hlength : (line ++ [13, 10]).length = line.length + 2 := List.length_append
  by_cases hshort : part.length < line.length + 2
  · left
    refine ⟨List.prefix_of_prefix_length_le hpart hlong ?_, hshort⟩
    rw [hlength]
    exact Nat.le_of_lt hshort
  · right
    obtain ⟨part', rfl⟩ := List.prefix_of_prefix_length_le hlong hpart (by omega)
    refine ⟨part', by rw [List.append_assoc]; rfl, ?_⟩
    rw [List.append_assoc] at hpart
    have hdrop := (List.prefix_append_right_inj line).mp hpart
    exact (List.prefix_append_right_inj [13, 10]).mp hdrop

theorem headers_suspend {headers : List Bytes} (hheader : ∀ line ∈ headers, HeaderLine line)
    (hall : AllHandled c) (hstate : c.checkState = .header) {part : Bytes}
    (hpart : part <+: headerBytes headers) (hlt : part.length < (headerBytes headers).length) :
    Suspends env c part := by
  have hcontent : ∀ {d : HttpConn}, d.checkState = .header → d.checkState ≠ .content := by
    intro d hd
    rw [hd]
    exact nofun
  induction headers generalizing c part with
  | nil =>
    exact suspends_short hall (hcontent hstate) plainLine_nil hpart hlt
  | cons line rest ih =>
    have hline := hheader line List.mem_cons_self
    rcases prefix_line_cases hpart with ⟨hfirst, hshort⟩ | ⟨part', rfl, hpart'⟩
    · exact suspends_short hall (hcontent hstate) hline.plain hfirst hshort
    · obtain ⟨d, hhandle, hd, hdstate, -⟩ := @handleLine_headerLine env c line hall hstate hline
      apply Suspends.line hall (hcontent hstate) hline.plain hhandle
      refine ih (fun line' hmem => hheader line' (List.mem_cons_of_mem _ hmem)) hd hdstate hpart' ?_
      rw [headerBytes, List.length_append, List.length_append] at hlt
      simp only [List.length_cons] at hlt
      omega

/-- Behind the header lines only the blank line is left of the head. -/
theorem headers_read {headers : List Bytes} (hheader : ∀ line ∈ headers, HeaderLine line)
    (hall : AllHandled c) (hstate : c.checkState = .header) :
    ∃ d, AllHandled d ∧ d.checkState = .header ∧
      d.contentLength = headers.foldl lengthAfter c.contentLength ∧
      d.readBuf.length + 2 = c.readBuf.length + (headerBytes headers).length ∧
      ∀ rest, processRead env (c.receive (headerBytes headers ++ rest)) =
        processRead env (d.receive (13 :: 10 :: rest)) := by
  induction headers generalizing c with
  | nil => exact ⟨c, hall, hstate, rfl, rfl, fun _ => rfl⟩
  | cons line rest ih =>
    have hline := hheader line List.mem_cons_self
    have hcontent : c.checkState ≠ .content := by
      rw [hstate]
      exact nofun
    obtain ⟨e, hhandle, he, hestate, helength, hebuf⟩ :=
      @handleLine_headerLine env c line hall hstate hline
    obtain ⟨d, hd, hdstate, hdlength, hdbuf, hread⟩ :=
      ih (fun line' hmem => hheader line' (List.mem_cons_of_mem _ hmem)) he hestate
    refine ⟨d, hd, hdstate, ?_, ?_, fun more => ?_⟩
    · rw [hdlength, helength, List.foldl_cons]
    · rw [hdbuf, hebuf, headerBytes]
      simp only [List.length_append, List.length_cons, List.length_nil]
      omega
    · rw [headerBytes, List.append_assoc, ← hread]
      exact processRead_line hall hcontent hline.plain hhandle (headerBytes rest ++ more)

theorem head_suspends (r : Request) {part : Bytes} (hpart : part <+: r.head)
    (hlt : part.length < r.head.length) : Suspends env .reset part := by
  rcases prefix_line_cases hpart with ⟨hfirst, hshort⟩ | ⟨part', rfl, hpart'⟩
  · exact suspends_short allHandled_reset reset_not_content r.plain hfirst hshort
  · obtain ⟨d, hhandle, hd, hdstate, -⟩ :=
      @handleLine_requestLine env _ _ allHandled_reset rfl r.accepted
    apply Suspends.line allHandled_reset reset_not_content r.plain hhandle
    apply headers_suspend r.header hd hdstate hpart'
    rw [Written.head, headBytes, List.length_append, List.length_append] at hlt
    simp only [List.length_cons] at hlt
    omega

/-- All but the blank line of the head has been handled. -/
structure AtBlank (r : Request) (c : HttpConn) : Prop where
  all : AllHandled c
  state : c.checkState = .header
  length : c.contentLength.toInt = r.body.length
  buf : c.readBuf.length + 2 = r.head.length

theorem head_read (env : Env) (r : Request) : ∃ d, AtBlank r d ∧
    ∀ rest, processRead env (HttpConn.reset.receive (r.head ++ rest)) =
      processRead env (d.receive (13 :: 10 :: rest)) := by
  obtain ⟨e, hhandle, he, hestate, helength, hebuf⟩ :=
    @handleLine_requestLine env _ _ allHandled_reset rfl r.accepted
  obtain ⟨d, hd, hdstate, hdlength, hdbuf, hread⟩ := @headers_read env _ _ r.header he hestate
  refine ⟨d, ⟨hd, hdstate, ?_, ?_⟩, fun rest => ?_⟩
  · rw [hdlength, helength]
    exact r.length
  · rw [hdbuf, hebuf, Written.head, headBytes]
    simp only [List.length_append, List.length_cons, List.length_nil]
    change 0 + r.requestLine.length + (0 + 1 + 1) + (headerBytes r.headers).length = _
    omega
  · rw [← hread, Written.head, headBytes, List.append_assoc]
    exact processRead_line allHandled_reset reset_not_content r.plain hhandle
      (headerBytes r.headers ++ rest)

end Head

/-! ## The body -/

section Body

variable {env : Env} {r : Request} {c : HttpConn}

/-- The head has been handled and a body follows. -/
structure AtBody (r : Request) (c : HttpConn) : Prop where
  all : AllHandled c
  state : c.checkState = .content
  length : c.contentLength.toInt = r.body.length
  buf : c.readBuf.length = r.head.length
  last : c.readBuf[c.readBuf.length - 1]? = some 0

theorem blank_read (hblank : AtBlank r c) (hbody : r.body ≠ []) : ∃ d, AtBody r d ∧
    ∀ rest, processRead env (c.receive (13 :: 10 :: rest)) = processRead env (d.receive rest) := by
  have hcontent : c.checkState ≠ .content := by
    rw [hblank.state]
    exact nofun
  have hsome : c.contentLength ≠ 0 := by
    intro hzero
    have hlength := hblank.length
    rw [hzero, Int64.toInt_zero] at hlength
    have hnil : r.body.length = 0 := by omega
    exact hbody (List.eq_nil_of_length_eq_zero hnil)
  have hhandle := @handleLine_blank env c hblank.all hblank.state
  rw [if_pos hsome] at hhandle
  let d : HttpConn := { passed c [] with checkState := .content }
  have hbuf : d.readBuf = c.readBuf ++ [] ++ [0, 0] := rfl
  refine ⟨d, ⟨⟨rfl, rfl⟩, rfl, hblank.length, ?_, ?_⟩, fun rest => ?_⟩
  · rw [hbuf, ← hblank.buf, List.append_nil, List.length_append]
    rfl
  · rw [hbuf, List.append_nil, List.length_append]
    simp
  · exact @processRead_line env c d hblank.all hcontent [] plainLine_nil hhandle rest

/-- The bytes of the body received so far fit. -/
theorem AtBody.inBuffer (h : AtBody r c) {part : Bytes} (hle : part.length ≤ r.body.length) :
    InBuffer (c.receive part) := by
  have hlength : (c.receive part).readBuf.length = c.readBuf.length + part.length :=
    List.length_append
  have hfits : r.head.length + r.body.length ≤ kReadBufSize := r.fits
  constructor
  · rw [hlength]
    exact Nat.le_trans (Nat.le_of_eq h.all.checked) (Nat.le_add_right _ _)
  · rw [hlength, h.buf]
    omega

/-- An incomplete body is looked at in vain. -/
theorem handleLine_incomplete (hin : InBuffer c) (hstate : c.checkState = .content)
    (hmissing : c.contentLength.toInt ≤ 0 ∨
      c.readBuf.length < c.checkedIdx + c.contentLength.toInt)
    (hfits : ¬ BodyOverflows c) :
    c.handleLine env = .inl ({ c with lineStart := c.checkedIdx }, .open) := by
  have hparse := @parseContent_incomplete { c with lineStart := c.checkedIdx }
    ⟨hin.checked, hin.size⟩ hmissing hfits
  unfold HttpConn.handleLine
  dsimp only
  split
  · rename_i hother
    cases hother.symm.trans hstate
  · rename_i hother
    cases hother.symm.trans hstate
  · rw [hparse]
    rfl

/-- The first look at an incomplete body; a line is looked for next. -/
theorem body_looked_at (h : AtBody r c) {part : Bytes} (hlt : part.length < r.body.length) :
    processRead env (c.receive part) = (readLoop env).run (c.receive part, .open) := by
  have hin := h.inBuffer (Nat.le_of_lt hlt)
  have hsize : (c.receive part).readBuf.length = c.readBuf.length + part.length :=
    List.length_append
  have hlength : (c.receive part).contentLength.toInt = r.body.length := h.length
  have hidx : (c.receive part).checkedIdx = c.readBuf.length := h.all.checked
  have hfits : r.head.length + r.body.length ≤ kReadBufSize := r.fits
  have hbuf := h.buf
  have hsmall : kReadBufSize = 2048 := rfl
  have hsame : { c.receive part with lineStart := (c.receive part).checkedIdx } =
      c.receive part := by
    have hline : (c.receive part).checkedIdx = (c.receive part).lineStart :=
      h.all.checked.trans h.all.line.symm
    rw [hline]
  have hhandle := @handleLine_incomplete env (c.receive part) hin h.state (.inr (by omega)) (by
    unfold BodyOverflows
    omega)
  rw [hsame] at hhandle
  apply Loops.Loop.run_of_goes_on
  have hhandles : Handles (c.receive part, .ok) (c.receive part) := by
    unfold Handles
    rw [if_pos ⟨h.state, rfl⟩]
  exact (turn_of_handles hhandles).trans hhandle

theorem body_eolIdx (h : AtBody r c) (part : Bytes) :
    (c.receive part).eolIdx =
      (c.receive part).checkedIdx + (part.takeWhile fun b => !isEol b).length := by
  change c.checkedIdx +
    (((c.readBuf ++ part).drop c.checkedIdx).takeWhile fun b => !isEol b).length = _
  rw [h.all.checked, List.drop_left]
  exact congrArg (· + _) h.all.checked.symm

theorem parseLine_keeps (h : AtBody r c) {part : Bytes} (hpart : part = [] ∨ KeepsIndex part) :
    (c.receive part).parseLine.1 ≠ .ok ∧
      (c.receive part).eolIdx = (c.receive part).checkedIdx := by
  have hbuf : (c.receive part).readBuf = c.readBuf ++ part := rfl
  have hidx : (c.receive part).checkedIdx = c.readBuf.length := h.all.checked
  have heol : (c.receive part).eolIdx = (c.receive part).checkedIdx := by
    rw [body_eolIdx h]
    rcases hpart with rfl | hlf | ⟨hcr, -⟩
    · rfl
    · obtain ⟨tail, rfl⟩ := List.head?_eq_some_iff.mp hlf
      rfl
    · obtain ⟨tail, rfl⟩ := List.head?_eq_some_iff.mp hcr
      rfl
  refine ⟨?_, heol⟩
  unfold HttpConn.parseLine
  simp only [heol, hidx, hbuf, List.drop_left]
  rcases hpart with rfl | hlf | ⟨hcr, hnext⟩
  · exact nofun
  · obtain ⟨tail, rfl⟩ := List.head?_eq_some_iff.mp hlf
    rw [if_neg]
    · exact nofun
    · rintro ⟨hpos, hbefore⟩
      rw [List.getElem?_append_left (by omega), h.last] at hbefore
      cases hbefore
  · obtain ⟨tail, rfl⟩ := List.head?_eq_some_iff.mp hcr
    cases tail with
    | nil => exact nofun
    | cons b rest =>
      have hb : b ≠ 10 := fun heq => hnext (congrArg some heq)
      split
      · exact nofun
      · rename_i heq
        obtain rfl := (List.cons.inj heq).2
        split
        · exact nofun
        · rename_i heq
          exact absurd (List.cons.inj heq).1 hb
        · exact nofun
      · rename_i hother
        exact absurd rfl (hother (b :: rest))

theorem parseLine_moves (h : AtBody r c) {part : Bytes} (hpart : part ≠ [])
    (hmoves : ¬ KeepsIndex part) : (c.receive part).parseLine.1 = .ok ∨
      (c.receive part).checkedIdx < (c.receive part).eolIdx := by
  have hbuf : (c.receive part).readBuf = c.readBuf ++ part := rfl
  have hidx : (c.receive part).checkedIdx = c.readBuf.length := h.all.checked
  obtain ⟨b, tail, rfl⟩ := List.exists_cons_of_ne_nil hpart
  rw [KeepsIndex, not_or, not_and] at hmoves
  by_cases hcr : b = 13
  · left
    have hnext := not_not.mp (hmoves.2 (congrArg some hcr))
    subst hcr
    cases tail with
    | nil => cases hnext
    | cons b rest =>
      obtain rfl : b = 10 := Option.some.inj hnext
      have heol : (c.receive (13 :: 10 :: rest)).eolIdx = c.readBuf.length := by
        rw [body_eolIdx h, hidx]
        rfl
      unfold HttpConn.parseLine
      simp only [heol, hbuf, List.drop_left]
  · right
    have hplain : isEol b = false := by
      have hlf : b ≠ 10 := fun heq => hmoves.1 (congrArg some heq)
      simp [isEol, hcr, hlf]
    rw [body_eolIdx h]
    simp [hplain]

/-- Part of a body that stays in place: the next call looks at it again. -/
theorem body_suspends (h : AtBody r c) {part : Bytes} (hlt : part.length < r.body.length)
    (hpart : part = [] ∨ KeepsIndex part) : Suspends env c part := by
  obtain ⟨hnot, heol⟩ := parseLine_keeps h hpart
  refine ⟨c.receive part, ?_, fun more => by rw [receive_receive]⟩
  rw [body_looked_at h hlt]
  have hnone : ∀ d, ¬ Handles (c.receive part, .open) d := by
    intro d hd
    unfold Handles at hd
    rw [if_neg fun hcontent => nomatch hcontent.2] at hd
    rw [hd] at hnot
    exact hnot rfl
  refine Loops.Loop.run_of_leaves ((turn_of_not_handles hnone).trans ?_)
  rw [heol]

/-! ## Behind the start of the body -/

/-- The index is so far inside the body that `total` bytes do not complete it. -/
structure Beyond (total : ℕ) (c : HttpConn) : Prop where
  state : c.checkState = .content
  inBuffer : InBuffer c
  small : c.contentLength.toInt ≤ kReadBufSize
  short : total < c.checkedIdx + c.contentLength.toInt

theorem Beyond.handleLine {total : ℕ} (h : Beyond total c) (hreceived : c.readBuf.length ≤ total) :
    c.handleLine env = .inl ({ c with lineStart := c.checkedIdx }, .open) := by
  have hchecked := h.inBuffer.checked
  have hsize := h.inBuffer.size
  have hsmall := h.small
  have hshort := h.short
  have hbuf : kReadBufSize = 2048 := rfl
  apply handleLine_incomplete h.inBuffer h.state (.inr (by omega))
  unfold BodyOverflows
  omega

/-- One turn behind the start of the body goes on there or asks for more. -/
theorem Beyond.turn {total : ℕ} (h : Beyond total c) (hreceived : c.readBuf.length ≤ total)
    (lineSt : LineStatus) :
    (∃ d, HttpConn.turn env (c, lineSt) = .inl (d, .open) ∧ Beyond total d ∧
        d.readBuf.length = c.readBuf.length) ∨
      ∃ d, HttpConn.turn env (c, lineSt) = .inr (.ok (.noRequest, d)) ∧ Beyond total d ∧
        d.readBuf.length = c.readBuf.length := by
  by_cases hhandles : ∃ d, Handles (c, lineSt) d
  · left
    obtain ⟨d, hd⟩ := hhandles
    have hin := h.inBuffer.handles hd
    obtain ⟨hstate, hlength, hidx, hcontent⟩ : d.checkState = .content ∧
        d.readBuf.length = c.readBuf.length ∧ c.checkedIdx ≤ d.checkedIdx ∧
        d.contentLength = c.contentLength := by
      unfold Handles at hd
      split at hd
      · rw [hd]
        exact ⟨h.state, rfl, Nat.le_refl _, rfl⟩
      · obtain ⟨hlength, hlt, -⟩ := parseLine_ok hd
        obtain ⟨hstate, hcontent⟩ := parseLine_keeps_fields c
        rw [hd] at hstate hcontent
        exact ⟨hstate.trans h.state, hlength, Nat.le_of_lt hlt, hcontent⟩
    have hd' : Beyond total d := ⟨hstate, hin, hcontent ▸ h.small, by
      have hshort := h.short
      rw [hcontent]
      omega⟩
    refine ⟨_, (turn_of_handles hd).trans (hd'.handleLine (hlength ▸ hreceived)), ?_, hlength⟩
    exact ⟨hstate, ⟨hin.checked, hin.size⟩, hd'.small, hd'.short⟩
  · right
    refine ⟨_, turn_of_not_handles (not_exists.mp hhandles), ?_, rfl⟩
    have hle : c.checkedIdx ≤ c.eolIdx := Nat.le_add_right _ _
    refine ⟨h.state, ⟨eolIdx_le c h.inBuffer.checked, h.inBuffer.size⟩, h.small, ?_⟩
    have hshort := h.short
    change (total : ℤ) < c.eolIdx + c.contentLength.toInt
    omega

theorem Beyond.run {total : ℕ} (h : Beyond total c) (hreceived : c.readBuf.length ≤ total)
    (lineSt : LineStatus) : ∃ d, (readLoop env).run (c, lineSt) = .ok (.noRequest, d) ∧
      Beyond total d ∧ d.readBuf.length = c.readBuf.length := by
  obtain ⟨⟨t, lineSt'⟩, hpasses, hlast⟩ := (readLoop env).exists_last (c, lineSt)
  have hinv := @Loops.Loop.Passes.invariant _ _ (readLoop env)
    (fun s => Beyond total s.1 ∧ s.1.readBuf.length = c.readBuf.length) (by
      rintro ⟨u, st⟩ v ⟨hu, hlength⟩ hbody
      rcases hu.turn (hlength ▸ hreceived) st with ⟨d, hturn, hd, hsame⟩ | ⟨d, hturn, -⟩
      · obtain rfl := Sum.inl.inj (hbody.symm.trans hturn)
        exact ⟨hd, hsame.trans hlength⟩
      · cases hbody.symm.trans hturn) _ _ hpasses ⟨h, rfl⟩
  rcases hinv.1.turn (hinv.2 ▸ hreceived) lineSt' with ⟨d, hturn, -⟩ | ⟨d, hturn, hd, hsame⟩
  · cases hturn.symm.trans hlast
  · exact ⟨d, Sum.inr.inj (hlast.symm.trans hturn), hd, hsame.trans hinv.2⟩

/-- From there on every call asks for more. -/
theorem Beyond.feed {total : ℕ} (h : Beyond total c) (chunks : List Bytes)
    (hreceived : c.readBuf.length + chunks.flatten.length ≤ total)
    (htotal : total ≤ kReadBufSize) :
    ∃ d, ChunkedParsing.feed env c chunks =
      .ok (List.replicate chunks.length .noRequest, d) := by
  induction chunks generalizing c with
  | nil => exact ⟨c, rfl⟩
  | cons chunk rest ih =>
    rw [List.flatten_cons, List.length_append] at hreceived
    have hbuf : (c.receive chunk).readBuf.length = c.readBuf.length + chunk.length :=
      List.length_append
    have hnext : Beyond total (c.receive chunk) := by
      refine ⟨h.state, ⟨?_, ?_⟩, h.small, h.short⟩
      · rw [hbuf]
        exact Nat.le_add_right_of_le h.inBuffer.checked
      · omega
    obtain ⟨d, hread, hd, hlength⟩ := hnext.run (by omega) .ok
    obtain ⟨e, hrest⟩ := ih hd (by omega)
    refine ⟨e, ?_⟩
    rw [ChunkedParsing.feed, processRead, hread]
    dsimp only
    rw [hrest]
    rfl

/-- Part of a body at which the index moves: the body is never complete. -/
theorem body_lost (h : AtBody r c) {part : Bytes} (hlt : part.length < r.body.length)
    (hpart : part ≠ []) (hmoves : ¬ KeepsIndex part) :
    ∃ d, processRead env (c.receive part) = .ok (.noRequest, d) ∧
      Beyond (r.head.length + r.body.length) d ∧
      d.readBuf.length = (c.receive part).readBuf.length := by
  have hin := h.inBuffer (Nat.le_of_lt hlt)
  have hsize : (c.receive part).readBuf.length = c.readBuf.length + part.length :=
    List.length_append
  have hidx : (c.receive part).checkedIdx = c.readBuf.length := h.all.checked
  have hfits : r.head.length + r.body.length ≤ kReadBufSize := r.fits
  have hbuf := h.buf
  have hlength : (c.receive part).contentLength.toInt = r.body.length := h.length
  have hsmall : (c.receive part).contentLength.toInt ≤ kReadBufSize := by omega
  rw [body_looked_at h hlt]
  by_cases hhandles : ∃ e, Handles (c.receive part, .open) e
  · obtain ⟨e, he⟩ := hhandles
    have hein := hin.handles he
    have hparse : (c.receive part).parseLine = (.ok, e) := by
      unfold Handles at he
      rwa [if_neg fun hcontent => nomatch hcontent.2] at he
    obtain ⟨helength, hmoved, -⟩ := parseLine_ok hparse
    obtain ⟨hestate, hecontent⟩ := parseLine_keeps_fields (c.receive part)
    rw [hparse] at hestate hecontent
    have hshort : ((r.head.length + r.body.length : ℕ) : ℤ) <
        e.checkedIdx + e.contentLength.toInt := by
      rw [hecontent]
      omega
    have hbeyond : Beyond (r.head.length + r.body.length) e :=
      ⟨hestate.trans h.state, hein, hecontent ▸ hsmall, hshort⟩
    have hmarked : Beyond (r.head.length + r.body.length)
        { e with lineStart := e.checkedIdx } :=
      ⟨hbeyond.state, ⟨hein.checked, hein.size⟩, hbeyond.small, hshort⟩
    have hreceived : e.readBuf.length ≤ r.head.length + r.body.length := by omega
    have hturn := (@turn_of_handles env _ _ he).trans (hbeyond.handleLine hreceived)
    obtain ⟨d, hrun, hd, hdlength⟩ := @Beyond.run env _ _ hmarked hreceived .open
    exact ⟨d, (Loops.Loop.run_of_goes_on hturn).trans hrun, hd, hdlength.trans helength⟩
  · have hline := (parseLine_moves h hpart hmoves).resolve_left (by
      intro hok
      apply hhandles
      refine ⟨(c.receive part).parseLine.2, ?_⟩
      unfold Handles
      rw [if_neg fun hcontent => nomatch hcontent.2]
      exact Prod.ext hok rfl)
    refine ⟨_, Loops.Loop.run_of_leaves (turn_of_not_handles (not_exists.mp hhandles)), ?_, rfl⟩
    refine ⟨h.state, ⟨eolIdx_le _ hin.checked, hin.size⟩, hsmall, ?_⟩
    change ((r.head.length + r.body.length : ℕ) : ℤ) <
      (c.receive part).eolIdx + (c.receive part).contentLength.toInt
    omega

theorem body_complete (h : AtBody r c) (hbody : r.body ≠ []) :
    ∃ ret d, ret ≠ .noRequest ∧ processRead env (c.receive r.body) = .ok (ret, d) := by
  have hin := h.inBuffer (Nat.le_refl _)
  have hsize : (c.receive r.body).readBuf.length = c.readBuf.length + r.body.length :=
    List.length_append
  have hidx : (c.receive r.body).checkedIdx = c.readBuf.length := h.all.checked
  have hlength : (c.receive r.body).contentLength.toInt = r.body.length := h.length
  have hpos := List.length_pos_iff.mpr hbody
  have hparse := @parseContent_complete
    { c.receive r.body with lineStart := (c.receive r.body).checkedIdx } ⟨hin.checked, hin.size⟩
    (by
      change 0 < (c.receive r.body).contentLength.toInt
      omega) (by
      change ((c.receive r.body).checkedIdx : ℤ) + (c.receive r.body).contentLength.toInt ≤
        (c.receive r.body).readBuf.length
      omega)
  have hhandles : Handles (c.receive r.body, .ok) (c.receive r.body) := by
    unfold Handles
    rw [if_pos ⟨h.state, rfl⟩]
  obtain ⟨e, hhandle⟩ : ∃ e : HttpConn,
      (c.receive r.body).handleLine env = .inr (.ok (e.doRequest env)) := by
    unfold HttpConn.handleLine
    dsimp only
    split
    · rename_i hother
      cases hother.symm.trans h.state
    · rename_i hother
      cases hother.symm.trans h.state
    · rw [hparse]
      exact ⟨_, rfl⟩
  exact ⟨_, _, doRequest_code env e,
    Loops.Loop.run_of_leaves ((turn_of_handles hhandles).trans hhandle)⟩

end Body

/-! ## Chunks -/

section Chunks

variable {env : Env} {r : Request}

theorem body_read (env : Env) (r : Request) (hbody : r.body ≠ []) : ∃ c, AtBody r c ∧
    ∀ rest, processRead env (HttpConn.reset.receive (r.head ++ rest)) =
      processRead env (c.receive rest) := by
  obtain ⟨d, hblank, hhead⟩ := head_read env r
  obtain ⟨c, hc, hread⟩ := @blank_read env r d hblank hbody
  exact ⟨c, hc, fun rest => (hhead rest).trans (hread rest)⟩

/-- The whole request has an answer. -/
theorem whole_answers (env : Env) (r : Request) : ∃ ret d, ret ≠ .noRequest ∧
    processRead env (HttpConn.reset.receive r.bytes) = .ok (ret, d) := by
  by_cases hbody : r.body = []
  · obtain ⟨d, hblank, hhead⟩ := head_read env r
    have hzero : d.contentLength = 0 := by
      apply Int64.toInt_inj.mp
      rw [hblank.length, hbody]
      rfl
    have hlast := @processRead_blank env d hblank.all hblank.state hzero
    refine ⟨_, ((passed d []).doRequest env).2, doRequest_code env (passed d []), ?_⟩
    rw [Written.bytes, hbody, hhead, hlast]
  · obtain ⟨c, hc, hread⟩ := body_read env r hbody
    obtain ⟨ret, d, hret, hcomplete⟩ := @body_complete env r c hc hbody
    exact ⟨ret, d, hret, (hread r.body).trans hcomplete⟩

/-- What has arrived ends in the head or in the body. -/
theorem prefix_cases {w : Bytes} (hw : w <+: r.bytes) :
    w <+: r.head ∧ w.length < r.head.length ∨ ∃ part, w = r.head ++ part ∧ part <+: r.body := by
  rcases Nat.lt_or_ge w.length r.head.length with hlt | hge
  · left
    exact ⟨List.prefix_of_prefix_length_le hw (List.prefix_append _ _) (Nat.le_of_lt hlt), hlt⟩
  · right
    obtain ⟨part, rfl⟩ := List.prefix_of_prefix_length_le (List.prefix_append _ _) hw hge
    exact ⟨part, rfl, (List.prefix_append_right_inj _).mp hw⟩

theorem prefix_suspends {w : Bytes} (hw : w <+: r.bytes) (hlt : w.length < r.bytes.length)
    (hkeeps : ∀ part, w = r.head ++ part → part = [] ∨ KeepsIndex part) :
    Suspends env .reset w := by
  rcases prefix_cases hw with ⟨hhead, hshort⟩ | ⟨part, rfl, hpart⟩
  · exact head_suspends r hhead hshort
  · have hshort : part.length < r.body.length := by
      rw [Written.bytes, List.length_append, List.length_append] at hlt
      omega
    have hbody : r.body ≠ [] := by
      intro hnil
      rw [hnil] at hshort
      cases hshort
    obtain ⟨c, hc, hread⟩ := body_read env r hbody
    obtain ⟨s, hwaits, hresumes⟩ := @body_suspends env r c hc part hshort (hkeeps part rfl)
    refine ⟨s, (hread part).trans hwaits, fun more => ?_⟩
    rw [hresumes more, List.append_assoc, hread]

theorem prefix_lost {part : Bytes} (hshort : part.length < r.body.length) (hpart : part ≠ [])
    (hmoves : ¬ KeepsIndex part) :
    ∃ d, processRead env (HttpConn.reset.receive (r.head ++ part)) = .ok (.noRequest, d) ∧
      Beyond r.bytes.length d ∧ d.readBuf.length = (r.head ++ part).length := by
  have hbody : r.body ≠ [] := by
    intro hnil
    rw [hnil] at hshort
    cases hshort
  obtain ⟨c, hc, hread⟩ := body_read env r hbody
  obtain ⟨d, hlost, hd, hlength⟩ := @body_lost env r c hc part hshort hpart hmoves
  refine ⟨d, (hread part).trans hlost, ?_, ?_⟩
  · rw [Written.bytes, List.length_append]
    exact hd
  · rw [hlength, List.length_append, ← hc.buf]
    exact List.length_append

theorem feed_of_suspends {c : HttpConn} {w chunk : Bytes}
    (hc : ∀ more, processRead env (c.receive more) =
      processRead env (HttpConn.reset.receive (w ++ more)))
    (h : Suspends env .reset (w ++ chunk)) (rest : List Bytes) :
    ∃ d, feed env c (chunk :: rest) =
        (feed env d rest).map (fun answer => (.noRequest :: answer.1, answer.2)) ∧
      ∀ more, processRead env (d.receive more) =
        processRead env (HttpConn.reset.receive (w ++ chunk ++ more)) := by
  obtain ⟨d, hread, hresumes⟩ := h
  refine ⟨d, ?_, hresumes⟩
  rw [feed, hc chunk, hread]

/-- Nothing received is lost: the chunks give what all their bytes give at once. -/
theorem feed_of_suspended {c : HttpConn} {w bytes : Bytes} {chunks : List Bytes}
    (hc : ∀ more, processRead env (c.receive more) =
      processRead env (HttpConn.reset.receive (w ++ more)))
    (hjoin : w ++ chunks.flatten = bytes) (hnonempty : chunks ≠ [])
    (hsuspends : ∀ pre, pre <+: chunks → pre ≠ [] → pre ≠ chunks →
      Suspends env .reset (w ++ pre.flatten))
    {ret : HttpCode} {d : HttpConn}
    (hwhole : processRead env (HttpConn.reset.receive bytes) = .ok (ret, d)) :
    feed env c chunks = .ok (List.replicate (chunks.length - 1) .noRequest ++ [ret], d) := by
  induction chunks generalizing c w with
  | nil => exact absurd rfl hnonempty
  | cons chunk rest ih =>
    rw [List.flatten_cons, ← List.append_assoc] at hjoin
    by_cases hrest : rest = []
    · rw [hrest, List.flatten_nil, List.append_nil] at hjoin
      rw [hrest, feed, hc, hjoin, hwhole]
      rfl
    · have hfirst : Suspends env .reset (w ++ chunk) := by
        have hone := hsuspends [chunk] ⟨rest, rfl⟩ (List.cons_ne_nil _ _)
          fun h => hrest (List.cons.inj h).2.symm
        rwa [List.flatten_singleton] at hone
      obtain ⟨e, hfeed, hresumes⟩ := feed_of_suspends hc hfirst rest
      rw [hfeed, ih hresumes hjoin hrest ?_]
      · obtain ⟨n, hn⟩ := Nat.exists_eq_succ_of_ne_zero
          (Nat.ne_of_gt (List.length_pos_iff.mpr hrest))
        simp only [List.length_cons, Nat.add_sub_cancel, hn, Nat.succ_eq_add_one,
          List.replicate_succ]
        rfl
      · intro pre hpre _ hne
        have hmore := hsuspends (chunk :: pre) ((List.prefix_cons_inj chunk).mpr hpre)
          (List.cons_ne_nil _ _) fun h => hne (List.cons.inj h).2
        rwa [List.flatten_cons, ← List.append_assoc] at hmore

/-- A part of the chunks leaves bytes out when the last chunk has some. -/
theorem length_flatten_lt {chunks pre : List Bytes} (hlast : chunks.getLast? ≠ some [])
    (hpre : pre <+: chunks) (hne : pre ≠ chunks) :
    pre.flatten.length < chunks.flatten.length := by
  obtain ⟨later, rfl⟩ := hpre
  have hlater : later ≠ [] := by
    rintro rfl
    exact hne (List.append_nil pre).symm
  have hsome : later.flatten ≠ [] := by
    intro hnil
    apply hlast
    rw [List.getLast?_append, List.getLast?_eq_some_getLast hlater, Option.some_or]
    exact congrArg some (List.flatten_eq_nil_iff.mp hnil _ (List.getLast_mem hlater))
  rw [List.flatten_append, List.length_append]
  have hpos := List.length_pos_iff.mpr hsome
  omega

theorem feed_of_kept {c : HttpConn} {w : Bytes} {chunks : List Bytes}
    (hc : ∀ more, processRead env (c.receive more) =
      processRead env (HttpConn.reset.receive (w ++ more)))
    (hjoin : w ++ chunks.flatten = r.bytes) (hnonempty : chunks ≠ [])
    (hlast : chunks.getLast? ≠ some [])
    (hkeeps : ∀ pre part, pre <+: chunks → w ++ pre.flatten = r.head ++ part →
      part = [] ∨ part = r.body ∨ KeepsIndex part)
    {ret : HttpCode} {d : HttpConn}
    (hwhole : processRead env (HttpConn.reset.receive r.bytes) = .ok (ret, d)) :
    feed env c chunks = .ok (List.replicate (chunks.length - 1) .noRequest ++ [ret], d) := by
  refine feed_of_suspended hc hjoin hnonempty (fun pre hpre _ hne => ?_) hwhole
  have hshort := length_flatten_lt hlast hpre hne
  have hlt : (w ++ pre.flatten).length < r.bytes.length := by
    rw [← hjoin, List.length_append, List.length_append]
    omega
  have hinside : w ++ pre.flatten <+: r.bytes := by
    obtain ⟨later, rfl⟩ := hpre
    exact ⟨later.flatten, by rw [← hjoin, List.flatten_append, List.append_assoc]⟩
  apply prefix_suspends hinside hlt
  intro part hpart
  rcases hkeeps pre part hpre hpart with hnil | hall | hkeep
  · exact .inl hnil
  · rw [hpart, hall] at hlt
    exact absurd hlt (Nat.lt_irrefl _)
  · exact .inr hkeep

/-- After a cut that moves the index every verdict asks for more. -/
theorem feed_of_lost {c : HttpConn} {w : Bytes} {chunks : List Bytes}
    (hc : ∀ more, processRead env (c.receive more) =
      processRead env (HttpConn.reset.receive (w ++ more)))
    (hjoin : w ++ chunks.flatten = r.bytes)
    {pre : List Bytes} {part : Bytes} (hpre : pre <+: chunks) (hnonempty : pre ≠ [])
    (hcut : w ++ pre.flatten = r.head ++ part) (hpart : part ≠ []) (hbody : part ≠ r.body)
    (hmoves : ¬ KeepsIndex part) :
    ∃ d, feed env c chunks = .ok (List.replicate chunks.length .noRequest, d) := by
  have hfits : r.bytes.length ≤ kReadBufSize := by
    rw [Written.bytes, List.length_append]
    exact r.fits
  induction pre generalizing c w chunks with
  | nil => exact absurd rfl hnonempty
  | cons chunk pre ih =>
    obtain ⟨later, rfl⟩ := hpre
    rw [List.cons_append, List.flatten_cons, ← List.append_assoc] at hjoin
    rw [List.flatten_cons, ← List.append_assoc] at hcut
    have hshort : part.length < r.body.length := by
      have hcut' : r.head ++ (part ++ later.flatten) = r.head ++ r.body := by
        rw [← List.append_assoc, ← hcut, List.append_assoc, ← List.flatten_append]
        exact hjoin
      have hinside : part <+: r.body := ⟨later.flatten, List.append_cancel_left hcut'⟩
      apply Nat.lt_of_le_of_ne hinside.length_le
      exact fun heq => hbody (hinside.eq_of_length heq)
    have hwhole : r.bytes.length = r.head.length + r.body.length := List.length_append
    have hle : (w ++ chunk).length ≤ r.head.length + part.length := by
      rw [← List.length_append, ← hcut, @List.length_append _ (w ++ chunk)]
      exact Nat.le_add_right _ _
    by_cases hfirst : ∃ part', w ++ chunk = r.head ++ part' ∧ part' ≠ [] ∧ ¬ KeepsIndex part'
    · obtain ⟨part', hchunk, hpart', hmoves'⟩ := hfirst
      have hlength := congrArg List.length hchunk
      rw [@List.length_append _ r.head] at hlength
      obtain ⟨d, hread, hd, hdlength⟩ := @prefix_lost env r part' (by omega) hpart' hmoves'
      have hreceived : d.readBuf.length + (pre ++ later).flatten.length ≤ r.bytes.length := by
        rw [hdlength, ← hchunk, ← List.length_append, hjoin]
      obtain ⟨e, hfeed⟩ := @Beyond.feed env d _ hd (pre ++ later) hreceived hfits
      refine ⟨e, ?_⟩
      rw [List.cons_append, feed, hc, hchunk, hread]
      dsimp only
      rw [hfeed]
      rfl
    · have hpre : pre ≠ [] := by
        intro hnil
        rw [hnil, List.flatten_nil, List.append_nil] at hcut
        exact hfirst ⟨part, hcut, hpart, hmoves⟩
      have hsuspends : Suspends env .reset (w ++ chunk) := by
        apply prefix_suspends ⟨_, hjoin⟩ (by omega)
        intro part' hchunk
        by_contra hnot
        rw [not_or] at hnot
        exact hfirst ⟨part', hchunk, hnot⟩
      obtain ⟨e, hfeed, hresumes⟩ := feed_of_suspends hc hsuspends (pre ++ later)
      obtain ⟨d, hrest⟩ := ih hresumes hjoin ⟨later, rfl⟩ hpre hcut
      refine ⟨d, ?_⟩
      rw [List.cons_append, hfeed, hrest]
      rfl

end Chunks

/-! ## Refused lines -/

section Refused

variable {env : Env} {r : Written}

/-- A request line that is not accepted is answered at once, whatever follows it. -/
theorem refused_answers (hrefused : ¬ r.Accepted) (rest : Bytes) : ∃ d,
    processRead env (HttpConn.reset.receive (r.requestLine ++ 13 :: 10 :: rest)) =
      .ok (.badRequest, d) := by
  let c := (endedBy .reset r.requestLine).receive rest
  have hline : c.getLine = r.requestLine ++ [0, 0] :=
    (getLine_receive (Nat.le_refl _) rest).trans (getLine_endedBy allHandled_reset _)
  have hbad := parseRequestLine_refused hrefused { c with lineStart := c.checkedIdx }
  have hhandle : ∃ d, c.handleLine env = .inr (.ok (.badRequest, d)) := by
    refine ⟨(HttpConn.parseRequestLine { c with lineStart := c.checkedIdx }
      (r.requestLine ++ [0, 0])).2, ?_⟩
    unfold HttpConn.handleLine
    dsimp only
    rw [hline]
    split
    · rw [if_pos hbad]
    · rename_i hother
      cases hother
    · rename_i hother
      cases hother
  obtain ⟨d, hd⟩ := hhandle
  have hhandles : Handles (HttpConn.reset.receive (r.requestLine ++ 13 :: 10 :: rest), .ok) c := by
    unfold Handles
    rw [if_neg fun hcontent => reset_not_content hcontent.1]
    exact parseLine_line allHandled_reset r.plain rest
  exact ⟨d, Loops.Loop.run_of_leaves ((turn_of_handles hhandles).trans hd)⟩

theorem refused_whole_answers (env : Env) (hrefused : ¬ r.Accepted) : ∃ d,
    processRead env (HttpConn.reset.receive r.bytes) = .ok (.badRequest, d) := by
  obtain ⟨d, hd⟩ := @refused_answers env r hrefused (headerBytes r.headers ++ r.body)
  refine ⟨d, ?_⟩
  rwa [Written.bytes, Written.head, headBytes, List.append_assoc]

/-- Bytes of the request end in its line or go beyond it. -/
theorem written_prefix_cases {w : Bytes} (hw : w <+: r.bytes) :
    (w <+: r.requestLine ++ [13, 10] ∧ w.length < r.requestLine.length + 2) ∨
      ∃ part, w = r.requestLine ++ 13 :: 10 :: part := by
  rw [Written.bytes, Written.head, headBytes, List.append_assoc] at hw
  rcases prefix_line_cases hw with hshort | ⟨part, hpart, -⟩
  · exact .inl hshort
  · exact .inr ⟨part, hpart⟩

/-- A cut behind the line is answered although more is to come. -/
theorem feed_of_refused (hrefused : ¬ r.Accepted) {c : HttpConn} {w : Bytes} {chunks : List Bytes}
    (hc : ∀ more, processRead env (c.receive more) =
      processRead env (HttpConn.reset.receive (w ++ more)))
    (hjoin : w ++ chunks.flatten = r.bytes) (hw : w.length < r.requestLine.length + 2)
    {pre : List Bytes} (hpre : pre <+: chunks) (hne : pre ≠ chunks)
    (hbehind : r.requestLine.length + 2 ≤ (w ++ pre.flatten).length)
    {rets : List HttpCode} {e : HttpConn} (hfeed : feed env c chunks = .ok (rets, e)) :
    ∃ i, i + 1 < chunks.length ∧ rets[i]? = some .badRequest := by
  induction pre generalizing c w chunks rets with
  | nil =>
    rw [List.flatten_nil, List.append_nil] at hbehind
    omega
  | cons chunk pre ih =>
    obtain ⟨later, rfl⟩ := hpre
    have hlater : pre ++ later ≠ pre := fun h => hne (congrArg (chunk :: ·) h).symm
    rw [List.cons_append, List.flatten_cons, ← List.append_assoc] at hjoin
    rw [List.flatten_cons, ← List.append_assoc] at hbehind
    rcases written_prefix_cases ⟨_, hjoin⟩ with ⟨hline, hshort⟩ | ⟨part, hchunk⟩
    · have hsuspends : Suspends env .reset (w ++ chunk) :=
        suspends_short allHandled_reset reset_not_content r.plain hline hshort
      obtain ⟨d, hfirst, hresumes⟩ := feed_of_suspends hc hsuspends (pre ++ later)
      rw [List.cons_append, hfirst] at hfeed
      cases hrest : feed env d (pre ++ later) with
      | error exception =>
        rw [hrest] at hfeed
        cases hfeed
      | ok answer =>
        rw [hrest] at hfeed
        cases hfeed
        obtain ⟨i, hi, hbad⟩ := ih hresumes hjoin hshort ⟨later, rfl⟩ hlater.symm hbehind hrest
        exact ⟨i + 1, Nat.succ_lt_succ hi, hbad⟩
    · obtain ⟨d, hanswer⟩ := @refused_answers env r hrefused part
      have hread : processRead env (c.receive chunk) = .ok (.badRequest, d) := by
        rw [hc, hchunk, hanswer]
      rw [List.cons_append, feed, hread] at hfeed
      have hpos : pre ++ later ≠ [] := by
        intro hnil
        exact hlater (hnil.trans (List.append_eq_nil_iff.mp hnil).1.symm)
      refine ⟨0, Nat.succ_lt_succ (List.length_pos_iff.mpr hpos), ?_⟩
      cases hrest : feed env d (pre ++ later) with
      | error exception =>
        dsimp only at hfeed
        rw [hrest] at hfeed
        cases hfeed
      | ok answer =>
        dsimp only at hfeed
        rw [hrest] at hfeed
        cases hfeed
        rfl

end Refused

/-- Cuts at which nothing goes wrong. In a request whose line is accepted: what
has arrived of the body begins with LF, or with CR and no LF. In one whose line is
refused: they come before the line has ended. -/
def HarmlessCuts (r : Written) (chunks : List Bytes) : Prop :=
  if r.Accepted then
    ∀ pre part, pre <+: chunks → pre.flatten = r.head ++ part → part ≠ [] → part ≠ r.body →
      KeepsIndex part
  else
    ∀ pre, pre <+: chunks → pre ≠ chunks → pre.flatten.length < r.requestLine.length + 2

theorem written_bytes_ne_nil (r : Written) : r.bytes ≠ [] := by
  intro hnil
  have hlength := congrArg List.length hnil
  rw [Written.bytes, Written.head, headBytes, List.length_append, List.length_append,
    List.length_cons, List.length_nil] at hlength
  omega

theorem accepted_alike_iff (env : Env) (r : Request) {chunks : List Bytes}
    (hjoin : chunks.flatten = r.bytes) (hlast : chunks.getLast? ≠ some []) :
    ParsesAlike env r.bytes chunks ↔
      ∀ pre part, pre <+: chunks → pre.flatten = r.head ++ part → part ≠ [] → part ≠ r.body →
        KeepsIndex part := by
  obtain ⟨ret, d, hret, hwhole⟩ := whole_answers env r
  constructor
  · rintro ⟨rets, ret', c, d', hfeed, hwhole', hrets, -⟩ pre part hpre hcut hpart hbody
    by_contra hmoves
    have hnonempty : pre ≠ [] := by
      rintro rfl
      exact hpart (List.append_eq_nil_iff.mp hcut.symm).2
    obtain ⟨e, hlost⟩ := @feed_of_lost env r .reset [] chunks (fun _ => rfl) hjoin pre part hpre
      hnonempty hcut hpart hbody hmoves
    obtain ⟨rfl, -⟩ := Prod.mk.inj (Except.ok.inj (hfeed.symm.trans hlost))
    obtain ⟨rfl, -⟩ := Prod.mk.inj (Except.ok.inj (hwhole'.symm.trans hwhole))
    apply hret
    apply List.eq_of_mem_replicate
    rw [hrets]
    exact List.mem_append_right _ List.mem_cons_self
  · intro hkeeps
    have hnonempty : chunks ≠ [] := by
      rintro rfl
      exact written_bytes_ne_nil r.toWritten hjoin.symm
    refine ⟨_, ret, d, d, @feed_of_kept env r .reset [] chunks (fun _ => rfl) hjoin hnonempty hlast
      (fun pre part hpre hcut => ?_) ret d hwhole, hwhole, rfl, rfl, rfl, rfl, rfl, rfl⟩
    by_cases hpart : part = []
    · exact .inl hpart
    · by_cases hbody : part = r.body
      · exact .inr (.inl hbody)
      · exact .inr (.inr (hkeeps pre part hpre hcut hpart hbody))

theorem refused_alike_iff (env : Env) {r : Written} (hrefused : ¬ r.Accepted) {chunks : List Bytes}
    (hjoin : chunks.flatten = r.bytes) (hlast : chunks.getLast? ≠ some []) :
    ParsesAlike env r.bytes chunks ↔
      ∀ pre, pre <+: chunks → pre ≠ chunks →
        pre.flatten.length < r.requestLine.length + 2 := by
  obtain ⟨d, hwhole⟩ := refused_whole_answers env hrefused
  constructor
  · rintro ⟨rets, ret, c, d', hfeed, -, hrets, -⟩ pre hpre hne
    by_contra hbehind
    obtain ⟨i, hi, hbad⟩ := @feed_of_refused env r hrefused .reset [] chunks (fun _ => rfl) hjoin
      (Nat.succ_pos _) pre hpre hne (Nat.le_of_not_lt hbehind) rets c hfeed
    have hearly : i < (List.replicate (chunks.length - 1) HttpCode.noRequest).length := by
      rw [List.length_replicate]
      omega
    rw [hrets, List.getElem?_append_left hearly, List.getElem?_replicate] at hbad
    split at hbad
    · cases hbad
    · cases hbad
  · intro hshort
    have hnonempty : chunks ≠ [] := by
      rintro rfl
      exact written_bytes_ne_nil r hjoin.symm
    refine ⟨_, .badRequest, d, d, @feed_of_suspended env .reset [] r.bytes chunks (fun _ => rfl)
      hjoin hnonempty (fun pre hpre _ hne => ?_) .badRequest d hwhole, hwhole, rfl, rfl, rfl, rfl,
      rfl, rfl⟩
    have hinside : pre.flatten <+: r.bytes := by
      obtain ⟨later, rfl⟩ := hpre
      exact ⟨later.flatten, by rw [← hjoin, List.flatten_append]⟩
    rcases written_prefix_cases hinside with ⟨hline, hlt⟩ | ⟨part, hpart⟩
    · exact suspends_short allHandled_reset reset_not_content r.plain hline hlt
    · have hlength := hshort pre hpre hne
      rw [hpart, List.length_append, List.length_cons, List.length_cons] at hlength
      omega

/-- The chunks give what the whole request gives exactly when their cuts are harmless. -/
theorem parses_alike_iff (env : Env) (r : Written) (chunks : List Bytes)
    (hjoin : chunks.flatten = r.bytes) (hlast : chunks.getLast? ≠ some []) :
    ParsesAlike env r.bytes chunks ↔ HarmlessCuts r chunks := by
  unfold HarmlessCuts
  split
  · rename_i haccepted
    exact accepted_alike_iff env ⟨r, haccepted⟩ hjoin hlast
  · rename_i hrefused
    exact refused_alike_iff env hrefused hjoin hlast

/-- Nothing is served and nothing is routed. -/
def bareEnv : Env := ⟨ascii "root", none, fun _ => none, fun _ => false, fun _ => false⟩

def smallRequest : Request where
  requestLine := ascii "POST /a HTTP/1.1"
  headers := [ascii "Content-Length: 3"]
  body := ascii "abc"
  plain := by unfold PlainLine; decide +kernel
  accepted := by decide
  header := by
    intro line hmem
    obtain rfl := List.mem_singleton.mp hmem
    exact ⟨by unfold PlainLine; decide +kernel, by decide, fun _ => ⟨3, by decide +kernel⟩⟩
  length := by decide
  fits := by decide

/-- `parse_request_line` takes GET and POST only. -/
def refusedRequest : Written where
  requestLine := ascii "PUT /a HTTP/1.1"
  headers := [ascii "Content-Length: 3"]
  body := ascii "abc"
  plain := plainLine_of_all (by decide)
  header := smallRequest.header
  length := smallRequest.length
  fits := by decide

/-- One request is cut inside the CRLF of its line, one before its line is refused. -/
theorem parses_alike_small :
    ParsesAlike bareEnv smallRequest.bytes
      [smallRequest.bytes.take 17, smallRequest.bytes.drop 17] ∧
    ParsesAlike bareEnv refusedRequest.bytes
      [refusedRequest.bytes.take 4, refusedRequest.bytes.drop 4] := by
  constructor
  · refine (parses_alike_iff bareEnv smallRequest.toWritten _ (by decide) (by decide +kernel)).mpr ?_
    rw [HarmlessCuts, if_pos smallRequest.accepted]
    intro pre part hpre hcut hpart hbody
    have hlength := congrArg List.length hcut
    have hhead : smallRequest.head.length = 39 := by decide
    rw [List.length_append, hhead] at hlength
    rcases List.prefix_cons_iff.mp hpre with rfl | ⟨more, rfl, hmore⟩
    · have hnone : ([] : List Bytes).flatten.length = 0 := rfl
      omega
    · rcases List.prefix_cons_iff.mp hmore with rfl | ⟨last, rfl, hnil⟩
      · have hfirst : [smallRequest.bytes.take 17].flatten.length = 17 := by decide
        omega
      · obtain rfl := List.prefix_nil.mp hnil
        have hall : [smallRequest.bytes.take 17, smallRequest.bytes.drop 17].flatten =
            smallRequest.head ++ smallRequest.body := by
          decide
        exact absurd (List.append_cancel_left (hcut.symm.trans hall)) hbody
  · refine (parses_alike_iff bareEnv refusedRequest _ (by decide) (by decide +kernel)).mpr ?_
    rw [HarmlessCuts, if_neg (show ¬ refusedRequest.Accepted by decide)]
    intro pre hpre hne
    rcases List.prefix_cons_iff.mp hpre with rfl | ⟨more, rfl, hmore⟩
    · exact Nat.succ_pos _
    · rcases List.prefix_cons_iff.mp hmore with rfl | ⟨last, rfl, hnil⟩
      · decide
      · obtain rfl := List.prefix_nil.mp hnil
        exact absurd rfl hne

/-- The request is cut after the first byte of its body. -/
theorem body_cut_loses : ¬ ∀ (env : Env) (r : Written) (chunks : List Bytes),
    chunks.flatten = r.bytes → chunks.getLast? ≠ some [] → ParsesAlike env r.bytes chunks := by
  intro h
  obtain ⟨rets, ret, c, d, hfeed, hwhole, hrets, -⟩ := h bareEnv smallRequest.toWritten
    [smallRequest.head ++ ascii "a", ascii "bc"] (by decide) (by decide +kernel)
  have hlost : (feed bareEnv .reset [smallRequest.head ++ ascii "a", ascii "bc"]).map (·.1) =
      .ok [.noRequest, .noRequest] := by
    decide
  have hanswer : (processRead bareEnv (HttpConn.reset.receive smallRequest.bytes)).map (·.1) =
      .ok .noResource := by
    decide
  rw [hfeed] at hlost
  rw [hwhole] at hanswer
  obtain rfl := Except.ok.inj hlost
  obtain rfl := Except.ok.inj hanswer
  cases hrets

end Bookstore.ChunkedParsing
