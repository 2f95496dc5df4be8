import Bookstore.PartialHeaders

/-!
Connections that wait for more, and which of them more bytes can bring to a
verdict. A line whose end `parse_line` judges bad is looked at again on every
call; a body that does not fit, or of a negative length, never becomes complete.
-/
namespace Bookstore.StuckRequests

open HttpTypes RequestParser RequestParser.HttpConn LineReading ParserExceptions PartialLines
  RequestLines PartialHeaders Spans

/-- The call returns a verdict. -/
def Answers (env : Env) (c : HttpConn) : Prop :=
  ∃ ret d, processRead env c = .ok (ret, d) ∧ ret ≠ .noRequest

/-- More bytes, as many as the buffer still takes, bring a verdict. -/
def CanAnswer (env : Env) (c : HttpConn) : Prop :=
  ∃ more, c.readBuf.length + more.length ≤ kReadBufSize ∧ Answers env (c.receive more)

/-- A run of chunks leaves the connection waiting for more. -/
inductive Waits (env : Env) : HttpConn → List Bytes → HttpConn → Prop
  | now {c d : HttpConn} {chunk : Bytes} (hfits : c.readBuf.length + chunk.length ≤ kReadBufSize)
      (hread : processRead env (c.receive chunk) = .ok (.noRequest, d)) : Waits env c [chunk] d
  | more {c d e : HttpConn} {chunk : Bytes} {rest : List Bytes}
      (hfits : c.readBuf.length + chunk.length ≤ kReadBufSize)
      (hread : processRead env (c.receive chunk) = .ok (.noRequest, d))
      (hrest : Waits env d rest e) : Waits env c (chunk :: rest) e
  | next {c d e : HttpConn} {chunk : Bytes} {rest : List Bytes} {ret : HttpCode}
      (hfits : c.readBuf.length + chunk.length ≤ kReadBufSize)
      (hread : processRead env (c.receive chunk) = .ok (ret, d)) (hret : ret ≠ .noRequest)
      (hrest : Waits env .reset rest e) : Waits env c (chunk :: rest) e
  | closed {c e : HttpConn} {chunk : Bytes} {rest : List Bytes}
      (hfull : kReadBufSize < c.readBuf.length + chunk.length) (hrest : Waits env .reset rest e) :
      Waits env c (chunk :: rest) e

/-! ## What the bytes received leave open -/

/-- The request line is accepted. -/
def Accepted (line : Bytes) : Prop :=
  (HttpConn.reset.parseRequestLine (line ++ [0, 0])).1 = .noRequest

instance (line : Bytes) : Decidable (Accepted line) := inferInstanceAs (Decidable (_ = _))

/-- The line that has been received in part. -/
def started (d : HttpConn) : Bytes := (part d).takeWhile fun b => !isEol b

/-- What has been received of its end. -/
def behind (d : HttpConn) : Bytes := (part d).dropWhile fun b => !isEol b

/-- Nothing wrong has been received of the end of the line. -/
def EndOpen (d : HttpConn) : Prop := behind d = [] ∨ behind d = [13]

/-- The bytes in the buffer when the line ends here. -/
def ended (d : HttpConn) : ℕ := d.readBuf.length + (2 - (behind d).length)

/-- A body of this length fits behind so many bytes. -/
def BodyFits (n : Int64) (size : ℕ) : Prop := 0 ≤ n.toInt ∧ size + n.toInt ≤ kReadBufSize

/-- A head fits behind so many bytes: the blank line and the body, or a header
that makes the content length zero, and the blank line. -/
def HeadFits (n : Int64) (size : ℕ) : Prop := BodyFits n (size + 2) ∨ size + 20 ≤ kReadBufSize

/-- The line ends here. -/
def EndsHere (d : HttpConn) : Prop :=
  if (started d ++ [0, 0]).head? = some 0 then BodyFits d.contentLength (ended d)
  else HeaderLine (started d) ∧ HeadFits (lengthAfter d.contentLength (started d)) (ended d)

/-- The line ends with a content length of zero, and the blank line follows. -/
def EndsZero (d : HttpConn) : Prop :=
  behind d = [] ∧ lengthAfter 1 (started d ++ zeroLength (started d)) = 0 ∧
    ended d + (zeroLength (started d)).length + 2 ≤ kReadBufSize

/-- What has been received can still become a request, or one that is refused. -/
def Completable (d : HttpConn) : Prop :=
  match d.checkState with
  | .requestLine => EndOpen d ∧
      if Accepted (started d) then HeadFits d.contentLength (ended d) else ended d ≤ kReadBufSize
  | .header => EndOpen d ∧ (EndsHere d ∨ EndsZero d)
  | .content => 0 < d.contentLength.toInt ∧ d.checkedIdx + d.contentLength.toInt ≤ kReadBufSize

/-! ## Bodies -/

section Bodies

variable {env : Env} {c d : HttpConn}

/-- The body is not there. -/
structure Lacking (c : HttpConn) : Prop where
  inBuffer : InBuffer c
  state : c.checkState = .content
  missing : c.contentLength.toInt ≤ 0 ∨ c.readBuf.length < c.checkedIdx + c.contentLength.toInt

theorem handleLine_lacking (h : Lacking c) (env : Env) :
    c.handleLine env = .inl ({ c with lineStart := c.checkedIdx }, .open) ∨
      ∃ e, c.handleLine env = .inr (.error e) := by
  by_cases hover : BodyOverflows c
  · exact .inr ((handleLine_throws_iff env h.inBuffer).mpr (.inr ⟨h.state, hover⟩))
  · exact .inl (ChunkedParsing.handleLine_incomplete h.inBuffer h.state h.missing hover)

theorem Lacking.handles {lineSt : LineStatus} (h : Lacking c) (hd : Handles (c, lineSt) d) :
    Lacking d := by
  have hin := h.inBuffer.handles hd
  unfold Handles at hd
  split at hd
  · exact hd ▸ h
  · obtain ⟨hlength, hidx, -⟩ := parseLine_ok hd
    have hfields := parseLine_keeps_fields c
    have hmissing := h.missing
    rw [hd] at hfields
    have hidx' : c.checkedIdx < d.checkedIdx := hidx
    have hlength' : d.readBuf.length = c.readBuf.length := hlength
    have hsame : d.contentLength = c.contentLength := hfields.2
    refine ⟨hin, hfields.1.trans h.state, ?_⟩
    rw [hsame]
    omega

theorem Lacking.turn {lineSt lineSt' : LineStatus} (h : Lacking c)
    (hturn : HttpConn.turn env (c, lineSt) = .inl (d, lineSt')) : Lacking d := by
  by_cases hhandles : ∃ e, Handles (c, lineSt) e
  · obtain ⟨e, he⟩ := hhandles
    have hlack := h.handles he
    rw [turn_of_handles he] at hturn
    rcases handleLine_lacking hlack env with hgoes | ⟨err, hthrows⟩
    · cases hgoes.symm.trans hturn
      exact ⟨⟨hlack.inBuffer.checked, hlack.inBuffer.size⟩, hlack.state, hlack.missing⟩
    · cases hthrows.symm.trans hturn
  · rw [turn_of_not_handles (not_exists.mp hhandles)] at hturn
    cases hturn

theorem Lacking.not_answers (h : Lacking c) : ¬ Answers env c := by
  intro hanswers
  obtain ⟨ret, d, hread, hret⟩ := hanswers
  obtain ⟨⟨t, lineSt⟩, hpasses, hlast⟩ := (readLoop env).exists_last (c, .ok)
  change HttpConn.turn env (t, lineSt) = .inr (processRead env c) at hlast
  rw [hread] at hlast
  have ht : Lacking t := by
    refine @Loops.Loop.Passes.invariant _ _ _ (fun u => Lacking u.1) ?_ _ _ hpasses h
    intro u v hu hbody
    exact hu.turn hbody
  by_cases hhandles : ∃ e, Handles (t, lineSt) e
  · obtain ⟨e, he⟩ := hhandles
    rw [turn_of_handles he] at hlast
    rcases handleLine_lacking (ht.handles he) env with hgoes | ⟨err, hthrows⟩
    · cases hgoes.symm.trans hlast
    · cases hthrows.symm.trans hlast
  · rw [turn_of_not_handles (not_exists.mp hhandles)] at hlast
    cases hlast
    exact hret rfl

theorem answers_complete (h : InBuffer c) (hstate : c.checkState = .content)
    (hpos : 0 < c.contentLength.toInt)
    (hthere : c.checkedIdx + c.contentLength.toInt ≤ c.readBuf.length) : Answers env c := by
  have hparse := @parseContent_complete { c with lineStart := c.checkedIdx }
    ⟨h.checked, h.size⟩ hpos hthere
  have hhandles : Handles (c, .ok) c := by
    unfold Handles
    rw [if_pos ⟨hstate, rfl⟩]
  have hhandle : ∃ e : HttpConn, c.handleLine env = .inr (.ok (e.doRequest env)) := by
    unfold HttpConn.handleLine
    dsimp only
    split
    · rename_i hother
      cases hother.symm.trans hstate
    · rename_i hother
      cases hother.symm.trans hstate
    · rw [hparse]
      exact ⟨_, rfl⟩
  obtain ⟨e, he⟩ := hhandle
  exact ⟨_, _, Loops.Loop.run_of_leaves ((turn_of_handles hhandles).trans he), doRequest_code env e⟩

theorem answers_body_iff (h : InBuffer c) (hstate : c.checkState = .content) :
    Answers env c ↔ 0 < c.contentLength.toInt ∧
      c.checkedIdx + c.contentLength.toInt ≤ c.readBuf.length := by
  constructor
  · intro hanswers
    by_contra hmissing
    exact Lacking.not_answers ⟨h, hstate, by omega⟩ hanswers
  · intro hbody
    exact answers_complete h hstate hbody.1 hbody.2

end Bodies

/-! ## Lines -/

theorem accepted_append {line : Bytes} (h : Accepted line) (more : Bytes) :
    Accepted (line ++ more) := by
  obtain ⟨p, rfl⟩ := (accepted_iff .reset line).mp (by
    rw [h]
    exact nofun)
  let q : Parts := { p with tail := p.tail ++ more }
  have hline : p.line ++ more = q.line := by simp [q, Parts.line]
  have hparse := q.parseRequestLine_parts .reset
  rw [← hline] at hparse
  unfold Accepted
  rw [hparse]

theorem splits_line {line : Bytes} (h : PlainLine line) (rest : Bytes) :
    Splits (fun b => !isEol b) line (13 :: rest) where
  inside b hb := by rw [h b hb]; rfl
  outside b hb := by
    cases hb
    rfl

theorem line_unique {line line' rest rest' : Bytes} (h : PlainLine line) (h' : PlainLine line')
    (heq : line ++ 13 :: 10 :: rest = line' ++ 13 :: 10 :: rest') : line = line' ∧ rest = rest' := by
  obtain ⟨hline, hrest⟩ := (splits_line h (10 :: rest)).unique (splits_line h' (10 :: rest')) heq
  exact ⟨hline, (List.cons.inj (List.cons.inj hrest).2).2⟩

/-- Bytes on which the header state comes to a verdict. -/
inductive EndsHead : Int64 → Bytes → Prop
  | blank {n : Int64} {line rest : Bytes} (hplain : PlainLine line)
      (hnul : (line ++ [0, 0]).head? = some 0) (hpos : 0 ≤ n.toInt)
      (hbody : n.toInt ≤ rest.length) : EndsHead n (line ++ 13 :: 10 :: rest)
  | header {n : Int64} {line rest : Bytes} (hline : HeaderLine line)
      (hrest : EndsHead (lengthAfter n line) rest) : EndsHead n (line ++ 13 :: 10 :: rest)

/-- What the first line is, for a verdict. -/
def HeadLine (n : Int64) (line rest : Bytes) : Prop :=
  if (line ++ [0, 0]).head? = some 0 then 0 ≤ n.toInt ∧ n.toInt ≤ rest.length
  else HeaderLine line ∧ EndsHead (lengthAfter n line) rest

theorem endsHead_iff (n : Int64) (bytes : Bytes) : EndsHead n bytes ↔
    ∃ line rest, PlainLine line ∧ bytes = line ++ 13 :: 10 :: rest ∧ HeadLine n line rest := by
  unfold HeadLine
  constructor
  · intro h
    cases h with
    | @blank _ line rest hplain hnul hpos hbody =>
      refine ⟨line, rest, hplain, rfl, ?_⟩
      rw [if_pos hnul]
      exact ⟨hpos, hbody⟩
    | @header _ line rest hline hrest =>
      refine ⟨line, rest, hline.plain, rfl, ?_⟩
      rw [if_neg hline.named]
      exact ⟨hline, hrest⟩
  · intro h
    obtain ⟨line, rest, hplain, rfl, h⟩ := h
    split at h
    · rename_i hnul
      exact .blank hplain hnul h.1 h.2
    · exact .header h.1 h.2

/-- Bytes on which the parser comes to a verdict. -/
def Finishes (state : CheckState) (n : Int64) (bytes : Bytes) : Prop :=
  ∃ line rest, PlainLine line ∧ bytes = line ++ 13 :: 10 :: rest ∧
    if state = .requestLine then Accepted line → EndsHead n rest else HeadLine n line rest

theorem finishes_line_iff (state : CheckState) (n : Int64) {line : Bytes} (hplain : PlainLine line)
    (rest : Bytes) : Finishes state n (line ++ 13 :: 10 :: rest) ↔
      if state = .requestLine then Accepted line → EndsHead n rest else HeadLine n line rest := by
  constructor
  · intro h
    obtain ⟨line', rest', hplain', hsplit, h⟩ := h
    obtain ⟨rfl, rfl⟩ := line_unique hplain hplain' hsplit
    exact h
  · exact fun h => ⟨line, rest, hplain, rfl, h⟩

section Lines

variable {env : Env} {c d : HttpConn}

theorem answers_of_goes_on (h : HttpConn.turn env (c, .ok) = .inl (d, .ok)) :
    Answers env c ↔ Answers env d := by
  have hrun : processRead env c = processRead env d := Loops.Loop.run_of_goes_on h
  unfold Answers
  rw [hrun]

theorem not_answers_of_throws {e : Exception} (h : HttpConn.turn env (c, .ok) = .inr (.error e)) :
    ¬ Answers env c := by
  have hrun : processRead env c = .error e := Loops.Loop.run_of_leaves h
  intro hanswers
  obtain ⟨ret, d, hread, -⟩ := hanswers
  cases hrun.symm.trans hread

theorem answers_of_leaves {ret : HttpCode} (h : HttpConn.turn env (c, .ok) = .inr (.ok (ret, d)))
    (hret : ret ≠ .noRequest) : Answers env c :=
  ⟨ret, d, Loops.Loop.run_of_leaves h, hret⟩

theorem handleLine_refused {line : Bytes} (hstate : c.checkState = .requestLine)
    (hline : c.getLine = line ++ [0, 0]) (hrefused : ¬ Accepted line) :
    ∃ d, c.handleLine env = .inr (.ok (.badRequest, d)) := by
  have hbad : (HttpConn.parseRequestLine { c with lineStart := c.checkedIdx }
      (line ++ [0, 0])).1 = .badRequest := by
    by_contra hgood
    obtain ⟨p, rfl⟩ := (accepted_iff _ line).mp hgood
    refine hrefused ?_
    unfold Accepted
    rw [p.parseRequestLine_parts]
  refine ⟨(HttpConn.parseRequestLine { c with lineStart := c.checkedIdx } (line ++ [0, 0])).2, ?_⟩
  unfold HttpConn.handleLine
  dsimp only
  rw [hline]
  split
  · rw [if_pos hbad]
  · rename_i hother
    cases hother.symm.trans hstate
  · rename_i hother
    cases hother.symm.trans hstate

theorem badContentLength_of_not {line : Bytes} (hplain : PlainLine line)
    (hfirst : (line ++ [0, 0]).head? ≠ some 0) (hnot : ¬ HeaderLine line) :
    BadContentLength (line ++ [0, 0]) := by
  have hnumber : ¬ (headerVal (line ++ [0, 0]) (ascii "Content-length:") ≠ [] →
      ∃ n, stol (headerVal (line ++ [0, 0]) (ascii "Content-length:")) = .ok n) :=
    fun hnumber => hnot ⟨hplain, hfirst, hnumber⟩
  rw [Classical.not_imp] at hnumber
  obtain ⟨hval, hnone⟩ := hnumber
  refine ⟨hfirst, ?_, hval, (stol_throws_iff _).mp ?_⟩
  · by_contra hconnection
    exact hval (contentLength_of_connection hconnection)
  · cases hstol : stol (headerVal (line ++ [0, 0]) (ascii "Content-length:")) with
    | error e => exact ⟨e, rfl⟩
    | ok n => exact absurd ⟨n, hstol⟩ hnone

theorem answers_blank {e : HttpConn} (hin : InBuffer e) (hstate : e.checkState = .header)
    (hnul : e.getLine.head? = some 0)
    (hturn : HttpConn.turn env (d, .ok) = e.handleLine env) :
    Answers env d ↔ 0 ≤ e.contentLength.toInt ∧
      e.checkedIdx + e.contentLength.toInt ≤ e.readBuf.length := by
  have hchecked := hin.checked
  rw [handleLine_nul hstate hnul] at hturn
  by_cases hbody : e.contentLength ≠ 0
  · rw [if_pos hbody] at hturn
    have hne : e.contentLength.toInt ≠ 0 := by
      rw [← Int64.toInt_zero]
      exact fun heq => hbody (Int64.toInt_inj.mp heq)
    have hbody_iff := @answers_body_iff env
      { e with
        lineStart := e.checkedIdx
        checkState := .content }
      ⟨hin.checked, hin.size⟩ rfl
    rw [answers_of_goes_on hturn, hbody_iff]
    dsimp only
    omega
  · rw [if_neg hbody] at hturn
    refine iff_of_true (answers_of_leaves hturn (doRequest_code env _)) ?_
    rw [not_not.mp hbody, Int64.toInt_zero]
    omega

/-- Without a line the call asks for more. -/
theorem processRead_of_no_line (hstate : c.checkState ≠ .content)
    (hnone : ∀ d, c.parseLine ≠ (.ok, d)) :
    processRead env c = .ok (.noRequest, { c with checkedIdx := c.eolIdx }) := by
  refine Loops.Loop.run_of_leaves (turn_of_not_handles fun d hd => ?_)
  unfold Handles at hd
  rw [if_neg fun hcontent => hstate hcontent.1] at hd
  exact hnone d hd

theorem not_answers_of_no_line (hstate : c.checkState ≠ .content)
    (hnone : ∀ d, c.parseLine ≠ (.ok, d)) : ¬ Answers env c := by
  intro hanswers
  obtain ⟨ret, d, hread, hret⟩ := hanswers
  cases (processRead_of_no_line hstate hnone).symm.trans hread
  exact hret rfl

/-- The bytes behind the line that has been read. -/
theorem ended_facts (c : HttpConn) (line rest : Bytes) :
    ((endedBy c line).receive rest).checkedIdx = c.readBuf.length + line.length + 2 ∧
      ((endedBy c line).receive rest).readBuf.length =
        c.readBuf.length + line.length + 2 + rest.length := by
  refine ⟨?_, ?_⟩
  · show (c.readBuf ++ line ++ [0, 0]).length = _
    rw [List.length_append, List.length_append]
    rfl
  · show (c.readBuf ++ line ++ [0, 0] ++ rest).length = _
    rw [List.length_append, List.length_append, List.length_append]
    rfl

/-- The bytes received behind handled ones decide, whatever the environment. -/
theorem answers_receive_iff (bytes : Bytes) {c : HttpConn} (hall : AllHandled c)
    (hlast : c.readBuf.getLast? ≠ some 13) (hstate : c.checkState ≠ .content)
    (hfits : c.readBuf.length + bytes.length ≤ kReadBufSize) :
    Answers env (c.receive bytes) ↔ Finishes c.checkState c.contentLength bytes := by
  induction hn : bytes.length using Nat.strongRecOn generalizing bytes c with
  | _ n ih =>
    by_cases hline : ∃ line rest, PlainLine line ∧ bytes = line ++ 13 :: 10 :: rest
    · obtain ⟨line, rest, hplain, rfl⟩ := hline
      have hlength : (line ++ 13 :: 10 :: rest).length = line.length + 2 + rest.length := by
        rw [List.length_append, List.length_cons, List.length_cons]
        omega
      rw [finishes_line_iff _ _ hplain]
      have hparse := parseLine_line hall hplain rest
      have hturn := @turn_of_handles env (c.receive (line ++ 13 :: 10 :: rest), .ok) _ (by
        unfold Handles
        rw [if_neg fun hcontent => hstate hcontent.1]
        exact hparse)
      have hget : ((endedBy c line).receive rest).getLine = line ++ [0, 0] :=
        getLine_ended hall line rest
      obtain ⟨hidx, hsize⟩ := ended_facts c line rest
      have hin : InBuffer ((endedBy c line).receive rest) :=
        ⟨by omega, by rw [hsize]; omega⟩
      have hnext {d : HttpConn} (hd : (endedBy c line).handleLine env = .inl (d, .ok))
          (hall' : AllHandled d) (hstate' : d.checkState = .header)
          (hbuf : d.readBuf = c.readBuf ++ line ++ [0, 0]) :
          Answers env (c.receive (line ++ 13 :: 10 :: rest)) ↔
            EndsHead d.contentLength rest := by
        have hlast' : d.readBuf.getLast? ≠ some 13 := by
          rw [hbuf, List.getLast?_append]
          exact nofun
        have hfits' : d.readBuf.length + rest.length ≤ kReadBufSize := by
          rw [hbuf, List.length_append, List.length_append]
          show c.readBuf.length + line.length + 2 + rest.length ≤ kReadBufSize
          omega
        rw [answers_of_goes_on (turn_line hall hstate hplain hd rest),
          ih _ (by omega) rest hall' hlast' (by rw [hstate']; exact nofun) hfits' rfl, hstate']
        exact (endsHead_iff _ _).symm
      cases hstate' : c.checkState with
      | content => exact absurd hstate' hstate
      | requestLine =>
        rw [if_pos rfl]
        by_cases haccepted : Accepted line
        · obtain ⟨d, hd, hall', hheader, hsame, hbuf⟩ :=
            @handleLine_requestLine env c line hall hstate' haccepted
          rw [hnext hd hall' hheader hbuf, hsame]
          exact ⟨fun h _ => h, fun h => h haccepted⟩
        · obtain ⟨d, hd⟩ := @handleLine_refused env ((endedBy c line).receive rest) line hstate'
            hget haccepted
          exact iff_of_true (answers_of_leaves (hturn.trans hd) nofun) (absurd · haccepted)
      | header =>
        rw [if_neg nofun]
        unfold HeadLine
        split
        · rename_i hnul
          rw [answers_blank hin hstate' (by rw [hget]; exact hnul) hturn, hidx, hsize]
          show 0 ≤ c.contentLength.toInt ∧ _ + c.contentLength.toInt ≤ _ ↔ _
          omega
        · rename_i hfirst
          by_cases hheader : HeaderLine line
          · obtain ⟨d, hd, hall', hheader', hsame, hbuf⟩ :=
              @handleLine_headerLine env c line hall hstate' hheader
            rw [hnext hd hall' hheader' hbuf, hsame]
            exact (and_iff_right hheader).symm
          · refine iff_of_false ?_ (fun h => hheader h.1)
            obtain ⟨e, he⟩ := (handleLine_throws_iff env hin).mpr (.inl ⟨hstate', by
              rw [hget]
              exact badContentLength_of_not hplain hfirst hheader⟩)
            exact not_answers_of_throws (hturn.trans he)
    · refine iff_of_false ?_ ?_
      · refine not_answers_of_no_line hstate fun d hd => ?_
        obtain ⟨line, rest, hplain, hsplit, -⟩ := (parseLine_ok_iff hall hlast bytes).mp hd
        exact hline ⟨line, rest, hplain, hsplit⟩
      · intro hfinishes
        obtain ⟨line, rest, hplain, hsplit, -⟩ := hfinishes
        exact hline ⟨line, rest, hplain, hsplit⟩

end Lines

/-! ## The shortest ways to a verdict -/

theorem HeadFits.mono {n : Int64} {size size' : ℕ} (h : HeadFits n size') (hle : size ≤ size') :
    HeadFits n size := by
  unfold HeadFits BodyFits at h ⊢
  omega

theorem endsHead_fits {n : Int64} {bytes : Bytes} (h : EndsHead n bytes) {size : ℕ}
    (hfits : size + bytes.length ≤ kReadBufSize) : HeadFits n size := by
  induction h generalizing size with
  | @blank n line rest hplain hnul hpos hbody =>
    rw [List.length_append, List.length_cons, List.length_cons] at hfits
    left
    unfold BodyFits
    omega
  | @header n line rest hline hrest ih =>
    rw [List.length_append, List.length_cons, List.length_cons] at hfits
    have hnext : HeadFits (lengthAfter n line) (size + line.length + 2) := ih (by omega)
    unfold HeadFits BodyFits at hnext ⊢
    -- a header that changes the content length costs more than the one with a zero
    by_cases hsame : lengthAfter n line = n
    · rw [hsame] at hnext
      omega
    · have hlong := lengthAfter_long hline hsame
      omega

theorem endsHead_blank : EndsHead 0 [13, 10] := by
  have hzero : (0 : Int64).toInt = 0 := Int64.toInt_zero
  exact @EndsHead.blank 0 [] [] plainLine_nil rfl (by omega) (by omega)

theorem exists_endsHead_iff (n : Int64) (size : ℕ) :
    (∃ bytes, size + bytes.length ≤ kReadBufSize ∧ EndsHead n bytes) ↔ HeadFits n size := by
  constructor
  · intro h
    obtain ⟨bytes, hfits, hends⟩ := h
    exact endsHead_fits hends hfits
  · intro h
    rcases h with ⟨hpos, hfits⟩ | hfits
    · refine ⟨[] ++ 13 :: 10 :: List.replicate n.toInt.toNat 0, ?_, .blank plainLine_nil rfl hpos ?_⟩
      · rw [List.nil_append, List.length_cons, List.length_cons, List.length_replicate]
        omega
      · rw [List.length_replicate]
        omega
    · have hzero := @headerLine_zeroLength [] plainLine_nil (by decide) n
      refine ⟨_, ?_, .header hzero.1 (hzero.2.symm ▸ endsHead_blank)⟩
      exact hfits

section Started

variable {line tail : Bytes} (hline : PlainLine line) (htail : tail = [] ∨ tail = [13])

include hline htail

/-- The line goes on, unless its CR has been received. -/
theorem exists_line_iff (size : ℕ) (Q : Bytes → Bytes → Prop) :
    (∃ more, size + more.length ≤ kReadBufSize ∧ ∃ whole rest, PlainLine whole ∧
      line ++ tail ++ more = whole ++ 13 :: 10 :: rest ∧ Q whole rest) ↔
    ∃ more rest, PlainLine more ∧ (tail ≠ [] → more = []) ∧
      size + (2 - tail.length) + more.length + rest.length ≤ kReadBufSize ∧
      Q (line ++ more) rest := by
  constructor
  · intro h
    obtain ⟨bytes, hfits, whole, rest, hwhole, hsplit, hq⟩ := h
    have hlength := congrArg List.length hsplit
    simp only [List.length_append, List.length_cons] at hlength
    rcases htail with rfl | rfl
    · rw [List.append_nil] at hsplit
      rcases List.append_eq_append_iff.mp hsplit with ⟨more, rfl, -⟩ | ⟨more, heq, hrest⟩
      · rw [List.length_append] at hlength
        refine ⟨more, rest, fun b hb => hwhole b (List.mem_append_right _ hb), ?_, ?_, hq⟩
        · exact fun hne => absurd rfl hne
        · simp only [List.length_nil] at hlength ⊢
          omega
      · have hempty : more = [] := by
          cases more with
          | nil => rfl
          | cons b more =>
            obtain rfl := (List.cons.inj hrest).1
            cases hline 13 (by rw [heq]; exact List.mem_append_right _ List.mem_cons_self)
        rw [hempty, List.append_nil] at heq
        subst heq
        refine ⟨[], rest, plainLine_nil, fun _ => rfl, ?_, by rwa [List.append_nil]⟩
        simp only [List.length_nil] at hlength ⊢
        omega
    · rw [List.append_assoc] at hsplit
      obtain ⟨rfl, -⟩ := (splits_line hline bytes).unique (splits_line hwhole (10 :: rest)) hsplit
      refine ⟨[], rest, plainLine_nil, fun _ => rfl, ?_, by rwa [List.append_nil]⟩
      simp only [List.length_cons, List.length_nil] at hlength ⊢
      omega
  · intro h
    obtain ⟨more, rest, hmore, hnone, hfits, hq⟩ := h
    have hwhole := plainLine_append hline hmore
    rcases htail with rfl | rfl
    · refine ⟨more ++ 13 :: 10 :: rest, ?_, line ++ more, rest, hwhole, ?_, hq⟩
      · simp only [List.length_append, List.length_cons, List.length_nil] at hfits ⊢
        omega
      · rw [List.append_nil, List.append_assoc]
    · rw [hnone (List.cons_ne_nil _ _)] at hfits hq hwhole
      refine ⟨10 :: rest, ?_, line ++ [], rest, hwhole, ?_, hq⟩
      · simp only [List.length_cons, List.length_nil] at hfits ⊢
        omega
      · rw [List.append_nil, List.append_assoc]
        rfl

end Started

theorem exists_requestLine_iff (n : Int64) (line tail : Bytes) (size : ℕ) :
    (∃ more rest, PlainLine more ∧ (tail ≠ [] → more = []) ∧
      size + more.length + rest.length ≤ kReadBufSize ∧
      (Accepted (line ++ more) → EndsHead n rest)) ↔
    if Accepted line then HeadFits n size else size ≤ kReadBufSize := by
  constructor
  · intro h
    obtain ⟨more, rest, -, -, hfits, hends⟩ := h
    split
    · rename_i haccepted
      exact (endsHead_fits (hends (accepted_append haccepted more)) hfits).mono (by omega)
    · omega
  · intro h
    split at h
    · obtain ⟨rest, hfits, hends⟩ := (exists_endsHead_iff n size).mpr h
      exact ⟨[], rest, plainLine_nil, fun _ => rfl, hfits, fun _ => hends⟩
    · rename_i hrefused
      refine ⟨[], [], plainLine_nil, fun _ => rfl, h, fun haccepted => absurd ?_ hrefused⟩
      rwa [List.append_nil] at haccepted

theorem nul_append {line : Bytes} (h : (line ++ [0, 0]).head? ≠ some 0) (more : Bytes) :
    (line ++ more ++ [0, 0]).head? ≠ some 0 := by
  cases line with
  | nil => exact absurd rfl h
  | cons b line => exact h

theorem exists_headLine_iff (n : Int64) {line : Bytes} (hline : PlainLine line) (tail : Bytes)
    (size : ℕ) :
    (∃ more rest, PlainLine more ∧ (tail ≠ [] → more = []) ∧
      size + more.length + rest.length ≤ kReadBufSize ∧ HeadLine n (line ++ more) rest) ↔
    (if (line ++ [0, 0]).head? = some 0 then BodyFits n size
      else HeaderLine line ∧ HeadFits (lengthAfter n line) size) ∨
    (tail = [] ∧ lengthAfter 1 (line ++ zeroLength line) = 0 ∧
      size + (zeroLength line).length + 2 ≤ kReadBufSize) := by
  constructor
  · intro h
    obtain ⟨more, rest, -, hnone, hfits, h⟩ := h
    unfold HeadLine at h
    have hopen : more ≠ [] → tail = [] := fun hmore => not_not.mp fun htail => hmore (hnone htail)
    by_cases hnul : (line ++ [0, 0]).head? = some 0
    · rw [if_pos hnul]
      split at h
      · left
        unfold BodyFits
        omega
      · rename_i hfirst
        -- only the empty line can still become a header
        cases line with
        | cons b line => exact absurd hnul hfirst
        | nil =>
          have hmore : more ≠ [] := fun hempty => hfirst (by rw [hempty]; rfl)
          have hhead := endsHead_fits h.2 hfits
          unfold HeadFits at hhead
          unfold BodyFits at hhead ⊢
          rw [List.nil_append] at h hhead
          by_cases hsame : lengthAfter n more = n
          · rw [hsame] at hhead
            by_cases hbody : 0 ≤ n.toInt ∧ size + n.toInt ≤ kReadBufSize
            · exact .inl hbody
            · refine .inr ⟨hopen hmore, by decide, ?_⟩
              show size + 16 + 2 ≤ kReadBufSize
              omega
          · have hlong := lengthAfter_long h.1 hsame
            refine .inr ⟨hopen hmore, by decide, ?_⟩
            show size + 16 + 2 ≤ kReadBufSize
            omega
    · rw [if_neg hnul]
      rw [if_neg (nul_append hnul more)] at h
      have hhead := endsHead_fits h.2 hfits
      rcases header_completes n hnul h.1 with ⟨hheader, hgrows⟩ | ⟨hlong, hzero⟩
      · refine .inl ⟨hheader, ?_⟩
        unfold HeadFits BodyFits at hhead ⊢
        omega
      · have hone : 0 < (zeroLength line).length := by
          unfold zeroLength
          rw [List.length_append]
          exact Nat.succ_pos _
        refine .inr ⟨hopen (List.length_pos_iff.mp (by omega)), hzero, ?_⟩
        unfold HeadFits BodyFits at hhead
        omega
  · intro h
    rcases h with h | ⟨rfl, hzero, hfits⟩
    · by_cases hnul : (line ++ [0, 0]).head? = some 0
      · rw [if_pos hnul] at h
        obtain ⟨hpos, hfits⟩ := h
        refine ⟨[], List.replicate n.toInt.toNat 0, plainLine_nil, fun _ => rfl, ?_, ?_⟩
        · rw [List.length_replicate, List.length_nil]
          omega
        · unfold HeadLine
          rw [List.append_nil, if_pos hnul, List.length_replicate]
          omega
      · rw [if_neg hnul] at h
        obtain ⟨rest, hfits, hends⟩ := (exists_endsHead_iff _ size).mpr h.2
        refine ⟨[], rest, plainLine_nil, fun _ => rfl, hfits, ?_⟩
        unfold HeadLine
        rw [List.append_nil, if_neg hnul]
        exact ⟨h.1, hends⟩
    · obtain ⟨hheader, hlength⟩ := headerLine_zeroLength hline hzero n
      refine ⟨zeroLength line, [13, 10], plainLine_zeroLength line, fun hne => absurd rfl hne,
        hfits, ?_⟩
      unfold HeadLine
      rw [if_neg hheader.named, hlength]
      exact ⟨hheader, endsHead_blank⟩

/-! ## Waiting connections -/

/-- A connection that waits has no whole line left to handle. -/
structure Waiting (d : HttpConn) : Prop where
  reading : Reading d
  noLine : d.checkState ≠ .content → ∀ e, d.parseLine ≠ (.ok, e)

theorem waiting_of_read {env : Env} {c d : HttpConn} (h : Reading c)
    (hread : processRead env c = .ok (.noRequest, d)) : Waiting d := by
  refine ⟨h.waits hread, ?_⟩
  obtain ⟨t, lineSt, hpasses, hnone, rfl⟩ := exists_stop hread
  have ht := h.passes hpasses
  intro hstate e he
  have hresumes := parseLine_resumes ht.inBuffer.checked []
  rw [receive_nil, receive_nil, he] at hresumes
  refine hnone e ?_
  unfold Handles
  rw [if_neg fun hcontent => hstate hcontent.1]
  exact hresumes.symm

theorem waiting_of_waits {env : Env} {c d : HttpConn} {chunks : List Bytes}
    (h : Waits env c chunks d) (hc : Reading c) : Waiting d := by
  induction h with
  | now hfits hread => exact waiting_of_read (hc.receive hfits) hread
  | more hfits hread _ ih => exact ih ((hc.receive hfits).waits hread)
  | next _ _ _ _ ih => exact ih reading_reset
  | closed _ _ ih => exact ih reading_reset

section Waiting

variable {env : Env} {d : HttpConn}

theorem canAnswer_body_iff (h : InBuffer d) (hstate : d.checkState = .content) :
    CanAnswer env d ↔ 0 < d.contentLength.toInt ∧
      d.checkedIdx + d.contentLength.toInt ≤ kReadBufSize := by
  have hreceive {more : Bytes} (hfits : d.readBuf.length + more.length ≤ kReadBufSize) :
      Answers env (d.receive more) ↔ 0 < d.contentLength.toInt ∧
        d.checkedIdx + d.contentLength.toInt ≤ (d.readBuf ++ more).length :=
    answers_body_iff (inBuffer_receive h hfits) hstate
  constructor
  · intro hcan
    obtain ⟨more, hfits, hanswers⟩ := hcan
    obtain ⟨hpos, hthere⟩ := (hreceive hfits).mp hanswers
    rw [List.length_append] at hthere
    omega
  · intro hbody
    have hsize := h.size
    refine ⟨List.replicate (kReadBufSize - d.readBuf.length) 0, ?_, ?_⟩
    · rw [List.length_replicate]
      omega
    · rw [hreceive (by rw [List.length_replicate]; omega), List.length_append,
        List.length_replicate]
      omega

/-- More bytes continue the line that has been received in part. -/
theorem answers_more_iff (h : Reading d) (hstate : d.checkState ≠ .content) {more : Bytes}
    (hfits : d.readBuf.length + more.length ≤ kReadBufSize) :
    Answers env (d.receive more) ↔
      Finishes d.checkState d.contentLength (part d ++ more) := by
  have hnext := h.receive hfits
  obtain ⟨hbase, hpart⟩ := h.receive_part more
  have hparse := hnext.parseLine hstate
  rw [hbase, hpart] at hparse
  have hsame : Answers env (d.receive more) ↔ Answers env ((base d).receive (part d ++ more)) := by
    unfold Answers
    rw [show processRead env (d.receive more) = processRead env ((base d).receive (part d ++ more))
      from Loops.Loop.run_congr (turn_congr hstate hstate hparse.symm)]
  have hlength : (base d).readBuf.length + (part d).length = d.readBuf.length := by
    rw [base, part, ← List.length_append, List.take_append_drop]
  rw [hsame, answers_receive_iff _ h.allHandled (h.base_last hstate) hstate (by
    rw [List.length_append]
    omega)]
  rfl

theorem not_finishes_broken {state : CheckState} {n : Int64} {line rest : Bytes}
    (hline : PlainLine line) (hrest : Broken rest) (more : Bytes) :
    ¬ Finishes state n (line ++ rest ++ more) := by
  intro h
  obtain ⟨whole, tail, hwhole, hsplit, -⟩ := h
  rw [List.append_assoc] at hsplit
  have hspan : Splits (fun b => !isEol b) line (rest ++ more) := by
    refine ⟨fun b hb => by rw [hline b hb]; rfl, ?_⟩
    intro b hb
    cases hrest <;> cases hb <;> rfl
  have hend := (hspan.unique (splits_line hwhole (10 :: tail)) hsplit).2
  cases hrest with
  | lf rest => cases hend
  | cr hb rest => exact hb (List.cons.inj (List.cons.inj hend).2).1

theorem canAnswer_line_iff (h : Reading d) (hstate : d.checkState ≠ .content) : CanAnswer env d ↔
    ∃ more, d.readBuf.length + more.length ≤ kReadBufSize ∧
      Finishes d.checkState d.contentLength (started d ++ behind d ++ more) := by
  refine exists_congr fun more => and_congr_right fun hfits => ?_
  rw [answers_more_iff h hstate hfits, started, behind, List.takeWhile_append_dropWhile]

/-- The end of the line is open, or it is broken. -/
theorem endOpen_or_broken (h : Waiting d) (hstate : d.checkState ≠ .content) :
    EndOpen d ∨ Broken (behind d) := by
  rcases lineEnd_kinds (show _ = behind d from rfl) with hnone | hcr | ⟨rest, hended⟩ | hbroken
  · exact .inl (.inl hnone)
  · exact .inl (.inr hcr)
  · exfalso
    have hparse := h.reading.parseLine hstate
    have hpart : part d = started d ++ 13 :: 10 :: rest := by
      rw [← hended, started, behind, List.takeWhile_append_dropWhile]
    have hline : PlainLine (started d) := plainLine_takeWhile _
    rw [hpart, parseLine_line h.reading.allHandled hline] at hparse
    exact h.noLine hstate _ hparse.symm
  · exact .inr hbroken

theorem canAnswer_iff (h : Waiting d) : CanAnswer env d ↔ Completable d := by
  have hline : PlainLine (started d) := plainLine_takeWhile _
  unfold Completable
  by_cases hcontent : d.checkState = .content
  · rw [canAnswer_body_iff h.reading.inBuffer hcontent, hcontent]
  · rw [canAnswer_line_iff h.reading hcontent]
    rcases endOpen_or_broken h hcontent with hopen | hbroken
    · unfold Finishes
      rw [exists_line_iff hline hopen]
      cases hstate : d.checkState with
      | requestLine => exact (exists_requestLine_iff _ _ _ _).trans (and_iff_right hopen).symm
      | header => exact (exists_headLine_iff _ hline _ _).trans (and_iff_right hopen).symm
      | content => exact absurd hstate hcontent
    · have hnot : ¬ EndOpen d := by
        intro hopen
        rcases hopen with hopen | hopen <;> rw [hopen] at hbroken <;> cases hbroken
      refine iff_of_false ?_ ?_
      · intro h
        obtain ⟨more, -, hfinishes⟩ := h
        exact not_finishes_broken hline hbroken more hfinishes
      · cases hstate : d.checkState with
        | requestLine => exact fun h => hnot h.1
        | header => exact fun h => hnot h.1
        | content => exact absurd hstate hcontent

end Waiting

/-- A waiting connection can be brought to a verdict exactly when the line it has
begun can be ended, and the head and the body still fit. -/
theorem waiting_can_answer_iff {env : Env} {chunks : List Bytes} {d : HttpConn}
    (h : Waits env .reset chunks d) : CanAnswer env d ↔ Completable d :=
  canAnswer_iff (waiting_of_waits h reading_reset)

/-- The connection that has looked for the first line in these bytes. -/
def lookedAt (bytes : Bytes) : HttpConn :=
  { HttpConn.reset.receive bytes with checkedIdx := (HttpConn.reset.receive bytes).eolIdx }

theorem waits_first (env : Env) {bytes : Bytes} (hfits : bytes.length ≤ kReadBufSize)
    (hnone : (HttpConn.reset.receive bytes).parseLine.1 ≠ .ok) :
    Waits env .reset [bytes] (lookedAt bytes) := by
  refine .now ?_ (processRead_of_no_line reset_not_content fun d hd => hnone (by rw [hd]))
  rw [show HttpConn.reset.readBuf = [] from rfl, List.length_nil, Nat.zero_add]
  exact hfits

/-- After GET the line can still be refused. -/
theorem get_can_answer : CanAnswer ChunkedParsing.bareEnv (lookedAt (ascii "GET")) := by
  have hwaits := waits_first ChunkedParsing.bareEnv (show (ascii "GET").length ≤ kReadBufSize by
    decide) (by decide)
  refine (waiting_can_answer_iff hwaits).mpr ⟨.inl rfl, ?_⟩
  rw [if_neg (by decide)]
  decide

/-- A line that LF alone ends is never answered. -/
theorem bare_lf_stuck : ¬ ∀ (env : Env) (chunks : List Bytes) (d : HttpConn),
    Waits env .reset chunks d → CanAnswer env d := by
  intro h
  have hwaits := waits_first ChunkedParsing.bareEnv
    (show (ascii "GET / HTTP/1.1\n").length ≤ kReadBufSize by decide) (by decide)
  have hopen : EndOpen (lookedAt (ascii "GET / HTTP/1.1\n")) :=
    ((waiting_can_answer_iff hwaits).mp (h _ _ _ hwaits)).1
  revert hopen
  unfold EndOpen
  decide

end Bookstore.StuckRequests
