import Bookstore.ChunkedParsing
import Bookstore.PartialLines

/-!
What the parser reads and overwrites. `parse_line` is written out as its loop,
with the indices of `read_buf_` that it uses. `parse_content` copies the body
when its guard lets it, and the addition in the guard is one of `long`.
-/
namespace Bookstore.ParserBounds

open HttpTypes RequestParser RequestParser.HttpConn LineReading ParserExceptions PartialLines

/-! ## `parse_line` -/

/-- The loop of `parse_line` from an index on: its result, and the indices of
`read_buf_` that it reads or overwrites. -/
def scanFrom (c : HttpConn) (i : ℕ) : (LineStatus × HttpConn) × List ℕ :=
  if i < c.readBuf.length then
    if c.readBuf.getD i 0 = 13 then
      if i + 1 = c.readBuf.length then ((.open, { c with checkedIdx := i }), [i])
      else if c.readBuf.getD (i + 1) 0 = 10 then ((.ok, c.endLine i), [i, i + 1])
      else ((.bad, { c with checkedIdx := i }), [i, i + 1])
    else if c.readBuf.getD i 0 = 10 then
      if i = 0 then ((.bad, { c with checkedIdx := i }), [i])
      else if c.readBuf.getD (i - 1) 0 = 13 then ((.ok, c.endLine (i - 1)), [i, i - 1])
      else ((.bad, { c with checkedIdx := i }), [i, i - 1])
    else ((scanFrom c (i + 1)).1, i :: (scanFrom c (i + 1)).2)
  else ((.open, { c with checkedIdx := i }), [])
termination_by c.readBuf.length - i

/-- The line that is found depends on where its end is, not on where the search
starts. -/
theorem parseLine_of_eolIdx {c : HttpConn} {i j : ℕ}
    (h : HttpConn.eolIdx { c with checkedIdx := i } = HttpConn.eolIdx { c with checkedIdx := j }) :
    HttpConn.parseLine { c with checkedIdx := i } = HttpConn.parseLine { c with checkedIdx := j } := by
  unfold HttpConn.parseLine
  simp only [h]
  rfl

theorem drop_getD {l : Bytes} {i : ℕ} (hi : i < l.length) :
    l.drop i = l.getD i 0 :: l.drop (i + 1) := by
  rw [List.getD_eq_getElem?_getD, List.getElem?_eq_getElem hi, Option.getD_some,
    List.drop_eq_getElem_cons hi]

theorem eolIdx_here {c : HttpConn} {i : ℕ} {b : UInt8} {rest : Bytes}
    (hdrop : c.readBuf.drop i = b :: rest) (hb : isEol b = true) :
    HttpConn.eolIdx { c with checkedIdx := i } = i := by
  simp only [HttpConn.eolIdx, hdrop, List.takeWhile_cons, hb, Bool.not_true, Bool.false_eq_true,
    if_false, List.length_nil, Nat.add_zero]

theorem eolIdx_later {c : HttpConn} {i : ℕ} (hi : i < c.readBuf.length)
    (hb : isEol (c.readBuf.getD i 0) = false) :
    HttpConn.eolIdx { c with checkedIdx := i } = HttpConn.eolIdx { c with checkedIdx := i + 1 } := by
  simp only [HttpConn.eolIdx, drop_getD hi, List.takeWhile_cons, hb, Bool.not_false, if_true,
    List.length_cons]
  omega

/-- The loop and the search for the next line end are the same. -/
theorem scanFrom_eq (c : HttpConn) {i : ℕ} (hi : i ≤ c.readBuf.length) :
    (scanFrom c i).1 = HttpConn.parseLine { c with checkedIdx := i } := by
  fun_induction scanFrom c i with
  | case1 i hlt hcr hlast =>
    have hdrop := drop_getD hlt
    have htail : c.readBuf.drop (i + 1) = [] := List.drop_eq_nil_of_le (by omega)
    rw [hcr, htail] at hdrop
    unfold HttpConn.parseLine
    simp only [eolIdx_here hdrop rfl, hdrop]
  | case2 i hlt hcr hmore hlf =>
    have hdrop := drop_getD hlt
    rw [hcr, @drop_getD _ (i + 1) (by omega), hlf] at hdrop
    unfold HttpConn.parseLine
    simp only [eolIdx_here hdrop rfl, hdrop]
    rfl
  | case3 i hlt hcr hmore hlf =>
    have hdrop := drop_getD hlt
    rw [hcr, @drop_getD _ (i + 1) (by omega)] at hdrop
    unfold HttpConn.parseLine
    simp only [eolIdx_here hdrop rfl, hdrop]
    split
    · rename_i heq
      cases heq
    · rename_i heq
      exact absurd (List.cons.inj heq).1 hlf
    · rfl
  | case4 hlt hcr hlf =>
    have hdrop := drop_getD hlt
    rw [hlf] at hdrop
    unfold HttpConn.parseLine
    simp only [eolIdx_here hdrop rfl, hdrop]
    rfl
  | case5 i hlt hcr hlf hpos hbefore =>
    have hdrop := drop_getD hlt
    rw [hlf] at hdrop
    have hcr' : c.readBuf[i - 1]? = some 13 := by
      have hlt' : i - 1 < c.readBuf.length := by omega
      rw [← hbefore, List.getD_eq_getElem?_getD, List.getElem?_eq_getElem hlt', Option.getD_some]
    unfold HttpConn.parseLine
    simp only [eolIdx_here hdrop rfl, hdrop]
    rw [if_pos ⟨Nat.pos_of_ne_zero hpos, hcr'⟩]
    rfl
  | case6 i hlt hcr hlf hpos hbefore =>
    have hdrop := drop_getD hlt
    rw [hlf] at hdrop
    have hcr' : c.readBuf[i - 1]? ≠ some 13 := by
      intro heq
      exact hbefore (by rw [List.getD_eq_getElem?_getD, heq]; rfl)
    unfold HttpConn.parseLine
    simp only [eolIdx_here hdrop rfl, hdrop]
    rw [if_neg fun h => hcr' h.2]
    rfl
  | case7 i hlt hcr hlf ih =>
    have hplain : isEol (c.readBuf.getD i 0) = false := by
      rw [isEol, Bool.or_eq_false_iff, beq_eq_false_iff_ne, beq_eq_false_iff_ne]
      exact ⟨hcr, hlf⟩
    rw [ih (by omega), parseLine_of_eolIdx (eolIdx_later hlt hplain)]
  | case8 i hge =>
    have hdrop : c.readBuf.drop i = [] := List.drop_eq_nil_of_le (by omega)
    have heol : HttpConn.eolIdx { c with checkedIdx := i } = i := by
      simp only [HttpConn.eolIdx, hdrop, List.takeWhile_nil, List.length_nil, Nat.add_zero]
    unfold HttpConn.parseLine
    simp only [heol, hdrop]

theorem scanFrom_below (c : HttpConn) (i : ℕ) :
    ∀ j ∈ (scanFrom c i).2, j < c.readBuf.length := by
  fun_induction scanFrom c i with
  | case1 i hi hcr hlast => simpa using hi
  | case2 i hi hcr hnot hlf =>
    intro j hj
    simp only [List.mem_cons, List.not_mem_nil, or_false] at hj
    omega
  | case3 i hi hcr hnot hlf =>
    intro j hj
    simp only [List.mem_cons, List.not_mem_nil, or_false] at hj
    omega
  | case4 hi hcr hlf => simpa using hi
  | case5 i hi hcr hlf hpos hbefore =>
    intro j hj
    simp only [List.mem_cons, List.not_mem_nil, or_false] at hj
    omega
  | case6 i hi hcr hlf hpos hbefore =>
    intro j hj
    simp only [List.mem_cons, List.not_mem_nil, or_false] at hj
    omega
  | case7 i hi hcr hlf ih =>
    intro j hj
    rcases List.mem_cons.mp hj with rfl | hj
    · exact hi
    · exact ih j hj
  | case8 i hi => simp

/-! ## The indices -/

structure InOrder (c : HttpConn) : Prop where
  start : c.lineStart ≤ c.checkedIdx
  checked : c.checkedIdx ≤ c.readBuf.length
  size : c.readBuf.length ≤ kReadBufSize

section Order

variable {env : Env} {c d : HttpConn}

theorem inOrder_of_reading (h : Reading c) : InOrder c :=
  ⟨h.line, h.inBuffer.checked, h.inBuffer.size⟩

theorem parseLine_lineStart (c : HttpConn) :
    c.parseLine.2.lineStart = c.lineStart ∧
      (InBuffer c → c.checkedIdx ≤ c.parseLine.2.checkedIdx) := by
  have hle : c.checkedIdx ≤ c.eolIdx := Nat.le_add_right _ _
  refine ⟨?_, fun hin => ?_⟩
  · unfold HttpConn.parseLine
    dsimp only
    repeat' split
    all_goals rfl
  · rcases hparse : c.parseLine with ⟨st, d⟩
    by_cases hok : st = .ok
    · rw [hok] at hparse
      exact Nat.le_of_lt (parseLine_ok hparse).2.1
    · rw [parseLine_stops hparse hok]
      exact hle

theorem inOrder_parseLine (h : Reading c) : InOrder c.parseLine.2 := by
  have hin := h.inBuffer.parseLine
  obtain ⟨hstart, hmoves⟩ := parseLine_lineStart c
  refine ⟨?_, hin.checked, hin.size⟩
  rw [hstart]
  exact Nat.le_trans h.line (hmoves h.inBuffer)

theorem inOrder_handles {lineSt : LineStatus} (h : Reading c) (hd : Handles (c, lineSt) d) :
    InOrder d ∧ (d.checkState ≠ .content → d.getLine ≠ []) := by
  unfold Handles at hd
  split at hd
  · rename_i hcontent
    rw [hd]
    exact ⟨inOrder_of_reading h, fun hnot => absurd hcontent.1 hnot⟩
  · have horder := inOrder_parseLine h
    have hstart := (parseLine_lineStart c).1
    have hlt : c.checkedIdx < d.checkedIdx := (parseLine_ok hd).2.1
    rw [hd] at horder hstart
    have hmoved : d.lineStart = c.lineStart := hstart
    refine ⟨horder, fun _ hempty => ?_⟩
    have hlength := congrArg List.length hempty
    have hline := h.line
    have hchecked : d.checkedIdx ≤ d.readBuf.length := horder.checked
    rw [HttpConn.getLine, List.length_take, List.length_drop, List.length_nil] at hlength
    omega

theorem doRequest_keeps (env : Env) (c : HttpConn) :
    (c.doRequest env).2.readBuf = c.readBuf ∧ (c.doRequest env).2.checkedIdx = c.checkedIdx ∧
      (c.doRequest env).2.lineStart = c.lineStart := by
  unfold HttpConn.doRequest
  dsimp only
  repeat' split
  all_goals exact ⟨rfl, rfl, rfl⟩

/-- A verdict leaves the indices behind the line that was handled. -/
theorem handleLine_leaves {ret : HttpCode} (h : c.handleLine env = .inr (.ok (ret, d))) :
    d.readBuf = c.readBuf ∧ d.checkedIdx = c.checkedIdx ∧ d.lineStart = c.checkedIdx := by
  have hrequest {e : HttpConn} (hbuf : e.readBuf = c.readBuf) (hidx : e.checkedIdx = c.checkedIdx)
      (hline : e.lineStart = c.checkedIdx) (he : e.doRequest env = (ret, d)) :
      d.readBuf = c.readBuf ∧ d.checkedIdx = c.checkedIdx ∧ d.lineStart = c.checkedIdx := by
    have hkeeps := doRequest_keeps env e
    rw [he, hbuf, hidx, hline] at hkeeps
    exact hkeeps
  unfold HttpConn.handleLine at h
  dsimp only at h
  split at h
  · split at h
    · cases h
      unfold HttpConn.parseRequestLine
      dsimp only
      repeat' split
      all_goals exact ⟨rfl, rfl, rfl⟩
    · cases h
  · split at h
    · cases h
    · rename_i hparse
      split at h
      · obtain ⟨hbuf, hidx⟩ := readBuf_parseHeaders hparse
        exact hrequest hbuf hidx (lineStart_parseHeaders hparse) (Except.ok.inj (Sum.inr.inj h))
      · cases h
  · split at h
    · cases h
    · rename_i hparse
      split at h
      · obtain ⟨hbuf, hidx⟩ := readBuf_parseContent hparse
        refine hrequest hbuf hidx ?_ (Except.ok.inj (Sum.inr.inj h))
        unfold HttpConn.parseContent at hparse
        repeat' split at hparse
        all_goals cases hparse
        all_goals rfl
      · cases h

theorem inOrder_leaves {lineSt : LineStatus} {ret : HttpCode} (h : Reading c)
    (hturn : HttpConn.turn env (c, lineSt) = .inr (.ok (ret, d))) : InOrder d := by
  by_cases hhandles : ∃ e, Handles (c, lineSt) e
  · obtain ⟨e, he⟩ := hhandles
    rw [turn_of_handles he] at hturn
    obtain ⟨hbuf, hidx, hline⟩ := handleLine_leaves hturn
    have horder := (inOrder_handles h he).1
    exact ⟨by omega, by rw [hbuf, hidx]; exact horder.checked, by rw [hbuf]; exact horder.size⟩
  · rw [turn_of_not_handles (not_exists.mp hhandles)] at hturn
    cases hturn
    exact inOrder_of_reading h.stops

end Order

/-! ## The body -/

/-- The guard of `parse_content` lets the copy of the body happen. -/
def CopiesBody (c : HttpConn) : Prop :=
  ¬ (c.contentLength ≤ 0 ∨ Int64.ofInt c.readBuf.length < c.contentEnd)

theorem copiesBody_iff (c : HttpConn) : CopiesBody c ↔ c.parseContent ≠ .ok (.noRequest, c) := by
  unfold CopiesBody HttpConn.parseContent
  split
  · rename_i hguard
    exact iff_of_false (fun h => h hguard) fun h => h rfl
  · rename_i hguard
    refine iff_of_true hguard ?_
    split
    · exact nofun
    · exact nofun

/-- The guard fails to hold back exactly the bodies that end beyond `long`. -/
theorem body_inside_iff {c : HttpConn} (h : InBuffer c) :
    (CopiesBody c → c.checkedIdx + c.contentLength.toInt ≤ c.readBuf.length) ↔
      ¬ BodyOverflows c := by
  have hsize : c.readBuf.length ≤ 2048 := h.size
  rw [copiesBody_iff]
  constructor
  · intro hinside hover
    have hcopies : c.parseContent ≠ .ok (.noRequest, c) := by
      rw [parseContent_overflow h hover]
      exact nofun
    have hend := hinside hcopies
    have hbeyond := hover.2
    omega
  · intro hfits hcopies
    by_contra hmissing
    exact hcopies (parseContent_incomplete h (.inr (by omega)) hfits)

/-! ## Runs -/

/-- A turn stays inside the bytes received. -/
structure Inside (env : Env) (s : HttpConn × LineStatus) : Prop where
  order : InOrder s.1
  scanned : InOrder s.1.parseLine.2
  touched : ∀ j ∈ (scanFrom s.1 s.1.checkedIdx).2, j < s.1.readBuf.length
  line : ∀ d, Handles s d → InOrder d ∧ (d.checkState ≠ .content → d.getLine ≠ [])
  left : ∀ ret d, HttpConn.turn env s = .inr (.ok (ret, d)) → InOrder d
  body : ∀ d, Handles s d → d.checkState = .content → CopiesBody d →
    d.checkedIdx + d.contentLength.toInt ≤ d.readBuf.length

theorem inside_iff (env : Env) {s : HttpConn × LineStatus} (h : Reading s.1) :
    Inside env s ↔ ∀ d, Handles s d → d.checkState = .content → ¬ BodyOverflows d := by
  constructor
  · intro hinside d hd hstate
    exact (body_inside_iff (h.inBuffer.handles hd)).mp (hinside.body d hd hstate)
  · intro hfits
    refine ⟨inOrder_of_reading h, inOrder_parseLine h, scanFrom_below _ _, ?_, ?_, ?_⟩
    · exact fun d hd => inOrder_handles h hd
    · exact fun ret d hturn => inOrder_leaves h hturn
    · exact fun d hd hstate => (body_inside_iff (h.inBuffer.handles hd)).mpr (hfits d hd hstate)

/-- The parser stays inside the received bytes on every stream and chunking
exactly when no turn looks at a body that ends beyond `long`. -/
theorem parser_stays_inside_iff (env : Env) (chunks : List Bytes) :
    (∀ s, Turns env .reset chunks s → Inside env s) ↔
      ∀ s d, Turns env .reset chunks s → Handles s d → d.checkState = .content →
        ¬ BodyOverflows d := by
  constructor
  · intro hinside s d hturns hd
    exact (inside_iff env (reading_of_turns hturns reading_reset)).mp (hinside s hturns) d hd
  · intro hfits s hturns
    exact (inside_iff env (reading_of_turns hturns reading_reset)).mpr
      fun d hd => hfits s d hturns hd

/-- A request with one header, a content length, comes to its body. -/
theorem body_reached (env : Env) {request length : Bytes} (hplain : PlainLine request)
    (haccepted : (HttpConn.reset.parseRequestLine (request ++ [0, 0])).1 = .noRequest)
    (hheader : HeaderLine length) (hbody : lengthAfter 0 length ≠ 0)
    (hfits : (request ++ 13 :: 10 :: (length ++ 13 :: 10 :: [13, 10])).length ≤ kReadBufSize) :
    ∃ d, Turns env .reset [request ++ 13 :: 10 :: (length ++ 13 :: 10 :: [13, 10])] (d, .ok) ∧
      d.checkState = .content ∧ d.contentLength = lengthAfter 0 length ∧ 0 < d.checkedIdx := by
  obtain ⟨c, hrequest, hall, hstate, hzero, -⟩ :=
    @handleLine_requestLine env .reset request allHandled_reset rfl haccepted
  obtain ⟨d, hlength, hall', hstate', hafter, -⟩ :=
    @handleLine_headerLine env c length hall hstate hheader
  have hsame : d.contentLength = lengthAfter 0 length := by
    rw [hafter, hzero]
    rfl
  have hblank := @handleLine_blank env d hall' hstate'
  rw [hsame, if_pos hbody] at hblank
  have hfirst := turn_line allHandled_reset reset_not_content hplain hrequest
    (length ++ 13 :: 10 :: [13, 10])
  have hsecond := turn_line hall (by rw [hstate]; nofun) hheader.plain hlength [13, 10]
  have hthird := turn_line hall' (by rw [hstate']; nofun) plainLine_nil hblank []
  rw [receive_nil] at hthird
  refine ⟨_, .call ?_ (.head hfirst (.head hsecond (.single hthird))), rfl, hsame, ?_⟩
  · rw [show HttpConn.reset.readBuf = [] from rfl, List.length_nil, Nat.zero_add]
    exact hfits
  · show 0 < (endedBy d []).readBuf.length
    simp only [endedBy, List.length_append, List.length_cons]
    omega

/-- A body of 2^63 - 1 bytes is announced, and the guard lets the copy happen. -/
theorem huge_body_copied : ¬ ∀ (env : Env) (chunks : List Bytes) (s : HttpConn × LineStatus),
    Turns env .reset chunks s → Inside env s := by
  intro h
  have hheader : HeaderLine (ascii "Content-length: 9223372036854775807") :=
    ⟨plainLine_of_all rfl, nofun, fun _ => ⟨_, rfl⟩⟩
  obtain ⟨d, hturns, hstate, hlength, hidx⟩ :=
    @body_reached ChunkedParsing.bareEnv (ascii "POST /a HTTP/1.1") _ (plainLine_of_all rfl) rfl
      hheader (by decide) (by decide)
  have hhandles : Handles (d, .ok) d := by
    unfold Handles
    rw [if_pos ⟨hstate, rfl⟩]
  refine (inside_iff _ (reading_of_turns hturns reading_reset)).mp (h _ _ _ hturns) d hhandles
    hstate ?_
  have hhuge : d.contentLength.toInt = 9223372036854775807 := by
    rw [hlength]
    decide
  unfold BodyOverflows
  omega

end Bookstore.ParserBounds
