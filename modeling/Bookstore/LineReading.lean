import Bookstore.RequestParser
import Mathlib.Data.List.TakeWhile

/-!
How reading goes on when more bytes arrive. A turn that handles a line does not
see what follows it, and a call that stops before a line end is taken up again
where it stopped.
-/
namespace Bookstore.LineReading

open HttpTypes RequestParser RequestParser.HttpConn

/-! ## Lines that are complete -/

theorem receive_nil (c : HttpConn) : c.receive [] = c := by
  unfold HttpConn.receive
  rw [List.append_nil]

theorem receive_receive (c : HttpConn) (chunk more : Bytes) :
    (c.receive chunk).receive more = c.receive (chunk ++ more) := by
  unfold HttpConn.receive
  rw [List.append_assoc]

theorem getLine_receive {c : HttpConn} (h : c.checkedIdx ≤ c.readBuf.length) (chunk : Bytes) :
    (c.receive chunk).getLine = c.getLine := by
  change ((c.readBuf ++ chunk).drop c.lineStart).take (c.checkedIdx - c.lineStart) =
    (c.readBuf.drop c.lineStart).take (c.checkedIdx - c.lineStart)
  by_cases hline : c.lineStart ≤ c.readBuf.length
  · rw [List.drop_append_of_le_length hline, List.take_append_of_le_length]
    rw [List.length_drop]
    omega
  · have hnone : c.checkedIdx - c.lineStart = 0 := by omega
    rw [hnone, List.take_zero, List.take_zero]

theorem parseRequestLine_receive (c : HttpConn) (text chunk : Bytes) :
    (c.receive chunk).parseRequestLine text =
      ((c.parseRequestLine text).1, (c.parseRequestLine text).2.receive chunk) := by
  unfold HttpConn.parseRequestLine
  dsimp only
  split
  · rfl
  · split
    · rfl
    · split
      · rfl
      · rfl

theorem parseHeaders_receive (c : HttpConn) (text chunk : Bytes) :
    (c.receive chunk).parseHeaders text =
      (c.parseHeaders text).map fun answer => (answer.1, answer.2.receive chunk) := by
  have hlength : (c.receive chunk).contentLength = c.contentLength := rfl
  unfold HttpConn.parseHeaders
  simp only [hlength]
  repeat' split
  all_goals try rfl
  cases stol (headerVal text (ascii "Content-length:")) with
  | error e => rfl
  | ok n => rfl

/-- What follows a line is not seen when it is handled. -/
theorem handleLine_receive {env : Env} {c d : HttpConn} {lineSt : LineStatus}
    (hidx : c.checkedIdx ≤ c.readBuf.length) (hstate : c.checkState ≠ .content)
    (h : c.handleLine env = .inl (d, lineSt)) (chunk : Bytes) :
    (c.receive chunk).handleLine env = .inl (d.receive chunk, lineSt) := by
  have hcheck : (c.receive chunk).checkState = c.checkState := rfl
  have hmoved : { c.receive chunk with lineStart := (c.receive chunk).checkedIdx } =
      HttpConn.receive { c with lineStart := c.checkedIdx } chunk := rfl
  unfold HttpConn.handleLine at h ⊢
  dsimp only at h ⊢
  rw [getLine_receive hidx, hmoved]
  cases hc : c.checkState with
  | requestLine =>
    simp only [hcheck, hc] at h ⊢
    rw [parseRequestLine_receive]
    split at h
    · cases h
    · rename_i hgood
      cases h
      exact if_neg hgood
  | header =>
    simp only [hcheck, hc] at h ⊢
    split at h
    · cases h
    · rename_i ret e hparse
      rw [parseHeaders_receive, hparse]
      split at h
      · cases h
      · rename_i hmore
        cases h
        exact if_neg hmore
  | content => exact absurd hc hstate

/-! ## Lines that are not -/

/-- The bytes up to the stop are not looked at again. -/
theorem eolIdx_resumes {c : HttpConn} (hidx : c.checkedIdx ≤ c.readBuf.length) (chunk : Bytes) :
    (HttpConn.receive { c with checkedIdx := c.eolIdx } chunk).eolIdx =
      (c.receive chunk).eolIdx := by
  change c.eolIdx + (((c.readBuf ++ chunk).drop c.eolIdx).takeWhile fun b => !isEol b).length =
    c.checkedIdx + (((c.readBuf ++ chunk).drop c.checkedIdx).takeWhile fun b => !isEol b).length
  have hstop := eolIdx_le c hidx
  rw [List.drop_append_of_le_length hidx, List.drop_append_of_le_length hstop]
  have hline : ∀ b ∈ (c.readBuf.drop c.checkedIdx).takeWhile (fun b => !isEol b),
      (!isEol b) = true := fun b hb =>
    @List.mem_takeWhile_imp _ (fun b => !isEol b) _ b hb
  have hsplit : c.readBuf.drop c.checkedIdx =
      (c.readBuf.drop c.checkedIdx).takeWhile (fun b => !isEol b) ++ c.readBuf.drop c.eolIdx := by
    rw [HttpConn.eolIdx, ← List.drop_drop]
    exact (List.prefix_iff_eq_append.mp (List.takeWhile_prefix _)).symm
  have hrest : (c.readBuf.drop c.checkedIdx ++ chunk).takeWhile (fun b => !isEol b) =
      (c.readBuf.drop c.checkedIdx).takeWhile (fun b => !isEol b) ++
        (c.readBuf.drop c.eolIdx ++ chunk).takeWhile fun b => !isEol b := by
    rw [← List.takeWhile_append_of_pos hline, ← List.append_assoc, ← hsplit]
  rw [hrest, List.length_append, ← Nat.add_assoc]
  rfl

/-- A call that found no line end is taken up where it stopped. -/
theorem parseLine_resumes {c : HttpConn} (hidx : c.checkedIdx ≤ c.readBuf.length) (chunk : Bytes) :
    (HttpConn.receive { c with checkedIdx := c.eolIdx } chunk).parseLine =
      (c.receive chunk).parseLine := by
  have hstop := eolIdx_resumes hidx chunk
  unfold HttpConn.parseLine
  simp only [hstop]
  rfl

/-! ## Line by line -/

/-- A line without its end. -/
def PlainLine (line : Bytes) : Prop := ∀ b ∈ line, isEol b = false

theorem plainLine_nil : PlainLine [] := by
  intro b hb
  cases hb

theorem plainLine_of_all {line : Bytes} (h : line.all (fun b => !isEol b) = true) :
    PlainLine line := by
  intro b hb
  simpa using List.all_eq_true.mp h b hb

theorem plainLine_append {line more : Bytes} (h : PlainLine line) (hmore : PlainLine more) :
    PlainLine (line ++ more) := by
  intro b hb
  exact (List.mem_append.mp hb).elim (h b) (hmore b)

/-- Every byte received has been handled. -/
structure AllHandled (c : HttpConn) : Prop where
  checked : c.checkedIdx = c.readBuf.length
  line : c.lineStart = c.readBuf.length

theorem allHandled_reset : AllHandled .reset := ⟨rfl, rfl⟩

theorem reset_not_content : HttpConn.reset.checkState ≠ .content := nofun

/-- The connection when a line has been read and not been handled. -/
def endedBy (c : HttpConn) (line : Bytes) : HttpConn :=
  { c with
    readBuf := c.readBuf ++ line ++ [0, 0]
    checkedIdx := (c.readBuf ++ line ++ [0, 0]).length }

theorem eolIdx_line {c : HttpConn} (hall : AllHandled c) {line : Bytes} (hline : PlainLine line)
    {rest : Bytes} (hrest : rest = [] ∨ ∃ b, isEol b = true ∧ rest.head? = some b) :
    (c.receive (line ++ rest)).eolIdx = c.readBuf.length + line.length := by
  change c.checkedIdx +
    (((c.readBuf ++ (line ++ rest)).drop c.checkedIdx).takeWhile fun b => !isEol b).length = _
  have hplain : ∀ b ∈ line, (!isEol b) = true := fun b hb => by rw [hline b hb]; rfl
  rw [hall.checked, List.drop_left, List.takeWhile_append_of_pos hplain]
  rcases hrest with rfl | ⟨b, hb, hhead⟩
  · simp only [List.takeWhile_nil, List.append_nil]
  · obtain ⟨tail, rfl⟩ := List.head?_eq_some_iff.mp hhead
    simp only [List.takeWhile_cons, hb, Bool.not_true, Bool.false_eq_true, if_false,
      List.append_nil]

theorem parseLine_line {c : HttpConn} (hall : AllHandled c) {line : Bytes} (hline : PlainLine line)
    (rest : Bytes) : (c.receive (line ++ 13 :: 10 :: rest)).parseLine =
      (.ok, (endedBy c line).receive rest) := by
  have hi := @eolIdx_line c hall line hline (13 :: 10 :: rest) (.inr ⟨13, rfl, rfl⟩)
  have hbuf : (c.receive (line ++ 13 :: 10 :: rest)).readBuf =
      c.readBuf ++ line ++ 13 :: 10 :: rest := (List.append_assoc ..).symm
  have hlength : c.readBuf.length + line.length = (c.readBuf ++ line).length :=
    (List.length_append).symm
  unfold HttpConn.parseLine
  simp only [hi, hbuf, hlength, List.drop_left, HttpConn.endLine]
  have hset : ((c.readBuf ++ line ++ 13 :: 10 :: rest).set (c.readBuf ++ line).length 0).set
      ((c.readBuf ++ line).length + 1) 0 = c.readBuf ++ line ++ 0 :: 0 :: rest := by
    rw [List.set_append_right _ _ (Nat.le_refl _), Nat.sub_self,
      List.set_append_right _ _ (Nat.le_succ _), Nat.succ_sub (Nat.le_refl _), Nat.sub_self]
    rfl
  rw [hset]
  simp [endedBy, HttpConn.receive, Nat.add_assoc]

/-- A line whose end has not arrived as a whole. -/
theorem parseLine_short {c : HttpConn} (hall : AllHandled c) {line : Bytes} (hline : PlainLine line)
    {part : Bytes} (hpart : part <+: line ++ [13, 10]) (hlt : part.length < line.length + 2) :
    (c.receive part).parseLine.1 = .open := by
  have hbuf : (c.receive part).readBuf = c.readBuf ++ part := rfl
  obtain ⟨plain, rest, rfl, hplain, hrest⟩ : ∃ plain rest, part = plain ++ rest ∧
      PlainLine plain ∧ (rest = [] ∨ rest = [13]) := by
    rcases Nat.lt_or_ge line.length part.length with hlong | hshort
    · refine ⟨line, [13], ?_, hline, .inr rfl⟩
      have htake := List.prefix_iff_eq_take.mp hpart
      have hlength : part.length = line.length + 1 := by omega
      rw [htake, hlength, List.take_length_add_append]
      rfl
    · refine ⟨part, [], (List.append_nil _).symm, fun b hb => ?_, .inl rfl⟩
      exact hline b ((List.prefix_of_prefix_length_le hpart (List.prefix_append _ _) hshort).mem hb)
  have hi := @eolIdx_line c hall plain hplain rest (by
    rcases hrest with rfl | rfl
    · exact .inl rfl
    · exact .inr ⟨13, rfl, rfl⟩)
  unfold HttpConn.parseLine
  simp only [hi, hbuf, ← List.length_append, ← List.append_assoc, List.drop_left]
  rcases hrest with rfl | rfl
  · rfl
  · rfl

theorem parseLine_keeps_fields (c : HttpConn) :
    c.parseLine.2.checkState = c.checkState ∧ c.parseLine.2.contentLength = c.contentLength := by
  unfold HttpConn.parseLine
  dsimp only
  repeat' split
  all_goals exact ⟨rfl, rfl⟩

theorem getLine_endedBy {c : HttpConn} (hall : AllHandled c) (line : Bytes) :
    (endedBy c line).getLine = line ++ [0, 0] := by
  change ((c.readBuf ++ line ++ [0, 0]).drop c.lineStart).take
    ((c.readBuf ++ line ++ [0, 0]).length - c.lineStart) = line ++ [0, 0]
  rw [hall.line, List.append_assoc, List.drop_left, List.length_append, Nat.add_sub_cancel_left,
    List.take_length]

/-- The connection after the line has been handled, but for what was parsed. -/
def passed (c : HttpConn) (line : Bytes) : HttpConn :=
  { endedBy c line with lineStart := (endedBy c line).checkedIdx }

/-- An accepted request line, on any connection. -/
theorem parseRequestLine_accepted {text : Bytes}
    (h : (HttpConn.reset.parseRequestLine text).1 = .noRequest) (c : HttpConn) :
    ∃ method url, c.parseRequestLine text =
      (.noRequest, { c with
        method := method
        url := url
        checkState := .header }) := by
  unfold HttpConn.parseRequestLine at h ⊢
  dsimp only at h ⊢
  split at h
  · cases h
  · rename_i hrest
    rw [if_neg hrest]
    split at h
    · cases h
    · rename_i method hmethod
      split at h
      · cases h
      · rename_i url hurl
        exact ⟨_, _, rfl⟩

/-- A refused request line, on any connection. -/
theorem parseRequestLine_refused {text : Bytes}
    (h : (HttpConn.reset.parseRequestLine text).1 ≠ .noRequest) (c : HttpConn) :
    (c.parseRequestLine text).1 = .badRequest := by
  unfold HttpConn.parseRequestLine at h ⊢
  dsimp only at h ⊢
  split at h
  · rename_i hrest
    rw [if_pos hrest]
  · rename_i hrest
    rw [if_neg hrest]
    split at h
    · rfl
    · split at h
      · rfl
      · exact absurd rfl h

theorem handleLine_requestLine {env : Env} {c : HttpConn} {line : Bytes} (hall : AllHandled c)
    (hstate : c.checkState = .requestLine)
    (haccepted : (HttpConn.reset.parseRequestLine (line ++ [0, 0])).1 = .noRequest) :
    ∃ d, (endedBy c line).handleLine env = .inl (d, .ok) ∧ AllHandled d ∧
      d.checkState = .header ∧ d.contentLength = c.contentLength ∧
      d.readBuf = c.readBuf ++ line ++ [0, 0] := by
  obtain ⟨method, url, hparse⟩ := parseRequestLine_accepted haccepted (passed c line)
  let d : HttpConn := { passed c line with
      method := method
      url := url
      checkState := .header }
  refine ⟨d, ?_, ⟨rfl, rfl⟩, rfl, rfl, rfl⟩
  unfold HttpConn.handleLine
  dsimp only
  rw [getLine_endedBy hall]
  unfold passed at hparse
  split
  · rw [hparse]
    rfl
  · rename_i hother
    cases hother.symm.trans hstate
  · rename_i hother
    cases hother.symm.trans hstate

theorem sameNoCase_letter {text pattern : Bytes} (h : sameNoCase text pattern = true) {i : ℕ}
    {p : UInt8} (hp : pattern[i]? = some p) : ∃ c, text[i]? = some c ∧ toLower c = toLower p := by
  induction pattern generalizing text i with
  | nil => cases hp
  | cons q pattern ih =>
    cases text with
    | nil => cases h
    | cons c text =>
      simp only [sameNoCase, Bool.and_eq_true, beq_iff_eq] at h
      cases i with
      | zero =>
        obtain rfl := Option.some.inj hp
        exact ⟨c, rfl, h.1⟩
      | succ i => exact ih h.2 hp

/-- No line is a connection header and a content length at once. -/
theorem contentLength_of_connection {text : Bytes} (h : headerVal text (ascii "Connection:") ≠ []) :
    headerVal text (ascii "Content-length:") = [] := by
  have hname : ∀ {name}, headerVal text name ≠ [] → sameNoCase text name = true := by
    intro name hval
    by_contra hother
    unfold headerVal at hval
    split at hval
    · exact hval rfl
    · exact hval rfl
  by_contra hlength
  obtain ⟨c, hc, hn⟩ := @sameNoCase_letter _ _ (hname h) 3 110 (by decide)
  obtain ⟨c', hc', ht⟩ := @sameNoCase_letter _ _ (hname hlength) 3 116 (by decide)
  cases hc.symm.trans hc'
  rw [hn] at ht
  revert ht
  decide

/-- The content length after a header line. -/
def lengthAfter (n : Int64) (line : Bytes) : Int64 :=
  match stol (headerVal (line ++ [0, 0]) (ascii "Content-length:")) with
  | .ok m => m
  | .error _ => n

/-- A header line: not the blank one, and a content length is a number. -/
structure HeaderLine (line : Bytes) : Prop where
  plain : PlainLine line
  named : (line ++ [0, 0]).head? ≠ some 0
  number : headerVal (line ++ [0, 0]) (ascii "Content-length:") ≠ [] →
    ∃ n, stol (headerVal (line ++ [0, 0]) (ascii "Content-length:")) = .ok n

theorem parseHeaders_headerLine {line : Bytes} (hline : HeaderLine line) (c : HttpConn) :
    ∃ linger host, c.parseHeaders (line ++ [0, 0]) = .ok (.noRequest, { c with
      linger := linger
      host := host
      contentLength := lengthAfter c.contentLength line }) := by
  have hempty : headerVal (line ++ [0, 0]) (ascii "Content-length:") = [] →
      lengthAfter c.contentLength line = c.contentLength := by
    intro hnone
    unfold lengthAfter
    rw [hnone]
    rfl
  unfold HttpConn.parseHeaders
  dsimp only
  rw [if_neg hline.named]
  split
  · rename_i hconnection
    rw [hempty (contentLength_of_connection hconnection)]
    exact ⟨_, _, rfl⟩
  · split
    · rename_i hlength
      obtain ⟨n, hn⟩ := hline.number hlength
      unfold lengthAfter
      rw [hn]
      exact ⟨_, _, rfl⟩
    · rename_i hlength
      rw [hempty (not_not.mp hlength)]
      split
      · exact ⟨_, _, rfl⟩
      · exact ⟨_, _, rfl⟩

theorem handleLine_headerLine {env : Env} {c : HttpConn} {line : Bytes} (hall : AllHandled c)
    (hstate : c.checkState = .header) (hline : HeaderLine line) :
    ∃ d, (endedBy c line).handleLine env = .inl (d, .ok) ∧ AllHandled d ∧
      d.checkState = .header ∧ d.contentLength = lengthAfter c.contentLength line ∧
      d.readBuf = c.readBuf ++ line ++ [0, 0] := by
  obtain ⟨linger, host, hparse⟩ := parseHeaders_headerLine hline (passed c line)
  let d : HttpConn := { passed c line with
      linger := linger
      host := host
      contentLength := lengthAfter c.contentLength line }
  refine ⟨d, ?_, ⟨rfl, rfl⟩, hstate, rfl, rfl⟩
  unfold HttpConn.handleLine
  dsimp only
  rw [getLine_endedBy hall]
  unfold passed at hparse
  split
  · rename_i hother
    cases hother.symm.trans hstate
  · rw [hparse]
    rfl
  · rename_i hother
    cases hother.symm.trans hstate

/-- A line that starts with NUL ends the request, or the body follows. -/
theorem handleLine_nul {env : Env} {c : HttpConn} (hstate : c.checkState = .header)
    (hnul : c.getLine.head? = some 0) : c.handleLine env =
      if c.contentLength ≠ 0 then
        .inl ({ c with lineStart := c.checkedIdx, checkState := .content }, .ok)
      else .inr (.ok (HttpConn.doRequest env { c with lineStart := c.checkedIdx })) := by
  unfold HttpConn.handleLine HttpConn.parseHeaders
  dsimp only
  rw [if_pos hnul]
  split
  · rename_i hother
    cases hother.symm.trans hstate
  · by_cases hbody : c.contentLength ≠ 0
    · simp only [if_pos hbody]
      rfl
    · simp only [if_neg hbody]
      rfl
  · rename_i hother
    cases hother.symm.trans hstate

/-- The blank line ends the request, or the body follows. -/
theorem handleLine_blank {env : Env} {c : HttpConn} (hall : AllHandled c)
    (hstate : c.checkState = .header) : (endedBy c []).handleLine env =
      if c.contentLength ≠ 0 then .inl ({ passed c [] with checkState := .content }, .ok)
      else .inr (.ok ((passed c []).doRequest env)) := by
  have hnul : (endedBy c []).getLine.head? = some 0 := by
    rw [getLine_endedBy hall]
    rfl
  exact @handleLine_nul env (endedBy c []) hstate hnul

/-! ## Calls -/

section Calls

variable {env : Env} {c d : HttpConn}

/-- A complete line is handled in one turn, whatever follows it. -/
theorem turn_line (hall : AllHandled c) (hstate : c.checkState ≠ .content) {line : Bytes}
    (hline : PlainLine line) (hhandle : (endedBy c line).handleLine env = .inl (d, .ok))
    (rest : Bytes) : HttpConn.turn env (c.receive (line ++ 13 :: 10 :: rest), .ok) =
      .inl (d.receive rest, .ok) := by
  have hhandles : Handles (c.receive (line ++ 13 :: 10 :: rest), .ok)
      ((endedBy c line).receive rest) := by
    unfold Handles
    rw [if_neg fun hcontent => hstate hcontent.1]
    exact parseLine_line hall hline rest
  have hended : (endedBy c line).checkState ≠ .content := hstate
  exact (turn_of_handles hhandles).trans
    (handleLine_receive (Nat.le_refl _) hended hhandle rest)

/-- A complete line is handled with all that follows it. -/
theorem processRead_line (hall : AllHandled c) (hstate : c.checkState ≠ .content) {line : Bytes}
    (hline : PlainLine line) (hhandle : (endedBy c line).handleLine env = .inl (d, .ok))
    (rest : Bytes) : processRead env (c.receive (line ++ 13 :: 10 :: rest)) =
      processRead env (d.receive rest) :=
  Loops.Loop.run_of_goes_on (turn_line hall hstate hline hhandle rest)

/-- A blank line without a body to come ends the call. -/
theorem processRead_blank (hall : AllHandled c) (hstate : c.checkState = .header)
    (hzero : c.contentLength = 0) :
    processRead env (c.receive (13 :: 10 :: [])) = .ok ((passed c []).doRequest env) := by
  have hhandle := @handleLine_blank env c hall hstate
  rw [if_neg fun hsome => hsome hzero] at hhandle
  have hhandles : Handles (c.receive (13 :: 10 :: []), .ok) ((endedBy c []).receive []) := by
    unfold Handles
    rw [if_neg]
    · exact @parseLine_line c hall [] plainLine_nil []
    · intro hcontent
      cases hcontent.1.symm.trans hstate
  rw [receive_nil] at hhandles
  exact Loops.Loop.run_of_leaves ((turn_of_handles hhandles).trans hhandle)

/-- The call with these bytes asks for more, and with more bytes it goes on as if
all had come at once. -/
def Suspends (env : Env) (c : HttpConn) (part : Bytes) : Prop :=
  ∃ s, processRead env (c.receive part) = .ok (.noRequest, s) ∧
    ∀ more, processRead env (s.receive more) = processRead env (c.receive (part ++ more))

/-- A turn that needs a line depends on the next line only. -/
theorem turn_congr {lineSt : LineStatus} (hc : c.checkState ≠ .content)
    (hd : d.checkState ≠ .content) (h : c.parseLine = d.parseLine) :
    HttpConn.turn env (c, lineSt) = HttpConn.turn env (d, lineSt) := by
  have hc' : ¬ (c.checkState = .content ∧ lineSt = .ok) := fun hcontent => hc hcontent.1
  have hd' : ¬ (d.checkState = .content ∧ lineSt = .ok) := fun hcontent => hd hcontent.1
  dsimp only [HttpConn.turn]
  rw [if_neg hc', if_neg hd', h]

theorem suspends_short (hall : AllHandled c) (hstate : c.checkState ≠ .content) {line : Bytes}
    (hline : PlainLine line) {part : Bytes} (hpart : part <+: line ++ [13, 10])
    (hlt : part.length < line.length + 2) : Suspends env c part := by
  have hopen := parseLine_short hall hline hpart hlt
  have hidx : (c.receive part).checkedIdx ≤ (c.receive part).readBuf.length := by
    have hchecked : c.checkedIdx ≤ (c.readBuf ++ part).length := by
      rw [hall.checked, List.length_append]
      exact Nat.le_add_right _ _
    exact hchecked
  have hnot : ∀ d, ¬ Handles (c.receive part, .ok) d := by
    intro d hd
    unfold Handles at hd
    rw [if_neg fun hcontent => hstate hcontent.1] at hd
    rw [hd] at hopen
    cases hopen
  refine ⟨_, Loops.Loop.run_of_leaves (turn_of_not_handles hnot), fun more => ?_⟩
  have hstopped := parseLine_resumes hidx more
  rw [receive_receive] at hstopped
  exact Loops.Loop.run_congr (turn_congr hstate hstate hstopped)

/-- A line in front changes nothing. -/
theorem Suspends.line (hall : AllHandled c) (hstate : c.checkState ≠ .content) {line : Bytes}
    (hline : PlainLine line) (hhandle : (endedBy c line).handleLine env = .inl (d, .ok))
    {part : Bytes} (h : Suspends env d part) : Suspends env c (line ++ 13 :: 10 :: part) := by
  obtain ⟨s, hread, hresumes⟩ := h
  refine ⟨s, (processRead_line hall hstate hline hhandle part).trans hread, fun more => ?_⟩
  have hsame := processRead_line hall hstate hline hhandle (part ++ more)
  rw [hresumes more, ← hsame, List.append_assoc]
  rfl

end Calls

end Bookstore.LineReading
