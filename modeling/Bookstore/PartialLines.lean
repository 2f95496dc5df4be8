import Bookstore.LineReading
import Bookstore.ParserExceptions

/-!
The parser between two turns. While it reads the head, the bytes between
`line_start_` and `checked_idx_` hold no line end, and the line before them has
been ended with NULs. So its state is that of a parser that has handled every
byte before the line and receives the line again.
-/
namespace Bookstore.PartialLines

open HttpTypes RequestParser RequestParser.HttpConn LineReading ParserExceptions

/-- The start of a line has been read. -/
structure MidLine (c : HttpConn) : Prop where
  plain : PlainLine c.getLine
  before : c.lineStart = 0 ∨ c.readBuf[c.lineStart - 1]? = some 0

/-- What holds of the parser before and after every turn. -/
structure Reading (c : HttpConn) : Prop where
  line : c.lineStart ≤ c.checkedIdx
  inBuffer : InBuffer c
  midLine : c.checkState ≠ .content → MidLine c

theorem reading_reset : Reading .reset where
  line := Nat.le_refl _
  inBuffer := inBuffer_reset
  midLine _ := ⟨plainLine_nil, .inl rfl⟩

theorem Reading.receive {c : HttpConn} (h : Reading c) {chunk : Bytes}
    (hfits : c.readBuf.length + chunk.length ≤ kReadBufSize) : Reading (c.receive chunk) where
  line := h.line
  inBuffer := inBuffer_receive h.inBuffer hfits
  midLine hstate := by
    obtain ⟨hplain, hbefore⟩ := h.midLine hstate
    have hchecked := h.inBuffer.checked
    have hline := h.line
    refine ⟨?_, hbefore.imp_right fun hzero => ?_⟩
    · rw [getLine_receive hchecked]
      exact hplain
    · obtain ⟨hlt, _⟩ := List.getElem?_eq_some_iff.mp hzero
      exact (List.getElem?_append_left hlt).trans hzero

/-! ## The line so far -/

/-- The parser before the line: every byte received has been handled. -/
def base (c : HttpConn) : HttpConn :=
  { c with
    readBuf := c.readBuf.take c.lineStart
    checkedIdx := c.lineStart }

/-- The bytes of the line received so far. -/
def part (c : HttpConn) : Bytes := c.readBuf.drop c.lineStart

theorem receive_part (c : HttpConn) :
    (base c).receive (part c) = { c with checkedIdx := c.lineStart } := by
  simp only [HttpConn.receive, base, part, List.take_append_drop]

section MidLines

variable {c : HttpConn} (h : Reading c)

include h

theorem Reading.start_le : c.lineStart ≤ c.readBuf.length := Nat.le_trans h.line h.inBuffer.checked

theorem Reading.allHandled : AllHandled (base c) := by
  have hlength : (base c).readBuf.length = c.lineStart := by
    rw [base, List.length_take, Nat.min_eq_left h.start_le]
  exact ⟨hlength.symm, hlength.symm⟩

theorem Reading.receive_part (chunk : Bytes) :
    base (c.receive chunk) = base c ∧ part (c.receive chunk) = part c ++ chunk := by
  have hle := h.start_le
  simp only [base, part, HttpConn.receive, List.take_append_of_le_length hle,
    List.drop_append_of_le_length hle, and_self]

/-- The bytes that have been looked at hold no line end. -/
theorem Reading.eolIdx (hstate : c.checkState ≠ .content) :
    HttpConn.eolIdx { c with checkedIdx := c.lineStart } = c.eolIdx := by
  have hplain := (h.midLine hstate).plain
  have hline := h.line
  have hsplit : c.readBuf.drop c.lineStart = c.getLine ++ c.readBuf.drop c.checkedIdx := by
    have hdrop : (c.readBuf.drop c.lineStart).drop (c.checkedIdx - c.lineStart) =
        c.readBuf.drop c.checkedIdx := by
      rw [List.drop_drop]
      congr 1
      omega
    rw [HttpConn.getLine, ← hdrop, List.take_append_drop]
  have hlength : c.getLine.length = c.checkedIdx - c.lineStart := by
    have hchecked := h.inBuffer.checked
    rw [HttpConn.getLine, List.length_take, List.length_drop]
    omega
  show c.lineStart + ((c.readBuf.drop c.lineStart).takeWhile fun b => !isEol b).length =
    c.checkedIdx + ((c.readBuf.drop c.checkedIdx).takeWhile fun b => !isEol b).length
  rw [hsplit, List.takeWhile_append_of_pos fun b hb => by rw [hplain b hb]; rfl,
    List.length_append, hlength]
  omega

/-- The line is found again when it is received again. -/
theorem Reading.parseLine (hstate : c.checkState ≠ .content) :
    ((base c).receive (part c)).parseLine = c.parseLine := by
  have heol := h.eolIdx hstate
  rw [PartialLines.receive_part]
  unfold HttpConn.parseLine
  simp only [heol]
  rfl

/-- A CR before the line would have been ended with its line. -/
theorem Reading.base_last (hstate : c.checkState ≠ .content) :
    (base c).readBuf.getLast? ≠ some 13 := by
  have hle := h.start_le
  rcases (h.midLine hstate).before with hzero | hnul
  · rw [base, hzero]
    exact nofun
  · obtain ⟨hlt, _⟩ := List.getElem?_eq_some_iff.mp hnul
    have hlength : (c.readBuf.take c.lineStart).length = c.lineStart := by
      rw [List.length_take, Nat.min_eq_left hle]
    by_cases hstart : c.lineStart = 0
    · rw [base, hstart]
      exact nofun
    · rw [base, List.getLast?_eq_getElem?, hlength, List.getElem?_take_of_lt (by omega), hnul]
      exact nofun

end MidLines

/-! ## The three kinds of input -/

/-- Bytes after a line that parse_line does not take for its end. -/
inductive Broken : Bytes → Prop
  | lf (rest : Bytes) : Broken (10 :: rest)
  | cr {b : UInt8} (hb : b ≠ 10) (rest : Bytes) : Broken (13 :: b :: rest)

/-- The input ends inside its first line, or the line has its end, or something
else follows the line. -/
inductive FirstLine : Bytes → Prop
  | short {line : Bytes} (hline : PlainLine line) : FirstLine line
  | pending {line : Bytes} (hline : PlainLine line) : FirstLine (line ++ [13])
  | ended {line : Bytes} (hline : PlainLine line) (rest : Bytes) :
      FirstLine (line ++ 13 :: 10 :: rest)
  | broken {line rest : Bytes} (hline : PlainLine line) (hrest : Broken rest) :
      FirstLine (line ++ rest)

theorem plainLine_takeWhile (bytes : Bytes) : PlainLine (bytes.takeWhile fun b => !isEol b) := by
  intro b hb
  have hplain := @List.mem_takeWhile_imp _ (fun b => !isEol b) _ b hb
  simpa using hplain

/-- What follows the bytes of a line. -/
theorem lineEnd_kinds {bytes tail : Bytes} (h : bytes.dropWhile (fun b => !isEol b) = tail) :
    tail = [] ∨ tail = [13] ∨ (∃ rest, tail = 13 :: 10 :: rest) ∨ Broken tail := by
  cases tail with
  | nil => exact .inl rfl
  | cons b rest =>
    have hb : isEol b = true := by
      have hhead := @List.head?_dropWhile_not _ (fun b => !isEol b) bytes
      rw [h] at hhead
      simpa using hhead
    rw [isEol, Bool.or_eq_true, beq_iff_eq, beq_iff_eq] at hb
    rcases hb with rfl | rfl
    · cases rest with
      | nil => exact .inr (.inl rfl)
      | cons b rest =>
        by_cases hlf : b = 10
        · exact .inr (.inr (.inl ⟨rest, by rw [hlf]⟩))
        · exact .inr (.inr (.inr (.cr hlf rest)))
    · exact .inr (.inr (.inr (.lf rest)))

theorem firstLine (bytes : Bytes) : FirstLine bytes := by
  have hline := plainLine_takeWhile bytes
  have hsplit := @List.takeWhile_append_dropWhile _ (fun b => !isEol b) bytes
  rw [← hsplit]
  rcases lineEnd_kinds rfl with hrest | hrest | ⟨rest, hrest⟩ | hrest
  · rw [hrest, List.append_nil]
    exact .short hline
  · rw [hrest]
    exact .pending hline
  · rw [hrest]
    exact .ended hline rest
  · exact .broken hline hrest

theorem parseLine_broken {c : HttpConn} (hall : AllHandled c) (hlast : c.readBuf.getLast? ≠ some 13)
    {line rest : Bytes} (hline : PlainLine line) (hrest : Broken rest) :
    (c.receive (line ++ rest)).parseLine.1 = .bad := by
  have hbuf : (c.receive (line ++ rest)).readBuf = c.readBuf ++ line ++ rest :=
    (List.append_assoc ..).symm
  have hlength : c.readBuf.length + line.length = (c.readBuf ++ line).length :=
    (List.length_append).symm
  have hnone : (c.readBuf ++ line).getLast? ≠ some 13 := by
    intro heq
    rcases List.eq_nil_or_concat line with hnil | ⟨before, b, hcons⟩
    · rw [hnil, List.append_nil] at heq
      exact hlast heq
    · rw [hcons, List.concat_eq_append, ← List.append_assoc, List.getLast?_concat,
        Option.some.injEq] at heq
      have hb := hline b (by rw [hcons]; simp)
      rw [heq] at hb
      cases hb
  cases hrest with
  | lf tail =>
    have hi := @eolIdx_line c hall line hline (10 :: tail) (.inr ⟨10, rfl, rfl⟩)
    unfold HttpConn.parseLine
    simp only [hi, hbuf, hlength, List.drop_left]
    rw [if_neg]
    · rfl
    · intro hcr
      rw [List.getElem?_append_left (by omega), ← List.getLast?_eq_getElem?] at hcr
      exact hnone hcr.2
  | @cr b hb tail =>
    have hi := @eolIdx_line c hall line hline (13 :: b :: tail) (.inr ⟨13, rfl, rfl⟩)
    unfold HttpConn.parseLine
    simp only [hi, hbuf, hlength, List.drop_left]
    split
    · rename_i heq
      cases heq
    · rename_i heq
      exact absurd (List.cons.inj heq).1 hb
    · rfl

/-- parse_line ends a line exactly when the input starts with one. -/
theorem parseLine_ok_iff {c d : HttpConn} (hall : AllHandled c)
    (hlast : c.readBuf.getLast? ≠ some 13) (bytes : Bytes) :
    (c.receive bytes).parseLine = (.ok, d) ↔ ∃ line rest, PlainLine line ∧
      bytes = line ++ 13 :: 10 :: rest ∧ d = (endedBy c line).receive rest := by
  constructor
  · intro hparse
    cases firstLine bytes with
    | short hline =>
      have hopen := parseLine_short hall hline (List.prefix_append bytes [13, 10]) (by omega)
      rw [hparse] at hopen
      cases hopen
    | @pending line hline =>
      have hopen := @parseLine_short c hall line hline (line ++ [13]) ⟨[10], by simp⟩ (by simp)
      rw [hparse] at hopen
      cases hopen
    | @ended line hline rest =>
      rw [parseLine_line hall hline rest] at hparse
      exact ⟨line, rest, hline, rfl, (Prod.mk.inj hparse).2.symm⟩
    | broken hline hrest =>
      have hbad := parseLine_broken hall hlast hline hrest
      rw [hparse] at hbad
      cases hbad
  · intro h
    obtain ⟨line, rest, hline, rfl, rfl⟩ := h
    exact parseLine_line hall hline rest

/-! ## Turns -/

/-- A line that has been read: the bytes before its end, then two NULs. -/
theorem Reading.ended {c d : HttpConn} (h : Reading c) (hstate : c.checkState ≠ .content)
    (hparse : c.parseLine = (.ok, d)) : ∃ line rest, PlainLine line ∧
      part c = line ++ 13 :: 10 :: rest ∧ d = (endedBy (base c) line).receive rest := by
  rw [← h.parseLine hstate] at hparse
  exact (parseLine_ok_iff h.allHandled (h.base_last hstate) (part c)).mp hparse

theorem getLine_ended {c : HttpConn} (hall : AllHandled c) (line rest : Bytes) :
    ((endedBy c line).receive rest).getLine = line ++ [0, 0] := by
  have hle : (endedBy c line).checkedIdx ≤ (endedBy c line).readBuf.length := Nat.le_refl _
  rw [getLine_receive hle, getLine_endedBy hall]

theorem lineStart_parseHeaders {c d : HttpConn} {text : Bytes} {ret : HttpCode}
    (h : c.parseHeaders text = .ok (ret, d)) : d.lineStart = c.lineStart := by
  unfold HttpConn.parseHeaders at h
  dsimp only at h
  repeat' split at h
  all_goals try (cases h; rfl)
  cases hstol : stol (headerVal text (ascii "Content-length:")) with
  | error e => simp [hstol, Except.map] at h
  | ok n =>
    simp only [hstol, Except.map, Except.ok.injEq, Prod.mk.injEq] at h
    rw [← h.2]

/-- Handling a line starts the next one behind it, and the body is not left. -/
theorem handleLine_moves {env : Env} {c d : HttpConn} {lineSt : LineStatus}
    (h : c.handleLine env = .inl (d, lineSt)) :
    d.lineStart = c.checkedIdx ∧ (c.checkState = .content → d.checkState = .content) := by
  unfold HttpConn.handleLine at h
  dsimp only at h
  split at h
  · rename_i hstate
    split at h
    · cases h
    · cases h
      refine ⟨?_, fun hcontent => by rw [hstate] at hcontent; cases hcontent⟩
      unfold HttpConn.parseRequestLine
      dsimp only
      repeat' split
      all_goals rfl
  · rename_i hstate
    split at h
    · cases h
    · rename_i hparse
      split at h
      · cases h
      · cases h
        exact ⟨lineStart_parseHeaders hparse,
          fun hcontent => by rw [hstate] at hcontent; cases hcontent⟩
  · rename_i hstate
    split at h
    · cases h
    · rename_i hparse
      split at h
      · cases h
      · cases h
        unfold HttpConn.parseContent at hparse
        repeat' split at hparse
        all_goals cases hparse
        all_goals exact ⟨rfl, fun _ => hstate⟩

theorem Reading.turn {env : Env} {c d : HttpConn} {lineSt lineSt' : LineStatus} (h : Reading c)
    (hturn : HttpConn.turn env (c, lineSt) = .inl (d, lineSt')) : Reading d := by
  have hin := h.inBuffer.turn hturn
  by_cases hhandles : ∃ e, Handles (c, lineSt) e
  · obtain ⟨e, he⟩ := hhandles
    rw [turn_of_handles he] at hturn
    obtain ⟨hbuf, hidx, -⟩ := handleLine_goes_on hturn
    obtain ⟨hstart, hstays⟩ := handleLine_moves hturn
    have hempty : d.getLine = [] := by
      rw [HttpConn.getLine, hstart, hidx, Nat.sub_self, List.take_zero]
    refine ⟨Nat.le_of_eq (hstart.trans hidx.symm), hin, fun hstate => ⟨?_, .inr ?_⟩⟩
    · rw [hempty]
      exact plainLine_nil
    · have hnot : e.checkState ≠ .content := fun hcontent => hstate (hstays hcontent)
      have hline : c.parseLine = (.ok, e) := by
        unfold Handles at he
        split at he
        · rename_i hcontent
          exact absurd (he ▸ hcontent.1) hnot
        · exact he
      have hsame := (parseLine_keeps_fields c).1
      rw [hline] at hsame
      obtain ⟨line, rest, _, _, hended⟩ := h.ended (hsame ▸ hnot) hline
      have hlength : (endedBy (base c) line).checkedIdx =
          ((base c).readBuf ++ line).length + 2 := by
        simp only [endedBy, List.length_append, List.length_cons, List.length_nil]
      rw [hstart, hbuf, hended]
      show ((base c).readBuf ++ line ++ [0, 0] ++ rest)[(endedBy (base c) line).checkedIdx - 1]? = _
      rw [hlength, List.append_assoc, List.getElem?_append_right (by omega)]
      simp
  · rw [turn_of_not_handles (not_exists.mp hhandles)] at hturn
    cases hturn

theorem Reading.stops {c : HttpConn} (h : Reading c) :
    Reading { c with checkedIdx := c.eolIdx } := by
  have hle : c.checkedIdx ≤ c.eolIdx := Nat.le_add_right _ _
  refine ⟨Nat.le_trans h.line hle, ⟨eolIdx_le c h.inBuffer.checked, h.inBuffer.size⟩,
    fun hstate => ⟨?_, (h.midLine hstate).before⟩⟩
  have heol := h.eolIdx hstate
  have hlength : c.eolIdx - c.lineStart =
      ((c.readBuf.drop c.lineStart).takeWhile fun b => !isEol b).length := by
    rw [← heol]
    exact Nat.add_sub_cancel_left ..
  show PlainLine ((c.readBuf.drop c.lineStart).take (c.eolIdx - c.lineStart))
  rw [hlength, ← List.prefix_iff_eq_take.mp (List.takeWhile_prefix _)]
  exact plainLine_takeWhile _

/-! ## Runs -/

section Runs

variable {env : Env} {c d : HttpConn}

theorem Reading.passes (h : Reading c) {s : HttpConn × LineStatus}
    (hpasses : (readLoop env).Passes (c, .ok) s) : Reading s.1 := by
  refine @Loops.Loop.Passes.invariant _ _ _ (fun u => Reading u.1) ?_ _ _ hpasses h
  intro u v hu hbody
  exact hu.turn hbody

/-- The parser that waits for more. -/
theorem Reading.waits (h : Reading c) (hread : processRead env c = .ok (.noRequest, d)) :
    Reading d := by
  obtain ⟨t, lineSt, hpasses, -, rfl⟩ := exists_stop hread
  have ht := h.passes hpasses
  exact ht.stops

theorem reading_of_turns {chunks : List Bytes} {s : HttpConn × LineStatus}
    (h : Turns env c chunks s) (hc : Reading c) : Reading s.1 := by
  induction h with
  | call hfits hpasses => exact (hc.receive hfits).passes hpasses
  | more hfits hread _ ih => exact ih ((hc.receive hfits).waits hread)
  | next _ _ _ _ ih => exact ih reading_reset
  | closed _ _ ih => exact ih reading_reset

end Runs

end Bookstore.PartialLines
