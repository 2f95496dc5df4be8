import Bookstore.RequestParser

/-!
Where `process_read` throws. Two conversions do: `std::stol` on the value of a
content length header, and the copy of a body whose end is beyond `long`. No
handler catches what they throw.
-/
namespace Bookstore.ParserExceptions

open HttpTypes RequestParser RequestParser.HttpConn

/-- The object over the chunks that `read_once` appends. It is reset for the next
request and for the next connection; when a chunk does not fit, `read_once`
fails and the connection is closed. -/
def serve (env : Env) : HttpConn → List Bytes → Except Exception HttpConn
  | c, [] => .ok c
  | c, chunk :: rest =>
    if kReadBufSize < c.readBuf.length + chunk.length then serve env .reset rest
    else
      match processRead env (c.receive chunk) with
      | .error e => .error e
      | .ok (.noRequest, d) => serve env d rest
      | .ok _ => serve env .reset rest

/-- A header line with a content length that `std::stol` does not convert. -/
def BadContentLength (text : Bytes) : Prop :=
  text.head? ≠ some 0 ∧ headerVal text (ascii "Connection:") = [] ∧
    headerVal text (ascii "Content-length:") ≠ [] ∧
    ∀ n, strtol (headerVal text (ascii "Content-length:")) = some n → ¬ (-2 ^ 63 ≤ n ∧ n < 2 ^ 63)

/-- A turn of the loop that throws. -/
def Throws (s : HttpConn × LineStatus) : Prop :=
  ∃ d, Handles s d ∧
    (d.checkState = .header ∧ BadContentLength d.getLine ∨
      d.checkState = .content ∧ BodyOverflows d)

/-- The turns of the loop that a run of chunks makes. -/
inductive Turns (env : Env) : HttpConn → List Bytes → HttpConn × LineStatus → Prop
  | call {c : HttpConn} {chunk : Bytes} {rest : List Bytes} {s : HttpConn × LineStatus}
      (hfits : c.readBuf.length + chunk.length ≤ kReadBufSize)
      (hpasses : (readLoop env).Passes (c.receive chunk, .ok) s) : Turns env c (chunk :: rest) s
  | more {c d : HttpConn} {chunk : Bytes} {rest : List Bytes} {s : HttpConn × LineStatus}
      (hfits : c.readBuf.length + chunk.length ≤ kReadBufSize)
      (hread : processRead env (c.receive chunk) = .ok (.noRequest, d))
      (hrest : Turns env d rest s) : Turns env c (chunk :: rest) s
  | next {c d : HttpConn} {chunk : Bytes} {rest : List Bytes} {s : HttpConn × LineStatus}
      {ret : HttpCode} (hfits : c.readBuf.length + chunk.length ≤ kReadBufSize)
      (hread : processRead env (c.receive chunk) = .ok (ret, d)) (hret : ret ≠ .noRequest)
      (hrest : Turns env .reset rest s) : Turns env c (chunk :: rest) s
  | closed {c : HttpConn} {chunk : Bytes} {rest : List Bytes} {s : HttpConn × LineStatus}
      (hfull : kReadBufSize < c.readBuf.length + chunk.length) (hrest : Turns env .reset rest s) :
      Turns env c (chunk :: rest) s

theorem stol_throws_iff (s : Bytes) :
    (∃ e, stol s = .error e) ↔ ∀ n, strtol s = some n → ¬ (-2 ^ 63 ≤ n ∧ n < 2 ^ 63) := by
  unfold stol
  cases strtol s with
  | none => exact ⟨fun _ _ h => (nomatch h), fun _ => ⟨_, rfl⟩⟩
  | some n =>
    dsimp only
    split
    · rename_i hrange
      exact ⟨fun ⟨_, h⟩ => (nomatch h), fun h => absurd hrange (h n rfl)⟩
    · rename_i hrange
      exact ⟨fun _ m hm => Option.some.inj hm ▸ hrange, fun _ => ⟨_, rfl⟩⟩

theorem parseHeaders_throws_iff (c : HttpConn) (text : Bytes) :
    (∃ e, c.parseHeaders text = .error e) ↔ BadContentLength text := by
  unfold parseHeaders BadContentLength
  dsimp only
  split
  · rename_i hblank
    refine ⟨fun ⟨e, h⟩ => ?_, fun h => absurd hblank h.1⟩
    split at h <;> cases h
  · rename_i hblank
    split
    · rename_i hconnection
      exact ⟨fun ⟨_, h⟩ => (nomatch h), fun h => absurd h.2.1 hconnection⟩
    · rename_i hconnection
      split
      · rename_i hlength
        rw [← stol_throws_iff]
        constructor
        · rintro ⟨e, h⟩
          refine ⟨hblank, not_not.mp hconnection, hlength, ?_⟩
          cases hstol : stol (headerVal text (ascii "Content-length:")) with
          | error e => exact ⟨e, rfl⟩
          | ok n => simp [hstol, Except.map] at h
        · rintro ⟨-, -, -, e, hstol⟩
          exact ⟨e, by rw [hstol]; rfl⟩
      · rename_i hlength
        refine ⟨fun ⟨e, h⟩ => ?_, fun h => absurd h.2.2.1 hlength⟩
        split at h <;> cases h

theorem parseContent_throws_iff {c : HttpConn} (h : InBuffer c) :
    (∃ e, c.parseContent = .error e) ↔ BodyOverflows c := by
  constructor
  · rintro ⟨e, he⟩
    by_contra hfits
    rcases Int.lt_or_le 0 c.contentLength.toInt with hpos | hnone
    · rcases Int.lt_or_le c.readBuf.length (c.checkedIdx + c.contentLength.toInt) with hlt | hle
      · rw [parseContent_incomplete h (.inr hlt) hfits] at he
        cases he
      · rw [parseContent_complete h hpos hle] at he
        cases he
    · rw [parseContent_incomplete h (.inl hnone) hfits] at he
      cases he
  · exact fun hover => ⟨_, parseContent_overflow h hover⟩

theorem handleLine_throws_iff (env : Env) {d : HttpConn} (h : InBuffer d) :
    (∃ e, d.handleLine env = .inr (.error e)) ↔
      (d.checkState = .header ∧ BadContentLength d.getLine ∨
        d.checkState = .content ∧ BodyOverflows d) := by
  unfold handleLine
  dsimp only
  split
  · rename_i hstate
    rw [hstate]
    split <;> simp
  · rename_i hstate
    have hparse := parseHeaders_throws_iff
      { d with lineStart := d.checkedIdx, checkState := .header } d.getLine
    rw [hstate, ← hparse]
    split
    · rename_i e he
      exact ⟨fun _ => .inl ⟨rfl, e, he⟩, fun _ => ⟨e, rfl⟩⟩
    · rename_i ret c hok
      rw [hok]
      split <;> simp
  · rename_i hstate
    have hin : InBuffer { d with lineStart := d.checkedIdx, checkState := .content } :=
      ⟨h.checked, h.size⟩
    have hparse := parseContent_throws_iff hin
    rw [hstate]
    split
    · rename_i e he
      exact ⟨fun _ => .inr ⟨rfl, hparse.mp ⟨e, he⟩⟩, fun _ => ⟨e, rfl⟩⟩
    · rename_i ret c hok
      have hfits : ¬ BodyOverflows d := by
        intro hover
        obtain ⟨e, he⟩ := hparse.mpr hover
        cases hok.symm.trans he
      split <;> simp [hfits]

theorem turn_throws_iff (env : Env) {s : HttpConn × LineStatus} (h : InBuffer s.1) :
    (∃ e, turn env s = .inr (.error e)) ↔ Throws s := by
  obtain ⟨c, lineSt⟩ := s
  by_cases hhandles : ∃ d, Handles (c, lineSt) d
  · obtain ⟨d, hd⟩ := hhandles
    rw [turn_of_handles hd, handleLine_throws_iff env (h.handles hd)]
    refine ⟨fun hd' => ⟨d, hd, hd'⟩, fun ⟨d', hd', hthrows⟩ => ?_⟩
    have hsame : d' = d := by
      unfold Handles at hd hd'
      split at hd
      · rename_i hcontent
        rw [if_pos hcontent] at hd'
        rw [hd, hd']
      · rename_i hcontent
        rw [if_neg hcontent, hd] at hd'
        exact (Prod.mk.inj hd').2.symm
    exact hsame ▸ hthrows
  · rw [turn_of_not_handles (not_exists.mp hhandles)]
    exact ⟨fun ⟨_, he⟩ => (nomatch he), fun ⟨d, hd, _⟩ => absurd ⟨d, hd⟩ hhandles⟩

theorem inBuffer_of_passes {env : Env} {s t : HttpConn × LineStatus}
    (h : (readLoop env).Passes s t) (hs : InBuffer s.1) : InBuffer t.1 := by
  refine @Loops.Loop.Passes.invariant _ _ _ (fun u => InBuffer u.1) ?_ s t h hs
  intro u v hu hbody
  exact hu.turn hbody

theorem processRead_throws_iff (env : Env) {c : HttpConn} (h : InBuffer c) :
    (∃ e, processRead env c = .error e) ↔
      ∃ s, (readLoop env).Passes (c, .ok) s ∧ Throws s := by
  constructor
  · rintro ⟨e, he⟩
    obtain ⟨t, hpasses, hlast⟩ := (readLoop env).exists_last (c, .ok)
    refine ⟨t, hpasses, (turn_throws_iff env (inBuffer_of_passes hpasses h)).mp ⟨e, ?_⟩⟩
    rw [← he]
    exact hlast
  · rintro ⟨s, hpasses, hthrows⟩
    obtain ⟨e, he⟩ := (turn_throws_iff env (inBuffer_of_passes hpasses h)).mpr hthrows
    refine ⟨e, ?_⟩
    rw [processRead, Loops.Loop.run_of_passes hpasses]
    exact Loops.Loop.run_of_leaves he

/-- The parser asks for more where it finds nothing to handle. -/
theorem exists_stop {env : Env} {c d : HttpConn} (hread : processRead env c = .ok (.noRequest, d)) :
    ∃ t lineSt, (readLoop env).Passes (c, .ok) (t, lineSt) ∧ (∀ e, ¬ Handles (t, lineSt) e) ∧
      d = { t with checkedIdx := t.eolIdx } := by
  obtain ⟨⟨t, lineSt⟩, hpasses, hlast⟩ := (readLoop env).exists_last (c, .ok)
  change turn env (t, lineSt) = .inr (processRead env c) at hlast
  rw [hread] at hlast
  by_cases hhandles : ∃ e, Handles (t, lineSt) e
  · obtain ⟨e, he⟩ := hhandles
    rw [turn_of_handles he] at hlast
    exact absurd rfl (handleLine_answers hlast)
  · have hnone := not_exists.mp hhandles
    rw [turn_of_not_handles hnone] at hlast
    cases hlast
    exact ⟨t, lineSt, hpasses, hnone, rfl⟩

/-- A connection that waits for more is still inside its buffer. -/
theorem inBuffer_of_waits {env : Env} {c d : HttpConn} (h : InBuffer c)
    (hread : processRead env c = .ok (.noRequest, d)) : InBuffer d := by
  obtain ⟨t, lineSt, hpasses, -, rfl⟩ := exists_stop hread
  have hin := inBuffer_of_passes hpasses h
  exact ⟨eolIdx_le t hin.checked, hin.size⟩

theorem inBuffer_receive {c : HttpConn} {chunk : Bytes} (h : InBuffer c)
    (hfits : c.readBuf.length + chunk.length ≤ kReadBufSize) : InBuffer (c.receive chunk) := by
  refine ⟨?_, ?_⟩ <;> simp only [HttpConn.receive, List.length_append]
  · exact Nat.le_add_right_of_le h.checked
  · exact hfits

theorem inBuffer_reset : InBuffer .reset := ⟨Nat.le_refl _, Nat.zero_le _⟩

theorem serve_of_full {env : Env} {c : HttpConn} {chunk : Bytes} {rest : List Bytes}
    (hfull : kReadBufSize < c.readBuf.length + chunk.length) :
    serve env c (chunk :: rest) = serve env .reset rest := by
  rw [serve, if_pos hfull]

theorem serve_of_waits {env : Env} {c d : HttpConn} {chunk : Bytes} {rest : List Bytes}
    (hfits : c.readBuf.length + chunk.length ≤ kReadBufSize)
    (hread : processRead env (c.receive chunk) = .ok (.noRequest, d)) :
    serve env c (chunk :: rest) = serve env d rest := by
  rw [serve, if_neg (Nat.not_lt.mpr hfits), hread]

theorem serve_of_answers {env : Env} {c d : HttpConn} {chunk : Bytes} {rest : List Bytes}
    {ret : HttpCode} (hfits : c.readBuf.length + chunk.length ≤ kReadBufSize)
    (hread : processRead env (c.receive chunk) = .ok (ret, d)) (hret : ret ≠ .noRequest) :
    serve env c (chunk :: rest) = serve env .reset rest := by
  rw [serve, if_neg (Nat.not_lt.mpr hfits), hread]
  cases ret <;> first | rfl | exact absurd rfl hret

theorem serve_of_throws {env : Env} {c : HttpConn} {chunk : Bytes} {rest : List Bytes}
    {e : Exception} (hfits : c.readBuf.length + chunk.length ≤ kReadBufSize)
    (hread : processRead env (c.receive chunk) = .error e) :
    serve env c (chunk :: rest) = .error e := by
  rw [serve, if_neg (Nat.not_lt.mpr hfits), hread]

theorem serve_throws_iff (env : Env) (chunks : List Bytes) {c : HttpConn} (h : InBuffer c) :
    (∃ e, serve env c chunks = .error e) ↔ ∃ s, Turns env c chunks s ∧ Throws s := by
  induction chunks generalizing c with
  | nil => exact ⟨fun ⟨_, he⟩ => (nomatch he), fun ⟨_, hs, _⟩ => (nomatch hs)⟩
  | cons chunk rest ih =>
    by_cases hfull : kReadBufSize < c.readBuf.length + chunk.length
    · rw [serve_of_full hfull, ih inBuffer_reset]
      constructor
      · rintro ⟨s, hturns, hthrows⟩
        exact ⟨s, .closed hfull hturns, hthrows⟩
      · rintro ⟨s, hturns, hthrows⟩
        cases hturns with
        | closed _ hrest => exact ⟨s, hrest, hthrows⟩
        | call hfits _ => omega
        | more hfits _ _ => omega
        | next hfits _ _ _ => omega
    · have hfits := Nat.le_of_not_lt hfull
      have hcall := processRead_throws_iff env (inBuffer_receive h hfits)
      rcases hread : processRead env (c.receive chunk) with e | ⟨ret, d⟩
      · obtain ⟨s, hpasses, hthrows⟩ := hcall.mp ⟨e, hread⟩
        exact ⟨fun _ => ⟨s, .call hfits hpasses, hthrows⟩, fun _ => ⟨e, serve_of_throws hfits hread⟩⟩
      · have hquiet : ∀ s, (readLoop env).Passes (c.receive chunk, .ok) s → ¬ Throws s := by
          intro s hpasses hthrows
          obtain ⟨e, he⟩ := hcall.mpr ⟨s, hpasses, hthrows⟩
          cases hread.symm.trans he
        by_cases hret : ret = .noRequest
        · subst hret
          rw [serve_of_waits hfits hread, ih (inBuffer_of_waits (inBuffer_receive h hfits) hread)]
          constructor
          · rintro ⟨s, hturns, hthrows⟩
            exact ⟨s, .more hfits hread hturns, hthrows⟩
          · rintro ⟨s, hturns, hthrows⟩
            cases hturns with
            | call _ hpasses => exact absurd hthrows (hquiet s hpasses)
            | more _ hread' hrest =>
              cases hread.symm.trans hread'
              exact ⟨s, hrest, hthrows⟩
            | next _ hread' hret' _ =>
              cases hread.symm.trans hread'
              exact absurd rfl hret'
            | closed hfull' _ => exact absurd hfull' hfull
        · rw [serve_of_answers hfits hread hret, ih inBuffer_reset]
          constructor
          · rintro ⟨s, hturns, hthrows⟩
            exact ⟨s, .next hfits hread hret hturns, hthrows⟩
          · rintro ⟨s, hturns, hthrows⟩
            cases hturns with
            | call _ hpasses => exact absurd hthrows (hquiet s hpasses)
            | more _ hread' _ =>
              cases hread.symm.trans hread'
              exact absurd rfl hret
            | next _ _ _ hrest => exact ⟨s, hrest, hthrows⟩
            | closed hfull' _ => exact absurd hfull' hfull

/-- The connection survives exactly the streams on which no turn meets a
content length that does not convert, or a body that ends beyond `long`. -/
theorem serve_returns_iff (env : Env) (chunks : List Bytes) :
    (∃ d, serve env .reset chunks = .ok d) ↔ ∀ s, Turns env .reset chunks s → ¬ Throws s := by
  have hthrows := serve_throws_iff env chunks inBuffer_reset
  constructor
  · rintro ⟨d, hd⟩ s hturns hs
    obtain ⟨e, he⟩ := hthrows.mpr ⟨s, hturns, hs⟩
    cases hd.symm.trans he
  · intro hquiet
    cases hserve : serve env .reset chunks with
    | ok d => exact ⟨d, rfl⟩
    | error e =>
      obtain ⟨s, hturns, hs⟩ := hthrows.mp ⟨e, hserve⟩
      exact absurd hs (hquiet s hturns)

/-- `Content-Length: x` is not a number. -/
theorem content_length_x_throws :
    ¬ ∀ (env : Env) (chunks : List Bytes), ∃ d, serve env .reset chunks = .ok d := by
  intro h
  obtain ⟨d, hd⟩ := h ⟨ascii "root", none, fun _ => none, fun _ => false, fun _ => false⟩
    [ascii "POST /api/orders HTTP/1.1\r\nContent-Length: x\r\n\r\n"]
  revert hd
  have hthrows : serve ⟨ascii "root", none, fun _ => none, fun _ => false, fun _ => false⟩ .reset
      [ascii "POST /api/orders HTTP/1.1\r\nContent-Length: x\r\n\r\n"] =
      .error .invalidArgument := by
    decide
  rw [hthrows]
  exact fun hd => nomatch hd

end Bookstore.ParserExceptions
