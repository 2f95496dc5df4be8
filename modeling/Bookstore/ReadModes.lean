import Bookstore.RequestParser

/-!
`read_once` in its two trigger modes, on a connection that stays open. The edge
triggered loop goes on until `recv` has nothing left. When it is asked for no
bytes while some are left, `recv` returns 0, which the loop takes for the end of
the connection.
-/
namespace Bookstore.ReadModes

open HttpTypes RequestParser

/-! ## The socket -/

/-- The bytes that wait on a connection, and how many of them each call of `recv`
hands over at most. -/
structure Socket where
  waiting : Bytes
  pieces : ℕ → ℕ

/-- What `recv` returns: bytes, or -1 with `EAGAIN`. -/
inductive Received
  | bytes (data : Bytes)
  | again

/-- An empty socket answers `EAGAIN`, however many bytes are asked for. -/
def Socket.recv (s : Socket) (asked : ℕ) : Received × Socket :=
  if s.waiting = [] then (.again, s)
  else if asked = 0 then (.bytes [], s)
  else
    let n := min asked (max 1 (s.pieces 0))
    (.bytes (s.waiting.take n), ⟨s.waiting.drop n, fun i => s.pieces (i + 1)⟩)

theorem recv_nothing {s : Socket} (hnone : s.waiting = []) (asked : ℕ) :
    s.recv asked = (.again, s) := if_pos hnone

theorem recv_zero {s : Socket} (hsome : s.waiting ≠ []) : s.recv 0 = (.bytes [], s) := by
  unfold Socket.recv
  rw [if_neg hsome, if_pos rfl]

theorem recv_some {s : Socket} {asked : ℕ} (hasked : 0 < asked) (hsome : s.waiting ≠ []) :
    ∃ data s', s.recv asked = (.bytes data, s') ∧ data ≠ [] ∧ data.length ≤ asked ∧
      s.waiting = data ++ s'.waiting := by
  have hpos := List.length_pos_iff.mpr hsome
  unfold Socket.recv
  rw [if_neg hsome, if_neg (by omega)]
  refine ⟨_, _, rfl, ?_, ?_, (List.take_append_drop ..).symm⟩
  · rw [← List.length_pos_iff, List.length_take]
    omega
  · rw [List.length_take]
    omega

/-- Whatever is received has been waiting. -/
theorem recv_shorter {s s' : Socket} {asked : ℕ} {data : Bytes}
    (h : s.recv asked = (.bytes data, s')) (hdata : data ≠ []) :
    s'.waiting.length < s.waiting.length := by
  by_cases hnone : s.waiting = []
  · rw [recv_nothing hnone] at h
    cases h
  · by_cases hasked : asked = 0
    · rw [hasked, recv_zero hnone] at h
      cases h
      exact absurd rfl hdata
    · obtain ⟨data', t, hrecv, hne, -, hsplit⟩ := recv_some (Nat.pos_of_ne_zero hasked) hnone
      cases hrecv.symm.trans h
      have hpos := List.length_pos_iff.mpr hne
      rw [hsplit, List.length_append]
      omega

/-! ## `read_once` -/

/-- The rest of `read_buf_`. -/
def room (c : HttpConn) : ℕ := kReadBufSize - c.readBuf.length

/-- One turn of the edge triggered loop. -/
def readTurn : HttpConn × Socket → (HttpConn × Socket) ⊕ (Bool × HttpConn × Socket)
  | (c, s) =>
    match s.recv (room c) with
    | (.again, s) => .inr (true, c, s)
    | (.bytes data, s) => if data = [] then .inr (false, c, s) else .inl (c.receive data, s)

theorem readTurn_decreases {s t : HttpConn × Socket} (h : readTurn s = .inl t) :
    t.2.waiting.length < s.2.waiting.length := by
  obtain ⟨c, s⟩ := s
  unfold readTurn at h
  dsimp only at h
  split at h
  · cases h
  · rename_i data s' hrecv
    split at h
    · cases h
    · rename_i hdata
      cases h
      exact recv_shorter hrecv hdata

def readLoop : Loops.Loop (HttpConn × Socket) (Bool × HttpConn × Socket) where
  body := readTurn
  measure s := s.2.waiting.length
  decreases := readTurn_decreases

def readOnce (trigMode : ℤ) (c : HttpConn) (s : Socket) : Bool × HttpConn × Socket :=
  if kReadBufSize ≤ c.readBuf.length then (false, c, s)
  else if trigMode = 0 then
    match s.recv (room c) with
    | (.again, s) => (false, c, s)
    | (.bytes data, s) => if data = [] then (false, c, s) else (true, c.receive data, s)
  else readLoop.run (c, s)

/-! ## Notifications -/

/-- A level triggered descriptor is reported while bytes wait; a call that fails
ends the connection. -/
def notifyTurn : HttpConn × Socket → (HttpConn × Socket) ⊕ (Bool × HttpConn × Socket)
  | (c, s) =>
    if s.waiting = [] then .inr (true, c, s)
    else
      match readOnce 0 c s with
      | (true, next) => .inl next
      | (false, last) => .inr (false, last)

theorem readOnce_shorter {c d : HttpConn} {s t : Socket} (h : readOnce 0 c s = (true, d, t)) :
    t.waiting.length < s.waiting.length := by
  unfold readOnce at h
  split at h
  · cases h
  · rw [if_pos rfl] at h
    split at h
    · cases h
    · rename_i data s' hrecv
      split at h
      · cases h
      · rename_i hdata
        cases h
        exact recv_shorter hrecv hdata

theorem notifyTurn_decreases {s t : HttpConn × Socket} (h : notifyTurn s = .inl t) :
    t.2.waiting.length < s.2.waiting.length := by
  obtain ⟨c, s⟩ := s
  unfold notifyTurn at h
  dsimp only at h
  split at h
  · cases h
  · split at h
    · rename_i hread
      cases h
      exact readOnce_shorter hread
    · cases h

/-- The calls of `read_once`, one for each notification. -/
def notifications : Loops.Loop (HttpConn × Socket) (Bool × HttpConn × Socket) where
  body := notifyTurn
  measure s := s.2.waiting.length
  decreases := notifyTurn_decreases

/-- Both modes take all that waits, and report no failure. -/
structure ReadsAlike (c : HttpConn) (s : Socket) : Prop where
  edge : ∃ t, readOnce 1 c s = (true, c.receive s.waiting, t)
  level : ∃ t, notifications.run (c, s) = (true, c.receive s.waiting, t)

/-! ## Agreement -/

theorem room_receive (c : HttpConn) (data : Bytes) :
    room (c.receive data) = room c - data.length := by
  unfold room
  rw [show (c.receive data).readBuf = c.readBuf ++ data from rfl, List.length_append]
  omega

theorem receive_waiting {s t : Socket} {data : Bytes} (h : s.waiting = data ++ t.waiting)
    (c : HttpConn) : (c.receive data).receive t.waiting = c.receive s.waiting := by
  rw [h]
  simp only [HttpConn.receive, List.append_assoc]

theorem receive_nothing (c : HttpConn) : c.receive [] = c := by
  simp only [HttpConn.receive, List.append_nil]

/-- The loop takes everything exactly when it fits. -/
theorem readLoop_spec (c : HttpConn) (s : Socket) :
    (s.waiting.length ≤ room c →
      ∃ t, readLoop.run (c, s) = (true, c.receive s.waiting, t)) ∧
    (room c < s.waiting.length → (readLoop.run (c, s)).1 = false) := by
  induction hn : s.waiting.length using Nat.strongRecOn generalizing c s with
  | _ n ih =>
    subst hn
    by_cases hnone : s.waiting = []
    · have hbody : readLoop.body (c, s) = .inr (true, c, s) := by
        show readTurn (c, s) = _
        unfold readTurn
        simp only [recv_nothing hnone]
      rw [Loops.Loop.run_of_leaves hbody, hnone, receive_nothing]
      refine ⟨fun _ => ⟨s, rfl⟩, fun hlt => ?_⟩
      rw [List.length_nil] at hlt
      omega
    · have hwaits := List.length_pos_iff.mpr hnone
      by_cases hroom : room c = 0
      · have hbody : readLoop.body (c, s) = .inr (false, c, s) := by
          show readTurn (c, s) = _
          unfold readTurn
          simp only [hroom, recv_zero hnone, if_true]
        rw [Loops.Loop.run_of_leaves hbody]
        exact ⟨fun hle => by omega, fun _ => rfl⟩
      · obtain ⟨data, t, hrecv, hdata, hasked, hsplit⟩ :=
          recv_some (Nat.pos_of_ne_zero hroom) hnone
        have hbody : readLoop.body (c, s) = .inl (c.receive data, t) := by
          show readTurn (c, s) = _
          unfold readTurn
          simp only [hrecv, if_neg hdata]
        have hlength := congrArg List.length hsplit
        rw [List.length_append] at hlength
        have hpos := List.length_pos_iff.mpr hdata
        obtain ⟨hall, hfull⟩ := ih _ (by omega) (c.receive data) t rfl
        rw [room_receive, receive_waiting hsplit] at hall
        rw [room_receive] at hfull
        rw [Loops.Loop.run_of_goes_on hbody]
        exact ⟨fun hle => hall (by omega), fun hlt => hfull (by omega)⟩

/-- One notification after the other takes everything that fits. -/
theorem notifications_spec (c : HttpConn) (s : Socket) (hfits : s.waiting.length ≤ room c) :
    ∃ t, notifications.run (c, s) = (true, c.receive s.waiting, t) := by
  induction hn : s.waiting.length using Nat.strongRecOn generalizing c s with
  | _ n ih =>
    subst hn
    by_cases hnone : s.waiting = []
    · have hbody : notifications.body (c, s) = .inr (true, c, s) := if_pos hnone
      rw [Loops.Loop.run_of_leaves hbody, hnone, receive_nothing]
      exact ⟨s, rfl⟩
    · have hpos := List.length_pos_iff.mpr hnone
      obtain ⟨data, t, hrecv, hdata, hasked, hsplit⟩ :=
        @recv_some s (room c) (by omega) hnone
      have hread : readOnce 0 c s = (true, c.receive data, t) := by
        unfold readOnce
        rw [if_neg (by unfold room at hfits; omega), if_pos rfl]
        simp only [hrecv, if_neg hdata]
      have hbody : notifications.body (c, s) = .inl (c.receive data, t) := by
        show notifyTurn (c, s) = _
        unfold notifyTurn
        simp only [if_neg hnone, hread]
      have hlength := congrArg List.length hsplit
      rw [List.length_append] at hlength
      have hpos' := List.length_pos_iff.mpr hdata
      have hrest := ih _ (by omega) (c.receive data) t (by rw [room_receive]; omega) rfl
      rw [receive_waiting hsplit] at hrest
      rw [Loops.Loop.run_of_goes_on hbody]
      exact hrest

/-- Whatever the pieces, both modes take exactly what fits into a buffer that is not full
already. -/
theorem modes_agree_iff (c : HttpConn) (s : Socket) :
    ReadsAlike c s ↔ c.readBuf.length < kReadBufSize ∧
      c.readBuf.length + s.waiting.length ≤ kReadBufSize := by
  obtain ⟨hall, hfull⟩ := readLoop_spec c s
  constructor
  · intro h
    obtain ⟨t, hedge⟩ := h.edge
    unfold readOnce at hedge
    split at hedge
    · cases hedge
    · rename_i hopen
      refine ⟨Nat.lt_of_not_le hopen, ?_⟩
      rw [if_neg (by decide)] at hedge
      by_contra hmore
      have hfalse := hfull (by unfold room; omega)
      rw [hedge] at hfalse
      cases hfalse
  · intro ⟨hopen, hfits⟩
    have hroom : s.waiting.length ≤ room c := by
      unfold room
      omega
    refine ⟨?_, notifications_spec c s hroom⟩
    unfold readOnce
    rw [if_neg (by omega), if_neg (by decide)]
    exact hall hroom

end Bookstore.ReadModes
