import Bookstore.ResponseWriter

/-!
The one range of an API response. After a short write the code takes the rest
from `write_buf_`, not from `api_response_`, and when half of the response is
out it offers nothing any more.
-/
namespace Bookstore.ApiDelivery

open HttpTypes GatherWrites ResponseWriter MachineInt
open ResponseWriter.HttpConn

/-- The connection when `do_request` has stored an answer. -/
def answering (linger : Bool) (response : Bytes) : HttpConn :=
  { HttpConn.reset with linger := linger, apiResponse := response }

/-- The connection before the first byte of the answer is sent. -/
def sending (linger : Bool) (response : Bytes) : HttpConn :=
  { answering linger response with
    iv0 := ⟨.apiResponse, 0, response.length⟩
    ivCount := 1
    bytesToSend := Int32.ofInt response.length }

/-- The memory while the answer is sent; `write_buf_` is still zero. -/
def apiMemory (linger : Bool) (response : Bytes) (beyond : Memory Region) : Memory Region :=
  (sending linger response).memory beyond

/-- What the code needs of a write of `n` bytes after the first `sent` ones:
`write_buf_` holds the bytes it takes from there, the loop ends with the last
byte, and not before the cursor passes what is left. -/
def WriteSound (linger : Bool) (response : Bytes) (beyond : Memory Region) (sent n : ℕ) : Prop :=
  (0 < sent → Segment.bytes (apiMemory linger response beyond) ⟨.writeBuf, toCInt sent, n⟩ =
    (response.drop sent).take n) ∧
  if 0 < toCInt (response.length - (sent + n : ℕ)) then
    toCInt (sent + n : ℕ) < toCInt (response.length - sent)
  else sent + n = response.length

section Positions

variable {linger : Bool} {response : Bytes} {beyond : Memory Region}

theorem respond_answering_empty (h : toCInt response.length ≤ 0) :
    ∃ t, (answering linger response).respond .apiResponse = .returned t .failed := by
  have hpos : ¬ (0 : Int32) < Int32.ofInt response.length := by
    rw [Int32.lt_iff_toInt_lt, Int32.toInt_zero]
    exact Int.not_lt.mpr h
  refine ⟨sending linger response, ?_⟩
  simp only [respond, processWrite, answering, sending, hpos, decide_false, Bool.false_eq_true,
    if_false]

theorem respond_answering (h : 0 < toCInt response.length) :
    (answering linger response).respond .apiResponse = (sending linger response).enter := by
  have hpos : (0 : Int32) < Int32.ofInt response.length := by
    rw [Int32.lt_iff_toInt_lt, Int32.toInt_zero]
    exact h
  simp only [respond, processWrite, answering, sending, hpos, decide_true, if_true]

/-- The range after the first `n` bytes of the answer. -/
structure Position (response : Bytes) (n : ℕ) (c : HttpConn) : Prop where
  counted : Counted response.length n c
  count : c.ivCount = 1
  le : n ≤ response.length
  range : c.iv0 =
    if n = 0 then ⟨.apiResponse, 0, response.length⟩
    else ⟨.writeBuf, toCInt n, response.length - n⟩

theorem position_sending : Position response 0 (sending linger response) where
  counted := ⟨rfl, by simp only [sending, Nat.cast_zero, Int.sub_zero]⟩
  count := rfl
  le := Nat.zero_le _
  range := rfl

theorem Position.length_range {n : ℕ} {c : HttpConn} (h : Position response n c) :
    c.iv0.length = response.length - n := by
  rw [h.range]
  split
  · rename_i hzero
    rw [hzero, Nat.sub_zero]
  · rfl

theorem Position.offered {n : ℕ} {c : HttpConn} (h : Position response n c) :
    GatherWrites.offered c.segments = response.length - n := by
  have hsum : GatherWrites.offered c.segments = c.iv0.length := by
    simp [GatherWrites.offered, segments, h.count]
  rw [hsum, h.length_range]

theorem Position.offered_pos {n : ℕ} {c : HttpConn} (h : Position response n c)
    (hleft : toCInt (response.length - n) ≠ 0) : 0 < GatherWrites.offered c.segments := by
  rw [h.offered]
  rcases Nat.lt_or_eq_of_le h.le with hlt | rfl
  · omega
  · exact absurd (by rw [Int.sub_self]; rfl) hleft

/-- The bytes a write of `m` takes. -/
theorem Position.taken {n m : ℕ} {c : HttpConn} (h : Position response n c)
    (hm : m ≤ response.length - n) :
    (gather (apiMemory linger response beyond) c.segments).take m =
      if n = 0 then response.take m
      else Segment.bytes (apiMemory linger response beyond) ⟨.writeBuf, toCInt n, m⟩ := by
  have hgather : gather (apiMemory linger response beyond) c.segments =
      c.iv0.bytes (apiMemory linger response beyond) := by
    simp [gather, segments, h.count]
  rw [hgather, h.range]
  split
  · have hresponse : ∀ (i : ℕ) (hi : i < response.length),
        apiMemory linger response beyond .apiResponse i = response[i] := by
      intro i hi
      simp [apiMemory, HttpConn.memory, sending, answering, hi]
    have hwhole : Segment.bytes (apiMemory linger response beyond)
        ⟨.apiResponse, (0 : ℕ), response.length⟩ = response :=
      Segment.bytes_eq_drop hresponse (Nat.zero_add _)
    exact congrArg _ hwhole
  · exact Segment.take_bytes _ _ _ hm

/-- A short write that does not reach what was left moves the cursor on. -/
theorem Position.adjust {n m : ℕ} {c : HttpConn} (h : Position response n c)
    (hm : m ≤ response.length - n) (hpos : 0 < m)
    (hmoves : toCInt (n + m : ℕ) < toCInt (response.length - n)) :
    Position response (n + m) ((c.took m).adjust m) := by
  have hle := h.le
  have hcounted := h.counted.took m
  have hsent : (c.took m).bytesSent.toInt = toCInt (n + m : ℕ) := by rw [hcounted.sent, toCInt]
  have hlength : (c.took m).iv0.length = response.length - n := h.length_range
  have hlt : (c.took m).bytesSent.toInt < toCInt (c.took m).iv0.length := by
    rw [hsent, hlength, Nat.cast_sub hle]
    exact hmoves
  refine ⟨hcounted.adjust m, ?_, by omega, ?_⟩ <;> rw [adjust_of_lt m hlt]
  · exact h.count
  · rw [if_neg (by omega)]
    dsimp only
    rw [hsent, hlength, subSize, if_pos hm, Nat.sub_sub]

/-- Nothing is offered, although bytes are left. -/
structure Stuck (c : HttpConn) : Prop where
  count : c.ivCount = 1
  empty : c.iv0.length = 0
  left : 0 < c.bytesToSend.toInt

theorem Position.stuck {n m : ℕ} {c : HttpConn} (h : Position response n c)
    (hmore : 0 < toCInt (response.length - (n + m : ℕ)))
    (hstays : toCInt (response.length - n) ≤ toCInt (n + m : ℕ)) :
    Stuck ((c.took m).adjust m) := by
  have hcounted := h.counted.took m
  have hsent : (c.took m).bytesSent.toInt = toCInt (n + m : ℕ) := by rw [hcounted.sent, toCInt]
  have hlength : (c.took m).iv0.length = response.length - n := h.length_range
  have hle : toCInt (c.took m).iv0.length ≤ (c.took m).bytesSent.toInt := by
    rw [hsent, hlength, Nat.cast_sub h.le]
    exact hstays
  rw [adjust_of_le m hle]
  refine ⟨h.count, rfl, ?_⟩
  dsimp only
  rw [hcounted.left]
  exact hmore

theorem Stuck.offered {c : HttpConn} (h : Stuck c) : GatherWrites.offered c.segments = 0 := by
  simp [GatherWrites.offered, segments, h.count, h.empty]

theorem Stuck.next {c : HttpConn} (h : Stuck c) :
    ∃ t, c.next (.accepted 0) = .looping t ∧ Stuck t := by
  have hleft : (c.took 0).bytesToSend = c.bytesToSend := by simp [HttpConn.took]
  have hpos : 0 < (c.took 0).bytesToSend.toInt := by
    rw [hleft]
    exact h.left
  refine ⟨(c.took 0).adjust 0, ?_, ?_⟩
  · have hmore : ¬ (c.took 0).bytesToSend ≤ 0 := by
      rw [hleft, Int32.le_iff_toInt_le, Int32.toInt_zero]
      exact Int.not_le.mpr h.left
    simp only [HttpConn.next, if_neg hmore]
  · have hempty : (c.took 0).iv0.length = 0 := h.empty
    unfold HttpConn.adjust
    split
    · exact ⟨h.count, rfl, hpos⟩
    · exact ⟨h.count, by simp [subSize, hempty], hpos⟩

end Positions

section Delivery

variable {linger : Bool} {response : Bytes} {beyond : Memory Region} {results : ℕ → Result}

/-- A partial write at a position: what it takes and where it leads. -/
theorem step_at_position {k n : ℕ} {c : HttpConn}
    (hobeys : write.Obeys (apiMemory linger response beyond) (sending linger response).enter results)
    (hk : Unfinished response.length results k)
    (hhead : write.head (write.after (apiMemory linger response beyond)
      (sending linger response).enter results k).phase = some c)
    (hc : Position response (sent results k) c) (hr : results k = .accepted n) :
    (0 < n ∧ n ≤ response.length - sent results k) ∧
      write.after (apiMemory linger response beyond) (sending linger response).enter results (k + 1) =
        ⟨c.next (.accepted n),
          (write.after (apiMemory linger response beyond)
            (sending linger response).enter results k).accepted ++
          if sent results k = 0 then response.take n
          else Segment.bytes (apiMemory linger response beyond)
            ⟨.writeBuf, toCInt (sent results k), n⟩⟩ := by
  obtain ⟨hpos, hle⟩ := count_pos hobeys hhead (hc.offered_pos hk.left_ne_zero) hr
  rw [hc.offered] at hle
  refine ⟨⟨hpos, hle⟩, ?_⟩
  rw [Sender.after_succ_of_head hhead, hr]
  change Run.mk (c.next (.accepted n)) (_ ++ (gather _ c.segments).take n) = _
  rw [hc.taken hle]

/-- Every head of the loop is at a position, if no short write gets stuck. -/
theorem position_of_unfinished
    (hobeys : write.Obeys (apiMemory linger response beyond) (sending linger response).enter results)
    (hmoves : ∀ k c n, Unfinished response.length results (k + 1) →
      write.head (write.after (apiMemory linger response beyond)
        (sending linger response).enter results k).phase = some c →
      Position response (sent results k) c → results k = .accepted n →
      toCInt (sent results k + n : ℕ) < toCInt (response.length - sent results k))
    {k : ℕ} (hk : Unfinished response.length results k) :
    ∃ c, write.head (write.after (apiMemory linger response beyond)
        (sending linger response).enter results k).phase = some c ∧
      Position response (sent results k) c := by
  refine head_of_unfinished hobeys (fun n c h => h.counted) position_sending
    (fun n c h hleft => h.offered_pos hleft) (fun k c n hk hhead hc hr => ?_) hk
  obtain ⟨⟨hpos, hle⟩, -⟩ := step_at_position hobeys (hk.mono (Nat.le_succ k)) hhead hc hr
  exact hc.adjust hle hpos (hmoves k c n hk hhead hc hr)

/-- A run that returns never gets stuck. -/
theorem moves_of_returns {k n : ℕ} {c : HttpConn}
    (hobeys : write.Obeys (apiMemory linger response beyond) (sending linger response).enter results)
    (hreturns : ¬ write.Spins (apiMemory linger response beyond)
      (sending linger response).enter results)
    (hk : Unfinished response.length results k)
    (hhead : write.head (write.after (apiMemory linger response beyond)
      (sending linger response).enter results k).phase = some c)
    (hc : Position response (sent results k) c) (hr : results k = .accepted n)
    (hmore : 0 < toCInt (response.length - (sent results k + n : ℕ))) :
    toCInt (sent results k + n : ℕ) < toCInt (response.length - sent results k) := by
  by_contra hstays
  obtain ⟨-, hafter⟩ := step_at_position hobeys hk hhead hc hr
  rcases hc.counted.next_accepted n with ⟨hdone, -⟩ | ⟨-, hnext⟩
  · omega
  · have hphase : (write.after (apiMemory linger response beyond)
        (sending linger response).enter results (k + 1)).phase = .looping ((c.took n).adjust n) := by
      rw [hafter]
      exact hnext
    exact hreturns (Sender.spins_of_nothing_offered hobeys (fun s (hs : Stuck s) => hs.offered)
      (fun s hs => hs.next) hphase (hc.stuck hmore (Int.not_lt.mp hstays)))

theorem sent_succ {k n : ℕ} (hr : results k = .accepted n) :
    sent results (k + 1) = sent results k + n := by rw [sent, hr, Result.count]

theorem moves_of_delivers
    (hobeys : write.Obeys (apiMemory linger response beyond) (sending linger response).enter results)
    (hdelivers : write.Delivers (apiMemory linger response beyond) response
      (sending linger response).enter results)
    (k : ℕ) (c : HttpConn) (n : ℕ) (hk : Unfinished response.length results (k + 1))
    (hhead : write.head (write.after (apiMemory linger response beyond)
      (sending linger response).enter results k).phase = some c)
    (hc : Position response (sent results k) c) (hr : results k = .accepted n) :
    toCInt (sent results k + n : ℕ) < toCInt (response.length - sent results k) := by
  obtain ⟨⟨hpos, -⟩, -⟩ := step_at_position hobeys (hk.mono (Nat.le_succ k)) hhead hc hr
  have hmore := hk.2 (k + 1) (Nat.le_refl _) (by rw [sent_succ hr]; omega)
  rw [sent_succ hr] at hmore
  exact moves_of_returns hobeys hdelivers.returns (hk.mono (Nat.le_succ k)) hhead hc hr hmore

/-- Delivery needs every accepting write to be sound. -/
theorem sound_of_delivers
    (hobeys : write.Obeys (apiMemory linger response beyond) (sending linger response).enter results)
    (hdelivers : write.Delivers (apiMemory linger response beyond) response
      (sending linger response).enter results)
    {k n : ℕ} (hr : results k = .accepted n) (hk : Unfinished response.length results k) :
    WriteSound linger response beyond (sent results k) n := by
  have hheads : ∀ j, j ≤ k → ∃ c, write.head (write.after (apiMemory linger response beyond)
      (sending linger response).enter results j).phase = some c ∧
        Position response (sent results j) c :=
    fun j hj => position_of_unfinished hobeys (moves_of_delivers hobeys hdelivers) (hk.mono hj)
  obtain ⟨c, hhead, hc⟩ := hheads k (Nat.le_refl k)
  obtain ⟨⟨hpos, hle⟩, hafter⟩ := step_at_position hobeys hk hhead hc hr
  have hlength := Sender.length_accepted hobeys fun j (hj : j < k) =>
    (hheads j (Nat.le_of_lt hj)).imp fun _ h => h.1
  have hlength' := Sender.length_accepted hobeys fun j (hj : j < k + 1) =>
    (hheads j (Nat.le_of_lt_succ hj)).imp fun _ h => h.1
  have hbefore := hdelivers.inOrder k
  have hnow := hdelivers.inOrder (k + 1)
  rw [hafter] at hnow hlength'
  refine ⟨fun hsent => ?_, ?_⟩
  · rw [if_neg (by omega)] at hnow
    rw [List.prefix_iff_eq_take] at hbefore hnow
    rw [List.length_append, hlength, Segment.length_bytes] at hnow
    rw [hlength] at hbefore
    rw [List.take_add, ← hbefore] at hnow
    exact List.append_cancel_left hnow
  · split
    · rename_i hmore
      exact moves_of_returns hobeys hdelivers.returns hk hhead hc hr hmore
    · rename_i hdone
      rcases hc.counted.next_accepted n with ⟨-, t, hback⟩ | ⟨hmore, -⟩
      · have hall := hdelivers.complete (k + 1) t (by rw [hafter]; exact hback)
        rw [hafter] at hall
        rw [← sent_succ hr, ← hlength', hall]
      · exact absurd hmore hdone

/-- While the loop goes on the accepted bytes are the first ones; when it is
over they are all of them. -/
def Shape (response : Bytes) (results : ℕ → Result) (k : ℕ) (run : Run HttpConn) : Prop :=
  (Unfinished response.length results k ∧ run.accepted = response.take (sent results k)) ∨
    ∃ t, run.phase = .returned t .completed ∧ run.accepted = response

theorem moves_of_sound
    (hsound : ∀ k n, results k = .accepted n → Unfinished response.length results k →
      WriteSound linger response beyond (sent results k) n)
    (hobeys : write.Obeys (apiMemory linger response beyond) (sending linger response).enter results)
    (k : ℕ) (c : HttpConn) (n : ℕ) (hk : Unfinished response.length results (k + 1))
    (hhead : write.head (write.after (apiMemory linger response beyond)
      (sending linger response).enter results k).phase = some c)
    (hc : Position response (sent results k) c) (hr : results k = .accepted n) :
    toCInt (sent results k + n : ℕ) < toCInt (response.length - sent results k) := by
  have hprev := hk.mono (Nat.le_succ k)
  obtain ⟨⟨hpos, -⟩, -⟩ := step_at_position hobeys hprev hhead hc hr
  have hmore := hk.2 (k + 1) (Nat.le_refl _) (by rw [sent_succ hr]; omega)
  rw [sent_succ hr] at hmore
  have hstep := (hsound k n hr hprev).2
  rwa [if_pos hmore] at hstep

theorem shape_succ
    (hsound : ∀ k n, results k = .accepted n → Unfinished response.length results k →
      WriteSound linger response beyond (sent results k) n)
    (hobeys : write.Obeys (apiMemory linger response beyond) (sending linger response).enter results)
    {k : ℕ} (hk : Unfinished response.length results k)
    (haccepted : (write.after (apiMemory linger response beyond)
      (sending linger response).enter results k).accepted = response.take (sent results k)) :
    Shape response results (k + 1) (write.after (apiMemory linger response beyond)
      (sending linger response).enter results (k + 1)) := by
  obtain ⟨c, hhead, hc⟩ := position_of_unfinished hobeys (moves_of_sound hsound hobeys) hk
  rcases hr : results k with n | _ | _
  · obtain ⟨-, hafter⟩ := step_at_position hobeys hk hhead hc hr
    have hwrite := hsound k n hr hk
    have htaken : (response.take (sent results k) ++
        if sent results k = 0 then response.take n
        else Segment.bytes (apiMemory linger response beyond)
          ⟨.writeBuf, toCInt (sent results k), n⟩) = response.take (sent results k + n) := by
      rw [List.take_add]
      split
      · rename_i hzero
        rw [hzero, List.drop_zero]
      · rename_i hpos
        rw [hwrite.1 (Nat.pos_of_ne_zero hpos)]
    have hmoves := hwrite.2
    rcases hc.counted.next_accepted n with ⟨hdone, t, hback⟩ | ⟨hmore, -⟩
    · rw [if_neg (Int.not_lt.mpr hdone)] at hmoves
      refine .inr ⟨t, by rw [hafter]; exact hback, ?_⟩
      rw [hafter, haccepted, htaken, hmoves, List.take_length]
    · refine .inl ⟨hk.succ fun _ => by rw [sent_succ hr]; exact hmore, ?_⟩
      rw [hafter, haccepted, htaken, sent_succ hr]
  · have hsent : sent results (k + 1) = sent results k := by
      simp only [sent, hr, Result.count, Nat.add_zero]
    refine .inl ⟨hk.succ fun hpos => ?_, ?_⟩
    · rw [hsent] at hpos ⊢
      exact hk.2 k (Nat.le_refl k) hpos
    · have hcount : Result.again.count = 0 := rfl
      rw [Sender.after_succ_of_head hhead, hr, hsent, haccepted, hcount, List.take_zero,
        List.append_nil]
  · have hlegal := hobeys k c hhead
    rw [hr] at hlegal
    exact hlegal.elim

/-- Sound writes deliver the answer. -/
theorem delivers_of_sound (hsize : 0 < toCInt response.length)
    (hsound : ∀ k n, results k = .accepted n → Unfinished response.length results k →
      WriteSound linger response beyond (sent results k) n)
    (hobeys : write.Obeys (apiMemory linger response beyond) (sending linger response).enter results) :
    write.Delivers (apiMemory linger response beyond) response (sending linger response).enter
      results := by
  have hshape : ∀ k, Shape response results k (write.after (apiMemory linger response beyond)
      (sending linger response).enter results k) := by
    intro k
    induction k with
    | zero =>
      refine .inl ⟨⟨hsize.ne', fun j hj hpos => ?_⟩, rfl⟩
      rw [Nat.le_zero.mp hj] at hpos
      exact absurd hpos (Nat.lt_irrefl 0)
    | succ k ih =>
      rcases ih with ⟨hk, haccepted⟩ | ⟨t, hphase, hall⟩
      · exact shape_succ hsound hobeys hk haccepted
      · refine .inr ⟨t, ?_⟩
        rw [Sender.after_returned hphase (Nat.le_succ k)]
        exact ⟨hphase, hall⟩
  have hhead : ∀ k c, write.head (write.after (apiMemory linger response beyond)
      (sending linger response).enter results k).phase = some c →
      Unfinished response.length results k ∧ Position response (sent results k) c := by
    intro k c hc
    rcases hshape k with ⟨hk, -⟩ | ⟨t, hphase, -⟩
    · obtain ⟨d, hd, hposition⟩ :=
        position_of_unfinished hobeys (moves_of_sound hsound hobeys) hk
      cases Option.some.inj (hc.symm.trans hd)
      exact ⟨hk, hposition⟩
    · rw [hphase] at hc
      cases hc
  refine ⟨fun k => ?_, fun k t hphase => ?_, ?_⟩
  · rcases hshape k with ⟨-, haccepted⟩ | ⟨t, -, hall⟩
    · rw [haccepted]
      exact List.take_prefix _ _
    · simp only [hall, List.prefix_rfl]
  · rcases hshape k with ⟨hk, -⟩ | ⟨t, -, hall⟩
    · obtain ⟨c, hc, -⟩ := position_of_unfinished hobeys (moves_of_sound hsound hobeys) hk
      rw [hphase] at hc
      cases hc
    · exact hall
  · exact Sender.not_spins_of_offering hobeys (fun s t h => nomatch h)
      (fun k c hc => (hhead k c hc).2.le)
      fun k c hc => (hhead k c hc).2.offered_pos (hhead k c hc).1.left_ne_zero

end Delivery

/-- Exactly when an answer is delivered, in order, completely, and without
spinning. -/
theorem delivers_iff_sound (linger : Bool) (response : Bytes) (beyond : Memory Region)
    (results : ℕ → Result)
    (hobeys : write.Obeys (apiMemory linger response beyond)
      ((answering linger response).respond .apiResponse) results) :
    write.Delivers (apiMemory linger response beyond) response
      ((answering linger response).respond .apiResponse) results ↔
    (0 < toCInt response.length → ∀ k n, results k = .accepted n →
      Unfinished response.length results k →
      WriteSound linger response beyond (sent results k) n) := by
  rcases Int.lt_or_le 0 (toCInt response.length) with hsize | hsize
  · rw [respond_answering hsize] at hobeys ⊢
    exact ⟨fun h _ k n hr hk => sound_of_delivers hobeys h hr hk,
      fun h => delivers_of_sound hsize (h hsize) hobeys⟩
  · refine ⟨fun _ hpos => absurd hpos (Int.not_lt.mpr hsize), fun _ => ?_⟩
    obtain ⟨t, ht⟩ := @respond_answering_empty linger response hsize
    rw [ht]
    have hstays : ∀ k, write.after (apiMemory linger response beyond) (.returned t .failed) results
        k = ⟨.returned t .failed, []⟩ := fun k =>
      @Sender.after_returned _ _ write _ (.returned t .failed) results 0 t .failed rfl k
        (Nat.zero_le k)
    refine ⟨fun k => ?_, fun k s h => ?_, ?_⟩
    · rw [hstays]
      exact List.nil_prefix
    · rw [hstays] at h
      cases h
    · rintro ⟨N, hloop⟩
      obtain ⟨s, hs⟩ := hloop N (Nat.le_refl N)
      rw [hstays] at hs
      cases hs

/-- The answer to a request for an API path that has no route. -/
def routeNotFound : Bytes := HttpResponse.routeNotFound.toHttpString false

/-- The same answer with a body that ends in two NULs, like the bytes of `write_buf_`. -/
def padded : Bytes :=
  (HttpResponse.json 404 (HttpResponse.routeNotFound.body ++ [0, 0])).toHttpString false

/-- The kernel leaves the two NULs for the second write. -/
def shortBeforePadding : ℕ → Result
  | 0 => .accepted 153
  | _ => .accepted 2

theorem delivers_padded :
    write.Delivers (apiMemory false padded fun _ _ => 0) padded
      ((answering false padded).respond .apiResponse) shortBeforePadding := by
  refine (delivers_iff_sound false padded (fun _ _ => 0) shortBeforePadding ?_).mpr ?_
  · exact @Sender.obeys_of_returned _ _ _ _ _ _ 2 (by decide +kernel) (by decide +kernel)
  · intro _ k n hr hk
    match k with
    | 0 =>
      cases hr
      exact ⟨fun h => absurd h (Nat.lt_irrefl 0), by decide +kernel⟩
    | 1 =>
      cases hr
      exact ⟨fun _ => by decide +kernel, by decide +kernel⟩
    | k + 2 => exact absurd (hk.2 2 (by omega) (by decide)) (by decide +kernel)

/-- The kernel takes ten bytes first, then the rest. -/
def shortFirstWrite : ℕ → Result
  | 0 => .accepted 10
  | _ => .accepted 143

theorem short_write_sends_other_bytes :
    ¬ ∀ (linger : Bool) (response : Bytes) (beyond : Memory Region) (results : ℕ → Result),
      write.Obeys (apiMemory linger response beyond)
        ((answering linger response).respond .apiResponse) results →
      write.Delivers (apiMemory linger response beyond) response
        ((answering linger response).respond .apiResponse) results := by
  intro h
  have hdelivers := h false routeNotFound (fun _ _ => 0) shortFirstWrite
    (@Sender.obeys_of_returned _ _ _ _ _ _ 2 (by decide +kernel) (by decide +kernel))
  exact absurd (hdelivers.inOrder 2) (by decide +kernel)

end Bookstore.ApiDelivery
