import Bookstore.Framing
import Bookstore.Threads
import Bookstore.WireRequests
import Mathlib.Data.Finset.Card
import Mathlib.Logic.Function.Basic

/-!
Keep-alive connections of many clients on one server. A connection is read until a
request is complete, the handler runs one atomic step at a time, and the answer is
sent before anything else is read. What the clients see is what the handlers alone
would answer, run as concurrent programs on the store.
-/
namespace Bookstore.Sessions

open ChunkedParsing GatherWrites HttpTypes Interleaving MachineInt ResponseWriter Threads
  WireRequests
open ResponseWriter.HttpConn (write)
open RequestParser (Env)
open RequestParser.HttpConn (processRead)

abbrev Reader := RequestParser.HttpConn
abbrev Writer := ResponseWriter.HttpConn

variable {σ ι : Type}

/-! ## Connections -/

/-- What a connection is doing between two events. -/
inductive Conn (σ : Type) : Type 1
  | reading (c : Reader)
  | serving (c : Reader) (handler : Prog σ (Option HttpResponse))
  | sending (linger : Bool) (mem : Memory Region) (phase : Phase Writer)
  | crashed
  | closed

/-- What happens to a connection: `read_once` and `process` take bytes in, the handler
takes a step, or `writev` finds room for so many bytes. -/
inductive Event
  | received (chunk : Bytes)
  | worked
  | room (n : ℕ)
deriving DecidableEq

/-- What the server does not change while it runs. -/
structure Server (σ : Type) where
  env : Env
  file : Bytes → Option MappedFile
  beyond : Memory Region
  dispatch : HttpRequest → Prog σ (Option HttpResponse)

/-- The text in `api_response_`. -/
def replyText (linger : Bool) (response : Option HttpResponse) : Bytes :=
  (response.getD .routeNotFound).toHttpString linger

namespace Server

variable (server : Server σ)

/-- Where a return from `write` leaves the connection. -/
def settle (linger : Bool) (mem : Memory Region) : Phase Writer → Conn σ
  | .returned _ .completed => if linger then .reading .reset else .closed
  | .returned _ .idle => .reading .reset
  | .returned _ .failed => .closed
  | .looping c => .sending linger mem (.looping c)
  | .waiting c => .sending linger mem (.waiting c)

/-- What reading leaves for `process_write`. -/
def handedOver (ret : HttpCode) (c : Reader) : Writer :=
  { ResponseWriter.HttpConn.reset with
    linger := c.linger
    realFile := c.realFile
    apiResponse := c.apiResponse
    mmapFile := if ret = .fileRequest then server.file c.realFile else none }

def answer (ret : HttpCode) (c : Reader) : Conn σ :=
  settle c.linger (((server.handedOver ret c).processWrite ret).2.memory server.beyond)
    ((server.handedOver ret c).respond ret)

/-- `process` after `read_once`, up to the call of the handler: its answer is put into
what `process_read` leaves when it is there. -/
def process (c : Reader) : Conn σ :=
  match processRead (asking server.env) c with
  | .error _ => .crashed
  | .ok (.noRequest, d) => .reading d
  | .ok (.apiResponse, d) => .serving d (server.dispatch d.apiRequest)
  | .ok (ret, d) => server.answer ret d

/-- A handler that answers at once has answered. -/
def handled : Conn σ → Conn σ
  | .serving c (.done response) =>
    server.answer .apiResponse { c with apiResponse := replyText c.linger response }
  | conn => conn

theorem handled_answer (ret : HttpCode) (c : Reader) :
    server.handled (server.answer ret c) = server.answer ret c := by
  unfold answer
  rcases (server.handedOver ret c).respond ret with d | d | ⟨d, outcome⟩
  · rfl
  · rfl
  · cases outcome with
    | completed =>
      rw [settle]
      split <;> rfl
    | failed => rfl
    | idle => rfl

/-- With handlers that answer at once, a connection goes through `process_read` with the
gateway in it and then through `process_write`, in one call. -/
theorem handled_process {dispatch : HttpRequest → Option HttpResponse}
    (hdispatch : ∀ request, server.dispatch request = .done (dispatch request)) (c : Reader) :
    server.handled (server.process c) =
      match processRead { server.env with gateway := some dispatch } c with
      | .error _ => .crashed
      | .ok (.noRequest, d) => .reading d
      | .ok (ret, d) => server.answer ret d := by
  have hasking : asking { server.env with gateway := some dispatch } = asking server.env := rfl
  rw [@processRead_answered { server.env with gateway := some dispatch } dispatch rfl c, hasking,
    process]
  rcases processRead (asking server.env) c with e | ⟨ret, d⟩
  · rfl
  · cases ret with
    | apiResponse =>
      show server.handled (.serving d (server.dispatch d.apiRequest)) = _
      rw [hdispatch]
      rfl
    | noRequest => rfl
    | _ => exact server.handled_answer _ d

end Server

/-- What the kernel says to `writev` when it has room for `n` bytes. -/
def taken (n : ℕ) (phase : Phase Writer) : Result :=
  match write.head phase with
  | none => .again
  | some c => if n = 0 then .again else .accepted (min n (offered c.segments))

structure World (σ ι : Type) : Type 1 where
  store : σ
  conns : ι → Conn σ
  sent : ι → Bytes

def World.start (s : σ) : World σ ι := ⟨s, fun _ => .reading .reset, fun _ => []⟩

section Running

variable [DecidableEq ι] (server : Server σ)

namespace World

def put (w : World σ ι) (i : ι) (c : Conn σ) : World σ ι :=
  { w with conns := Function.update w.conns i c }

end World

namespace Server

/-- One event; `none` when the connection does not wait for it. -/
def fire (w : World σ ι) : ι × Event → Option (World σ ι)
  | (i, .received chunk) =>
    match w.conns i with
    | .reading c =>
      if chunk = [] ∨ kReadBufSize < c.readBuf.length + chunk.length then none
      else some (w.put i (server.process (c.receive chunk)))
    | _ => none
  | (i, .worked) =>
    match w.conns i with
    | .serving c (.act f next) =>
      some { w.put i (.serving c (next (f w.store).1)) with store := (f w.store).2 }
    | .serving c (.done response) =>
      some (w.put i (server.answer .apiResponse
        { c with apiResponse := replyText c.linger response }))
    | _ => none
  | (i, .room n) =>
    match w.conns i with
    | .sending linger mem phase =>
      let run := write.step mem ⟨phase, w.sent i⟩ (taken n phase)
      some { w.put i (settle linger mem run.phase) with
        sent := Function.update w.sent i run.accepted }
    | _ => none

def execute (w : World σ ι) : List (ι × Event) → Option (World σ ι)
  | [] => some w
  | e :: rest => (server.fire w e).bind fun w' => execute w' rest

theorem execute_append (w : World σ ι) (front back : List (ι × Event)) :
    server.execute w (front ++ back) =
      (server.execute w front).bind fun w' => server.execute w' back := by
  induction front generalizing w with
  | nil => rfl
  | cons e front ih =>
    simp only [List.cons_append, execute]
    cases server.fire w e with
    | none => rfl
    | some w' => exact ih w'

end Server

/-! ## Sessions -/

/-- A request under the API and the chunks it arrives in. A chunk that ends inside the
body leaves a part on which the parser stays. -/
structure Exchange where
  request : Request
  chunks : List Bytes
  api : (ascii "/api/").isPrefixOf request.url = true
  joined : chunks.flatten = request.bytes
  nonempty : [] ∉ chunks
  kept : ∀ pre part, pre <+: chunks → pre.flatten = request.head ++ part →
    part = [] ∨ part = request.body ∨ KeepsIndex part

/-- A request that is cut in its head only. -/
def Exchange.cutInHead (request : Request) (front : List Bytes) (last : Bytes)
    (api : (ascii "/api/").isPrefixOf request.url = true)
    (joined : front.flatten ++ last = request.bytes) (nonempty : [] ∉ front ++ [last])
    (inside : front.flatten.length ≤ request.head.length) : Exchange where
  request := request
  chunks := front ++ [last]
  api := api
  joined := by simpa using joined
  nonempty := nonempty
  kept := request.kept_of_cutInHead joined inside

/-- The chunks that a connection has received. -/
def heard (i : ι) (events : List (ι × Event)) : List Bytes :=
  events.filterMap fun e =>
    match e with
    | (j, .received chunk) => if j = i then some chunk else none
    | _ => none

/-- An exchange and its answer. -/
abbrev Answered := Exchange × Option HttpResponse

def Answered.thread (a : Answered) : Exchange × Prog σ (Option HttpResponse) := (a.1, .done a.2)

def Answered.bytes (a : Answered) : Bytes := replyText a.1.request.keepAlive a.2

/-- The exchanges of a session are answered in order, the bytes sent are those of the
answers, and at most one more request has been asked. -/
def Served (session : List Exchange) (threads : List (Exchange × Prog σ (Option HttpResponse)))
    (sent : Bytes) : Prop :=
  ∃ (past : List Answered) (current : List (Exchange × Prog σ (Option HttpResponse))),
    current.length ≤ 1 ∧ past.map Prod.fst ++ current.map Prod.fst <+: session ∧
    threads = past.map Answered.thread ++ current ∧
    sent = past.flatMap Answered.bytes

/-! ## Where a session stands -/

/-- The chunks of the next exchange that have come, which are not all of them. -/
def Underway (rest : List Exchange) (pre : List Bytes) : Prop :=
  match rest with
  | [] => pre = []
  | x :: _ => ∃ chunk more, x.chunks = pre ++ chunk :: more

theorem Exchange.chunks_ne_nil (x : Exchange) : x.chunks ≠ [] := by
  intro hnil
  have hjoined := x.joined
  rw [hnil, List.flatten_nil, Written.bytes, Written.head, headBytes] at hjoined
  have hlength := congrArg List.length hjoined
  simp only [List.length_nil, List.length_append, List.length_cons] at hlength
  omega

theorem underway_nil (rest : List Exchange) : Underway rest [] := by
  cases rest with
  | nil => rfl
  | cons x rest =>
    obtain ⟨chunk, more, hchunks⟩ := List.exists_cons_of_ne_nil x.chunks_ne_nil
    exact ⟨chunk, more, hchunks⟩

/-- The connection `sending` an answer, at the head of the loop of `write` or waiting
for room. -/
def AtStart (c : Writer) (phase : Phase Writer) : Prop := phase = .looping c ∨ phase = .waiting c

variable (server : Server σ)

inductive Stage (session : List Exchange) (heard : List Bytes)
    (threads : List (Exchange × Prog σ (Option HttpResponse))) (sent : Bytes) : Conn σ → Prop
  | reading {c : Reader} (past : List Answered) (rest : List Exchange) (pre : List Bytes)
      (hsession : session = past.map Prod.fst ++ rest)
      (hheard : heard = (past.map Prod.fst).flatMap Exchange.chunks ++ pre)
      (hthreads : threads = past.map Answered.thread) (hsent : sent = past.flatMap Answered.bytes)
      (hpre : Underway rest pre) (hlength : c.readBuf.length = pre.flatten.length)
      (hc : ∀ more, processRead (asking server.env) (c.receive more) =
        processRead (asking server.env) (RequestParser.HttpConn.reset.receive (pre.flatten ++ more))) :
      Stage session heard threads sent (.reading c)
  | serving {c : Reader} {p : Prog σ (Option HttpResponse)} (past : List Answered) (x : Exchange)
      (rest : List Exchange) (hsession : session = past.map Prod.fst ++ x :: rest)
      (hheard : heard = (past.map Prod.fst).flatMap Exchange.chunks ++ x.chunks)
      (hthreads : threads = past.map Answered.thread ++ [(x, p)])
      (hsent : sent = past.flatMap Answered.bytes) (hlinger : c.linger = x.request.keepAlive)
      (hreal : c.realFile = []) :
      Stage session heard threads sent (.serving c p)
  | sending {linger : Bool} {mem : Memory Region} {phase : Phase Writer} (past : List Answered)
      (x : Exchange) (rest : List Exchange) (response : Option HttpResponse)
      (hsession : session = past.map Prod.fst ++ x :: rest)
      (hheard : heard = (past.map Prod.fst).flatMap Exchange.chunks ++ x.chunks)
      (hthreads : threads = past.map Answered.thread ++ [(x, .done response)])
      (hsent : sent = past.flatMap Answered.bytes) (hlinger : linger = x.request.keepAlive)
      (hmem : mem = ApiDelivery.apiMemory linger (replyText linger response) server.beyond)
      (hphase : AtStart (ApiDelivery.sending linger (replyText linger response)) phase) :
      Stage session heard threads sent (.sending linger mem phase)
  | closed (past : List Answered) (rest : List Exchange)
      (hsession : session = past.map Prod.fst ++ rest)
      (hheard : heard = (past.map Prod.fst).flatMap Exchange.chunks)
      (hthreads : threads = past.map Answered.thread)
      (hsent : sent = past.flatMap Answered.bytes)
      (hlast : ∃ front a, past = front ++ [a] ∧ a.1.request.keepAlive = false) :
      Stage session heard threads sent .closed

variable {server} {session : List Exchange} {sofar : List Bytes} {sent : Bytes}
  {threads : List (Exchange × Prog σ (Option HttpResponse))} {conn : Conn σ}

theorem Stage.served (h : Stage server session sofar threads sent conn) :
    Served session threads sent := by
  cases h with
  | reading past rest pre hsession _ hthreads hsent =>
    exact ⟨past, [], Nat.zero_le 1, ⟨rest, by simp [hsession]⟩, by simp [hthreads], hsent⟩
  | @serving _ p past x rest hsession _ hthreads hsent =>
    exact ⟨past, [(x, p)], Nat.le_refl 1, ⟨rest, by simp [hsession]⟩, hthreads, hsent⟩
  | sending past x rest response hsession _ hthreads hsent =>
    exact ⟨past, [(x, .done response)], Nat.le_refl 1, ⟨rest, by simp [hsession]⟩, hthreads, hsent⟩
  | closed past rest hsession _ hthreads hsent =>
    exact ⟨past, [], Nat.zero_le 1, ⟨rest, by simp [hsession]⟩, by simp [hthreads], hsent⟩

theorem Served.asked (h : Served session threads sent) : threads.map Prod.fst <+: session := by
  obtain ⟨past, current, -, hsession, rfl, -⟩ := h
  rw [List.map_append, List.map_map]
  exact hsession

/-! ## Reading -/

theorem doRequest_api {env : Env} {dispatch : HttpRequest → Option HttpResponse} {c : Reader}
    (hgateway : env.gateway = some dispatch) (hapi : (ascii "/api/").isPrefixOf c.url = true) :
    c.doRequest env = (.apiResponse, { c with
      apiResponse := replyText c.linger (dispatch c.apiRequest) }) := by
  simp only [RequestParser.HttpConn.doRequest, hapi, if_true, hgateway, replyText]

/-- The chunk is the next one of the session. -/
theorem next_chunk {past : List Answered} {rest : List Exchange} {pre : List Bytes}
    (hpre : Underway rest pre) {chunk : Bytes}
    (hchunk : (past.map Prod.fst).flatMap Exchange.chunks ++ pre ++ [chunk] <+:
      (past.map Prod.fst ++ rest).flatMap Exchange.chunks) :
    ∃ x later more, rest = x :: later ∧ x.chunks = pre ++ chunk :: more := by
  rw [List.flatMap_append, List.append_assoc] at hchunk
  have hrest := (List.prefix_append_right_inj _).mp hchunk
  cases rest with
  | nil =>
    have hlength := hrest.length_le
    simp at hlength
  | cons x later =>
    obtain ⟨first, more, hchunks⟩ := hpre
    rw [List.flatMap_cons, hchunks, List.append_assoc] at hrest
    have hhead := (List.prefix_append_right_inj _).mp hrest
    rw [List.cons_append, List.cons_prefix_cons] at hhead
    exact ⟨x, later, more, rfl, by rw [hchunks, hhead.1]⟩

/-- Reading goes on, or the request is complete and its handler starts. -/
theorem process_stage {c : Reader}
    (h : Stage server session sofar threads sent (.reading c)) {chunk : Bytes}
    (hchunk : sofar ++ [chunk] <+: session.flatMap Exchange.chunks) :
    Stage server session (sofar ++ [chunk]) threads sent (server.process (c.receive chunk)) ∨
    ∃ x ∈ session, Stage server session (sofar ++ [chunk])
      (threads ++ [(x, server.dispatch x.request.asked)]) sent
      (server.process (c.receive chunk)) := by
  cases h with
  | reading past rest pre hsession hheard hthreads hsent hpre _ hc =>
    subst hsession hheard
    obtain ⟨x, later, more, rfl, hchunks⟩ := next_chunk hpre hchunk
    have hflat : (pre ++ [chunk]).flatten = pre.flatten ++ chunk := by simp
    have hread := hc chunk
    by_cases hmore : more = []
    · right
      subst hmore
      have hwhole : pre.flatten ++ chunk = x.request.bytes := by
        rw [← x.joined, hchunks, ← hflat]
      have hreads := Request.reads_wholeRead x.request
      have hapi := x.api
      rw [← hreads.url] at hapi
      have hdone : (asking server.env).gateway = some fun _ => none := rfl
      rw [hwhole, Request.processRead_whole, doRequest_api hdone hapi] at hread
      have hasked : ({ x.request.wholeRead with
          apiResponse := replyText x.request.wholeRead.linger none } : Reader).apiRequest =
            x.request.asked := hreads.request
      refine ⟨x, List.mem_append_right _ List.mem_cons_self, ?_⟩
      unfold Server.process
      simp only [hread, hasked]
      exact .serving past x later rfl (by rw [hchunks, List.append_assoc]) (by rw [hthreads])
        hsent hreads.linger hreads.realFile
    · left
      have hjoined : pre.flatten ++ chunk ++ more.flatten = x.request.bytes := by
        rw [← x.joined, hchunks, List.flatten_append, List.flatten_cons, List.append_assoc]
      have hlater : 0 < more.flatten.length := by
        obtain ⟨next, others, rfl⟩ := List.exists_cons_of_ne_nil hmore
        have hnext : next ≠ [] := by
          rintro rfl
          apply x.nonempty
          rw [hchunks]
          simp
        rw [List.flatten_cons, List.length_append]
        exact Nat.add_pos_left (List.length_pos_iff.mpr hnext) _
      have hlt : (pre.flatten ++ chunk).length < x.request.bytes.length := by
        rw [← hjoined, @List.length_append _ (pre.flatten ++ chunk)]
        exact Nat.lt_add_of_pos_right hlater
      have hkeeps : ∀ part, pre.flatten ++ chunk = x.request.head ++ part →
          part = [] ∨ KeepsIndex part := by
        intro part hpart
        have hprefix : pre ++ [chunk] <+: x.chunks := ⟨more, by rw [hchunks, List.append_assoc]; rfl⟩
        rcases x.kept _ part hprefix (hflat.trans hpart) with hnil | hall | hkeep
        · exact .inl hnil
        · rw [hpart, hall] at hlt
          exact absurd hlt (Nat.lt_irrefl _)
        · exact .inr hkeep
      obtain ⟨d, hsuspended, hresumes⟩ :=
        @prefix_suspends (asking server.env) x.request _ ⟨_, hjoined⟩ hlt hkeeps
      unfold Server.process
      simp only [hread, hsuspended]
      obtain ⟨next, others, hnext⟩ := List.exists_cons_of_ne_nil hmore
      refine .reading past (x :: later) (pre ++ [chunk]) rfl (List.append_assoc _ _ _) hthreads hsent
        ⟨next, others, ?_⟩ ?_ fun rest => ?_
      · rw [hchunks, hnext, List.append_assoc]
        rfl
      · rw [length_of_waits hsuspended, hflat]
        rfl
      · rw [hresumes, hflat]

/-! ## Answering -/

theorem answer_sending {c : Reader} {response : Option HttpResponse} (hreal : c.realFile = [])
    (hsize : 0 < toCInt (replyText c.linger response).length) :
    server.answer .apiResponse { c with apiResponse := replyText c.linger response } =
      .sending c.linger
        (ApiDelivery.apiMemory c.linger (replyText c.linger response) server.beyond)
        (.looping (ApiDelivery.sending c.linger (replyText c.linger response))) := by
  have hhanded : server.handedOver .apiResponse
      { c with apiResponse := replyText c.linger response } =
        ApiDelivery.answering c.linger (replyText c.linger response) := by
    unfold Server.handedOver ApiDelivery.answering
    rw [hreal]
    rfl
  have hstart := @ApiDelivery.respond_answering c.linger _ hsize
  have hmore : (ApiDelivery.sending c.linger (replyText c.linger response)).bytesToSend ≠ 0 :=
    ofInt_ne_zero hsize.ne'
  unfold Server.answer
  rw [hhanded, hstart]
  unfold HttpConn.enter
  rw [if_neg hmore]
  rfl

theorem answer_stage {c : Reader} {response : Option HttpResponse}
    (h : Stage server session sofar threads sent (.serving c (.done response)))
    (hsize : 0 < toCInt (replyText c.linger response).length) :
    Stage server session sofar threads sent
      (server.answer .apiResponse { c with apiResponse := replyText c.linger response }) := by
  cases h with
  | serving past x rest hsession hheard hthreads hsent hlinger hreal =>
    rw [answer_sending hreal hsize]
    exact .sending past x rest response hsession hheard hthreads hsent hlinger rfl (.inl rfl)

/-! ## Sending -/

theorem replyText_pos (linger : Bool) (response : Option HttpResponse) :
    0 < (replyText linger response).length := by
  have hversion : ascii "HTTP/1.1 " ≠ [] := by decide
  have hfirst := List.length_pos_iff.mpr hversion
  unfold replyText HttpResponse.toHttpString
  simp only [List.length_append]
  omega

theorem toCInt_reply {linger : Bool} {response : Option HttpResponse}
    (h : (replyText linger response).length < 2 ^ 31) :
    0 < toCInt (replyText linger response).length := by
  have hpos := replyText_pos linger response
  rw [toCInt_of_fits (by omega) (by unfold intMax; omega)]
  omega

section Sending

variable {linger : Bool} {text : Bytes} {phase : Phase Writer} {beyond : Memory Region}

theorem head_atStart (hsize : 0 < toCInt text.length)
    (h : AtStart (ApiDelivery.sending linger text) phase) :
    write.head phase = some (ApiDelivery.sending linger text) := by
  rcases h with rfl | rfl
  · rfl
  · exact head_waiting (ofInt_ne_zero hsize.ne')

theorem offered_sending :
    GatherWrites.offered (ApiDelivery.sending linger text).segments = text.length := rfl

theorem gather_sending : gather (ApiDelivery.apiMemory linger text beyond)
    (ApiDelivery.sending linger text).segments = text := by
  have hrange := Framing.bytes_apiResponse (ApiDelivery.sending linger text) beyond
  have hsegments : gather (ApiDelivery.apiMemory linger text beyond)
      (ApiDelivery.sending linger text).segments =
        Segment.bytes (ApiDelivery.apiMemory linger text beyond) ⟨.apiResponse, 0, text.length⟩ ++
          [] := rfl
  rw [hsegments, List.append_nil]
  exact hrange

/-- Without room the connection waits. -/
theorem step_full (hsize : 0 < toCInt text.length)
    (h : AtStart (ApiDelivery.sending linger text) phase) (mem : Memory Region) (sent : Bytes) :
    write.step mem ⟨phase, sent⟩ (taken 0 phase) =
      ⟨.waiting (ApiDelivery.sending linger text), sent⟩ := by
  have hhead := head_atStart hsize h
  have htaken : taken 0 phase = .again := by
    unfold taken
    rw [hhead]
    exact if_pos rfl
  have hstep := @Sender.step_of_head _ _ write mem ⟨phase, sent⟩ _ hhead .again
  have hnone : Result.again.count = 0 := rfl
  rw [htaken, hstep, hnone, List.take_zero, List.append_nil]
  rfl

/-- With room for the whole answer all of it is taken. -/
theorem step_room (hsize : 0 < toCInt text.length)
    (h : AtStart (ApiDelivery.sending linger text) phase) {n : ℕ} (hn : n ≠ 0)
    (hroom : text.length ≤ n) (sent : Bytes) :
    ∃ c, write.step (ApiDelivery.apiMemory linger text beyond) ⟨phase, sent⟩ (taken n phase) =
      ⟨.returned c .completed, sent ++ text⟩ := by
  have hhead := head_atStart hsize h
  have htaken : taken n phase = .accepted text.length := by
    unfold taken
    rw [hhead]
    dsimp only
    rw [if_neg hn, offered_sending, Nat.min_eq_right hroom]
  have hdone : (ApiDelivery.sending linger text).bytesToSend - Int32.ofInt text.length ≤ 0 := by
    have hzero : Int32.ofInt text.length - Int32.ofInt text.length = 0 := Int32.sub_self _
    show Int32.ofInt text.length - Int32.ofInt text.length ≤ 0
    rw [hzero]
    exact Int32.le_refl 0
  have hnext : (ApiDelivery.sending linger text).next (.accepted text.length) = .returned
      (if linger then .reset
        else { (ApiDelivery.sending linger text).took text.length with mmapFile := none })
      .completed := if_pos hdone
  have hstep := @Sender.step_of_head _ _ write (ApiDelivery.apiMemory linger text beyond)
    ⟨phase, sent⟩ _ hhead (.accepted text.length)
  have hcount : (Result.accepted text.length).count = text.length := rfl
  have hsegments : write.segments (ApiDelivery.sending linger text) =
      (ApiDelivery.sending linger text).segments := rfl
  rw [htaken, hstep, hcount, hsegments, gather_sending, List.take_length]
  exact ⟨_, congrArg (fun phase => (⟨phase, sent ++ text⟩ : Run Writer)) hnext⟩

end Sending

/-- The whole answer is taken, or nothing. -/
theorem room_stage {linger : Bool} {mem : Memory Region} {phase : Phase Writer} {n : ℕ}
    (h : Stage server session sofar threads sent (.sending linger mem phase))
    (hfits : ∀ x response, (x, .done response) ∈ threads →
      (replyText linger response).length < 2 ^ 31 ∧
        (n = 0 ∨ (replyText linger response).length ≤ n)) :
    Stage server session sofar threads (write.step mem ⟨phase, sent⟩ (taken n phase)).accepted
      (Server.settle linger mem (write.step mem ⟨phase, sent⟩ (taken n phase)).phase) := by
  cases h with
  | sending past x rest response hsession hheard hthreads hsent hlinger hmem hphase =>
    obtain ⟨hlt, hn⟩ := hfits x response (by simp [hthreads])
    have hsize := toCInt_reply hlt
    by_cases hzero : n = 0
    · rw [hzero, step_full hsize hphase]
      exact .sending past x rest response hsession hheard hthreads hsent hlinger hmem (.inr rfl)
    · obtain ⟨c, hstep⟩ := @step_room _ _ _ server.beyond hsize hphase n hzero
        (hn.resolve_left hzero) sent
      rw [hmem, hstep]
      have hdone : session = (past ++ [(x, response)]).map Prod.fst ++ rest := by simp [hsession]
      have hheard' : sofar = ((past ++ [(x, response)]).map Prod.fst).flatMap Exchange.chunks := by
        simp [hheard]
      have hthreads' : threads = (past ++ [(x, response)]).map Answered.thread := by
        simp [hthreads, Answered.thread]
      have hsent' : sent ++ replyText linger response =
          (past ++ [(x, response)]).flatMap Answered.bytes := by
        simp [hsent, hlinger, Answered.bytes]
      cases linger with
      | true =>
        exact .reading _ rest [] hdone (by rw [hheard', List.append_nil]) hthreads' hsent'
          (underway_nil rest) rfl fun more => rfl
      | false => exact .closed _ rest hdone hheard' hthreads' hsent' ⟨past, _, rfl, hlinger.symm⟩

/-! ## Runs -/

/-- The programs that the requests start. -/
def Server.program (server : Server σ) (r : ι × Exchange) : Prog σ (Option HttpResponse) :=
  server.dispatch r.2.request.asked

/-- The answers that the programs give, in any order of their steps, take at most `B`
bytes. -/
def ShortReplies (server : Server σ) (sessions : ι → List Exchange) (s : σ) (B : ℕ) : Prop :=
  ∀ moves c, Interleaving.execute server.program ⟨s, []⟩ moves = some c →
    (∀ i, (owned i c.threads).map Prod.fst <+: sessions i) →
    ∀ t ∈ c.threads, ∀ response linger, t.prog = .done response →
      (replyText linger response).length ≤ B

/-- A run in which every client sends its session, the next request after the last
answer, and the kernel has room for a whole answer or for nothing. -/
structure Conducted (server : Server σ) (sessions : ι → List Exchange) (s : σ) (B : ℕ)
    (events : List (ι × Event)) (w : World σ ι) : Prop where
  exec : server.execute (.start s) events = some w
  client : ∀ i, heard i events <+: (sessions i).flatMap Exchange.chunks
  kernel : ∀ i n, (i, .room n) ∈ events → n = 0 ∨ B ≤ n

/-- The world after some events, next to the programs alone. -/
structure Tracks (server : Server σ) (sessions : ι → List Exchange) (events : List (ι × Event))
    (w : World σ ι) (c : Config (ι × Exchange) σ (Option HttpResponse)) : Prop where
  store : c.state = w.store
  stage : ∀ i, Stage server (sessions i) (heard i events) (owned i c.threads) (w.sent i) (w.conns i)

theorem heard_append (i : ι) (events more : List (ι × Event)) :
    heard i (events ++ more) = heard i events ++ heard i more := List.filterMap_append

theorem heard_other {i j : ι} (h : j ≠ i) (e : Event) : heard i [(j, e)] = [] := by
  cases e <;> simp [heard, h]

/-- Nothing changes for the other connections. -/
theorem stage_other {sessions : ι → List Exchange} {events : List (ι × Event)} {w : World σ ι}
    {c : Config (ι × Exchange) σ (Option HttpResponse)}
    (h : Tracks server sessions events w c) {i j : ι} (hj : j ≠ i) (e : Event)
    {threads : List (Thread (ι × Exchange) σ (Option HttpResponse))}
    (hthreads : owned j threads = owned j c.threads) {sent : ι → Bytes}
    (hsent : sent j = w.sent j) (conn : Conn σ) :
    Stage server (sessions j) (heard j (events ++ [(i, e)])) (owned j threads) (sent j)
      ((w.put i conn).conns j) := by
  have hconn : (w.put i conn).conns j = w.conns j := Function.update_of_ne hj _ _
  rw [heard_append, heard_other hj.symm, List.append_nil, hthreads, hsent, hconn]
  exact h.stage j

section Steps

variable {sessions : ι → List Exchange} {events : List (ι × Event)} {w w' : World σ ι}
  {c : Config (ι × Exchange) σ (Option HttpResponse)} {i : ι}

theorem put_self (w : World σ ι) (i : ι) (conn : Conn σ) : (w.put i conn).conns i = conn :=
  Function.update_self _ _ _

theorem Tracks.received (h : Tracks server sessions events w c) {chunk : Bytes}
    (hfire : server.fire w (i, .received chunk) = some w')
    (hheard : heard i (events ++ [(i, .received chunk)]) <+:
      (sessions i).flatMap Exchange.chunks) :
    ∃ moves c', Interleaving.execute server.program c moves = some c' ∧
      Tracks server sessions (events ++ [(i, .received chunk)]) w' c' := by
  have hstage := h.stage i
  have hone : heard i [(i, Event.received chunk)] = [chunk] := by simp [heard]
  unfold Server.fire at hfire
  dsimp only at hfire
  split at hfire
  · rename_i d hconn
    rw [hconn] at hstage
    split at hfire
    · cases hfire
    · obtain rfl := Option.some.inj hfire
      rw [heard_append, hone] at hheard
      rcases process_stage hstage hheard with hnext | ⟨x, -, hnext⟩
      · refine ⟨[], c, rfl, h.store, fun j => ?_⟩
        by_cases hj : j = i
        · subst hj
          rw [heard_append, hone, put_self]
          exact hnext
        · exact stage_other h hj _ rfl rfl _
      · refine ⟨[.spawn (i, x)], _, rfl, h.store, fun j => ?_⟩
        by_cases hj : j = i
        · subst hj
          rw [heard_append, hone, put_self, owned_append, owned_cons_self]
          exact hnext
        · refine stage_other h hj _ ?_ rfl _
          rw [owned_append, owned_cons_other (Ne.symm hj)]
          exact List.append_nil _
  · cases hfire

/-- The handler takes a step, or its answer is handed over. -/
theorem Tracks.worked (h : Tracks server sessions events w c)
    (hfire : server.fire w (i, .worked) = some w')
    (hfits : ∀ x response linger, (x, .done response) ∈ owned i c.threads →
      (replyText linger response).length < 2 ^ 31) :
    ∃ moves c', Interleaving.execute server.program c moves = some c' ∧
      Tracks server sessions (events ++ [(i, .worked)]) w' c' := by
  have hstage := h.stage i
  have hnone : heard i [(i, Event.worked)] = [] := by simp [heard]
  unfold Server.fire at hfire
  dsimp only at hfire
  split at hfire
  · rename_i d β f next hconn
    rw [hconn] at hstage
    obtain rfl := Option.some.inj hfire
    cases hstage with
    | serving past x rest hsession hheard hthreads hsent hlinger hreal =>
      have hnew : ∀ q ∈ past.map Answered.thread, q.2 ≠ (.act f next : Prog σ _) := by
        intro q hq heq
        obtain ⟨a, -, rfl⟩ := List.mem_map.mp hq
        cases heq
      obtain ⟨front, back, steps, hsplit, hfront, hback⟩ := exists_last_owned hthreads hnew
      have hmove : Interleaving.execute server.program c [.step front.length] =
          some ⟨(f c.state).2, front ++ ⟨(i, x), next (f c.state).1, steps + 1⟩ ::
            back⟩ := by
        simp [Interleaving.execute, Interleaving.fire, hsplit]
      refine ⟨_, _, hmove, congrArg (fun s => (f s).2) h.store, fun j => ?_⟩
      by_cases hj : j = i
      · subst hj
        have hconn' : ({ w.put j (.serving d (next (f w.store).1)) with
            store := (f w.store).2 } : World σ ι).conns j = .serving d (next (f w.store).1) :=
          put_self w j _
        rw [heard_append, hnone, List.append_nil, hconn', owned_append, owned_cons_self, hback,
          hfront, h.store]
        exact .serving past x rest hsession hheard rfl hsent hlinger hreal
      · refine stage_other h hj _ ?_ rfl _
        rw [hsplit, owned_append, owned_append, owned_cons_other (Ne.symm hj),
          owned_cons_other (Ne.symm hj)]
  · rename_i d response hconn
    rw [hconn] at hstage
    obtain rfl := Option.some.inj hfire
    refine ⟨[], c, rfl, h.store, fun j => ?_⟩
    by_cases hj : j = i
    · subst hj
      have hmem : ∃ x, (x, .done response) ∈ owned j c.threads := by
        cases hstage with
        | serving past x rest _ _ hthreads => exact ⟨x, by simp [hthreads]⟩
      obtain ⟨x, hmem⟩ := hmem
      rw [heard_append, hnone, List.append_nil, put_self]
      exact answer_stage hstage (toCInt_reply (hfits x response d.linger hmem))
    · exact stage_other h hj _ rfl rfl _
  · cases hfire

theorem Tracks.room (h : Tracks server sessions events w c) {n : ℕ}
    (hfire : server.fire w (i, .room n) = some w')
    (hfits : ∀ x response linger, (x, .done response) ∈ owned i c.threads →
      (replyText linger response).length < 2 ^ 31 ∧
        (n = 0 ∨ (replyText linger response).length ≤ n)) :
    Tracks server sessions (events ++ [(i, .room n)]) w' c := by
  have hstage := h.stage i
  have hnone : heard i [(i, Event.room n)] = [] := by simp [heard]
  unfold Server.fire at hfire
  dsimp only at hfire
  split at hfire
  · rename_i linger mem phase hconn
    rw [hconn] at hstage
    obtain rfl := Option.some.inj hfire
    refine ⟨h.store, fun j => ?_⟩
    by_cases hj : j = i
    · subst hj
      have hnext := room_stage hstage fun x response hmem => hfits x response linger hmem
      rw [heard_append, hnone, List.append_nil]
      simpa only [World.put, Function.update_self] using hnext
    · exact stage_other h hj _ rfl (Function.update_of_ne hj _ _) _
  · cases hfire

end Steps

theorem tracks_start (s : σ) (sessions : ι → List Exchange) :
    Tracks server sessions [] (World.start s) ⟨s, []⟩ where
  store := rfl
  stage i := .reading [] (sessions i) [] rfl rfl rfl rfl (underway_nil _) rfl fun _ => rfl

theorem mem_of_owned {i : ι} {x : Exchange} {p : Prog σ (Option HttpResponse)}
    {threads : List (Thread (ι × Exchange) σ (Option HttpResponse))}
    (h : (x, p) ∈ owned i threads) : ∃ t ∈ threads, t.prog = p := by
  obtain ⟨t, ht, heq⟩ := List.mem_map.mp h
  exact ⟨t, (List.mem_filter.mp ht).1, congrArg Prod.snd heq⟩

section Conduct

variable {sessions : ι → List Exchange} {s : σ} {B : ℕ} {events : List (ι × Event)}
  {w : World σ ι}

theorem Conducted.front {e : ι × Event} (h : Conducted server sessions s B (events ++ [e]) w) :
    ∃ w₁, Conducted server sessions s B events w₁ ∧ server.fire w₁ e = some w := by
  have hexec := h.exec
  rw [Server.execute_append] at hexec
  obtain ⟨w₁, hfirst, hlast⟩ := Option.bind_eq_some_iff.mp hexec
  refine ⟨w₁, ⟨hfirst, fun i => ?_, fun i n hmem => h.kernel i n (List.mem_append_left _ hmem)⟩, ?_⟩
  · refine List.IsPrefix.trans ?_ (h.client i)
    rw [heard_append]
    exact List.prefix_append _ _
  · simpa [Server.execute] using hlast

theorem short_owned (hshort : ShortReplies server sessions s B)
    {c : Config (ι × Exchange) σ (Option HttpResponse)} {moves : List (Move (ι × Exchange))}
    (hmoves : Interleaving.execute server.program ⟨s, []⟩ moves = some c)
    (h : Tracks server sessions events w c) (i : ι) (x : Exchange)
    (response : Option HttpResponse) (linger : Bool)
    (hmem : (x, .done response) ∈ owned i c.threads) :
    (replyText linger response).length ≤ B := by
  obtain ⟨t, ht, hprog⟩ := mem_of_owned hmem
  exact hshort moves c hmoves (fun j => (h.stage j).served.asked) t ht response linger hprog

/-- Every run of the server is a run of the handlers alone. -/
theorem Conducted.tracks (h : Conducted server sessions s B events w) (hB : B < 2 ^ 31)
    (hshort : ShortReplies server sessions s B) :
    ∃ moves c, Interleaving.execute server.program ⟨s, []⟩ moves = some c ∧
      Tracks server sessions events w c := by
  induction events using List.reverseRecOn generalizing w with
  | nil =>
    obtain rfl := Option.some.inj h.exec
    exact ⟨[], _, rfl, tracks_start s sessions⟩
  | append_singleton events e ih =>
    obtain ⟨w₁, hfront, hfire⟩ := h.front
    obtain ⟨moves, c, hmoves, htracks⟩ := ih hfront
    have hreplies := short_owned hshort hmoves htracks
    have hnext : ∃ more c', Interleaving.execute server.program c more = some c' ∧
        Tracks server sessions (events ++ [e]) w c' := by
      obtain ⟨i, chunk | _ | n⟩ := e
      · exact htracks.received hfire (h.client i)
      · exact htracks.worked hfire fun x response linger hmem =>
          Nat.lt_of_le_of_lt (hreplies i x response linger hmem) hB
      · refine ⟨[], c, rfl, htracks.room hfire fun x response linger hmem => ?_⟩
        have hle := hreplies i x response linger hmem
        refine ⟨Nat.lt_of_le_of_lt hle hB, ?_⟩
        rcases h.kernel i n (List.mem_append_right _ (List.mem_singleton_self _)) with hzero | hmore
        · exact .inl hzero
        · exact .inr (Nat.le_trans hle hmore)
    obtain ⟨more, c', hmore, htracks'⟩ := hnext
    refine ⟨moves ++ more, c', ?_, htracks'⟩
    rw [execute_append, hmoves]
    exact hmore

end Conduct

/-- Whatever the order of the events on all connections, the store is what the handlers
alone would leave as concurrent programs, and every client gets the answers to its
requests, in order and byte for byte. -/
theorem sessions_served {server : Server σ} {sessions : ι → List Exchange} {s : σ} {B : ℕ}
    (hB : B < 2 ^ 31) (hshort : ShortReplies server sessions s B) {events : List (ι × Event)}
    {w : World σ ι} (h : Conducted server sessions s B events w) :
    ∃ moves c, Interleaving.execute server.program ⟨s, []⟩ moves = some c ∧ c.state = w.store ∧
      ∀ i, Served (sessions i) (owned i c.threads) (w.sent i) := by
  obtain ⟨moves, c, hmoves, htracks⟩ := h.tracks hB hshort
  exact ⟨moves, c, hmoves, htracks.store, fun i => (htracks.stage i).served⟩

/-! ## Going on -/

section Progress

variable {sessions : ι → List Exchange} {s : σ} {B : ℕ} {events : List (ι × Event)}
  {w : World σ ι} {i : ι}

theorem Conducted.snoc (h : Conducted server sessions s B events w) {w' : World σ ι} {e : Event}
    (hfire : server.fire w (i, e) = some w')
    (hheard : heard i (events ++ [(i, e)]) <+: (sessions i).flatMap Exchange.chunks)
    (hroom : ∀ n, e = .room n → n = 0 ∨ B ≤ n) :
    Conducted server sessions s B (events ++ [(i, e)]) w' where
  exec := by
    rw [Server.execute_append, h.exec]
    simp [Server.execute, hfire]
  client j := by
    by_cases hj : j = i
    · rw [hj]
      exact hheard
    · rw [heard_append, heard_other (Ne.symm hj), List.append_nil]
      exact h.client j
  kernel j n hmem := by
    rcases List.mem_append.mp hmem with hbefore | hlast
    · exact h.kernel j n hbefore
    · obtain ⟨-, heq⟩ := Prod.mk.inj (List.mem_singleton.mp hlast)
      exact hroom n heq.symm

/-- Events on one connection only lead from one run to the other. -/
def Leads (server : Server σ) (sessions : ι → List Exchange) (s : σ) (B : ℕ) (i : ι)
    (events : List (ι × Event)) (P : List (ι × Event) → World σ ι → Prop) : Prop :=
  ∃ more w, (∀ e ∈ more, e.1 = i) ∧ Conducted server sessions s B (events ++ more) w ∧
    P (events ++ more) w

theorem Leads.trans {P Q : List (ι × Event) → World σ ι → Prop}
    (h : Leads server sessions s B i events P)
    (hnext : ∀ events w, Conducted server sessions s B events w → P events w →
      Leads server sessions s B i events Q) : Leads server sessions s B i events Q := by
  obtain ⟨more, w, hmore, hrun, hP⟩ := h
  obtain ⟨more', w', hmore', hrun', hQ⟩ := hnext _ w hrun hP
  refine ⟨more ++ more', w', fun e he => ?_, ?_, ?_⟩
  · rcases List.mem_append.mp he with hfirst | hlast
    · exact hmore e hfirst
    · exact hmore' e hlast
  · rwa [← List.append_assoc]
  · rwa [← List.append_assoc]

theorem leads_self (h : Conducted server sessions s B events w)
    {P : List (ι × Event) → World σ ι → Prop} (hP : P events w) :
    Leads server sessions s B i events P := by
  refine ⟨[], w, fun _ he => absurd he List.not_mem_nil, ?_, ?_⟩
  · rwa [List.append_nil]
  · rwa [List.append_nil]

theorem leads_one (h : Conducted server sessions s B events w) {w' : World σ ι} {e : Event}
    (hfire : server.fire w (i, e) = some w')
    (hheard : heard i (events ++ [(i, e)]) <+: (sessions i).flatMap Exchange.chunks)
    (hroom : ∀ n, e = .room n → n = 0 ∨ B ≤ n) {P : List (ι × Event) → World σ ι → Prop}
    (hP : P (events ++ [(i, e)]) w') : Leads server sessions s B i events P :=
  ⟨[(i, e)], w', fun _ he => congrArg Prod.fst (List.mem_singleton.mp he),
    h.snoc hfire hheard hroom, hP⟩

/-- The connection is at rest, and has heard as much as before. -/
def AtRest (i : ι) (events before : List (ι × Event)) (w : World σ ι) : Prop :=
  heard i events = heard i before ∧ (w.conns i = .closed ∨ ∃ c, w.conns i = .reading c)

/-- A connection that is read has answered its session, or its next chunk fits. -/
theorem Stage.next {c : Reader} (h : Stage server session sofar threads sent (.reading c)) :
    (∃ past : List Answered, past.map Prod.fst = session ∧ sent = past.flatMap Answered.bytes) ∨
    ∃ chunk, chunk ≠ [] ∧ c.readBuf.length + chunk.length ≤ kReadBufSize ∧
      sofar ++ [chunk] <+: session.flatMap Exchange.chunks := by
  cases h with
  | reading past rest pre hsession hheard hthreads hsent hpre hlength hc =>
    cases rest with
    | nil => exact .inl ⟨past, by rw [hsession, List.append_nil], hsent⟩
    | cons x rest =>
      right
      obtain ⟨chunk, more, hchunks⟩ := hpre
      refine ⟨chunk, ?_, ?_, ?_⟩
      · rintro rfl
        apply x.nonempty
        rw [hchunks]
        simp
      · have hfits : x.request.head.length + x.request.body.length ≤ kReadBufSize := x.request.fits
        have hjoined := congrArg List.length x.joined
        rw [hchunks, Written.bytes] at hjoined
        simp only [List.flatten_append, List.flatten_cons, List.length_append] at hjoined
        omega
      · rw [hheard, hsession, List.flatMap_append, List.flatMap_cons, hchunks, List.append_assoc,
          List.append_assoc]
        refine (List.prefix_append_right_inj _).mpr ?_
        rw [List.prefix_append_right_inj]
        exact ⟨more ++ rest.flatMap Exchange.chunks, rfl⟩

variable (hB : B < 2 ^ 31) (hshort : ShortReplies server sessions s B)

include hB hshort

theorem sending_rests (h : Conducted server sessions s B events w) {linger : Bool}
    {mem : Memory Region} {phase : Phase Writer} (hconn : w.conns i = .sending linger mem phase) :
    Leads server sessions s B i events fun later => AtRest i later events := by
  obtain ⟨moves, c, hmoves, htracks⟩ := h.tracks hB hshort
  have hstage := htracks.stage i
  rw [hconn] at hstage
  have hsame : heard i (events ++ [(i, Event.room (B + 1))]) = heard i events := by
    rw [heard_append]
    exact List.append_nil _
  cases hstage with
  | sending past x rest response hsession hheard hthreads hsent hlinger hmem hphase =>
    have hle := short_owned hshort hmoves htracks i x response linger
      (by simp [hthreads])
    have hsize := toCInt_reply (Nat.lt_of_le_of_lt hle hB)
    obtain ⟨d, hstep⟩ := @step_room _ _ _ server.beyond hsize hphase (B + 1) (Nat.succ_ne_zero B)
      (by omega) (w.sent i)
    rw [← hmem] at hstep
    have hfire : server.fire w (i, .room (B + 1)) =
        some { w.put i (Server.settle linger mem (.returned d .completed)) with
          sent := Function.update w.sent i (w.sent i ++ replyText linger response) } := by
      unfold Server.fire
      simp only [hconn, hstep]
    refine leads_one h hfire (by rw [hsame]; exact h.client i) ?_ ⟨hsame, ?_⟩
    · intro n hn
      obtain rfl := Event.room.inj hn
      omega
    · have hself := put_self w i (Server.settle linger mem (.returned d .completed))
      cases linger with
      | true => exact .inr ⟨_, hself⟩
      | false => exact .inl hself

theorem serving_rests {p : Prog σ (Option HttpResponse)} {d : Reader}
    (h : Conducted server sessions s B events w) (hconn : w.conns i = .serving d p) :
    Leads server sessions s B i events fun later => AtRest i later events := by
  induction p generalizing events w with
  | done response =>
    obtain ⟨moves, c, hmoves, htracks⟩ := h.tracks hB hshort
    have hstage := htracks.stage i
    rw [hconn] at hstage
    have hsame : heard i (events ++ [(i, Event.worked)]) = heard i events := by
      rw [heard_append]
      exact List.append_nil _
    cases hstage with
    | serving past x rest hsession hheard hthreads hsent hlinger hreal =>
      have hle := short_owned hshort hmoves htracks i x response d.linger
        (by simp [hthreads])
      have hanswer := @answer_sending _ server d response hreal
        (toCInt_reply (Nat.lt_of_le_of_lt hle hB))
      have hfire : server.fire w (i, .worked) = some (w.put i (server.answer .apiResponse
          { d with apiResponse := replyText d.linger response })) := by
        unfold Server.fire
        simp only [hconn]
      rw [hanswer] at hfire
      have hlead : Leads server sessions s B i events fun later w' =>
          heard i later = heard i events ∧ ∃ linger mem phase,
            w'.conns i = .sending linger mem phase :=
        leads_one h hfire (by rw [hsame]; exact h.client i) nofun ⟨hsame, _, _, _, put_self w i _⟩
      refine hlead.trans fun later w' hrun hat => ?_
      obtain ⟨hheard', linger, mem, phase, hsending⟩ := hat
      have hrests := sending_rests hB hshort hrun hsending
      obtain ⟨more, w'', hmore, hrun', hrest⟩ := hrests
      exact ⟨more, w'', hmore, hrun', hrest.1.trans hheard', hrest.2⟩
  | act f next ih =>
    have hsame : heard i (events ++ [(i, Event.worked)]) = heard i events := by
      rw [heard_append]
      exact List.append_nil _
    have hfire : server.fire w (i, .worked) =
        some { w.put i (.serving d (next (f w.store).1)) with store := (f w.store).2 } := by
      unfold Server.fire
      simp only [hconn]
    have hlead : Leads server sessions s B i events fun later w' =>
        heard i later = heard i events ∧ w'.conns i = .serving d (next (f w.store).1) :=
      leads_one h hfire (by rw [hsame]; exact h.client i) nofun ⟨hsame, put_self w i _⟩
    refine hlead.trans fun later w' hrun hat => ?_
    obtain ⟨more, w'', hmore, hrun', hrest⟩ := ih _ hrun hat.2
    exact ⟨more, w'', hmore, hrun', hrest.1.trans hat.1, hrest.2⟩

/-- What is asked is answered. -/
theorem rests (h : Conducted server sessions s B events w) :
    Leads server sessions s B i events fun later => AtRest i later events := by
  obtain ⟨moves, c, hmoves, htracks⟩ := h.tracks hB hshort
  have hstage := htracks.stage i
  cases hconn : w.conns i with
  | reading c => exact leads_self h ⟨rfl, .inr ⟨c, hconn⟩⟩
  | serving c p => exact serving_rests hB hshort h hconn
  | sending linger mem phase => exact sending_rests hB hshort h hconn
  | crashed =>
    rw [hconn] at hstage
    cases hstage
  | closed => exact leads_self h ⟨rfl, .inl hconn⟩

/-- Everything that a client may still send is answered. -/
theorem goes_on (hkeep : ∀ x ∈ (sessions i).dropLast, x.request.keepAlive = true)
    (h : Conducted server sessions s B events w) :
    Leads server sessions s B i events fun _ w' => ∃ past : List Answered,
      past.map Prod.fst = sessions i ∧ w'.sent i = past.flatMap Answered.bytes := by
  induction hleft : ((sessions i).flatMap Exchange.chunks).length - (heard i events).length using
    Nat.strongRecOn generalizing events w with
  | _ left ih =>
    refine (rests hB hshort h).trans fun later w' hrun hat => ?_
    obtain ⟨hsame, hrest⟩ := hat
    obtain ⟨moves, c, hmoves, htracks⟩ := hrun.tracks hB hshort
    have hstage := htracks.stage i
    rcases hrest with hclosed | ⟨d, hreading⟩
    · rw [hclosed] at hstage
      cases hstage with
      | closed past rest hsession hheard hthreads hsent hlast =>
        obtain ⟨front, a, rfl, hend⟩ := hlast
        have hnil : rest = [] := by
          by_contra hne
          have hmem : a.1 ∈ (sessions i).dropLast := by
            rw [hsession, List.dropLast_append_of_ne_nil hne]
            simp
          rw [hkeep _ hmem] at hend
          cases hend
        refine leads_self hrun ⟨_, ?_, hsent⟩
        rw [hsession, hnil, List.append_nil]
    · rw [hreading] at hstage
      rcases hstage.next with hdone | ⟨chunk, hne, hfits, hchunk⟩
      · obtain ⟨past, hpast, hsent⟩ := hdone
        exact leads_self hrun ⟨past, hpast, hsent⟩
      · have hheard : heard i (later ++ [(i, Event.received chunk)]) =
            heard i later ++ [chunk] := by
          rw [heard_append]
          simp [heard]
        have hfire : server.fire w' (i, .received chunk) =
            some (w'.put i (server.process (d.receive chunk))) := by
          unfold Server.fire
          simp only [hreading]
          rw [if_neg]
          rintro (hnil | hfull)
          · exact hne hnil
          · omega
        have hone : Leads server sessions s B i later fun after _ =>
            heard i after = heard i later ++ [chunk] :=
          leads_one hrun hfire (by rw [hheard]; exact hchunk) nofun hheard
        refine hone.trans fun after w'' hrun' hafter => ?_
        have hlength := hchunk.length_le
        rw [List.length_append, List.length_singleton] at hlength
        refine ih _ ?_ hrun' rfl
        rw [hafter, ← hleft, ← hsame, List.length_append, List.length_singleton]
        omega

end Progress

/-! ## Workers -/

/-- In the middle of a handler, which keeps a worker of the pool until it returns. -/
def Conn.working : Conn σ → Bool
  | .serving _ _ => true
  | _ => false

/-- There is a worker for every handler that has started. -/
def Staffed (workers : ℕ) (w : World σ ι) : Prop :=
  ∃ busy : Finset ι, busy.card ≤ workers ∧ ∀ j, (w.conns j).working = true → j ∈ busy

/-- The other connections leave a worker to this one. -/
def WorkerFor (workers : ℕ) (w : World σ ι) (i : ι) : Prop :=
  ∃ busy : Finset ι, busy.card < workers ∧ ∀ j, j ≠ i → (w.conns j).working = true → j ∈ busy

section Workers

variable {i j : ι} {w w' : World σ ι} {workers : ℕ}

theorem WorkerFor.staffed (h : WorkerFor workers w i)
    (hothers : ∀ j, j ≠ i → w'.conns j = w.conns j) : Staffed workers w' := by
  obtain ⟨busy, hcard, hbusy⟩ := h
  refine ⟨insert i busy, (Finset.card_insert_le i busy).trans hcard, fun j hj => ?_⟩
  by_cases hji : j = i
  · exact Finset.mem_insert.mpr (.inl hji)
  · rw [hothers j hji] at hj
    exact Finset.mem_insert_of_mem (hbusy j hji hj)

/-- An event leaves the other connections alone. -/
theorem fire_other {e : Event} (hfire : server.fire w (i, e) = some w') (hj : j ≠ i) :
    w'.conns j = w.conns j := by
  have hput : ∀ c, (w.put i c).conns j = w.conns j := fun c => Function.update_of_ne hj _ _
  unfold Server.fire at hfire
  cases e with
  | received chunk =>
    dsimp only at hfire
    split at hfire
    · split at hfire
      · cases hfire
      · obtain rfl := Option.some.inj hfire
        exact hput _
    · cases hfire
  | worked =>
    dsimp only at hfire
    split at hfire
    · obtain rfl := Option.some.inj hfire
      exact hput _
    · obtain rfl := Option.some.inj hfire
      exact hput _
    · cases hfire
  | room n =>
    dsimp only at hfire
    split at hfire
    · obtain rfl := Option.some.inj hfire
      exact hput _
    · cases hfire

theorem execute_other {events : List (ι × Event)} (hown : ∀ e ∈ events, e.1 = i)
    (hexec : server.execute w events = some w') (hj : j ≠ i) : w'.conns j = w.conns j := by
  induction events generalizing w with
  | nil =>
    obtain rfl := Option.some.inj hexec
    rfl
  | cons e events ih =>
    obtain ⟨w₁, hfire, hrest⟩ := Option.bind_eq_some_iff.mp hexec
    obtain ⟨rfl, hown'⟩ := List.forall_mem_cons.mp hown
    exact (ih hown' hrest).trans (fire_other hfire hj)

end Workers

end Running

/-! ## Answers that are always short -/

/-- The threads of a client are those of its session. -/
theorem asked_mem {ι : Type} [DecidableEq ι] {sessions : ι → List Exchange}
    {threads : List (Thread (ι × Exchange) σ (Option HttpResponse))}
    (h : ∀ i, (owned i threads).map Prod.fst <+: sessions i) :
    ∀ t ∈ threads, t.request.2 ∈ sessions t.request.1 := by
  intro t ht
  refine (h t.request.1).subset (List.mem_map.mpr ⟨(t.request.2, t.prog), ?_, rfl⟩)
  exact List.mem_map_of_mem (List.mem_filter.mpr ⟨ht, decide_eq_true rfl⟩)

theorem shortReplies_of_guarded {ι : Type} [DecidableEq ι] {server : Server σ}
    {sessions : ι → List Exchange} {s : σ} {B : ℕ} {I : σ → Prop} (hs : I s)
    (h : ∀ i, ∀ x ∈ sessions i, Guarded I (fun response => ∀ linger,
      (replyText linger response).length ≤ B) (server.dispatch x.request.asked)) :
    ShortReplies server sessions s B := by
  intro moves c hmoves hasked t ht response linger hprog
  have hthread := (guarded_execute hs hmoves fun t ht => h _ _ (asked_mem hasked t ht)).2 t ht
  rw [hprog] at hthread
  cases hthread with
  | done hle => exact hle linger

/-! ## Two clients -/

/-- A server that counts its requests and knows no route. -/
def counting : Server ℕ :=
  ⟨bareEnv, fun _ => none, fun _ _ => 0, fun _ => .act (fun n => ((), n + 1)) fun _ => .done none⟩

theorem counting_short (sessions : Bool → List Exchange) : ShortReplies counting sessions 0 4096 :=
  shortReplies_of_guarded (I := fun _ => True) trivial fun _ _ _ =>
    .act (fun _ _ => trivial) fun _ _ => .done (by decide +kernel)

/-- `GET /api/books` on a connection that is kept. -/
def browse : Request where
  requestLine := ascii "GET /api/books HTTP/1.1"
  headers := [ascii "Connection: keep-alive"]
  body := []
  plain := LineReading.plainLine_of_all (by decide)
  accepted := by decide
  header := by
    intro line hmem
    obtain rfl := List.mem_singleton.mp hmem
    exact ⟨LineReading.plainLine_of_all (by decide), by decide, fun h => absurd (by decide) h⟩
  length := by decide
  fits := by decide

/-- The request in two chunks, the second from the middle of the header line on. -/
def browsing : Exchange :=
  .cutInHead browse [browse.bytes.take 40] (browse.bytes.drop 40) (by decide) (by decide)
    (by decide) (by decide)

/-- Two clients whose requests overlap. -/
def overlapping : List (Bool × Event) :=
  [(false, .received (browse.bytes.take 40)), (true, .received (browse.bytes.take 40)),
    (true, .received (browse.bytes.drop 40)), (false, .received (browse.bytes.drop 40)),
    (false, .worked), (true, .worked), (true, .worked), (true, .room 0), (false, .worked),
    (true, .room 4096), (false, .room 4096)]

theorem overlapping_runs :
    (counting.execute (World.start 0 : World ℕ Bool) overlapping).isSome = true := by
  decide +kernel

theorem overlapping_conducted : Conducted counting (fun _ : Bool => [browsing]) 0 4096 overlapping
    ((counting.execute (World.start 0 : World ℕ Bool) overlapping).get overlapping_runs) where
  exec := (Option.some_get _).symm
  client i := by
    cases i <;> exact ⟨[], by decide⟩
  kernel i n hmem := by
    simp only [overlapping, List.mem_cons, Prod.mk.injEq, reduceCtorEq, and_false, false_or,
      Event.room.injEq, List.not_mem_nil, or_false] at hmem
    omega

theorem overlapping_served : ∃ moves c,
    Interleaving.execute counting.program ⟨0, []⟩ moves = some c ∧ c.state =
      ((counting.execute (World.start 0 : World ℕ Bool) overlapping).get overlapping_runs).store ∧
    ∀ i, Served [browsing] (owned i c.threads)
      (((counting.execute (World.start 0 : World ℕ Bool) overlapping).get overlapping_runs).sent i) :=
  sessions_served (by decide) (counting_short _) overlapping_conducted

/-- The first half of it: both requests are in the hands of a worker, one handler has
worked already. -/
def midway : List (Bool × Event) := overlapping.take 5

theorem midway_runs :
    (counting.execute (World.start 0 : World ℕ Bool) midway).isSome = true := by
  decide +kernel

theorem midway_conducted : Conducted counting (fun _ : Bool => [browsing, browsing]) 0 4096 midway
    ((counting.execute (World.start 0 : World ℕ Bool) midway).get midway_runs) where
  exec := (Option.some_get _).symm
  client i := by
    cases i <;> exact ⟨browsing.chunks, by decide⟩
  kernel i n hmem := by
    simp [midway, overlapping] at hmem

end Bookstore.Sessions
