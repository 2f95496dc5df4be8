import Mathlib.Data.Finset.Basic
import Mathlib.Logic.Function.Basic

/-!
Who is responsible for an open connection: epoll, where it is registered with
EPOLLONESHOT, the event loop, the work queue or a worker. The event loop and the
workers of the pool take their steps in any order; a step ends where another
thread can see what it did.
-/
namespace Bookstore.EpollArming

inductive ActorModel
  | proactor
  | reactor
deriving DecidableEq

/-- What epoll_wait reports of a connection, as the event loop looks at it. -/
inductive Ready
  | hangup
  | readable
  | writable
deriving DecidableEq

/-- How HttpConn::write ends: nothing to send, the socket full, an error, or all
sent on a connection that is kept or not. -/
inductive WriteEnd
  | empty
  | again
  | error
  | sent (linger : Bool)
deriving DecidableEq

/-- Whether write() re-arms the connection. -/
def WriteEnd.rearms : WriteEnd → Bool
  | .error => false
  | _ => true

/-- What write() returns. -/
def WriteEnd.result : WriteEnd → Bool
  | .error | .sent false => false
  | _ => true

/-- Whether write() calls reset_state. -/
def WriteEnd.resets : WriteEnd → Bool
  | .empty | .sent true => true
  | _ => false

/-- How HttpConn::process ends. -/
inductive ProcessEnd
  | noRequest
  | responded
  | failed
deriving DecidableEq

/-- What a worker does for a connection: it has taken it from the queue, it is
in process(), or it has stored improv and not yet timer_flag. -/
inductive Worker
  | idle
  | taken (fd : ℕ)
  | processing (fd : ℕ)
  | flagging (fd : ℕ)
deriving DecidableEq

inductive Phase
  | running
  | waiting (fd : ℕ)
deriving DecidableEq

/-- `pending` are the reported events that are not handled yet; `forWrite` is
m_state of the connections. -/
structure State where
  connected : Finset ℕ
  armed : ℕ → Bool
  pending : List (ℕ × Ready)
  phase : Phase
  queue : List ℕ
  forWrite : ℕ → Bool
  improv : ℕ → Bool
  timerFlag : ℕ → Bool
  workers : ℕ → Worker

def State.start : State where
  connected := ∅
  armed := fun _ => false
  pending := []
  phase := .running
  queue := []
  forWrite := fun _ => false
  improv := fun _ => false
  timerFlag := fun _ => false
  workers := fun _ => .idle

/-- The steps of the event loop and, from `take` on, of the worker `i`. -/
inductive Step
  | wait (batch : List (ℕ × Ready))
  | accept (fd : ℕ)
  | handle (readOnce : Bool) (write : WriteEnd)
  | wake
  | tick (expired : List ℕ)
  | take (i : ℕ)
  | io (i : ℕ) (readOnce : Bool) (write : WriteEnd)
  | flag (i : ℕ)
  | process (i : ℕ) (result : ProcessEnd)

namespace State

/-- mod_fd: only a registered descriptor can be armed. -/
def modFd (fd : ℕ) (s : State) : State :=
  if fd ∈ s.connected then { s with armed := Function.update s.armed fd true } else s

/-- EPOLL_CTL_DEL and close. -/
def closeFd (fd : ℕ) (s : State) : State :=
  { s with
    connected := s.connected.erase fd
    armed := Function.update s.armed fd false }

def resetState (fd : ℕ) (s : State) : State :=
  { s with
    forWrite := Function.update s.forWrite fd false
    improv := Function.update s.improv fd false
    timerFlag := Function.update s.timerFlag fd false }

/-- HttpConn::write. -/
def write (fd : ℕ) (result : WriteEnd) (s : State) : State :=
  let rearmed := if result.rearms then s.modFd fd else s
  if result.resets then rearmed.resetState fd else rearmed

section Pool

variable (maxRequests : ℕ)

def append (fd : ℕ) (forWrite : Bool) (s : State) : State :=
  if maxRequests ≤ s.queue.length then s
  else
    { s with
      forWrite := Function.update s.forWrite fd forWrite
      queue := s.queue ++ [fd] }

def appendP (fd : ℕ) (s : State) : State :=
  if maxRequests ≤ s.queue.length then s else { s with queue := s.queue ++ [fd] }

def dealwithread (model : ActorModel) (fd : ℕ) (readOnce : Bool) (s : State) : State :=
  match model with
  | .reactor => { s.append maxRequests fd false with phase := .waiting fd }
  | .proactor => if readOnce then s.appendP maxRequests fd else s.closeFd fd

def dealwithwrite (model : ActorModel) (fd : ℕ) (result : WriteEnd) (s : State) : State :=
  match model with
  | .reactor => { s.append maxRequests fd true with phase := .waiting fd }
  | .proactor =>
    if result.result then s.write fd result else (s.write fd result).closeFd fd

/-- The first reported event that is not handled yet. -/
def handleNext (model : ActorModel) (readOnce : Bool) (result : WriteEnd) (s : State) : State :=
  match s.pending with
  | [] => s
  | (fd, .hangup) :: rest => { s with pending := rest }.closeFd fd
  | (fd, .readable) :: rest =>
    { s with pending := rest }.dealwithread maxRequests model fd readOnce
  | (fd, .writable) :: rest =>
    { s with pending := rest }.dealwithwrite maxRequests model fd result

end Pool

/-- wait_improv has seen improv; it reads timer_flag. -/
def wakeUp (s : State) : State :=
  match s.phase with
  | .running => s
  | .waiting fd =>
    let closed :=
      if s.timerFlag fd then
        { s.closeFd fd with timerFlag := Function.update s.timerFlag fd false }
      else s
    { closed with
      phase := .running
      improv := Function.update s.improv fd false }

def setWorker (i : ℕ) (worker : Worker) (s : State) : State :=
  { s with workers := Function.update s.workers i worker }

def setImprov (fd : ℕ) (s : State) : State :=
  { s with improv := Function.update s.improv fd true }

def takeFront (model : ActorModel) (i : ℕ) (s : State) : State :=
  match s.queue with
  | [] => s
  | fd :: rest =>
    { s with queue := rest }.setWorker i
      (match model with
        | .reactor => .taken fd
        | .proactor => .processing fd)

/-- The dispatcher of the reactor model, up to the store of improv. -/
def doIo (i : ℕ) (readOnce : Bool) (result : WriteEnd) (s : State) : State :=
  match s.workers i with
  | .taken fd =>
    if s.forWrite fd = false then
      if readOnce then (s.setImprov fd).setWorker i (.processing fd)
      else (s.setImprov fd).setWorker i (.flagging fd)
    else if result.result then ((s.write fd result).setImprov fd).setWorker i .idle
    else ((s.write fd result).setImprov fd).setWorker i (.flagging fd)
  | _ => s

def storeFlag (i : ℕ) (s : State) : State :=
  match s.workers i with
  | .flagging fd =>
    { s with timerFlag := Function.update s.timerFlag fd true }.setWorker i .idle
  | _ => s

def finish (i : ℕ) (result : ProcessEnd) (s : State) : State :=
  match s.workers i with
  | .processing fd =>
    match result with
    | .noRequest | .responded => (s.modFd fd).setWorker i .idle
    | .failed => (s.closeFd fd).setWorker i .idle
  | _ => s

end State

section Runs

variable (model : ActorModel) (threads maxRequests : ℕ)

def perform (s : State) : Step → State
  | .wait batch =>
    { s with
      pending := batch
      armed := fun fd => s.armed fd && !(batch.any fun event => event.1 = fd) }
  | .accept fd =>
    { s.resetState fd with
      connected := insert fd s.connected
      armed := Function.update s.armed fd true }
  | .handle readOnce result => s.handleNext maxRequests model readOnce result
  | .wake => s.wakeUp
  | .tick expired => expired.foldl (fun s fd => s.closeFd fd) s
  | .take i => s.takeFront model i
  | .io i readOnce result => s.doIo i readOnce result
  | .flag i => s.storeFlag i
  | .process i result => s.finish i result

/-- When a step can be taken: epoll reports armed connections, accept returns a
descriptor that is not open, the event loop waits for improv, a worker waits for
the queue. -/
def CanStep (s : State) : Step → Prop
  | .wait batch => s.phase = .running ∧ s.pending = [] ∧ (batch.map Prod.fst).Nodup ∧
      ∀ event ∈ batch, event.1 ∈ s.connected ∧ s.armed event.1 = true
  | .accept fd => s.phase = .running ∧ fd ∉ s.connected
  | .handle _ _ => s.phase = .running ∧ s.pending ≠ []
  | .wake => ∃ fd, s.phase = .waiting fd ∧ s.improv fd = true
  | .tick _ => s.phase = .running ∧ s.pending = []
  | .take i => i < threads ∧ s.workers i = .idle ∧ s.queue ≠ []
  | .io i _ _ => model = .reactor ∧ i < threads ∧ ∃ fd, s.workers i = .taken fd
  | .flag i => i < threads ∧ ∃ fd, s.workers i = .flagging fd
  | .process i _ => i < threads ∧ ∃ fd, s.workers i = .processing fd

def performAll (s : State) (steps : List Step) : State :=
  steps.foldl (perform model maxRequests) s

/-- Each step of a run meets `P` in the state it finds. -/
def Always (P : State → Step → Prop) : State → List Step → Prop
  | _, [] => True
  | s, step :: rest => P s step ∧ Always P (perform model maxRequests s step) rest

end Runs

/-- The connection a worker has taken or processes. -/
def Worker.serves : Worker → Option ℕ
  | .taken fd | .processing fd => some fd
  | _ => none

/-- Each open connection is armed, in the work queue or with a worker. -/
def Attended (s : State) : Prop :=
  ∀ fd ∈ s.connected, s.armed fd = true ∨ fd ∈ s.queue ∨ ∃ i, (s.workers i).serves = some fd

/-- In the proactor model a connection is read while the queue is full, or in
the reactor model wait_improv reads timer_flag between the two stores of the
worker. -/
def Careless (model : ActorModel) (maxRequests : ℕ) (s : State) : Step → Prop
  | .handle readOnce _ => model = .proactor ∧ readOnce = true ∧ maxRequests ≤ s.queue.length ∧
      ∃ fd ∈ s.connected, s.pending.head? = some (fd, .readable)
  | .wake => ∃ fd, s.phase = .waiting fd ∧ s.timerFlag fd = false ∧
      ∃ i, s.workers i = .flagging fd
  | _ => False

/-! ## What the steps keep -/

/-- A connection has someone responsible for it. -/
def Covered (s : State) (fd : ℕ) : Prop :=
  s.armed fd = true ∨ fd ∈ s.pending.map Prod.fst ∨ fd ∈ s.queue ∨
    (∃ i, (s.workers i).serves = some fd) ∨
    s.phase = .waiting fd ∧ ((∃ i, s.workers i = .flagging fd) ∨ s.timerFlag fd = true)

/-- The event loop of the reactor model hands over one connection at a time: it
is in the queue, with a worker, or its improv is set. -/
inductive Handover (s : State) : Prop
  | running (phase : s.phase = .running) (queue : s.queue = [])
      (taken : ∀ i fd, s.workers i ≠ .taken fd) (improv : ∀ fd, s.improv fd = false)
  | queued (fd : ℕ) (phase : s.phase = .waiting fd) (queue : s.queue = [fd])
      (taken : ∀ i fd', s.workers i ≠ .taken fd') (improv : ∀ fd', s.improv fd' = false)
  | taken (fd i : ℕ) (phase : s.phase = .waiting fd) (queue : s.queue = [])
      (here : s.workers i = .taken fd) (taken : ∀ j fd', s.workers j = .taken fd' → j = i)
      (improv : ∀ fd', s.improv fd' = false)
  | done (fd : ℕ) (phase : s.phase = .waiting fd) (queue : s.queue = [])
      (taken : ∀ i fd', s.workers i ≠ .taken fd') (improv : ∀ fd', fd' ≠ fd → s.improv fd' = false)

structure Inv (model : ActorModel) (s : State) : Prop where
  covered : ∀ fd ∈ s.connected, Covered s fd
  handover : model = .reactor → Handover s

theorem inv_start (model : ActorModel) : Inv model .start where
  covered fd h := by cases h
  handover _ := .running rfl rfl (fun _ _ => nofun) fun _ => rfl

theorem attended_of_inv {model : ActorModel} {s : State} (h : Inv model s)
    (hphase : s.phase = .running) (hpending : s.pending = []) : Attended s := by
  intro fd hfd
  rcases h.covered fd hfd with harmed | hpend | hqueue | hserved | ⟨hwaiting, _⟩
  · exact .inl harmed
  · rw [hpending] at hpend
    cases hpend
  · exact .inr (.inl hqueue)
  · exact .inr (.inr hserved)
  · rw [hphase] at hwaiting
    cases hwaiting

section Steps

variable {model : ActorModel} {threads maxRequests : ℕ} {s : State}

/-- The part of the responsibility that does not lie with the event loop. -/
def Settled (s : State) (fd : ℕ) : Prop :=
  s.armed fd = true ∨ fd ∈ s.pending.map Prod.fst ∨ fd ∈ s.queue ∨
    ∃ i, (s.workers i).serves = some fd

theorem Settled.covered {fd : ℕ} (h : Settled s fd) : Covered s fd := by
  rcases h with h | h | h | h
  · exact .inl h
  · exact .inr (.inl h)
  · exact .inr (.inr (.inl h))
  · exact .inr (.inr (.inr (.inl h)))

/-- While the event loop does not wait for a connection, it is settled. -/
theorem Covered.settled {fd : ℕ} (h : Covered s fd) (hphase : s.phase ≠ .waiting fd) :
    Settled s fd := by
  rcases h with h | h | h | h | ⟨h, _⟩
  · exact .inl h
  · exact .inr (.inl h)
  · exact .inr (.inr (.inl h))
  · exact .inr (.inr (.inr h))
  · exact absurd h hphase

theorem Settled.mono {t : State} {fd : ℕ} (h : Settled s fd)
    (harmed : s.armed fd = true → t.armed fd = true)
    (hpending : fd ∈ s.pending.map Prod.fst → fd ∈ t.pending.map Prod.fst)
    (hqueue : fd ∈ s.queue → fd ∈ t.queue)
    (hserved : ∀ i, (s.workers i).serves = some fd → (t.workers i).serves = some fd) :
    Settled t fd := by
  rcases h with h | h | h | ⟨i, h⟩
  · exact .inl (harmed h)
  · exact .inr (.inl (hpending h))
  · exact .inr (.inr (.inl (hqueue h)))
  · exact .inr (.inr (.inr ⟨i, hserved i h⟩))

/-- Every open connection is settled but, at most, this one. -/
def SettledBut (s : State) (fd : ℕ) : Prop := ∀ fd' ∈ s.connected, fd' ≠ fd → Settled s fd'

theorem SettledBut.settled {fd : ℕ} (h : SettledBut s fd)
    (hfd : fd ∈ s.connected → Settled s fd) : ∀ fd' ∈ s.connected, Settled s fd' := by
  intro fd' hmem
  by_cases hsame : fd' = fd
  · rw [hsame] at hmem ⊢
    exact hfd hmem
  · exact h fd' hmem hsame

theorem Settled.closeFd {fd fd' : ℕ} (h : fd' ≠ fd → Settled s fd')
    (hmem : fd' ∈ (s.closeFd fd).connected) : Settled (s.closeFd fd) fd' := by
  have hne := (Finset.mem_erase.mp hmem).1
  exact (h hne).mono (fun harmed => (Function.update_of_ne hne ..).trans harmed) id id fun _ => id

theorem Settled.modFd {fd fd' : ℕ} (h : fd' ≠ fd → Settled s fd') (hmem : fd' ∈ s.connected) :
    Settled (s.modFd fd) fd' := by
  unfold State.modFd
  by_cases hfd : fd ∈ s.connected
  · rw [if_pos hfd]
    by_cases hsame : fd' = fd
    · rw [hsame]
      exact .inl (Function.update_self ..)
    · exact (h hsame).mono (fun harmed => (Function.update_of_ne hsame ..).trans harmed) id id
        fun _ => id
  · rw [if_neg hfd]
    exact h fun hsame => hfd (hsame ▸ hmem)

theorem modFd_connected (fd : ℕ) (s : State) : (s.modFd fd).connected = s.connected := by
  unfold State.modFd
  split
  · rfl
  · rfl

theorem SettledBut.closeFd {fd : ℕ} (h : SettledBut s fd) :
    ∀ fd' ∈ (s.closeFd fd).connected, Settled (s.closeFd fd) fd' := by
  intro fd' hmem
  exact Settled.closeFd (h fd' (Finset.mem_of_mem_erase hmem)) hmem

theorem SettledBut.modFd {fd : ℕ} (h : SettledBut s fd) :
    ∀ fd' ∈ (s.modFd fd).connected, Settled (s.modFd fd) fd' := by
  intro fd' hmem
  rw [modFd_connected] at hmem
  exact Settled.modFd (h fd' hmem) hmem

theorem SettledBut.write {fd : ℕ} (h : SettledBut s fd) (result : WriteEnd) :
    SettledBut (s.write fd result) fd ∧
      (result.rearms = true → ∀ fd' ∈ (s.write fd result).connected,
        Settled (s.write fd result) fd') := by
  have hall : result.rearms = true → ∀ fd' ∈ (s.write fd result).connected,
      Settled (s.write fd result) fd' := by
    intro hrearms
    simp only [State.write, hrearms, if_true]
    split
    · exact h.modFd
    · exact h.modFd
  refine ⟨?_, hall⟩
  cases hrearms : result.rearms with
  | true => exact fun fd' hmem _ => hall hrearms fd' hmem
  | false =>
    have hresets : result.resets = false := by
      cases result with
      | empty => cases hrearms
      | again => cases hrearms
      | error => rfl
      | sent linger => cases hrearms
    simp only [State.write, hrearms, hresets, Bool.false_eq_true, if_false]
    exact h

/-- The first reported event is taken from the list. -/
theorem settledBut_pending {fd : ℕ} {ready : Ready} {rest : List (ℕ × Ready)}
    (h : ∀ fd' ∈ s.connected, Settled s fd') (hpending : s.pending = (fd, ready) :: rest) :
    SettledBut { s with pending := rest } fd := by
  intro fd' hmem hne
  refine (h fd' hmem).mono id (fun hin => ?_) id fun _ => id
  rw [hpending, List.map_cons, List.mem_cons] at hin
  exact hin.resolve_left hne

theorem covered_of_settled (h : ∀ fd ∈ s.connected, Settled s fd) :
    ∀ fd ∈ s.connected, Covered s fd := fun fd hfd => (h fd hfd).covered

/-- While the event loop runs every open connection is settled. -/
theorem Inv.settled (h : Inv model s) (hphase : s.phase = .running) :
    ∀ fd ∈ s.connected, Settled s fd := by
  intro fd hfd
  apply (h.covered fd hfd).settled
  rw [hphase]
  exact nofun

theorem Handover.congr {t : State} (h : Handover s) (hphase : t.phase = s.phase)
    (hqueue : t.queue = s.queue) (himprov : t.improv = s.improv)
    (htaken : ∀ i fd, t.workers i = .taken fd ↔ s.workers i = .taken fd) : Handover t := by
  cases h with
  | running phase queue taken improv =>
    exact .running (hphase.trans phase) (hqueue.trans queue)
      (fun i fd hi => taken i fd ((htaken i fd).mp hi)) (himprov ▸ improv)
  | queued fd phase queue taken improv =>
    exact .queued fd (hphase.trans phase) (hqueue.trans queue)
      (fun i fd hi => taken i fd ((htaken i fd).mp hi)) (himprov ▸ improv)
  | taken fd i phase queue here taken improv =>
    exact .taken fd i (hphase.trans phase) (hqueue.trans queue) ((htaken i fd).mpr here)
      (fun j fd' hj => taken j fd' ((htaken j fd').mp hj)) (himprov ▸ improv)
  | done fd phase queue taken improv =>
    exact .done fd (hphase.trans phase) (hqueue.trans queue)
      (fun i fd hi => taken i fd ((htaken i fd).mp hi)) (himprov ▸ improv)

/-- While the event loop runs nothing has been handed over. -/
theorem Handover.of_running (h : Handover s) (hphase : s.phase = .running) :
    s.queue = [] ∧ (∀ i fd, s.workers i ≠ .taken fd) ∧ ∀ fd, s.improv fd = false := by
  cases h with
  | running _ queue taken improv => exact ⟨queue, taken, improv⟩
  | queued fd phase =>
    rw [hphase] at phase
    cases phase
  | taken fd i phase =>
    rw [hphase] at phase
    cases phase
  | done fd phase =>
    rw [hphase] at phase
    cases phase

/-! ## The steps of the event loop -/

theorem wait_inv (h : Inv model s) {batch : List (ℕ × Ready)}
    (hcan : CanStep model threads s (.wait batch)) :
    Inv model (perform model maxRequests s (.wait batch)) := by
  obtain ⟨hphase, hpending, _, _⟩ := hcan
  refine ⟨covered_of_settled ?_, fun hreactor => ?_⟩
  · intro fd hfd
    rcases h.settled hphase fd hfd with harmed | hpend | hrest
    · by_cases hmem : fd ∈ batch.map Prod.fst
      · exact .inr (.inl hmem)
      · left
        have hnot : (batch.any fun event => event.1 = fd) = false := by
          rw [List.any_eq_false]
          intro event hevent heq
          exact hmem (List.mem_map.mpr ⟨event, hevent, of_decide_eq_true heq⟩)
        simp [perform, harmed, hnot]
    · rw [hpending] at hpend
      cases hpend
    · exact .inr (.inr hrest)
  · exact (h.handover hreactor).congr rfl rfl rfl fun _ _ => .rfl

theorem accept_inv (h : Inv model s) {fd : ℕ} (hcan : CanStep model threads s (.accept fd)) :
    Inv model (perform model maxRequests s (.accept fd)) := by
  obtain ⟨hphase, _⟩ := hcan
  refine ⟨covered_of_settled ?_, fun hreactor => ?_⟩
  · intro fd' hmem
    by_cases hsame : fd' = fd
    · rw [hsame]
      exact .inl (Function.update_self ..)
    · have hold := h.settled hphase fd' (Finset.mem_of_mem_insert_of_ne hmem hsame)
      exact hold.mono (fun harmed => (Function.update_of_ne hsame ..).trans harmed) id id
        fun _ => id
  · obtain ⟨hqueue, htaken, himprov⟩ := (h.handover hreactor).of_running hphase
    refine .running hphase hqueue htaken fun fd' => ?_
    by_cases hsame : fd' = fd
    · rw [hsame]
      exact Function.update_self ..
    · exact (Function.update_of_ne hsame ..).trans (himprov fd')

/-- In the reactor model the event is handed over; there is room in the queue. -/
theorem handOver_inv (h : Inv .reactor s) (hphase : s.phase = .running) (hmax : 0 < maxRequests)
    {fd : ℕ} {ready : Ready} {rest : List (ℕ × Ready)} (hpending : s.pending = (fd, ready) :: rest)
    (forWrite : Bool) :
    Inv .reactor { State.append maxRequests fd forWrite { s with pending := rest } with
      phase := .waiting fd } := by
  obtain ⟨hqueue, htaken, himprov⟩ := (h.handover rfl).of_running hphase
  have hroom : ¬ maxRequests ≤ s.queue.length := by
    rw [hqueue]
    exact Nat.not_le.mpr hmax
  have hbut := settledBut_pending (h.settled hphase) hpending
  refine ⟨covered_of_settled ?_, fun _ => ?_⟩
  · apply SettledBut.settled
    · intro fd' hmem hne
      simp only [State.append, hroom, if_false] at hmem ⊢
      exact (hbut fd' hmem hne).mono id id (fun hin => List.mem_append_left _ hin) fun _ => id
    · intro _
      refine .inr (.inr (.inl ?_))
      simp only [State.append, hroom, if_false]
      exact List.mem_append_right _ List.mem_cons_self
  · simp only [State.append, hroom, if_false]
    refine .queued fd rfl ?_ htaken himprov
    simp only [hqueue, List.nil_append]

theorem handle_inv (h : Inv model s) (hmax : 0 < maxRequests) {readOnce : Bool}
    {result : WriteEnd} (hcan : CanStep model threads s (.handle readOnce result))
    (hcare : ¬ Careless model maxRequests s (.handle readOnce result)) :
    Inv model (perform model maxRequests s (.handle readOnce result)) := by
  obtain ⟨hphase, hpending⟩ := hcan
  have hsettled := h.settled hphase
  obtain ⟨⟨fd, ready⟩, rest, hevents⟩ := List.exists_cons_of_ne_nil hpending
  have hbut := settledBut_pending hsettled hevents
  have hrunning : model = .reactor → Handover { s with pending := rest } :=
    fun hreactor => (h.handover hreactor).congr rfl rfl rfl fun _ _ => .rfl
  cases ready with
  | hangup =>
    simp only [perform, State.handleNext, hevents]
    refine ⟨covered_of_settled hbut.closeFd, fun hreactor => ?_⟩
    exact (hrunning hreactor).congr rfl rfl rfl fun _ _ => .rfl
  | readable =>
    simp only [perform, State.handleNext, hevents]
    cases model with
    | reactor => exact handOver_inv h hphase hmax hevents false
    | proactor =>
      refine ⟨covered_of_settled ?_, nofun⟩
      cases readOnce with
      | false => exact hbut.closeFd
      | true =>
        simp only [State.dealwithread, if_true, State.appendP]
        by_cases hfull : maxRequests ≤ s.queue.length
        · rw [if_pos hfull]
          apply hbut.settled
          intro hfd
          exact absurd ⟨rfl, rfl, hfull, fd, hfd, by rw [hevents]; rfl⟩ hcare
        · rw [if_neg hfull]
          apply SettledBut.settled
          · intro fd' hmem hne
            exact (hbut fd' hmem hne).mono id id (fun hin => List.mem_append_left _ hin)
              fun _ => id
          · intro _
            exact .inr (.inr (.inl (List.mem_append_right _ List.mem_cons_self)))
  | writable =>
    simp only [perform, State.handleNext, hevents]
    cases model with
    | reactor => exact handOver_inv h hphase hmax hevents true
    | proactor =>
      refine ⟨covered_of_settled ?_, nofun⟩
      obtain ⟨hothers, hrearmed⟩ := hbut.write result
      simp only [State.dealwithwrite]
      cases hresult : result.result with
      | false => exact hothers.closeFd
      | true =>
        apply hrearmed
        cases result with
        | error => cases hresult
        | empty => rfl
        | again => rfl
        | sent linger => rfl

theorem wake_inv (h : Inv model s) (hcan : CanStep model threads s .wake)
    (hcare : ¬ Careless model maxRequests s .wake) :
    Inv model (perform model maxRequests s .wake) := by
  obtain ⟨fd, hphase, himprov⟩ := hcan
  have hothers : SettledBut s fd := by
    intro fd' hmem hne
    apply (h.covered fd' hmem).settled
    rw [hphase]
    exact fun heq => hne (Phase.waiting.inj heq).symm
  have hdone : model = .reactor → s.queue = [] ∧ (∀ i fd', s.workers i ≠ .taken fd') ∧
      ∀ fd', fd' ≠ fd → s.improv fd' = false := by
    intro hreactor
    cases h.handover hreactor with
    | running phase =>
      rw [hphase] at phase
      cases phase
    | queued _ _ _ _ improv =>
      rw [improv fd] at himprov
      cases himprov
    | taken _ _ _ _ _ _ improv =>
      rw [improv fd] at himprov
      cases himprov
    | done fd₁ phase queue taken improv =>
      rw [hphase] at phase
      exact ⟨queue, taken, fun fd' hne => improv fd' (Phase.waiting.inj phase ▸ hne)⟩
  have himprov' : model = .reactor → ∀ fd', Function.update s.improv fd false fd' = false := by
    intro hreactor fd'
    by_cases hsame : fd' = fd
    · rw [hsame, Function.update_self]
    · rw [Function.update_of_ne hsame]
      exact (hdone hreactor).2.2 fd' hsame
  cases hflag : s.timerFlag fd with
  | true =>
    simp only [perform, State.wakeUp, hphase, hflag, if_true]
    refine ⟨covered_of_settled hothers.closeFd, fun hreactor => ?_⟩
    exact .running rfl (hdone hreactor).1 (hdone hreactor).2.1 (himprov' hreactor)
  | false =>
    simp only [perform, State.wakeUp, hphase, hflag, Bool.false_eq_true, if_false]
    refine ⟨covered_of_settled (hothers.settled fun hfd => ?_), fun hreactor => ?_⟩
    · rcases h.covered fd hfd with hc | hc | hc | hc | ⟨_, hflagging | hset⟩
      · exact .inl hc
      · exact .inr (.inl hc)
      · exact .inr (.inr (.inl hc))
      · exact .inr (.inr (.inr hc))
      · exact absurd ⟨fd, hphase, hflag, hflagging⟩ hcare
      · rw [hflag] at hset
        cases hset
    · exact .running rfl (hdone hreactor).1 (hdone hreactor).2.1 (himprov' hreactor)

theorem foldl_closeFd (expired : List ℕ) (s : State) (h : ∀ fd ∈ s.connected, Settled s fd) :
    (∀ fd ∈ (expired.foldl (fun s fd => s.closeFd fd) s).connected,
      Settled (expired.foldl (fun s fd => s.closeFd fd) s) fd) ∧
      (expired.foldl (fun s fd => s.closeFd fd) s).phase = s.phase ∧
      (expired.foldl (fun s fd => s.closeFd fd) s).queue = s.queue ∧
      (expired.foldl (fun s fd => s.closeFd fd) s).improv = s.improv ∧
      (expired.foldl (fun s fd => s.closeFd fd) s).workers = s.workers := by
  induction expired generalizing s with
  | nil => exact ⟨h, rfl, rfl, rfl, rfl⟩
  | cons fd rest ih =>
    have hbut : SettledBut s fd := fun fd' hmem _ => h fd' hmem
    exact ih (s.closeFd fd) hbut.closeFd

theorem tick_inv (h : Inv model s) {expired : List ℕ}
    (hcan : CanStep model threads s (.tick expired)) :
    Inv model (perform model maxRequests s (.tick expired)) := by
  obtain ⟨hsettled, hphase, hqueue, himprov, hworkers⟩ :=
    foldl_closeFd expired s (h.settled hcan.1)
  refine ⟨covered_of_settled hsettled, fun hreactor => ?_⟩
  exact (h.handover hreactor).congr hphase hqueue himprov fun i fd => by rw [perform, hworkers]

/-! ## The steps of a worker -/

theorem setWorker_self (i : ℕ) (worker : Worker) : (s.setWorker i worker).workers i = worker :=
  Function.update_self ..

theorem setWorker_other {i j : ℕ} (hne : j ≠ i) (worker : Worker) :
    (s.setWorker i worker).workers j = s.workers j := Function.update_of_ne hne ..

/-- A worker turns to something else; what it served is no longer with it. -/
theorem Settled.setWorker {fd i : ℕ} (h : Settled s fd) (hserves : (s.workers i).serves ≠ some fd)
    (worker : Worker) : Settled (s.setWorker i worker) fd := by
  refine h.mono id id id fun j hj => ?_
  have hne : j ≠ i := fun heq => hserves (heq ▸ hj)
  exact (congrArg Worker.serves (Function.update_of_ne hne ..)).trans hj

theorem SettledBut.setWorker {fd i : ℕ} (h : SettledBut s fd)
    (hserves : ∀ fd', (s.workers i).serves = some fd' → fd' = fd) (worker : Worker) :
    SettledBut (s.setWorker i worker) fd := by
  intro fd' hmem hne
  exact (h fd' hmem hne).setWorker (fun heq => hne (hserves fd' heq)) worker

/-- A free worker takes the front of the queue. -/
theorem taken_covered (h : ∀ fd ∈ s.connected, Covered s fd) {i front : ℕ} {rest : List ℕ}
    (hidle : s.workers i = .idle) (hfront : s.queue = front :: rest) {worker : Worker}
    (hserves : worker.serves = some front) :
    ∀ fd ∈ s.connected, Covered ({ s with queue := rest }.setWorker i worker) fd := by
  have hself : (Function.update s.workers i worker) i = worker := Function.update_self ..
  have hother : ∀ j, s.workers j ≠ .idle → (Function.update s.workers i worker) j = s.workers j := by
    intro j hbusy
    apply Function.update_of_ne
    intro heq
    exact hbusy (heq.symm ▸ hidle)
  intro fd hfd
  rcases h fd hfd with hc | hc | hc | ⟨j, hc⟩ | ⟨hphase, hc⟩
  · exact .inl hc
  · exact .inr (.inl hc)
  · rw [hfront, List.mem_cons] at hc
    rcases hc with rfl | hin
    · exact .inr (.inr (.inr (.inl ⟨i, (congrArg Worker.serves hself).trans hserves⟩)))
    · exact .inr (.inr (.inl hin))
  · have hbusy : s.workers j ≠ .idle := by
      intro heq
      rw [heq] at hc
      cases hc
    exact .inr (.inr (.inr (.inl ⟨j, (congrArg Worker.serves (hother j hbusy)).trans hc⟩)))
  · refine .inr (.inr (.inr (.inr ⟨hphase, hc.imp_left ?_⟩)))
    intro ⟨j, hj⟩
    refine ⟨j, (hother j ?_).trans hj⟩
    rw [hj]
    exact nofun

theorem take_inv (h : Inv model s) {i : ℕ} (hcan : CanStep model threads s (.take i)) :
    Inv model (perform model maxRequests s (.take i)) := by
  obtain ⟨_, hidle, hqueue⟩ := hcan
  obtain ⟨front, rest, hfront⟩ := List.exists_cons_of_ne_nil hqueue
  simp only [perform, State.takeFront, hfront]
  cases model with
  | proactor => exact ⟨taken_covered h.covered hidle hfront rfl, nofun⟩
  | reactor =>
    refine ⟨taken_covered h.covered hidle hfront rfl, fun _ => ?_⟩
    cases h.handover rfl with
    | running _ queue => exact absurd queue hqueue
    | taken _ _ _ queue => exact absurd queue hqueue
    | done _ _ queue => exact absurd queue hqueue
    | queued fd phase queue taken improv =>
      rw [hfront] at queue
      obtain ⟨rfl, rfl⟩ := List.cons.inj queue
      refine .taken front i phase rfl (Function.update_self ..) ?_ improv
      intro j fd' hj
      by_contra hne
      exact taken j fd' ((Function.update_of_ne hne ..).symm.trans hj)

/-- The dispatcher of the reactor model works for the connection the event loop
waits for. -/
theorem Handover.of_taken (h : Handover s) {i fd : ℕ} (hi : s.workers i = .taken fd) :
    s.phase = .waiting fd ∧ s.queue = [] ∧ (∀ j fd', s.workers j = .taken fd' → j = i) ∧
      ∀ fd', s.improv fd' = false := by
  cases h with
  | running _ _ taken => exact absurd hi (taken i fd)
  | queued _ _ _ taken => exact absurd hi (taken i fd)
  | done _ _ _ taken => exact absurd hi (taken i fd)
  | taken fd₁ i₁ phase queue here taken improv =>
    obtain rfl := taken i fd hi
    rw [hi] at here
    obtain rfl := Worker.taken.inj here
    exact ⟨phase, queue, taken, improv⟩

theorem write_frame (fd : ℕ) (result : WriteEnd) :
    (s.write fd result).phase = s.phase ∧ (s.write fd result).queue = s.queue ∧
      (s.write fd result).workers = s.workers ∧
      ∀ fd', fd' ≠ fd → (s.write fd result).improv fd' = s.improv fd' := by
  have hmod : (s.modFd fd).phase = s.phase ∧ (s.modFd fd).queue = s.queue ∧
      (s.modFd fd).workers = s.workers ∧ (s.modFd fd).improv = s.improv := by
    unfold State.modFd
    split
    · exact ⟨rfl, rfl, rfl, rfl⟩
    · exact ⟨rfl, rfl, rfl, rfl⟩
  obtain ⟨hphase, hqueue, hworkers, himprov⟩ := hmod
  cases result with
  | error => exact ⟨rfl, rfl, rfl, fun _ _ => rfl⟩
  | again => exact ⟨hphase, hqueue, hworkers, fun fd' _ => congrFun himprov fd'⟩
  | empty =>
    refine ⟨hphase, hqueue, hworkers, fun fd' hne => ?_⟩
    exact (Function.update_of_ne hne ..).trans (congrFun himprov fd')
  | sent linger =>
    cases linger with
    | false => exact ⟨hphase, hqueue, hworkers, fun fd' _ => congrFun himprov fd'⟩
    | true =>
      refine ⟨hphase, hqueue, hworkers, fun fd' hne => ?_⟩
      exact (Function.update_of_ne hne ..).trans (congrFun himprov fd')

theorem modFd_setWorker (fd i : ℕ) (worker : Worker) :
    (s.setWorker i worker).modFd fd = (s.modFd fd).setWorker i worker := by
  unfold State.modFd
  by_cases hmem : fd ∈ s.connected
  · rw [if_pos hmem]
    exact if_pos hmem
  · rw [if_neg hmem]
    exact if_neg hmem

theorem write_setWorker (fd i : ℕ) (result : WriteEnd) (worker : Worker) :
    (s.setWorker i worker).write fd result = (s.write fd result).setWorker i worker := by
  have hmod := @modFd_setWorker s fd i worker
  cases result with
  | error => rfl
  | again => exact hmod
  | empty => exact congrArg (State.resetState fd) hmod
  | sent linger =>
    cases linger with
    | false => exact hmod
    | true => exact congrArg (State.resetState fd) hmod

/-- The dispatcher stores improv; it has done what was handed over. -/
theorem Handover.served {fd i : ℕ} (hphase : s.phase = .waiting fd) (hqueue : s.queue = [])
    (honly : ∀ j fd', s.workers j = .taken fd' → j = i)
    (himprov : ∀ fd', fd' ≠ fd → s.improv fd' = false) {worker : Worker}
    (hworker : ∀ fd', worker ≠ .taken fd') :
    Handover ((s.setImprov fd).setWorker i worker) := by
  refine .done fd hphase hqueue ?_ fun fd' hne => ?_
  · intro j fd' hj
    by_cases hsame : j = i
    · rw [hsame] at hj
      exact hworker fd' ((Function.update_self ..).symm.trans hj)
    · exact hsame (honly j fd' ((Function.update_of_ne hsame ..).symm.trans hj))
  · exact (Function.update_of_ne hne ..).trans (himprov fd' hne)

/-- While the event loop waits for a connection the others are settled. -/
theorem Inv.settledBut (h : Inv model s) {fd : ℕ} (hphase : s.phase = .waiting fd) :
    SettledBut s fd := by
  intro fd' hmem hne
  apply (h.covered fd' hmem).settled
  rw [hphase]
  exact fun heq => hne (Phase.waiting.inj heq).symm

/-- A worker that has not stored timer_flag yet, and the event loop waits. -/
theorem SettledBut.flagging {fd i : ℕ} (h : SettledBut s fd) (hphase : s.phase = .waiting fd)
    (hserves : ∀ fd', (s.workers i).serves = some fd' → fd' = fd) :
    ∀ fd' ∈ s.connected, Covered ((s.setImprov fd).setWorker i (.flagging fd)) fd' := by
  intro fd' hmem
  by_cases hsame : fd' = fd
  · rw [hsame]
    exact .inr (.inr (.inr (.inr ⟨hphase, .inl ⟨i, Function.update_self ..⟩⟩)))
  · exact (h.setWorker hserves (.flagging fd) fd' hmem hsame).covered

theorem io_inv (h : Inv .reactor s) {i : ℕ} {readOnce : Bool} {result : WriteEnd} {fd : ℕ}
    (hi : s.workers i = .taken fd) : Inv .reactor (s.doIo i readOnce result) := by
  obtain ⟨hphase, hqueue, honly, himprov⟩ := (h.handover rfl).of_taken hi
  have hbut := h.settledBut hphase
  have hserves : ∀ fd', (s.workers i).serves = some fd' → fd' = fd := by
    intro fd' hs
    rw [hi] at hs
    exact (Option.some.inj hs).symm
  obtain ⟨hwphase, hwqueue, hwworkers, hwimprov⟩ := @write_frame s fd result
  have hwserved : ∀ {worker : Worker}, (∀ fd', worker ≠ .taken fd') →
      Handover (((s.write fd result).setImprov fd).setWorker i worker) := by
    intro worker hworker
    refine .served (hwphase.trans hphase) (hwqueue.trans hqueue) ?_ ?_ hworker
    · rw [hwworkers]
      exact honly
    · exact fun fd' hne => (hwimprov fd' hne).trans (himprov fd')
  simp only [State.doIo, hi]
  split
  · split
    · refine ⟨covered_of_settled ?_, fun _ => ?_⟩
      · apply (hbut.setWorker hserves (.processing fd)).settled
        intro _
        refine .inr (.inr (.inr ⟨i, ?_⟩))
        rw [setWorker_self]
        rfl
      · exact .served hphase hqueue honly (fun fd' _ => himprov fd') fun _ => nofun
    · refine ⟨hbut.flagging hphase hserves, fun _ => ?_⟩
      exact .served hphase hqueue honly (fun fd' _ => himprov fd') fun _ => nofun
  · cases hresult : result.result with
    | true =>
      have hrearms : result.rearms = true := by
        cases result with
        | error => cases hresult
        | empty => rfl
        | again => rfl
        | sent linger => rfl
      have hall := ((hbut.setWorker hserves .idle).write result).2 hrearms
      rw [write_setWorker] at hall
      exact ⟨covered_of_settled hall, fun _ => hwserved fun _ => nofun⟩
    | false =>
      refine ⟨?_, fun _ => hwserved fun _ => nofun⟩
      apply (hbut.write result).1.flagging (hwphase.trans hphase)
      rw [hwworkers]
      exact hserves

/-- The worker `i` becomes free; a connection it did not serve keeps what it had. -/
theorem Covered.idle {t : State} {i fd : ℕ} (h : Covered s fd)
    (harmed : s.armed fd = true → t.armed fd = true) (hpending : t.pending = s.pending)
    (hqueue : t.queue = s.queue) (hphase : t.phase = s.phase) (hworkers : t.workers = s.workers)
    (hserves : (s.workers i).serves ≠ some fd)
    (hflag : s.workers i = .flagging fd ∨ s.timerFlag fd = true → t.timerFlag fd = true) :
    Covered (t.setWorker i .idle) fd := by
  have hother : ∀ j, j ≠ i → (t.setWorker i .idle).workers j = s.workers j := by
    intro j hne
    rw [setWorker_other hne, hworkers]
  rcases h with hc | hc | hc | ⟨j, hc⟩ | ⟨hwaiting, hc⟩
  · exact .inl (harmed hc)
  · exact .inr (.inl (by rwa [← hpending] at hc))
  · exact .inr (.inr (.inl (by rwa [← hqueue] at hc)))
  · have hne : j ≠ i := fun heq => hserves (heq ▸ hc)
    refine .inr (.inr (.inr (.inl ⟨j, ?_⟩)))
    rwa [hother j hne]
  · refine .inr (.inr (.inr (.inr ⟨hphase.trans hwaiting, ?_⟩)))
    rcases hc with ⟨j, hj⟩ | hset
    · by_cases hsame : j = i
      · exact .inr (hflag (.inl (hsame ▸ hj)))
      · exact .inl ⟨j, (hother j hsame).trans hj⟩
    · exact .inr (hflag (.inr hset))

/-- A worker that has not just taken a connection becomes free. -/
theorem Handover.idle {t : State} (h : Handover s) {i : ℕ} (hi : ∀ fd, s.workers i ≠ .taken fd)
    (hqueue : t.queue = s.queue) (hphase : t.phase = s.phase) (hworkers : t.workers = s.workers)
    (himprov : t.improv = s.improv) : Handover (t.setWorker i .idle) := by
  refine h.congr hphase hqueue himprov fun j fd => ?_
  by_cases hsame : j = i
  · rw [hsame, setWorker_self]
    exact ⟨nofun, fun htaken => absurd htaken (hi fd)⟩
  · rw [setWorker_other hsame, hworkers]

theorem flag_inv (h : Inv model s) {i fd : ℕ} (hi : s.workers i = .flagging fd) :
    Inv model (s.storeFlag i) := by
  simp only [State.storeFlag, hi]
  constructor
  · intro fd' hmem
    refine (h.covered fd' hmem).idle id rfl rfl rfl rfl ?_ ?_
    · rw [hi]
      exact nofun
    · intro hor
      by_cases hsame : fd' = fd
      · rw [hsame]
        exact Function.update_self ..
      · refine (Function.update_of_ne hsame ..).trans (hor.resolve_left ?_)
        rw [hi]
        exact fun heq => hsame (Worker.flagging.inj heq).symm
  · intro hreactor
    refine (h.handover hreactor).idle (fun fd' => ?_) rfl rfl rfl rfl
    rw [hi]
    exact nofun

theorem process_inv (h : Inv model s) {i fd : ℕ} (hi : s.workers i = .processing fd)
    (result : ProcessEnd) : Inv model (s.finish i result) := by
  have hserves : ∀ fd', fd' ≠ fd → (s.workers i).serves ≠ some fd' := by
    intro fd' hne heq
    rw [hi] at heq
    exact hne (Option.some.inj heq).symm
  have htaken : ∀ fd', s.workers i ≠ .taken fd' := by
    rw [hi]
    exact fun _ => nofun
  have hflag : ∀ fd', s.workers i = .flagging fd' ∨ s.timerFlag fd' = true →
      s.timerFlag fd' = true := by
    rw [hi]
    exact fun fd' hor => hor.resolve_left nofun
  have harm : Inv model ((s.modFd fd).setWorker i .idle) := by
    unfold State.modFd
    by_cases hopen : fd ∈ s.connected
    · rw [if_pos hopen]
      refine ⟨fun fd' hmem => ?_, fun hreactor => ?_⟩
      · by_cases hsame : fd' = fd
        · rw [hsame]
          exact .inl (Function.update_self ..)
        · refine (h.covered fd' hmem).idle ?_ rfl rfl rfl rfl (hserves fd' hsame) (hflag fd')
          exact (Function.update_of_ne hsame ..).trans
      · exact (h.handover hreactor).idle htaken rfl rfl rfl rfl
    · rw [if_neg hopen]
      refine ⟨fun fd' hmem => ?_, fun hreactor => ?_⟩
      · have hne : fd' ≠ fd := fun heq => hopen (heq ▸ hmem)
        exact (h.covered fd' hmem).idle id rfl rfl rfl rfl (hserves fd' hne) (hflag fd')
      · exact (h.handover hreactor).idle htaken rfl rfl rfl rfl
  simp only [State.finish, hi]
  cases result with
  | noRequest => exact harm
  | responded => exact harm
  | failed =>
    refine ⟨fun fd' hmem => ?_, fun hreactor => ?_⟩
    · obtain ⟨hne, hmem⟩ := Finset.mem_erase.mp hmem
      refine (h.covered fd' hmem).idle ?_ rfl rfl rfl rfl (hserves fd' hne) (hflag fd')
      exact (Function.update_of_ne hne ..).trans
    · exact (h.handover hreactor).idle htaken rfl rfl rfl rfl

theorem step_inv (h : Inv model s) (hmax : 0 < maxRequests) (step : Step)
    (hcan : CanStep model threads s step) (hcare : ¬ Careless model maxRequests s step) :
    Inv model (perform model maxRequests s step) := by
  cases step with
  | wait batch => exact wait_inv h hcan
  | accept fd => exact accept_inv h hcan
  | handle readOnce result => exact handle_inv h hmax hcan hcare
  | wake => exact wake_inv h hcan hcare
  | tick expired => exact tick_inv h hcan
  | take i => exact take_inv h hcan
  | io i readOnce result =>
    obtain ⟨rfl, _, fd, hi⟩ := hcan
    exact io_inv h hi
  | flag i =>
    obtain ⟨_, fd, hi⟩ := hcan
    exact flag_inv h hi
  | process i result =>
    obtain ⟨_, fd, hi⟩ := hcan
    exact process_inv h hi result

theorem run_inv (hmax : 0 < maxRequests) (steps : List Step) (h : Inv model s)
    (hcan : Always model maxRequests (CanStep model threads) s steps)
    (hcare : Always model maxRequests (fun s step => ¬ Careless model maxRequests s step) s steps) :
    Inv model (performAll model maxRequests s steps) := by
  induction steps generalizing s with
  | nil => exact h
  | cons step rest ih =>
    obtain ⟨hcan, hcans⟩ := hcan
    obtain ⟨hcare, hcares⟩ := hcare
    exact ih (step_inv h hmax step hcan hcare) hcans hcares

end Steps

/-- Between two iterations of the event loop no open connection is forgotten, in
any run in which no read finds the queue full and wait_improv does not overtake
timer_flag. -/
theorem connections_attended (model : ActorModel) (threads maxRequests : ℕ)
    (hmax : 0 < maxRequests) (steps : List Step)
    (hcan : Always model maxRequests (CanStep model threads) .start steps)
    (hcare : Always model maxRequests (fun s step => ¬ Careless model maxRequests s step)
      .start steps)
    (hphase : (performAll model maxRequests .start steps).phase = .running)
    (hpending : (performAll model maxRequests .start steps).pending = []) :
    Attended (performAll model maxRequests .start steps) :=
  attended_of_inv (run_inv hmax steps (inv_start model) hcan hcare) hphase hpending

/-- One connection is read, processed and armed again. -/
theorem connections_attended_one : Attended (performAll .proactor 1 .start
    [.accept 7, .wait [(7, .readable)], .handle true .again, .take 0, .process 0 .responded]) := by
  apply connections_attended .proactor 1 1 Nat.one_pos
  · simp [Always, CanStep, perform, State.start, State.resetState, State.handleNext,
      State.dealwithread, State.appendP, State.takeFront, State.setWorker]
  · simp [Always, Careless, perform, State.start, State.resetState]
  · rfl
  · rfl

/-- Two connections are read while the queue has room for one; and the event
loop of the reactor model looks at timer_flag before the worker has set it. -/
theorem connections_forgotten :
    (Always .proactor 1 (CanStep .proactor 1) .start
        [.accept 7, .accept 8, .wait [(7, .readable), (8, .readable)], .handle true .again,
          .handle true .again] ∧
      ¬ Attended (performAll .proactor 1 .start
        [.accept 7, .accept 8, .wait [(7, .readable), (8, .readable)], .handle true .again,
          .handle true .again])) ∧
    Always .reactor 1 (CanStep .reactor 1) .start
        [.accept 7, .wait [(7, .readable)], .handle true .again, .take 0, .io 0 false .again,
          .wake, .flag 0] ∧
      ¬ Attended (performAll .reactor 1 .start
        [.accept 7, .wait [(7, .readable)], .handle true .again, .take 0, .io 0 false .again,
          .wake, .flag 0]) := by
  refine ⟨⟨?_, fun h => ?_⟩, ?_, fun h => ?_⟩
  · simp [Always, CanStep, perform, State.start, State.resetState, State.handleNext,
      State.dealwithread, State.appendP]
  · rcases h 8 (by decide) with harmed | hqueue | ⟨i, hserved⟩
    · cases harmed
    · revert hqueue
      decide
    · cases hserved
  · simp [Always, CanStep, perform, State.start, State.resetState, State.handleNext,
      State.dealwithread, State.append, State.takeFront, State.setWorker, State.doIo,
      State.setImprov]
    exact ⟨7, rfl⟩
  · rcases h 7 (by decide) with harmed | hqueue | ⟨i, hserved⟩
    · cases harmed
    · cases hqueue
    · simp [performAll, perform, State.start, State.resetState, State.handleNext,
        State.dealwithread, State.append, State.takeFront, State.setWorker, State.doIo,
        State.setImprov, State.wakeUp, State.storeFlag, Worker.serves] at hserved

end Bookstore.EpollArming
