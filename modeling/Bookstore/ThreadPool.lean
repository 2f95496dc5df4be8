import Mathlib.Algebra.Group.Defs
import Mathlib.Data.List.Nodup
import Mathlib.Data.List.Perm.Subperm

/-!
The thread pool: append and append_p, the loop of the workers and the
destructor. What runs under m_mutex is one atomic step. Every call is numbered,
and the state keeps the calls and what became of them: the accepted ones in the
order in which they entered the queue, the ones picked up, the ones dispatched.
-/
namespace Bookstore.ThreadPool

/-- A call of append or append_p. -/
inductive Call (ρ : Type)
  | append (request : ρ) (state : ℤ)
  | appendP (request : ρ)
deriving DecidableEq

def Call.request {ρ : Type} : Call ρ → ρ
  | .append request _ => request
  | .appendP request => request

/-- A call has not yet locked m_mutex, has pushed its request but not yet
called notify_one, or has returned. -/
inductive Stage
  | entering
  | notifying
  | returned (accepted : Bool)
deriving DecidableEq

/-- A call answers true, or is about to. -/
def Stage.accepted : Stage → Bool
  | .entering => false
  | .notifying => true
  | .returned accepted => accepted

/-- An entry of m_workqueue, with the number of the call that pushed it. -/
structure Ticket (ρ : Type) where
  call : ℕ
  request : ρ
deriving DecidableEq

/-- A worker locks m_mutex and looks at the condition, sleeps in m_cond, holds
the request it has picked up, or has left run. -/
inductive Worker (ρ : Type)
  | locking
  | waiting
  | holding (ticket : Ticket ρ)
  | exited
deriving DecidableEq

def Worker.held {ρ : Type} : Worker ρ → Option (Ticket ρ)
  | .holding ticket => some ticket
  | _ => none

def Worker.sleeps {ρ : Type} : Worker ρ → Bool
  | .waiting => true
  | _ => false

def Worker.gone {ρ : Type} : Worker ρ → Bool
  | .exited => true
  | _ => false

def Worker.wake {ρ : Type} : Worker ρ → Worker ρ
  | .waiting => .locking
  | worker => worker

/-- Where the destructor stands. -/
inductive Shutdown
  | running
  | notifying
  | joining
  | joined
deriving DecidableEq

structure Pool (ρ : Type) where
  workqueue : List (Ticket ρ)
  stop : Bool
  mState : ρ → ℤ
  workers : List (Worker ρ)
  shutdown : Shutdown
  calls : List (Call ρ × Stage)
  accepted : List (Ticket ρ)
  pickedUp : List (Ticket ρ)
  dispatched : List (Ticket ρ)

/-- What happens next: a call begins, locks the mutex, or wakes a worker (or
nobody, when nobody sleeps); a worker checks the condition, calls the
dispatcher, or wakes up by itself; the destructor sets the flag, wakes everybody
or has joined them. -/
inductive Move (ρ : Type)
  | begin (call : Call ρ)
  | enter (i : ℕ)
  | notifyOne (i : ℕ) (woken : Option ℕ)
  | check (w : ℕ)
  | dispatch (w : ℕ)
  | wakeUp (w : ℕ)
  | stop
  | notifyAll
  | join

namespace Pool

variable {ρ : Type} (s : Pool ρ)

def start (threadNumber : ℕ) (mState : ρ → ℤ) : Pool ρ where
  workqueue := []
  stop := false
  mState := mState
  workers := List.replicate threadNumber .locking
  shutdown := .running
  calls := []
  accepted := []
  pickedUp := []
  dispatched := []

def setWorker (w : ℕ) (worker : Worker ρ) : Pool ρ :=
  { s with workers := s.workers.set w worker }

def setCall (i : ℕ) (call : Call ρ) (stage : Stage) : Pool ρ :=
  { s with calls := s.calls.set i (call, stage) }

def push (i : ℕ) (request : ρ) : Pool ρ :=
  { s with
    workqueue := s.workqueue ++ [⟨i, request⟩]
    accepted := s.accepted ++ [⟨i, request⟩] }

def setState [DecidableEq ρ] : Call ρ → Pool ρ
  | .append request state =>
    { s with mState := fun r => if r = request then state else s.mState r }
  | .appendP _ => s

/-- The locked part of append and append_p. -/
def append [DecidableEq ρ] (maxRequests i : ℕ) (call : Call ρ) : Pool ρ :=
  if maxRequests ≤ s.workqueue.length then s.setCall i call (.returned false)
  else ((s.setState call).push i call.request).setCall i call .notifying

/-- The locked part of one turn of run. -/
def check (w : ℕ) : Pool ρ :=
  match s.stop, s.workqueue with
  | false, [] => s.setWorker w .waiting
  | true, [] => s.setWorker w .exited
  | _, front :: rest =>
    { s.setWorker w (.holding front) with
      workqueue := rest
      pickedUp := s.pickedUp ++ [front] }

def dispatch (w : ℕ) (ticket : Ticket ρ) : Pool ρ :=
  { s.setWorker w .locking with dispatched := s.dispatched ++ [ticket] }

/-- `none` when the move is not possible. -/
def step [DecidableEq ρ] (maxRequests : ℕ) : Move ρ → Option (Pool ρ)
  | .begin call => some { s with calls := s.calls ++ [(call, .entering)] }
  | .enter i =>
    match s.calls[i]? with
    | some (call, .entering) => some (s.append maxRequests i call)
    | _ => none
  | .notifyOne i woken =>
    match s.calls[i]? with
    | some (call, .notifying) =>
      match woken with
      | some w =>
        if s.workers[w]? = some .waiting then
          some ((s.setCall i call (.returned true)).setWorker w .locking)
        else none
      | none =>
        if s.workers.any Worker.sleeps then none
        else some (s.setCall i call (.returned true))
    | _ => none
  | .check w => if s.workers[w]? = some .locking then some (s.check w) else none
  | .dispatch w =>
    match s.workers[w]? with
    | some (.holding ticket) => some (s.dispatch w ticket)
    | _ => none
  | .wakeUp w =>
    if s.workers[w]? = some .waiting then some (s.setWorker w .locking) else none
  | .stop =>
    if s.shutdown = .running then some { s with stop := true, shutdown := .notifying } else none
  | .notifyAll =>
    if s.shutdown = .notifying then
      some { s with workers := s.workers.map Worker.wake, shutdown := .joining }
    else none
  | .join =>
    if s.shutdown = .joining ∧ s.workers.all Worker.gone then some { s with shutdown := .joined }
    else none

end Pool

/-- What can be reached by moves that are allowed in the state they are made in. -/
inductive Reaches {ρ : Type} [DecidableEq ρ] (threadNumber maxRequests : ℕ)
    (allowed : Pool ρ → Move ρ → Prop) : Pool ρ → Prop
  | start (mState : ρ → ℤ) : Reaches threadNumber maxRequests allowed (.start threadNumber mState)
  | step {s s' : Pool ρ} {m : Move ρ} : Reaches threadNumber maxRequests allowed s →
      allowed s m → s.step maxRequests m = some s' → Reaches threadNumber maxRequests allowed s'

variable {ρ : Type} {s : Pool ρ}

/-- A worker that will look at the queue before it sleeps again. -/
def Worker.Busy : Worker ρ → Prop
  | .locking => True
  | .holding _ => True
  | _ => False

/-- The call of a ticket has pushed it. -/
def Pool.Pushed (s : Pool ρ) (t : Ticket ρ) : Prop :=
  ∃ call stage, s.calls[t.call]? = some (call, stage) ∧ stage.accepted = true ∧
    call.request = t.request

structure Inv (threadNumber maxRequests : ℕ) (s : Pool ρ) : Prop where
  crew : s.workers.length = threadNumber
  bound : s.workqueue.length ≤ maxRequests
  order : s.accepted = s.pickedUp ++ s.workqueue
  nodup : (s.accepted.map Ticket.call).Nodup
  pushed : ∀ t, t ∈ s.accepted ↔ s.Pushed t
  held : s.pickedUp.Perm (s.workers.filterMap Worker.held ++ s.dispatched)
  stopped : s.stop = true ↔ s.shutdown ≠ .running
  exited : .exited ∈ s.workers → s.stop = true
  joining : s.shutdown = .joining → .waiting ∉ s.workers
  joined : s.shutdown = .joined → ∀ worker ∈ s.workers, worker = .exited
  noticed : s.workqueue ≠ [] → (∃ worker ∈ s.workers, worker.Busy) ∨
    (∃ i : ℕ, ∃ call, s.calls[i]? = some (call, .notifying)) ∨ .waiting ∉ s.workers

theorem Inv.nodup_accepted {threadNumber maxRequests : ℕ} (h : Inv threadNumber maxRequests s) :
    s.accepted.Nodup :=
  List.Nodup.of_map _ h.nodup

theorem inv_start (threadNumber maxRequests : ℕ) (mState : ρ → ℤ) :
    Inv threadNumber maxRequests (.start threadNumber mState) where
  crew := List.length_replicate
  bound := Nat.zero_le _
  order := rfl
  nodup := List.nodup_nil
  pushed t := by simp [Pool.start, Pool.Pushed]
  held := by
    have hnone : (List.replicate threadNumber (.locking : Worker ρ)).filterMap Worker.held = [] := by
      simp [List.filterMap_eq_nil_iff, Worker.held]
    simp [Pool.start, hnone]
  stopped := by simp [Pool.start]
  exited h := by simp [Pool.start, List.mem_replicate] at h
  joining h := by cases h
  joined h := by cases h
  noticed h := absurd rfl h

/-! ## The parts of a step -/

theorem lookup_set {α : Type} {l : List α} {i : ℕ} {a b : α} (hi : l[i]? = some a) :
    (l.set i b)[i]? = some b := by
  obtain ⟨hlt, -⟩ := List.getElem?_eq_some_iff.mp hi
  simp [hlt]

theorem pushed_setCall {i : ℕ} {call : Call ρ} {old new : Stage}
    (hi : s.calls[i]? = some (call, old)) (hsame : new.accepted = old.accepted) (t : Ticket ρ) :
    (s.setCall i call new).Pushed t ↔ s.Pushed t := by
  by_cases ht : t.call = i
  · subst ht
    constructor
    · rintro ⟨call', stage, hcall, haccepted, hrequest⟩
      cases Option.some.inj ((lookup_set hi).symm.trans hcall)
      exact ⟨call, old, hi, hsame ▸ haccepted, hrequest⟩
    · rintro ⟨call', stage, hcall, haccepted, hrequest⟩
      cases Option.some.inj (hi.symm.trans hcall)
      exact ⟨call, new, lookup_set hi, hsame.trans haccepted, hrequest⟩
  · have hother : (s.calls.set i (call, new))[t.call]? = s.calls[t.call]? :=
      List.getElem?_set_ne (Ne.symm ht)
    simp only [Pool.Pushed, Pool.setCall, hother]

theorem held_set {workers : List (Worker ρ)} {w : ℕ} {old : Worker ρ} (new : Worker ρ)
    (hw : workers[w]? = some old) :
    ∃ rest, (workers.filterMap Worker.held).Perm (old.held.toList ++ rest) ∧
      ((workers.set w new).filterMap Worker.held).Perm (new.held.toList ++ rest) := by
  obtain ⟨hlt, rfl⟩ := List.getElem?_eq_some_iff.mp hw
  have hcons : ∀ worker : Worker ρ, (worker :: workers.eraseIdx w).filterMap Worker.held =
      worker.held.toList ++ (workers.eraseIdx w).filterMap Worker.held := by
    intro worker
    cases worker <;> rfl
  refine ⟨(workers.eraseIdx w).filterMap Worker.held, ?_, ?_⟩
  · rw [← hcons]
    exact (List.getElem_cons_eraseIdx_perm hlt).symm.filterMap Worker.held
  · rw [← hcons]
    exact (List.set_perm_cons_eraseIdx hlt new).filterMap Worker.held

theorem held_set_same {workers : List (Worker ρ)} {w : ℕ} {old new : Worker ρ}
    (hw : workers[w]? = some old) (hold : old.held = none) (hnew : new.held = none) :
    ((workers.set w new).filterMap Worker.held).Perm (workers.filterMap Worker.held) := by
  obtain ⟨rest, hbefore, hafter⟩ := held_set new hw
  rw [hold] at hbefore
  rw [hnew] at hafter
  exact hafter.trans hbefore.symm

/-- A worker becomes busy; what it holds then comes from the queue or goes to the
dispatcher. -/
theorem Inv.occupy {threadNumber maxRequests w : ℕ} {old new : Worker ρ}
    {queue picked dispatched : List (Ticket ρ)}
    (h : Inv threadNumber maxRequests s) (hw : s.workers[w]? = some old)
    (hgone : old ≠ .exited) (hbusy : new.Busy) (hbound : queue.length ≤ maxRequests)
    (horder : s.accepted = picked ++ queue)
    (hheld : picked.Perm ((s.workers.set w new).filterMap Worker.held ++ dispatched)) :
    Inv threadNumber maxRequests { s.setWorker w new with
      workqueue := queue
      pickedUp := picked
      dispatched := dispatched } := by
  have hmem : new ∈ s.workers.set w new := List.mem_of_getElem? (lookup_set hw)
  have hne : ∀ worker, worker ∈ s.workers.set w new → worker ≠ new → worker ∈ s.workers :=
    fun worker hin hdiffers => (List.mem_or_eq_of_mem_set hin).resolve_right hdiffers
  refine { h with
    crew := (List.length_set).trans h.crew, bound := hbound, order := horder, held := hheld,
    exited := ?_, joining := ?_, joined := ?_, noticed := fun _ => .inl ⟨new, hmem, hbusy⟩ }
  · intro hin
    exact h.exited (hne _ hin (by rintro rfl; exact hbusy))
  · intro hjoining hin
    exact h.joining hjoining (hne _ hin (by rintro rfl; exact hbusy))
  · intro hjoined
    exact absurd (h.joined hjoined old (List.mem_of_getElem? hw)) hgone

/-- A sleeping worker wakes up. -/
theorem Inv.wakeUp {threadNumber maxRequests w : ℕ} (h : Inv threadNumber maxRequests s)
    (hw : s.workers[w]? = some .waiting) :
    Inv threadNumber maxRequests (s.setWorker w .locking) :=
  h.occupy hw (by simp) trivial h.bound h.order
    (h.held.trans ((held_set_same hw rfl rfl).symm.append_right _))

/-- A call that answers, and answers what it was about to. -/
theorem Inv.setCall {threadNumber maxRequests i : ℕ} {call : Call ρ} {old new : Stage}
    (h : Inv threadNumber maxRequests s) (hi : s.calls[i]? = some (call, old))
    (hsame : new.accepted = old.accepted)
    (hnoticed : old = .notifying → (∃ worker ∈ s.workers, worker.Busy) ∨ .waiting ∉ s.workers) :
    Inv threadNumber maxRequests (s.setCall i call new) := by
  refine { h with pushed := ?_, noticed := ?_ }
  · intro t
    exact (h.pushed t).trans (pushed_setCall hi hsame t).symm
  · intro hqueue
    rcases h.noticed hqueue with hbusy | ⟨j, other, hj⟩ | hnone
    · exact .inl hbusy
    · by_cases hji : j = i
      · subst hji
        cases Option.some.inj (hi.symm.trans hj)
        rcases hnoticed rfl with hbusy | hnone
        · exact .inl hbusy
        · exact .inr (.inr hnone)
      · refine .inr (.inl ⟨j, other, ?_⟩)
        exact (List.getElem?_set_ne (Ne.symm hji)).trans hj
    · exact .inr (.inr hnone)

theorem Inv.begin {threadNumber maxRequests : ℕ} (h : Inv threadNumber maxRequests s)
    (call : Call ρ) :
    Inv threadNumber maxRequests { s with calls := s.calls ++ [(call, .entering)] } := by
  have hkeep : ∀ (i : ℕ) (call' : Call ρ) (stage : Stage), stage ≠ .entering →
      ((s.calls ++ [(call, .entering)])[i]? = some (call', stage) ↔
        s.calls[i]? = some (call', stage)) := by
    intro i call' stage hstage
    by_cases hlt : i < s.calls.length
    · rw [List.getElem?_append_left hlt]
    · rw [List.getElem?_append_right (by omega), List.getElem?_eq_none (l := s.calls) (by omega)]
      constructor
      · intro hlast
        obtain hmem := List.mem_of_getElem? hlast
        cases List.mem_singleton.mp hmem
        exact absurd rfl hstage
      · intro hnone
        cases hnone
  refine { h with pushed := ?_, noticed := ?_ }
  · intro t
    refine (h.pushed t).trans ?_
    constructor
    · rintro ⟨call', stage, hcall, haccepted, hrequest⟩
      have hstage : stage ≠ .entering := by rintro rfl; cases haccepted
      exact ⟨call', stage, (hkeep _ _ _ hstage).mpr hcall, haccepted, hrequest⟩
    · rintro ⟨call', stage, hcall, haccepted, hrequest⟩
      have hstage : stage ≠ .entering := by rintro rfl; cases haccepted
      exact ⟨call', stage, (hkeep _ _ _ hstage).mp hcall, haccepted, hrequest⟩
  · intro hqueue
    rcases h.noticed hqueue with hbusy | ⟨i, other, hi⟩ | hnone
    · exact .inl hbusy
    · exact .inr (.inl ⟨i, other, (hkeep _ _ _ (by simp)).mpr hi⟩)
    · exact .inr (.inr hnone)

/-- An accepted call is about to notify. -/
theorem Inv.push [DecidableEq ρ] {threadNumber maxRequests i : ℕ} {call : Call ρ}
    (h : Inv threadNumber maxRequests s) (hi : s.calls[i]? = some (call, .entering))
    (hroom : s.workqueue.length < maxRequests) :
    Inv threadNumber maxRequests
      (((s.setState call).push i call.request).setCall i call .notifying) := by
  have hstate : s.setState call = { s with mState := (s.setState call).mState } := by
    cases call <;> rfl
  have hnew : (s.calls.set i (call, .notifying))[i]? = some (call, .notifying) := lookup_set hi
  have hfresh : ∀ t ∈ s.accepted, t.call ≠ i := by
    intro t ht hcall
    obtain ⟨call', stage, hlookup, haccepted, -⟩ := (h.pushed t).mp ht
    rw [hcall, hi] at hlookup
    cases hlookup
    cases haccepted
  rw [hstate]
  refine { h with bound := ?_, order := ?_, nodup := ?_, pushed := ?_, noticed := ?_ }
  · simp only [Pool.push, Pool.setCall, List.length_append, List.length_singleton]
    omega
  · simp only [Pool.push, Pool.setCall, h.order, List.append_assoc]
  · simp only [Pool.push, Pool.setCall, List.map_append, List.map_cons, List.map_nil]
    refine List.nodup_append.mpr ⟨h.nodup, by simp, ?_⟩
    intro a ha b hb hab
    obtain ⟨t, ht, rfl⟩ := List.mem_map.mp ha
    exact hfresh t ht (hab.trans (List.mem_singleton.mp hb))
  · intro t
    simp only [Pool.push, Pool.setCall, List.mem_append, List.mem_singleton]
    constructor
    · rintro (ht | rfl)
      · obtain ⟨call', stage, hcall, hrest⟩ := (h.pushed t).mp ht
        exact ⟨call', stage, (List.getElem?_set_ne (Ne.symm (hfresh t ht))).trans hcall, hrest⟩
      · exact ⟨call, .notifying, hnew, rfl, rfl⟩
    · rintro ⟨call', stage, hcall, haccepted, hrequest⟩
      by_cases ht : t.call = i
      · rw [ht] at hcall
        cases Option.some.inj (hnew.symm.trans hcall)
        obtain ⟨n, request⟩ := t
        dsimp only at ht hrequest
        exact .inr (by rw [ht, hrequest])
      · have hother := (List.getElem?_set_ne (Ne.symm ht)).symm.trans hcall
        exact .inl ((h.pushed t).mpr ⟨call', stage, hother, haccepted, hrequest⟩)
  · intro _
    exact .inr (.inl ⟨i, call, hnew⟩)

/-- A worker that finds nothing to do sleeps, or leaves when the flag is set. -/
theorem Inv.leave {threadNumber maxRequests w : ℕ} {new : Worker ρ}
    (h : Inv threadNumber maxRequests s) (hw : s.workers[w]? = some .locking)
    (hqueue : s.workqueue = [])
    (hnew : new = .waiting ∧ s.stop = false ∨ new = .exited ∧ s.stop = true) :
    Inv threadNumber maxRequests (s.setWorker w new) := by
  have hheld : new.held = none := by rcases hnew with ⟨rfl, -⟩ | ⟨rfl, -⟩ <;> rfl
  refine { h with
    crew := (List.length_set).trans h.crew, held := ?_, exited := ?_, joining := ?_,
    joined := ?_, noticed := fun hne => absurd hqueue hne }
  · exact h.held.trans ((held_set_same hw rfl hheld).symm.append_right _)
  · intro hin
    rcases hnew with ⟨rfl, -⟩ | ⟨-, hstop⟩
    · rcases List.mem_or_eq_of_mem_set hin with hold | heq
      · exact h.exited hold
      · cases heq
    · exact hstop
  · intro hjoining hin
    rcases List.mem_or_eq_of_mem_set hin with hold | heq
    · exact h.joining hjoining hold
    · rcases hnew with ⟨-, hstop⟩ | ⟨rfl, -⟩
      · have hset : s.stop = true := h.stopped.mpr (by rw [show s.shutdown = _ from hjoining]; simp)
        rw [hset] at hstop
        cases hstop
      · cases heq
  · intro hjoined
    exact absurd (h.joined hjoined _ (List.mem_of_getElem? hw)) (by simp)

/-- A worker takes the front of the queue. -/
theorem Inv.take {threadNumber maxRequests w : ℕ} {front : Ticket ρ} {rest : List (Ticket ρ)}
    (h : Inv threadNumber maxRequests s) (hw : s.workers[w]? = some .locking)
    (hqueue : s.workqueue = front :: rest) :
    Inv threadNumber maxRequests { s.setWorker w (.holding front) with
      workqueue := rest
      pickedUp := s.pickedUp ++ [front] } := by
  obtain ⟨others, hbefore, hafter⟩ := held_set (.holding front) hw
  have hbound : rest.length ≤ maxRequests := by
    have hlength := h.bound
    rw [hqueue, List.length_cons] at hlength
    omega
  have hbusy : (Worker.holding front).Busy := trivial
  apply h.occupy hw (by simp) hbusy hbound
  · rw [h.order, hqueue, List.append_assoc, List.singleton_append]
  · have hpicked : s.pickedUp.Perm (others ++ s.dispatched) := h.held.trans (hbefore.append_right _)
    have hmore : (s.pickedUp ++ [front]).Perm ([front] ++ (others ++ s.dispatched)) :=
      List.perm_append_comm.trans (hpicked.append_left _)
    rw [← List.append_assoc] at hmore
    exact hmore.trans (hafter.symm.append_right _)

/-- A worker hands its request to the dispatcher. -/
theorem Inv.dispatch {threadNumber maxRequests w : ℕ} {ticket : Ticket ρ}
    (h : Inv threadNumber maxRequests s) (hw : s.workers[w]? = some (.holding ticket)) :
    Inv threadNumber maxRequests (s.dispatch w ticket) := by
  obtain ⟨others, hbefore, hafter⟩ := held_set .locking hw
  have hbusy : (.locking : Worker ρ).Busy := trivial
  apply h.occupy hw (by simp) hbusy h.bound h.order
  have hpicked : s.pickedUp.Perm ([ticket] ++ others ++ s.dispatched) :=
    h.held.trans (hbefore.append_right _)
  have hmoved : ([ticket] ++ others ++ s.dispatched).Perm (others ++ (s.dispatched ++ [ticket])) := by
    rw [List.append_assoc, ← List.append_assoc others]
    exact List.perm_append_comm
  exact (hpicked.trans hmoved).trans (hafter.symm.append_right _)

theorem Inv.notifyOne {threadNumber maxRequests i : ℕ} {call : Call ρ}
    (h : Inv threadNumber maxRequests s) (hi : s.calls[i]? = some (call, .notifying))
    (hnone : s.workers.any Worker.sleeps = false) :
    Inv threadNumber maxRequests (s.setCall i call (.returned true)) := by
  refine h.setCall hi rfl fun _ => .inr fun hin => ?_
  have hsleeps := List.any_eq_false.mp hnone _ hin
  exact hsleeps rfl

theorem Inv.notifyWorker {threadNumber maxRequests i w : ℕ} {call : Call ρ}
    (h : Inv threadNumber maxRequests s) (hi : s.calls[i]? = some (call, .notifying))
    (hw : s.workers[w]? = some .waiting) :
    Inv threadNumber maxRequests ((s.setCall i call (.returned true)).setWorker w .locking) := by
  have hbusy : Worker.locking ∈ s.workers.set w .locking := List.mem_of_getElem? (lookup_set hw)
  exact (h.wakeUp hw).setCall hi rfl fun _ => .inl ⟨.locking, hbusy, trivial⟩

theorem Inv.stop {threadNumber maxRequests : ℕ} (h : Inv threadNumber maxRequests s) :
    Inv threadNumber maxRequests { s with stop := true, shutdown := .notifying } :=
  { h with
    stopped := by simp
    exited := fun _ => rfl
    joining := fun hjoining => by cases hjoining
    joined := fun hjoined => by cases hjoined }

theorem Inv.notifyAll {threadNumber maxRequests : ℕ} (h : Inv threadNumber maxRequests s)
    (hshutdown : s.shutdown = .notifying) : Inv threadNumber maxRequests
      { s with workers := s.workers.map Worker.wake, shutdown := .joining } := by
  have hheld : (s.workers.map Worker.wake).filterMap Worker.held =
      s.workers.filterMap Worker.held := by
    rw [List.filterMap_map]
    congr 1
    funext worker
    cases worker <;> rfl
  have hwoken : Worker.waiting ∉ s.workers.map Worker.wake := by
    intro hin
    obtain ⟨worker, -, heq⟩ := List.mem_map.mp hin
    cases worker <;> cases heq
  refine { h with
    crew := (List.length_map _).trans h.crew, held := by rw [hheld]; exact h.held,
    stopped := ?_, exited := ?_, joining := fun _ => hwoken, joined := ?_,
    noticed := fun _ => .inr (.inr hwoken) }
  · simp only [h.stopped, hshutdown]
    simp
  · intro hin
    obtain ⟨worker, hworker, heq⟩ := List.mem_map.mp hin
    cases worker <;> cases heq
    exact h.exited hworker
  · intro hjoined
    cases hjoined

theorem Inv.join {threadNumber maxRequests : ℕ} (h : Inv threadNumber maxRequests s)
    (hshutdown : s.shutdown = .joining) (hgone : s.workers.all Worker.gone = true) :
    Inv threadNumber maxRequests { s with shutdown := .joined } :=
  { h with
    stopped := by simp [h.stopped, hshutdown]
    joining := fun hjoining => by cases hjoining
    joined := fun _ worker hin => by
      have hworker := List.all_eq_true.mp hgone worker hin
      cases worker <;> first | rfl | cases hworker }

/-! ## Whole runs -/

variable [DecidableEq ρ]

/-- What a possible move does. -/
inductive Fires (maxRequests : ℕ) (s : Pool ρ) : Move ρ → Pool ρ → Prop
  | begin (call : Call ρ) :
    Fires maxRequests s (.begin call) { s with calls := s.calls ++ [(call, .entering)] }
  | rejected {i : ℕ} {call : Call ρ} : s.calls[i]? = some (call, .entering) →
    maxRequests ≤ s.workqueue.length →
    Fires maxRequests s (.enter i) (s.setCall i call (.returned false))
  | accepted {i : ℕ} {call : Call ρ} : s.calls[i]? = some (call, .entering) →
    s.workqueue.length < maxRequests →
    Fires maxRequests s (.enter i)
      (((s.setState call).push i call.request).setCall i call .notifying)
  | notifyWorker {i w : ℕ} {call : Call ρ} : s.calls[i]? = some (call, .notifying) →
    s.workers[w]? = some .waiting → Fires maxRequests s (.notifyOne i (some w))
      ((s.setCall i call (.returned true)).setWorker w .locking)
  | notifyNobody {i : ℕ} {call : Call ρ} : s.calls[i]? = some (call, .notifying) →
    s.workers.any Worker.sleeps = false →
    Fires maxRequests s (.notifyOne i none) (s.setCall i call (.returned true))
  | sleep {w : ℕ} : s.workers[w]? = some .locking → s.workqueue = [] → s.stop = false →
    Fires maxRequests s (.check w) (s.setWorker w .waiting)
  | leave {w : ℕ} : s.workers[w]? = some .locking → s.workqueue = [] → s.stop = true →
    Fires maxRequests s (.check w) (s.setWorker w .exited)
  | take {w : ℕ} {front : Ticket ρ} {rest : List (Ticket ρ)} : s.workers[w]? = some .locking →
    s.workqueue = front :: rest → Fires maxRequests s (.check w)
      { s.setWorker w (.holding front) with
        workqueue := rest
        pickedUp := s.pickedUp ++ [front] }
  | dispatch {w : ℕ} {ticket : Ticket ρ} : s.workers[w]? = some (.holding ticket) →
    Fires maxRequests s (.dispatch w) (s.dispatch w ticket)
  | wakeUp {w : ℕ} : s.workers[w]? = some .waiting →
    Fires maxRequests s (.wakeUp w) (s.setWorker w .locking)
  | stop : s.shutdown = .running →
    Fires maxRequests s .stop { s with stop := true, shutdown := .notifying }
  | notifyAll : s.shutdown = .notifying → Fires maxRequests s .notifyAll
      { s with workers := s.workers.map Worker.wake, shutdown := .joining }
  | join : s.shutdown = .joining → s.workers.all Worker.gone = true →
    Fires maxRequests s .join { s with shutdown := .joined }

theorem fires_of_step {maxRequests : ℕ} {s' : Pool ρ} {m : Move ρ}
    (hstep : s.step maxRequests m = some s') : Fires maxRequests s m s' := by
  cases m with
  | begin call =>
    cases hstep
    exact .begin call
  | enter i =>
    simp only [Pool.step, Pool.append] at hstep
    split at hstep
    · rename_i call hi
      split at hstep <;> cases hstep
      · exact .rejected hi ‹_›
      · exact .accepted hi (by omega)
    · cases hstep
  | notifyOne i woken =>
    simp only [Pool.step] at hstep
    split at hstep
    · rename_i call hi
      split at hstep <;> split at hstep <;> cases hstep
      · exact .notifyWorker hi ‹_›
      · exact .notifyNobody hi (Bool.not_eq_true _ ▸ ‹¬ _›)
    · cases hstep
  | check w =>
    obtain ⟨hw, hcheck⟩ := Option.ite_none_right_eq_some.mp hstep
    simp only [Pool.check] at hcheck
    split at hcheck <;> cases hcheck
    · exact .sleep hw ‹_› ‹_›
    · exact .leave hw ‹_› ‹_›
    · exact .take hw ‹_›
  | dispatch w =>
    simp only [Pool.step] at hstep
    split at hstep <;> cases hstep
    exact .dispatch ‹_›
  | wakeUp w =>
    obtain ⟨hw, hwake⟩ := Option.ite_none_right_eq_some.mp hstep
    cases hwake
    exact .wakeUp hw
  | stop =>
    obtain ⟨hshutdown, hstop⟩ := Option.ite_none_right_eq_some.mp hstep
    cases hstop
    exact .stop hshutdown
  | notifyAll =>
    obtain ⟨hshutdown, hnotify⟩ := Option.ite_none_right_eq_some.mp hstep
    cases hnotify
    exact .notifyAll hshutdown
  | join =>
    obtain ⟨⟨hshutdown, hgone⟩, hjoin⟩ := Option.ite_none_right_eq_some.mp hstep
    cases hjoin
    exact .join hshutdown hgone

theorem Inv.fires {threadNumber maxRequests : ℕ} {s' : Pool ρ} {m : Move ρ}
    (h : Inv threadNumber maxRequests s) (hfires : Fires maxRequests s m s') :
    Inv threadNumber maxRequests s' := by
  cases hfires with
  | begin call => exact h.begin call
  | rejected hi _ => exact h.setCall hi rfl (fun hnotifying => by cases hnotifying)
  | accepted hi hroom => exact h.push hi hroom
  | notifyWorker hi hw => exact h.notifyWorker hi hw
  | notifyNobody hi hnone => exact h.notifyOne hi hnone
  | sleep hw hqueue hstop => exact h.leave hw hqueue (.inl ⟨rfl, hstop⟩)
  | leave hw hqueue hstop => exact h.leave hw hqueue (.inr ⟨rfl, hstop⟩)
  | take hw hqueue => exact h.take hw hqueue
  | dispatch hw => exact h.dispatch hw
  | wakeUp hw => exact h.wakeUp hw
  | stop _ => exact h.stop
  | notifyAll hshutdown => exact h.notifyAll hshutdown
  | join hshutdown hgone => exact h.join hshutdown hgone

theorem reaches_inv {threadNumber maxRequests : ℕ} {allowed : Pool ρ → Move ρ → Prop}
    (hrun : Reaches threadNumber maxRequests allowed s) : Inv threadNumber maxRequests s := by
  induction hrun with
  | start mState => exact inv_start _ _ mState
  | step _ _ hstep ih => exact ih.fires (fires_of_step hstep)

/-- A worker leaves only when the flag is set and the queue is empty. -/
theorem exited_fires {maxRequests w : ℕ} {s' : Pool ρ} {m : Move ρ}
    (hfires : Fires maxRequests s m s') (hw : s'.workers[w]? = some .exited) :
    s.workers[w]? = some .exited ∨ s.stop = true ∧ s.workqueue = [] ∧ s'.workqueue = [] := by
  have hset : ∀ {v : ℕ} {new : Worker ρ}, new ≠ .exited →
      (s.workers.set v new)[w]? = some .exited → s.workers[w]? = some .exited := by
    intro v new hnew hv
    rw [List.getElem?_set] at hv
    split at hv
    · split at hv
      · exact absurd (Option.some.inj hv) hnew
      · cases hv
    · exact hv
  cases hfires with
  | begin _ => exact .inl hw
  | rejected _ _ => exact .inl hw
  | @accepted _ call _ _ =>
    cases call <;> exact .inl hw
  | notifyWorker _ _ => exact .inl (hset (by simp) hw)
  | notifyNobody _ _ => exact .inl hw
  | sleep _ _ _ => exact .inl (hset (by simp) hw)
  | leave _ hqueue hstop => exact .inr ⟨hstop, hqueue, hqueue⟩
  | take _ _ => exact .inl (hset (by simp) hw)
  | dispatch _ => exact .inl (hset (by simp) hw)
  | wakeUp _ => exact .inl (hset (by simp) hw)
  | stop _ => exact .inl hw
  | notifyAll _ =>
    obtain ⟨worker, hworker, hwake⟩ := Option.map_eq_some_iff.mp ((List.getElem?_map ..).symm.trans hw)
    cases worker <;> cases hwake
    exact .inl hworker
  | join _ _ => exact .inl hw

/-- Only an accepted call makes the queue longer. -/
theorem queue_fires {maxRequests : ℕ} {s' : Pool ρ} {m : Move ρ}
    (hfires : Fires maxRequests s m s') (hempty : s.workqueue = []) :
    s'.workqueue = [] ∨ ∃ i, m = .enter i := by
  cases hfires with
  | accepted _ _ => exact .inr ⟨_, rfl⟩
  | take _ hqueue =>
    rw [hempty] at hqueue
    cases hqueue
  | _ => exact .inl hempty

/-- The state of a request is changed only by an append that is accepted. -/
theorem mState_fires {maxRequests : ℕ} {s' : Pool ρ} {m : Move ρ} {request : ρ}
    (hfires : Fires maxRequests s m s') (hchanged : s'.mState request ≠ s.mState request) :
    ∃ i state, m = .enter i ∧ s'.calls[i]? = some (.append request state, .notifying) ∧
      s'.mState request = state := by
  cases hfires with
  | @accepted i call hi hroom =>
    cases call with
    | append request' state =>
      by_cases heq : request = request'
      · subst heq
        exact ⟨i, state, rfl, lookup_set hi, if_pos rfl⟩
      · exact absurd (if_neg heq) hchanged
    | appendP request' => exact absurd rfl hchanged
  | _ => exact absurd rfl hchanged

/-- No call locks the mutex once the destructor has set the flag. -/
def Timely (s : Pool ρ) (m : Move ρ) : Prop := ∀ i, m = .enter i → s.stop = false

/-- No call begins once the destructor has set the flag. -/
def BeginsInTime (s : Pool ρ) (m : Move ρ) : Prop := ∀ call, m = .begin call → s.stop = false

/-- The first worker that leaves leaves an empty queue for good. -/
theorem reaches_drained {threadNumber maxRequests : ℕ}
    (hrun : Reaches threadNumber maxRequests Timely s) (hexited : Worker.exited ∈ s.workers) :
    s.workqueue = [] := by
  induction hrun with
  | start mState => rfl
  | @step s s' m hrun htimely hstep ih =>
    have hfires := fires_of_step hstep
    obtain ⟨w, hw⟩ := List.mem_iff_getElem?.mp hexited
    rcases exited_fires hfires hw with hold | ⟨-, -, hempty⟩
    · have hmem : Worker.exited ∈ s.workers := List.mem_of_getElem? hold
      rcases queue_fires hfires (ih hmem) with hempty | ⟨i, hm⟩
      · exact hempty
      · have hstop := (reaches_inv hrun).exited hmem
        rw [htimely i hm] at hstop
        cases hstop
    · exact hempty

/-- Neither a call nor a worker nor the destructor has a step to make, unless a
call begins, a worker wakes up by itself or the destructor begins. -/
def Idle (maxRequests : ℕ) (s : Pool ρ) : Prop :=
  ∀ m s', s.step maxRequests m = some s' →
    (∃ call, m = .begin call) ∨ (∃ w, m = .wakeUp w) ∨ m = .stop

/-- What is asked of a state that the pool reaches. `dispatched` and `pickedUp`
list what was handed to the dispatcher and what was taken from the queue. -/
structure RunsOnce (maxRequests : ℕ) (s : Pool ρ) : Prop where
  bounded : s.workqueue.length ≤ maxRequests
  inOrder : s.pickedUp <+: s.accepted
  accepted : ∀ (i : ℕ) call, s.calls[i]? = some (call, .returned true) →
    s.accepted.count ⟨i, call.request⟩ = 1
  atMostOnce : ∀ t, s.dispatched.count t ≤ 1
  onlyAccepted : ∀ t ∈ s.dispatched, s.Pushed t
  rejected : ∀ (i : ℕ) call, s.calls[i]? = some (call, .returned false) →
    ∀ t ∈ s.pickedUp ++ s.dispatched, t.call ≠ i
  untouched : ∀ m s' request, s.step maxRequests m = some s' →
    s'.mState request ≠ s.mState request → ∃ i state, m = .enter i ∧
      s'.calls[i]? = some (.append request state, .notifying) ∧ s'.mState request = state
  leaves : ∀ m s' (w : ℕ), s.step maxRequests m = some s' → s'.workers[w]? = some .exited →
    s.workers[w]? = some .exited ∨ s.stop = true ∧ s.workqueue = []
  joined : s.shutdown = .joined → ∀ t ∈ s.accepted, s.dispatched.count t = 1
  idle : Idle maxRequests s → ∀ t ∈ s.accepted, s.dispatched.count t = 1

theorem Inv.count_dispatched_le {threadNumber maxRequests : ℕ}
    (h : Inv threadNumber maxRequests s) (t : Ticket ρ) :
    s.dispatched.count t ≤ s.pickedUp.count t := by
  rw [h.held.count_eq, List.count_append]
  omega

theorem Inv.count_pickedUp_le {threadNumber maxRequests : ℕ} (h : Inv threadNumber maxRequests s)
    (t : Ticket ρ) : s.pickedUp.count t ≤ s.accepted.count t := by
  rw [h.order, List.count_append]
  omega

/-- Everything accepted has been dispatched when the queue is empty and no
worker holds a request. -/
theorem Inv.all_dispatched {threadNumber maxRequests : ℕ} (h : Inv threadNumber maxRequests s)
    (hqueue : s.workqueue = []) (hheld : ∀ worker ∈ s.workers, worker.held = none) :
    ∀ t ∈ s.accepted, s.dispatched.count t = 1 := by
  intro t ht
  have hnone : s.workers.filterMap Worker.held = [] := List.filterMap_eq_nil_iff.mpr hheld
  have hcount := h.held.count_eq t
  rw [hnone, List.nil_append] at hcount
  have horder := h.order
  rw [hqueue, List.append_nil] at horder
  rw [← hcount, ← horder]
  exact List.count_eq_one_of_mem h.nodup_accepted ht

/-- Where nothing moves, every worker sleeps or is gone and no call has yet to notify. -/
theorem Idle.asleep {maxRequests : ℕ} (hidle : Idle maxRequests s) :
    (∀ worker ∈ s.workers, worker = .waiting ∨ worker = .exited) ∧
      ∀ (i : ℕ) call, s.calls[i]? ≠ some (call, .notifying) := by
  constructor
  · intro worker hmem
    obtain ⟨w, hw⟩ := List.mem_iff_getElem?.mp hmem
    cases worker with
    | waiting => exact .inl rfl
    | exited => exact .inr rfl
    | locking => rcases hidle (.check w) _ (if_pos hw) with ⟨_, hm⟩ | ⟨_, hm⟩ | hm <;> cases hm
    | holding ticket =>
      have hstep : s.step maxRequests (.dispatch w) = some (s.dispatch w ticket) := by
        simp only [Pool.step, hw]
      rcases hidle _ _ hstep with ⟨_, hm⟩ | ⟨_, hm⟩ | hm <;> cases hm
  · intro i call hi
    by_cases hsleeps : s.workers.any Worker.sleeps = true
    · obtain ⟨worker, hmem, hworker⟩ := List.any_eq_true.mp hsleeps
      obtain ⟨w, hw⟩ := List.mem_iff_getElem?.mp hmem
      cases worker <;> cases hworker
      have hstep : s.step maxRequests (.notifyOne i (some w)) =
          some ((s.setCall i call (.returned true)).setWorker w .locking) := by
        simp only [Pool.step, hi, hw, if_pos]
      rcases hidle _ _ hstep with ⟨_, hm⟩ | ⟨_, hm⟩ | hm <;> cases hm
    · have hstep : s.step maxRequests (.notifyOne i none) =
          some (s.setCall i call (.returned true)) := by
        simp only [Pool.step, hi, if_neg hsleeps]
      rcases hidle _ _ hstep with ⟨_, hm⟩ | ⟨_, hm⟩ | hm <;> cases hm

/-- The pool keeps within its bound and runs every accepted request once, in
the order of acceptance, and nothing is left when its workers are joined. -/
theorem accepted_run_once {threadNumber maxRequests : ℕ} (hthreads : 0 < threadNumber)
    (hrun : Reaches threadNumber maxRequests Timely s) : RunsOnce maxRequests s := by
  have h := reaches_inv hrun
  have hcrew : ∃ worker, worker ∈ s.workers :=
    List.exists_mem_of_length_pos (by rw [h.crew]; exact hthreads)
  have hpushed : ∀ t ∈ s.pickedUp, s.Pushed t := by
    intro t ht
    exact (h.pushed t).mp (h.order ▸ List.mem_append_left _ ht)
  have hpicked : ∀ t ∈ s.dispatched, t ∈ s.pickedUp := by
    intro t ht
    exact h.held.mem_iff.mpr (List.mem_append_right _ ht)
  refine ⟨h.bound, ⟨s.workqueue, h.order.symm⟩, ?_, ?_, ?_, ?_, ?_, ?_, ?_, ?_⟩
  · intro i call hi
    exact List.count_eq_one_of_mem h.nodup_accepted ((h.pushed _).mpr ⟨call, _, hi, rfl, rfl⟩)
  · intro t
    calc s.dispatched.count t ≤ s.pickedUp.count t := h.count_dispatched_le t
      _ ≤ s.accepted.count t := h.count_pickedUp_le t
      _ ≤ 1 := List.nodup_iff_count_le_one.mp h.nodup_accepted t
  · intro t ht
    exact hpushed t (hpicked t ht)
  · intro i call hi t ht hcall
    have hmem : t ∈ s.pickedUp := by
      rcases List.mem_append.mp ht with ht | ht
      · exact ht
      · exact hpicked t ht
    obtain ⟨call', stage, hlookup, haccepted, -⟩ := hpushed t hmem
    rw [hcall, hi] at hlookup
    cases hlookup
    cases haccepted
  · intro m s' request hstep hchanged
    exact mState_fires (fires_of_step hstep) hchanged
  · intro m s' w hstep hw
    rcases exited_fires (fires_of_step hstep) hw with hold | ⟨hstop, hqueue, -⟩
    · exact .inl hold
    · exact .inr ⟨hstop, hqueue⟩
  · intro hjoined
    have hgone := h.joined hjoined
    obtain ⟨worker, hmem⟩ := hcrew
    have hqueue := reaches_drained hrun (hgone worker hmem ▸ hmem)
    exact h.all_dispatched hqueue fun other hother => by rw [hgone other hother]; rfl
  · intro hidle
    obtain ⟨hasleep, hnotified⟩ := hidle.asleep
    have hqueue : s.workqueue = [] := by
      by_contra hne
      rcases h.noticed hne with ⟨worker, hmem, hbusy⟩ | ⟨i, call, hi⟩ | hnone
      · rcases hasleep worker hmem with rfl | rfl <;> exact hbusy
      · exact hnotified i call hi
      · obtain ⟨worker, hmem⟩ := hcrew
        rcases hasleep worker hmem with rfl | rfl
        · exact hnone hmem
        · exact hne (reaches_drained hrun hmem)
    apply h.all_dispatched hqueue
    intro worker hmem
    rcases hasleep worker hmem with rfl | rfl <;> rfl

/-! ## One worker -/

/-- The end of a run each move of which passes a test. -/
def follow (maxRequests : ℕ) (test : Pool ρ → Move ρ → Bool) (s : Pool ρ) :
    List (Move ρ) → Option (Pool ρ)
  | [] => some s
  | m :: rest =>
    if test s m then (s.step maxRequests m).bind fun s' => follow maxRequests test s' rest
    else none

theorem Reaches.follow {threadNumber maxRequests : ℕ} {allowed : Pool ρ → Move ρ → Prop}
    {test : Pool ρ → Move ρ → Bool} (htest : ∀ s m, test s m = true → allowed s m)
    {moves : List (Move ρ)} {s' : Pool ρ} (hrun : Reaches threadNumber maxRequests allowed s)
    (hfollow : ThreadPool.follow maxRequests test s moves = some s') :
    Reaches threadNumber maxRequests allowed s' := by
  induction moves generalizing s with
  | nil =>
    cases hfollow
    exact hrun
  | cons m rest ih =>
    obtain ⟨hm, hrest⟩ := Option.ite_none_right_eq_some.mp hfollow
    obtain ⟨next, hnext, hend⟩ := Option.bind_eq_some_iff.mp hrest
    exact ih (.step hrun (htest s m hm) hnext) hend

def entersInTime (s : Pool ρ) : Move ρ → Bool
  | .enter _ => !s.stop
  | _ => true

def beginsInTime (s : Pool ρ) : Move ρ → Bool
  | .begin _ => !s.stop
  | _ => true

omit [DecidableEq ρ] in
theorem timely_of_test (s : Pool ρ) (m : Move ρ) (htest : entersInTime s m = true) :
    Timely s m := by
  rintro i rfl
  simpa [entersInTime] using htest

omit [DecidableEq ρ] in
theorem beginsInTime_of_test (s : Pool ρ) (m : Move ρ) (htest : beginsInTime s m = true) :
    BeginsInTime s m := by
  rintro call rfl
  simpa [beginsInTime] using htest

/-- A request is accepted and dispatched before the destructor joins the worker. -/
theorem accepted_run_once_small : ∃ s : Pool ℕ, s.shutdown = .joined ∧
    s.calls = [(.append 7 1, .returned true)] ∧ s.dispatched = [⟨0, 7⟩] ∧ RunsOnce 1 s := by
  have hend : (follow 1 entersInTime (.start 1 fun _ : ℕ => 0)
      [.check 0, .begin (.append 7 1), .enter 0, .notifyOne 0 (some 0), .check 0, .dispatch 0,
        .stop, .notifyAll, .check 0, .join]).map
      (fun s => (s.shutdown, s.calls, s.dispatched)) =
        some (.joined, [(.append 7 1, .returned true)], [⟨0, 7⟩]) := by decide
  obtain ⟨s, hfollow, hs⟩ := Option.map_eq_some_iff.mp hend
  simp only [Prod.mk.injEq] at hs
  obtain ⟨hshutdown, hcalls, hdispatched⟩ := hs
  exact ⟨s, hshutdown, hcalls, hdispatched,
    accepted_run_once Nat.one_pos (Reaches.follow timely_of_test (.start fun _ => 0) hfollow)⟩

/-- A call that begins before the destructor sets the flag locks the mutex after
the worker has left: it returns true and its request is never dispatched. -/
theorem late_request_stranded : ∃ s : Pool ℕ, Reaches 1 1 BeginsInTime s ∧
    s.shutdown = .joined ∧ s.calls = [(.appendP 7, .returned true)] ∧ s.dispatched = [] := by
  have hend : (follow 1 beginsInTime (.start 1 fun _ : ℕ => 0)
      [.begin (.appendP 7), .stop, .notifyAll, .check 0, .enter 0, .notifyOne 0 none, .join]).map
      (fun s => (s.shutdown, s.calls, s.dispatched)) =
        some (.joined, [(.appendP 7, .returned true)], []) := by decide
  obtain ⟨s, hfollow, hs⟩ := Option.map_eq_some_iff.mp hend
  simp only [Prod.mk.injEq] at hs
  obtain ⟨hshutdown, hcalls, hdispatched⟩ := hs
  exact ⟨s, Reaches.follow beginsInTime_of_test (.start fun _ => 0) hfollow, hshutdown, hcalls,
    hdispatched⟩

end Bookstore.ThreadPool
