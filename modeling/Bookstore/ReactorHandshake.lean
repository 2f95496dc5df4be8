import Mathlib.Data.List.Basic
import Mathlib.Logic.Function.Basic

/-!
The event loop and the workers in the reactor model, and the two flags of a
connection by which a worker tells wait_improv how its read_once or write ended.
Every load and store of a flag is a step of its own. The state keeps how the I/O
of each dispatch ended and whether its wait_improv called deal_timer.
-/
namespace Bookstore.ReactorHandshake

/-- The event loop is free, or wait_improv polls improv, reads timer_flag, calls
deal_timer or clears one of the flags for a dispatch of a connection. -/
inductive Main
  | ready
  | polling (d fd : ℕ)
  | reading (d fd : ℕ)
  | dealing (d fd : ℕ)
  | clearingFlag (d fd : ℕ)
  | clearingImprov (d fd : ℕ)
deriving DecidableEq

/-- A worker is free of dispatches, has taken one, or has its I/O behind it and
one of its stores before it. -/
inductive Worker
  | idle
  | serving (d fd : ℕ)
  | storingImprov (d fd : ℕ) (result : Bool)
  | storingFlag (d fd : ℕ)
deriving DecidableEq

/-- What became of the dispatches, which are numbered: `returned` pairs one with
the result of its I/O, `waited` with whether its wait_improv calls deal_timer. -/
structure Ledger where
  dispatches : ℕ
  returned : List (ℕ × Bool)
  waited : List (ℕ × Bool)

namespace Ledger

variable (l : Ledger)

def begin : Ledger := { l with dispatches := l.dispatches + 1 }

def answer (d : ℕ) (result : Bool) : Ledger := { l with returned := l.returned ++ [(d, result)] }

def decide (d : ℕ) (dealt : Bool) : Ledger := { l with waited := l.waited ++ [(d, dealt)] }

end Ledger

/-- `forWrite` is m_state. -/
structure State where
  improv : ℕ → Bool
  timerFlag : ℕ → Bool
  forWrite : ℕ → Bool
  queue : List (ℕ × ℕ)
  main : Main
  workers : ℕ → Worker
  ledger : Ledger

def State.start : State where
  improv := fun _ => false
  timerFlag := fun _ => false
  forWrite := fun _ => false
  queue := []
  main := .ready
  workers := fun _ => .idle
  ledger := ⟨0, [], []⟩

/-- The event loop sets up an accepted connection, dispatches an event, or goes
on in wait_improv; a worker takes a dispatch, does its I/O, which may end in
reset_state, or makes one of its stores. -/
inductive Step
  | init (fd : ℕ)
  | dispatch (fd : ℕ) (forWrite : Bool)
  | poll
  | readFlag
  | dealTimer
  | clearFlag
  | clearImprov
  | take (i : ℕ)
  | io (i : ℕ) (result resets : Bool)
  | storeImprov (i : ℕ)
  | storeFlag (i : ℕ)

namespace State

variable (s : State)

def resetState (fd : ℕ) : State :=
  { s with
    forWrite := Function.update s.forWrite fd false
    improv := Function.update s.improv fd false
    timerFlag := Function.update s.timerFlag fd false }

/-- The reactor branch of dealwithread and dealwithwrite, up to wait_improv,
which is entered whether or not append has taken the request. -/
def append (maxRequests fd : ℕ) (forWrite : Bool) : State :=
  let begun := { s with
    main := .polling s.ledger.dispatches fd
    ledger := s.ledger.begin }
  if maxRequests ≤ s.queue.length then begun
  else
    { begun with
      forWrite := Function.update s.forWrite fd forWrite
      queue := s.queue ++ [(s.ledger.dispatches, fd)] }

def poll : State :=
  match s.main with
  | .polling d fd => if s.improv fd then { s with main := .reading d fd } else s
  | _ => s

def readFlag : State :=
  match s.main with
  | .reading d fd =>
    if s.timerFlag fd then { s with main := .dealing d fd }
    else
      { s with
        main := .clearingImprov d fd
        ledger := s.ledger.decide d false }
  | _ => s

def dealTimer : State :=
  match s.main with
  | .dealing d fd =>
    { s with
      main := .clearingFlag d fd
      ledger := s.ledger.decide d true }
  | _ => s

def clearFlag : State :=
  match s.main with
  | .clearingFlag d fd =>
    { s with
      main := .clearingImprov d fd
      timerFlag := Function.update s.timerFlag fd false }
  | _ => s

def clearImprov : State :=
  match s.main with
  | .clearingImprov _ fd =>
    { s with
      main := .ready
      improv := Function.update s.improv fd false }
  | _ => s

def setWorker (i : ℕ) (worker : Worker) : State :=
  { s with workers := Function.update s.workers i worker }

def take (i : ℕ) : State :=
  match s.queue with
  | [] => s
  | (d, fd) :: rest => { s with queue := rest }.setWorker i (.serving d fd)

/-- read_once or write, as m_state says. -/
def io (i : ℕ) (result resets : Bool) : State :=
  match s.workers i with
  | .serving d fd =>
    let done := if resets then s.resetState fd else s
    { done with ledger := s.ledger.answer d result }.setWorker i (.storingImprov d fd result)
  | _ => s

/-- After a success the dispatcher is done with the flags: process touches neither. -/
def storeImprov (i : ℕ) : State :=
  match s.workers i with
  | .storingImprov d fd result =>
    { s with improv := Function.update s.improv fd true }.setWorker i
      (if result then .idle else .storingFlag d fd)
  | _ => s

def storeFlag (i : ℕ) : State :=
  match s.workers i with
  | .storingFlag _ fd =>
    { s with timerFlag := Function.update s.timerFlag fd true }.setWorker i .idle
  | _ => s

end State

section Runs

variable (threads maxRequests : ℕ)

def perform (s : State) : Step → State
  | .init fd => s.resetState fd
  | .dispatch fd forWrite => s.append maxRequests fd forWrite
  | .poll => s.poll
  | .readFlag => s.readFlag
  | .dealTimer => s.dealTimer
  | .clearFlag => s.clearFlag
  | .clearImprov => s.clearImprov
  | .take i => s.take i
  | .io i result resets => s.io i result resets
  | .storeImprov i => s.storeImprov i
  | .storeFlag i => s.storeFlag i

/-- When a step can be taken. Only a write that succeeds calls reset_state. -/
def CanStep (s : State) : Step → Prop
  | .init _ | .dispatch _ _ => s.main = .ready
  | .poll => ∃ d fd, s.main = .polling d fd
  | .readFlag => ∃ d fd, s.main = .reading d fd
  | .dealTimer => ∃ d fd, s.main = .dealing d fd
  | .clearFlag => ∃ d fd, s.main = .clearingFlag d fd
  | .clearImprov => ∃ d fd, s.main = .clearingImprov d fd
  | .take i => i < threads ∧ s.workers i = .idle ∧ s.queue ≠ []
  | .io i result resets => i < threads ∧ ∃ d fd, s.workers i = .serving d fd ∧
      (resets = true → result = true ∧ s.forWrite fd = true)
  | .storeImprov i => i < threads ∧ ∃ d fd result, s.workers i = .storingImprov d fd result
  | .storeFlag i => i < threads ∧ ∃ d fd, s.workers i = .storingFlag d fd

def performAll (s : State) (steps : List Step) : State := steps.foldl (perform maxRequests) s

/-- Each step of a run meets `P` in the state it finds. -/
def Always (P : State → Step → Prop) : State → List Step → Prop
  | _, [] => True
  | s, step :: rest => P s step ∧ Always P (perform maxRequests s step) rest

end Runs

/-- wait_improv reads timer_flag of a connection for which a worker has stored
improv and has yet to store timer_flag. -/
def Between (s : State) : Step → Prop
  | .readFlag => ∃ d fd i d', s.main = .reading d fd ∧ s.workers i = .storingFlag d' fd
  | _ => False

/-- deal_timer is called for the dispatches whose I/O failed and for no others,
and wait_improv does not get stuck when the I/O has returned. -/
structure Handled (s : State) : Prop where
  right : ∀ d result dealt, (d, result) ∈ s.ledger.returned → (d, dealt) ∈ s.ledger.waited →
    dealt = !result
  goesOn : ∀ d result, (d, result) ∈ s.ledger.returned → (∃ dealt, (d, dealt) ∈ s.ledger.waited) ∨
    ∃ fd, (s.main = .polling d fd ∧
        (s.improv fd = true ∨ ∃ i, s.workers i = .storingImprov d fd result)) ∨
      s.main = .reading d fd ∨ s.main = .dealing d fd

/-! ## Dispatches and their ends -/

namespace Ledger

variable {l : Ledger}

/-- Every dispatch whose I/O has returned has been waited for. -/
structure Closed (l : Ledger) : Prop where
  began : ∀ d result, (d, result) ∈ l.returned → d < l.dispatches
  waited : ∀ d dealt, (d, dealt) ∈ l.waited → d < l.dispatches
  right : ∀ d result dealt, (d, result) ∈ l.returned → (d, dealt) ∈ l.waited → dealt = !result
  settled : ∀ d result, (d, result) ∈ l.returned → ∃ dealt, (d, dealt) ∈ l.waited

/-- Dispatch `d` is waited for, and its I/O has returned `answer`, if anything. -/
structure Open (l : Ledger) (d : ℕ) (answer : Option Bool) : Prop where
  current : d < l.dispatches
  began : ∀ d' result, (d', result) ∈ l.returned → d' < l.dispatches
  waited : ∀ d' dealt, (d', dealt) ∈ l.waited → d' < l.dispatches
  right : ∀ d' result dealt, (d', result) ∈ l.returned → (d', dealt) ∈ l.waited → dealt = !result
  undecided : ∀ dealt, (d, dealt) ∉ l.waited
  answered : ∀ result, (d, result) ∈ l.returned ↔ answer = some result
  settled : ∀ d' result, (d', result) ∈ l.returned → d' ≠ d → ∃ dealt, (d', dealt) ∈ l.waited

theorem Closed.begin (h : l.Closed) : l.begin.Open l.dispatches none where
  current := Nat.lt_succ_self _
  began d result hd := Nat.lt_succ_of_lt (h.began d result hd)
  waited d dealt hd := Nat.lt_succ_of_lt (h.waited d dealt hd)
  right := h.right
  undecided dealt hd := Nat.lt_irrefl _ (h.waited _ _ hd)
  answered result := by
    constructor
    · intro hd
      exact absurd (h.began _ _ hd) (Nat.lt_irrefl _)
    · intro hnone
      cases hnone
  settled d result hd _ := h.settled d result hd

theorem Open.answer {d : ℕ} (h : l.Open d none) (result : Bool) :
    (l.answer d result).Open d (some result) where
  current := h.current
  began d' result' hd := by
    rcases List.mem_append.mp hd with hd | hd
    · exact h.began _ _ hd
    · cases List.mem_singleton.mp hd
      exact h.current
  waited := h.waited
  right d' result' dealt hd hdealt := by
    rcases List.mem_append.mp hd with hd | hd
    · exact h.right _ _ _ hd hdealt
    · cases List.mem_singleton.mp hd
      exact absurd hdealt (h.undecided dealt)
  undecided := h.undecided
  answered result' := by
    have hnone := h.answered result'
    simp only [Ledger.answer, List.mem_append, List.mem_singleton, Prod.mk.injEq, true_and, hnone,
      reduceCtorEq, false_or, Option.some.injEq]
    exact eq_comm
  settled d' result' hd hne := by
    rcases List.mem_append.mp hd with hd | hd
    · exact h.settled _ _ hd hne
    · cases List.mem_singleton.mp hd
      exact absurd rfl hne

/-- wait_improv decides as the I/O has returned. -/
theorem Open.decide {d : ℕ} {result : Bool} (h : l.Open d (some result)) :
    (l.decide d !result).Closed where
  began := h.began
  waited d' dealt hd := by
    rcases List.mem_append.mp hd with hd | hd
    · exact h.waited _ _ hd
    · cases List.mem_singleton.mp hd
      exact h.current
  right d' result' dealt hd hdealt := by
    rcases List.mem_append.mp hdealt with hdealt | hdealt
    · exact h.right _ _ _ hd hdealt
    · cases List.mem_singleton.mp hdealt
      cases (h.answered result').mp hd
      rfl
  settled d' result' hd := by
    by_cases hd' : d' = d
    · subst hd'
      exact ⟨!result, List.mem_append_right _ (List.mem_singleton.mpr rfl)⟩
    · obtain ⟨dealt, hdealt⟩ := h.settled d' result' hd hd'
      exact ⟨dealt, List.mem_append_left _ hdealt⟩

end Ledger

/-! ## Where a dispatch stands -/

def clear : ℕ → Bool := fun _ => false

def setAt (fd : ℕ) : ℕ → Bool := Function.update clear fd true

def allIdle : ℕ → Worker := fun _ => .idle

def only (i : ℕ) (worker : Worker) : ℕ → Worker := Function.update allIdle i worker

@[simp] theorem update_clear (fd : ℕ) : Function.update clear fd false = clear :=
  Function.update_eq_self fd clear

@[simp] theorem update_setAt (fd : ℕ) : Function.update (setAt fd) fd false = clear := by
  rw [setAt, Function.update_idem, update_clear]

@[simp] theorem update_only (i : ℕ) (worker worker' : Worker) :
    Function.update (only i worker) i worker' = only i worker' := by
  rw [only, Function.update_idem, only]

@[simp] theorem only_idle (i : ℕ) : only i .idle = allIdle := Function.update_eq_self i allIdle

@[simp] theorem setAt_self (fd : ℕ) : setAt fd fd = true := Function.update_self ..

theorem only_apply {i j : ℕ} {worker worker' : Worker} (hj : only i worker j = worker')
    (hbusy : worker' ≠ .idle) : j = i ∧ worker = worker' := by
  by_cases hji : j = i
  · subst hji
    exact ⟨rfl, (Function.update_self ..).symm.trans hj⟩
  · rw [only, Function.update_of_ne hji] at hj
    exact absurd hj.symm hbusy

/-- How far the latest dispatch has come, as long as wait_improv has never read
timer_flag between the two stores of a worker. -/
inductive Standing (s : State) : Prop
  | ready (main : s.main = .ready) (queue : s.queue = []) (workers : s.workers = allIdle)
    (improv : s.improv = clear) (timerFlag : s.timerFlag = clear) (ledger : s.ledger.Closed)
  | queued (d fd : ℕ) (main : s.main = .polling d fd) (queue : s.queue = [(d, fd)] ∨ s.queue = [])
    (workers : s.workers = allIdle) (improv : s.improv = clear) (timerFlag : s.timerFlag = clear)
    (ledger : s.ledger.Open d none)
  | serving (i d fd : ℕ) (main : s.main = .polling d fd) (queue : s.queue = [])
    (workers : s.workers = only i (.serving d fd)) (improv : s.improv = clear)
    (timerFlag : s.timerFlag = clear) (ledger : s.ledger.Open d none)
  | returned (i d fd : ℕ) (result : Bool) (main : s.main = .polling d fd) (queue : s.queue = [])
    (workers : s.workers = only i (.storingImprov d fd result)) (improv : s.improv = clear)
    (timerFlag : s.timerFlag = clear) (ledger : s.ledger.Open d (some result))
  | halfway (i d fd : ℕ) (main : s.main = .polling d fd ∨ s.main = .reading d fd)
    (queue : s.queue = []) (workers : s.workers = only i (.storingFlag d fd))
    (improv : s.improv = setAt fd) (timerFlag : s.timerFlag = clear)
    (ledger : s.ledger.Open d (some false))
  | stored (d fd : ℕ) (result : Bool) (main : s.main = .polling d fd ∨ s.main = .reading d fd)
    (queue : s.queue = []) (workers : s.workers = allIdle) (improv : s.improv = setAt fd)
    (timerFlag : s.timerFlag = if result then clear else setAt fd)
    (ledger : s.ledger.Open d (some result))
  | dealing (d fd : ℕ) (main : s.main = .dealing d fd) (queue : s.queue = [])
    (workers : s.workers = allIdle) (improv : s.improv = setAt fd)
    (timerFlag : s.timerFlag = setAt fd) (ledger : s.ledger.Open d (some false))
  | clearingFlag (d fd : ℕ) (main : s.main = .clearingFlag d fd) (queue : s.queue = [])
    (workers : s.workers = allIdle) (improv : s.improv = setAt fd)
    (timerFlag : s.timerFlag = setAt fd) (ledger : s.ledger.Closed)
  | clearingImprov (d fd : ℕ) (main : s.main = .clearingImprov d fd) (queue : s.queue = [])
    (workers : s.workers = allIdle) (improv : s.improv = setAt fd)
    (timerFlag : s.timerFlag = clear) (ledger : s.ledger.Closed)

theorem standing_start : Standing .start := by
  refine .ready rfl rfl rfl rfl rfl ⟨?_, ?_, ?_, ?_⟩ <;> simp [State.start]

/-! ## What each step does to it -/

theorem Standing.of_ready (h : Standing s) (hmain : s.main = .ready) :
    s.queue = [] ∧ s.workers = allIdle ∧ s.improv = clear ∧ s.timerFlag = clear ∧
      s.ledger.Closed := by
  cases h with
  | ready _ queue workers improv timerFlag ledger =>
    exact ⟨queue, workers, improv, timerFlag, ledger⟩
  | halfway _ _ _ main | stored _ _ _ main =>
    rcases main with main | main <;> cases hmain.symm.trans main
  | queued _ _ main | serving _ _ _ main | returned _ _ _ _ main | dealing _ _ main
  | clearingFlag _ _ main | clearingImprov _ _ main => cases hmain.symm.trans main

theorem Standing.init (h : Standing s) (hmain : s.main = .ready) (fd : ℕ) :
    Standing (s.resetState fd) := by
  obtain ⟨queue, workers, improv, timerFlag, ledger⟩ := h.of_ready hmain
  refine .ready hmain queue workers ?_ ?_ ledger
  · simp only [State.resetState, improv, update_clear]
  · simp only [State.resetState, timerFlag, update_clear]

theorem Standing.append (h : Standing s) (hmain : s.main = .ready) (maxRequests fd : ℕ)
    (forWrite : Bool) : Standing (s.append maxRequests fd forWrite) := by
  obtain ⟨queue, workers, improv, timerFlag, ledger⟩ := h.of_ready hmain
  unfold State.append
  split
  · exact .queued _ fd rfl (.inr queue) workers improv timerFlag ledger.begin
  · refine .queued _ fd rfl (.inl ?_) workers improv timerFlag ledger.begin
    simp only [queue, List.nil_append]

theorem Standing.poll (h : Standing s) : Standing s.poll := by
  unfold State.poll
  split
  · rename_i d fd hmain
    split
    · rename_i himprov
      cases h with
      | halfway i d' fd' main queue workers improv timerFlag ledger =>
        rcases main with main | main
        · cases hmain.symm.trans main
          exact .halfway i d fd (.inr rfl) queue workers improv timerFlag ledger
        · cases hmain.symm.trans main
      | stored d' fd' result main queue workers improv timerFlag ledger =>
        rcases main with main | main
        · cases hmain.symm.trans main
          exact .stored d fd result (.inr rfl) queue workers improv timerFlag ledger
        · cases hmain.symm.trans main
      | ready main _ _ improv | queued _ _ main _ _ improv | serving _ _ _ main _ _ improv
      | returned _ _ _ _ main _ _ improv =>
        rw [improv] at himprov
        cases himprov
      | dealing _ _ main | clearingFlag _ _ main | clearingImprov _ _ main =>
        cases hmain.symm.trans main
    · exact h
  · exact h

/-- The read of timer_flag finds what the worker has to tell. -/
theorem Standing.readFlag (h : Standing s) (hnot : ¬ Between s .readFlag) :
    Standing s.readFlag := by
  unfold State.readFlag
  split
  · rename_i d fd hmain
    cases h with
    | halfway i d' fd' main queue workers improv timerFlag ledger =>
      rcases main with main | main
      · cases hmain.symm.trans main
      · cases hmain.symm.trans main
        refine absurd ⟨d, fd, i, d, hmain, ?_⟩ hnot
        rw [workers]
        exact Function.update_self ..
    | stored d' fd' result main queue workers improv timerFlag ledger =>
      rcases main with main | main
      · cases hmain.symm.trans main
      · cases hmain.symm.trans main
        cases result with
        | true =>
          have hflag : s.timerFlag fd = false := by rw [timerFlag]; rfl
          rw [hflag]
          exact .clearingImprov d fd rfl queue workers improv timerFlag ledger.decide
        | false =>
          have hflag : s.timerFlag fd = true := by rw [timerFlag]; exact setAt_self fd
          rw [hflag]
          exact .dealing d fd rfl queue workers improv timerFlag ledger
    | ready main | queued _ _ main | serving _ _ _ main | returned _ _ _ _ main | dealing _ _ main
    | clearingFlag _ _ main | clearingImprov _ _ main => cases hmain.symm.trans main
  · exact h

theorem Standing.dealTimer (h : Standing s) : Standing s.dealTimer := by
  unfold State.dealTimer
  split
  · rename_i d fd hmain
    cases h with
    | dealing d' fd' main queue workers improv timerFlag ledger =>
      cases hmain.symm.trans main
      exact .clearingFlag d fd rfl queue workers improv timerFlag ledger.decide
    | halfway _ _ _ main | stored _ _ _ main =>
      rcases main with main | main <;> cases hmain.symm.trans main
    | ready main | queued _ _ main | serving _ _ _ main | returned _ _ _ _ main
    | clearingFlag _ _ main | clearingImprov _ _ main => cases hmain.symm.trans main
  · exact h

theorem Standing.clearFlag (h : Standing s) : Standing s.clearFlag := by
  unfold State.clearFlag
  split
  · rename_i d fd hmain
    cases h with
    | clearingFlag d' fd' main queue workers improv timerFlag ledger =>
      cases hmain.symm.trans main
      refine .clearingImprov d fd rfl queue workers improv ?_ ledger
      simp only [timerFlag, update_setAt]
    | halfway _ _ _ main | stored _ _ _ main =>
      rcases main with main | main <;> cases hmain.symm.trans main
    | ready main | queued _ _ main | serving _ _ _ main | returned _ _ _ _ main
    | dealing _ _ main | clearingImprov _ _ main => cases hmain.symm.trans main
  · exact h

theorem Standing.clearImprov (h : Standing s) : Standing s.clearImprov := by
  unfold State.clearImprov
  split
  · rename_i d fd hmain
    cases h with
    | clearingImprov d' fd' main queue workers improv timerFlag ledger =>
      cases hmain.symm.trans main
      refine .ready rfl queue workers ?_ timerFlag ledger
      simp only [improv, update_setAt]
    | halfway _ _ _ main | stored _ _ _ main =>
      rcases main with main | main <;> cases hmain.symm.trans main
    | ready main | queued _ _ main | serving _ _ _ main | returned _ _ _ _ main
    | dealing _ _ main | clearingFlag _ _ main => cases hmain.symm.trans main
  · exact h

theorem Standing.take (h : Standing s) {i : ℕ} (hqueue : s.queue ≠ []) : Standing (s.take i) := by
  cases h with
  | queued d fd main queue workers improv timerFlag ledger =>
    rcases queue with queue | queue
    · simp only [State.take, queue]
      refine .serving i d fd main rfl ?_ improv timerFlag ledger
      simp only [State.setWorker, workers, only]
    · exact absurd queue hqueue
  | ready _ queue | serving _ _ _ _ queue | returned _ _ _ _ _ queue | halfway _ _ _ _ queue
  | stored _ _ _ _ queue | dealing _ _ _ queue | clearingFlag _ _ _ queue
  | clearingImprov _ _ _ queue => exact absurd queue hqueue

/-- The one worker that is not idle, and what it does. -/
theorem Standing.io (h : Standing s) {i d fd : ℕ} (hw : s.workers i = .serving d fd)
    (result resets : Bool) : Standing (s.io i result resets) := by
  cases h with
  | serving j d' fd' main queue workers improv timerFlag ledger =>
    have hwhere := hw
    rw [workers] at hwhere
    obtain ⟨rfl, heq⟩ := only_apply hwhere (by simp)
    cases heq
    simp only [State.io, hw]
    cases resets with
    | true =>
      refine .returned i d fd result main queue ?_ ?_ ?_ (ledger.answer result)
      · simp only [State.setWorker, State.resetState, if_true, workers, update_only]
      · simp only [State.setWorker, State.resetState, if_true, improv, update_clear]
      · simp only [State.setWorker, State.resetState, if_true, timerFlag, update_clear]
    | false =>
      refine .returned i d fd result main queue ?_ improv timerFlag (ledger.answer result)
      simp only [State.setWorker, Bool.false_eq_true, if_false, workers, update_only]
  | returned _ _ _ _ _ _ workers | halfway _ _ _ _ _ workers =>
    rw [workers] at hw
    cases (only_apply hw (by simp)).2
  | ready _ _ workers | queued _ _ _ _ workers | stored _ _ _ _ _ workers
  | dealing _ _ _ _ workers | clearingFlag _ _ _ _ workers | clearingImprov _ _ _ _ workers =>
    rw [workers] at hw
    cases hw

theorem Standing.storeImprov (h : Standing s) {i d fd : ℕ} {result : Bool}
    (hw : s.workers i = .storingImprov d fd result) : Standing (s.storeImprov i) := by
  cases h with
  | returned j d' fd' result' main queue workers improv timerFlag ledger =>
    have hwhere := hw
    rw [workers] at hwhere
    obtain ⟨rfl, heq⟩ := only_apply hwhere (by simp)
    cases heq
    have himprov : Function.update s.improv fd true = setAt fd := by rw [improv, setAt]
    simp only [State.storeImprov, hw]
    cases result with
    | true =>
      refine .stored d fd true (.inl main) queue ?_ himprov timerFlag ledger
      simp only [State.setWorker, if_true, workers, update_only, only_idle]
    | false =>
      refine .halfway i d fd (.inl main) queue ?_ himprov timerFlag ledger
      simp only [State.setWorker, Bool.false_eq_true, if_false, workers, update_only]
  | serving _ _ _ _ _ workers | halfway _ _ _ _ _ workers =>
    rw [workers] at hw
    cases (only_apply hw (by simp)).2
  | ready _ _ workers | queued _ _ _ _ workers | stored _ _ _ _ _ workers
  | dealing _ _ _ _ workers | clearingFlag _ _ _ _ workers | clearingImprov _ _ _ _ workers =>
    rw [workers] at hw
    cases hw

theorem Standing.of_storingFlag (h : Standing s) {i d fd : ℕ}
    (hw : s.workers i = .storingFlag d fd) :
    (s.main = .polling d fd ∨ s.main = .reading d fd) ∧ s.queue = [] ∧
      s.workers = only i (.storingFlag d fd) ∧ s.improv = setAt fd ∧ s.timerFlag = clear ∧
      s.ledger.Open d (some false) := by
  cases h with
  | halfway j d' fd' main queue workers improv timerFlag ledger =>
    have hwhere := hw
    rw [workers] at hwhere
    obtain ⟨rfl, heq⟩ := only_apply hwhere (by simp)
    cases heq
    exact ⟨main, queue, workers, improv, timerFlag, ledger⟩
  | serving _ _ _ _ _ workers | returned _ _ _ _ _ _ workers =>
    rw [workers] at hw
    cases (only_apply hw (by simp)).2
  | ready _ _ workers | queued _ _ _ _ workers | stored _ _ _ _ _ workers
  | dealing _ _ _ _ workers | clearingFlag _ _ _ _ workers | clearingImprov _ _ _ _ workers =>
    rw [workers] at hw
    cases hw

theorem Standing.storeFlag (h : Standing s) {i d fd : ℕ}
    (hw : s.workers i = .storingFlag d fd) : Standing (s.storeFlag i) := by
  obtain ⟨main, queue, workers, improv, timerFlag, ledger⟩ := h.of_storingFlag hw
  simp only [State.storeFlag, hw]
  refine .stored d fd false main queue ?_ improv ?_ ledger
  · simp only [State.setWorker, workers, update_only, only_idle]
  · simp only [State.setWorker, timerFlag, setAt, Bool.false_eq_true, if_false]

theorem Standing.step {threads maxRequests : ℕ} {step : Step} (h : Standing s)
    (hcan : CanStep threads s step) (hnot : ¬ Between s step) :
    Standing (perform maxRequests s step) := by
  cases step with
  | init fd => exact h.init hcan fd
  | dispatch fd forWrite => exact h.append hcan maxRequests fd forWrite
  | poll => exact h.poll
  | readFlag => exact h.readFlag hnot
  | dealTimer => exact h.dealTimer
  | clearFlag => exact h.clearFlag
  | clearImprov => exact h.clearImprov
  | take i => exact h.take hcan.2.2
  | io i result resets =>
    obtain ⟨-, d, fd, hw, -⟩ := hcan
    exact h.io hw result resets
  | storeImprov i =>
    obtain ⟨-, d, fd, result, hw⟩ := hcan
    exact h.storeImprov hw
  | storeFlag i =>
    obtain ⟨-, d, fd, hw⟩ := hcan
    exact h.storeFlag hw

theorem Standing.handled (h : Standing s) : Handled s := by
  have hclosed : s.ledger.Closed → Handled s := fun ledger =>
    ⟨ledger.right, fun d result hd => .inl (ledger.settled d result hd)⟩
  have hopen : ∀ d fd answer, s.ledger.Open d answer →
      (∀ result, answer = some result → (s.main = .polling d fd ∧
        (s.improv fd = true ∨ ∃ i, s.workers i = .storingImprov d fd result)) ∨
          s.main = .reading d fd ∨ s.main = .dealing d fd) → Handled s := by
    intro d fd answer ledger hcurrent
    refine ⟨ledger.right, fun d' result hd => ?_⟩
    by_cases hd' : d' = d
    · subst hd'
      exact .inr ⟨fd, hcurrent result ((ledger.answered result).mp hd)⟩
    · exact .inl (ledger.settled d' result hd hd')
  cases h with
  | ready _ _ _ _ _ ledger | clearingFlag _ _ _ _ _ _ _ ledger
  | clearingImprov _ _ _ _ _ _ _ ledger => exact hclosed ledger
  | queued d fd _ _ _ _ _ ledger | serving _ d fd _ _ _ _ _ ledger =>
    exact hopen d fd none ledger (fun result hnone => by cases hnone)
  | returned i d fd result main _ workers _ _ ledger =>
    refine hopen d fd (some result) ledger fun result' heq => ?_
    cases heq
    refine .inl ⟨main, .inr ⟨i, ?_⟩⟩
    rw [workers]
    exact Function.update_self ..
  | halfway i d fd main _ _ improv _ ledger =>
    refine hopen d fd (some false) ledger fun _ _ => ?_
    rcases main with main | main
    · exact .inl ⟨main, .inl (by rw [improv]; exact setAt_self fd)⟩
    · exact .inr (.inl main)
  | stored d fd result main _ _ improv _ ledger =>
    refine hopen d fd (some result) ledger fun _ _ => ?_
    rcases main with main | main
    · exact .inl ⟨main, .inl (by rw [improv]; exact setAt_self fd)⟩
    · exact .inr (.inl main)
  | dealing d fd main _ _ _ _ ledger =>
    exact hopen d fd (some false) ledger fun _ _ => .inr (.inr main)

/-! ## A read that comes too early -/

/-- A dispatch is treated against the result of its I/O. -/
def Wrong (l : Ledger) : Prop :=
  ∃ d result, (d, result) ∈ l.returned ∧ (d, result) ∈ l.waited

theorem Wrong.not_handled (h : Wrong s.ledger) : ¬ Handled s := by
  obtain ⟨d, result, hreturned, hwaited⟩ := h
  intro hhandled
  have hright := hhandled.right d result result hreturned hwaited
  cases result <;> cases hright

theorem Wrong.answer {l : Ledger} (h : Wrong l) (d : ℕ) (result : Bool) :
    Wrong (l.answer d result) := by
  obtain ⟨d', result', hreturned, hwaited⟩ := h
  exact ⟨d', result', List.mem_append_left _ hreturned, hwaited⟩

theorem Wrong.decide {l : Ledger} (h : Wrong l) (d : ℕ) (dealt : Bool) :
    Wrong (l.decide d dealt) := by
  obtain ⟨d', result', hreturned, hwaited⟩ := h
  exact ⟨d', result', hreturned, List.mem_append_left _ hwaited⟩

theorem Wrong.step {maxRequests : ℕ} (h : Wrong s.ledger) (step : Step) :
    Wrong (perform maxRequests s step).ledger := by
  cases step with
  | init fd => exact h
  | dispatch fd forWrite =>
    simp only [perform, State.append]
    split <;> exact h
  | poll =>
    simp only [perform, State.poll]
    split
    · split <;> exact h
    · exact h
  | readFlag =>
    simp only [perform, State.readFlag]
    split
    · split
      · exact h
      · exact h.decide _ _
    · exact h
  | dealTimer =>
    simp only [perform, State.dealTimer]
    split
    · exact h.decide _ _
    · exact h
  | clearFlag =>
    simp only [perform, State.clearFlag]
    split <;> exact h
  | clearImprov =>
    simp only [perform, State.clearImprov]
    split <;> exact h
  | take i =>
    simp only [perform, State.take]
    split <;> exact h
  | io i result resets =>
    simp only [perform, State.io]
    split
    · exact h.answer _ _
    · exact h
  | storeImprov i =>
    simp only [perform, State.storeImprov]
    split <;> exact h
  | storeFlag i =>
    simp only [perform, State.storeFlag]
    split <;> exact h

theorem Wrong.run {maxRequests : ℕ} (h : Wrong s.ledger) (steps : List Step) :
    Wrong (performAll maxRequests s steps).ledger := by
  induction steps generalizing s with
  | nil => exact h
  | cons step rest ih => exact ih (h.step step)

/-- The first read between the two stores misses the failure. -/
theorem Standing.misses {step : Step} {maxRequests : ℕ} (h : Standing s)
    (hbetween : Between s step) : Wrong (perform maxRequests s step).ledger := by
  cases step with
  | readFlag =>
    obtain ⟨d, fd, i, d', hmain, hw⟩ := hbetween
    obtain ⟨main, -, -, -, timerFlag, ledger⟩ := h.of_storingFlag hw
    rcases main with main | main
    · cases hmain.symm.trans main
    · cases hmain.symm.trans main
      have hflag : s.timerFlag fd = false := by rw [timerFlag]; rfl
      refine ⟨d, false, ?_, ?_⟩
      · simp only [perform, State.readFlag, hmain, hflag]
        exact (ledger.answered false).mpr rfl
      · simp only [perform, State.readFlag, hmain, hflag]
        exact List.mem_append_right _ (List.mem_singleton.mpr rfl)
  | _ => exact hbetween.elim

theorem Standing.run_iff {threads maxRequests : ℕ} (h : Standing s) (steps : List Step)
    (hcan : Always maxRequests (CanStep threads) s steps) :
    Handled (performAll maxRequests s steps) ↔
      Always maxRequests (fun s step => ¬ Between s step) s steps := by
  induction steps generalizing s with
  | nil => exact ⟨fun _ => trivial, fun _ => h.handled⟩
  | cons step rest ih =>
    by_cases hbetween : Between s step
    · constructor
      · intro hhandled
        exact absurd hhandled (((h.misses hbetween).run rest).not_handled)
      · intro halways
        exact absurd hbetween halways.1
    · have hrest := ih (h.step hcan.1 hbetween) hcan.2
      exact hrest.trans ⟨fun halways => ⟨hbetween, halways⟩, fun halways => halways.2⟩

/-- For every number of workers, every queue bound and every interleaving,
deal_timer is called for exactly the dispatches whose I/O failed if and only if
timer_flag is never read between the two stores of a worker. -/
theorem handshake_right_iff (threads maxRequests : ℕ) (steps : List Step)
    (hcan : Always maxRequests (CanStep threads) .start steps) :
    Handled (performAll maxRequests .start steps) ↔
      Always maxRequests (fun s step => ¬ Between s step) .start steps :=
  standing_start.run_iff steps hcan

/-- The worker stores both flags before wait_improv polls. -/
def closedInTime : List Step :=
  [.dispatch 7 false, .take 0, .io 0 false false, .storeImprov 0, .storeFlag 0, .poll, .readFlag,
    .dealTimer]

/-- A read that fails is followed by deal_timer. -/
theorem handshake_right_small : Handled (performAll 1 .start closedInTime) ∧
    (performAll 1 .start closedInTime).ledger.waited = [(0, true)] := by
  refine ⟨(handshake_right_iff 1 1 closedInTime ?_).mpr ?_, rfl⟩
  · simp [closedInTime, Always, CanStep, perform, State.start, State.append, State.take,
      State.setWorker, State.io, State.storeImprov, State.storeFlag, State.poll, State.readFlag]
  · simp [closedInTime, Always, Between, perform, State.start, State.append, State.take,
      State.setWorker, State.io, State.storeImprov, State.storeFlag, State.poll]

/-- wait_improv polls and reads between the two stores of the worker. -/
def readTooEarly : List Step :=
  [.dispatch 7 false, .take 0, .io 0 false false, .storeImprov 0, .poll, .readFlag, .clearImprov,
    .storeFlag 0, .dispatch 7 false, .take 0, .io 0 true false, .storeImprov 0, .poll, .readFlag,
    .dealTimer]

/-- The failure of the first dispatch is missed; the flag it leaves behind has
deal_timer called for the second one, which succeeds. -/
theorem failure_missed :
    Always 1 (CanStep 1) .start readTooEarly ∧
    (performAll 1 .start readTooEarly).ledger =
      ⟨2, [(0, false), (1, true)], [(0, false), (1, true)]⟩ ∧
    ¬ Handled (performAll 1 .start readTooEarly) := by
  refine ⟨?_, rfl, ?_⟩
  · simp [readTooEarly, Always, CanStep, perform, State.start, State.append, State.take,
      State.setWorker, State.io, State.storeImprov, State.storeFlag, State.poll, State.readFlag,
      State.clearImprov]
  · apply Wrong.not_handled
    exact ⟨0, false, List.mem_cons_self .., List.mem_cons_self ..⟩

end Bookstore.ReactorHandshake
