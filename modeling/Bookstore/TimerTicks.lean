import Bookstore.EventLoop

/-!
What a tick fires. WebServer::adjust_timer writes the new expire into the node
that is still in the heap, so an early timer can come to stand below a late one;
a tick stops at the first root that is not due.
-/
namespace Bookstore.TimerTicks

open EventLoop TimerList WebServer

/-- The calls on the timers; adjust_timer and deal_timer are given the current
timer of the connection. -/
inductive Call
  | timer (fd : ℕ) (now : ℤ)
  | adjust (fd : ℕ) (now : ℤ)
  | deal (fd : ℕ)
  | tick (now : ℤ)

def perform (s : WebServer) : Call → WebServer
  | .timer fd now => s.timer fd now
  | .adjust fd now => s.adjustIfSet (s.usersTimer fd).timer fd now
  | .deal fd => s.dealTimer (s.usersTimer fd).timer fd
  | .tick now => s.tick now

def performAll (s : WebServer) (calls : List Call) : WebServer := calls.foldl perform s

/-- Each call of a run meets `P` in the state it finds. -/
def Always (P : WebServer → Call → Prop) : WebServer → List Call → Prop
  | _, [] => True
  | s, call :: rest => P s call ∧ Always P (perform s call) rest

/-- A new connection has a descriptor that is not open, the others are open. -/
def CanCall (s : WebServer) : Call → Prop
  | .timer fd _ => fd ∉ s.connected
  | .adjust fd _ | .deal fd => fd ∈ s.connected
  | .tick _ => True

instance (s : WebServer) (call : Call) : Decidable (CanCall s call) := by
  cases call <;> unfold CanCall <;> infer_instance

/-- A tick finds the timers that are due, cancelled or not, on top of the heap. -/
def InOrder (s : WebServer) : Call → Prop
  | .tick now => s.timers.DueOnTop now
  | _ => True

/-- A tick calls back once for each open connection whose last expire has come,
for no other, and leaves no live timer that is due. -/
structure FiresDue (s : WebServer) (now : ℤ) : Prop where
  nodup : (s.timers.tick now).1.Nodup
  fired : ∀ fd, fd ∈ (s.timers.tick now).1 ↔ fd ∈ s.connected ∧ s.assigned fd ≤ now
  left : ∀ node timer, (s.tick now).timers.Live node timer → now < timer.expire

theorem firesDue_of_inOrder {s : WebServer} (h : s.Timed) (ha : s.Accounts) {now : ℤ}
    (hdue : s.timers.DueOnTop now) : FiresDue s now := by
  obtain ⟨_, _, htimers, ⟨hnodup, _⟩, _⟩ := tick_inv h ha now
  obtain ⟨_, timers, hfst, _, hfired, hleft⟩ := SortTimerLst.tick_spec now h.sound
  refine ⟨hnodup, ?_, ?_⟩
  · intro fd
    rw [hfst, List.mem_map]
    constructor
    · rintro ⟨p, hp, rfl⟩
      obtain ⟨hlive, hexpire⟩ := hfired p hp
      obtain ⟨hconnected, _, hvalue⟩ := h.live_eq hlive
      rw [hvalue] at hexpire
      exact ⟨hconnected, hexpire⟩
    · intro ⟨hconnected, hexpire⟩
      obtain ⟨node, _, hown⟩ := h.own fd hconnected
      by_contra hnot
      have hstill := (hleft node _).mpr ⟨hown, fun hmem => hnot ?_⟩
      · have hlater := SortTimerLst.tick_all now h.sound hdue node _ hstill
        exact absurd hexpire (Int.not_le.mpr hlater)
      · obtain ⟨p, hp, heq⟩ := List.mem_map.mp hmem
        have hlive := (hfired p hp).1
        rw [heq] at hlive
        exact ⟨p, hp, congrArg Timer.userData (hlive.unique hown)⟩
  · intro node timer hlive
    rw [htimers] at hlive
    exact SortTimerLst.tick_all now h.sound hdue node timer hlive

theorem perform_inv {s : WebServer} (h : s.Timed) (ha : s.Accounts) {call : Call}
    (hcan : CanCall s call) : (perform s call).Timed ∧ (perform s call).Accounts := by
  cases call with
  | timer fd now => exact ⟨h.timer hcan now, ha.timer hcan now⟩
  | adjust fd now =>
    obtain ⟨node, hnode, _⟩ := h.own fd hcan
    simp only [perform, hnode, adjustIfSet]
    exact ⟨h.adjustTimer hcan hnode now, ha.adjustTimer fd node now⟩
  | deal fd =>
    obtain ⟨node, hnode, _⟩ := h.own fd hcan
    simp only [perform, hnode]
    exact ⟨h.dealTimer ha hcan hnode, ha.dealTimer hcan _⟩
  | tick now =>
    obtain ⟨htimed, haccounts, _⟩ := tick_inv h ha now
    exact ⟨htimed, haccounts⟩

theorem run_fires_due {s : WebServer} (h : s.Timed) (ha : s.Accounts) (calls : List Call)
    (hcan : Always CanCall s calls) (horder : Always InOrder s calls) (before : List Call)
    (now : ℤ) (after : List Call) (hsplit : calls = before ++ .tick now :: after) :
    FiresDue (performAll s before) now := by
  induction before generalizing s calls with
  | nil =>
    subst hsplit
    exact firesDue_of_inOrder h ha horder.1
  | cons call before ih =>
    subst hsplit
    obtain ⟨h', ha'⟩ := perform_inv h ha hcan.1
    exact ih h' ha' _ hcan.2 horder.2 rfl

/-- In a run whose ticks find the due timers on top of the heap, every tick
fires exactly the connections that have expired. -/
theorem ticks_fire_due (calls : List Call) (hcan : Always CanCall .start calls)
    (horder : Always InOrder .start calls) (before : List Call) (now : ℤ) (after : List Call)
    (hsplit : calls = before ++ .tick now :: after) :
    FiresDue (performAll .start before) now :=
  run_fires_due timed_start accounts_start calls hcan horder before now after hsplit

/-- Two connections in the order of their timers, and a tick for each. -/
theorem ticks_fire_due_small :
    FiresDue (performAll .start [.timer 7 0, .timer 8 1, .adjust 8 2, .deal 8, .tick 15]) 20 := by
  apply ticks_fire_due [.timer 7 0, .timer 8 1, .adjust 8 2, .deal 8, .tick 15, .tick 20] _ _
    [.timer 7 0, .timer 8 1, .adjust 8 2, .deal 8, .tick 15] 20 [] rfl
  · refine ⟨?_, ?_, ?_, ?_, trivial, trivial, trivial⟩ <;> decide
  · refine ⟨trivial, trivial, trivial, trivial, ?_, ?_, trivial⟩
    · change SortTimerLst.DueOnTop _ 15
      decide
    · change SortTimerLst.DueOnTop _ 20
      decide

/-- Descriptor 7 is adjusted while its timer is the root; the timer of 8, which
is due at 16, stays below it and is not fired at 20. -/
theorem tick_misses_expired :
    let s := performAll .start [.timer 7 0, .timer 8 1, .adjust 7 10]
    (8 ∈ s.connected ∧ s.assigned 8 = 16) ∧ (s.timers.tick 20).1 = [] ∧ ¬ FiresDue s 20 := by
  refine ⟨by decide, by decide +kernel, ?_⟩
  intro hfires
  have hdue : 8 ∈ ((performAll .start [.timer 7 0, .timer 8 1, .adjust 7 10]).timers.tick 20).1 :=
    (hfires.fired 8).mpr (by decide)
  revert hdue
  decide

end Bookstore.TimerTicks
