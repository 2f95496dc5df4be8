import Bookstore.EventLoop

/-!
Which connections own which timers over whole runs of the event loop. In the
reactor model a connection whose reading or writing failed is closed with the
timer it had before it was adjusted, so the new one stays in the heap.
-/
namespace Bookstore.ConnectionTimers

open EventLoop TimerList WebServer

/-- The nodes in the heap that are not cancelled and belong to a descriptor. -/
def liveNodes (t : SortTimerLst) (fd : ℕ) : List ℕ :=
  t.heap.filter fun node =>
    match t.nodes node with
    | none => false
    | some timer => !timer.cancelled && timer.userData = fd

/-- An open connection has one live timer, the one its client_data points to, a
closed one has none, and no connection was closed or counted off twice. -/
structure Owned (s : WebServer) : Prop where
  one : ∀ fd ∈ s.connected, ∃ node, (s.usersTimer fd).timer = some node ∧
    liveNodes s.timers fd = [node]
  none : ∀ fd, fd ∉ s.connected → liveNodes s.timers fd = []
  once : ∀ k, s.closes k ≤ 1 ∧ s.uncounts k ≤ 1
  count : s.userCount = s.connected.card

section Runs

variable (model : ActorModel)

def performAll (s : WebServer) (events : List Event) : WebServer := events.foldl (handle model) s

/-- Each event of a run meets `P` in the state it finds. -/
def Always (P : WebServer → Event → Prop) : WebServer → List Event → Prop
  | _, [] => True
  | s, event :: rest => P s event ∧ Always P (s.handle model event) rest

/-- wait_improv finds timer_flag set: the flag has been set since the reading or writing,
or was left over and not reset by it. -/
def FindsFlag (s : WebServer) (fd : ℕ) (io : Io) (flagged : Bool) : Prop :=
  flagged = true ∨ s.timerFlag fd = true ∧ io ≠ .reset

/-- The event loop closes a connection that it has just adjusted, or a worker
closes one by itself. -/
def Trips (s : WebServer) : Event → Prop
  | .readable fd io flagged _ | .writable fd io flagged _ =>
    model = .reactor ∧ FindsFlag s fd io flagged
  | .giveUp fd => s.sockfdOf fd ≠ none
  | _ => False

end Runs

variable {model : ActorModel}

theorem mem_liveNodes (t : SortTimerLst) (fd node : ℕ) :
    node ∈ liveNodes t fd ↔ ∃ timer, t.Live node timer ∧ timer.userData = fd := by
  rw [liveNodes, List.mem_filter]
  constructor
  · intro ⟨hmem, hlive⟩
    cases hnode : t.nodes node with
    | none => simp [hnode] at hlive
    | some timer =>
      simp [hnode] at hlive
      exact ⟨timer, ⟨hmem, hnode, hlive.1⟩, hlive.2⟩
  · intro ⟨timer, ⟨hmem, hnode, hlive⟩, hfd⟩
    refine ⟨hmem, ?_⟩
    simp [hnode, hlive, hfd]

theorem owned_of_timed {s : WebServer} (h : s.Timed) (ha : s.Accounts) : Owned s where
  one fd hfd := by
    obtain ⟨node, htimer, hown⟩ := h.own fd hfd
    refine ⟨node, htimer, ?_⟩
    have hmem : ∀ n, n ∈ liveNodes s.timers fd ↔ n = node := by
      intro n
      rw [mem_liveNodes]
      constructor
      · intro ⟨x, hlive, heq⟩
        have hother := (h.only n x hlive).2
        rw [heq, htimer] at hother
        exact (Option.some.inj hother).symm
      · rintro rfl
        exact ⟨_, hown, rfl⟩
    have hnodup : (liveNodes s.timers fd).Nodup := h.sound.nodup.filter _
    apply List.perm_singleton.mp
    apply (List.perm_ext_iff_of_nodup hnodup (List.nodup_singleton node)).mpr
    intro n
    rw [hmem, List.mem_singleton]
  none fd hfd := by
    apply List.eq_nil_iff_forall_not_mem.mpr
    intro node hmem
    obtain ⟨x, hlive, heq⟩ := (mem_liveNodes _ _ _).mp hmem
    exact hfd (heq ▸ (h.only node x hlive).1)
  once := ha.once
  count := ha.count

/-- A live timer of a closed connection. -/
theorem not_owned_of_live {s : WebServer} {fd node : ℕ} {x : Timer} (hfd : fd ∉ s.connected)
    (hlive : s.timers.Live node x) (heq : x.userData = fd) : ¬ Owned s := by
  intro howned
  have hmem := (mem_liveNodes s.timers fd node).mpr ⟨x, hlive, heq⟩
  rw [howned.none fd hfd] at hmem
  exact List.not_mem_nil hmem

/-! ## One event -/

theorem timed_setFlag {s : WebServer} (h : s.Timed) (fd : ℕ) (flag : Bool) :
    (s.setFlag fd flag).Timed := ⟨h.sound, h.own, h.only⟩

theorem accounts_setFlag {s : WebServer} (h : s.Accounts) (fd : ℕ) (flag : Bool) :
    (s.setFlag fd flag).Accounts :=
  ⟨h.sockfd, h.held, h.distinct, h.once, h.fresh, h.count, h.conn⟩

/-- The I/O changes at most the flag. -/
theorem afterIo_inv {s : WebServer} (h : s.Timed) (ha : s.Accounts) (fd : ℕ) (io : Io) :
    (s.afterIo fd io).Timed ∧ (s.afterIo fd io).Accounts := by
  unfold afterIo
  split
  · exact ⟨timed_setFlag h fd false, accounts_setFlag ha fd false⟩
  · exact ⟨h, ha⟩

@[simp] theorem afterIo_connected (s : WebServer) (fd : ℕ) (io : Io) :
    (s.afterIo fd io).connected = s.connected := by
  unfold afterIo
  split <;> rfl

@[simp] theorem afterIo_timers (s : WebServer) (fd : ℕ) (io : Io) :
    (s.afterIo fd io).timers = s.timers := by
  unfold afterIo
  split <;> rfl

@[simp] theorem afterIo_usersTimer (s : WebServer) (fd : ℕ) (io : Io) :
    (s.afterIo fd io).usersTimer = s.usersTimer := by
  unfold afterIo
  split <;> rfl

/-- What wait_improv tests. -/
theorem findsFlag_iff (s : WebServer) (node fd : ℕ) (io : Io) (flagged : Bool) (now : ℤ) :
    (((s.adjustTimer node fd now).afterIo fd io).timerFlag fd = true ∨ flagged = true) ↔
      FindsFlag s fd io flagged := by
  unfold FindsFlag afterIo
  split
  · rename_i hreset
    have hclear : ((s.adjustTimer node fd now).setFlag fd false).timerFlag fd = false :=
      Function.update_self ..
    simp [hclear, hreset]
  · rename_i hkept
    have hflag : (s.adjustTimer node fd now).timerFlag fd = s.timerFlag fd := rfl
    simp [hflag, hkept, or_comm]

/-- Whether reading or writing went well, as the event loop sees it. -/
theorem dealwith_inv {s : WebServer} (h : s.Timed) (ha : s.Accounts) {fd : ℕ}
    (hfd : fd ∈ s.connected) (io : Io) (flagged : Bool) (now : ℤ)
    (hnot : ¬ (model = .reactor ∧ FindsFlag s fd io flagged)) :
    (s.dealwith model fd io flagged now).Timed ∧
      (s.dealwith model fd io flagged now).Accounts := by
  obtain ⟨node, hnode, _⟩ := h.own fd hfd
  cases model with
  | reactor =>
    have hflag := (findsFlag_iff s node fd io flagged now).not.mpr fun hfinds => hnot ⟨rfl, hfinds⟩
    simp only [dealwith, hnode, adjustIfSet, waitImprov, if_neg hflag]
    exact afterIo_inv (h.adjustTimer hfd hnode now) (ha.adjustTimer fd node now) fd io
  | proactor =>
    obtain ⟨hio, hio'⟩ := afterIo_inv h ha fd io
    have hnode' : ((s.afterIo fd io).usersTimer fd).timer = some node := by
      rw [afterIo_usersTimer]
      exact hnode
    simp only [dealwith, hnode, adjustIfSet]
    split
    · exact ⟨h.dealTimer ha hfd hnode, ha.dealTimer hfd _⟩
    · refine ⟨hio.adjustTimer ?_ hnode' now, hio'.adjustTimer fd node now⟩
      rw [afterIo_connected]
      exact hfd

theorem handle_inv {s : WebServer} (h : s.Timed) (ha : s.Accounts) {event : Event}
    (hcan : s.CanHappen event) (hnot : ¬ Trips model s event) :
    (s.handle model event).Timed ∧ (s.handle model event).Accounts := by
  cases event with
  | accept fd now =>
    simp only [handle, dealclientdata]
    split
    · exact ⟨h, ha⟩
    · exact ⟨h.timer hcan now, ha.timer hcan now⟩
  | readable fd io flagged now => exact dealwith_inv h ha hcan.1 io flagged now hnot
  | writable fd io flagged now => exact dealwith_inv h ha hcan io flagged now hnot
  | hangup fd =>
    obtain ⟨node, hnode, _⟩ := h.own fd hcan
    simp only [handle, hnode]
    exact ⟨h.dealTimer ha hcan hnode, ha.dealTimer hcan _⟩
  | flag fd => exact ⟨timed_setFlag h fd true, accounts_setFlag ha fd true⟩
  | giveUp fd =>
    have hnone : s.sockfdOf fd = none := by
      by_contra hsome
      exact hnot hsome
    simp only [handle, closeConn, hnone]
    exact ⟨h, ha⟩
  | tick now =>
    obtain ⟨htimed, haccounts, _⟩ := tick_inv h ha now
    exact ⟨htimed, haccounts⟩

/-- The adjusted timer outlives a connection that is closed with the old one. -/
theorem dealwith_trips {s : WebServer} (h : s.Timed) (ha : s.Accounts) {fd : ℕ}
    (hfd : fd ∈ s.connected) (io : Io) (flagged : Bool) (now : ℤ)
    (htrip : FindsFlag s fd io flagged) : ¬ Owned (s.dealwith .reactor fd io flagged now) := by
  obtain ⟨node, hnode, _⟩ := h.own fd hfd
  have hflag := (findsFlag_iff s node fd io flagged now).mpr htrip
  simp only [dealwith, hnode, adjustIfSet, waitImprov, if_pos hflag]
  obtain ⟨hio, hio'⟩ :=
    afterIo_inv (h.adjustTimer hfd hnode now) (ha.adjustTimer fd node now) fd io
  have hdead : ∀ x, ¬ ((s.adjustTimer node fd now).afterIo fd io).timers.Live node x := by
    rw [afterIo_timers]
    exact adjustTimer_dead h hfd hnode now
  have hfd' : fd ∈ ((s.adjustTimer node fd now).afterIo fd io).connected := by
    rw [afterIo_connected]
    exact hfd
  generalize (s.adjustTimer node fd now).afterIo fd io = t at hio hio' hdead hfd'
  obtain ⟨fresh, _, hlive⟩ := hio.own fd hfd'
  have hne : fresh ≠ node := fun heq => hdead _ (heq ▸ hlive)
  have hstill := (SortTimerLst.live_cancel hio.sound node fresh _).mpr ⟨hne, hlive⟩
  have hclosed : fd ∉ ((t.dealTimer (some node) fd).setFlag fd false).connected := by
    change fd ∉ (t.cbFunc fd).connected
    rw [(hio'.cbFunc hfd').2]
    exact Finset.notMem_erase fd _
  exact not_owned_of_live hclosed hstill rfl

/-- A connection that a worker closes leaves its timer, or is closed twice. -/
theorem giveUp_trips {s : WebServer} (h : s.Timed) (ha : s.Accounts) {fd : ℕ}
    (hsome : s.sockfdOf fd ≠ none) : ¬ Owned (s.closeConn fd) := by
  obtain ⟨sockfd, hsockfd⟩ := Option.ne_none_iff_exists'.mp hsome
  obtain ⟨rfl, hclosed⟩ := ha.conn fd sockfd hsockfd
  simp only [closeConn, hsockfd]
  by_cases hfd : sockfd ∈ s.connected
  · obtain ⟨node, _, hlive⟩ := h.own sockfd hfd
    apply not_owned_of_live _ _ (show (Timer.mk (s.assigned sockfd) sockfd false).userData = sockfd
      from rfl)
    · exact node
    · exact Finset.notMem_erase sockfd _
    · exact hlive
  · intro howned
    have htwice := (howned.once (s.holder sockfd)).1
    simp only [release, Function.update_self, hclosed hfd] at htwice
    omega

theorem trip_not_owned {s : WebServer} (h : s.Timed) (ha : s.Accounts) {event : Event}
    (hcan : s.CanHappen event) (htrip : Trips model s event) : ¬ Owned (s.handle model event) := by
  cases event with
  | accept fd now => exact htrip.elim
  | readable fd io flagged now =>
    obtain ⟨rfl, hflag⟩ := htrip
    exact dealwith_trips h ha hcan.1 io flagged now hflag
  | writable fd io flagged now =>
    obtain ⟨rfl, hflag⟩ := htrip
    exact dealwith_trips h ha hcan io flagged now hflag
  | hangup fd => exact htrip.elim
  | flag fd => exact htrip.elim
  | giveUp fd => exact giveUp_trips h ha htrip
  | tick now => exact htrip.elim

/-! ## Whole runs -/

theorem run_owned_iff {s : WebServer} (h : s.Timed) (ha : s.Accounts) (events : List Event)
    (hcan : Always model CanHappen s events) :
    (∀ before after, events = before ++ after → Owned (performAll model s before)) ↔
      Always model (fun s event => ¬ Trips model s event) s events := by
  induction events generalizing s with
  | nil =>
    refine ⟨fun _ => trivial, fun _ before after hsplit => ?_⟩
    rw [(List.append_eq_nil_iff.mp hsplit.symm).1]
    exact owned_of_timed h ha
  | cons event rest ih =>
    constructor
    · intro howned
      have hnot : ¬ Trips model s event := fun htrip =>
        trip_not_owned h ha hcan.1 htrip (howned [event] rest rfl)
      obtain ⟨h', ha'⟩ := handle_inv h ha hcan.1 hnot
      refine ⟨hnot, (ih h' ha' hcan.2).mp fun before after hsplit => ?_⟩
      exact howned (event :: before) after (by rw [hsplit]; rfl)
    · intro ⟨hnot, hnots⟩ before after hsplit
      obtain ⟨h', ha'⟩ := handle_inv h ha hcan.1 hnot
      cases before with
      | nil => exact owned_of_timed h ha
      | cons first before =>
        obtain ⟨rfl, htail⟩ := List.cons.inj hsplit
        exact (ih h' ha' hcan.2).mpr hnots before after htail

/-- In every state of a run the open connections own their timers, exactly when
no event of the run trips. -/
theorem connections_owned_iff (model : ActorModel) (events : List Event)
    (hcan : Always model CanHappen .start events) :
    (∀ before after, events = before ++ after → Owned (performAll model .start before)) ↔
      Always model (fun s event => ¬ Trips model s event) .start events :=
  run_owned_iff timed_start accounts_start events hcan

/-- Two clients, one descriptor used again, and a tick. A flag that a worker sets late is
cleared by the end of the response. -/
theorem connections_owned_small :
    Owned (performAll .reactor .start [.accept 7 0, .accept 8 1, .readable 7 .done false 3,
      .writable 8 .failed false 4, .readable 8 .done false 5, .flag 8, .writable 8 .reset false 6,
      .hangup 8, .accept 8 7, .hangup 7, .tick 25]) := by
  refine (connections_owned_iff .reactor [.accept 7 0, .accept 8 1, .readable 7 .done false 3,
    .writable 8 .failed false 4, .readable 8 .done false 5, .flag 8, .writable 8 .reset false 6,
    .hangup 8, .accept 8 7, .hangup 7, .tick 25] ?_).mpr ?_ _ [] (List.append_nil _).symm
  · refine ⟨?_, ?_, ?_, ?_, ?_, trivial, ?_, ?_, ?_, ?_, trivial, trivial⟩ <;> decide +kernel
  · refine ⟨?_, ?_, ?_, ?_, ?_, ?_, ?_, ?_, ?_, ?_, ?_, trivial⟩ <;> unfold Trips FindsFlag <;>
      decide +kernel

/-- The client behind descriptor 7 goes away: it is closed, its adjusted timer
fires later and closes the next client that was given the descriptor. -/
theorem reactor_closes_another :
    let events : List Event :=
      [.accept 7 0, .readable 7 .failed true 1, .accept 7 2, .tick 16]
    Always .reactor CanHappen .start events ∧
      ¬ Owned (performAll .reactor .start (events.take 2)) ∧
      (performAll .reactor .start (events.take 3)).connected = {7} ∧
      (performAll .reactor .start events).connected = ∅ ∧
      (performAll .reactor .start events).assigned 7 = 17 := by
  refine ⟨?_, ?_, ?_, ?_, ?_⟩
  · refine ⟨?_, ?_, ?_, trivial, trivial⟩ <;> decide +kernel
  · intro howned
    have hnone := howned.none 7 (by decide +kernel)
    revert hnone
    decide +kernel
  · decide +kernel
  · decide +kernel
  · decide +kernel

end Bookstore.ConnectionTimers
