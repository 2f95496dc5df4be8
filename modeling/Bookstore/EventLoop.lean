import Bookstore.TimerList
import Mathlib.Data.Finset.Card

/-!
The connections of WebServer and their timers: the handlers of the event loop,
the callback of a timer and HttpConn::close_conn. The state also counts, for
every accepted connection, how often its descriptor was closed and how often
user_count was lowered for it.
-/
namespace Bookstore.EventLoop

open TimerList

/-- The client_data of a descriptor; its timer is the last one set. -/
structure ClientData where
  sockfd : ℕ
  timer : Option ℕ
deriving DecidableEq

/-- `timerFlag` and `sockfdOf` are timer_flag and sockfd_ of users[fd]. The rest
is what the kernel has open and what happened to each accepted connection:
`holder fd` is the number of the last one that was given the descriptor. -/
structure WebServer where
  timers : SortTimerLst
  usersTimer : ℕ → ClientData
  timerFlag : ℕ → Bool
  sockfdOf : ℕ → Option ℕ
  userCount : ℤ
  connected : Finset ℕ
  accepted : ℕ
  holder : ℕ → ℕ
  assigned : ℕ → ℤ
  closes : ℕ → ℕ
  uncounts : ℕ → ℕ

def maxFd : ℤ := 65536

def timeslot : ℤ := 5

def WebServer.start : WebServer where
  timers := .empty
  usersTimer := fun _ => ⟨0, none⟩
  timerFlag := fun _ => false
  sockfdOf := fun _ => none
  userCount := 0
  connected := ∅
  accepted := 0
  holder := fun _ => 0
  assigned := fun _ => 0
  closes := fun _ => 0
  uncounts := fun _ => 0

inductive ActorModel
  | proactor
  | reactor
deriving DecidableEq

/-- How the reading or writing of an event ends. A write that sends the rest of a response
resets a connection that is kept. -/
inductive Io
  | done
  | reset
  | failed
deriving DecidableEq

/-- What the event loop handles, and what a worker does between two events: it sets
timer_flag, or ends a process() call that closes its connection. `flagged` says that
timer_flag is set behind the reading or writing and before wait_improv looks at it. -/
inductive Event
  | accept (fd : ℕ) (now : ℤ)
  | readable (fd : ℕ) (io : Io) (flagged : Bool) (now : ℤ)
  | writable (fd : ℕ) (io : Io) (flagged : Bool) (now : ℤ)
  | hangup (fd : ℕ)
  | flag (fd : ℕ)
  | giveUp (fd : ℕ)
  | tick (now : ℤ)

namespace WebServer

/-- close(fd) and user_count.fetch_sub(1). -/
def release (fd : ℕ) (s : WebServer) : WebServer :=
  { s with
    userCount := s.userCount - 1
    connected := s.connected.erase fd
    closes := Function.update s.closes (s.holder fd) (s.closes (s.holder fd) + 1)
    uncounts := Function.update s.uncounts (s.holder fd) (s.uncounts (s.holder fd) + 1) }

/-- The callback of a timer whose user_data is &users_timer[fd]. -/
def cbFunc (fd : ℕ) (s : WebServer) : WebServer := s.release (s.usersTimer fd).sockfd

/-- HttpConn::close_conn of users[fd]. -/
def closeConn (fd : ℕ) (s : WebServer) : WebServer :=
  match s.sockfdOf fd with
  | none => s
  | some sockfd =>
    { s.release sockfd with sockfdOf := Function.update s.sockfdOf fd none }

def timer (connfd : ℕ) (now : ℤ) (s : WebServer) : WebServer where
  timers := s.timers.addNew ⟨now + 3 * timeslot, connfd, false⟩
  usersTimer := Function.update s.usersTimer connfd ⟨connfd, some s.timers.nextNode⟩
  timerFlag := Function.update s.timerFlag connfd false
  sockfdOf := Function.update s.sockfdOf connfd (some connfd)
  userCount := s.userCount + 1
  connected := insert connfd s.connected
  accepted := s.accepted + 1
  holder := Function.update s.holder connfd s.accepted
  assigned := Function.update s.assigned connfd (now + 3 * timeslot)
  closes := s.closes
  uncounts := s.uncounts

/-- A descriptor from accept; when there are too many it is closed at once. -/
def dealclientdata (connfd : ℕ) (now : ℤ) (s : WebServer) : WebServer :=
  if maxFd ≤ s.userCount then s else s.timer connfd now

def adjustTimer (node sockfd : ℕ) (now : ℤ) (s : WebServer) : WebServer :=
  let adjusted := (s.timers.setExpire node (now + 3 * timeslot)).adjustTimer node
  { s with
    timers := adjusted.2
    usersTimer := Function.update s.usersTimer sockfd
      { s.usersTimer sockfd with timer := some adjusted.1 }
    assigned := Function.update s.assigned sockfd (now + 3 * timeslot) }

def dealTimer (timer : Option ℕ) (sockfd : ℕ) (s : WebServer) : WebServer :=
  match timer with
  | none => s.cbFunc sockfd
  | some node => { s.cbFunc sockfd with timers := s.timers.delTimer node }

def setFlag (fd : ℕ) (flag : Bool) (s : WebServer) : WebServer :=
  { s with timerFlag := Function.update s.timerFlag fd flag }

/-- reset_state clears the flag. -/
def afterIo (sockfd : ℕ) (io : Io) (s : WebServer) : WebServer :=
  if io = .reset then s.setFlag sockfd false else s

/-- The flag is read when the worker has set improv. -/
def waitImprov (sockfd : ℕ) (timer : Option ℕ) (flagged : Bool) (s : WebServer) : WebServer :=
  if s.timerFlag sockfd = true ∨ flagged = true then
    (s.dealTimer timer sockfd).setFlag sockfd false
  else s

def adjustIfSet (timer : Option ℕ) (sockfd : ℕ) (now : ℤ) (s : WebServer) : WebServer :=
  match timer with
  | none => s
  | some node => s.adjustTimer node sockfd now

/-- What dealwithread and dealwithwrite do with the timer of the connection. -/
def dealwith (model : ActorModel) (sockfd : ℕ) (io : Io) (flagged : Bool) (now : ℤ)
    (s : WebServer) : WebServer :=
  let timer := (s.usersTimer sockfd).timer
  match model with
  | .reactor =>
    ((s.adjustIfSet timer sockfd now).afterIo sockfd io).waitImprov sockfd timer flagged
  | .proactor =>
    if io = .failed then s.dealTimer timer sockfd
    else (s.afterIo sockfd io).adjustIfSet timer sockfd now

def dealwithread (model : ActorModel) (sockfd : ℕ) (io : Io) (flagged : Bool) (now : ℤ)
    (s : WebServer) : WebServer :=
  s.dealwith model sockfd io flagged now

def dealwithwrite (model : ActorModel) (sockfd : ℕ) (io : Io) (flagged : Bool) (now : ℤ)
    (s : WebServer) : WebServer :=
  s.dealwith model sockfd io flagged now

def tick (now : ℤ) (s : WebServer) : WebServer :=
  (s.timers.tick now).1.foldl (fun s fd => s.cbFunc fd) { s with timers := (s.timers.tick now).2 }

def handle (model : ActorModel) (s : WebServer) : Event → WebServer
  | .accept fd now => s.dealclientdata fd now
  | .readable fd io flagged now => s.dealwithread model fd io flagged now
  | .writable fd io flagged now => s.dealwithwrite model fd io flagged now
  | .hangup fd => s.dealTimer (s.usersTimer fd).timer fd
  | .flag fd => s.setFlag fd true
  | .giveUp fd => s.closeConn fd
  | .tick now => s.tick now

/-- accept returns a descriptor that is not open, epoll reports open ones, and read_once
resets nothing. -/
def CanHappen (s : WebServer) : Event → Prop
  | .accept fd _ => fd ∉ s.connected
  | .readable fd io _ _ => fd ∈ s.connected ∧ io ≠ .reset
  | .writable fd _ _ _ | .hangup fd => fd ∈ s.connected
  | .flag _ | .giveUp _ | .tick _ => True

instance (s : WebServer) (event : Event) : Decidable (s.CanHappen event) := by
  cases event <;> unfold CanHappen <;> infer_instance

/-! ## What holds of connections and timers -/

/-- Every open connection has one live timer, the one its client_data points to. -/
structure Timed (s : WebServer) : Prop where
  sound : s.timers.Sound
  own : ∀ fd ∈ s.connected, ∃ node, (s.usersTimer fd).timer = some node ∧
    s.timers.Live node ⟨s.assigned fd, fd, false⟩
  only : ∀ node timer, s.timers.Live node timer → timer.userData ∈ s.connected ∧
    (s.usersTimer timer.userData).timer = some node

/-- An open descriptor has not been closed for the connection that holds it, and
no connection has been closed twice. -/
structure Accounts (s : WebServer) : Prop where
  sockfd : ∀ fd ∈ s.connected, (s.usersTimer fd).sockfd = fd
  held : ∀ fd ∈ s.connected, s.holder fd < s.accepted ∧ s.closes (s.holder fd) = 0 ∧
    s.uncounts (s.holder fd) = 0
  distinct : ∀ fd ∈ s.connected, ∀ fd' ∈ s.connected, s.holder fd = s.holder fd' → fd = fd'
  once : ∀ k, s.closes k ≤ 1 ∧ s.uncounts k ≤ 1
  fresh : ∀ k, s.accepted ≤ k → s.closes k = 0 ∧ s.uncounts k = 0
  count : s.userCount = s.connected.card
  conn : ∀ fd sockfd, s.sockfdOf fd = some sockfd → sockfd = fd ∧
    (fd ∉ s.connected → s.closes (s.holder fd) = 1)

theorem timed_start : Timed .start where
  sound := SortTimerLst.sound_empty
  own fd h := by cases h
  only node timer h := by cases h.1

theorem accounts_start : Accounts .start where
  sockfd fd h := by cases h
  held fd h := by cases h
  distinct fd h := by cases h
  once _ := ⟨Nat.zero_le _, Nat.zero_le _⟩
  fresh _ _ := ⟨rfl, rfl⟩
  count := rfl
  conn fd sockfd h := by cases h

/-- The timer of an open connection has the expire assigned last. -/
theorem Timed.live_eq {s : WebServer} (h : s.Timed) {node : ℕ} {x : Timer}
    (hlive : s.timers.Live node x) :
    x.userData ∈ s.connected ∧ (s.usersTimer x.userData).timer = some node ∧
      x = ⟨s.assigned x.userData, x.userData, false⟩ := by
  obtain ⟨hconnected, htimer⟩ := h.only node x hlive
  obtain ⟨owned, howned, hown⟩ := h.own x.userData hconnected
  rw [htimer] at howned
  rw [← Option.some.inj howned] at hown
  exact ⟨hconnected, htimer, hlive.unique hown⟩

/-! ## One connection -/

theorem Accounts.timer {s : WebServer} (h : s.Accounts) {fd : ℕ} (hfd : fd ∉ s.connected)
    (now : ℤ) : (s.timer fd now).Accounts := by
  have hold : ∀ fd', fd' ∈ insert fd s.connected → fd' ≠ fd → fd' ∈ s.connected :=
    fun fd' hmem hne => Finset.mem_of_mem_insert_of_ne hmem hne
  have hother : ∀ fd', fd' ≠ fd → (s.timer fd now).holder fd' = s.holder fd' :=
    fun fd' hne => Function.update_of_ne hne ..
  have hself : (s.timer fd now).holder fd = s.accepted := Function.update_self ..
  refine ⟨?_, ?_, ?_, h.once, ?_, ?_, ?_⟩
  · intro fd' hmem
    by_cases hsame : fd' = fd
    · simp [WebServer.timer, hsame]
    · simpa [WebServer.timer, hsame] using h.sockfd fd' (hold fd' hmem hsame)
  · intro fd' hmem
    change _ < s.accepted + 1 ∧ s.closes _ = 0 ∧ s.uncounts _ = 0
    by_cases hsame : fd' = fd
    · rw [hsame, hself]
      exact ⟨Nat.lt_succ_self _, h.fresh s.accepted (Nat.le_refl _)⟩
    · rw [hother fd' hsame]
      obtain ⟨hlt, hzero⟩ := h.held fd' (hold fd' hmem hsame)
      exact ⟨Nat.lt_succ_of_lt hlt, hzero⟩
  · intro a ha b hb heq
    by_cases hafd : a = fd
    · by_cases hbfd : b = fd
      · rw [hafd, hbfd]
      · rw [hafd, hself, hother b hbfd] at heq
        have hlt := (h.held b (hold b hb hbfd)).1
        omega
    · by_cases hbfd : b = fd
      · rw [hbfd, hself, hother a hafd] at heq
        have hlt := (h.held a (hold a ha hafd)).1
        omega
      · rw [hother a hafd, hother b hbfd] at heq
        exact h.distinct a (hold a ha hafd) b (hold b hb hbfd) heq
  · intro k hk
    change s.accepted + 1 ≤ k at hk
    exact h.fresh k (by omega)
  · change s.userCount + 1 = ((insert fd s.connected).card : ℤ)
    rw [Finset.card_insert_of_notMem hfd, h.count]
    omega
  · intro fd' sockfd hconn
    by_cases hsame : fd' = fd
    · rw [hsame] at hconn ⊢
      have hset : (s.timer fd now).sockfdOf fd = some fd := Function.update_self ..
      rw [hset] at hconn
      refine ⟨(Option.some.inj hconn).symm, fun hnot => ?_⟩
      exact absurd (Finset.mem_insert_self fd s.connected) hnot
    · have hkept : (s.timer fd now).sockfdOf fd' = s.sockfdOf fd' := Function.update_of_ne hsame ..
      rw [hkept] at hconn
      rw [hother fd' hsame]
      obtain ⟨heq, hclosed⟩ := h.conn fd' sockfd hconn
      exact ⟨heq, fun hnot => hclosed fun hmem => hnot (Finset.mem_insert_of_mem hmem)⟩

theorem Timed.timer {s : WebServer} (h : s.Timed) {fd : ℕ} (hfd : fd ∉ s.connected) (now : ℤ) :
    (s.timer fd now).Timed := by
  have hlive := SortTimerLst.live_addNew h.sound
    (show (Timer.mk (now + 3 * timeslot) fd false).cancelled = false from rfl)
  refine ⟨h.sound.addNew _, ?_, ?_⟩
  · intro fd' hmem
    by_cases hsame : fd' = fd
    · rw [hsame]
      refine ⟨s.timers.nextNode, ?_, ?_⟩
      · simp [WebServer.timer]
      · apply (hlive _ _).mpr
        left
        simp [WebServer.timer]
    · obtain ⟨node, htimer, hown⟩ := h.own fd' (Finset.mem_of_mem_insert_of_ne hmem hsame)
      refine ⟨node, ?_, ?_⟩
      · simpa [WebServer.timer, hsame] using htimer
      · apply (hlive _ _).mpr
        right
        simpa [WebServer.timer, hsame] using hown
  · intro node x hx
    rcases (hlive node x).mp hx with ⟨rfl, rfl⟩ | hold
    · simp [WebServer.timer]
    · obtain ⟨hconnected, htimer⟩ := h.only node x hold
      have hsame : x.userData ≠ fd := fun heq => hfd (heq ▸ hconnected)
      refine ⟨Finset.mem_insert_of_mem hconnected, ?_⟩
      simpa [WebServer.timer, hsame] using htimer

/-- The timer that a connection owns is adjusted. -/
theorem Timed.adjustTimer {s : WebServer} (h : s.Timed) {fd node : ℕ} (hfd : fd ∈ s.connected)
    (hnode : (s.usersTimer fd).timer = some node) (now : ℤ) :
    (s.adjustTimer node fd now).Timed := by
  obtain ⟨owned, howned, hown⟩ := h.own fd hfd
  rw [hnode] at howned
  rw [← Option.some.inj howned] at hown
  have hset := SortTimerLst.live_setExpire hown (now + 3 * timeslot)
  have hlive : (s.timers.setExpire node (now + 3 * timeslot)).Live node
      ⟨now + 3 * timeslot, fd, false⟩ := (hset _ _).mpr (by rw [if_pos rfl])
  obtain ⟨hfirst, hsound, hadjusted⟩ := SortTimerLst.adjustTimer_spec
    (h.sound.setExpire hown.2.1 (now + 3 * timeslot)) hlive
  refine ⟨hsound, ?_, ?_⟩
  · intro fd' hmem
    by_cases hsame : fd' = fd
    · rw [hsame]
      refine ⟨(s.timers.setExpire node (now + 3 * timeslot)).nextNode, ?_, ?_⟩
      · simp [WebServer.adjustTimer, hfirst]
      · apply (hadjusted _ _).mpr
        left
        simp [WebServer.adjustTimer]
    · obtain ⟨other, htimer, hother⟩ := h.own fd' hmem
      have hne : other ≠ node := by
        intro heq
        rw [heq] at hother
        exact hsame (congrArg Timer.userData (hother.unique hown))
      refine ⟨other, ?_, ?_⟩
      · simpa [WebServer.adjustTimer, hsame] using htimer
      · apply (hadjusted _ _).mpr
        right
        refine ⟨hne, (hset _ _).mpr ?_⟩
        rw [if_neg hne]
        simpa [WebServer.adjustTimer, hsame] using hother
  · intro n x hx
    rcases (hadjusted n x).mp hx with ⟨hn, rfl⟩ | ⟨hne, hold⟩
    · refine ⟨hfd, ?_⟩
      simp [WebServer.adjustTimer, hfirst, hn]
    · have hkept := (hset n x).mp hold
      rw [if_neg hne] at hkept
      obtain ⟨hconnected, htimer⟩ := h.only n x hkept
      have hsame : x.userData ≠ fd := by
        intro heq
        rw [heq, hnode] at htimer
        exact hne (Option.some.inj htimer).symm
      refine ⟨hconnected, ?_⟩
      simpa [WebServer.adjustTimer, hsame] using htimer

/-- The old timer of an adjusted connection is not live any more. -/
theorem adjustTimer_dead {s : WebServer} (h : s.Timed) {fd node : ℕ} (hfd : fd ∈ s.connected)
    (hnode : (s.usersTimer fd).timer = some node) (now : ℤ) (x : Timer) :
    ¬ (s.adjustTimer node fd now).timers.Live node x := by
  obtain ⟨owned, howned, hown⟩ := h.own fd hfd
  rw [hnode] at howned
  rw [← Option.some.inj howned] at hown
  have hset := h.sound.setExpire hown.2.1 (now + 3 * timeslot)
  have hlive : (s.timers.setExpire node (now + 3 * timeslot)).Live node
      ⟨now + 3 * timeslot, fd, false⟩ :=
    (SortTimerLst.live_setExpire hown _ _ _).mpr (by rw [if_pos rfl])
  intro hx
  rcases ((SortTimerLst.adjustTimer_spec hset hlive).2.2 node x).mp hx with ⟨heq, _⟩ | ⟨hne, _⟩
  · have hlt := hset.known node _ hlive.2.1
    omega
  · exact hne rfl

theorem Accounts.adjustTimer {s : WebServer} (h : s.Accounts) (fd node : ℕ) (now : ℤ) :
    (s.adjustTimer node fd now).Accounts := by
  refine ⟨?_, h.held, h.distinct, h.once, h.fresh, h.count, h.conn⟩
  intro fd' hmem
  by_cases hsame : fd' = fd
  · rw [hsame] at hmem ⊢
    simpa [WebServer.adjustTimer] using h.sockfd fd hmem
  · simpa [WebServer.adjustTimer, hsame] using h.sockfd fd' hmem

/-- The callback of an open connection closes it, and no other. -/
theorem Accounts.cbFunc {s : WebServer} (h : s.Accounts) {fd : ℕ} (hfd : fd ∈ s.connected) :
    (s.cbFunc fd).Accounts ∧ (s.cbFunc fd).connected = s.connected.erase fd := by
  have hcb : s.cbFunc fd = s.release fd := by rw [WebServer.cbFunc, h.sockfd fd hfd]
  rw [hcb]
  refine ⟨?_, rfl⟩
  have hmem : ∀ fd', fd' ∈ (s.release fd).connected → fd' ≠ fd ∧ fd' ∈ s.connected :=
    fun fd' hin => Finset.mem_erase.mp hin
  have hother : ∀ k, k ≠ s.holder fd →
      (s.release fd).closes k = s.closes k ∧ (s.release fd).uncounts k = s.uncounts k :=
    fun k hk => ⟨Function.update_of_ne hk .., Function.update_of_ne hk ..⟩
  have hself : (s.release fd).closes (s.holder fd) = 1 ∧
      (s.release fd).uncounts (s.holder fd) = 1 := by
    have hzero := (h.held fd hfd).2
    simp [WebServer.release, hzero.1, hzero.2]
  refine ⟨?_, ?_, ?_, ?_, ?_, ?_, ?_⟩
  · exact fun fd' hin => h.sockfd fd' (hmem fd' hin).2
  · intro fd' hin
    obtain ⟨hne, hold⟩ := hmem fd' hin
    have hholder : s.holder fd' ≠ s.holder fd :=
      fun heq => hne (h.distinct fd' hold fd hfd heq)
    obtain ⟨hcloses, huncounts⟩ := hother (s.holder fd') hholder
    obtain ⟨hlt, hzero⟩ := h.held fd' hold
    exact ⟨hlt, hcloses.trans hzero.1, huncounts.trans hzero.2⟩
  · exact fun a ha b hb => h.distinct a (hmem a ha).2 b (hmem b hb).2
  · intro k
    by_cases hk : k = s.holder fd
    · rw [hk, hself.1, hself.2]
      exact ⟨Nat.le_refl _, Nat.le_refl _⟩
    · rw [(hother k hk).1, (hother k hk).2]
      exact h.once k
  · intro k hk
    have hne : k ≠ s.holder fd := by
      intro heq
      have hlt := (h.held fd hfd).1
      rw [← heq] at hlt
      exact absurd hk (Nat.not_le.mpr hlt)
    rw [(hother k hne).1, (hother k hne).2]
    exact h.fresh k hk
  · change s.userCount - 1 = ((s.connected.erase fd).card : ℤ)
    have hcard := Finset.card_erase_add_one hfd
    have hcount := h.count
    omega
  · intro fd' sockfd hconn
    obtain ⟨heq, hclosed⟩ := h.conn fd' sockfd hconn
    refine ⟨heq, fun hnot => ?_⟩
    change (s.release fd).closes (s.holder fd') = 1
    by_cases hholder : s.holder fd' = s.holder fd
    · rw [hholder]
      exact hself.1
    · rw [(hother _ hholder).1]
      apply hclosed
      intro hin
      refine hnot (Finset.mem_erase.mpr ⟨fun hsame => hholder (by rw [hsame]), hin⟩)

/-- The live timers of some connections are gone, and these connections with them. -/
theorem Timed.without {s t : WebServer} (h : s.Timed) {gone : List (ℕ × Timer)}
    (hgone : ∀ p ∈ gone, s.timers.Live p.1 p.2) (hsound : t.timers.Sound)
    (hlive : ∀ node x, t.timers.Live node x ↔ s.timers.Live node x ∧ node ∉ gone.map Prod.fst)
    (hconnected : ∀ fd, fd ∈ t.connected ↔
      fd ∈ s.connected ∧ fd ∉ gone.map fun p => p.2.userData)
    (husers : t.usersTimer = s.usersTimer) (hassigned : t.assigned = s.assigned) : t.Timed := by
  refine ⟨hsound, ?_, ?_⟩
  · intro fd hmem
    obtain ⟨hfd, hnot⟩ := (hconnected fd).mp hmem
    obtain ⟨node, htimer, hown⟩ := h.own fd hfd
    rw [husers, hassigned]
    refine ⟨node, htimer, (hlive _ _).mpr ⟨hown, fun hin => hnot ?_⟩⟩
    obtain ⟨p, hp, heq⟩ := List.mem_map.mp hin
    have hsame := hgone p hp
    rw [heq] at hsame
    exact List.mem_map.mpr ⟨p, hp, congrArg Timer.userData (hsame.unique hown)⟩
  · intro node x hx
    obtain ⟨hold, hnot⟩ := (hlive node x).mp hx
    obtain ⟨hfd, htimer⟩ := h.only node x hold
    rw [husers]
    refine ⟨(hconnected _).mpr ⟨hfd, fun hin => hnot ?_⟩, htimer⟩
    obtain ⟨p, hp, heq⟩ := List.mem_map.mp hin
    have hother := (h.only p.1 p.2 (hgone p hp)).2
    rw [heq, htimer] at hother
    exact List.mem_map.mpr ⟨p, hp, (Option.some.inj hother).symm⟩

/-- A connection is closed with the timer it owns. -/
theorem Timed.dealTimer {s : WebServer} (h : s.Timed) (ha : s.Accounts) {fd node : ℕ}
    (hfd : fd ∈ s.connected) (hnode : (s.usersTimer fd).timer = some node) :
    (s.dealTimer (some node) fd).Timed := by
  obtain ⟨owned, howned, hown⟩ := h.own fd hfd
  rw [hnode] at howned
  rw [← Option.some.inj howned] at hown
  refine @Timed.without s _ h [(node, ⟨s.assigned fd, fd, false⟩)] ?_ (h.sound.cancel node)
    ?_ ?_ rfl rfl
  · intro p hp
    rw [List.mem_singleton.mp hp]
    exact hown
  · intro n x
    refine (SortTimerLst.live_cancel h.sound node n x).trans ?_
    simp [and_comm]
  · intro fd'
    change fd' ∈ (s.cbFunc fd).connected ↔ _
    rw [(ha.cbFunc hfd).2, Finset.mem_erase]
    simp [and_comm]

theorem Accounts.dealTimer {s : WebServer} (h : s.Accounts) {fd : ℕ} (hfd : fd ∈ s.connected)
    (timer : Option ℕ) : (s.dealTimer timer fd).Accounts := by
  have hcb := (h.cbFunc hfd).1
  cases timer with
  | none => exact hcb
  | some node => exact ⟨hcb.sockfd, hcb.held, hcb.distinct, hcb.once, hcb.fresh, hcb.count, hcb.conn⟩

/-! ## A tick -/

/-- The callbacks of different open connections. -/
theorem foldl_cbFunc (fds : List ℕ) (s : WebServer) (h : s.Accounts) (hnodup : fds.Nodup)
    (hopen : ∀ fd ∈ fds, fd ∈ s.connected) :
    (fds.foldl (fun s fd => s.cbFunc fd) s).Accounts ∧
      (fds.foldl (fun s fd => s.cbFunc fd) s).timers = s.timers ∧
      (fds.foldl (fun s fd => s.cbFunc fd) s).usersTimer = s.usersTimer ∧
      (fds.foldl (fun s fd => s.cbFunc fd) s).assigned = s.assigned ∧
      ∀ fd, fd ∈ (fds.foldl (fun s fd => s.cbFunc fd) s).connected ↔
        fd ∈ s.connected ∧ fd ∉ fds := by
  induction fds generalizing s with
  | nil => exact ⟨h, rfl, rfl, rfl, fun fd => by simp⟩
  | cons fd rest ih =>
    obtain ⟨hnot, hrest⟩ := List.nodup_cons.mp hnodup
    obtain ⟨hclosed, hconnected⟩ := h.cbFunc (hopen fd List.mem_cons_self)
    have hstill : ∀ fd' ∈ rest, fd' ∈ (s.cbFunc fd).connected := by
      intro fd' hmem
      rw [hconnected, Finset.mem_erase]
      refine ⟨fun heq => hnot (heq ▸ hmem), hopen fd' (List.mem_cons_of_mem _ hmem)⟩
    obtain ⟨hacc, htimers, husers, hassigned, hleft⟩ := ih (s.cbFunc fd) hclosed hrest hstill
    refine ⟨hacc, htimers, husers, hassigned, fun fd' => (hleft fd').trans ?_⟩
    rw [hconnected, Finset.mem_erase, List.mem_cons, not_or]
    exact ⟨fun hx => ⟨hx.1.2, hx.1.1, hx.2⟩, fun hx => ⟨⟨hx.2.1, hx.1⟩, hx.2.2⟩⟩

/-- A tick closes the connections whose timers it fires. -/
theorem tick_inv {s : WebServer} (h : s.Timed) (ha : s.Accounts) (now : ℤ) :
    (s.tick now).Timed ∧ (s.tick now).Accounts ∧ (s.tick now).timers = (s.timers.tick now).2 ∧
      ((s.timers.tick now).1.Nodup ∧ ∀ fd ∈ (s.timers.tick now).1, fd ∈ s.connected) ∧
      ∀ fd, fd ∈ (s.tick now).connected ↔
        fd ∈ s.connected ∧ fd ∉ (s.timers.tick now).1 := by
  obtain ⟨hsound, timers, hfst, hnodup, hdue, hleft⟩ := SortTimerLst.tick_spec now h.sound
  have hfds : (s.timers.tick now).1.Nodup := by
    rw [hfst]
    apply List.Nodup.map_on _ (List.Nodup.of_map _ hnodup)
    intro p hp q hq heq
    have hlive := (hdue p hp).1
    have hnode := (h.only p.1 p.2 hlive).2
    rw [heq, (h.only q.1 q.2 (hdue q hq).1).2] at hnode
    have hfirst := Option.some.inj hnode
    rw [← hfirst] at hlive
    exact Prod.ext hfirst.symm (hlive.unique (hdue q hq).1)
  have hopen : ∀ fd ∈ (s.timers.tick now).1, fd ∈ s.connected := by
    intro fd hmem
    rw [hfst] at hmem
    obtain ⟨p, hp, rfl⟩ := List.mem_map.mp hmem
    exact (h.only p.1 p.2 (hdue p hp).1).1
  obtain ⟨hacc, htimers, husers, hassigned, hconnected⟩ :=
    foldl_cbFunc (s.timers.tick now).1 { s with timers := (s.timers.tick now).2 }
      ⟨ha.sockfd, ha.held, ha.distinct, ha.once, ha.fresh, ha.count, ha.conn⟩ hfds hopen
  have htimed : (s.tick now).Timed := by
    refine h.without (fun p hp => (hdue p hp).1) ?_ ?_ ?_ husers hassigned
    · rw [tick, htimers]
      exact hsound
    · intro node x
      rw [tick, htimers]
      exact hleft node x
    · intro fd
      rw [← hfst]
      exact hconnected fd
  exact ⟨htimed, hacc, htimers, ⟨hfds, hopen⟩, hconnected⟩

end WebServer

end Bookstore.EventLoop
