import Mathlib.Algebra.GroupWithZero.Nat
import Mathlib.Algebra.Order.Group.Nat
import Mathlib.Data.List.Perm.Subperm

/-!
Workers that acquire units of one resource while they hold others. A request
is a script of acquisitions and releases; requests come in one by one, in any
order, and wait in a bounded queue. A deadlock, all units held by workers that
wait for one more, can be reached exactly when requests can be chosen, one for
each worker at most, whose scripts hold all units just before their peaks.
-/
namespace Bookstore.HoldAndWait

inductive Op
  | acquire
  | release
deriving DecidableEq

/-- The largest number of units held at once, from `held` on. -/
def peak : ℕ → List Op → ℕ
  | held, [] => held
  | held, .acquire :: rest => max held (peak (held + 1) rest)
  | held, .release :: rest => max held (peak (held - 1) rest)

/-- No release without a unit, and nothing is held at the end. -/
def Balanced : ℕ → List Op → Prop
  | held, [] => held = 0
  | held, .acquire :: rest => Balanced (held + 1) rest
  | held, .release :: rest => 0 < held ∧ Balanced (held - 1) rest

/-- A worker's request, how many units it holds for it, and what is left to do. -/
structure Job (ρ : Type) where
  request : ρ
  held : ℕ
  rest : List Op

structure State (ρ : Type) where
  free : ℕ
  workers : List (Option (Job ρ))
  queue : List ρ
  incoming : List ρ

/-- A request comes in, an idle worker takes the oldest one in the queue, or a
busy worker makes a step. -/
inductive Move
  | arrive (k : ℕ)
  | take (i : ℕ)
  | advance (i : ℕ)

variable {ρ : Type} (script : ρ → List Op) (capacity : ℕ)

def start (units workers : ℕ) (requests : List ρ) : State ρ :=
  ⟨units, List.replicate workers none, [], requests⟩

/-- `none` when the move is not possible. A full queue drops what comes in; an
acquisition waits for a free unit. -/
def fire (s : State ρ) : Move → Option (State ρ)
  | .arrive k =>
    match s.incoming[k]? with
    | some r =>
      some { s with
        queue := if s.queue.length < capacity then s.queue ++ [r] else s.queue
        incoming := s.incoming.eraseIdx k }
    | none => none
  | .take i =>
    match s.workers[i]?, s.queue with
    | some none, r :: queue =>
      some { s with workers := s.workers.set i (some ⟨r, 0, script r⟩), queue := queue }
    | _, _ => none
  | .advance i =>
    match s.workers[i]? with
    | some (some ⟨r, held, .acquire :: rest⟩) =>
      if 0 < s.free then
        some { s with
          free := s.free - 1
          workers := s.workers.set i (some ⟨r, held + 1, rest⟩) }
      else none
    | some (some ⟨r, held, .release :: rest⟩) =>
      if 0 < held then
        some { s with
          free := s.free + 1
          workers := s.workers.set i (some ⟨r, held - 1, rest⟩) }
      else none
    | some (some ⟨_, _, []⟩) => some { s with workers := s.workers.set i none }
    | _ => none

def execute (s : State ρ) : List Move → Option (State ρ)
  | [] => some s
  | m :: rest => (fire script capacity s m).bind fun s' => execute s' rest

/-- No unit is free, and every worker that holds one waits for another. -/
def Deadlocked (s : State ρ) : Prop :=
  s.free = 0 ∧ ∀ job, some job ∈ s.workers → 0 < job.held → ∃ rest, job.rest = .acquire :: rest

variable {script} {capacity}

theorem le_peak (held : ℕ) (ops : List Op) : held ≤ peak held ops := by
  cases ops with
  | nil => exact le_refl _
  | cons op rest => cases op <;> exact le_max_left _ _

theorem execute_append (xs ys : List Move) (s : State ρ) :
    execute script capacity s (xs ++ ys) =
      (execute script capacity s xs).bind fun s' => execute script capacity s' ys := by
  induction xs generalizing s with
  | nil => rfl
  | cons m rest ih =>
    simp only [List.cons_append, execute]
    cases fire script capacity s m with
    | none => rfl
    | some s' => exact ih s'

/-! ## Scripts made of scopes -/

theorem balanced_nil : Balanced 0 [] := rfl

/-- Balanced operations are framed by the units held before them. -/
theorem balanced_append {k held : ℕ} {body rest : List Op} (hbody : Balanced k body)
    (hrest : Balanced held rest) : Balanced (held + k) (body ++ rest) := by
  induction body generalizing k with
  | nil =>
    cases hbody
    exact hrest
  | cons op body ih =>
    cases op with
    | acquire => exact ih hbody
    | release =>
      refine ⟨Nat.add_pos_right _ hbody.1, ?_⟩
      rw [Nat.add_sub_assoc hbody.1]
      exact ih hbody.2

theorem peak_append {k : ℕ} (held : ℕ) {body : List Op} (rest : List Op) (hbody : Balanced k body) :
    peak (held + k) (body ++ rest) = max (held + peak k body) (peak held rest) := by
  induction body generalizing k with
  | nil =>
    cases hbody
    simp only [List.nil_append, peak, Nat.add_zero, max_eq_right (le_peak held rest)]
  | cons op body ih =>
    cases op with
    | acquire =>
      have hnext : peak (held + k + 1) (body ++ rest) =
          max (held + peak (k + 1) body) (peak held rest) := ih hbody
      simp only [List.cons_append, peak, hnext]
      omega
    | release =>
      have hnext : peak (held + (k - 1)) (body ++ rest) =
          max (held + peak (k - 1) body) (peak held rest) := ih hbody.2
      simp only [List.cons_append, peak, Nat.add_sub_assoc hbody.1, hnext]
      omega

/-- A unit held for the whole of `body`. -/
def holding (body : List Op) : List Op := .acquire :: body ++ [.release]

theorem balanced_holding {body : List Op} (h : Balanced 0 body) : Balanced 0 (holding body) :=
  @balanced_append 0 1 body [.release] h ⟨Nat.one_pos, rfl⟩

theorem peak_holding {body : List Op} (h : Balanced 0 body) :
    peak 0 (holding body) = 1 + peak 0 body := by
  have hbody : peak 1 (body ++ [.release]) = max (1 + peak 0 body) 1 := peak_append 1 _ h
  simp only [holding, List.cons_append, peak, Nat.zero_add, hbody]
  omega

/-- Scripts one after the other reach the highest of their peaks. -/
theorem balanced_flatMap {α : Type} {f : α → List Op} (h : ∀ a, Balanced 0 (f a)) (xs : List α) :
    Balanced 0 (xs.flatMap f) := by
  induction xs with
  | nil => rfl
  | cons x rest ih => exact balanced_append (h x) ih

theorem peak_flatMap {α : Type} {f : α → List Op} (h : ∀ a, Balanced 0 (f a)) (xs : List α) :
    peak 0 (xs.flatMap f) = (xs.map fun a => peak 0 (f a)).foldr max 0 := by
  induction xs with
  | nil => rfl
  | cons x rest ih =>
    have happend := peak_append 0 (rest.flatMap f) (h x)
    simp only [Nat.zero_add] at happend
    rw [List.flatMap_cons, happend, ih, List.map_cons, List.foldr_cons]

/-! ## Sums and requests over the workers -/

def heldBy : Option (Job ρ) → ℕ
  | none => 0
  | some job => job.held

def totalHeld (workers : List (Option (Job ρ))) : ℕ := (workers.map heldBy).sum

def requestsOf (workers : List (Option (Job ρ))) : List ρ :=
  workers.filterMap fun worker => worker.map Job.request

theorem totalHeld_set (workers : List (Option (Job ρ))) (i : ℕ) {old new : Option (Job ρ)}
    (h : workers[i]? = some old) :
    totalHeld (workers.set i new) + heldBy old = totalHeld workers + heldBy new := by
  induction workers generalizing i with
  | nil => simp at h
  | cons worker rest ih =>
    cases i with
    | zero =>
      simp only [List.getElem?_cons_zero, Option.some.injEq] at h
      simp only [totalHeld, List.set_cons_zero, List.map_cons, List.sum_cons, h]
      omega
    | succ i =>
      have hrest := ih i (by simpa using h)
      simp only [totalHeld, List.set_cons_succ, List.map_cons, List.sum_cons] at hrest ⊢
      omega

/-- The requests of the workers after worker `i` changed, up to order. -/
theorem requestsOf_set (workers : List (Option (Job ρ))) (i : ℕ) {old new : Option (Job ρ)}
    (h : workers[i]? = some old) :
    (requestsOf (workers.set i new) ++ (old.map Job.request).toList).Perm
      (requestsOf workers ++ (new.map Job.request).toList) := by
  induction workers generalizing i with
  | nil => simp at h
  | cons worker rest ih =>
    cases i with
    | zero =>
      simp only [List.getElem?_cons_zero, Option.some.injEq] at h
      subst h
      cases worker <;> cases new <;>
        simp only [requestsOf, List.set_cons_zero, List.filterMap_cons, Option.map_none,
          Option.map_some, Option.toList_none, Option.toList_some, List.append_nil]
      · exact List.Perm.refl _
      · exact (List.perm_append_singleton _ _).symm
      · exact List.perm_append_singleton _ _
      · exact ((List.perm_append_singleton _ _).cons _).trans
          ((List.Perm.swap _ _ _).trans ((List.perm_append_singleton _ _).symm.cons _))
    | succ i =>
      have hrest := ih i (by simpa using h)
      cases worker with
      | none => simpa only [requestsOf, List.set_cons_succ, List.filterMap_cons, Option.map_none]
          using hrest
      | some job =>
        simp only [requestsOf, List.set_cons_succ, List.filterMap_cons, Option.map_some,
          List.cons_append] at hrest ⊢
        exact hrest.cons job.request

/-! ## What holds in every reachable state -/

/-- What a possible move does. -/
theorem fire_cases {s s' : State ρ} {m : Move} (h : fire script capacity s m = some s') :
    (∃ k r, s.incoming[k]? = some r ∧
      s' = { s with
        queue := if s.queue.length < capacity then s.queue ++ [r] else s.queue
        incoming := s.incoming.eraseIdx k }) ∨
    (∃ i r queue, s.workers[i]? = some none ∧ s.queue = r :: queue ∧
      s' = { s with workers := s.workers.set i (some ⟨r, 0, script r⟩), queue := queue }) ∨
    (∃ i r held rest, s.workers[i]? = some (some ⟨r, held, .acquire :: rest⟩) ∧ 0 < s.free ∧
      s' = { s with
        free := s.free - 1
        workers := s.workers.set i (some ⟨r, held + 1, rest⟩) }) ∨
    (∃ i r held rest, s.workers[i]? = some (some ⟨r, held, .release :: rest⟩) ∧ 0 < held ∧
      s' = { s with
        free := s.free + 1
        workers := s.workers.set i (some ⟨r, held - 1, rest⟩) }) ∨
    ∃ i r held, s.workers[i]? = some (some ⟨r, held, []⟩) ∧
      s' = { s with workers := s.workers.set i none } := by
  cases m with
  | arrive k =>
    simp only [fire] at h
    split at h
    · rename_i r hr
      exact .inl ⟨k, r, hr, (Option.some.inj h).symm⟩
    · cases h
  | take i =>
    simp only [fire] at h
    split at h
    · rename_i r queue hworker hr
      exact .inr (.inl ⟨i, r, queue, hworker, hr, (Option.some.inj h).symm⟩)
    · cases h
  | advance i =>
    simp only [fire] at h
    split at h
    · rename_i r held rest hworker
      split at h
      · rename_i hfree
        exact .inr (.inr (.inl ⟨i, r, held, rest, hworker, hfree, (Option.some.inj h).symm⟩))
      · cases h
    · rename_i r held rest hworker
      split at h
      · rename_i hheld
        exact .inr (.inr (.inr (.inl ⟨i, r, held, rest, hworker, hheld, (Option.some.inj h).symm⟩)))
      · cases h
    · rename_i r held hworker
      exact .inr (.inr (.inr (.inr ⟨i, r, held, hworker, (Option.some.inj h).symm⟩)))
    · cases h

/-- Units are neither lost nor made, the requests at work, in the queue and
still to come are among those given, and no job passes the peak of its script. -/
structure Sound (script : ρ → List Op) (units workers : ℕ) (requests : List ρ) (s : State ρ) :
    Prop where
  units : s.free + totalHeld s.workers = units
  workers : s.workers.length = workers
  requests : (requestsOf s.workers ++ (s.queue ++ s.incoming)).Subperm requests
  jobs : ∀ job, some job ∈ s.workers →
    Balanced job.held job.rest ∧ peak job.held job.rest ≤ peak 0 (script job.request)

theorem totalHeld_replicate (n : ℕ) : totalHeld (List.replicate n (none : Option (Job ρ))) = 0 := by
  simp [totalHeld, heldBy]

theorem sound_start (units workers : ℕ) (requests : List ρ) :
    Sound script units workers requests (start units workers requests) where
  units := by simp only [start, totalHeld_replicate, Nat.add_zero]
  workers := List.length_replicate
  requests := by
    have hnone : requestsOf (List.replicate workers (none : Option (Job ρ))) = [] := by
      simp [requestsOf]
    simp only [start, hnone, List.nil_append]
    exact List.Subperm.refl _
  jobs := by
    intro job hjob
    cases List.eq_of_mem_replicate hjob

/-- A worker's slot changes, the others stay. -/
theorem jobs_set {workers : List (Option (Job ρ))} {i : ℕ} {new : Option (Job ρ)}
    {P : Job ρ → Prop} (h : ∀ job, some job ∈ workers → P job) (hnew : ∀ job, new = some job → P job)
    (job : Job ρ) (hjob : some job ∈ workers.set i new) : P job := by
  rcases List.mem_or_eq_of_mem_set hjob with hold | heq
  · exact h job hold
  · exact hnew job heq.symm

/-- The requests at work change only when a slot gets another request. -/
theorem requestsOf_set_same (workers : List (Option (Job ρ))) (i : ℕ) {old new : Option (Job ρ)}
    (h : workers[i]? = some old) (hsame : new.map Job.request = old.map Job.request) :
    (requestsOf (workers.set i new)).Perm (requestsOf workers) := by
  have hperm := @requestsOf_set ρ workers i old new h
  rw [hsame] at hperm
  exact (List.perm_append_right_iff _).mp hperm

theorem Sound.arrive {units workers : ℕ} {requests : List ρ} {s : State ρ} {k : ℕ} {r : ρ}
    (h : Sound script units workers requests s) (hr : s.incoming[k]? = some r) :
    Sound script units workers requests { s with
      queue := if s.queue.length < capacity then s.queue ++ [r] else s.queue
      incoming := s.incoming.eraseIdx k } where
  units := h.units
  workers := h.workers
  requests := by
    obtain ⟨hk, rfl⟩ := List.getElem?_eq_some_iff.mp hr
    refine List.Subperm.trans ((List.subperm_append_left _).mpr ?_) h.requests
    split
    · rw [List.append_assoc]
      exact ((List.getElem_cons_eraseIdx_perm hk).append_left _).subperm
    · exact ((List.eraseIdx_sublist _ _).append_left _).subperm
  jobs := h.jobs

theorem Sound.take {units workers : ℕ} {requests : List ρ} {s : State ρ} {i : ℕ} {r : ρ}
    {queue : List ρ} (h : Sound script units workers requests s) (hbalanced : Balanced 0 (script r))
    (hworker : s.workers[i]? = some none) (hr : s.queue = r :: queue) :
    Sound script units workers requests
      { s with workers := s.workers.set i (some ⟨r, 0, script r⟩), queue := queue } where
  units := by
    have htotal := @totalHeld_set ρ s.workers i none (some ⟨r, 0, script r⟩) hworker
    have hunits := h.units
    simp only [heldBy, Nat.add_zero] at htotal ⊢
    omega
  workers := by
    rw [List.length_set]
    exact h.workers
  requests := by
    have hperm := @requestsOf_set ρ s.workers i none (some ⟨r, 0, script r⟩) hworker
    simp only [Option.map_none, Option.map_some, Option.toList_none, Option.toList_some,
      List.append_nil] at hperm
    have hrequests := h.requests
    rw [hr] at hrequests
    refine List.Subperm.trans (List.Perm.subperm ?_) hrequests
    refine (hperm.append_right _).trans ?_
    rw [List.append_assoc]
    exact List.Perm.refl _
  jobs := by
    refine jobs_set h.jobs fun job hjob => ?_
    cases Option.some.inj hjob
    exact ⟨hbalanced, le_refl _⟩

/-- A job's step: the units it holds come from the free ones. -/
theorem Sound.advance {units workers : ℕ} {requests : List ρ} {s : State ρ} {i free : ℕ}
    {old new : Job ρ} (h : Sound script units workers requests s)
    (hworker : s.workers[i]? = some (some old)) (hrequest : new.request = old.request)
    (hfree : free + new.held = s.free + old.held)
    (hnew : Balanced new.held new.rest ∧ peak new.held new.rest ≤ peak old.held old.rest) :
    Sound script units workers requests
      { s with free := free, workers := s.workers.set i (some new) } where
  units := by
    have htotal := @totalHeld_set ρ s.workers i (some old) (some new) hworker
    have hunits := h.units
    simp only [heldBy] at htotal ⊢
    omega
  workers := by
    rw [List.length_set]
    exact h.workers
  requests := by
    have hperm := @requestsOf_set_same ρ s.workers i (some old) (some new) hworker
      (by simp only [Option.map_some, hrequest])
    exact (hperm.append_right _).subperm.trans h.requests
  jobs := by
    refine jobs_set h.jobs fun job hjob => ?_
    cases Option.some.inj hjob
    have hold := h.jobs old (List.mem_of_getElem? hworker)
    rw [hrequest]
    exact ⟨hnew.1, hnew.2.trans hold.2⟩

theorem Sound.finish {units workers : ℕ} {requests : List ρ} {s : State ρ} {i : ℕ} {job : Job ρ}
    (h : Sound script units workers requests s) (hworker : s.workers[i]? = some (some job))
    (hheld : job.held = 0) :
    Sound script units workers requests { s with workers := s.workers.set i none } where
  units := by
    have htotal := @totalHeld_set ρ s.workers i (some job) none hworker
    have hunits := h.units
    simp only [heldBy, hheld] at htotal ⊢
    omega
  workers := by
    rw [List.length_set]
    exact h.workers
  requests := by
    have hperm := @requestsOf_set ρ s.workers i (some job) none hworker
    simp only [Option.map_none, Option.map_some, Option.toList_none, Option.toList_some,
      List.append_nil] at hperm
    have hsub : (requestsOf (s.workers.set i none)).Subperm (requestsOf s.workers) :=
      List.Subperm.trans (List.sublist_append_left _ _).subperm hperm.subperm
    exact ((List.subperm_append_right _).mpr hsub).trans h.requests
  jobs := jobs_set h.jobs fun _ hjob => nomatch hjob

theorem Sound.fire {units workers : ℕ} {requests : List ρ} {s s' : State ρ} {m : Move}
    (h : Sound script units workers requests s) (hbalanced : ∀ r, Balanced 0 (script r))
    (hfire : HoldAndWait.fire script capacity s m = some s') :
    Sound script units workers requests s' := by
  rcases fire_cases hfire with ⟨k, r, hr, rfl⟩ | ⟨i, r, queue, hworker, hr, rfl⟩ |
    ⟨i, r, held, rest, hworker, hfree, rfl⟩ | ⟨i, r, held, rest, hworker, hheld, rfl⟩ |
    ⟨i, r, held, hworker, rfl⟩
  · exact h.arrive hr
  · exact h.take (hbalanced r) hworker hr
  · have hjob := h.jobs _ (List.mem_of_getElem? hworker)
    refine h.advance hworker rfl ?_ ⟨hjob.1, le_max_right _ _⟩
    dsimp only
    omega
  · have hjob := h.jobs _ (List.mem_of_getElem? hworker)
    refine h.advance hworker rfl ?_ ⟨hjob.1.2, le_max_right _ _⟩
    dsimp only
    omega
  · have hjob := h.jobs _ (List.mem_of_getElem? hworker)
    exact h.finish hworker hjob.1

theorem Sound.execute {units workers : ℕ} {requests : List ρ} (hbalanced : ∀ r, Balanced 0 (script r))
    {moves : List Move} {s s' : State ρ} (h : Sound script units workers requests s)
    (hrun : HoldAndWait.execute script capacity s moves = some s') :
    Sound script units workers requests s' := by
  induction moves generalizing s with
  | nil =>
    cases Option.some.inj hrun
    exact h
  | cons m rest ih =>
    obtain ⟨t, hfire, hrest⟩ := Option.bind_eq_some_iff.mp hrun
    exact ih (h.fire hbalanced hfire) hrest

/-! ## From a deadlock to a choice of requests -/

theorem totalHeld_le {workers : List (Option (Job ρ))} {bound : ρ → ℕ}
    (h : ∀ job, some job ∈ workers → job.held ≤ bound job.request) :
    totalHeld workers ≤ ((requestsOf workers).map bound).sum := by
  induction workers with
  | nil => exact le_refl _
  | cons worker rest ih =>
    have hrest := ih fun job hjob => h job (List.mem_cons_of_mem _ hjob)
    cases worker with
    | none => simpa [totalHeld, requestsOf, heldBy] using hrest
    | some job =>
      have hjob := h job List.mem_cons_self
      simp only [totalHeld, requestsOf, List.map_cons, List.sum_cons, heldBy,
        List.filterMap_cons, Option.map_some] at hrest ⊢
      omega

theorem length_requestsOf_le (workers : List (Option (Job ρ))) :
    (requestsOf workers).length ≤ workers.length := List.length_filterMap_le _ _

/-- In a deadlock every job is below the peak of its script. -/
theorem Deadlocked.held_le {units workers : ℕ} {requests : List ρ} {s : State ρ}
    (hdead : Deadlocked s) (h : Sound script units workers requests s) {job : Job ρ}
    (hjob : some job ∈ s.workers) : job.held ≤ peak 0 (script job.request) - 1 := by
  rcases Nat.eq_zero_or_pos job.held with hzero | hheld
  · omega
  · obtain ⟨rest, hrest⟩ := hdead.2 job hjob hheld
    have hpeak := (h.jobs job hjob).2
    have hnext := le_peak (job.held + 1) rest
    simp only [hrest, peak] at hpeak
    omega

/-! ## From a choice of requests to a deadlock -/

/-- A worker alone runs until it holds `k` units and wants one more. -/
theorem run_to {i k held : ℕ} {r : ρ} {ops : List Op} {s : State ρ}
    (hworker : s.workers[i]? = some (some ⟨r, held, ops⟩)) (hbalanced : Balanced held ops)
    (hheld : held ≤ k) (hpeak : k < peak held ops) (hfree : k ≤ s.free + held) :
    ∃ moves rest, execute script capacity s moves = some
      { s with
        free := s.free + held - k
        workers := s.workers.set i (some ⟨r, k, .acquire :: rest⟩) } := by
  induction ops generalizing s held with
  | nil =>
    simp only [peak] at hpeak
    omega
  | cons op rest ih =>
    have hi : i < s.workers.length := (List.getElem?_eq_some_iff.mp hworker).1
    cases op with
    | acquire =>
      rcases Nat.eq_or_lt_of_le hheld with rfl | hlt
      · refine ⟨[], rest, ?_⟩
        have hsame : s.workers.set i (some ⟨r, held, .acquire :: rest⟩) = s.workers := by
          obtain ⟨hlt, heq⟩ := List.getElem?_eq_some_iff.mp hworker
          rw [← heq, List.set_getElem_self]
        simp only [execute, hsame, Nat.add_sub_cancel]
      · simp only [peak] at hpeak
        have hfirst : fire script capacity s (.advance i) = some
            ⟨s.free - 1, s.workers.set i (some ⟨r, held + 1, rest⟩), s.queue, s.incoming⟩ := by
          simp only [fire, hworker, if_pos (show 0 < s.free by omega)]
        obtain ⟨moves, rest', hrun⟩ := @ih (held + 1)
          ⟨s.free - 1, s.workers.set i (some ⟨r, held + 1, rest⟩), s.queue, s.incoming⟩
          (List.getElem?_set_self hi) hbalanced hlt (by omega)
          (show k ≤ s.free - 1 + (held + 1) by omega)
        refine ⟨.advance i :: moves, rest', ?_⟩
        simp only [execute, hfirst, Option.bind_some, hrun, List.set_set, Option.some.injEq,
          State.mk.injEq, and_true]
        omega
    | release =>
      simp only [peak] at hpeak
      have hfirst : fire script capacity s (.advance i) = some
          ⟨s.free + 1, s.workers.set i (some ⟨r, held - 1, rest⟩), s.queue, s.incoming⟩ := by
        simp only [fire, hworker, if_pos hbalanced.1]
      have hpos := hbalanced.1
      obtain ⟨moves, rest', hrun⟩ := @ih (held - 1)
        ⟨s.free + 1, s.workers.set i (some ⟨r, held - 1, rest⟩), s.queue, s.incoming⟩
        (List.getElem?_set_self hi) hbalanced.2 (by omega) (by omega)
        (show k ≤ s.free + 1 + (held - 1) by omega)
      refine ⟨.advance i :: moves, rest', ?_⟩
      simp only [execute, hfirst, Option.bind_some, hrun, List.set_set, Option.some.injEq,
        State.mk.injEq, and_true]
      omega

/-- Every busy worker wants one more unit. -/
def AllWait (s : State ρ) : Prop :=
  ∀ job, some job ∈ s.workers → ∃ rest, job.rest = .acquire :: rest

def idle (s : State ρ) : ℕ := s.workers.countP Option.isNone

/-- A request comes in, and an idle worker runs it to `k` units. -/
theorem take_and_run {k : ℕ} {r : ρ} {s : State ρ} (hcapacity : 0 < capacity)
    (hbalanced : Balanced 0 (script r)) (hidle : 0 < idle s) (hqueue : s.queue = [])
    (hr : r ∈ s.incoming) (hpeak : k < peak 0 (script r)) (hfree : k ≤ s.free) (hwait : AllWait s) :
    ∃ moves s', execute script capacity s moves = some s' ∧ AllWait s' ∧ s'.free = s.free - k ∧
      idle s' + 1 = idle s ∧ s'.queue = [] ∧ (r :: s'.incoming).Perm s.incoming := by
  obtain ⟨worker, hmem, hnone⟩ := List.countP_pos_iff.mp hidle
  obtain ⟨i, hi, hworker⟩ := List.getElem_of_mem hmem
  obtain ⟨j, hj, rfl⟩ := List.getElem_of_mem hr
  have hworker : s.workers[i]? = some none := by
    rw [List.getElem?_eq_getElem hi, hworker, Option.isNone_iff_eq_none.mp hnone]
  have harrive : fire script capacity s (.arrive j) = some
      ⟨s.free, s.workers, [s.incoming[j]], s.incoming.eraseIdx j⟩ := by
    simp only [fire, List.getElem?_eq_getElem hj, hqueue, List.length_nil, if_pos hcapacity,
      List.nil_append]
  have htake : fire script capacity ⟨s.free, s.workers, [s.incoming[j]], s.incoming.eraseIdx j⟩
      (.take i) = some ⟨s.free, s.workers.set i (some ⟨s.incoming[j], 0, script s.incoming[j]⟩), [],
        s.incoming.eraseIdx j⟩ := by
    simp only [fire, hworker]
  obtain ⟨moves, rest, hrun⟩ := @run_to ρ script capacity i k 0 s.incoming[j] (script s.incoming[j])
    ⟨s.free, s.workers.set i (some ⟨s.incoming[j], 0, script s.incoming[j]⟩), [],
      s.incoming.eraseIdx j⟩
    (List.getElem?_set_self hi) hbalanced (Nat.zero_le _) hpeak hfree
  simp only [List.set_set, Nat.add_zero] at hrun
  refine ⟨.arrive j :: .take i :: moves,
    ⟨s.free - k, s.workers.set i (some ⟨s.incoming[j], k, .acquire :: rest⟩), [],
      s.incoming.eraseIdx j⟩,
    by simp only [execute, harrive, htake, Option.bind_some, hrun],
    jobs_set hwait fun job hjob => ?_, rfl, ?_, rfl, List.getElem_cons_eraseIdx_perm hj⟩
  · cases Option.some.inj hjob
    exact ⟨rest, rfl⟩
  · have hslot : s.workers[i].isNone = true := by
      rw [(List.getElem?_eq_some_iff.mp hworker).2]
      rfl
    have hpos : 0 < s.workers.countP Option.isNone := hidle
    simp only [idle, List.countP_set hi, hslot, Option.isNone_some, if_true, Bool.false_eq_true,
      if_false, Nat.add_zero]
    omega

/-- Requests run one after the other, each to just before its peak, until no
unit is free. -/
theorem exists_deadlock_of_chosen (hcapacity : 0 < capacity)
    (hbalanced : ∀ r, Balanced 0 (script r)) (chosen : List ρ) {s : State ρ} (hwait : AllWait s)
    (hqueue : s.queue = []) (hidle : chosen.length ≤ idle s) (hsub : chosen.Subperm s.incoming) :
    ∃ moves s', execute script capacity s moves = some s' ∧ AllWait s' ∧
      s'.free = s.free - (chosen.map fun r => peak 0 (script r) - 1).sum := by
  induction chosen generalizing s with
  | nil => exact ⟨[], s, rfl, hwait, by simp⟩
  | cons r rest ih =>
    simp only [List.length_cons, List.map_cons, List.sum_cons] at hidle ⊢
    by_cases hskip : min s.free (peak 0 (script r) - 1) = 0
    · have hrest : rest.Subperm s.incoming :=
        List.Subperm.trans (List.sublist_cons_self _ _).subperm hsub
      obtain ⟨moves, s', hrun, hwait', hfree⟩ := ih hwait hqueue (by omega) hrest
      exact ⟨moves, s', hrun, hwait', by omega⟩
    · obtain ⟨moves, t, hrun, hwaitt, hfreet, hidlet, hqueuet, hincoming⟩ :=
        @take_and_run ρ script capacity (min s.free (peak 0 (script r) - 1)) r s hcapacity
          (hbalanced r) (by omega) hqueue (hsub.subset List.mem_cons_self) (by omega) (by omega)
          hwait
      have hrest : rest.Subperm t.incoming :=
        (List.subperm_cons r).mp (hsub.trans hincoming.symm.subperm)
      obtain ⟨moves', s', hrun', hwait', hfree⟩ := ih hwaitt hqueuet (by omega) hrest
      refine ⟨moves ++ moves', s', ?_, hwait', by omega⟩
      rw [execute_append, hrun, Option.bind_some, hrun']

/-- The exact condition for a reachable deadlock. -/
theorem reaches_deadlock_iff (hcapacity : 0 < capacity) (hbalanced : ∀ r, Balanced 0 (script r))
    (units workers : ℕ) (requests : List ρ) :
    (∃ moves s, execute script capacity (start units workers requests) moves = some s ∧
      Deadlocked s) ↔
    ∃ chosen : List ρ, chosen.Subperm requests ∧ chosen.length ≤ workers ∧
      units ≤ (chosen.map fun r => peak 0 (script r) - 1).sum := by
  constructor
  · rintro ⟨moves, s, hrun, hdead⟩
    have hsound := (sound_start units workers requests).execute hbalanced hrun
    refine ⟨requestsOf s.workers,
      List.Subperm.trans (List.sublist_append_left _ _).subperm hsound.requests,
      hsound.workers ▸ length_requestsOf_le _, ?_⟩
    have htotal := @totalHeld_le ρ s.workers (fun r => peak 0 (script r) - 1)
      fun job hjob => hdead.held_le hsound hjob
    have hunits := hsound.units
    rw [hdead.1] at hunits
    omega
  · rintro ⟨chosen, hsub, hlength, hunits⟩
    have hidle : idle (start units workers requests) = workers := by
      simp [idle, start, List.countP_replicate]
    have hidlers : AllWait (start units workers requests) := by
      intro job hjob
      cases List.eq_of_mem_replicate hjob
    obtain ⟨moves, s, hrun, hwait, hfree⟩ := exists_deadlock_of_chosen hcapacity hbalanced chosen
      hidlers rfl (hlength.trans hidle.ge) hsub
    refine ⟨moves, s, hrun, ?_, fun job hjob _ => hwait job hjob⟩
    rw [hfree]
    simp only [start]
    omega

end Bookstore.HoldAndWait
