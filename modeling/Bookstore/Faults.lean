import Bookstore.Transactions

/-!
Programs on a server some of whose statements fail, next to the same programs
on a reliable server. The two runs go side by side up to the first failure, so
a run in which nothing fails is the run on the reliable server. The statements
that fail in a run are counted, those that the tables reject among them.
-/
namespace Bookstore.Faults

open Interleaving Transactions Transactions.Session

variable {σ δ κ α β : Type}

/-- The same server when nothing fails. -/
def reliable (s : Server δ κ) : Server δ κ := { s with faults := fun _ => false }

/-- The same server when every statement fails. -/
def broken (s : Server δ κ) : Server δ κ := { s with faults := fun _ => true }

/-- Nothing fails before the given time. -/
def Undisturbed (s : Server δ κ) (stop : ℕ) : Prop :=
  ∀ n, s.clock ≤ n → n < stop → s.faults n = false

/-- The whole state as its own component. -/
def whole : Lens σ σ where
  get s := s
  set t _ := t
  get_set _ _ := rfl
  set_get _ := rfl
  set_set _ _ _ := rfl

/-- A step is a statement that fails: it reaches the server, and answers what it
answers where everything fails, though another answer is possible. -/
def Fails (l : Lens σ (Server δ κ)) (f : σ → β × σ) (s : σ) : Prop :=
  (l.get (f s).2).clock ≠ (l.get s).clock ∧
    (f s).1 = (f (l.set (broken (l.get s)) s)).1 ∧ ∃ b, b ≠ (f s).1

open Classical in
/-- How many statements fail in a run. -/
noncomputable def failures (l : Lens σ (Server δ κ)) : Prog σ α → σ → ℕ
  | .done _, _ => 0
  | .act f next, s => (if Fails l f s then 1 else 0) + failures l (next (f s).1) (f s).2

/-- The runs on the server and on the reliable one agree, or a statement of
both has failed on the server; without any failed statement they agree. -/
structure Steady (p : Prog (Server δ κ) α) : Prop where
  faults : ∀ s, (p.run s).2.faults = s.faults
  clock : ∀ s, s.clock ≤ (p.run s).2.clock
  lockstep : ∀ s, p.run (reliable s) = ((p.run s).1, reliable (p.run s).2) ∨
    ∃ n, s.clock ≤ n ∧ n < (p.run s).2.clock ∧ n < (p.run (reliable s)).2.clock ∧
      s.faults n = true
  unfailed : ∀ s, failures whole p s = 0 → p.run (reliable s) = ((p.run s).1, reliable (p.run s).2)

@[simp] theorem reliable_db (s : Server δ κ) : (reliable s).db = s.db := rfl

@[simp] theorem reliable_clock (s : Server δ κ) : (reliable s).clock = s.clock := rfl

@[simp] theorem reliable_nextKey (s : Server δ κ) : (reliable s).nextKey = s.nextKey := rfl

@[simp] theorem reliable_faults (s : Server δ κ) (n : ℕ) : (reliable s).faults n = false := rfl

theorem reliable_reliable (s : Server δ κ) : (reliable s).Reliable := fun _ => rfl

/-- Putting the failures back. -/
theorem eq_of_reliable_eq {s t : Server δ κ} (h : reliable s = reliable t)
    (hfaults : s.faults = t.faults) : s = t := by
  cases s
  cases t
  simp only [reliable, Server.mk.injEq] at h
  simp only [Server.mk.injEq]
  exact ⟨h.1, h.2.1, hfaults, h.2.2.2⟩

/-! ## Counting -/

@[simp] theorem failures_pure (l : Lens σ (Server δ κ)) (a : α) (s : σ) :
    failures l (pure a : Prog σ α) s = 0 := rfl

/-- A step that does not reach the server is no failure. -/
theorem failures_call (l : Lens σ (Server δ κ)) (f : σ → α × σ) (s : σ)
    (h : (l.get (f s).2).clock = (l.get s).clock) : failures l (.call f) s = 0 := by
  have hpassed : ¬ Fails l f s := fun hfails => hfails.1 h
  simp [Prog.call, failures, hpassed]

/-- The failures of a run add up over its parts. -/
theorem failures_bind (l : Lens σ (Server δ κ)) (p : Prog σ α) (k : α → Prog σ β) (s : σ) :
    failures l (p >>= k) s = failures l p s + failures l (k (p.run s).1) (p.run s).2 := by
  change failures l (p.bind k) s = _
  induction p generalizing s with
  | done a => simp [failures, Prog.bind]
  | act f next ih =>
    simp only [Prog.bind, failures, Prog.run_act, ih]
    omega

theorem fails_lift (l : Lens σ (Server δ κ)) (f : Server δ κ → β × Server δ κ) (s : σ) :
    Fails l (fun s => ((f (l.get s)).1, l.set (f (l.get s)).2 s)) s ↔ Fails whole f (l.get s) := by
  simp [Fails, whole]

/-- A program on the server has its failures wherever the server is kept. -/
theorem failures_lift (l : Lens σ (Server δ κ)) (p : Prog (Server δ κ) α) (s : σ) :
    failures l (p.lift l) s = failures whole p (l.get s) := by
  classical
  induction p generalizing s with
  | done a => rfl
  | act f next ih =>
    simp only [Prog.lift, failures, ih, l.get_set]
    rw [if_congr (fails_lift l f s) rfl rfl]

theorem failures_withConnection (body : Session δ κ α) (s : Server δ κ) :
    failures whole (withConnection body) s = failures whole (body none) s := by
  unfold withConnection
  rw [failures_bind, failures_pure, Nat.add_zero]
  rfl

/-- The same inside a session, where the redo log is handed on. -/
theorem failures_session_bind (body : Session δ κ α) (k : α → Session δ κ β) (redo : Redo δ)
    (s : Server δ κ) :
    failures whole ((body >>= k) redo) s =
      failures whole (body redo) s +
        failures whole (k (exec body redo s).1.1 (exec body redo s).1.2) (exec body redo s).2 :=
  failures_bind _ _ _ _

/-- On the server itself a step fails when it answers as it does where everything fails. -/
theorem fails_whole {f : Server δ κ → β × Server δ κ} (hclock : ∀ s, (f s).2.clock = s.clock + 1)
    (s : Server δ κ) :
    Fails whole f s ↔ (f s).1 = (f (broken s)).1 ∧ ∃ b, b ≠ (f s).1 := by
  unfold Fails
  have hmoved : (whole.get (f s).2).clock ≠ (whole.get s).clock := by
    have hnext := hclock s
    simp only [whole]
    omega
  exact and_iff_right hmoved

theorem exec_query_clock (stmt : Stmt δ α) (redo : Redo δ) (s : Server δ κ) :
    (exec (query stmt) redo s).2.clock = s.clock + 1 := by
  simp only [exec, query, StateT.run, Prog.run_act]
  split
  · rfl
  · split
    · rfl
    · cases redo <;> rfl

theorem exec_insertKeyed_clock [DecidableEq κ] (table : κ) (stmt : ℤ → Stmt δ Unit)
    (redo : Redo δ) (s : Server δ κ) :
    (exec (insertKeyed table stmt) redo s).2.clock = s.clock + 1 := by
  simp only [exec, insertKeyed, StateT.run, Prog.run_act]
  split
  · rfl
  · split
    · rfl
    · cases redo <;> rfl

theorem exec_commit_clock (redo : Redo δ) (s : Server δ κ) :
    (exec (commit : Session δ κ Bool) redo s).2.clock = s.clock + 1 := by
  simp only [exec, commit, StateT.run, Prog.run_act]
  split <;> rfl

theorem failures_act_le {l : Lens σ (Server δ κ)} {f : σ → β × σ} {next : β → Prog σ α} {s : σ}
    (h : failures l (next (f s).1) (f s).2 = 0) : failures l (.act f next) s ≤ 1 := by
  simp only [failures, h]
  split <;> simp

theorem failures_eq_zero_iff (f : Server δ κ → β × Server δ κ) (g : β → α) (s : Server δ κ) :
    failures whole (.act f fun b => .done (g b)) s = 0 ↔ ¬ Fails whole f s := by
  simp [failures]

/-- A statement passes when it answers otherwise than where everything fails. -/
theorem passed_iff {f : Server δ κ → β × Server δ κ} {g : β → α} {s : Server δ κ}
    {b b' : β} (hclock : ∀ s, (f s).2.clock = s.clock + 1) (hbroken : (f (broken s)).1 = b)
    (hother : b' ≠ b) :
    failures whole (.act f fun b => .done (g b)) s = 0 ↔ (f s).1 ≠ b := by
  rw [failures_eq_zero_iff, fails_whole hclock, hbroken, not_and]
  constructor
  · intro hpassed hsame
    rw [hsame] at hpassed
    exact hpassed rfl ⟨b', hother⟩
  · intro hanswer hsame
    exact absurd hsame hanswer

theorem query_passed_iff [Nonempty α] (stmt : Stmt δ α) (redo : Redo δ) (s : Server δ κ) :
    failures whole (query stmt redo) s = 0 ↔ (exec (query stmt) redo s).1.1 ≠ none := by
  have hother : some (Classical.arbitrary α) ≠ none := by simp
  refine passed_iff ?_ ?_ hother
  · exact exec_query_clock stmt redo
  · simp [broken]

theorem insertKeyed_passed_iff [DecidableEq κ] (table : κ) (stmt : ℤ → Stmt δ Unit)
    (redo : Redo δ) (s : Server δ κ) :
    failures whole (insertKeyed table stmt redo) s = 0 ↔
      (exec (insertKeyed table stmt) redo s).1.1 ≠ none := by
  have hother : some (0 : ℤ) ≠ none := by simp
  refine passed_iff ?_ ?_ hother
  · exact exec_insertKeyed_clock table stmt redo
  · simp [broken]

theorem startTransaction_passed_iff (redo : Redo δ) (s : Server δ κ) :
    failures whole ((startTransaction : Session δ κ Bool) redo) s = 0 ↔
      (exec (startTransaction : Session δ κ Bool) redo s).1.1 ≠ false :=
  passed_iff (fun _ => rfl) (by simp [broken]) Bool.false_ne_true.symm

theorem commit_passed_iff (redo : Redo δ) (s : Server δ κ) :
    failures whole ((commit : Session δ κ Bool) redo) s = 0 ↔
      (exec (commit : Session δ κ Bool) redo s).1.1 ≠ false :=
  passed_iff (exec_commit_clock redo) (by simp [broken]) Bool.false_ne_true.symm

namespace Steady

theorem pure (a : α) : Steady (Pure.pure a : Prog (Server δ κ) α) where
  faults _ := rfl
  clock _ := Nat.le_refl _
  lockstep _ := .inl rfl
  unfailed _ _ := rfl

theorem bind {p : Prog (Server δ κ) α} {k : α → Prog (Server δ κ) β} (hp : Steady p)
    (hk : ∀ a, Steady (k a)) : Steady (p >>= k) where
  faults s := by
    rw [Prog.run_bind, (hk _).faults, hp.faults]
  clock s := by
    rw [Prog.run_bind]
    exact Nat.le_trans (hp.clock s) ((hk _).clock _)
  lockstep s := by
    simp only [Prog.run_bind]
    rcases hp.lockstep s with hsame | ⟨n, hlow, hhigh, hhigh', hfault⟩
    · rw [hsame]
      rcases (hk (p.run s).1).lockstep (p.run s).2 with hnext | ⟨n, hlow, hhigh, hhigh', hfault⟩
      · exact .inl hnext
      · refine .inr ⟨n, Nat.le_trans (hp.clock s) hlow, hhigh, hhigh', ?_⟩
        rw [← hp.faults s]
        exact hfault
    · refine .inr ⟨n, hlow, ?_, ?_, hfault⟩
      · exact Nat.lt_of_lt_of_le hhigh ((hk _).clock _)
      · exact Nat.lt_of_lt_of_le hhigh' ((hk _).clock _)
  unfailed s h := by
    rw [failures_bind] at h
    have hfirst := hp.unfailed s (by omega)
    have hrest := (hk (p.run s).1).unfailed (p.run s).2 (by omega)
    simp only [Prog.run_bind, hfirst, hrest]

/-- One statement: what it does unless it fails does not depend on the failures. -/
theorem act {f : Server δ κ → β × Server δ κ} {g : β → α}
    (hfaults : ∀ s, (f s).2.faults = s.faults) (hclock : ∀ s, (f s).2.clock = s.clock + 1)
    (h : ∀ s, f (reliable s) = ((f s).1, reliable (f s).2) ∨
      s.faults s.clock = true ∧ (f s).1 = (f (broken s)).1 ∧ ∃ b, b ≠ (f s).1) :
    Steady (.act f fun b => .done (g b)) where
  faults s := hfaults s
  clock s := by
    have hnext : s.clock ≤ (f s).2.clock := by
      rw [hclock]
      omega
    exact hnext
  lockstep s := by
    rcases h s with hsame | ⟨hfault, _⟩
    · left
      simp only [Prog.run_act, Prog.run_done, hsame]
    · refine .inr ⟨s.clock, Nat.le_refl _, ?_, ?_, hfault⟩
      · simp only [Prog.run_act, Prog.run_done, hclock]
        omega
      · simp only [Prog.run_act, Prog.run_done, hclock, reliable_clock]
        omega
  unfailed s hnone := by
    rw [failures_eq_zero_iff, fails_whole hclock] at hnone
    rcases h s with hsame | ⟨_, hfails⟩
    · simp only [Prog.run_act, Prog.run_done, hsame]
    · exact absurd hfails hnone

/-- A run in which nothing fails is the run on the reliable server. -/
theorem run_eq {p : Prog (Server δ κ) α} (hp : Steady p) {s : Server δ κ}
    (h : Undisturbed s (p.run (reliable s)).2.clock) :
    p.run s = ((p.run (reliable s)).1, { (p.run (reliable s)).2 with faults := s.faults }) := by
  rcases hp.lockstep s with hsame | ⟨n, hlow, _, hhigh, hfault⟩
  · rw [hsame]
    refine Prod.ext rfl (eq_of_reliable_eq rfl (hp.faults s))
  · rw [h n hlow hhigh] at hfault
    cases hfault

end Steady

/-! ## Statements -/

/-- A body is steady in autocommit mode and inside every transaction. -/
def SteadySession (body : Session δ κ α) : Prop := ∀ redo, Steady (body redo)

namespace SteadySession

theorem pure (a : α) : SteadySession (Pure.pure a : Session δ κ α) := fun _ => .pure _

theorem bind {body : Session δ κ α} {k : α → Session δ κ β} (hbody : SteadySession body)
    (hk : ∀ a, SteadySession (k a)) : SteadySession (body >>= k) :=
  fun redo => (hbody redo).bind fun r => hk r.1 r.2

theorem query [Nonempty α] (stmt : Stmt δ α) :
    SteadySession (Session.query stmt : Session δ κ _) := by
  intro redo
  apply Steady.act
  · intro s
    split
    · rfl
    · split
      · rfl
      · cases redo <;> rfl
  · exact exec_query_clock stmt redo
  · intro s
    cases hfault : s.faults s.clock with
    | true =>
      right
      simp only [if_true, broken, true_and]
      exact ⟨some (Classical.arbitrary α), by simp⟩
    | false =>
      left
      simp only [reliable_faults, reliable_db, Bool.false_eq_true, if_false]
      cases stmt.result (view redo s.db) with
      | none => rfl
      | some a => cases redo <;> rfl

theorem startTransaction : SteadySession (Session.startTransaction : Session δ κ Bool) := by
  intro redo
  apply Steady.act (fun _ => rfl) (fun _ => rfl)
  intro s
  cases hfault : s.faults s.clock with
  | true => exact .inr ⟨rfl, by simp [broken], exists_ne _⟩
  | false => exact .inl (by simp only [reliable_faults]; rfl)

theorem commit : SteadySession (Session.commit : Session δ κ Bool) := by
  intro redo
  apply Steady.act
  · intro s
    split <;> rfl
  · exact exec_commit_clock redo
  · intro s
    cases hfault : s.faults s.clock with
    | true => exact .inr ⟨rfl, by simp [broken], exists_ne _⟩
    | false =>
      left
      simp only [reliable_faults, Bool.false_eq_true, if_false]
      rfl

theorem rollback : SteadySession (Session.rollback : Session δ κ Unit) := by
  intro redo
  exact Steady.act (fun _ => rfl) (fun _ => rfl) fun _ => .inl rfl

end SteadySession

theorem Steady.withConnection {body : Session δ κ α} (h : SteadySession body) :
    Steady (withConnection body) := (h none).bind fun _ => .pure _

end Bookstore.Faults
