import Bookstore.Protocols
import Bookstore.Sha256
import Mathlib.Data.List.TakeWhile

/-!
The Redis cache before the table of users. Every get, set and SQL statement is
an atomic step of its own; logins, registrations, direct inserts and expiries
run interleaved, and each get and set may throw. Rows are only ever added and
every cached value is one that was read in the table, so a thread may rely on
what it has seen there until it answers.
-/
namespace Bookstore.CredentialCache

open HttpTypes Interleaving Protocols Sha256

/-! ## RedisUserCache -/

abbrev UserTable := Bytes → Option Bytes

/-- The column `passwd` of the table of users by name, and the keys of Redis. -/
structure Store where
  users : UserTable
  redis : Bytes → Option Bytes

/-- A call that throws may have reached the server or not. -/
inductive SetOutcome
  | stored
  | threwStored
  | threwLost
deriving DecidableEq

/-- What `row[0]` converts to: the bytes before the first NUL. -/
def cString (column : Bytes) : Bytes := column.takeWhile (· ≠ 0)

def makeKey (user : Bytes) : Bytes := ascii "booktrade:user:cred:" ++ user

/-- `none` when the call throws. -/
def redisGet (throws : Bool) (key : Bytes) : Prog Store (Option (Option Bytes)) :=
  .read fun s => if throws then none else some (s.redis key)

def Store.setKey (key value : Bytes) (s : Store) : Store :=
  ⟨s.users, fun k => if k = key then some value else s.redis k⟩

/-- `none` when the call throws. -/
def redisSet (outcome : SetOutcome) (key value : Bytes) : Prog Store (Option Unit) :=
  .call fun s => (if outcome = .stored then some () else none,
    if outcome = .threwLost then s else s.setKey key value)

/-- An INSERT on the table, whose names are unique. -/
def insertRow (user passwd : Bytes) : Prog Store Bool :=
  .call fun s =>
    if (s.users user).isSome then (false, s)
    else (true, ⟨fun name => if name = user then some passwd else s.users name, s.redis⟩)

def queryMysqlPassword (user : Bytes) : Prog Store Bytes := do
  let row ← .read fun s => s.users user
  pure (match row with
    | none => []
    | some column => cString column)

/-- The part of authenticate after the cache gave no value. -/
def fallBack (user hashed : Bytes) (outcome : SetOutcome) : Prog Store Bool := do
  let stored ← queryMysqlPassword user
  if stored = [] then pure false
  else
    -- an exception of the set is caught and logged
    let _ ← redisSet outcome (makeKey user) stored
    pure (decide (stored = hashed))

def authenticate (user pass : Bytes) (getThrows : Bool) (outcome : SetOutcome) :
    Prog Store Bool :=
  if user = [] then pure false
  else do
    match ← redisGet getThrows (makeKey user) with
    | some (some cached) => pure (decide (cached = sha256Hex pass))
    | _ => fallBack user (sha256Hex pass) outcome

def registerUser (user pass : Bytes) (outcome : SetOutcome) : Prog Store Bool := do
  if ← insertRow user (sha256Hex pass) then
    let _ ← redisSet outcome (makeKey user) (sha256Hex pass)
    pure true
  else pure false

/-! ## Requests -/

/-- A writer that bypasses the cache inserts a row; a key expires on its own. -/
inductive Request
  | register (user pass : Bytes) (outcome : SetOutcome)
  | authenticate (user pass : Bytes) (getThrows : Bool) (outcome : SetOutcome)
  | insertUser (user passwd : Bytes)
  | expire (key : Bytes)

def program : Request → Prog Store Bool
  | .register user pass outcome => registerUser user pass outcome
  | .authenticate user pass getThrows outcome => authenticate user pass getThrows outcome
  | .insertUser user passwd => insertRow user passwd
  | .expire key => do
    .write fun s => ⟨s.users, fun k => if k = key then none else s.redis k⟩
    pure true

/-- The comparison of a password with the row of a user. -/
def rowMatches (users : UserTable) (user pass : Bytes) : Bool :=
  (users user).any fun column => cString column = sha256Hex pass

/-! ## What a thread relies on -/

/-- The row of a user reads as this value. -/
def Reads (users : UserTable) (user value : Bytes) : Prop :=
  ∃ column, users user = some column ∧ cString column = value

/-- Every cached value is what the row of its user reads as. -/
def Coherent (s : Store) : Prop :=
  ∀ user value, s.redis (makeKey user) = some value → Reads s.users user value

/-- Rows are never changed or removed. -/
def Grows (users users' : UserTable) : Prop :=
  ∀ user column, users user = some column → users' user = some column

theorem Grows.refl (users : UserTable) : Grows users users := fun _ _ h => h

theorem Grows.trans {a b c : UserTable} (hab : Grows a b) (hbc : Grows b c) : Grows a c :=
  fun user column h => hbc user column (hab user column h)

theorem Reads.grows {users users' : UserTable} {user value : Bytes}
    (h : Reads users user value) (hgrows : Grows users users') : Reads users' user value := by
  obtain ⟨column, hcolumn, hvalue⟩ := h
  exact ⟨column, hgrows user column hcolumn, hvalue⟩

theorem Reads.rowMatches {users : UserTable} {user value : Bytes} (h : Reads users user value)
    (pass : Bytes) : rowMatches users user pass = decide (value = sha256Hex pass) := by
  obtain ⟨column, hcolumn, hvalue⟩ := h
  simp only [CredentialCache.rowMatches, hcolumn, Option.any_some, hvalue]

theorem makeKey_injective {user user' : Bytes} (h : makeKey user = makeKey user') :
    user = user' :=
  List.append_cancel_left h

/-- A digest has no NUL byte: the column reads as it was written. -/
theorem cString_sha256Hex (text : Bytes) : cString (sha256Hex text) = sha256Hex text := by
  unfold cString
  rw [List.takeWhile_eq_self_iff]
  intro digit hdigit
  have hmem := mem_sha256Hex hdigit
  have hall : ∀ d ∈ ascii "0123456789abcdef", d ≠ 0 := by decide +kernel
  exact decide_eq_true (hall digit hmem)

theorem Coherent.setKey {s : Store} (h : Coherent s) {user value : Bytes}
    (hreads : Reads s.users user value) : Coherent (s.setKey (makeKey user) value) := by
  intro user' value' hvalue
  by_cases hkey : makeKey user' = makeKey user
  · simp only [Store.setKey, hkey, if_true, Option.some.injEq] at hvalue
    rw [makeKey_injective hkey, ← hvalue]
    exact hreads
  · simp only [Store.setKey, hkey, if_false] at hvalue
    exact h user' value' hvalue

/-- What a thread was asked, the table that it started from, and a value that
it knows a row to read as. -/
structure Phase where
  request : Request
  start : UserTable
  known : Option (Bytes × Bytes)

/-- A thread relies on coherence and on rows staying; before it is spawned it
has seen nothing. -/
def cacheProtocol : Protocol Store (Option Phase) where
  pre phase s := Coherent s ∧ ∀ p, phase = some p →
    Grows p.start s.users ∧ ∀ user value, p.known = some (user, value) → Reads s.users user value
  move phase _ s phase' t := Grows s.users t.users ∧ Coherent t ∧ ∃ p known, phase = some p ∧
    phase' = some ⟨p.request, p.start, known⟩ ∧
    ∀ user value, known = some (user, value) → Reads t.users user value

/-- The answer is the comparison with the table at the start, or with the row
that the thread knows. -/
def Answers (phase : Option Phase) (answer : Bool) : Prop :=
  ∀ p, phase = some p → ∀ user pass getThrows outcome,
    p.request = .authenticate user pass getThrows outcome → user ≠ [] →
    answer = rowMatches p.start user pass ∨
      ∃ value, p.known = some (user, value) ∧ answer = decide (value = sha256Hex pass)

theorem Answers.of_reads {s : Store} {p : Phase} {answer : Bool} (h : Answers (some p) answer)
    (hpre : cacheProtocol.pre (some p) s) {user pass : Bytes} {getThrows : Bool}
    {outcome : SetOutcome} (hrequest : p.request = .authenticate user pass getThrows outcome)
    (huser : user ≠ []) :
    answer = rowMatches p.start user pass ∨ answer = rowMatches s.users user pass := by
  rcases h p rfl user pass getThrows outcome hrequest huser with hstart | ⟨value, hknown, hvalue⟩
  · exact .inl hstart
  · right
    rw [((hpre.2 p rfl).2 user value hknown).rowMatches pass]
    exact hvalue

/-! ## The programs follow the protocol -/

section Follows

variable {p : Phase} {n : ℕ}

/-- A step that leaves the table as it is teaches what it has read. -/
theorem move_known {s t : Store} (husers : t.users = s.users)
    (hcoherent : Coherent t) (known : Option (Bytes × Bytes))
    (hknown : ∀ user value, known = some (user, value) → Reads s.users user value) :
    cacheProtocol.move (some p) n s (some ⟨p.request, p.start, known⟩) t := by
  refine ⟨?_, hcoherent, p, known, rfl, rfl, ?_⟩
  · rw [husers]
    exact Grows.refl s.users
  · rw [husers]
    exact hknown

theorem follows_redisSet {user value : Bytes} (outcome : SetOutcome)
    (hknown : p.known = some (user, value)) :
    Follows cacheProtocol (fun phase _ (_ : Option Unit) => phase = some p) (some p) n
      (redisSet outcome (makeKey user) value) := by
  apply Follows.call
  intro s hpre
  have hreads := (hpre.2 p rfl).2 user value hknown
  refine ⟨some p, move_known ?_ ?_ p.known (hpre.2 p rfl).2, rfl⟩
  · dsimp only
    split <;> rfl
  · dsimp only
    split
    · exact hpre.1
    · exact hpre.1.setKey hreads

theorem answers_start {user pass : Bytes} {getThrows : Bool} {outcome : SetOutcome}
    (hrequest : p.request = .authenticate user pass getThrows outcome) {answer : Bool}
    (h : user ≠ [] → answer = rowMatches p.start user pass) : Answers (some p) answer := by
  intro p' hp' user' pass' getThrows' outcome' hrequest' huser'
  cases hp'
  cases hrequest.symm.trans hrequest'
  exact .inl (h huser')

theorem answers_known {user pass : Bytes} {getThrows : Bool} {outcome : SetOutcome}
    (hrequest : p.request = .authenticate user pass getThrows outcome) (value : Bytes) :
    Answers (some ⟨p.request, p.start, some (user, value)⟩)
      (decide (value = sha256Hex pass)) := by
  intro p' hp' user' pass' getThrows' outcome' hrequest' _
  cases hp'
  cases hrequest.symm.trans hrequest'
  exact .inr ⟨value, rfl, rfl⟩

/-- A query finds no row, then there was none at the start, or it teaches what
the row reads as. -/
theorem follows_query (user : Bytes) :
    Follows cacheProtocol
      (fun phase _ stored => stored = [] ∧ p.start user = none ∧ phase = some p ∨
        phase = some ⟨p.request, p.start, some (user, stored)⟩)
      (some p) n (queryMysqlPassword user) := by
  refine Follows.bind (Follows.call (Q := fun phase _ row =>
    row = none ∧ p.start user = none ∧ phase = some p ∨ ∃ column, row = some column ∧
      phase = some ⟨p.request, p.start, some (user, cString column)⟩) ?_) ?_
  · intro s hpre
    rcases hrow : s.users user with _ | column
    · refine ⟨some p, move_known rfl hpre.1 p.known (hpre.2 p rfl).2, .inl ⟨hrow, ?_, rfl⟩⟩
      rcases hstart : p.start user with _ | column
      · rfl
      · have hkept := (hpre.2 p rfl).1 user column hstart
        rw [hrow] at hkept
        cases hkept
    · refine ⟨_, move_known rfl hpre.1 (some (user, cString column)) ?_, .inr ⟨column, hrow, rfl⟩⟩
      intro user' value hvalue
      cases hvalue
      exact ⟨column, hrow, rfl⟩
  · rintro phase n row (⟨rfl, hnone, rfl⟩ | ⟨column, rfl, rfl⟩)
    · exact Follows.pure (.inl ⟨rfl, hnone, rfl⟩)
    · exact Follows.pure (.inr rfl)

theorem follows_fallBack {user pass : Bytes} {getThrows : Bool} {outcome : SetOutcome}
    (hrequest : p.request = .authenticate user pass getThrows outcome) :
    Follows cacheProtocol (fun phase _ answer => Answers phase answer) (some p) n
      (fallBack user (sha256Hex pass) outcome) := by
  refine Follows.bind (follows_query user) ?_
  rintro phase n stored (⟨rfl, hnone, rfl⟩ | rfl)
  · rw [if_pos rfl]
    refine Follows.pure (answers_start hrequest fun _ => ?_)
    simp only [rowMatches, hnone, Option.any_none]
  · have hanswers := answers_known hrequest stored
    split
    · rename_i hempty
      have hfalse : decide (stored = sha256Hex pass) = false := by
        rw [hempty]
        exact decide_eq_false (sha256Hex_ne_nil pass).symm
      rw [hfalse] at hanswers
      exact Follows.pure hanswers
    · refine Follows.bind (follows_redisSet outcome rfl) ?_
      rintro phase n _ rfl
      exact Follows.pure hanswers

theorem follows_authenticate {user pass : Bytes} {getThrows : Bool} {outcome : SetOutcome}
    (hrequest : p.request = .authenticate user pass getThrows outcome) :
    Follows cacheProtocol (fun phase _ answer => Answers phase answer) (some p) n
      (authenticate user pass getThrows outcome) := by
  unfold authenticate
  split
  · rename_i hempty
    exact Follows.pure (answers_start hrequest fun huser => absurd hempty huser)
  · refine Follows.bind (Follows.call (Q := fun phase _ reply =>
      (∃ cached, reply = some (some cached) ∧
        phase = some ⟨p.request, p.start, some (user, cached)⟩) ∨
      (∀ cached, reply ≠ some (some cached)) ∧ phase = some p) ?_) ?_
    · intro s hpre
      by_cases hhit : ∃ cached, getThrows = false ∧ s.redis (makeKey user) = some cached
      · obtain ⟨cached, hget, hcached⟩ := hhit
        refine ⟨_, move_known rfl hpre.1 (some (user, cached)) ?_, .inl ⟨cached, ?_, rfl⟩⟩
        · intro user' value hvalue
          cases hvalue
          exact hpre.1 user cached hcached
        · simp only [hget, Bool.false_eq_true, if_false, hcached]
      · refine ⟨some p, move_known rfl hpre.1 p.known (hpre.2 p rfl).2, .inr ⟨?_, rfl⟩⟩
        intro cached hreply
        cases getThrows with
        | true => cases hreply
        | false => exact hhit ⟨cached, rfl, Option.some.inj hreply⟩
    · rintro phase n reply (⟨cached, rfl, rfl⟩ | ⟨hmiss, rfl⟩)
      · exact Follows.pure (answers_known hrequest cached)
      · split
        · rename_i cached
          exact absurd rfl (hmiss cached)
        · exact follows_fallBack hrequest

/-- A row that was inserted is known. -/
theorem follows_insertRow (user passwd : Bytes) :
    Follows cacheProtocol
      (fun phase _ inserted => inserted = false ∧ phase = some p ∨
        inserted = true ∧ phase = some ⟨p.request, p.start, some (user, cString passwd)⟩)
      (some p) n (insertRow user passwd) := by
  apply Follows.call
  intro s hpre
  by_cases htaken : (s.users user).isSome
  · rw [if_pos htaken]
    exact ⟨some p, move_known rfl hpre.1 p.known (hpre.2 p rfl).2, .inl ⟨rfl, rfl⟩⟩
  · rw [if_neg htaken]
    have hgrows : Grows s.users fun name => if name = user then some passwd else s.users name := by
      intro name column hcolumn
      by_cases hname : name = user
      · rw [hname] at hcolumn
        rw [hcolumn] at htaken
        exact absurd rfl htaken
      · simp only [hname, if_false, hcolumn]
    refine ⟨some ⟨p.request, p.start, some (user, cString passwd)⟩,
      ⟨hgrows, ?_, p, some (user, cString passwd), rfl, rfl, ?_⟩, .inr ⟨rfl, rfl⟩⟩
    · intro name value hvalue
      exact (hpre.1 name value hvalue).grows hgrows
    · intro name value hvalue
      cases hvalue
      exact ⟨passwd, if_pos rfl, rfl⟩

theorem follows_registerUser (user pass : Bytes) (outcome : SetOutcome)
    (hother : ∀ (known : Option (Bytes × Bytes)) (answer : Bool),
      Answers (some ⟨p.request, p.start, known⟩) answer) :
    Follows cacheProtocol (fun phase _ answer => Answers phase answer) (some p) n
      (registerUser user pass outcome) := by
  refine Follows.bind (follows_insertRow user (sha256Hex pass)) ?_
  rintro phase n inserted (⟨rfl, rfl⟩ | ⟨rfl, rfl⟩)
  · exact Follows.pure (hother p.known false)
  · rw [cString_sha256Hex]
    refine Follows.bind (follows_redisSet outcome rfl) ?_
    rintro phase n _ rfl
    exact Follows.pure (hother _ true)

theorem follows_expire (key : Bytes)
    (hother : ∀ (known : Option (Bytes × Bytes)) (answer : Bool),
      Answers (some ⟨p.request, p.start, known⟩) answer) :
    Follows cacheProtocol (fun phase _ answer => Answers phase answer) (some p) n
      (program (.expire key)) := by
  refine Follows.bind (Follows.call (Q := fun phase _ _ => phase = some p) ?_) ?_
  · intro s hpre
    refine ⟨some p, ?_, rfl⟩
    refine move_known ?_ ?_ p.known (hpre.2 p rfl).2
    · rfl
    intro user value hvalue
    by_cases hkey : makeKey user = key
    · simp only [hkey, if_true, reduceCtorEq] at hvalue
    · simp only [hkey, if_false] at hvalue
      exact hpre.1 user value hvalue
  · rintro phase n _ rfl
    exact Follows.pure (hother p.known true)

theorem follows_program (r : Request) (hrequest : p.request = r) :
    Follows cacheProtocol (fun phase _ answer => Answers phase answer) (some p) n (program r) := by
  -- only a login has an answer to get right
  have hother (hr : ∀ user pass getThrows outcome, r ≠ .authenticate user pass getThrows outcome)
      (known : Option (Bytes × Bytes)) (answer : Bool) :
      Answers (some ⟨p.request, p.start, known⟩) answer := by
    intro p' hp' user pass getThrows outcome hauth _
    cases hp'
    exact absurd (hrequest.symm.trans hauth) (hr user pass getThrows outcome)
  cases r with
  | register user pass outcome => exact follows_registerUser user pass outcome (hother (by simp))
  | authenticate user pass getThrows outcome => exact follows_authenticate hrequest
  | insertUser user passwd =>
    refine (follows_insertRow user passwd).mono ?_
    rintro phase n answer (⟨_, rfl⟩ | ⟨_, rfl⟩)
    · exact hother (by simp) p.known answer
    · exact hother (by simp) _ answer
  | expire key => exact follows_expire key (hother (by simp))

end Follows

/-! ## Runs -/

/-- No step of a thread takes away what another one relies on. -/
theorem pre_kept {phase phase' other : Option Phase} {n : ℕ} {s t : Store}
    (hmove : cacheProtocol.move phase n s phase' t) (hother : cacheProtocol.pre other s) :
    cacheProtocol.pre other t := by
  obtain ⟨hgrows, hcoherent, _⟩ := hmove
  refine ⟨hcoherent, ?_⟩
  intro p hp
  obtain ⟨hstart, hknown⟩ := hother.2 p hp
  exact ⟨hstart.trans hgrows, fun user value h => (hknown user value h).grows hgrows⟩

theorem pre_reached {phase phase' : Option Phase} {n : ℕ} {s t : Store}
    (hmove : cacheProtocol.move phase n s phase' t) (hpre : cacheProtocol.pre phase s) :
    cacheProtocol.pre phase' t := by
  obtain ⟨hgrows, hcoherent, p, known, rfl, rfl, hknown⟩ := hmove
  refine ⟨hcoherent, ?_⟩
  intro p' hp'
  cases hp'
  exact ⟨(hpre.2 p rfl).1.trans hgrows, hknown⟩

/-- The phase of a thread carries its request. -/
def Tagged (r : Request) (_ : ℕ) (phase : Option Phase) : Prop :=
  ∃ p, phase = some p ∧ p.request = r

/-- Every thread is in a phase of the protocol, and what it relies on holds. -/
structure Standing (c : Config Request Store Bool) (phases : ℕ → Option Phase) : Prop where
  phased : Phased cacheProtocol (fun phase _ answer => Answers phase answer) Tagged none c phases
  relied : ∀ i, cacheProtocol.pre (phases i) c.state

theorem Standing.spawn {c : Config Request Store Bool} {phases : ℕ → Option Phase}
    (h : Standing c phases) (r : Request) :
    Standing ⟨c.state, c.threads ++ [⟨r, program r, 0⟩]⟩
      (Function.update phases c.threads.length (some ⟨r, c.state.users, none⟩)) where
  phased := h.phased.spawn r _ (follows_program r rfl) ⟨_, rfl, rfl⟩
  relied := by
    intro j
    by_cases hj : j = c.threads.length
    · subst hj
      rw [Function.update_self]
      refine ⟨(h.relied c.threads.length).1, ?_⟩
      intro p hp
      cases hp
      exact ⟨Grows.refl _, by simp⟩
    · rw [Function.update_of_ne hj]
      exact h.relied j

/-- A thread keeps its request and the table it started from. -/
theorem Standing.fire {c c' : Config Request Store Bool} {phases : ℕ → Option Phase}
    (h : Standing c phases) {m : Move Request} (hfire : fire program c m = some c') :
    ∃ phases', Standing c' phases' ∧
      ∀ i p, i < c.threads.length → phases i = some p →
        ∃ known, phases' i = some ⟨p.request, p.start, known⟩ := by
  rcases fire_cases hfire with ⟨r, rfl, rfl⟩ | ⟨i, t, β, f, next, rfl, ht, hprog, rfl⟩
  · refine ⟨_, h.spawn r, ?_⟩
    intro j p hj hp
    rw [Function.update_of_ne (by omega)]
    exact ⟨p.known, hp⟩
  · obtain ⟨phase', hmove, hphased⟩ := h.phased.step ht hprog (h.relied i) (by
      rintro phase' ⟨p, hp, hr⟩ ⟨_, _, p', known, hp', rfl, _⟩
      cases hp.symm.trans hp'
      exact ⟨_, rfl, hr⟩)
    refine ⟨_, ⟨hphased, ?_⟩, ?_⟩
    · intro j
      by_cases hj : j = i
      · subst hj
        rw [Function.update_self]
        exact pre_reached hmove (h.relied j)
      · rw [Function.update_of_ne hj]
        exact pre_kept hmove (h.relied j)
    · intro j p _ hp
      by_cases hj : j = i
      · subst hj
        rw [Function.update_self]
        obtain ⟨_, _, p', known, hp', rfl, _⟩ := hmove
        cases hp.symm.trans hp'
        exact ⟨known, rfl⟩
      · rw [Function.update_of_ne hj]
        exact ⟨p.known, hp⟩

theorem standing_run {users : UserTable} {c : Config Request Store Bool}
    (hrun : Runs program (fun _ _ => True) ⟨⟨users, fun _ => none⟩, []⟩ c) :
    ∃ phases, Standing c phases := by
  refine hrun.invariant (I := fun c => ∃ phases, Standing c phases) ?_ ?_
  · rintro c m c' ⟨phases, h⟩ _ hfire
    obtain ⟨phases', hnext, _⟩ := h.fire hfire
    exact ⟨phases', hnext⟩
  · refine ⟨fun _ => none, ⟨?_, ?_⟩, ?_⟩
    · intro i t ht
      cases ht
    · intro i _
      rfl
    · intro i
      refine ⟨?_, ?_⟩
      · intro user value hvalue
        cases hvalue
      · intro p hp
        cases hp

/-- A login gives the answer that the row of its user gives when the login
starts or when it ends; no insert of the user in between, and it is the same. -/
theorem authenticate_transparent (users : UserTable) (user pass : Bytes) (getThrows : Bool)
    (outcome : SetOutcome) (before after : Config Request Store Bool)
    (hbefore : Runs program (fun _ _ => True) ⟨⟨users, fun _ => none⟩, []⟩ before)
    (hafter : Runs program (fun _ _ => True)
      ⟨before.state, before.threads ++ [⟨.authenticate user pass getThrows outcome,
        program (.authenticate user pass getThrows outcome), 0⟩]⟩ after)
    (t : Thread Request Store Bool) (ht : after.threads[before.threads.length]? = some t)
    (answer : Bool) (hdone : t.prog = .done answer) (huser : user ≠ []) :
    (answer = rowMatches before.state.users user pass ∨
      answer = rowMatches after.state.users user pass) ∧
    (after.state.users user = before.state.users user →
      answer = rowMatches after.state.users user pass) := by
  have hstanding : ∃ phases, Standing after phases ∧ before.threads.length < after.threads.length ∧
      ∃ known, phases before.threads.length =
        some ⟨.authenticate user pass getThrows outcome, before.state.users, known⟩ := by
    refine hafter.invariant (I := fun c => ∃ phases, Standing c phases ∧
      before.threads.length < c.threads.length ∧ ∃ known, phases before.threads.length =
        some ⟨.authenticate user pass getThrows outcome, before.state.users, known⟩) ?_ ?_
    · rintro c m c' ⟨phases, h, hlength, known, hphase⟩ _ hfire
      obtain ⟨phases', hnext, hkept⟩ := h.fire hfire
      refine ⟨phases', hnext, ?_, hkept _ _ hlength hphase⟩
      rcases fire_cases hfire with ⟨r, _, rfl⟩ | ⟨i, t, β, f, next, _, _, _, rfl⟩
      · simp only [List.length_append]
        omega
      · simp only [List.length_set]
        exact hlength
    · obtain ⟨phases, h⟩ := standing_run hbefore
      refine ⟨_, h.spawn (.authenticate user pass getThrows outcome), ?_, none, ?_⟩
      · simp
      · rw [Function.update_self]
  obtain ⟨phases, h, _, known, hphase⟩ := hstanding
  obtain ⟨hfollows, _⟩ := h.phased.follows _ t ht
  have hrelied := h.relied before.threads.length
  rw [hphase] at hfollows hrelied
  rw [hdone] at hfollows
  have hanswer := Answers.of_reads hfollows hrelied rfl huser
  refine ⟨hanswer, ?_⟩
  intro hsame
  rcases hanswer with hstart | hend
  · rw [hstart]
    simp only [rowMatches, hsame]
  · exact hend

/-! ## A login after a direct insert -/

def answerOf : Prog Store Bool → Option Bool
  | .done answer => some answer
  | .act _ _ => none

theorem answerOf_eq_some {prog : Prog Store Bool} {answer : Bool}
    (h : answerOf prog = some answer) : prog = .done answer := by
  cases prog with
  | done a => rw [Option.some.inj h]
  | act f next => cases h

def login : Request := .authenticate (ascii "ann") (ascii "secret") false .stored

def insertMoves (passwd : Bytes) : List (Move Request) :=
  [.spawn (.insertUser (ascii "ann") passwd), .step 0]

/-- The second thread misses the cache, reads the table and fills the cache. -/
def loginMoves : List (Move Request) := [.step 1, .step 1, .step 1]

/-- The second thread of a run ended with this answer. -/
def Answered (answer : Bool) (c : Config Request Store Bool) : Prop :=
  (c.threads[1]?.bind fun t => answerOf t.prog) = some answer

instance (answer : Bool) (c : Config Request Store Bool) : Decidable (Answered answer c) := by
  unfold Answered
  infer_instance

def emptyStore : Store := ⟨fun _ => none, fun _ => none⟩

/-- A schedule that ends in a checked configuration is a run to one. -/
theorem exists_run {c : Config Request Store Bool} {moves : List (Move Request)}
    {p : Config Request Store Bool → Bool}
    (h : (execute program c moves).any p = true) :
    ∃ c', Runs program (fun _ _ => True) c c' ∧ p c' = true := by
  obtain ⟨c', hc', hp⟩ := (Option.any_eq_true _ _).mp h
  exact ⟨c', runs_of_execute moves (.refl c) hc', hp⟩

/-- The digest that every writer of the table inserts lets its password in. -/
theorem digest_logs_in : ∃ before after : Config Request Store Bool,
    Runs program (fun _ _ => True) ⟨emptyStore, []⟩ before ∧ Answered true after ∧
    (true = rowMatches before.state.users (ascii "ann") (ascii "secret") ∨
      true = rowMatches after.state.users (ascii "ann") (ascii "secret")) := by
  have hlogin : (execute program ⟨emptyStore, []⟩ (insertMoves (sha256Hex (ascii "secret")))).any
      (fun before => decide (before.threads.length = 1) && (execute program
        ⟨before.state, before.threads ++ [⟨login, program login, 0⟩]⟩ loginMoves).any fun after =>
          decide (Answered true after)) = true := by
    decide +kernel
  obtain ⟨before, hbefore, hchecked⟩ := exists_run hlogin
  rw [Bool.and_eq_true, decide_eq_true_eq] at hchecked
  obtain ⟨after, hafter, hanswered⟩ := exists_run hchecked.2
  have hanswered := of_decide_eq_true hanswered
  obtain ⟨t, ht, hanswer⟩ := Option.bind_eq_some_iff.mp hanswered
  rw [← hchecked.1] at ht
  have htransparent := authenticate_transparent (fun _ => none) (ascii "ann") (ascii "secret")
    false .stored before after hbefore hafter t ht true (answerOf_eq_some hanswer) (by decide)
  exact ⟨before, after, hbefore, hanswered, htransparent.1⟩

/-- A digest with a NUL byte behind it lets the password of the digest in. -/
theorem nul_logs_in : ∃ c : Config Request Store Bool,
    Runs program (fun _ _ => True) ⟨emptyStore, []⟩ c ∧ Answered true c ∧
      c.state.users (ascii "ann") = some (sha256Hex (ascii "secret") ++ [0]) ∧
      some (sha256Hex (ascii "secret") ++ [0]) ≠ some (sha256Hex (ascii "secret")) := by
  have hlogin : (execute program ⟨emptyStore, []⟩
      (insertMoves (sha256Hex (ascii "secret") ++ [0]) ++ .spawn login :: loginMoves)).any
      (fun c => decide (Answered true c ∧
        c.state.users (ascii "ann") = some (sha256Hex (ascii "secret") ++ [0]))) = true := by
    decide +kernel
  obtain ⟨c, hrun, hchecked⟩ := exists_run hlogin
  obtain ⟨hanswered, hrow⟩ := of_decide_eq_true hchecked
  refine ⟨c, hrun, hanswered, hrow, ?_⟩
  intro h
  have hlength := congrArg List.length (Option.some.inj h)
  simp only [List.length_append, List.length_singleton] at hlength
  omega

end Bookstore.CredentialCache
