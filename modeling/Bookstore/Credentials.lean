import Bookstore.Runs
import Bookstore.Users
import Mathlib.Data.List.Nodup
import Mathlib.Data.List.Range
import Mathlib.Tactic.NormNum

/-!
Mixed runs of registrations and logins on both client paths over one store. The
contract of the store is a property of the record of a run. The record of every
run lists the registrations in the order of their ids, and the two maps are
what this list says. Only an empty password on the path without RPC can break
the contract before the ids wrap.
-/
namespace Bookstore.Credentials

open HttpTypes Interleaving Runs Sha256 Users

/-! ## Runs and their records -/

inductive ClientPath
  | inProcess
  | overRpc
deriving DecidableEq, Repr

inductive Call
  | register (path : ClientPath) (username password : Bytes)
  | authenticate (path : ClientPath) (username password : Bytes)
deriving DecidableEq, Repr

/-- Both clients reach one UserService over one repository. -/
def client : ClientPath → UserClient MemoryUsers
  | .inProcess => localUserClient MemoryUsers.repository
  | .overRpc => grpcUserClient (userServer MemoryUsers.repository)

def serve : Call → Prog MemoryUsers (Option User)
  | .register path username password => (client path).createUser username password
  | .authenticate path username password => (client path).authenticate username password

def reply (s : MemoryUsers) (call : Call) : Option User := ((serve call).run s).1

def after (s : MemoryUsers) (call : Call) : MemoryUsers := ((serve call).run s).2

abbrev History := List (Call × Option User)

/-- The calls of a run with their replies. -/
def history : MemoryUsers → List Call → History
  | _, [] => []
  | s, call :: rest => (call, reply s call) :: history (after s call) rest

theorem history_snoc (s : MemoryUsers) (calls : List Call) (call : Call) :
    history s (calls ++ [call]) =
      history s calls ++ [(call, reply (calls.foldl after s) call)] := by
  induction calls generalizing s with
  | nil => rfl
  | cons first rest ih => simp only [List.cons_append, history, ih, List.foldl_cons]

/-! ## The contract -/

/-- A registration that succeeded, and the user that it gave. -/
structure Registration where
  username : Bytes
  password : Bytes
  user : User

def registrationOf : Call × Option User → Option Registration
  | (.register _ username password, some user) => some ⟨username, password, user⟩
  | _ => none

def registrations (h : History) : List Registration := h.filterMap registrationOf

/-- What the contract says about a reply, given the entries before it. -/
def Honoured (earlier : History) : Call × Option User → Prop
  | (.register _ username password, answer) =>
    (answer.isSome ↔ username ≠ [] ∧ password ≠ [] ∧
      ∀ r ∈ registrations earlier, r.username ≠ username)
  | (.authenticate _ username password, answer) =>
    ∀ user, answer = some user ↔ password ≠ [] ∧ ∃ r ∈ registrations earlier,
      r.username = username ∧ sha256Hex r.password = sha256Hex password ∧ r.user = user

/-- Every reply is right, and no two registrations give the same id. -/
structure Contract (h : History) : Prop where
  honoured : Each Honoured h
  distinct : ((registrations h).map fun r => r.user.id).Nodup

/-! ## The condition on a run -/

/-- The names of a list of accounts, each with the password it was opened with. -/
def names (accounts : List (Bytes × Bytes)) : List Bytes := accounts.map Prod.fst

/-- A registration that the contract lets through opens an account. -/
def openAccount (accounts : List (Bytes × Bytes)) : Call → List (Bytes × Bytes)
  | .register _ username password =>
    if username ≠ [] ∧ password ≠ [] ∧ username ∉ names accounts then
      accounts ++ [(username, password)]
    else accounts
  | .authenticate .. => accounts

/-- An empty password without RPC, for a new user or for one whose password has
the hash of the empty one. -/
def Unchecked (accounts : List (Bytes × Bytes)) : Call → Prop
  | .register path username password =>
    path = .inProcess ∧ password = [] ∧ username ≠ [] ∧ username ∉ names accounts
  | .authenticate path username password =>
    path = .inProcess ∧ password = [] ∧ ∃ account ∈ accounts,
      account.1 = username ∧ sha256Hex account.2 = sha256Hex []

def accountsOf (calls : List Call) : List (Bytes × Bytes) := calls.foldl openAccount []

/-- No call of the run is unchecked when it is made. -/
def Checked (calls : List Call) : Prop :=
  Each (fun earlier call => ¬ Unchecked (accountsOf earlier) call) calls

/-! ## What one call does -/

/-- A client refuses empty strings, or it leaves them to the store. -/
def Refuses (path : ClientPath) (username password : Bytes) : Prop :=
  path = .overRpc ∧ (username = [] ∨ password = [])

instance (path : ClientPath) (username password : Bytes) :
    Decidable (Refuses path username password) := by
  unfold Refuses
  infer_instance

theorem register_run (path : ClientPath) (username password : Bytes) (s : MemoryUsers) :
    (serve (.register path username password)).run s =
      if username = [] ∨ Refuses path username password ∨ (s.passwords username).isSome then
        (none, s)
      else (some ⟨s.nextUserId, username⟩, s.insert username (sha256Hex password)) := by
  cases path with
  | inProcess =>
    simp only [serve, client, localUserClient, userService, MemoryUsers.repository,
      Prog.run_call, MemoryUsers.createUser, Refuses, sha256Hex_ne_nil, or_false, reduceCtorEq,
      false_and, false_or]
    split_ifs <;> simp_all
  | overRpc =>
    by_cases hempty : username = [] ∨ password = []
    · simp only [serve, client, grpcUserClient, userServer, register, hempty, if_true, Refuses,
        Prog.run_bind, Prog.run_pure, userOf, true_and, true_or, or_true]
    · simp only [serve, client, grpcUserClient, userServer, register, hempty, if_false, Refuses,
        userService, MemoryUsers.repository, MemoryUsers.createUser, sha256Hex_ne_nil, or_false,
        Prog.run_bind, Prog.run_call, Prog.run_pure, userOf_respond, and_false, false_or]
      split_ifs <;> simp_all

theorem authenticate_run (path : ClientPath) (username password : Bytes) (s : MemoryUsers) :
    (serve (.authenticate path username password)).run s =
      (if Refuses path username password then none
        else s.authenticate username (sha256Hex password), s) := by
  cases path with
  | inProcess => simp [serve, client, localUserClient, userService, MemoryUsers.repository, Refuses]
  | overRpc =>
    by_cases hempty : username = [] ∨ password = []
    · simp only [serve, client, grpcUserClient, userServer, login, hempty, if_true, Refuses,
        Prog.run_bind, Prog.run_pure, userOf, true_and]
    · simp only [serve, client, grpcUserClient, userServer, login, hempty, if_false, Refuses,
        userService, MemoryUsers.repository, Prog.run_bind, Prog.run_read, Prog.run_pure,
        userOf_respond, and_false]

/-! ## The store of a run -/

/-- The id of the registration in this place of the list. -/
def idOf (place : ℕ) : Int32 := 1 + Int32.ofNat place

/-- A map from names holds what the registrations of each name say. -/
def Lists {α : Type} (f : Registration → α) (rs : List Registration) (m : Bytes → Option α) :
    Prop :=
  ∀ username x, m username = some x ↔ ∃ r ∈ rs, r.username = username ∧ f r = x

theorem lists_nil {α : Type} (f : Registration → α) : Lists f [] fun _ => none := by
  intro username x
  simp

theorem Lists.insert {α : Type} {f : Registration → α} {rs : List Registration}
    {m : Bytes → Option α} (h : Lists f rs m) (new : Registration)
    (hnew : ∀ r ∈ rs, r.username ≠ new.username) :
    Lists f (rs ++ [new]) fun name => if name = new.username then some (f new) else m name := by
  intro name x
  simp only [List.mem_append, List.mem_singleton]
  by_cases hcase : name = new.username
  · simp only [hcase, if_true, Option.some.injEq]
    constructor
    · intro heq
      exact ⟨new, .inr rfl, rfl, heq⟩
    · rintro ⟨r, hr | rfl, hname, hx⟩
      · exact absurd hname (hnew r hr)
      · exact hx
  · simp only [hcase, if_false]
    rw [h name x]
    constructor
    · rintro ⟨r, hr, hrest⟩
      exact ⟨r, .inl hr, hrest⟩
    · rintro ⟨r, hr | rfl, hname, hx⟩
      · exact ⟨r, hr, hname, hx⟩
      · exact absurd hname.symm hcase

/-- The two maps and the counter are what the registrations of the run say. -/
structure Keeps (rs : List Registration) (s : MemoryUsers) : Prop where
  counter : s.nextUserId = idOf rs.length
  ids : (rs.map fun r => r.user.id) = (List.range rs.length).map idOf
  unique : (rs.map Registration.username).Nodup
  named : ∀ r ∈ rs, r.username ≠ []
  passwords : Lists (fun r => sha256Hex r.password) rs s.passwords
  users : Lists Registration.user rs s.usersByName

theorem keeps_empty : Keeps [] MemoryUsers.empty where
  counter := by decide
  ids := rfl
  unique := List.nodup_nil
  named := by simp
  passwords := lists_nil _
  users := lists_nil _

section Step

variable {rs : List Registration} {s : MemoryUsers}

theorem Keeps.taken_iff (h : Keeps rs s) (username : Bytes) :
    (s.passwords username).isSome ↔ ∃ r ∈ rs, r.username = username := by
  rw [Option.isSome_iff_exists]
  constructor
  · rintro ⟨stored, hstored⟩
    obtain ⟨r, hr, hname, _⟩ := (h.passwords username stored).mp hstored
    exact ⟨r, hr, hname⟩
  · rintro ⟨r, hr, hname⟩
    exact ⟨_, (h.passwords username _).mpr ⟨r, hr, hname, rfl⟩⟩

/-- A name has one registration. -/
theorem Keeps.eq_of_username (h : Keeps rs s) {r r' : Registration} (hr : r ∈ rs) (hr' : r' ∈ rs)
    (hname : r.username = r'.username) : r = r' :=
  List.inj_on_of_nodup_map h.unique hr hr' hname

theorem Keeps.authenticate_iff (h : Keeps rs s) (username password : Bytes) (user : User) :
    s.authenticate username (sha256Hex password) = some user ↔ ∃ r ∈ rs,
      r.username = username ∧ sha256Hex r.password = sha256Hex password ∧ r.user = user := by
  unfold MemoryUsers.authenticate
  constructor
  · intro hanswer
    split at hanswer
    · cases hanswer
    · rename_i stored hstored
      split at hanswer
      · rename_i heq
        obtain ⟨r, hr, hname, hhash⟩ := (h.passwords username stored).mp hstored
        obtain ⟨r', hr', hname', huser⟩ := (h.users username user).mp hanswer
        have hsame := h.eq_of_username hr hr' (hname.trans hname'.symm)
        exact ⟨r, hr, hname, hhash.trans heq, hsame ▸ huser⟩
      · cases hanswer
  · rintro ⟨r, hr, hname, hhash, huser⟩
    have hstored := (h.passwords username _).mpr ⟨r, hr, hname, hhash⟩
    have hfound := (h.users username user).mpr ⟨r, hr, hname, huser⟩
    simp only [hstored, if_true, hfound]

theorem Keeps.insert (h : Keeps rs s) {username password : Bytes} (hname : username ≠ [])
    (hnew : ∀ r ∈ rs, r.username ≠ username) :
    Keeps (rs ++ [⟨username, password, ⟨s.nextUserId, username⟩⟩])
      (s.insert username (sha256Hex password)) where
  counter := by
    simp only [MemoryUsers.insert, h.counter, idOf, List.length_append, List.length_singleton]
    rw [Int32.ofNat_add, Int32.add_assoc]
    rfl
  ids := by
    simp only [List.map_append, List.length_append, List.length_singleton, List.range_succ, h.ids,
      List.map_cons, List.map_nil, h.counter]
  unique := by
    rw [List.map_append]
    apply List.Nodup.append h.unique (List.nodup_singleton _)
    intro name hleft hright
    obtain ⟨r, hr, hrname⟩ := List.mem_map.mp hleft
    exact hnew r hr (hrname.trans (List.mem_singleton.mp hright))
  named := by
    intro r hr
    rcases List.mem_append.mp hr with hr | hr
    · exact h.named r hr
    · rw [List.mem_singleton.mp hr]
      exact hname
  passwords := h.passwords.insert ⟨username, password, ⟨s.nextUserId, username⟩⟩ hnew
  users := h.users.insert ⟨username, password, ⟨s.nextUserId, username⟩⟩ hnew

/-- What a call registers is added to the list, and nothing else changes. -/
theorem Keeps.after (h : Keeps rs s) (call : Call) :
    Keeps (rs ++ (registrationOf (call, reply s call)).toList) (after s call) := by
  cases call with
  | register path username password =>
    by_cases hrefused :
        username = [] ∨ Refuses path username password ∨ (s.passwords username).isSome
    · simp only [reply, Credentials.after, register_run, hrefused, if_true, registrationOf,
        Option.toList_none, List.append_nil]
      exact h
    · simp only [reply, Credentials.after, register_run, hrefused, if_false, registrationOf,
        Option.toList_some]
      simp only [not_or, h.taken_iff, not_exists, not_and] at hrefused
      exact h.insert hrefused.1 hrefused.2.2
  | authenticate path username password =>
    simp only [Credentials.after, authenticate_run, registrationOf, Option.toList_none,
      List.append_nil]
    exact h

/-- The accounts that the registrations of a run opened. -/
def opened (rs : List Registration) : List (Bytes × Bytes) :=
  rs.map fun r => (r.username, r.password)

theorem mem_names_opened (username : Bytes) :
    username ∈ names (opened rs) ↔ ∃ r ∈ rs, r.username = username := by
  simp only [names, opened, List.map_map, List.mem_map, Function.comp_apply]

theorem Keeps.register_right (h : Keeps rs s) (path : ClientPath) (username password : Bytes) :
    ((reply s (.register path username password)).isSome ↔ username ≠ [] ∧ password ≠ [] ∧
        ∀ r ∈ rs, r.username ≠ username) ↔
      ¬ Unchecked (opened rs) (.register path username password) := by
  have haccepted : (reply s (.register path username password)).isSome ↔
      username ≠ [] ∧ ¬ Refuses path username password ∧ ∀ r ∈ rs, r.username ≠ username := by
    have htaken := h.taken_iff username
    simp only [reply, register_run]
    split
    · rename_i hrefused
      simp only [Option.isSome_none, Bool.false_eq_true, false_iff]
      rintro ⟨hname, hpath, hnew⟩
      rcases hrefused with hempty | hrefuses | hsome
      · exact hname hempty
      · exact hpath hrefuses
      · obtain ⟨r, hr, hsame⟩ := htaken.mp hsome
        exact hnew r hr hsame
    · rename_i hpassed
      simp only [not_or, htaken, not_exists, not_and] at hpassed
      simp only [Option.isSome_some, true_iff]
      exact hpassed
  rw [haccepted]
  simp only [Unchecked, Refuses, mem_names_opened, not_exists, not_and]
  cases path with
  | inProcess =>
    simp only [reduceCtorEq, forall_const]
    tauto
  | overRpc =>
    simp only [reduceCtorEq, false_implies, iff_true]
    tauto

theorem Keeps.authenticate_right (h : Keeps rs s) (path : ClientPath)
    (username password : Bytes) :
    (∀ user, reply s (.authenticate path username password) = some user ↔
        password ≠ [] ∧ ∃ r ∈ rs, r.username = username ∧
          sha256Hex r.password = sha256Hex password ∧ r.user = user) ↔
      ¬ Unchecked (opened rs) (.authenticate path username password) := by
  simp only [reply, authenticate_run, Unchecked]
  cases path with
  | inProcess =>
    simp only [Refuses, reduceCtorEq, false_and, if_false, h.authenticate_iff, true_and]
    by_cases hempty : password = []
    · subst hempty
      simp only [ne_eq, not_true_eq_false, false_and, iff_false, true_and]
      constructor
      · rintro hnone ⟨account, haccount, hname, hhash⟩
        obtain ⟨r, hr, hopened⟩ := List.mem_map.mp haccount
        subst hopened
        exact hnone r.user ⟨r, hr, hname, hhash, rfl⟩
      · rintro hnone user ⟨r, hr, hname, hhash, _⟩
        exact hnone ⟨_, List.mem_map.mpr ⟨r, hr, rfl⟩, hname, hhash⟩
    · simp only [ne_eq, hempty, not_false_eq_true, true_and, false_and, implies_true]
  | overRpc =>
    simp only [reduceCtorEq, false_and, not_false_eq_true, iff_true]
    intro user
    by_cases hrefused : Refuses .overRpc username password
    · simp only [hrefused, if_true, reduceCtorEq, false_iff]
      rintro ⟨hpassword, r, hr, hname, _⟩
      rcases hrefused.2 with hempty | hempty
      · exact h.named r hr (hname.trans hempty)
      · exact hpassword hempty
    · have hpassword : password ≠ [] := fun hempty => hrefused ⟨rfl, .inr hempty⟩
      simp only [hrefused, if_false, h.authenticate_iff, ne_eq, hpassword, not_false_eq_true,
        true_and]

/-- A call that is checked opens what the contract opens. -/
theorem Keeps.opened_after (h : Keeps rs s) (call : Call)
    (hcall : ¬ Unchecked (opened rs) call) :
    opened (rs ++ (registrationOf (call, reply s call)).toList) =
      openAccount (opened rs) call := by
  cases call with
  | register path username password =>
    have hright := (h.register_right path username password).mpr hcall
    simp only [openAccount, mem_names_opened, not_exists, not_and]
    rcases hreply : reply s (.register path username password) with _ | user
    · rw [hreply, Option.isSome_none] at hright
      rw [if_neg fun hopen => Bool.false_ne_true (hright.mpr hopen)]
      simp only [registrationOf, Option.toList_none, List.append_nil]
    · rw [hreply, Option.isSome_some] at hright
      rw [if_pos (hright.mp rfl)]
      simp only [registrationOf, Option.toList_some, opened, List.map_append, List.map_cons,
        List.map_nil]
  | authenticate path username password =>
    simp only [registrationOf, Option.toList_none, List.append_nil, openAccount]

end Step

/-! ## Whole runs -/

theorem registrations_snoc (h : History) (entry : Call × Option User) :
    registrations (h ++ [entry]) = registrations h ++ (registrationOf entry).toList := by
  rw [registrations, registrations, List.filterMap_append]
  rfl

theorem keeps_run (calls : List Call) :
    Keeps (registrations (history .empty calls)) (calls.foldl after .empty) := by
  induction calls using List.reverseRecOn with
  | nil => exact keeps_empty
  | append_singleton calls call ih =>
    rw [history_snoc, registrations_snoc, List.foldl_append]
    exact ih.after call

theorem accounts_run (calls : List Call) (hchecked : Checked calls) :
    accountsOf calls = opened (registrations (history .empty calls)) := by
  induction calls using List.reverseRecOn with
  | nil => rfl
  | append_singleton calls call ih =>
    obtain ⟨hbefore, hcall⟩ := each_snoc.mp hchecked
    have haccounts := ih hbefore
    rw [haccounts] at hcall
    rw [history_snoc, registrations_snoc, (keeps_run calls).opened_after call hcall, ← haccounts]
    simp only [accountsOf, List.foldl_append, List.foldl_cons, List.foldl_nil]

theorem honoured_iff (calls : List Call) :
    Each Honoured (history .empty calls) ↔ Checked calls := by
  induction calls using List.reverseRecOn with
  | nil => exact iff_of_true each_nil each_nil
  | append_singleton calls call ih =>
    have hkeeps := keeps_run calls
    rw [history_snoc, each_snoc, Checked, each_snoc, ih]
    refine and_congr_right fun hchecked => ?_
    rw [accounts_run calls hchecked]
    cases call with
    | register path username password => exact hkeeps.register_right path username password
    | authenticate path username password =>
      exact hkeeps.authenticate_right path username password

/-- The ids are the first numbers of a counter of 32 bits. -/
theorem idOf_nodup_iff (count : ℕ) : ((List.range count).map idOf).Nodup ↔ count ≤ 2 ^ 32 := by
  rw [List.nodup_map_iff_inj_on List.nodup_range]
  simp only [List.mem_range]
  constructor
  · intro hinj
    by_contra hmany
    have hwrap : idOf (2 ^ 32) = idOf 0 := by decide
    have hzero := hinj (2 ^ 32) (by omega) 0 (by omega) hwrap
    omega
  · intro hfew x hx y hy hxy
    have hsame : Int32.ofNat x = Int32.ofNat y := by
      have hdiff := congrArg (fun id : Int32 => id - 1) hxy
      simpa only [idOf, Int32.add_comm 1, Int32.add_sub_cancel] using hdiff
    have hbits := congrArg (fun id : Int32 => id.toBitVec.toNat) hsame
    simp only [Int32.toBitVec_ofNat', BitVec.toNat_ofNat] at hbits
    omega

/-- The store keeps its contract over a run exactly when no unchecked empty
password comes in and there are at most 2^32 accounts to open. -/
theorem contract_iff (calls : List Call) :
    Contract (history .empty calls) ↔
      Checked calls ∧ (accountsOf calls).length ≤ 2 ^ 32 := by
  have hids : ((registrations (history .empty calls)).map fun r => r.user.id).Nodup ↔
      (registrations (history .empty calls)).length ≤ 2 ^ 32 := by
    rw [(keeps_run calls).ids, idOf_nodup_iff]
  have hlength (hchecked : Checked calls) :
      (accountsOf calls).length = (registrations (history .empty calls)).length := by
    rw [accounts_run calls hchecked, opened, List.length_map]
  constructor
  · intro h
    have hchecked := (honoured_iff calls).mp h.honoured
    refine ⟨hchecked, ?_⟩
    rw [hlength hchecked]
    exact hids.mp h.distinct
  · rintro ⟨hchecked, hfew⟩
    rw [hlength hchecked] at hfew
    exact ⟨(honoured_iff calls).mpr hchecked, hids.mpr hfew⟩

/-- Without RPC an empty password opens an account; the server of the RPC path
refuses the same request. -/
theorem empty_password_registers :
    history .empty [.register .inProcess (ascii "ann") []] =
      [(.register .inProcess (ascii "ann") [], some ⟨1, ascii "ann"⟩)] ∧
    history .empty [.register .overRpc (ascii "ann") []] =
      [(.register .overRpc (ascii "ann") [], none)] ∧
    ¬ Contract (history .empty [.register .inProcess (ascii "ann") []]) := by
  refine ⟨by decide, by decide +kernel, ?_⟩
  intro h
  have hopen := h.honoured [] _ [] rfl
  have hregistered : (reply .empty (.register .inProcess (ascii "ann") [])).isSome := by
    decide
  exact (hopen.mp hregistered).2.1 rfl

end Bookstore.Credentials
