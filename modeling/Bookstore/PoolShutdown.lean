import Bookstore.ConnectionPool
import Bookstore.Runs
import Mathlib.Data.List.Range

/-!
The connection pool with its shutdown. A scope of connectionRAII keeps what
GetConnection gave, nothing after DestroyPool, and gives it back once. Every
connection is idle, held in one open scope, or closed, whatever the order of
the calls.
-/
namespace Bookstore.PoolShutdown

structure Pool extends ConnectionPool.Pool where
  maxConn : ℤ
  shutdown : Bool
deriving DecidableEq

namespace Pool

def init (maxConn : ℕ) : Pool := ⟨.init maxConn, maxConn, false⟩

/-- `none` while the caller waits; a null connection after DestroyPool. -/
def getConnection (pool : Pool) : Option (Option ℕ × Pool) :=
  if pool.shutdown then some (none, pool)
  else pool.toPool.getConnection.map fun (con, rest) => (some con, { pool with toPool := rest })

def releaseConnection (pool : Pool) : Option ℕ → Pool
  | none => pool
  | some con => { pool with toPool := pool.toPool.releaseConnection con }

/-- The connections that mysql_close gets, in order, and the pool after that. -/
def destroyPool (pool : Pool) : List ℕ × Pool :=
  (pool.connList, ⟨⟨[], 0, 0⟩, pool.maxConn, true⟩)

end Pool

/-- An open scope of connectionRAII. -/
structure Scope (γ : Type) where
  client : γ
  conRAII : Option ℕ
deriving DecidableEq

structure System (γ : Type) where
  pool : Pool
  scopes : List (Scope γ)
  closed : List ℕ
deriving DecidableEq

inductive Move (γ : Type)
  | getConnection (client : γ)
  | releaseConnection (k : ℕ)
  | destroyPool
deriving DecidableEq

/-- Where a connection is. -/
inductive Place (γ : Type)
  | idle
  | held (client : γ)
  | closed

namespace System

variable {γ : Type} (s : System γ)

def start (maxConn : ℕ) : System γ := ⟨.init maxConn, [], []⟩

/-- A client enters a scope, the `k`-th scope ends, or the pool is destroyed. -/
def fire : Move γ → Option (System γ)
  | .getConnection client =>
    s.pool.getConnection.map fun (con, pool) =>
      { s with pool := pool, scopes := ⟨client, con⟩ :: s.scopes }
  | .releaseConnection k =>
    s.scopes[k]?.map fun scope =>
      { s with pool := s.pool.releaseConnection scope.conRAII, scopes := s.scopes.eraseIdx k }
  | .destroyPool =>
    some { s with pool := s.pool.destroyPool.2, closed := s.closed ++ s.pool.destroyPool.1 }

def execute (moves : List (Move γ)) : Option (System γ) := moves.foldlM fire s

/-- The connections in open scopes. -/
def held : List ℕ := s.scopes.filterMap Scope.conRAII

def Has (con : ℕ) : Place γ → Prop
  | .idle => con ∈ s.pool.connList
  | .held client => ⟨client, some con⟩ ∈ s.scopes
  | .closed => con ∈ s.closed

/-- The connections of the pool, each in one place and there once, and the
counters of the pool. -/
structure Accounted (maxConn : ℕ) : Prop where
  places : (s.pool.connList ++ s.held ++ s.closed).Perm (List.range maxConn)
  free : s.pool.freeConn = s.pool.connList.length
  total : s.pool.shutdown = false → s.pool.freeConn + s.pool.curConn = s.pool.maxConn

theorem accounted_start (maxConn : ℕ) : (start maxConn : System γ).Accounted maxConn where
  places := by
    simp only [start, held, Pool.init, ConnectionPool.Pool.init, List.filterMap_nil,
      List.append_nil]
    exact List.Perm.refl _
  free := by simp only [start, Pool.init, ConnectionPool.Pool.init, List.length_range]
  total := by
    intro _
    simp only [start, Pool.init, ConnectionPool.Pool.init, add_zero]

variable {s} {s' : System γ} {maxConn : ℕ}

/-- What a scope gets: the first idle connection, or nothing after shutdown. -/
theorem getConnection_cases {client : γ} (h : s.fire (.getConnection client) = some s') :
    (s.pool.shutdown = true ∧ s' = { s with scopes := ⟨client, none⟩ :: s.scopes }) ∨
    ∃ con rest, s.pool.shutdown = false ∧ s.pool.connList = con :: rest ∧
      s' = { s with
        pool := { s.pool with
          connList := rest
          freeConn := s.pool.freeConn - 1
          curConn := s.pool.curConn + 1 }
        scopes := ⟨client, some con⟩ :: s.scopes } := by
  simp only [fire, Pool.getConnection] at h
  by_cases hdown : s.pool.shutdown = true
  · rw [if_pos hdown, Option.map_some, Option.some.injEq] at h
    exact Or.inl ⟨hdown, h.symm⟩
  · rw [if_neg hdown] at h
    simp only [ConnectionPool.Pool.getConnection] at h
    cases hlist : s.pool.connList with
    | nil => simp [hlist] at h
    | cons con rest =>
      simp only [hlist, Option.map_some, Option.some.injEq] at h
      exact Or.inr ⟨con, rest, Bool.eq_false_iff.mpr hdown, rfl, h.symm⟩

theorem accounted_getConnection {client : γ} (hs : s.Accounted maxConn)
    (h : s.fire (.getConnection client) = some s') : s'.Accounted maxConn := by
  obtain ⟨hdown, rfl⟩ | ⟨con, rest, hdown, hlist, rfl⟩ := getConnection_cases h
  · exact ⟨by simpa only [held, List.filterMap_cons_none] using hs.places, hs.free, hs.total⟩
  · have hplaces := hs.places
    have hfree := hs.free
    have htotal := hs.total hdown
    rw [hlist] at hplaces hfree
    refine ⟨List.Perm.trans ?_ hplaces, ?_, fun _ => ?_⟩
    · simp only [held, List.cons_append]
      exact (List.perm_middle (a := con)).append_right _
    · simp only [List.length_cons] at hfree ⊢
      omega
    · show s.pool.freeConn - 1 + (s.pool.curConn + 1) = s.pool.maxConn
      omega

/-- Ending a scope gives its connection back, also after shutdown. -/
theorem accounted_releaseConnection {k : ℕ} (hs : s.Accounted maxConn)
    (h : s.fire (.releaseConnection k) = some s') : s'.Accounted maxConn := by
  obtain ⟨⟨client, con⟩, hscope, rfl⟩ := Option.map_eq_some_iff.mp h
  have hperm : s.scopes.Perm (⟨client, con⟩ :: s.scopes.eraseIdx k) := by
    obtain ⟨hk, hget⟩ := List.getElem?_eq_some_iff.mp hscope
    rw [← hget]
    exact (List.getElem_cons_eraseIdx_perm hk).symm
  have hheld := hperm.filterMap Scope.conRAII
  cases con with
  | none =>
    refine ⟨List.Perm.trans ?_ hs.places, hs.free, hs.total⟩
    exact (List.Perm.append_left _ hheld.symm).append_right _
  | some con =>
    refine ⟨List.Perm.trans ?_ hs.places, ?_, fun hdown => ?_⟩
    · refine List.Perm.append_right _ ?_
      simp only [Pool.releaseConnection, ConnectionPool.Pool.releaseConnection, held,
        List.append_assoc, List.singleton_append]
      exact List.Perm.append_left _ hheld.symm
    · have hfree := hs.free
      simp only [Pool.releaseConnection, ConnectionPool.Pool.releaseConnection, List.length_append,
        List.length_singleton]
      omega
    · have htotal := hs.total hdown
      simp only [Pool.releaseConnection, ConnectionPool.Pool.releaseConnection]
      omega

theorem accounted_destroyPool (hs : s.Accounted maxConn)
    (h : s.fire .destroyPool = some s') : s'.Accounted maxConn := by
  cases h
  refine ⟨List.Perm.trans ?_ hs.places, rfl, fun hdown => by cases hdown⟩
  simp only [Pool.destroyPool, held, List.nil_append, List.append_assoc]
  exact ((@List.perm_append_comm _ s.closed _).append_left _).trans
    (List.perm_append_comm_assoc _ _ _)

theorem accounted_fire (s : System γ) (move : Move γ) (s' : System γ)
    (hs : s.Accounted maxConn) (h : s.fire move = some s') : s'.Accounted maxConn := by
  cases move with
  | getConnection client => exact accounted_getConnection hs h
  | releaseConnection k => exact accounted_releaseConnection hs h
  | destroyPool => exact accounted_destroyPool hs h

theorem accounted_execute {moves : List (Move γ)}
    (hrun : (start maxConn).execute moves = some s) : s.Accounted maxConn :=
  Runs.foldlM_keeps (I := fun s => s.Accounted maxConn) accounted_fire (accounted_start maxConn)
    hrun

/-! ## One place for each connection -/

theorem mem_held {con : ℕ} : con ∈ s.held ↔ ∃ client, s.Has con (.held client) := by
  simp only [held, List.mem_filterMap, Has]
  constructor
  · intro h
    obtain ⟨⟨client, _⟩, hscope, rfl⟩ := h
    exact ⟨client, hscope⟩
  · intro h
    obtain ⟨client, hscope⟩ := h
    exact ⟨_, hscope, rfl⟩

/-- A connection that no second scope holds has one holder. -/
theorem holder_unique {con : ℕ} {a b : γ} (hnodup : s.held.Nodup) (ha : s.Has con (.held a))
    (hb : s.Has con (.held b)) : a = b := by
  by_contra hne
  have hpairs := List.pairwise_filterMap.mp hnodup
  have : Std.Symm fun x y : Scope γ =>
      ∀ c, x.conRAII = some c → ∀ d, y.conRAII = some d → c ≠ d := by
    constructor
    intro x y h c hc d hd
    exact (h d hd c hc).symm
  exact hpairs.forall ha hb (fun h => hne (Scope.mk.inj h).1) con rfl con rfl rfl

variable (hs : s.Accounted maxConn)
include hs

theorem Accounted.nodup : (s.pool.connList ++ s.held ++ s.closed).Nodup :=
  hs.places.nodup_iff.mpr List.nodup_range

theorem Accounted.idle_alone {con : ℕ} (h : con ∈ s.pool.connList) :
    con ∉ s.held ∧ con ∉ s.closed := by
  have hnodup := hs.nodup
  rw [List.append_assoc, List.nodup_append] at hnodup
  have hapart := hnodup.2.2 con h
  exact ⟨fun hheld => hapart con (List.mem_append_left _ hheld) rfl,
    fun hclosed => hapart con (List.mem_append_right _ hclosed) rfl⟩

theorem Accounted.held_open {con : ℕ} (h : con ∈ s.held) : con ∉ s.closed := by
  have hnodup := hs.nodup
  rw [List.append_assoc, List.nodup_append, List.nodup_append] at hnodup
  exact fun hclosed => hnodup.2.1.2.2 con h con hclosed rfl

theorem Accounted.one_place {con : ℕ} (hcon : con < maxConn) : ∃! place, s.Has con place := by
  have hnodup := hs.nodup
  rw [List.append_assoc, List.nodup_append, List.nodup_append] at hnodup
  have hmem := hs.places.mem_iff.mpr (List.mem_range.mpr hcon)
  rw [List.append_assoc, List.mem_append, List.mem_append] at hmem
  have hheld {client : γ} (h : s.Has con (.held client)) : con ∈ s.held := mem_held.mpr ⟨_, h⟩
  rcases hmem with hidle | hscope | hclosed
  · obtain ⟨hfree, hopen⟩ := hs.idle_alone hidle
    refine ⟨.idle, hidle, fun place hplace => ?_⟩
    cases place with
    | idle => rfl
    | held client => exact absurd (hheld hplace) hfree
    | closed => exact absurd hplace hopen
  · obtain ⟨client, hclient⟩ := mem_held.mp hscope
    refine ⟨.held client, hclient, fun place hplace => ?_⟩
    cases place with
    | idle => exact absurd hscope (hs.idle_alone hplace).1
    | held other => rw [holder_unique hnodup.2.1.1 hplace hclient]
    | closed => exact absurd hplace (hs.held_open hscope)
  · refine ⟨.closed, hclosed, fun place hplace => ?_⟩
    cases place with
    | idle => exact absurd hclosed (hs.idle_alone hplace).2
    | held client => exact absurd hclosed (hs.held_open (hheld hplace))
    | closed => rfl

omit hs

/-! ## Runs -/

theorem shutdown_fire {move : Move γ} (h : s.fire move = some s') (hmove : .destroyPool ≠ move) :
    s'.pool.shutdown = s.pool.shutdown := by
  cases move with
  | getConnection client =>
    obtain ⟨_, rfl⟩ | ⟨con, rest, _, _, rfl⟩ := getConnection_cases h
    · rfl
    · rfl
  | releaseConnection k =>
    obtain ⟨⟨client, con⟩, _, rfl⟩ := Option.map_eq_some_iff.mp h
    cases con with
    | none => rfl
    | some con => rfl
  | destroyPool => exact absurd rfl hmove

theorem shutdown_execute {moves : List (Move γ)} (hrun : s.execute moves = some s')
    (hmoves : .destroyPool ∉ moves) : s'.pool.shutdown = s.pool.shutdown := by
  induction moves generalizing s with
  | nil =>
    cases hrun
    rfl
  | cons move rest ih =>
    rw [execute, List.foldlM_cons] at hrun
    obtain ⟨t, ht, hrest⟩ := Option.bind_eq_some_iff.mp hrun
    rw [List.mem_cons, not_or] at hmoves
    obtain ⟨hmove, hnot⟩ := hmoves
    rw [ih hrest hnot, shutdown_fire ht hmove]

/-- In every state that the clients and DestroyPool can reach: each connection
is idle, with one client or closed, and there once; GetConnection gives an idle
one; DestroyPool closes idle ones, each once; the counters agree with the list. -/
theorem connections_accounted (maxConn : ℕ) (moves : List (Move γ)) (s : System γ)
    (hrun : (start maxConn).execute moves = some s) :
    ((∀ con < maxConn, ∃! place, s.Has con place) ∧
      s.pool.connList.Nodup ∧ s.held.Nodup ∧ s.closed.Nodup) ∧
    (∀ con pool, s.pool.getConnection = some (some con, pool) →
      con ∈ s.pool.connList ∧ con ∉ s.held ∧ con ∉ s.closed) ∧
    (s.pool.destroyPool.1.Nodup ∧
      ∀ con ∈ s.pool.destroyPool.1, con ∉ s.held ∧ con ∉ s.closed) ∧
    s.pool.freeConn = s.pool.connList.length ∧
    (.destroyPool ∉ moves → s.pool.freeConn + s.pool.curConn = s.pool.maxConn) := by
  have hs := accounted_execute hrun
  have hnodup := hs.nodup
  rw [List.append_assoc, List.nodup_append, List.nodup_append] at hnodup
  refine ⟨⟨fun con hcon => hs.one_place hcon, hnodup.1, hnodup.2.1.1, hnodup.2.1.2.1⟩, ?_,
    ⟨hnodup.1, fun con hcon => hs.idle_alone hcon⟩, hs.free, fun hmoves => ?_⟩
  · intro con pool hget
    simp only [Pool.getConnection] at hget
    split at hget
    · cases hget
    · obtain ⟨⟨first, rest⟩, hfirst, heq⟩ := Option.map_eq_some_iff.mp hget
      have hmem : con ∈ s.pool.connList := by
        simp only [ConnectionPool.Pool.getConnection] at hfirst
        split at hfirst
        · cases hfirst
        · rename_i hlist
          cases hfirst
          cases heq
          rw [hlist]
          exact List.mem_cons_self
      exact ⟨hmem, hs.idle_alone hmem⟩
  · exact hs.total (shutdown_execute hrun hmoves)

/-- A scope that ends after the shutdown: its connection stays idle and open. -/
theorem late_release_accounted :
    ∃ s : System ℕ, (start 2).execute
        [.getConnection 7, .getConnection 8, .releaseConnection 1, .destroyPool,
          .getConnection 9, .releaseConnection 1] = some s ∧
      ∀ con < 2, ∃! place, s.Has con place :=
  ⟨⟨⟨⟨[1], 1, -1⟩, 2, true⟩, [⟨9, none⟩], [0]⟩, rfl,
    (connections_accounted 2 [.getConnection 7, .getConnection 8, .releaseConnection 1,
      .destroyPool, .getConnection 9, .releaseConnection 1] _ rfl).1.1⟩

end System

end Bookstore.PoolShutdown
