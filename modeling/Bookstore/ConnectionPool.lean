import Bookstore.HoldAndWait
import Mathlib.Algebra.Group.Action.Defs
import Mathlib.Algebra.Order.BigOperators.Group.List

/-!
The connection pool under the thread pool. The dispatcher holds a connection
for the whole of `process`, every repository call takes another one, and
`create_book`, `update_book` and `cancel_order` read back what they wrote
while they still hold theirs. `GetConnection` waits while the pool is empty;
shutdown is left out.
-/
namespace Bookstore.ConnectionPool

open HoldAndWait (Op Balanced peak balanced_nil balanced_holding peak_holding balanced_flatMap
  peak_flatMap)

/-- Connections are known by their number. -/
structure Pool where
  connList : List ℕ
  freeConn : ℤ
  curConn : ℤ
deriving DecidableEq

def Pool.init (maxConn : ℕ) : Pool := ⟨List.range maxConn, maxConn, 0⟩

/-- `none` while the caller waits. -/
def Pool.getConnection (pool : Pool) : Option (ℕ × Pool) :=
  match pool.connList with
  | [] => none
  | con :: rest => some (con, ⟨rest, pool.freeConn - 1, pool.curConn + 1⟩)

def Pool.releaseConnection (pool : Pool) (con : ℕ) : Pool :=
  ⟨pool.connList ++ [con], pool.freeConn + 1, pool.curConn - 1⟩

/-- The pool traffic of a scope that holds a connection. -/
def connectionRAII (body : List Op) : List Op := HoldAndWait.holding body

/-- The calls an API handler makes on the MySQL repositories. `readBack` tells
that the statements went through, so that the call ends by reading the row;
a `rejected` call returns on its arguments alone. -/
inductive RepositoryCall
  | rejected
  | createUser
  | authenticate
  | listBooks
  | findBook
  | createBook (readBack : Bool)
  | updateBook (readBack : Bool)
  | availableStock
  | addStock
  | reserveStock
  | releaseStock
  | createOrder
  | listOrders
  | findOrder
  | cancelOrder (readBack : Bool)
deriving DecidableEq

namespace RepositoryCall

/-- `find_book` and `find_order`, also when they read back. -/
def find : List Op := connectionRAII []

def traffic : RepositoryCall → List Op
  | rejected => []
  | createBook readBack | updateBook readBack | cancelOrder readBack =>
    connectionRAII (if readBack then find else [])
  | findBook | findOrder => find
  | createUser | authenticate | listBooks | availableStock | addStock | reserveStock
  | releaseStock | createOrder | listOrders => connectionRAII []

/-- Connections the call holds at once. -/
def depth : RepositoryCall → ℕ
  | rejected => 0
  | createBook readBack | updateBook readBack | cancelOrder readBack => if readBack then 2 else 1
  | _ => 1

end RepositoryCall

/-- What a worker finds in the queue: a request to process, with the calls its
handler makes, or socket work of reactor mode that ends without `process`. -/
inductive Request
  | process (calls : List RepositoryCall)
  | socketOnly
deriving DecidableEq

def dispatcher : Request → List Op
  | .process calls => connectionRAII (calls.flatMap RepositoryCall.traffic)
  | .socketOnly => []

/-- Connections a worker holds at once for the request. -/
def Request.depth : Request → ℕ
  | .process calls => 1 + (calls.map RepositoryCall.depth).foldr max 0
  | .socketOnly => 0

/-- A worker's request, the connections in its open scopes, innermost first,
and what is left to do. -/
structure Task where
  request : Request
  scopes : List ℕ
  rest : List Op
deriving DecidableEq

/-- The sizes the constructor of the thread pool lets through. -/
structure ThreadpoolSizes where
  threadNumber : ℕ
  maxRequests : ℕ
  threadNumber_pos : 0 < threadNumber
  maxRequests_pos : 0 < maxRequests

structure Server where
  pool : Pool
  workers : List (Option Task)
  workqueue : List Request
  incoming : List Request
deriving DecidableEq

def Server.start (maxConn : ℕ) (sizes : ThreadpoolSizes) (requests : List Request) : Server :=
  ⟨.init maxConn, List.replicate sizes.threadNumber none, [], requests⟩

/-- `append` for the `k`-th request to come, a worker's `run` picking the front
of the queue, or a worker's next step in the dispatcher. -/
def Server.fire (sizes : ThreadpoolSizes) (s : Server) : HoldAndWait.Move → Option Server
  | .arrive k =>
    match s.incoming[k]? with
    | some request =>
      some { s with
        workqueue :=
          if s.workqueue.length < sizes.maxRequests then s.workqueue ++ [request] else s.workqueue
        incoming := s.incoming.eraseIdx k }
    | none => none
  | .take i =>
    match s.workers[i]?, s.workqueue with
    | some none, request :: workqueue =>
      some { s with
        workers := s.workers.set i (some ⟨request, [], dispatcher request⟩)
        workqueue := workqueue }
    | _, _ => none
  | .advance i =>
    match s.workers[i]? with
    | some (some ⟨request, scopes, .acquire :: rest⟩) =>
      match s.pool.getConnection with
      | some (con, pool) =>
        some { s with pool := pool, workers := s.workers.set i (some ⟨request, con :: scopes, rest⟩) }
      | none => none
    | some (some ⟨request, con :: scopes, .release :: rest⟩) =>
      some { s with
        pool := s.pool.releaseConnection con
        workers := s.workers.set i (some ⟨request, scopes, rest⟩) }
    | some (some ⟨_, _, []⟩) => some { s with workers := s.workers.set i none }
    | _ => none

def Server.execute (sizes : ThreadpoolSizes) (s : Server) : List HoldAndWait.Move → Option Server
  | [] => some s
  | m :: rest => (s.fire sizes m).bind fun s' => s'.execute sizes rest

/-- The pool is empty, and every worker with a connection waits in
`GetConnection`. -/
def Server.Deadlocked (s : Server) : Prop :=
  s.pool.connList = [] ∧
    ∀ task, some task ∈ s.workers → task.scopes ≠ [] → ∃ rest, task.rest = .acquire :: rest

instance (s : Server) : Decidable s.Deadlocked :=
  decidable_of_iff
    (s.pool.connList = [] ∧ ∀ worker ∈ s.workers, ∀ task ∈ worker,
      task.scopes ≠ [] → task.rest.head? = some .acquire) <| by
    refine and_congr_right fun _ => ⟨fun h task hmem hscopes => ?_, fun h worker hmem task htask => ?_⟩
    · exact ⟨task.rest.tail, List.eq_cons_of_mem_head? (h _ hmem task rfl hscopes)⟩
    · intro hscopes
      obtain ⟨rest, hrest⟩ := h task (htask ▸ hmem) hscopes
      rw [hrest, List.head?_cons]

/-! ## How deep the scopes nest -/

theorem RepositoryCall.balanced_traffic (call : RepositoryCall) : Balanced 0 call.traffic := by
  cases call with
  | rejected => exact balanced_nil
  | createBook readBack | updateBook readBack | cancelOrder readBack =>
    cases readBack with
    | true => exact balanced_holding (balanced_holding balanced_nil)
    | false => exact balanced_holding balanced_nil
  | _ => exact balanced_holding balanced_nil

theorem RepositoryCall.peak_traffic (call : RepositoryCall) : peak 0 call.traffic = call.depth := by
  cases call with
  | createBook readBack | updateBook readBack | cancelOrder readBack => cases readBack <;> rfl
  | _ => rfl

theorem balanced_dispatcher (request : Request) : Balanced 0 (dispatcher request) := by
  cases request with
  | process calls =>
    exact balanced_holding (balanced_flatMap RepositoryCall.balanced_traffic calls)
  | socketOnly => exact balanced_nil

theorem peak_dispatcher (request : Request) : peak 0 (dispatcher request) = request.depth := by
  cases request with
  | process calls =>
    have hbody := balanced_flatMap RepositoryCall.balanced_traffic calls
    simp only [dispatcher, connectionRAII, peak_holding hbody, Request.depth,
      peak_flatMap RepositoryCall.balanced_traffic, RepositoryCall.peak_traffic]
  | socketOnly => rfl

theorem RepositoryCall.depth_le (call : RepositoryCall) : call.depth ≤ 2 := by
  cases call with
  | createBook readBack | updateBook readBack | cancelOrder readBack => cases readBack <;> decide
  | _ => decide

/-- A worker never holds more than three connections. -/
theorem Request.depth_le (request : Request) : request.depth ≤ 3 := by
  cases request with
  | socketOnly => exact Nat.zero_le _
  | process calls =>
    have hcalls : (calls.map RepositoryCall.depth).foldr max 0 ≤ 2 := by
      induction calls with
      | nil => exact Nat.zero_le _
      | cons call rest ih => exact max_le call.depth_le ih
    simp only [Request.depth]
    omega

/-! ## Connections counted -/

def Task.counts (task : Task) : HoldAndWait.Job Request :=
  ⟨task.request, task.scopes.length, task.rest⟩

/-- The server with its connections counted instead of named. -/
def Server.counts (s : Server) : HoldAndWait.State Request where
  free := s.pool.connList.length
  workers := s.workers.map fun worker => worker.map Task.counts
  queue := s.workqueue
  incoming := s.incoming

theorem Server.counts_start (maxConn : ℕ) (sizes : ThreadpoolSizes) (requests : List Request) :
    (Server.start maxConn sizes requests).counts =
      HoldAndWait.start maxConn sizes.threadNumber requests := by
  simp [Server.start, Server.counts, Pool.init, HoldAndWait.start]

theorem Server.counts_advance (sizes : ThreadpoolSizes) (s : Server) {i : ℕ} {task : Task}
    (hworker : s.workers[i]? = some (some task)) :
    (s.fire sizes (.advance i)).map Server.counts =
      HoldAndWait.fire dispatcher sizes.maxRequests s.counts (.advance i) := by
  obtain ⟨request, scopes, rest⟩ := task
  cases rest with
  | nil => simp [Server.fire, HoldAndWait.fire, Server.counts, Task.counts, hworker, List.map_set]
  | cons op rest =>
    cases op with
    | acquire =>
      cases hconn : s.pool.connList with
      | nil =>
        simp [Server.fire, HoldAndWait.fire, Server.counts, Task.counts, hworker,
          Pool.getConnection, hconn]
      | cons con conns =>
        simp [Server.fire, HoldAndWait.fire, Server.counts, Task.counts, hworker,
          Pool.getConnection, hconn, List.map_set]
    | release =>
      cases scopes with
      | nil => simp [Server.fire, HoldAndWait.fire, Server.counts, Task.counts, hworker]
      | cons con scopes =>
        simp [Server.fire, HoldAndWait.fire, Server.counts, Task.counts, hworker,
          Pool.releaseConnection, List.map_set]

/-- Each move of the server is the same move on the counts. -/
theorem Server.counts_fire (sizes : ThreadpoolSizes) (s : Server) (m : HoldAndWait.Move) :
    (s.fire sizes m).map Server.counts =
      HoldAndWait.fire dispatcher sizes.maxRequests s.counts m := by
  cases m with
  | arrive k =>
    simp only [Server.fire, HoldAndWait.fire, Server.counts]
    cases s.incoming[k]? <;> rfl
  | take i =>
    simp only [Server.fire, HoldAndWait.fire, Server.counts, List.getElem?_map]
    rcases s.workers[i]? with _ | _ | task
    · rfl
    · cases s.workqueue with
      | nil => rfl
      | cons request rest => simp [Server.counts, List.map_set, Task.counts]
    · rfl
  | advance i =>
    rcases hworker : s.workers[i]? with _ | _ | task
    · simp [Server.fire, HoldAndWait.fire, Server.counts, hworker]
    · simp [Server.fire, HoldAndWait.fire, Server.counts, hworker]
    · exact s.counts_advance sizes hworker

theorem Server.counts_execute (sizes : ThreadpoolSizes) (moves : List HoldAndWait.Move)
    (s : Server) : (s.execute sizes moves).map Server.counts =
      HoldAndWait.execute dispatcher sizes.maxRequests s.counts moves := by
  induction moves generalizing s with
  | nil => rfl
  | cons m rest ih =>
    have hfire := s.counts_fire sizes m
    simp only [Server.execute, HoldAndWait.execute, ← hfire]
    cases s.fire sizes m with
    | none => rfl
    | some t => exact ih t

theorem Server.deadlocked_counts (s : Server) : HoldAndWait.Deadlocked s.counts ↔ s.Deadlocked := by
  have htask (task : Task) : task.counts.held = 0 ↔ task.scopes = [] := List.length_eq_zero_iff
  simp only [HoldAndWait.Deadlocked, Server.Deadlocked, Server.counts, List.length_eq_zero_iff]
  refine and_congr_right fun _ => ⟨fun h task hmem hscopes => ?_, fun h job hmem hheld => ?_⟩
  · exact h task.counts (List.mem_map.mpr ⟨some task, hmem, rfl⟩)
      (Nat.pos_of_ne_zero fun hzero => hscopes ((htask task).mp hzero))
  · obtain ⟨worker, hworker, heq⟩ := List.mem_map.mp hmem
    obtain ⟨task, rfl, rfl⟩ := Option.map_eq_some_iff.mp heq
    exact h task hworker fun hscopes => hheld.ne' ((htask task).mpr hscopes)

/-! ## Deadlocks -/

theorem reaches_deadlock_iff (maxConn : ℕ) (sizes : ThreadpoolSizes) (requests : List Request) :
    (∃ moves s, (Server.start maxConn sizes requests).execute sizes moves = some s ∧
      s.Deadlocked) ↔
    ∃ chosen : List Request, chosen.Subperm requests ∧ chosen.length ≤ sizes.threadNumber ∧
      maxConn ≤ (chosen.map fun request => request.depth - 1).sum := by
  simp only [← peak_dispatcher]
  rw [← HoldAndWait.reaches_deadlock_iff sizes.maxRequests_pos balanced_dispatcher,
    ← Server.counts_start maxConn sizes requests]
  refine exists_congr fun moves => ?_
  rw [← Server.counts_execute]
  constructor
  · rintro ⟨s, hrun, hdead⟩
    exact ⟨s.counts, by rw [hrun]; rfl, s.deadlocked_counts.mpr hdead⟩
  · rintro ⟨t, hrun, hdead⟩
    obtain ⟨s, hs, rfl⟩ := Option.map_eq_some_iff.mp hrun
    exact ⟨s, hs, s.deadlocked_counts.mp hdead⟩

/-- The default sizes. -/
def defaultSizes : ThreadpoolSizes := ⟨8, 10000, by decide, by decide⟩

/-- Pools that serve every mix of requests: more connections than all workers
can hold while they wait for one more. -/
theorem safe_sizes_iff (maxConn : ℕ) (sizes : ThreadpoolSizes) :
    (∀ requests moves s, (Server.start maxConn sizes requests).execute sizes moves = some s →
      ¬ s.Deadlocked) ↔ 2 * sizes.threadNumber < maxConn := by
  constructor
  · intro hsafe
    by_contra hmany
    have hdepth : (Request.process [.cancelOrder true]).depth - 1 = 2 := rfl
    obtain ⟨moves, s, hrun, hdead⟩ := (reaches_deadlock_iff maxConn sizes
      (List.replicate sizes.threadNumber (.process [.cancelOrder true]))).mpr
      ⟨_, List.Subperm.refl _, by rw [List.length_replicate], by
        rw [List.map_replicate, List.sum_replicate, hdepth, smul_eq_mul]
        omega⟩
    exact hsafe _ moves s hrun hdead
  · intro hsizes requests moves s hrun hdead
    obtain ⟨chosen, -, hlength, hmany⟩ :=
      (reaches_deadlock_iff maxConn sizes requests).mp ⟨moves, s, hrun, hdead⟩
    have hsum := List.sum_le_card_nsmul (chosen.map fun request => request.depth - 1) 2 (by
      intro n hn
      obtain ⟨request, -, rfl⟩ := List.mem_map.mp hn
      have hdepth := request.depth_le
      omega)
    rw [List.length_map, smul_eq_mul] at hsum
    omega

end Bookstore.ConnectionPool
