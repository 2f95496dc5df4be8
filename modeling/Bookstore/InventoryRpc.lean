import Bookstore.MysqlInventory
import Bookstore.Services

/-!
The inventory RPC service and its client. The server checks a request, narrows
the 64-bit book ids to int and calls InventoryService; the client makes one
call for each method and keeps nothing but the OK bit and the stock. The
client makes up reservation ids of its own for the forms on a single item.
-/
namespace Bookstore.InventoryRpc

open Database Interleaving MachineInt MysqlInventory Records Repositories Services Transactions
open Transactions.Session

variable {σ τ : Type}

inductive StatusCode
  | invalidArgument
  | notFound
  | failedPrecondition
deriving DecidableEq, Repr

/-- A status other than OK. -/
structure Status where
  code : StatusCode
  message : String
deriving DecidableEq, Repr

abbrev Rpc (α : Type) := Except Status α

structure InventoryItem where
  bookId : Int64
  available : Int32
deriving DecidableEq, Repr

structure MutationMessage where
  bookId : Int64
  quantity : Int32
deriving DecidableEq, Repr

structure InboundInventoryRequest where
  bookId : Int64
  quantity : Int32

/-- ReserveInventoryRequest and ReleaseInventoryRequest have the same fields. -/
structure ReservationRequest where
  reservationId : String
  items : List MutationMessage

/-- The four methods of the service, as the server implements them and as a
stub offers them. -/
structure InventoryStub (σ : Type) where
  getInventory : Int64 → Prog σ (Rpc InventoryItem)
  inboundInventory : InboundInventoryRequest → Prog σ (Rpc InventoryItem)
  reserveInventory : ReservationRequest → Prog σ (Rpc (List InventoryItem))
  releaseInventory : ReservationRequest → Prog σ (Rpc (List InventoryItem))

/-- The server behind a stub keeps its state in a component of the whole. -/
def InventoryStub.lift (l : Lens σ τ) (stub : InventoryStub τ) : InventoryStub σ where
  getInventory bookId := (stub.getInventory bookId).lift l
  inboundInventory request := (stub.inboundInventory request).lift l
  reserveInventory request := (stub.reserveInventory request).lift l
  releaseInventory request := (stub.releaseInventory request).lift l

/-! ## InventoryGrpcServiceImpl -/

section Server

variable (repository : InventoryRepository σ)

def appendCurrentItem (bookId : Int32) : Prog σ (Rpc InventoryItem) := do
  match ← (inventoryService repository).availableStock bookId with
  | none => pure (.error ⟨.notFound, "inventory not found"⟩)
  | some stock => pure (.ok ⟨bookId.toInt64, stock⟩)

/-- The last loop of ReserveInventory and of ReleaseInventory. -/
def appendCurrentItems : List MutationMessage → Prog σ (Rpc (List InventoryItem))
  | [] => pure (.ok [])
  | item :: rest => do
    match ← appendCurrentItem repository item.bookId.toInt32 with
    | .error status => pure (.error status)
    | .ok current =>
      match ← appendCurrentItems rest with
      | .error status => pure (.error status)
      | .ok currents => pure (.ok (current :: currents))

def getInventory (bookId : Int64) : Prog σ (Rpc InventoryItem) :=
  if bookId ≤ 0 then pure (.error ⟨.invalidArgument, "book_id must be positive"⟩)
  else appendCurrentItem repository bookId.toInt32

def inboundInventory (request : InboundInventoryRequest) : Prog σ (Rpc InventoryItem) :=
  if request.bookId ≤ 0 ∨ request.quantity ≤ 0 then
    pure (.error ⟨.invalidArgument, "book_id and quantity must be positive"⟩)
  else do
    match ← (inventoryService repository).addStock request.bookId.toInt32 request.quantity with
    | none => pure (.error ⟨.notFound, "inventory not found"⟩)
    | some stock => pure (.ok ⟨request.bookId, stock⟩)

/-- The loop that checks and narrows the items of a request. -/
def collect : List MutationMessage → Rpc (List InventoryMutation)
  | [] => .ok []
  | item :: rest =>
    if item.bookId ≤ 0 ∨ item.quantity ≤ 0 then
      .error ⟨.invalidArgument, "book_id and quantity must be positive"⟩
    else (collect rest).map (⟨item.bookId.toInt32, item.quantity⟩ :: ·)

/-- The checks that ReserveInventory and ReleaseInventory start with. -/
def checkReservation (request : ReservationRequest) : Rpc (List InventoryMutation) :=
  if request.items.isEmpty then .error ⟨.invalidArgument, "items must not be empty"⟩
  else if request.reservationId.isEmpty then
    .error ⟨.invalidArgument, "reservation_id is required"⟩
  else collect request.items

def reserveInventory (request : ReservationRequest) : Prog σ (Rpc (List InventoryItem)) :=
  match checkReservation request with
  | .error status => pure (.error status)
  | .ok items => do
    if ← (inventoryService repository).reserveBatch request.reservationId items then
      appendCurrentItems repository request.items
    else pure (.error ⟨.failedPrecondition, "insufficient stock"⟩)

def releaseInventory (request : ReservationRequest) : Prog σ (Rpc (List InventoryItem)) :=
  match checkReservation request with
  | .error status => pure (.error status)
  | .ok items => do
    (inventoryService repository).releaseBatch request.reservationId items
    appendCurrentItems repository request.items

def inventoryServer : InventoryStub σ where
  getInventory := getInventory repository
  inboundInventory := inboundInventory repository
  reserveInventory := reserveInventory repository
  releaseInventory := releaseInventory repository

end Server

/-! ## GrpcInventoryClient -/

def toMessage (item : InventoryMutation) : MutationMessage := ⟨item.bookId.toInt64, item.quantity⟩

/-- The text of an id made up by the client. -/
def gatewayId (n : ℕ) : String := "gateway-" ++ toString n

section Client

variable (stub : InventoryStub σ) (nextId : Lens σ ℕ)

def nextGatewayId : Prog σ String :=
  .call fun s => (gatewayId (nextId.get s), nextId.set (nextId.get s + 1) s)

def grpcReserve (reservation : String) (items : List InventoryMutation) : Prog σ Bool := do
  match ← stub.reserveInventory ⟨reservation, items.map toMessage⟩ with
  | .ok _ => pure true
  | .error _ => pure false

def grpcRelease (reservation : String) (items : List InventoryMutation) : Prog σ Unit := do
  let _ ← stub.releaseInventory ⟨reservation, items.map toMessage⟩
  pure ()

/-- The stock in a response, none when the status is not OK. -/
def stockOf : Rpc InventoryItem → Option Int32
  | .ok item => some item.available
  | .error _ => none

def grpcInventoryClient : InventoryClient σ where
  availableStock bookId := do
    let response ← stub.getInventory bookId.toInt64
    pure (stockOf response)
  addStock bookId quantity := do
    let response ← stub.inboundInventory ⟨bookId.toInt64, quantity⟩
    pure (stockOf response)
  reserveStock bookId quantity := do
    let reservation ← nextGatewayId nextId
    grpcReserve stub reservation [⟨bookId, quantity⟩]
  releaseStock bookId quantity := do
    let reservation ← nextGatewayId nextId
    grpcRelease stub reservation [⟨bookId, quantity⟩]
  reserveBatch := grpcReserve stub
  releaseBatch := grpcRelease stub

end Client

/-! ## The server over MysqlInventoryRepository -/

/-- Items that come from a client narrow back to what the client was given. -/
theorem collect_toMessage (items : List InventoryMutation) (hpos : Positive items) :
    collect (items.map toMessage) = .ok items := by
  induction items with
  | nil => rfl
  | cons item rest ih =>
    have hitem := hpos item (by simp)
    have hguard : ¬ (item.bookId.toInt64 ≤ 0 ∨ item.quantity ≤ 0) := by
      rw [not_or, toInt64_le_zero_iff, Int32.le_iff_toInt_le, Int32.le_iff_toInt_le,
        Int32.toInt_zero]
      omega
    simp only [List.map_cons, collect, toMessage, hguard, if_false, Int32.toInt32_toInt64]
    rw [ih fun i hi => hpos i (by simp [hi])]
    rfl

/-- Whatever passes the loop was positive. -/
theorem positive_of_collect (items : List InventoryMutation) {result : List InventoryMutation}
    (h : collect (items.map toMessage) = .ok result) : Positive items := by
  induction items generalizing result with
  | nil => simp [Positive]
  | cons item rest ih =>
    simp only [List.map_cons, collect, toMessage] at h
    split at h
    · cases h
    · rename_i hguard
      rw [not_or, toInt64_le_zero_iff, Int32.le_iff_toInt_le, Int32.le_iff_toInt_le,
        Int32.toInt_zero] at hguard
      cases hrest : collect (rest.map toMessage) with
      | error status =>
        rw [hrest] at h
        cases h
      | ok tail =>
        intro i hi
        rcases List.mem_cons.mp hi with rfl | hmem
        · omega
        · exact ih hrest i hmem

/-- A request from the client passes the checks exactly when it names an id and
positive items. -/
theorem checkReservation_cases (reservation : String) (items : List InventoryMutation) :
    (∃ status, checkReservation ⟨reservation, items.map toMessage⟩ = .error status) ∨
    (items ≠ [] ∧ reservation.isEmpty = false ∧ Positive items ∧
      checkReservation ⟨reservation, items.map toMessage⟩ = .ok items) := by
  unfold checkReservation
  split
  · exact .inl ⟨_, rfl⟩
  · rename_i hitems
    split
    · exact .inl ⟨_, rfl⟩
    · rename_i hid
      cases hcollect : collect (items.map toMessage) with
      | error status => exact .inl ⟨status, rfl⟩
      | ok result =>
        have hpos := positive_of_collect items hcollect
        rw [collect_toMessage items hpos] at hcollect
        refine .inr ⟨?_, by simpa using hid, hpos, hcollect.symm⟩
        rintro rfl
        simp at hitems

/-- The stock of a book is only read; with a row and a reliable server it is found. -/
theorem availableStock_spec (bookId : Int32) (s : MySql) :
    ∃ r c, (availableStock bookId).run s = (r, { s with clock := c }) ∧
      (s.Reliable → 0 < bookId.toInt → (s.db.inventory bookId.toInt).isSome → r.isSome) := by
  unfold availableStock
  split
  · rename_i hid
    refine ⟨none, s.clock, rfl, ?_⟩
    intro _ hpos
    rw [Int32.le_iff_toInt_le, Int32.toInt_zero] at hid
    omega
  · simp only [run_withConnection, exec_bind]
    rcases query_autocommit (selectAvailable bookId.toInt) s with ⟨hrun, hnone⟩ | ⟨row, hrow, hrun⟩
    · rw [hrun]
      exact ⟨none, s.clock + 1, rfl, fun hreliable => by cases hnone hreliable⟩
    · rw [hrun]
      refine ⟨row.map atoi, s.clock + 1, rfl, ?_⟩
      intro _ _ hsome
      rw [← Option.some.inj hrow]
      simpa using hsome

theorem appendCurrentItems_spec (items : List InventoryMutation) (s : MySql) :
    ∃ r c, (appendCurrentItems MysqlInventory.repository (items.map toMessage)).run s =
        (r, { s with clock := c }) ∧
      (s.Reliable → Positive items →
        (∀ item ∈ items, (s.db.inventory item.bookId.toInt).isSome) →
          ∃ currents, r = .ok currents) := by
  induction items generalizing s with
  | nil => exact ⟨.ok [], s.clock, rfl, fun _ _ _ => ⟨[], rfl⟩⟩
  | cons item rest ih =>
    obtain ⟨stock, c, hstock, hsome⟩ := availableStock_spec item.bookId s
    have hread : ((inventoryService MysqlInventory.repository).availableStock item.bookId).run s =
        (stock, { s with clock := c }) := hstock
    simp only [List.map_cons, appendCurrentItems, appendCurrentItem, toMessage,
      Int32.toInt32_toInt64, Prog.run_bind, hread]
    cases stock with
    | none =>
      refine ⟨_, c, rfl, ?_⟩
      intro hreliable hpos hrows
      have h := hsome hreliable (hpos item (by simp)).1 (hrows item (by simp))
      simp at h
    | some value =>
      obtain ⟨r, c', hrest, hok⟩ := ih { s with clock := c }
      simp only [Prog.run_pure, Prog.run_bind, hrest]
      cases r with
      | error status =>
        refine ⟨_, c', rfl, ?_⟩
        intro hreliable hpos hrows
        obtain ⟨_, h⟩ := hok hreliable (fun i hi => hpos i (by simp [hi]))
          fun i hi => hrows i (by simp [hi])
        cases h
      | ok currents => exact ⟨_, c', rfl, fun _ _ _ => ⟨_, rfl⟩⟩

/-- A remote reservation leaves the tables alone, and then answers OK only for
an id that is already reserved; or it books the items under a new id, and then
a reliable server answers OK. -/
theorem grpcReserve_spec (reservation : String) (items : List InventoryMutation) (s : MySql) :
    ∃ ok db' c, (grpcReserve (inventoryServer MysqlInventory.repository) reservation items).run s =
        (ok, { s with db := db', clock := c }) ∧
      ((db' = s.db ∧ (ok = true → s.db.reservations reservation = some "reserved")) ∨
        (s.db.reservations reservation = none ∧ reservation.isEmpty = false ∧ Positive items ∧
          Reserved reservation items s.db db' ∧ (s.Reliable → ok = true))) := by
  simp only [grpcReserve, inventoryServer, reserveInventory]
  rcases checkReservation_cases reservation items with ⟨status, hcheck⟩ | ⟨hne, hid, hpos, hcheck⟩
  · rw [hcheck]
    exact ⟨false, s.db, s.clock, rfl, .inl ⟨rfl, by simp⟩⟩
  · rw [hcheck]
    obtain ⟨ok, db', c, hbatch, hcases⟩ := reserveBatch_spec reservation items s
    have hreserve : ((inventoryService MysqlInventory.repository).reserveBatch reservation
        items).run s = (ok, { s with db := db', clock := c }) := hbatch
    simp only [Prog.run_bind, hreserve]
    cases ok with
    | false =>
      rcases hcases with ⟨hdb, _⟩ | ⟨hok, _⟩
      · exact ⟨false, db', c, rfl, .inl ⟨hdb, by simp⟩⟩
      · cases hok
    | true =>
      obtain ⟨r, c', hread, hfound⟩ := appendCurrentItems_spec items
        { s with db := db', clock := c }
      simp only [if_true, hread]
      rcases hcases with ⟨hdb, hstatus⟩ | ⟨_, hnone, _, hreserved⟩
      · cases r with
        | error status => exact ⟨false, db', c', rfl, .inl ⟨hdb, by simp⟩⟩
        | ok currents => exact ⟨true, db', c', rfl, .inl ⟨hdb, fun _ => (hstatus rfl).2⟩⟩
      · have hrows : ∀ item ∈ items, (db'.inventory item.bookId.toInt).isSome := by
          intro item hitem
          rw [hreserved.rows]
          exact hreserved.stocked item hitem
        cases r with
        | error status =>
          refine ⟨false, db', c', rfl, .inr ⟨hnone, hid, hpos, hreserved, ?_⟩⟩
          intro hreliable
          obtain ⟨_, h⟩ := hfound hreliable hpos hrows
          cases h
        | ok currents =>
          exact ⟨true, db', c', rfl, .inr ⟨hnone, hid, hpos, hreserved, fun _ => rfl⟩⟩

/-- A remote release leaves every reservation on record. -/
theorem grpcRelease_keeps (reservation : String) (items : List InventoryMutation) (s : MySql) :
    ∃ db' c, (grpcRelease (inventoryServer MysqlInventory.repository) reservation items).run s =
        ((), { s with db := db', clock := c }) ∧
      ∀ id, (db'.reservations id).isSome = (s.db.reservations id).isSome := by
  simp only [grpcRelease, inventoryServer, releaseInventory]
  rcases checkReservation_cases reservation items with ⟨status, hcheck⟩ | ⟨_, _, _, hcheck⟩
  · rw [hcheck]
    exact ⟨s.db, s.clock, rfl, fun _ => rfl⟩
  · rw [hcheck]
    obtain ⟨db', c, hbatch, hsame⟩ := releaseBatch_keeps reservation items s
    have hrelease : ((inventoryService MysqlInventory.repository).releaseBatch reservation
        items).run s = ((), { s with db := db', clock := c }) := hbatch
    obtain ⟨r, c', hread, _⟩ := appendCurrentItems_spec items { s with db := db', clock := c }
    simp only [Prog.run_bind, hrelease, hread]
    exact ⟨db', c', rfl, hsame⟩

/-- A remote release under an id without a reservation changes no table. -/
theorem grpcRelease_absent (reservation : String) (items : List InventoryMutation) (s : MySql)
    (habsent : s.db.reservations reservation = none) :
    ∃ c, (grpcRelease (inventoryServer MysqlInventory.repository) reservation items).run s =
      ((), { s with clock := c }) := by
  simp only [grpcRelease, inventoryServer, releaseInventory]
  rcases checkReservation_cases reservation items with ⟨status, hcheck⟩ | ⟨_, _, _, hcheck⟩
  · rw [hcheck]
    exact ⟨s.clock, rfl⟩
  · rw [hcheck]
    obtain ⟨c, hbatch⟩ := releaseBatch_absent reservation items s habsent
    have hrelease : ((inventoryService MysqlInventory.repository).releaseBatch reservation
        items).run s = ((), { s with clock := c }) := hbatch
    obtain ⟨r, c', hread, _⟩ := appendCurrentItems_spec items { s with clock := c }
    simp only [Prog.run_bind, hrelease, hread]
    exact ⟨c', rfl⟩

/-- A remote release of a reservation gives back the recorded rows. -/
theorem grpcRelease_recorded (reservation : String) (items : List InventoryMutation) (s : MySql)
    (hreliable : s.Reliable) (hne : items ≠ []) (hid : reservation.isEmpty = false)
    (hstatus : s.db.reservations reservation = some "reserved")
    (hrecorded : s.db.reservationItems.filter (fun row => row.reservationId = reservation) =
      items.map (itemRow reservation))
    (hpos : Positive items)
    (hrows : ∀ item ∈ items, (s.db.inventory item.bookId.toInt).isSome)
    (hroom : ∀ book, s.db.available book + requestedAt book items ≤ unsignedMax) :
    ∃ db' c, (grpcRelease (inventoryServer MysqlInventory.repository) reservation items).run s =
        ((), { s with
          db := (updateReservationStatus reservation "released").effect db', clock := c }) ∧
      Returned items s.db db' := by
  have hcheck : checkReservation ⟨reservation, items.map toMessage⟩ = .ok items := by
    simp [checkReservation, hne, hid, collect_toMessage items hpos]
  obtain ⟨db', c, hbatch, hreturned⟩ := releaseBatch_recorded reservation items items s hreliable
    hid hstatus hrecorded hpos hrows hroom
  have hrelease : ((inventoryService MysqlInventory.repository).releaseBatch reservation
      items).run s = _ := hbatch
  obtain ⟨r, c', hread, _⟩ := appendCurrentItems_spec items
    { s with db := (updateReservationStatus reservation "released").effect db', clock := c }
  refine ⟨db', c', ?_, hreturned⟩
  simp only [grpcRelease, inventoryServer, releaseInventory, hcheck, Prog.run_bind, hrelease,
    hread, Prog.run_pure]

end Bookstore.InventoryRpc
