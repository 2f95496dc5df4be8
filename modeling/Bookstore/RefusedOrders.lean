import Bookstore.BatchFaults
import Bookstore.SplitService

/-!
An order refused in split-service mode, when one statement of the call fails.
The batch reservation has committed when ReserveInventory reads the stock back;
a failure of such a SELECT is reported as a refused reservation, and
OrderService gives nothing back.
-/
namespace Bookstore.RefusedOrders

open BatchFaults Database Faults Interleaving InventoryRpc MysqlInventory MysqlOrders Records
open Repositories Services SplitService Transactions Transactions.Session

variable (catalogue : Catalogue)

/-- The store before a call in which the given statement fails, counted from 0. -/
def withFailure (s : SplitStore) (point : Option ℕ) : SplitStore :=
  { s with mysql := s.mysql.failing point }

/-- The reservation id that the next call for a user draws. -/
def nextId (userId : Int32) (s : SplitStore) : String :=
  OrderService.reservationId userId s.nextReservation

/-- What the schema guarantees: an unsigned column, and a foreign key. -/
structure Schema (db : Db) : Prop where
  unsigned : ∀ book value, db.inventory book = some value → IsUnsigned value
  known : ∀ row ∈ db.reservationItems, (db.reservations row.reservationId).isSome

/-- How many SQL statements fail in a call, those rejected by the tables among them. -/
noncomputable def failedStatements (userId : Int32) (requests : List OrderItemRequest)
    (s : SplitStore) : ℕ :=
  failures SplitStore.mysqlLens ((orderService catalogue).createOrder userId requests) s

/-- The request gets as far as its reservation, and the tables cover it. -/
def Carried (userId : Int32) (requests : List OrderItemRequest) (s : SplitStore) : Prop :=
  (orderService catalogue).Priceable userId requests s ∧
    Bookable (nextId userId s) (requests.map OrderItemRequest.toMutation) s.mysql.db

/-- The failing statement is one of the SELECTs of append_current_item behind
the COMMIT: START, SELECT, INSERT, two statements an item and COMMIT come first. -/
def ReadsBack (requests : List OrderItemRequest) (point : Option ℕ) : Prop :=
  ∃ k, point = some k ∧ 4 + 2 * requests.length ≤ k ∧ k < 4 + 3 * requests.length

theorem clear_of_new {db : Db} (h : Schema db) {reservation : String}
    (hnew : db.reservations reservation = none) (row : ReservationItem)
    (hrow : row ∈ db.reservationItems) : row.reservationId ≠ reservation := by
  intro heq
  have hknown := h.known row hrow
  rw [heq, hnew] at hknown
  cases hknown

theorem undisturbed_failing (s : MySql) (point : Option ℕ) (start stop : ℕ)
    (h : ∀ k, point = some k → start ≤ k → stop ≤ k) (t : MySql)
    (hfaults : t.faults = (s.failing point).faults) (hclock : t.clock = s.clock + start) :
    Undisturbed t (s.clock + stop) := by
  intro n hlow hhigh
  obtain ⟨j, rfl⟩ := Nat.exists_eq_add_of_le (show s.clock ≤ n by omega)
  rw [hfaults, Server.failing_faults, decide_eq_false_iff_not]
  intro hpoint
  have hlate := h j hpoint (by omega)
  omega

/-! ## The reservation -/

/-- A checked request reserves, and then reads every item back. -/
theorem run_grpcReserve_checked {reservation : String} {items : List InventoryMutation}
    (hcheck : checkReservation ⟨reservation, items.map toMessage⟩ = .ok items) (s : MySql) :
    (grpcReserve (inventoryServer MysqlInventory.repository) reservation items).run s =
      (let booked := (MysqlInventory.reserveBatch reservation items).run s
      let read := (appendCurrentItems MysqlInventory.repository (items.map toMessage)).run booked.2
      if booked.1 = true then
        match read.1 with
        | .ok _ => (true, read.2)
        | .error _ => (false, read.2)
      else (false, booked.2)) := by
  have hservice : (inventoryService MysqlInventory.repository).reserveBatch reservation items =
    MysqlInventory.reserveBatch reservation items := rfl
  simp only [grpcReserve, inventoryServer, reserveInventory, hcheck, Prog.run_bind, hservice]
  by_cases hbooked : ((MysqlInventory.reserveBatch reservation items).run s).1 = true
  · simp only [hbooked, if_true]
    cases hread : ((appendCurrentItems MysqlInventory.repository (items.map toMessage)).run
      ((MysqlInventory.reserveBatch reservation items).run s).2).1 with
    | ok _ => rfl
    | error _ => rfl
  · simp only [hbooked]
    rfl

theorem checkReservation_bookable {reservation : String} {items : List InventoryMutation} {db : Db}
    (h : Bookable reservation items db) :
    checkReservation ⟨reservation, items.map toMessage⟩ = .ok items := by
  simp [checkReservation, h.nonempty, h.named, collect_toMessage items h.positive]

theorem grpcRelease_steady (reservation : String) (items : List InventoryMutation) :
    Steady (grpcRelease (inventoryServer MysqlInventory.repository) reservation items) := by
  have hrelease : Steady (releaseInventory MysqlInventory.repository
      ⟨reservation, items.map toMessage⟩) := by
    unfold releaseInventory
    split
    · exact .pure _
    · rename_i checked _
      exact .bind (releaseBatch_steady reservation checked) fun _ => appendCurrentItems_steady _
  exact .bind hrelease fun _ => .pure _

/-- A coverable reservation is booked while nothing fails up to its COMMIT. -/
theorem reserveBatch_bookable {reservation : String} {items : List InventoryMutation} {s : MySql}
    (hnew : s.db.reservations reservation = none)
    (hclear : ∀ row ∈ s.db.reservationItems, row.reservationId ≠ reservation)
    (hbookable : Bookable reservation items s.db)
    (hquiet : Undisturbed s (s.clock + (4 + 2 * items.length))) :
    ∃ db', (MysqlInventory.reserveBatch reservation items).run s =
        (true, { s with db := db', clock := s.clock + (4 + 2 * items.length) }) ∧
      Reserved reservation items s.db db' := by
  obtain ⟨hnamed, hne, hpos, hinsert, hrows⟩ :=
    (bookable_iff reservation items s.db hnew hclear).mp hbookable
  have htrue := reserveBatch_reliable (reliable_reliable s) hnew hnamed hne hpos hinsert hrows
  obtain ⟨_, _, _, _, _, hclock, _⟩ := reserveBatch_booked
    (show (reliable s).db.reservations reservation = none from hnew) htrue
  have hwindow : Undisturbed s
      ((MysqlInventory.reserveBatch reservation items).run (reliable s)).2.clock := by
    rw [hclock, reliable_clock, Nat.add_assoc]
    exact hquiet
  have hrun := (reserveBatch_steady reservation items).run_eq hwindow
  obtain ⟨ok, db', c, hspec, hcases⟩ := reserveBatch_spec reservation items s
  rw [htrue] at hrun
  rw [hrun] at hspec
  have hok : ok = true := (congrArg Prod.fst hspec).symm
  have hc : c = s.clock + (4 + 2 * items.length) := by
    have hsame := congrArg (fun r => r.2.clock) hspec
    dsimp only at hsame
    rw [← hsame, hclock, reliable_clock, Nat.add_assoc]
  refine ⟨db', ?_, ?_⟩
  · rw [hrun, hspec, hok, hc]
  · rcases hcases with ⟨_, hstatus⟩ | ⟨_, _, _, hreserved⟩
    · have hreserved := (hstatus hok).2
      rw [hnew] at hreserved
      cases hreserved
    · exact hreserved

/-! ## One call -/

/-- Up to the COMMIT of the reservation nothing fails. -/
theorem book_before_failure {userId : Int32} {requests : List OrderItemRequest} {s : SplitStore}
    {point : Option ℕ} (hschema : Schema s.mysql.db)
    (hnew : s.mysql.db.reservations (nextId userId s) = none)
    (hbookable : Bookable (nextId userId s) (requests.map OrderItemRequest.toMutation) s.mysql.db)
    (hpoint : ∀ k, point = some k → 4 + 2 * requests.length ≤ k) :
    ∃ db', (MysqlInventory.reserveBatch (nextId userId s)
        (requests.map OrderItemRequest.toMutation)).run (s.mysql.failing point) =
        (true, { s.mysql.failing point with
          db := db', clock := s.mysql.clock + (4 + 2 * requests.length) }) ∧
      Reserved (nextId userId s) (requests.map OrderItemRequest.toMutation) s.mysql.db db' := by
  have hnew' : (s.mysql.failing point).db.reservations (nextId userId s) = none := hnew
  have hquiet := undisturbed_failing s.mysql point 0 (4 + 2 * requests.length)
    (fun k hk _ => hpoint k hk) (s.mysql.failing point) rfl rfl
  rw [← List.length_map OrderItemRequest.toMutation] at hquiet
  have hbatch := reserveBatch_bookable hnew' (clear_of_new hschema hnew) hbookable hquiet
  rw [List.length_map] at hbatch
  exact hbatch

/-- A request that can be priced reaches place_order, whose statements run on
the server with the failing one. -/
theorem createOrder_withFailure {userId : Int32} {requests : List OrderItemRequest}
    {s : SplitStore} (point : Option ℕ)
    (hprice : (orderService catalogue).Priceable userId requests s) :
    ∃ items total, (((orderService catalogue).priceItems [] 0 requests).run
        (withFailure s point)).1 = some (items, total) ∧
      SplitService.createOrder catalogue userId requests (withFailure s point) =
        (let server := inventoryServer MysqlInventory.repository
        let mutations := requests.map OrderItemRequest.toMutation
        let reserved := (grpcReserve server (nextId userId s) mutations).run
          (s.mysql.failing point)
        let stored := (MysqlOrders.createOrder userId items total).run reserved.2
        if reserved.1 = true then
          match stored.1 with
          | some order => (some order, ⟨stored.2, s.nextReservation + 1, s.nextGateway⟩)
          | none => (none, ⟨((grpcRelease server (nextId userId s) mutations).run stored.2).2,
              s.nextReservation + 1, s.nextGateway⟩)
        else (none, ⟨reserved.2, s.nextReservation + 1, s.nextGateway⟩)) := by
  have hprice' : (orderService catalogue).Priceable userId requests (withFailure s point) := hprice
  obtain ⟨items, total, hpriced, hrun⟩ := (orderService catalogue).createOrder_placed
    (orderService_readOnly catalogue) hprice'
  exact ⟨items, total, hpriced, hrun.trans
    (run_placeOrder catalogue userId requests items total (withFailure s point))⟩

/-- The reservation is carried out and a SELECT behind it fails: the request is
refused, and what was booked is gone. -/
theorem refused_after_booking {userId : Int32} {requests : List OrderItemRequest} {s : SplitStore}
    {point : Option ℕ} (hschema : Schema s.mysql.db)
    (hnew : s.mysql.db.reservations (nextId userId s) = none)
    (hcarried : Carried catalogue userId requests s) (hpoint : ReadsBack requests point) :
    let r := createOrder catalogue userId requests (withFailure s point)
    r.1 = none ∧ ∃ book, r.2.mysql.db.available book ≠ s.mysql.db.available book := by
  obtain ⟨hprice, hbookable⟩ := hcarried
  obtain ⟨k, rfl, hlow, hhigh⟩ := hpoint
  obtain ⟨items, total, _, hrun⟩ := createOrder_withFailure catalogue (some k) hprice
  have hlate : ∀ j, some k = some j → 4 + 2 * requests.length ≤ j := by
    intro j hj
    rw [← Option.some.inj hj]
    exact hlow
  obtain ⟨db', hbatch, hreserved⟩ := book_before_failure hschema hnew hbookable hlate
  obtain ⟨r, c, hread, _⟩ := appendCurrentItems_spec
    (requests.map OrderItemRequest.toMutation) { s.mysql.failing (some k) with
      db := db', clock := s.mysql.clock + (4 + 2 * requests.length) }
  have hreserve := run_grpcReserve_checked (checkReservation_bookable hbookable)
    (s.mysql.failing (some k))
  simp only [hbatch, hread, if_true] at hreserve
  have herror : ∃ status, r = .error status := by
    cases r with
    | error status => exact ⟨status, rfl⟩
    | ok currents =>
      obtain ⟨_, hquiet⟩ := appendCurrentItems_ok (congrArg Prod.fst hread)
      have hfault := s.mysql.failing_faults (some k) k
      rw [decide_eq_true rfl] at hfault
      have hnone := hquiet (s.mysql.clock + k) (by dsimp only; omega)
        (by simp only [List.length_map]; omega)
      rw [hfault] at hnone
      cases hnone
  obtain ⟨status, rfl⟩ := herror
  simp only [hreserve, Bool.false_eq_true, if_false] at hrun
  simp only [hrun, true_and]
  obtain ⟨request, hrequest⟩ := List.exists_mem_of_ne_nil _ hbookable.nonempty
  refine ⟨request.bookId.toInt, ?_⟩
  rw [hreserved.available]
  have hq := Tally.tally_pos_of_mem (fun item : InventoryMutation => item.bookId.toInt)
    (fun item => item.quantity.toInt) _ (fun item hitem => (hbookable.positive item hitem).2.le)
    hrequest (hbookable.positive request hrequest).2
  have hbefore : Db.available ((insertReservation (nextId userId s)).effect s.mysql.db)
    request.bookId.toInt = s.mysql.db.available request.bookId.toInt := rfl
  rw [hbefore]
  unfold requestedAt
  omega

/-- Everything is in stock and no SELECT fails: all items are read back. -/
theorem read_back {items : List InventoryMutation} {s : MySql} (hpos : Positive items)
    (hrows : ∀ item ∈ items, (s.db.inventory item.bookId.toInt).isSome)
    (hquiet : Undisturbed s (s.clock + items.length)) :
    ∃ currents, (appendCurrentItems MysqlInventory.repository (items.map toMessage)).run s =
      (.ok currents, { s with clock := s.clock + items.length }) := by
  obtain ⟨r, c, hread, hok⟩ := appendCurrentItems_spec items (reliable s)
  obtain ⟨currents, rfl⟩ := hok (reliable_reliable s) hpos hrows
  obtain ⟨hclock, _⟩ := appendCurrentItems_ok (congrArg Prod.fst hread)
  rw [hread, List.length_map] at hclock
  have hc : c = s.clock + items.length := hclock
  have hrun := @Steady.run_eq _ _ _ _ (appendCurrentItems_steady (items.map toMessage)) s (by
    rw [hread, hc]
    exact hquiet)
  refine ⟨currents, ?_⟩
  rw [hrun, hread, hc]
  rfl

/-- A statement that fails in a call whose batch is booked comes behind the COMMIT. -/
theorem late_of_booked {reservation : String} {items : List InventoryMutation} {s : MySql}
    {point : Option ℕ} (hnew : s.db.reservations reservation = none)
    (h : ((MysqlInventory.reserveBatch reservation items).run (s.failing point)).1 = true) {k : ℕ}
    (hk : point = some k) : 4 + 2 * items.length ≤ k := by
  obtain ⟨_, _, _, _, _, _, hquiet⟩ := reserveBatch_booked (s := s.failing point) hnew h
  by_contra hearly
  have hfault := s.failing_faults point k
  have hclock : (s.failing point).clock = s.clock := rfl
  rw [decide_eq_true hk] at hfault
  rw [hclock] at hquiet
  rw [hquiet (s.clock + k) (by omega) (by omega)] at hfault
  cases hfault

/-- The remote reservation is refused and changes no table, or everything in
it goes through. -/
theorem grpcReserve_outcome {userId : Int32} {requests : List OrderItemRequest} {s : SplitStore}
    {point : Option ℕ} (hschema : Schema s.mysql.db)
    (hnew : s.mysql.db.reservations (nextId userId s) = none)
    (hsafe : Bookable (nextId userId s) (requests.map OrderItemRequest.toMutation) s.mysql.db →
      ¬ ReadsBack requests point) :
    (∃ c, (grpcReserve (inventoryServer MysqlInventory.repository) (nextId userId s)
        (requests.map OrderItemRequest.toMutation)).run (s.mysql.failing point) =
        (false, { s.mysql.failing point with clock := c })) ∨
    ∃ db', (grpcReserve (inventoryServer MysqlInventory.repository) (nextId userId s)
        (requests.map OrderItemRequest.toMutation)).run (s.mysql.failing point) =
        (true, { s.mysql.failing point with
          db := db', clock := s.mysql.clock + (4 + 3 * requests.length) }) ∧
      Bookable (nextId userId s) (requests.map OrderItemRequest.toMutation) s.mysql.db ∧
      Reserved (nextId userId s) (requests.map OrderItemRequest.toMutation) s.mysql.db db' := by
  rcases checkReservation_cases (nextId userId s) (requests.map OrderItemRequest.toMutation) with
    ⟨status, hcheck⟩ | ⟨_, _, _, hcheck⟩
  · left
    refine ⟨s.mysql.clock, ?_⟩
    simp only [grpcReserve, inventoryServer, reserveInventory, hcheck]
    rfl
  · have hreserve := run_grpcReserve_checked hcheck (s.mysql.failing point)
    obtain ⟨ok, db', c, hbatch, hcases⟩ := reserveBatch_spec (nextId userId s)
      (requests.map OrderItemRequest.toMutation) (s.mysql.failing point)
    cases ok with
    | false =>
      rcases hcases with ⟨hsame, _⟩ | ⟨hok, _⟩
      · left
        refine ⟨c, ?_⟩
        simp only [hbatch, Bool.false_eq_true, if_false] at hreserve
        rw [hreserve, hsame]
      · cases hok
    | true =>
      right
      have hnew' : (s.mysql.failing point).db.reservations (nextId userId s) = none := hnew
      obtain ⟨hnamed, hne, hpos, hinsert, hrows, _⟩ := reserveBatch_booked hnew'
        (congrArg Prod.fst hbatch)
      have hbookable := (bookable_iff (nextId userId s)
        (requests.map OrderItemRequest.toMutation) s.mysql.db hnew (clear_of_new hschema hnew)).mpr
        ⟨hnamed, hne, hpos, hinsert, hrows⟩
      have hlate : ∀ k, point = some k → 4 + 2 * requests.length ≤ k := by
        intro k hk
        simpa using late_of_booked hnew (congrArg Prod.fst hbatch) hk
      have hlater : ∀ k, point = some k → 4 + 3 * requests.length ≤ k := by
        intro k hk
        by_contra hearly
        exact hsafe hbookable ⟨k, hk, hlate k hk, by omega⟩
      obtain ⟨db', hbooked, hreserved⟩ := book_before_failure hschema hnew hbookable hlate
      have hwindow := undisturbed_failing s.mysql point (4 + 2 * requests.length)
        (4 + 3 * requests.length) (fun k hk _ => hlater k hk)
        { s.mysql.failing point with
          db := db', clock := s.mysql.clock + (4 + 2 * requests.length) } rfl rfl
      have hend : s.mysql.clock + (4 + 3 * requests.length) =
          s.mysql.clock + (4 + 2 * requests.length) +
            (requests.map OrderItemRequest.toMutation).length := by
        rw [List.length_map]
        omega
      rw [hend] at hwindow
      obtain ⟨currents, hread⟩ := read_back hpos
        (fun item hitem => by rw [hreserved.rows]; exact hreserved.stocked item hitem) hwindow
      refine ⟨db', ?_, hbookable, hreserved⟩
      simp only [hbooked, hread, if_true] at hreserve
      rw [hreserve, hend]

theorem Schema.column {db : Db} (h : Schema db) (book : ℤ) : db.available book ≤ unsignedMax := by
  unfold Db.available
  cases hrow : db.inventory book with
  | none => decide
  | some value => exact (h.unsigned book value hrow).2

/-- A release none of whose statements fails undoes its reservation. -/
theorem release_restores {reservation : String} {items : List InventoryMutation} {db : Db}
    {t : MySql} (hnone : failures whole (grpcRelease (inventoryServer MysqlInventory.repository)
      reservation items) t = 0) (hbookable : Bookable reservation items db)
    (hclear : ∀ row ∈ db.reservationItems, row.reservationId ≠ reservation)
    (hcolumn : ∀ book, db.available book ≤ unsignedMax)
    (hreserved : Reserved reservation items db t.db) (book : ℤ) :
    ((grpcRelease (inventoryServer MysqlInventory.repository) reservation
      items).run t).2.db.available book = db.available book := by
  have hstatus : (reliable t).db.reservations reservation = some "reserved" := by
    rw [reliable_db, hreserved.reservations]
    simp [insertReservation]
  have hrecorded : (reliable t).db.reservationItems.filter
      (fun row => row.reservationId = reservation) = items.map (itemRow reservation) := by
    have hold : db.reservationItems.filter (fun row => row.reservationId = reservation) = [] := by
      rw [List.filter_eq_nil_iff]
      intro row hrow
      simpa using hclear row hrow
    have hnew : (items.map (itemRow reservation)).filter
        (fun row => row.reservationId = reservation) = items.map (itemRow reservation) := by
      rw [List.filter_eq_self]
      intro row hrow
      obtain ⟨item, _, rfl⟩ := List.mem_map.mp hrow
      simp [itemRow]
    have hrows : t.db.reservationItems = db.reservationItems ++ items.map (itemRow reservation) :=
      hreserved.recorded
    rw [reliable_db, hrows, List.filter_append, hold, hnew, List.nil_append]
  have htaken : ∀ b, t.db.available b = db.available b - requestedAt b items :=
    hreserved.available
  obtain ⟨db', c, hrelease, hreturned⟩ := grpcRelease_recorded reservation items (reliable t)
    (reliable_reliable t) hbookable.nonempty hbookable.named hstatus hrecorded hbookable.positive
    (fun item hitem => by
      rw [reliable_db, hreserved.rows]
      exact hreserved.stocked item hitem)
    (fun b => by
      have hroom := hcolumn b
      rw [reliable_db, htaken]
      omega)
  have hrun := (grpcRelease_steady reservation items).unfailed t hnone
  rw [hrelease] at hrun
  have htables : ((grpcRelease (inventoryServer MysqlInventory.repository) reservation
      items).run t).2.db = (updateReservationStatus reservation "released").effect db' :=
    (congrArg (fun r => r.2.db) hrun).symm
  have hback := hreturned.available book
  rw [reliable_db, htaken] at hback
  have hsame : Db.available ((updateReservationStatus reservation "released").effect db') book =
    db'.available book := rfl
  rw [htables, hsame, hback]
  omega

/-- Pricing runs no statement. -/
theorem priceItems_failures (requests : List OrderItemRequest) (items : List OrderItem)
    (total : Int32) (s : SplitStore) :
    failures SplitStore.mysqlLens ((orderService catalogue).priceItems items total requests) s =
      0 := by
  induction requests generalizing items total s with
  | nil => rfl
  | cons request rest ih =>
    unfold OrderService.priceItems
    split
    · rfl
    · have hfind : failures SplitStore.mysqlLens
        ((orderService catalogue).bookClient.findBook request.bookId) s = 0 :=
        failures_call _ _ s rfl
      rw [failures_bind, hfind, Nat.zero_add]
      split
      · rfl
      · exact ih _ _ _

/-- A failure of the remote reservation is one on the inventory server. -/
theorem reserveBatch_failures (reservation : String) (items : List InventoryMutation)
    (s : SplitStore) :
    failures SplitStore.mysqlLens (inventoryClient.reserveBatch reservation items) s =
      failures whole (grpcReserve (inventoryServer MysqlInventory.repository) reservation items)
        s.mysql := by
  simp only [inventoryClient, grpcInventoryClient, grpcReserve, InventoryStub.lift,
    failures_bind, failures_lift, Prog.run_lift, SplitStore.mysqlLens]
  congr 1
  generalize Prog.run _ s.mysql = response
  rcases response with ⟨answer, t⟩
  cases answer <;> rfl

theorem releaseBatch_failures (reservation : String) (items : List InventoryMutation)
    (s : SplitStore) :
    failures SplitStore.mysqlLens (inventoryClient.releaseBatch reservation items) s =
      failures whole (grpcRelease (inventoryServer MysqlInventory.repository) reservation items)
        s.mysql := by
  simp only [inventoryClient, grpcInventoryClient, grpcRelease, InventoryStub.lift,
    failures_bind, failures_pure, failures_lift, SplitStore.mysqlLens]

/-- A call that is priced fails only where the order is placed. -/
theorem failedStatements_placeOrder {userId : Int32} {requests : List OrderItemRequest}
    {s : SplitStore} (hprice : (orderService catalogue).Priceable userId requests s)
    {items : List OrderItem} {total : Int32}
    (hpriced : (((orderService catalogue).priceItems [] 0 requests).run s).1 =
      some (items, total)) :
    failedStatements catalogue userId requests s = failures SplitStore.mysqlLens
      ((orderService catalogue).placeOrder userId requests items total) s := by
  obtain ⟨huser, hne, _⟩ := hprice
  have hargs : ¬ (userId ≤ 0 ∨ requests = []) := by
    rw [not_or, Int32.le_iff_toInt_le, Int32.toInt_zero]
    exact ⟨by omega, hne⟩
  obtain ⟨hsame, _⟩ := (orderService catalogue).priceItems_spec (orderService_readOnly catalogue)
    requests [] 0 s
  simp only [failedStatements, OrderService.createOrder, if_neg hargs, failures_bind, hsame,
    hpriced, priceItems_failures, Nat.zero_add]

/-- The failures of a call, transaction by transaction. -/
theorem failedStatements_eq {userId : Int32} {requests : List OrderItemRequest} {s : SplitStore}
    (hprice : (orderService catalogue).Priceable userId requests s)
    {items : List OrderItem} {total : Int32}
    (hpriced : (((orderService catalogue).priceItems [] 0 requests).run s).1 =
      some (items, total)) :
    failedStatements catalogue userId requests s =
      (let server := inventoryServer MysqlInventory.repository
      let mutations := requests.map OrderItemRequest.toMutation
      let reserve := grpcReserve server (nextId userId s) mutations
      let store := MysqlOrders.createOrder userId items total
      let release := grpcRelease server (nextId userId s) mutations
      let reserved := reserve.run s.mysql
      let stored := store.run reserved.2
      failures whole reserve s.mysql +
        if reserved.1 = true then
          failures whole store reserved.2 +
            match stored.1 with
            | some _ => 0
            | none => failures whole release stored.2
        else 0) := by
  have hdraw : failures SplitStore.mysqlLens
    ((orderService catalogue).nextReservationId userId) s = 0 := failures_call _ _ s rfl
  have hid : ((orderService catalogue).nextReservationId userId).run s =
    (nextId userId s, { s with nextReservation := s.nextReservation + 1 }) := rfl
  have hrun := run_grpcReserve (nextId userId s) (requests.map OrderItemRequest.toMutation)
    { s with nextReservation := s.nextReservation + 1 }
  have hclient : (orderService catalogue).inventoryClient = inventoryClient := rfl
  have hstore : (orderService catalogue).orderRepository.createOrder userId items total =
    (MysqlOrders.createOrder userId items total).lift SplitStore.mysqlLens := rfl
  rw [failedStatements_placeOrder catalogue hprice hpriced]
  simp only [OrderService.placeOrder, failures_bind, hdraw, hid, hclient, reserveBatch_failures,
    hrun, Nat.zero_add]
  congr 1
  split
  · have hget : ∀ s', SplitStore.mysqlLens.get s' = s'.mysql := fun _ => rfl
    simp only [hstore, failures_bind, failures_lift, Prog.run_lift, hget]
    congr 1
    rcases hstored : (MysqlOrders.createOrder userId items total).run
      ((grpcReserve (inventoryServer MysqlInventory.repository) (nextId userId s)
        (requests.map OrderItemRequest.toMutation)).run s.mysql).2 with ⟨r, t⟩
    cases r with
    | some order => rfl
    | none =>
      simp only [failures_bind, failures_pure, releaseBatch_failures, Nat.add_zero]
      rfl
  · rfl

/-- A remote reservation whose transaction went through has one failed SELECT at most. -/
theorem grpcReserve_failures_le {reservation : String} {items : List InventoryMutation}
    {s : MySql} (hnew : s.db.reservations reservation = none)
    (hbooked : ((MysqlInventory.reserveBatch reservation items).run s).1 = true) :
    failures whole (grpcReserve (inventoryServer MysqlInventory.repository) reservation items) s ≤
      1 := by
  have hservice : (inventoryService MysqlInventory.repository).reserveBatch reservation items =
    MysqlInventory.reserveBatch reservation items := rfl
  rcases checkReservation_cases reservation items with ⟨status, hcheck⟩ | ⟨_, _, _, hcheck⟩
  · simp only [grpcReserve, inventoryServer, reserveInventory, hcheck, failures_bind,
      failures_pure, Prog.run_pure]
    exact Nat.zero_le 1
  · have hread := appendCurrentItems_failures_le (items.map toMessage)
      ((MysqlInventory.reserveBatch reservation items).run s).2
    simp only [grpcReserve, inventoryServer, reserveInventory, hcheck, failures_bind, hservice,
      reserveBatch_passed hnew hbooked, hbooked, if_true, Nat.zero_add]
    split <;> simpa using hread

theorem failedStatements_refused {userId : Int32} {requests : List OrderItemRequest}
    {s : SplitStore} (hprice : (orderService catalogue).Priceable userId requests s)
    (hrefused : ((grpcReserve (inventoryServer MysqlInventory.repository) (nextId userId s)
      (requests.map OrderItemRequest.toMutation)).run s.mysql).1 = false) :
    failedStatements catalogue userId requests s =
      failures whole (grpcReserve (inventoryServer MysqlInventory.repository) (nextId userId s)
        (requests.map OrderItemRequest.toMutation)) s.mysql := by
  obtain ⟨items, total, hpriced, _⟩ := (orderService catalogue).createOrder_placed
    (orderService_readOnly catalogue) hprice
  have hcount := failedStatements_eq catalogue hprice hpriced
  simpa only [hrefused, Bool.false_eq_true, if_false, Nat.add_zero] using hcount

/-- A refusal behind a complete reservation gives everything back. -/
theorem refused_after_reserving {userId : Int32} {requests : List OrderItemRequest}
    {s : SplitStore} {point : Option ℕ} (hschema : Schema s.mysql.db)
    (hnew : s.mysql.db.reservations (nextId userId s) = none)
    (hsingle : failedStatements catalogue userId requests (withFailure s point) ≤ 1)
    (hprice : (orderService catalogue).Priceable userId requests s) {db : Db}
    (hbooked : (grpcReserve (inventoryServer MysqlInventory.repository) (nextId userId s)
      (requests.map OrderItemRequest.toMutation)).run (s.mysql.failing point) =
        (true, { s.mysql.failing point with
          db := db, clock := s.mysql.clock + (4 + 3 * requests.length) }))
    (hbookable : Bookable (nextId userId s) (requests.map OrderItemRequest.toMutation) s.mysql.db)
    (hreserved : Reserved (nextId userId s) (requests.map OrderItemRequest.toMutation)
      s.mysql.db db)
    (hnone : (SplitService.createOrder catalogue userId requests (withFailure s point)).1 = none)
    (book : ℤ) :
    (SplitService.createOrder catalogue userId requests
      (withFailure s point)).2.mysql.db.available book = s.mysql.db.available book := by
  obtain ⟨items, total, hpriced, hrun⟩ := createOrder_withFailure catalogue point hprice
  simp only [hbooked, if_true] at hrun
  obtain ⟨r, db', c, nextKey, hstore, _, hstored⟩ := createOrder_spec userId items total
    { s.mysql.failing point with
      db := db, clock := s.mysql.clock + (4 + 3 * requests.length) }
  rcases hstored with ⟨rfl, hdb⟩ | ⟨rfl, _⟩
  · have hcount := failedStatements_eq catalogue (s := withFailure s point) hprice hpriced
    have hid : nextId userId (withFailure s point) = nextId userId s := rfl
    have hserver : (withFailure s point).mysql = s.mysql.failing point := rfl
    simp only [hid, hserver, hbooked, if_true, hstore] at hcount
    have huser : 0 < userId := by
      rw [Int32.lt_iff_toInt_lt, Int32.toInt_zero]
      exact hprice.1
    have hitems : items ≠ [] := by
      obtain ⟨_, hresult⟩ := (orderService catalogue).priceItems_spec
        (orderService_readOnly catalogue) requests [] 0 (withFailure s point)
      obtain ⟨_, new, rfl, hnew⟩ := hresult items total hpriced
      exact hnew.nonempty hprice.2.1
    have hrejected : failures whole (MysqlOrders.createOrder userId items total)
        { s.mysql.failing point with
          db := db, clock := s.mysql.clock + (4 + 3 * requests.length) } ≠ 0 := by
      intro hzero
      exact createOrder_unfailed huser hitems hzero (congrArg Prod.fst hstore)
    rw [hrun, hstore]
    dsimp only at hdb
    subst hdb
    refine release_restores ?_ hbookable (clear_of_new hschema hnew) hschema.column
      hreserved book
    dsimp only at hrejected ⊢
    omega
  · rw [hrun, hstore] at hnone
    cases hnone

/-- Where at most one statement of a call fails, a refused order costs no stock, exactly
when the failure is not a SELECT behind the COMMIT of its reservation. -/
theorem refused_order_costs_nothing_iff (userId : Int32) (requests : List OrderItemRequest)
    (s : SplitStore) (point : Option ℕ) (hschema : Schema s.mysql.db)
    (hnew : s.mysql.db.reservations (nextId userId s) = none)
    (hsingle : failedStatements catalogue userId requests (withFailure s point) ≤ 1) :
    ((SplitService.createOrder catalogue userId requests (withFailure s point)).1 = none →
      ∀ book, (SplitService.createOrder catalogue userId requests
        (withFailure s point)).2.mysql.db.available book = s.mysql.db.available book) ↔
    ¬ (Carried catalogue userId requests s ∧ ReadsBack requests point) := by
  constructor
  · intro hkept ⟨hcarried, hpoint⟩
    obtain ⟨hnone, book, hlost⟩ := refused_after_booking catalogue hschema hnew hcarried hpoint
    exact hlost (hkept hnone book)
  · intro hsafe hnone book
    by_cases hprice : (orderService catalogue).Priceable userId requests s
    · rcases grpcReserve_outcome hschema hnew (fun hbookable hpoint =>
        hsafe ⟨⟨hprice, hbookable⟩, hpoint⟩) with
        ⟨c, hrefused⟩ | ⟨db, hbooked, hbookable, hreserved⟩
      · obtain ⟨items, total, _, hrun⟩ := createOrder_withFailure catalogue point hprice
        simp only [hrefused, Bool.false_eq_true, if_false] at hrun
        rw [hrun]
        rfl
      · exact refused_after_reserving catalogue hschema hnew hsingle hprice hbooked hbookable
          hreserved hnone book
    · have hrefused : ¬ (orderService catalogue).Priceable userId requests (withFailure s point) :=
        hprice
      rw [SplitService.createOrder,
        (orderService catalogue).createOrder_refused (orderService_readOnly catalogue) hrefused]
      rfl

/-! ## Stock lost to a failed SELECT -/

theorem schema_smallShop : Schema smallShop.mysql.db where
  unsigned := by
    intro book value hrow
    simp only [smallShop, Option.ite_none_right_eq_some, Option.some.injEq] at hrow
    rw [← hrow.2]
    decide
  known := by simp [smallShop]

theorem priceable_smallShop {userId : Int32} (huser : 0 < userId.toInt) (point : Option ℕ) :
    (orderService smallCatalogue).Priceable userId [⟨1, 2⟩] (withFailure smallShop point) := by
  refine ⟨huser, by simp, ?_⟩
  intro request hrequest
  rw [List.mem_singleton] at hrequest
  subst hrequest
  exact ⟨by decide, rfl⟩

/-- The order of a user that is not there, whose reservation does not even start. -/
theorem refused_order_costs_nothing_unknownUser :
    (SplitService.createOrder smallCatalogue 2 [⟨1, 2⟩] (withFailure smallShop (some 0))).1 =
        none ∧
      (SplitService.createOrder smallCatalogue 2 [⟨1, 2⟩]
        (withFailure smallShop (some 0))).2.mysql.db.available 1 = 5 := by
  have hnone : (SplitService.createOrder smallCatalogue 2 [⟨1, 2⟩]
    (withFailure smallShop (some 0))).1 = none := by decide +kernel
  have hsingle : failedStatements smallCatalogue 2 [⟨1, 2⟩]
      (withFailure smallShop (some 0)) ≤ 1 := by
    rw [failedStatements_refused smallCatalogue (priceable_smallShop (by decide) (some 0))
      (by decide +kernel)]
    exact failures_act_le rfl
  refine ⟨hnone, ?_⟩
  refine (refused_order_costs_nothing_iff smallCatalogue 2 [⟨1, 2⟩] smallShop (some 0)
    schema_smallShop (by decide +kernel) hsingle).mpr ?_ hnone 1
  rintro ⟨_, k, hpoint, hlow, _⟩
  cases hpoint
  simp at hlow

/-- The SELECT that reads the stock back after the COMMIT fails, and no other
statement of the call: the order is refused and three of five copies are left. -/
theorem refused_order_loses_stock :
    let s := withFailure smallShop (some 6)
    let r := SplitService.createOrder smallCatalogue 1 [⟨1, 2⟩] s
    smallShop.mysql.db.reservations (nextId 1 smallShop) = none ∧
      failedStatements smallCatalogue 1 [⟨1, 2⟩] s ≤ 1 ∧ r.1 = none ∧
      smallShop.mysql.db.available 1 = 5 ∧ r.2.mysql.db.available 1 = 3 := by
  refine ⟨by decide +kernel, ?_, by decide +kernel, by decide +kernel, by decide +kernel⟩
  rw [failedStatements_refused smallCatalogue (priceable_smallShop (by decide) (some 6))
    (by decide +kernel)]
  exact grpcReserve_failures_le (by decide +kernel) (by decide +kernel)

end Bookstore.RefusedOrders
