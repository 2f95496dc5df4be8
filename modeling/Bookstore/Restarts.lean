import Bookstore.SplitService

/-!
Order services that restart. The serial number of a reservation id is counted
from 1 again after a restart, while the reservation table keeps the ids of the
earlier processes. An id that is still reserved is answered with true without
taking any stock, and the order is stored all the same.
-/
namespace Bookstore.Restarts

open Database InventoryRpc MysqlInventory MysqlOrders Records Services SplitService Transactions

inductive Event
  | create (userId : Int32) (requests : List OrderItemRequest)
  | restart

/-- A create_order call that returned an order, with the stores around it. -/
structure Accepted where
  before : SplitStore
  userId : Int32
  order : Order
  after : SplitStore

/-- The reservation id the call drew. -/
def Accepted.reservation (call : Accepted) : String :=
  OrderService.reservationId call.userId call.before.nextReservation

/-- The call took exactly the copies of its order from the stock. -/
def Accepted.Took (call : Accepted) : Prop :=
  ∀ book, available call.after book = available call.before book - quantityOf book call.order.items

/-- Before the call its reservation id was held by an earlier order. -/
def Accepted.Reused (call : Accepted) : Prop :=
  call.before.mysql.db.reservations call.reservation = some "reserved"

variable (catalogue : Catalogue)

/-- The accepted calls of a run, in order. -/
def accepted (s : SplitStore) : List Event → List Accepted
  | [] => []
  | .restart :: rest => accepted (restart s) rest
  | .create userId requests :: rest =>
    match createOrder catalogue userId requests s with
    | (some order, s') => ⟨s, userId, order, s'⟩ :: accepted s' rest
    | (none, s') => accepted s' rest

/-- Reservation rows are never deleted. -/
def Remembers (s s' : SplitStore) : Prop :=
  ∀ id, (s.mysql.db.reservations id).isSome → (s'.mysql.db.reservations id).isSome

theorem remembers_placeOrder (userId : Int32) (requests : List OrderItemRequest)
    (items : List OrderItem) (total : Int32) (s : SplitStore) :
    Remembers s (((orderService catalogue).placeOrder userId requests items total).run s).2 := by
  intro id hid
  obtain ⟨ok, db, c, hreserve, hcases⟩ := grpcReserve_spec
    (OrderService.reservationId userId s.nextReservation)
    (requests.map OrderItemRequest.toMutation) s.mysql
  have hdb : (db.reservations id).isSome := by
    rcases hcases with ⟨hsame, _⟩ | ⟨_, _, _, hreserved, _⟩
    · rw [hsame]
      exact hid
    · rw [hreserved.reservations]
      simp only [insertReservation, Function.update_apply]
      split
      · rfl
      · exact hid
  rw [run_placeOrder]
  simp only [hreserve]
  split
  · obtain ⟨r, db', c', nextKey, hstore, _, hstored⟩ := createOrder_spec userId items total
      { s.mysql with db := db, clock := c }
    have hdb' : (db'.reservations id).isSome := by
      rcases hstored with ⟨_, hsame⟩ | ⟨_, _, hdone⟩
      · rw [hsame]
        exact hdb
      · rw [hdone.stock.reservations]
        exact hdb
    rw [hstore]
    cases r with
    | some order => exact hdb'
    | none =>
      obtain ⟨db'', c'', hrelease, hkeeps⟩ := grpcRelease_keeps
        (OrderService.reservationId userId s.nextReservation)
        (requests.map OrderItemRequest.toMutation)
        { s.mysql with db := db', clock := c', nextKey := nextKey }
      simp only [hrelease]
      rw [hkeeps id]
      exact hdb'
  · exact hdb

theorem remembers_createOrder (userId : Int32) (requests : List OrderItemRequest)
    (s : SplitStore) : Remembers s (createOrder catalogue userId requests s).2 := by
  unfold SplitService.createOrder
  rcases (orderService catalogue).createOrder_cases (orderService_readOnly catalogue) userId
    requests s with hnone | ⟨items, total, _, _, _, _, _, hrun⟩
  · rw [hnone]
    exact fun _ h => h
  · rw [hrun]
    exact remembers_placeOrder catalogue userId requests items total s

/-- An accepted call takes its stock exactly when its id was not reused. -/
theorem took_iff_not_reused (userId : Int32) (requests : List OrderItemRequest)
    (s s' : SplitStore) (order : Order)
    (h : createOrder catalogue userId requests s = (some order, s')) :
    Accepted.Took ⟨s, userId, order, s'⟩ ↔ ¬ Accepted.Reused ⟨s, userId, order, s'⟩ := by
  obtain ⟨⟨book, hpos⟩, hcases⟩ := createOrder_accepted catalogue userId requests s s' order h
  constructor
  · intro htook hreused
    rcases hcases with ⟨_, hsame⟩ | ⟨hnone, _, _⟩
    · have hbook := htook book
      simp only [hsame book] at hbook
      omega
    · have hrow : s.mysql.db.reservations
          (OrderService.reservationId userId s.nextReservation) = some "reserved" := hreused
      rw [hnone] at hrow
      cases hrow
  · intro hfresh
    rcases hcases with ⟨hstatus, _⟩ | ⟨_, _, htook⟩
    · exact absurd hstatus hfresh
    · exact htook

/-- Ids on record are not drawn again by calls that meet no reused id. -/
theorem not_recorded_of_accepted (events : List Event) (s : SplitStore)
    (hfresh : ∀ call ∈ accepted catalogue s events, ¬ call.Reused) (call : Accepted)
    (hcall : call ∈ accepted catalogue s events) :
    s.mysql.db.reservations call.reservation = none := by
  induction events generalizing s with
  | nil => simp [accepted] at hcall
  | cons event rest ih =>
    cases event with
    | restart => exact ih (restart s) hfresh hcall
    | create userId requests =>
      have hkeeps := remembers_createOrder catalogue userId requests s
      have hlater : ∀ s', (createOrder catalogue userId requests s).2 = s' →
          s'.mysql.db.reservations call.reservation = none →
          s.mysql.db.reservations call.reservation = none := by
        intro s' hs' hnone
        by_contra hsome
        have h := hkeeps call.reservation (Option.isSome_iff_ne_none.mpr hsome)
        rw [hs', hnone] at h
        cases h
      unfold accepted at hfresh hcall
      cases hresult : createOrder catalogue userId requests s with
      | mk r s' =>
        rw [hresult] at hfresh hcall
        have hs' : (createOrder catalogue userId requests s).2 = s' := by rw [hresult]
        cases r with
        | none => exact hlater s' hs' (ih s' hfresh hcall)
        | some order =>
          rcases List.mem_cons.mp hcall with rfl | hmem
          · obtain ⟨_, ⟨hstatus, _⟩ | ⟨hnone, _, _⟩⟩ :=
              createOrder_accepted catalogue userId requests s s' order hresult
            · exact absurd hstatus (hfresh ⟨s, userId, order, s'⟩ (by simp))
            · exact hnone
          · exact hlater s' hs' (ih s' (fun c hc => hfresh c (by simp [hc])) hmem)

/-- Along any run of calls and restarts: the accepted calls all take their
stock, and no two of them share a reservation id, exactly when none of them
draws an id that is still reserved from an earlier process. -/
theorem all_took_iff_none_reused (s : SplitStore) (events : List Event) :
    ((∀ call ∈ accepted catalogue s events, call.Took) ∧
      (accepted catalogue s events).Pairwise fun a b => a.reservation ≠ b.reservation) ↔
    ∀ call ∈ accepted catalogue s events, ¬ call.Reused := by
  induction events generalizing s with
  | nil => simp [accepted]
  | cons event rest ih =>
    cases event with
    | restart => exact ih (restart s)
    | create userId requests =>
      unfold accepted
      cases hresult : createOrder catalogue userId requests s with
      | mk r s' =>
        cases r with
        | none => exact ih s'
        | some order =>
          have hcall := took_iff_not_reused catalogue userId requests s s' order hresult
          simp only [List.forall_mem_cons, List.pairwise_cons, hcall]
          constructor
          · rintro ⟨⟨hfirst, htook⟩, _, hpairs⟩
            exact ⟨hfirst, (ih s').mp ⟨htook, hpairs⟩⟩
          · rintro ⟨hfirst, hfresh⟩
            obtain ⟨htook, hpairs⟩ := (ih s').mpr hfresh
            refine ⟨⟨hfirst, htook⟩, ?_, hpairs⟩
            intro call hmem hshared
            obtain ⟨_, ⟨hstatus, _⟩ | ⟨_, hrow, _⟩⟩ :=
              createOrder_accepted catalogue userId requests s s' order hresult
            · exact absurd hstatus hfirst
            · have hnone := not_recorded_of_accepted catalogue rest s' hfresh call hmem
              rw [← hshared] at hnone
              rw [show s'.mysql.db.reservations (OrderService.reservationId userId
                s.nextReservation) = none from hnone] at hrow
              cases hrow

/-- One copy ordered before a restart and one after it: both orders draw the
same id, and the second takes no stock. -/
theorem restart_reuses_reservation :
    let events : List Event := [.create 1 [⟨1, 1⟩], .restart, .create 1 [⟨1, 1⟩]]
    ¬ ((∀ call ∈ accepted smallCatalogue smallShop events, call.Took) ∧
      (accepted smallCatalogue smallShop events).Pairwise fun a b =>
        a.reservation ≠ b.reservation) := by
  rintro events ⟨htook, _⟩
  have hbook : ∀ call ∈ accepted smallCatalogue smallShop events,
      available call.after 1 = available call.before 1 - quantityOf 1 call.order.items :=
    fun call hcall => htook call hcall 1
  revert hbook
  decide +kernel

end Bookstore.Restarts
