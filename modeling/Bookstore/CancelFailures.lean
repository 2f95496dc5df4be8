import Bookstore.MysqlService

/-!
Cancellation when a statement of MysqlOrderRepository fails. The status UPDATE
takes effect at once; the order and its items are read back after it, and the
stock that goes back is that of the items read.
-/
namespace Bookstore.CancelFailures

open Database Interleaving LocalCheckouts MysqlInventory MysqlOrders MysqlService Records
open Repositories Services Transactions Transactions.Session

/-- The statements of MysqlOrderRepository in a call of cancel_order. -/
inductive Statement
  | findOrder
  | findItems
  | updateStatus
  | readOrder
  | readItems
deriving DecidableEq

/-- The place of a statement in the call. -/
def Statement.position : Statement → ℕ
  | .findOrder => 0
  | .findItems => 1
  | .updateStatus => 2
  | .readOrder => 3
  | .readItems => 4

/-- A call of the service; in a cancellation one statement may fail. -/
inductive Call
  | create (userId : Int32) (requests : List OrderItemRequest)
  | cancel (orderId : Int32) (failing : Option Statement)

/-- The store before a call in which the given statement fails. -/
def withFailure (s : MysqlStore) (failing : Option Statement) : MysqlStore :=
  { s with mysql := s.mysql.failing (failing.map Statement.position) }

section Runs

variable (catalogue : Db → Int32 → Option Book)

def perform (s : MysqlStore) : Call → MysqlStore
  | .create userId requests =>
    (((orderService catalogue).createOrder userId requests).run (withFailure s none)).2
  | .cancel orderId failing =>
    (((orderService catalogue).cancelOrder orderId).run (withFailure s failing)).2

def performAll (s : MysqlStore) (calls : List Call) : MysqlStore :=
  calls.foldl (perform catalogue) s

/-- Each call of a run meets `P` in the store it starts from. -/
def Always (P : MysqlStore → Call → Prop) : MysqlStore → List Call → Prop
  | _, [] => True
  | s, call :: rest => P s call ∧ Always P (perform catalogue s call) rest

/-- The stored status of an order. -/
def status (db : Db) (orderId : ℤ) : Option String :=
  (db.orders.find? fun order => order.id = orderId).map OrderRow.status

/-- A cancellation leaves the status and the stock alone, or the order is
cancelled and the full quantity of every item is back. -/
def AllOrNothing (s : MysqlStore) : Call → Prop
  | .create _ _ => True
  | .cancel orderId failing =>
    let db := s.mysql.db
    let db' := (perform catalogue s (.cancel orderId failing)).mysql.db
    (status db' orderId.toInt = status db orderId.toInt ∧
      ∀ book, db'.available book = db.available book) ∨
    (status db' orderId.toInt = some "cancelled" ∧
      ∀ book, db'.available book =
        db.available book + orderedAt book (itemsOf db.orderItems orderId.toInt))

/-- No cancelled order has kept its stock: what left the shelf since the start
is in orders that are not cancelled. -/
def Backed (start s : MysqlStore) : Prop :=
  ∀ book, covered s.mysql.db book = covered start.mysql.db book

/-- The order is there, is not cancelled and has items, and it is a statement
behind the UPDATE that fails. -/
def Lossy (s : MysqlStore) : Call → Prop
  | .create _ _ => False
  | .cancel orderId failing =>
    0 < orderId.toInt ∧ (failing = some .readOrder ∨ failing = some .readItems) ∧
      (∃ text, status s.mysql.db orderId.toInt = some text ∧ text ≠ "cancelled") ∧
      itemsOf s.mysql.db.orderItems orderId.toInt ≠ []

end Runs

/-! ## One cancellation -/

/-- cancel_order call by call. -/
theorem run_cancelOrder_calls (catalogue : Db → Int32 → Option Book) (orderId : Int32)
    (s : MysqlStore) (hpos : 0 < orderId.toInt) :
    ((orderService catalogue).cancelOrder orderId).run s =
      match (MysqlOrders.findOrder orderId).run s.mysql with
      | (none, m) => (none, { s with mysql := m })
      | (some existing, m) =>
        if existing.status = "cancelled" then (some existing, { s with mysql := m })
        else
          match (MysqlOrders.cancelOrder orderId).run m with
          | (none, m') => (none, { s with mysql := m' })
          | (some order, m') =>
            (some order, ((releaseEach inventoryClient (order.items.map OrderItem.toMutation)).run
              { s with mysql := m' }).2) := by
  have hid : ¬ orderId ≤ 0 := by
    rw [Int32.le_iff_toInt_le, Int32.toInt_zero]
    omega
  have hrelease : ∀ items, (orderService catalogue).releaseItems items =
      releaseEach inventoryClient (items.map OrderItem.toMutation) := by
    intro items
    induction items with
    | nil => rfl
    | cons item rest ih =>
      simp only [OrderService.releaseItems, List.map_cons, releaseEach, ih]
      rfl
  have hfind : ((orderService catalogue).orderRepository.findOrder orderId).run s =
      (((MysqlOrders.findOrder orderId).run s.mysql).1,
        { s with mysql := ((MysqlOrders.findOrder orderId).run s.mysql).2 }) := by
    simp only [orderService, OrderRepository.lift, Prog.run_lift, MysqlStore.mysqlLens,
      MysqlOrders.repository]
  simp only [OrderService.cancelOrder, hid, if_false, Prog.run_bind, hfind]
  rcases (MysqlOrders.findOrder orderId).run s.mysql with ⟨_ | existing, m⟩
  · rfl
  · by_cases hstatus : existing.status = "cancelled"
    · simp only [hstatus, if_true, Prog.run_pure]
    · have hcancel : ((orderService catalogue).orderRepository.cancelOrder orderId).run
          { s with mysql := m } =
          (((MysqlOrders.cancelOrder orderId).run m).1,
            { s with mysql := ((MysqlOrders.cancelOrder orderId).run m).2 }) := by
        simp only [orderService, OrderRepository.lift, Prog.run_lift, MysqlStore.mysqlLens,
          MysqlOrders.repository]
      simp only [hstatus, if_false, OrderService.cancelFound, Prog.run_bind, hcancel]
      rcases (MysqlOrders.cancelOrder orderId).run m with ⟨_ | order, m'⟩
      · rfl
      · simp only [hrelease, Prog.run_bind, Prog.run_pure]

theorem faults_withFailure (s : MysqlStore) (failing : Option Statement) (statement : Statement) :
    (withFailure s failing).mysql.faults (s.mysql.clock + statement.position) =
      decide (failing = some statement) := by
  have hplace := s.mysql.failing_faults (failing.map Statement.position) statement.position
  rw [withFailure]
  dsimp only
  rw [hplace]
  cases failing with
  | none => rfl
  | some other => cases other <;> cases statement <;> rfl

/-- The releases come behind the statements that may fail. -/
theorem quiet_withFailure (s : MysqlStore) (failing : Option Statement) (db : Db)
    (nextKey : Table → ℤ) :
    Server.Quiet ⟨db, nextKey, (withFailure s failing).mysql.faults, s.mysql.clock + 5⟩ := by
  apply s.mysql.quiet_of_failing
  intro k hk
  obtain ⟨statement, _, rfl⟩ := Option.map_eq_some_iff.mp hk
  cases statement <;> decide

/-- The UPDATE is seen by the SELECT that reads the order back. -/
theorem find_cancelled (orders : List OrderRow) (id : ℤ) :
    (orders.map fun order =>
      if order.id = id then { order with status := "cancelled" } else order).find?
        (fun order => order.id = id) =
      (orders.find? fun order => order.id = id).map fun order =>
        { order with status := "cancelled" } := by
  induction orders with
  | nil => rfl
  | cons order rest ih =>
    by_cases hid : order.id = id
    · simp [hid]
    · simp [hid, ih]

theorem find_marked {db : Db} {orderId : ℤ} {row : OrderRow}
    (hrow : db.orders.find? (fun order => order.id = orderId) = some row) :
    ((cancelOrderRow orderId).effect db).orders.find? (fun order => order.id = orderId) =
      some { row with status := "cancelled" } := by
  have hmap := find_cancelled db.orders orderId
  rw [hrow] at hmap
  exact hmap

/-- The items that cancel_order reads back and releases. -/
def releasedItems (db : Db) (orderId : Int32) : List InventoryMutation :=
  ((itemsOf db.orderItems orderId.toInt).map itemOfRow).map OrderItem.toMutation

/-- cancel_order changes no table; or the UPDATE is all it does, and then the
failure is behind it; or it releases every item. -/
inductive Outcome (s : MysqlStore) (orderId : Int32) (failing : Option Statement) : Db → Prop
  | unchanged (h : ¬ Lossy s (.cancel orderId failing)) : Outcome s orderId failing s.mysql.db
  | lost (h : Lossy s (.cancel orderId failing)) :
      Outcome s orderId failing ((cancelOrderRow orderId.toInt).effect s.mysql.db)
  | released {db' : Db} {row : OrderRow} (h : ¬ Lossy s (.cancel orderId failing))
      (hrow : s.mysql.db.orders.find? (fun order => order.id = orderId.toInt) = some row)
      (hstatus : row.status ≠ "cancelled")
      (hreturned : Returned (releasedItems s.mysql.db orderId)
        ((cancelOrderRow orderId.toInt).effect s.mysql.db) db') :
      Outcome s orderId failing db'

theorem status_of_find {db : Db} {orderId : ℤ} {row : OrderRow}
    (hrow : db.orders.find? (fun order => order.id = orderId) = some row) :
    status db orderId = some row.status := by
  rw [status, hrow]
  rfl

theorem not_lossy_of_cancelled {s : MysqlStore} {orderId : Int32} {failing : Option Statement}
    (h : ∀ text, status s.mysql.db orderId.toInt = some text → text = "cancelled") :
    ¬ Lossy s (.cancel orderId failing) := by
  intro hlossy
  obtain ⟨_, _, ⟨text, htext, hne⟩, _⟩ := hlossy
  exact hne (h text htext)

/-! ## The order tables -/

theorem itemOfRow_own (orderId : Int32) (item : OrderItem) :
    itemOfRow (orderItemRow orderId item) = item := by
  simp only [itemOfRow, orderItemRow, atoi, Int32.ofInt_toInt]

/-- What is released of a book is what the item rows say. -/
theorem requestedAt_rows {rows : List OrderItemRow} (h : ∀ row ∈ rows, ∃ orderId item,
    row = orderItemRow orderId item) (book : ℤ) :
    requestedAt book ((rows.map itemOfRow).map OrderItem.toMutation) = orderedAt book rows := by
  induction rows with
  | nil => rfl
  | cons row rest ih =>
    obtain ⟨orderId, item, rfl⟩ := h row (by simp)
    have hrest := ih fun r hr => h r (by simp [hr])
    simp only [List.map_cons, itemOfRow_own, requestedAt_cons, hrest]
    rfl

theorem released_pos {db : Db} (h : Stocked db) (orderId : Int32) :
    Positive (releasedItems db orderId) := by
  intro mutation hmem
  obtain ⟨item, hitem, rfl⟩ := List.mem_map.mp hmem
  obtain ⟨row, hrow, rfl⟩ := List.mem_map.mp hitem
  obtain ⟨_, item, rfl, hbook, hq⟩ := h.items row (List.mem_filter.mp hrow).1
  rw [itemOfRow_own]
  exact ⟨hbook, hq⟩

theorem released_rows {db : Db} (h : Stocked db) (orderId : Int32)
    (mutation : InventoryMutation) (hmem : mutation ∈ releasedItems db orderId) :
    (db.inventory mutation.bookId.toInt).isSome := by
  obtain ⟨item, hitem, rfl⟩ := List.mem_map.mp hmem
  obtain ⟨row, hrow, rfl⟩ := List.mem_map.mp hitem
  have hsome := h.rows row (List.mem_filter.mp hrow).1
  obtain ⟨_, item, rfl, _, _⟩ := h.items row (List.mem_filter.mp hrow).1
  rw [itemOfRow_own]
  exact hsome

theorem released_quantity {db : Db} (h : Stocked db) (orderId : Int32) (book : ℤ) :
    requestedAt book (releasedItems db orderId) =
      orderedAt book (itemsOf db.orderItems orderId.toInt) := by
  apply requestedAt_rows
  intro row hrow
  obtain ⟨id, item, heq, _⟩ := h.items row (List.mem_filter.mp hrow).1
  exact ⟨id, item, heq⟩

/-- The UPDATE takes the items of one order out of what is held. -/
theorem heldBy_cancelled (rows : List OrderItemRow) (book id : ℤ) (orders : List OrderRow)
    (hdistinct : (orders.map OrderRow.id).Nodup) {row : OrderRow}
    (hrow : orders.find? (fun order => order.id = id) = some row)
    (hstatus : row.status ≠ "cancelled") :
    heldBy rows book (orders.map fun order =>
      if order.id = id then { order with status := "cancelled" } else order) +
        orderedAt book (itemsOf rows id) = heldBy rows book orders := by
  induction orders with
  | nil => simp at hrow
  | cons order rest ih =>
    rw [List.map_cons, List.nodup_cons] at hdistinct
    by_cases hid : order.id = id
    · have hsame : order = row := by simpa [hid] using hrow
      have hother : rest.map (fun order =>
          if order.id = id then { order with status := "cancelled" } else order) = rest := by
        refine (List.map_congr_left ?_).trans (List.map_id' rest)
        intro o ho
        have hne : o.id ≠ id := by
          intro heq
          apply hdistinct.1
          rw [hid, ← heq]
          exact List.mem_map_of_mem ho
        rw [if_neg hne]
      rw [← hsame] at hstatus
      simp only [List.map_cons, hid, if_true, heldBy, hother, hstatus, if_false]
      omega
    · have hrest : rest.find? (fun order => order.id = id) = some row := by
        simpa [hid] using hrow
      have hsum := ih hdistinct.2 hrest
      simp only [List.map_cons, hid, if_false, heldBy]
      omega

/-- Marking an order leaves the shop sound, while the stock stays in range. -/
theorem stocked_marked {db db' : Db} (h : Stocked db) (id : ℤ)
    (horders : db'.orders = ((cancelOrderRow id).effect db).orders)
    (hitems : db'.orderItems = db.orderItems)
    (hrows : ∀ book, (db'.inventory book).isSome = (db.inventory book).isSome)
    (hnonneg : ∀ book, 0 ≤ db'.available book)
    (hroom : ∀ book, covered db' book ≤ unsignedMax) : Stocked db' := by
  have hids : db'.orders.map OrderRow.id = db.orders.map OrderRow.id := by
    rw [horders]
    simp only [cancelOrderRow, List.map_map]
    apply List.map_congr_left
    intro order _
    simp only [Function.comp_apply]
    split <;> rfl
  have hmem : ∀ order ∈ db.orders, ∃ order' ∈ db'.orders, order'.id = order.id := by
    intro order horder
    have hid : order.id ∈ db'.orders.map OrderRow.id := by
      rw [hids]
      exact List.mem_map_of_mem horder
    exact List.mem_map.mp hid
  refine ⟨?_, hids ▸ h.distinct, ?_, hitems ▸ h.items, ?_, hnonneg, hroom⟩
  · intro order horder
    have hid : order.id ∈ db.orders.map OrderRow.id := by
      rw [← hids]
      exact List.mem_map_of_mem horder
    obtain ⟨old, hold, heq⟩ := List.mem_map.mp hid
    rw [← heq]
    exact h.keys old hold
  · intro row hrow
    rw [hitems] at hrow
    obtain ⟨order, horder, hparent⟩ := h.parents row hrow
    obtain ⟨order', horder', hsame⟩ := hmem order horder
    exact ⟨order', horder', hsame.trans hparent⟩
  · intro row hrow
    rw [hitems] at hrow
    rw [hrows]
    exact h.rows row hrow

/-- A live order holds part of what the column has room for. -/
theorem released_room {db : Db} (h : Stocked db) (orderId : Int32) {row : OrderRow}
    (hrow : db.orders.find? (fun order => order.id = orderId.toInt) = some row)
    (hstatus : row.status ≠ "cancelled") (book : ℤ) :
    db.available book + requestedAt book (releasedItems db orderId) ≤ unsignedMax := by
  have hroom := h.room book
  have hsplit := heldBy_cancelled db.orderItems book orderId.toInt db.orders h.distinct hrow
    hstatus
  have hrest := heldBy_nonneg h.quantity_pos book (db.orders.map fun order =>
    if order.id = orderId.toInt then { order with status := "cancelled" } else order)
  rw [released_quantity h]
  unfold held at hroom
  omega

/-! ## One call -/

/-- The server after the two SELECTs of the first find_order. -/
def afterLookup (s : MysqlStore) (failing : Option Statement) : MySql :=
  (withFailure s failing).mysql.tick.tick

/-- MysqlOrderRepository::cancel_order on an order that is there. -/
theorem run_cancelFound (s : MysqlStore) (failing : Option Statement) (orderId : Int32)
    (hpos : 0 < orderId.toInt) {row : OrderRow}
    (hrow : s.mysql.db.orders.find? (fun order => order.id = orderId.toInt) = some row) :
    (MysqlOrders.cancelOrder orderId).run (afterLookup s failing) =
      (let after := { (afterLookup s failing).tick with
        db := (cancelOrderRow orderId.toInt).effect s.mysql.db }
      let items := (itemsOf s.mysql.db.orderItems orderId.toInt).map itemOfRow
      if failing = some .updateStatus then (none, (afterLookup s failing).tick)
      else if failing = some .readOrder then (none, after.tick)
      else (some (orderOfRow { row with status := "cancelled" }
        (if failing = some .readItems then [] else items)), after.tick.tick)) := by
  have hupdate : (afterLookup s failing).faults (afterLookup s failing).clock =
      decide (failing = some .updateStatus) := faults_withFailure s failing .updateStatus
  have hread : (afterLookup s failing).faults ((afterLookup s failing).clock + 1) =
      decide (failing = some .readOrder) := faults_withFailure s failing .readOrder
  have hreadItems : (afterLookup s failing).faults ((afterLookup s failing).clock + 1 + 1) =
      decide (failing = some .readItems) := faults_withFailure s failing .readItems
  have hid : (atoi row.id).toInt = orderId.toInt := by
    have hfound := List.find?_some hrow
    rw [decide_eq_true_eq] at hfound
    rw [hfound, atoi, Int32.ofInt_toInt]
  have hfind := find_marked hrow
  rw [run_cancelOrder orderId _ hpos, hupdate]
  by_cases h2 : failing = some .updateStatus
  · simp only [h2, decide_true, if_true]
  · rw [run_findOrder orderId _ hpos]
    simp only [h2, decide_false, Bool.false_eq_true, if_false, Server.tick]
    simp only [hread]
    by_cases h3 : failing = some .readOrder
    · simp only [h3, decide_true, if_true]
      rfl
    · simp only [h3, decide_false, Bool.false_eq_true, if_false]
      simp only [hreadItems]
      have hdb : (afterLookup s failing).db = s.mysql.db := rfl
      simp only [hdb, hfind, hid]
      by_cases h4 : failing = some .readItems
      · simp only [h4, decide_true, if_true]
      · simp only [h4, decide_false, Bool.false_eq_true, if_false]
        rfl

theorem lossy_iff (s : MysqlStore) (failing : Option Statement) (orderId : Int32)
    (hpos : 0 < orderId.toInt) {row : OrderRow}
    (hrow : s.mysql.db.orders.find? (fun order => order.id = orderId.toInt) = some row)
    (hstatus : row.status ≠ "cancelled") :
    Lossy s (.cancel orderId failing) ↔
      (failing = some .readOrder ∨ failing = some .readItems) ∧
        itemsOf s.mysql.db.orderItems orderId.toInt ≠ [] := by
  constructor
  · intro hlossy
    exact ⟨hlossy.2.1, hlossy.2.2.2⟩
  · intro ⟨hfail, hitems⟩
    exact ⟨hpos, hfail, ⟨_, status_of_find hrow, hstatus⟩, hitems⟩

/-- The loop of cancel_order over the items that were read back. -/
theorem release_outcome (s : MysqlStore) (h : Stocked s.mysql.db) (orderId : Int32)
    (failing : Option Statement) (hpos : 0 < orderId.toInt) {row : OrderRow}
    (hrow : s.mysql.db.orders.find? (fun order => order.id = orderId.toInt) = some row)
    (hstatus : row.status ≠ "cancelled") (hread : failing ≠ some .readOrder) (c : ℕ)
    (hclock : c = s.mysql.clock + 5) :
    Outcome s orderId failing
      ((releaseEach inventoryClient
        ((if failing = some .readItems then []
          else (itemsOf s.mysql.db.orderItems orderId.toInt).map itemOfRow).map
            OrderItem.toMutation)).run
        { withFailure s failing with
          mysql := ⟨(cancelOrderRow orderId.toInt).effect s.mysql.db, s.mysql.nextKey,
            (withFailure s failing).mysql.faults, c⟩ }).2.mysql.db := by
  have hlossy := lossy_iff s failing orderId hpos hrow hstatus
  by_cases hbad : failing = some .readItems ∧ itemsOf s.mysql.db.orderItems orderId.toInt ≠ []
  · rw [if_pos hbad.1]
    exact .lost (hlossy.mpr ⟨.inr hbad.1, hbad.2⟩)
  · have hgood : ¬ Lossy s (.cancel orderId failing) := by
      rw [hlossy]
      rintro ⟨hfail | hfail, hitems⟩
      · exact hread hfail
      · exact hbad ⟨hfail, hitems⟩
    have hitems : (if failing = some .readItems then []
        else (itemsOf s.mysql.db.orderItems orderId.toInt).map itemOfRow).map
          OrderItem.toMutation = releasedItems s.mysql.db orderId := by
      by_cases h4 : failing = some .readItems
      · have hnil : itemsOf s.mysql.db.orderItems orderId.toInt = [] := by
          by_contra hne
          exact hbad ⟨h4, hne⟩
        simp [h4, releasedItems, hnil]
      · simp only [h4, if_false, releasedItems]
    rw [hitems, hclock]
    obtain ⟨db', c', hrun, hreturned⟩ := run_releaseEach (releasedItems s.mysql.db orderId)
      { withFailure s failing with
        mysql := ⟨(cancelOrderRow orderId.toInt).effect s.mysql.db, s.mysql.nextKey,
          (withFailure s failing).mysql.faults, s.mysql.clock + 5⟩ }
      (quiet_withFailure s failing _ _) (released_pos h orderId) (released_rows h orderId)
      (released_room h orderId hrow hstatus)
    rw [hrun]
    exact .released hgood hrow hstatus hreturned

theorem cancel_outcome (catalogue : Db → Int32 → Option Book) (s : MysqlStore)
    (h : Stocked s.mysql.db) (orderId : Int32) (failing : Option Statement) :
    Outcome s orderId failing (perform catalogue s (.cancel orderId failing)).mysql.db := by
  by_cases hpos : 0 < orderId.toInt
  · rw [perform, run_cancelOrder_calls catalogue orderId _ hpos, run_findOrder orderId _ hpos]
    have hlookup : (withFailure s failing).mysql.faults (withFailure s failing).mysql.clock =
        decide (failing = some .findOrder) := faults_withFailure s failing .findOrder
    have hdb : (withFailure s failing).mysql.db = s.mysql.db := rfl
    rw [hlookup]
    by_cases h0 : failing = some .findOrder
    · simp only [h0, decide_true, if_true]
      refine .unchanged ?_
      rintro ⟨_, hfail | hfail, _⟩ <;> cases hfail
    · simp only [h0, decide_false, Bool.false_eq_true, if_false, hdb]
      cases hrow : s.mysql.db.orders.find? fun order => order.id = orderId.toInt with
      | none =>
        refine .unchanged (not_lossy_of_cancelled ?_)
        simp [status, hrow]
      | some row =>
        by_cases hstatus : row.status = "cancelled"
        · simp only [orderOfRow, hstatus, if_true]
          refine .unchanged (not_lossy_of_cancelled ?_)
          simp [status, hrow, hstatus]
        · have hcancel := run_cancelFound s failing orderId hpos hrow
          have hlossy := lossy_iff s failing orderId hpos hrow hstatus
          rw [afterLookup] at hcancel
          simp only [orderOfRow, hstatus, if_false, hcancel]
          by_cases h2 : failing = some .updateStatus
          · rw [if_pos h2]
            refine .unchanged ?_
            rw [hlossy, h2]
            rintro ⟨hfail | hfail, _⟩ <;> cases hfail
          · rw [if_neg h2]
            by_cases h3 : failing = some .readOrder
            · rw [if_pos h3]
              by_cases hnil : itemsOf s.mysql.db.orderItems orderId.toInt = []
              · have hnone : releasedItems s.mysql.db orderId = [] := by
                  rw [releasedItems, hnil]
                  rfl
                refine .released ?_ hrow hstatus (hnone ▸ .nil _)
                exact fun hbad => (hlossy.mp hbad).2 hnil
              · exact .lost (hlossy.mpr ⟨.inl h3, hnil⟩)
            · rw [if_neg h3]
              exact release_outcome s h orderId failing hpos hrow hstatus h3 _ rfl
  · have hid : orderId ≤ 0 := by
      rw [Int32.le_iff_toInt_le, Int32.toInt_zero]
      omega
    have hrun : perform catalogue s (.cancel orderId failing) = withFailure s failing := by
      simp only [perform, OrderService.cancelOrder, hid, if_true, Prog.run_pure]
    rw [hrun]
    exact .unchanged fun hlossy => hpos hlossy.1

/-- A lossy call finds a live order. -/
theorem Lossy.row {s : MysqlStore} {orderId : Int32} {failing : Option Statement}
    (h : Lossy s (.cancel orderId failing)) :
    ∃ row, s.mysql.db.orders.find? (fun order => order.id = orderId.toInt) = some row ∧
      row.status ≠ "cancelled" := by
  obtain ⟨text, htext, hne⟩ := h.2.2.1
  obtain ⟨row, hrow, rfl⟩ := Option.map_eq_some_iff.mp htext
  exact ⟨row, hrow, hne⟩

/-- What is held after the UPDATE. -/
theorem held_marked {db : Db} (h : Stocked db) (orderId : Int32) {row : OrderRow}
    (hrow : db.orders.find? (fun order => order.id = orderId.toInt) = some row)
    (hstatus : row.status ≠ "cancelled") (book : ℤ) :
    held ((cancelOrderRow orderId.toInt).effect db) book +
      orderedAt book (itemsOf db.orderItems orderId.toInt) = held db book :=
  heldBy_cancelled db.orderItems book orderId.toInt db.orders h.distinct hrow hstatus

theorem itemsOf_nonneg {db : Db} (h : Stocked db) (orderId book : ℤ) :
    0 ≤ orderedAt book (itemsOf db.orderItems orderId) :=
  orderedAt_nonneg (fun row hrow => h.quantity_pos row (List.mem_filter.mp hrow).1) book

/-- The tables after a release: the status is set, and what the order held is back. -/
theorem released_tables {db db' : Db} (h : Stocked db) (orderId : Int32) {row : OrderRow}
    (hrow : db.orders.find? (fun order => order.id = orderId.toInt) = some row)
    (hstatus : row.status ≠ "cancelled")
    (hreturned : Returned (releasedItems db orderId)
      ((cancelOrderRow orderId.toInt).effect db) db') (book : ℤ) :
    db'.available book =
        db.available book + orderedAt book (itemsOf db.orderItems orderId.toInt) ∧
      covered db' book = covered db book := by
  have havailable := hreturned.available book
  rw [released_quantity h] at havailable
  refine ⟨havailable, ?_⟩
  have hheld := held_marked h orderId hrow hstatus book
  have hsame : held db' book = held ((cancelOrderRow orderId.toInt).effect db) book := by
    simp only [held, hreturned.shop.orders, hreturned.shop.orderItems]
  have hbefore : Db.available ((cancelOrderRow orderId.toInt).effect db) book =
      db.available book := rfl
  unfold covered
  omega

theorem Outcome.stocked {s : MysqlStore} {orderId : Int32} {failing : Option Statement} {db' : Db}
    (h : Stocked s.mysql.db) (houtcome : Outcome s orderId failing db') : Stocked db' := by
  cases houtcome with
  | unchanged _ => exact h
  | lost hlossy =>
    obtain ⟨row, hrow, hstatus⟩ := hlossy.row
    apply stocked_marked h orderId.toInt rfl rfl (fun _ => rfl) h.nonneg
    intro book
    have hroom := h.room book
    have hheld := held_marked h orderId hrow hstatus book
    have hitems := itemsOf_nonneg h orderId.toInt book
    have hbefore : Db.available ((cancelOrderRow orderId.toInt).effect s.mysql.db) book =
      s.mysql.db.available book := rfl
    unfold covered
    omega
  | released _ hrow hstatus hreturned =>
    apply stocked_marked h orderId.toInt hreturned.shop.orders hreturned.shop.orderItems
      hreturned.rows
    · intro book
      have hvalue := (released_tables h orderId hrow hstatus hreturned book).1
      have hitems := itemsOf_nonneg h orderId.toInt book
      have hnonneg := h.nonneg book
      omega
    · intro book
      rw [(released_tables h orderId hrow hstatus hreturned book).2]
      exact h.room book

theorem status_marked {db : Db} {orderId : ℤ} {row : OrderRow}
    (hrow : db.orders.find? (fun order => order.id = orderId) = some row) :
    status ((cancelOrderRow orderId).effect db) orderId = some "cancelled" := by
  have hfind := find_marked hrow
  exact status_of_find hfind

/-- A cancellation settles unless it is lossy. -/
theorem Outcome.settles_iff {s : MysqlStore} {orderId : Int32} {failing : Option Statement}
    {db' : Db} (h : Stocked s.mysql.db) (houtcome : Outcome s orderId failing db') :
    (((status db' orderId.toInt = status s.mysql.db orderId.toInt ∧
          ∀ book, db'.available book = s.mysql.db.available book) ∨
        (status db' orderId.toInt = some "cancelled" ∧
          ∀ book, db'.available book = s.mysql.db.available book +
            orderedAt book (itemsOf s.mysql.db.orderItems orderId.toInt))) ∧
      ∀ book, covered db' book = covered s.mysql.db book) ↔
    ¬ Lossy s (.cancel orderId failing) := by
  cases houtcome with
  | unchanged hgood =>
    exact ⟨fun _ => hgood, fun _ => ⟨.inl ⟨rfl, fun _ => rfl⟩, fun _ => rfl⟩⟩
  | lost hlossy =>
    refine ⟨fun hsettled => ?_, fun hgood => absurd hlossy hgood⟩
    obtain ⟨row, hrow, hstatus⟩ := hlossy.row
    obtain ⟨item, hitem⟩ := List.exists_mem_of_ne_nil _ hlossy.2.2.2
    have hquantity := Tally.tally_pos_of_mem OrderItemRow.bookId OrderItemRow.quantity
      (itemsOf s.mysql.db.orderItems orderId.toInt)
      (fun r hr => (h.quantity_pos r (List.mem_filter.mp hr).1).le) hitem
      (h.quantity_pos item (List.mem_filter.mp hitem).1)
    have hcovered := hsettled.2 item.bookId
    have hheld := held_marked h orderId hrow hstatus item.bookId
    have hbefore : Db.available ((cancelOrderRow orderId.toInt).effect s.mysql.db) item.bookId =
      s.mysql.db.available item.bookId := rfl
    unfold covered at hcovered
    unfold orderedAt at hheld
    omega
  | released hgood hrow hstatus hreturned =>
    refine ⟨fun _ => hgood, fun _ => ⟨.inr ⟨?_, ?_⟩, ?_⟩⟩
    · have hmarked := status_marked hrow
      rw [status, ← hreturned.shop.orders] at hmarked
      exact hmarked
    · exact fun book => (released_tables h orderId hrow hstatus hreturned book).1
    · exact fun book => (released_tables h orderId hrow hstatus hreturned book).2

/-! ## Whole runs -/

theorem create_keeps (catalogue : Db → Int32 → Option Book) (s : MysqlStore)
    (h : Stocked s.mysql.db) (userId : Int32) (requests : List OrderItemRequest) :
    Stocked (perform catalogue s (.create userId requests)).mysql.db ∧
      ∀ book, covered (perform catalogue s (.create userId requests)).mysql.db book =
        covered s.mysql.db book := by
  have hreliable : (withFailure s none).mysql.Reliable := fun _ => rfl
  rcases createOrder_outcome catalogue userId requests (withFailure s none) hreliable h with
    hsame | ⟨key, items, total, hsold⟩
  · have hdb : (perform catalogue s (.create userId requests)).mysql.db = s.mysql.db := hsame
    rw [hdb]
    exact ⟨h, fun _ => rfl⟩
  · exact ⟨h.sold hsold, fun book => hsold.covered h book⟩

theorem perform_stocked (catalogue : Db → Int32 → Option Book) (s : MysqlStore)
    (h : Stocked s.mysql.db) (call : Call) : Stocked (perform catalogue s call).mysql.db := by
  cases call with
  | create userId requests => exact (create_keeps catalogue s h userId requests).1
  | cancel orderId failing => exact (cancel_outcome catalogue s h orderId failing).stocked h

/-- One call is all or nothing and keeps the stock backed, unless it is lossy. -/
theorem perform_settles_iff (catalogue : Db → Int32 → Option Book) (s : MysqlStore)
    (h : Stocked s.mysql.db) (call : Call) :
    (AllOrNothing catalogue s call ∧ Backed s (perform catalogue s call)) ↔ ¬ Lossy s call := by
  cases call with
  | create userId requests =>
    exact ⟨fun _ => id, fun _ => ⟨trivial, (create_keeps catalogue s h userId requests).2⟩⟩
  | cancel orderId failing => exact (cancel_outcome catalogue s h orderId failing).settles_iff h

theorem Backed.trans {a b c : MysqlStore} (h : Backed a b) (h' : Backed b c) : Backed a c :=
  fun book => (h' book).trans (h book)

theorem Backed.symm {a b : MysqlStore} (h : Backed a b) : Backed b a := fun book => (h book).symm

/-- Cancelling is all-or-nothing along a run, and keeps every copy backed,
exactly when no SELECT behind the UPDATE of a live order fails. -/
theorem cancellations_settle_iff (catalogue : Db → Int32 → Option Book) (start : MysqlStore)
    (h : Stocked start.mysql.db) (calls : List Call) :
    (Always catalogue (AllOrNothing catalogue) start calls ∧
      ∀ before after, calls = before ++ after →
        Backed start (performAll catalogue start before)) ↔
    Always catalogue (fun s call => ¬ Lossy s call) start calls := by
  induction calls generalizing start with
  | nil =>
    refine ⟨fun _ => trivial, fun _ => ⟨trivial, ?_⟩⟩
    intro before after hsplit
    rw [(List.append_eq_nil_iff.mp hsplit.symm).1]
    exact fun _ => rfl
  | cons call rest ih =>
    have hstep := perform_settles_iff catalogue start h call
    have hrest := ih (perform catalogue start call) (perform_stocked catalogue start h call)
    constructor
    · intro ⟨halways, hbacked⟩
      have hfirst : Backed start (perform catalogue start call) := hbacked [call] rest rfl
      refine ⟨hstep.mp ⟨halways.1, hfirst⟩, hrest.mp ⟨halways.2, ?_⟩⟩
      intro before after hsplit
      exact hfirst.symm.trans (hbacked (call :: before) after (by rw [hsplit]; rfl))
    · intro ⟨hgood, hgoods⟩
      obtain ⟨hnow, hfirst⟩ := hstep.mpr hgood
      obtain ⟨hlater, hbacked⟩ := hrest.mpr hgoods
      refine ⟨⟨hnow, hlater⟩, ?_⟩
      intro before after hsplit
      cases before with
      | nil => exact fun _ => rfl
      | cons c before =>
        obtain ⟨rfl, htail⟩ := List.cons.inj hsplit
        exact hfirst.trans (hbacked before after htail)

/-! ## An order whose stock stays away -/

/-- One user, five copies of one book, no order yet. -/
def smallShop : MysqlStore where
  mysql := {
    db := {
      users := fun id => id = 1
      books := fun id => if id = 1 then some ⟨"C++ Primer", "Stanley Lippman", 9800, 5, "active"⟩
        else none
      inventory := fun id => if id = 1 then some 5 else none
      reservations := fun _ => none
      reservationItems := []
      orders := []
      orderItems := [] }
    nextKey := fun _ => 1
    faults := fun _ => false
    clock := 0 }
  nextReservation := 1

def smallCatalogue : Db → Int32 → Option Book := fun _ bookId =>
  if bookId = 1 then some ⟨1, "C++ Primer", "Stanley Lippman", 9800, 5, "active"⟩ else none

theorem stocked_smallShop : Stocked smallShop.mysql.db where
  keys := by simp [smallShop]
  distinct := by simp [smallShop]
  parents := by simp [smallShop]
  items := by simp [smallShop]
  rows := by simp [smallShop]
  nonneg := by
    intro book
    simp only [smallShop, Db.available]
    split <;> decide
  room := by
    intro book
    simp only [smallShop, Db.available, held, heldBy]
    split <;> decide

/-- Two copies are ordered, the UPDATE of the first cancellation fails, and the second one
gives them back. -/
theorem cancellations_settle_small :
    Always smallCatalogue (AllOrNothing smallCatalogue) smallShop
        [.create 1 [⟨1, 2⟩], .cancel 1 (some .updateStatus), .cancel 1 none] ∧
      (performAll smallCatalogue smallShop
        [.create 1 [⟨1, 2⟩], .cancel 1 (some .updateStatus)]).mysql.db.available 1 = 3 ∧
      (performAll smallCatalogue smallShop
        [.create 1 [⟨1, 2⟩], .cancel 1 (some .updateStatus), .cancel 1 none]).mysql.db.available 1 =
          5 := by
  refine ⟨((cancellations_settle_iff smallCatalogue smallShop stocked_smallShop
    [.create 1 [⟨1, 2⟩], .cancel 1 (some .updateStatus), .cancel 1 none]).mpr
      ⟨id, ?_, ?_, trivial⟩).1, by decide +kernel, by decide +kernel⟩
  · rintro ⟨_, hfail | hfail, _⟩ <;> cases hfail
  · rintro ⟨_, hfail | hfail, _⟩ <;> cases hfail

/-- The SELECT of the items behind the UPDATE fails: the order is cancelled, its
two copies stay away, and a retry finds it cancelled already. -/
theorem cancel_keeps_stock :
    let ordered := performAll smallCatalogue smallShop [.create 1 [⟨1, 2⟩]]
    let cancelled := perform smallCatalogue ordered (.cancel 1 (some .readItems))
    let retried := perform smallCatalogue cancelled (.cancel 1 none)
    (status ordered.mysql.db 1 = some "created" ∧ ordered.mysql.db.available 1 = 3) ∧
      (status cancelled.mysql.db 1 = some "cancelled" ∧ cancelled.mysql.db.available 1 = 3) ∧
      (status retried.mysql.db 1 = some "cancelled" ∧ retried.mysql.db.available 1 = 3) ∧
      ¬ AllOrNothing smallCatalogue ordered (.cancel 1 (some .readItems)) ∧
      ¬ Backed smallShop retried := by
  refine ⟨by decide, by decide +kernel, by decide +kernel, ?_, ?_⟩
  · intro hwhole
    rcases hwhole with ⟨hsame, _⟩ | ⟨_, hback⟩
    · revert hsame
      decide
    · have hbook := hback 1
      revert hbook
      decide
  · intro hbacked
    have hbook := hbacked 1
    revert hbook
    decide

end Bookstore.CancelFailures
