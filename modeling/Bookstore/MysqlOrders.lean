import Bookstore.MysqlInventory

/-!
MysqlOrderRepository. The order row and its items are written in one
transaction. A cancellation is one statement in autocommit mode, after which
the order is read back on a connection of its own.
-/
namespace Bookstore.MysqlOrders

open Database Interleaving MysqlInventory Records Repositories Transactions Transactions.Session

/-- The row of an item; `line_total` is a product of ints. -/
def orderItemRow (orderId : Int32) (item : OrderItem) : OrderItemRow :=
  ⟨orderId.toInt, item.bookId.toInt, item.quantity.toInt, item.unitPriceCents.toInt,
    (item.quantity * item.unitPriceCents).toInt⟩

/-- The loop of create_order over the items. -/
def insertItems (orderId : Int32) : List OrderItem → Sql Bool
  | [] => pure true
  | item :: rest => do
    match ← query (insertOrderItem (orderItemRow orderId item)) with
    | none => pure false
    | some () => insertItems orderId rest

/-- The statements of create_order between START TRANSACTION and COMMIT. -/
def insertOrderRows (userId : Int32) (items : List OrderItem) (totalCents : Int32) :
    Sql (Option Int32) := do
  match ← insertKeyed .orders (insertOrder userId.toInt totalCents.toInt) with
  | none => pure none
  | some key =>
    if ← insertItems (atoi key) items then pure (some (atoi key)) else pure none

def createOrder (userId : Int32) (items : List OrderItem) (totalCents : Int32) :
    Prog MySql (Option Order) :=
  if userId ≤ 0 ∨ items = [] then pure none
  else withConnection do
    if ← startTransaction then
      match ← insertOrderRows userId items totalCents with
      | none => do
        rollback
        pure none
      | some orderId =>
        if ← commit then pure (some ⟨orderId, userId, items, totalCents, "created"⟩)
        else do
          rollback
          pure none
    else pure none

def itemOfRow (row : OrderItemRow) : OrderItem :=
  ⟨atoi row.bookId, atoi row.quantity, atoi row.unitPriceCents⟩

/-- The items of an order; a failed SELECT reads as no items. -/
def fetchOrderItems (orderId : Int32) : Sql (List OrderItem) := do
  match ← query (selectOrderItems orderId.toInt) with
  | none => pure []
  | some rows => pure (rows.map itemOfRow)

def orderOfRow (row : OrderRow) (items : List OrderItem) : Order :=
  ⟨atoi row.id, atoi row.userId, items, atoi row.totalCents, row.status⟩

def fetchAll : List OrderRow → Sql (List Order)
  | [] => pure []
  | row :: rest => do
    let items ← fetchOrderItems (atoi row.id)
    let orders ← fetchAll rest
    pure (orderOfRow row items :: orders)

def listOrders : Prog MySql (List Order) :=
  withConnection do
    match ← query selectOrders with
    | none => pure []
    | some rows => fetchAll rows

def findOrder (orderId : Int32) : Prog MySql (Option Order) :=
  if orderId ≤ 0 then pure none
  else withConnection do
    match ← query (selectOrder orderId.toInt) with
    | some (some row) => do
      let items ← fetchOrderItems (atoi row.id)
      pure (some (orderOfRow row items))
    | _ => pure none

def cancelOrder (orderId : Int32) : Prog MySql (Option Order) :=
  if orderId ≤ 0 then pure none
  else do
    match ← withConnection (query (cancelOrderRow orderId.toInt)) with
    | none => pure none
    | some () => findOrder orderId

def repository : OrderRepository MySql where
  createOrder := createOrder
  listOrders := listOrders
  findOrder := findOrder
  cancelOrder := cancelOrder

/-! ## What the methods do to the tables -/

/-- Everything but the order tables is the same. -/
structure SameStock (db db' : Db) : Prop where
  users : db'.users = db.users
  books : db'.books = db.books
  inventory : db'.inventory = db.inventory
  reservations : db'.reservations = db.reservations
  reservationItems : db'.reservationItems = db.reservationItems

theorem SameStock.refl (db : Db) : SameStock db db := ⟨rfl, rfl, rfl, rfl, rfl⟩

theorem SameStock.available {db db' : Db} (h : SameStock db db') (book : ℤ) :
    db'.available book = db.available book := by
  simp only [Db.available, h.inventory]

/-- The item loop went through: one row for each item of an order that exists. -/
structure ItemsWritten (orderId : Int32) (items : List OrderItem) (db db' : Db) : Prop where
  stock : SameStock db db'
  orders : db'.orders = db.orders
  rows : db'.orderItems = db.orderItems ++ items.map (orderItemRow orderId)
  parent : items ≠ [] → ∃ order ∈ db.orders, order.id = orderId.toInt

theorem ItemsWritten.nil (orderId : Int32) (db : Db) : ItemsWritten orderId [] db db where
  stock := .refl db
  orders := rfl
  rows := by simp
  parent := by simp

theorem ItemsWritten.cons {orderId : Int32} {item : OrderItem} {rest : List OrderItem}
    {db db' : Db} (hitem : (insertOrderItem (orderItemRow orderId item)).result db = some ())
    (hrest : ItemsWritten orderId rest
      ((insertOrderItem (orderItemRow orderId item)).effect db) db') :
    ItemsWritten orderId (item :: rest) db db' := by
  refine ⟨⟨hrest.stock.users, hrest.stock.books, hrest.stock.inventory, hrest.stock.reservations,
    hrest.stock.reservationItems⟩, hrest.orders, ?_, ?_⟩
  · rw [hrest.rows]
    simp [insertOrderItem]
  · intro _
    simp only [insertOrderItem, Option.ite_none_right_eq_some, List.any_eq_true,
      decide_eq_true_eq] at hitem
    obtain ⟨order, hmem, hid⟩ := hitem.1.1
    exact ⟨order, hmem, hid⟩

theorem insertItems_spec (orderId : Int32) (items : List OrderItem) (f : Db → Db) (s : MySql) :
    ∃ ok g c, exec (insertItems orderId items) (some f) s = ((ok, some g), { s with clock := c }) ∧
      (ok = true → ItemsWritten orderId items (f s.db) (g s.db)) := by
  induction items generalizing f s with
  | nil => exact ⟨true, f, s.clock, rfl, fun _ => .nil orderId _⟩
  | cons item rest ih =>
    unfold insertItems
    rcases query_cases (insertOrderItem (orderItemRow orderId item)) f s with
      ⟨hrun, _⟩ | ⟨_, hitem, hrun⟩
    · exact ⟨false, f, s.clock + 1, by simp only [exec_bind, hrun]; rfl, by simp⟩
    · obtain ⟨ok, g, c, hexec, hwritten⟩ := ih
        ((insertOrderItem (orderItemRow orderId item)).effect ∘ f) s.tick
      refine ⟨ok, g, c, ?_, fun hok => .cons hitem (hwritten hok)⟩
      simp only [exec_bind, hrun]
      exact hexec

/-- The tables after an order has been stored under a key. -/
structure OrderStored (key : ℤ) (userId : Int32) (items : List OrderItem) (totalCents : Int32)
    (db db' : Db) : Prop where
  stock : SameStock db db'
  unsigned : IsUnsigned key
  orders : db'.orders = db.orders ++ [⟨key, userId.toInt, "created", totalCents.toInt⟩]
  rows : db'.orderItems = db.orderItems ++ items.map (orderItemRow (atoi key))
  parent : items ≠ [] → ∃ order ∈ db'.orders, order.id = (atoi key).toInt

theorem insertOrderRows_spec (userId : Int32) (items : List OrderItem) (totalCents : Int32)
    (f : Db → Db) (s : MySql) :
    ∃ r g c nextKey, exec (insertOrderRows userId items totalCents) (some f) s =
        ((r, some g), { s with clock := c, nextKey := nextKey }) ∧
      (nextKey = s.nextKey ∨
        nextKey = Function.update s.nextKey .orders (s.nextKey .orders + 1)) ∧
      ∀ orderId, r = some orderId →
        nextKey = Function.update s.nextKey .orders (s.nextKey .orders + 1) ∧
        orderId = atoi (s.nextKey .orders) ∧
        OrderStored (s.nextKey .orders) userId items totalCents (f s.db) (g s.db) := by
  unfold insertOrderRows
  rcases insertKeyed_cases .orders (insertOrder userId.toInt totalCents.toInt) f s with
    hrun | ⟨hresult, hrun⟩
  · exact ⟨none, f, s.clock + 1, s.nextKey, by simp only [exec_bind, hrun]; rfl, .inl rfl, by simp⟩
  · obtain ⟨ok, g, c, hexec, hwritten⟩ := insertItems_spec (atoi (s.nextKey .orders)) items
      ((insertOrder userId.toInt totalCents.toInt (s.nextKey .orders)).effect ∘ f)
      { s.tick with nextKey := Function.update s.nextKey .orders (s.nextKey .orders + 1) }
    cases ok with
    | false =>
      refine ⟨none, g, c, _, ?_, .inr rfl, by simp⟩
      simp only [exec_bind, hrun, hexec]
      rfl
    | true =>
      refine ⟨some (atoi (s.nextKey .orders)), g, c, _, ?_, .inr rfl, ?_⟩
      · simp only [exec_bind, hrun, hexec]
        rfl
      · intro orderId hid
        have hdone := hwritten rfl
        simp only [insertOrder, Option.ite_none_right_eq_some] at hresult
        refine ⟨rfl, (Option.some.inj hid).symm, ?_⟩
        refine ⟨⟨hdone.stock.users, hdone.stock.books, hdone.stock.inventory,
          hdone.stock.reservations, hdone.stock.reservationItems⟩, hresult.1.2.2.1, hdone.orders,
          hdone.rows, ?_⟩
        intro hne
        obtain ⟨order, hmem, horder⟩ := hdone.parent hne
        exact ⟨order, hdone.orders ▸ hmem, horder⟩

/-- The primary key: an order is stored only under a key that no order has yet. -/
theorem createOrder_fresh {userId : Int32} {items : List OrderItem} {totalCents : Int32}
    {s : MySql} {order : Order} (h : ((createOrder userId items totalCents).run s).1 = some order)
    (stored : OrderRow) (hstored : stored ∈ s.db.orders) :
    stored.id ≠ s.nextKey .orders := by
  intro hid
  unfold createOrder at h
  split at h
  · cases h
  · simp only [run_withConnection, exec_bind] at h
    rcases startTransaction_cases none s with ⟨hstart, _⟩ | hstart
    · rw [hstart] at h
      cases h
    · simp only [hstart, if_true, exec_bind, insertOrderRows] at h
      rcases insertKeyed_cases .orders (insertOrder userId.toInt totalCents.toInt) id s.tick with
        hrun | ⟨hresult, _⟩
      · rw [hrun] at h
        cases h
      · simp only [insertOrder, Option.ite_none_right_eq_some, List.all_eq_true] at hresult
        have hnew := hresult.1.2.2.2 stored hstored
        simp [hid] at hnew

/-- create_order leaves the tables alone, or stores the order under the next key. -/
theorem createOrder_spec (userId : Int32) (items : List OrderItem) (totalCents : Int32)
    (s : MySql) :
    ∃ r db' c nextKey, (createOrder userId items totalCents).run s =
        (r, { s with db := db', clock := c, nextKey := nextKey }) ∧
      (nextKey = s.nextKey ∨
        nextKey = Function.update s.nextKey .orders (s.nextKey .orders + 1)) ∧
      ((r = none ∧ db' = s.db) ∨
        (r = some ⟨atoi (s.nextKey .orders), userId, items, totalCents, "created"⟩ ∧
          nextKey = Function.update s.nextKey .orders (s.nextKey .orders + 1) ∧
          OrderStored (s.nextKey .orders) userId items totalCents s.db db')) := by
  unfold createOrder
  split
  · exact ⟨none, s.db, s.clock, s.nextKey, rfl, .inl rfl, .inl ⟨rfl, rfl⟩⟩
  · simp only [run_withConnection, exec_bind]
    rcases startTransaction_cases none s with ⟨hstart, _⟩ | hstart
    · rw [hstart]
      exact ⟨none, s.db, s.clock + 1, s.nextKey, rfl, .inl rfl, .inl ⟨rfl, rfl⟩⟩
    · simp only [hstart, if_true, exec_bind]
      obtain ⟨r, g, c, nextKey, hexec, hkey, hstored⟩ :=
        insertOrderRows_spec userId items totalCents id s.tick
      simp only [hexec]
      cases r with
      | none => exact ⟨none, s.db, c + 1, nextKey, rfl, hkey, .inl ⟨rfl, rfl⟩⟩
      | some orderId =>
        obtain ⟨hnext, hid, hdone⟩ := hstored orderId rfl
        simp only [exec_bind]
        rcases commit_cases g { s.tick with clock := c, nextKey := nextKey } with
          ⟨hcommit, _⟩ | hcommit
        · simp only [hcommit]
          exact ⟨none, s.db, c + 2, nextKey, rfl, hkey, .inl ⟨rfl, rfl⟩⟩
        · simp only [hcommit, if_true, exec_pure]
          refine ⟨_, g s.db, c + 1, nextKey, rfl, hkey, .inr ⟨?_, hnext, hdone⟩⟩
          rw [hid]
          rfl

/-- The order that find_order reads from these tables. -/
def orderAt (db : Db) (orderId : Int32) : Option Order :=
  if orderId ≤ 0 then none
  else
    (db.orders.find? fun order => order.id = orderId.toInt).map fun row =>
      orderOfRow row
        ((db.orderItems.filter fun item => item.orderId = (atoi row.id).toInt).map itemOfRow)

/-- find_order only reads, and on a reliable server it reads the whole order. -/
theorem findOrder_spec (orderId : Int32) (s : MySql) :
    ∃ r c, (findOrder orderId).run s = (r, { s with clock := c }) ∧
      (s.Reliable → r = orderAt s.db orderId) := by
  unfold findOrder orderAt
  split
  · exact ⟨none, s.clock, rfl, fun _ => rfl⟩
  · simp only [run_withConnection, exec_bind]
    rcases query_autocommit (selectOrder orderId.toInt) s with ⟨hrun, hnone⟩ | ⟨row, hrow, hrun⟩
    · rw [hrun]
      exact ⟨none, s.clock + 1, rfl, fun hreliable => by cases hnone hreliable⟩
    · have hfound : s.db.orders.find? (fun order => order.id = orderId.toInt) = row :=
        Option.some.inj hrow
      rw [hrun, hfound]
      cases row with
      | none => exact ⟨none, s.clock + 1, rfl, fun _ => rfl⟩
      | some row =>
        simp only [exec_bind, fetchOrderItems]
        rcases query_autocommit (selectOrderItems (atoi row.id).toInt) s.tick with
          ⟨hitems, hfail⟩ | ⟨items, hresult, hitems⟩
        · refine ⟨some (orderOfRow row []), s.clock + 2, ?_, fun hreliable => by
            cases hfail hreliable⟩
          have hitems' : exec (query (selectOrderItems (atoi row.id).toInt)) none
              { s.tick with db := (selectOrder orderId.toInt).effect s.db } = _ := hitems
          rw [hitems']
          rfl
        · refine ⟨some (orderOfRow row (items.map itemOfRow)), s.clock + 2, ?_, ?_⟩
          · have hitems' : exec (query (selectOrderItems (atoi row.id).toInt)) none
                { s.tick with db := (selectOrder orderId.toInt).effect s.db } = _ := hitems
            rw [hitems']
            rfl
          · intro _
            rw [← Option.some.inj hresult]
            rfl

/-- find_order statement by statement: the first one decides whether there is an
order, the second one whether it has its items. -/
theorem run_findOrder (orderId : Int32) (s : MySql) (hpos : 0 < orderId.toInt) :
    (findOrder orderId).run s =
      if s.faults s.clock = true then (none, s.tick)
      else
        match s.db.orders.find? fun order => order.id = orderId.toInt with
        | none => (none, s.tick)
        | some row =>
          (some (orderOfRow row
            (if s.faults (s.clock + 1) = true then []
            else (s.db.orderItems.filter fun item => item.orderId = (atoi row.id).toInt).map
              itemOfRow)), s.tick.tick) := by
  have hid : ¬ orderId ≤ 0 := by
    rw [Int32.le_iff_toInt_le, Int32.toInt_zero]
    omega
  simp only [findOrder, hid, if_false, run_withConnection, exec_bind]
  cases hfirst : s.faults s.clock with
  | true =>
    rw [query_faulty _ none s hfirst]
    rfl
  | false =>
    have hselect : exec (query (selectOrder orderId.toInt)) none s =
        ((some (s.db.orders.find? fun order => order.id = orderId.toInt), none), s.tick) :=
      query_accepted _ none s hfirst rfl
    rw [hselect]
    cases s.db.orders.find? fun order => order.id = orderId.toInt with
    | none => rfl
    | some row =>
      simp only [exec_bind, fetchOrderItems, Bool.false_eq_true, if_false]
      cases hsecond : s.faults (s.clock + 1) with
      | true =>
        rw [query_faulty _ none s.tick hsecond]
        rfl
      | false =>
        rw [query_accepted (selectOrderItems (atoi row.id).toInt) none s.tick hsecond rfl]
        rfl

/-- cancel_order: the UPDATE, and then what find_order makes of the order. -/
theorem run_cancelOrder (orderId : Int32) (s : MySql) (hpos : 0 < orderId.toInt) :
    (cancelOrder orderId).run s =
      if s.faults s.clock = true then (none, s.tick)
      else (findOrder orderId).run
        { s.tick with db := (cancelOrderRow orderId.toInt).effect s.db } := by
  have hid : ¬ orderId ≤ 0 := by
    rw [Int32.le_iff_toInt_le, Int32.toInt_zero]
    omega
  simp only [cancelOrder, hid, if_false, Prog.run_bind, run_withConnection]
  cases hfault : s.faults s.clock with
  | true =>
    rw [query_faulty _ none s hfault]
    rfl
  | false =>
    rw [query_accepted (cancelOrderRow orderId.toInt) none s hfault rfl]
    rfl

/-- cancel_order touches the status of the orders with this id only. -/
theorem cancelOrder_spec (orderId : Int32) (s : MySql) :
    ∃ r db' c, (cancelOrder orderId).run s = (r, { s with db := db', clock := c }) ∧
      (db' = s.db ∨ db' = (cancelOrderRow orderId.toInt).effect s.db) ∧
      (s.Reliable → 0 < orderId.toInt →
        db' = (cancelOrderRow orderId.toInt).effect s.db ∧ r = orderAt db' orderId) := by
  unfold cancelOrder
  split
  · rename_i hid
    refine ⟨none, s.db, s.clock, rfl, .inl rfl, ?_⟩
    intro _ hpos
    rw [Int32.le_iff_toInt_le, Int32.toInt_zero] at hid
    omega
  · simp only [Prog.run_bind, run_withConnection]
    rcases query_autocommit (cancelOrderRow orderId.toInt) s with ⟨hrun, hnone⟩ | ⟨_, _, hrun⟩
    · simp only [hrun]
      exact ⟨none, s.db, s.clock + 1, rfl, .inl rfl, fun hreliable => by cases hnone hreliable⟩
    · simp only [hrun]
      obtain ⟨r, c, hfind, hread⟩ := findOrder_spec orderId
        { s.tick with db := (cancelOrderRow orderId.toInt).effect s.db }
      exact ⟨r, _, c, hfind, .inr rfl, fun hreliable _ => ⟨rfl, hread hreliable⟩⟩

end Bookstore.MysqlOrders
