import Bookstore.MysqlOrders
import Bookstore.PatchedBooks
import Bookstore.Runs
import Mathlib.Data.List.Nodup

/-!
MysqlOrderRepository on a server that does not fail against MemoryOrderRepository.
For known users and books and amounts that fit their columns the two give the same
replies along every run of calls, but that MySQL lists the newest order first.
-/
namespace Bookstore.OrderBackends

open Database Interleaving MysqlInventory MysqlOrders PatchedBooks Records Repositories
open Transactions Transactions.Session

/-! ## Calls -/

inductive Call
  | createOrder (userId : Int32) (items : List OrderItem) (totalCents : Int32)
  | listOrders
  | findOrder (orderId : Int32)
  | cancelOrder (orderId : Int32)

inductive Reply
  | order (order : Option Order)
  | orders (orders : List Order)

def perform {σ : Type} (r : OrderRepository σ) : Call → Prog σ Reply
  | .createOrder userId items totalCents => do
    let order ← r.createOrder userId items totalCents
    pure (.order order)
  | .listOrders => do
    let orders ← r.listOrders
    pure (.orders orders)
  | .findOrder orderId => do
    let order ← r.findOrder orderId
    pure (.order order)
  | .cancelOrder orderId => do
    let order ← r.cancelOrder orderId
    pure (.order order)

/-- The replies to calls one after the other. -/
def replies {σ : Type} (r : OrderRepository σ) (s : σ) : List Call → List Reply × σ
  | [] => ([], s)
  | c :: rest =>
    let (reply, t) := (perform r c).run s
    let (more, u) := replies r t rest
    (reply :: more, u)

def Reply.newestFirst : Reply → Reply
  | .order found => .order found
  | .orders found => .orders found.reverse

/-- What an order needs so that the tables take it. -/
structure Storable (db : Db) (userId : Int32) (items : List OrderItem) (totalCents : Int32) :
    Prop where
  user : db.users userId.toInt = true
  total : 0 ≤ totalCents.toInt
  items : ∀ item ∈ items, (db.books item.bookId.toInt).isSome ∧ 0 ≤ item.quantity.toInt ∧
    0 ≤ item.unitPriceCents.toInt ∧ 0 ≤ (item.quantity * item.unitPriceCents).toInt

/-- The orders that are asked for can be stored; one that both repositories refuse on its
arguments may be anything. -/
def Accepts (db : Db) : Call → Prop
  | .createOrder userId items totalCents =>
    0 < userId → items ≠ [] → Storable db userId items totalCents
  | _ => True

/-! ## The tables of the orders in memory -/

def rowOf (order : Order) : OrderRow :=
  ⟨order.id.toInt, order.userId.toInt, order.status, order.totalCents.toInt⟩

def rowsOf (orders : List Order) : List OrderItemRow :=
  orders.flatMap fun order => order.items.map (orderItemRow order.id)

structure Mirrors (m : MemoryOrders) (s : MySql) : Prop where
  reliable : s.Reliable
  next : s.nextKey .orders = m.nextOrderId.toInt
  positive : 0 < m.nextOrderId.toInt
  increasing : m.orders.Pairwise fun a b => a.id.toInt < b.id.toInt
  range : ∀ order ∈ m.orders, 0 < order.id.toInt ∧ order.id.toInt < m.nextOrderId.toInt
  orders : s.db.orders = m.orders.map rowOf
  items : s.db.orderItems = rowsOf m.orders

theorem itemOfRow_orderItemRow (orderId : Int32) (item : OrderItem) :
    itemOfRow (orderItemRow orderId item) = item := by
  simp only [itemOfRow, orderItemRow, atoi_toInt]

theorem orderOfRow_rowOf (order : Order) : orderOfRow (rowOf order) order.items = order := by
  simp only [orderOfRow, rowOf, atoi_toInt]

theorem nodup_ids {orders : List Order}
    (h : orders.Pairwise fun a b => a.id.toInt < b.id.toInt) : (orders.map Order.id).Nodup := by
  rw [List.Nodup, List.pairwise_map]
  refine h.imp fun hlt heq => ?_
  rw [heq] at hlt
  exact lt_irrefl _ hlt

theorem flatMap_items {orders : List Order} (h : (orders.map Order.id).Nodup) {order : Order}
    (horder : order ∈ orders) :
    (orders.flatMap fun other => if other.id = order.id then other.items else []) =
      order.items := by
  induction orders with
  | nil => cases horder
  | cons other rest ih =>
    rw [List.map_cons, List.nodup_cons] at h
    rw [List.flatMap_cons]
    rcases List.mem_cons.mp horder with rfl | hrest
    · have hnone : (rest.flatMap fun other =>
          if other.id = order.id then other.items else []) = [] := by
        rw [List.flatMap_eq_nil_iff]
        intro other hother
        exact if_neg fun hid => h.1 (List.mem_map.mpr ⟨other, hother, hid⟩)
      rw [if_pos rfl, hnone, List.append_nil]
    · have hne : ¬ other.id = order.id := fun hid =>
        h.1 (List.mem_map.mpr ⟨order, hrest, hid.symm⟩)
      rw [if_neg hne, List.nil_append, ih h.2 hrest]

/-- The rows with the id of an order are its items. -/
theorem filter_rowsOf {orders : List Order} (h : (orders.map Order.id).Nodup) {order : Order}
    (horder : order ∈ orders) :
    ((rowsOf orders).filter fun row => row.orderId = order.id.toInt).map itemOfRow =
      order.items := by
  have hone (other : Order) :
      ((other.items.map (orderItemRow other.id)).filter fun row =>
        row.orderId = order.id.toInt).map itemOfRow =
          if other.id = order.id then other.items else [] := by
    have hkey : ((fun row : OrderItemRow => decide (row.orderId = order.id.toInt)) ∘
        orderItemRow other.id) = fun _ => decide (other.id = order.id) := by
      funext item
      simp only [Function.comp_apply, orderItemRow, Int32.toInt_inj]
    rw [List.filter_map, List.map_map, hkey]
    by_cases hid : other.id = order.id
    · rw [if_pos hid, List.filter_eq_self.mpr fun _ _ => decide_eq_true hid]
      exact (List.map_congr_left fun item _ => itemOfRow_orderItemRow other.id item).trans
        (List.map_id _)
    · rw [if_neg hid, List.filter_eq_nil_iff.mpr fun _ _ hin => hid (of_decide_eq_true hin)]
      rfl
  rw [rowsOf, List.filter_flatMap, List.map_flatMap]
  simp only [hone]
  exact flatMap_items h horder

/-! ## The calls -/

section Calls

variable {m : MemoryOrders} {s : MySql}

theorem Mirrors.nodup (h : Mirrors m s) : (m.orders.map Order.id).Nodup := nodup_ids h.increasing

theorem Mirrors.later (h : Mirrors m s) (c : ℕ) : Mirrors m { s with clock := c } :=
  ⟨fun n => h.reliable n, h.next, h.positive, h.increasing, h.range, h.orders, h.items⟩

theorem Mirrors.items_read (h : Mirrors m s) {order : Order} (horder : order ∈ m.orders) :
    (s.db.orderItems.filter fun row => row.orderId = (atoi (rowOf order).id).toInt).map
      itemOfRow = order.items := by
  have hkey : (atoi (rowOf order).id).toInt = order.id.toInt := by
    rw [rowOf, atoi_toInt]
  rw [hkey, h.items, filter_rowsOf h.nodup horder]

theorem Mirrors.find (h : Mirrors m s) (orderId : Int32) :
    orderAt s.db orderId = m.findOrder orderId := by
  rw [orderAt, MemoryOrders.findOrder]
  by_cases hid : orderId ≤ 0
  · rw [if_pos hid, eq_comm, List.find?_eq_none]
    intro order horder hsame
    have hpos := (h.range order horder).1
    have hle := Int32.le_iff_toInt_le.mp hid
    rw [of_decide_eq_true hsame] at hpos
    rw [Int32.toInt_zero] at hle
    omega
  · rw [if_neg hid, h.orders, List.find?_map, Option.map_map]
    have hpred : ((fun row : OrderRow => decide (row.id = orderId.toInt)) ∘ rowOf) =
        fun order : Order => decide (order.id = orderId) := by
      funext order
      simp only [Function.comp_apply, rowOf, Int32.toInt_inj]
    rw [hpred]
    cases hfind : m.orders.find? fun order => order.id = orderId with
    | none => rfl
    | some order =>
      have hitems := h.items_read (List.mem_of_find?_eq_some hfind)
      simp only [Option.map_some, Function.comp_apply, hitems, orderOfRow_rowOf]

theorem run_findOrder_mirrors (h : Mirrors m s) (orderId : Int32) :
    ∃ c, (MysqlOrders.findOrder orderId).run s = (m.findOrder orderId, { s with clock := c }) := by
  obtain ⟨r, c, hrun, hread⟩ := findOrder_spec orderId s
  exact ⟨c, by rw [hrun, hread h.reliable, h.find]⟩

theorem fetchOrderItems_mirrors (h : Mirrors m s) {order : Order} (horder : order ∈ m.orders) :
    exec (fetchOrderItems (atoi (rowOf order).id)) none s = ((order.items, none), s.tick) := by
  have hselect := query_accepted (selectOrderItems (atoi (rowOf order).id).toInt) none s
    (h.reliable _) rfl
  rw [fetchOrderItems, exec_bind, hselect]
  exact congrArg (fun items => ((items, none), s.tick)) (h.items_read horder)

theorem fetchAll_mirrors (h : Mirrors m s) (orders : List Order) (horders : orders ⊆ m.orders) :
    ∃ c, exec (fetchAll (orders.map rowOf)) none s = ((orders, none), { s with clock := c }) := by
  induction orders generalizing s with
  | nil => exact ⟨s.clock, rfl⟩
  | cons order rest ih =>
    obtain ⟨horder, hrest⟩ := List.cons_subset.mp horders
    obtain ⟨c, hexec⟩ := @ih s.tick (h.later _) hrest
    refine ⟨c, ?_⟩
    simp only [List.map_cons, fetchAll, exec_bind, fetchOrderItems_mirrors h horder, hexec,
      orderOfRow_rowOf, exec_pure]
    rfl

/-- The keys go up in the order of the rows, so that the last row comes first. -/
theorem sorted_rows (h : Mirrors m s) :
    (s.db.orders.mergeSort fun a b => b.id ≤ a.id) = m.orders.reverse.map rowOf := by
  have hdescending : (m.orders.reverse.map rowOf).Pairwise fun a b => b.id < a.id := by
    rw [List.pairwise_map, List.pairwise_reverse]
    exact h.increasing
  have hperm : (s.db.orders.mergeSort fun a b => b.id ≤ a.id).Perm
      (m.orders.reverse.map rowOf) := by
    rw [h.orders]
    exact (List.mergeSort_perm _ _).trans ((List.reverse_perm _).symm.map rowOf)
  have hsorted := @List.pairwise_mergeSort _ (fun a b : OrderRow => decide (b.id ≤ a.id))
    (fun a b c hab hbc => decide_eq_true (le_trans (of_decide_eq_true hbc)
      (of_decide_eq_true hab)))
    (fun a b => by
      rw [Bool.or_eq_true, decide_eq_true_eq, decide_eq_true_eq]
      exact le_total b.id a.id) s.db.orders
  refine List.Perm.eq_of_pairwise ?_ (hsorted.imp fun hle => of_decide_eq_true hle)
    (hdescending.imp le_of_lt) hperm
  intro a b ha hb hab hba
  obtain ⟨x, hx, rfl⟩ := List.mem_map.mp (hperm.subset ha)
  obtain ⟨y, hy, rfl⟩ := List.mem_map.mp hb
  have hid : x.id = y.id := Int32.toInt_inj.mp (le_antisymm hba hab)
  rw [List.inj_on_of_nodup_map h.nodup (List.mem_reverse.mp hx) (List.mem_reverse.mp hy) hid]

theorem run_listOrders_mirrors (h : Mirrors m s) :
    ∃ c, MysqlOrders.listOrders.run s = (m.orders.reverse, { s with clock := c }) := by
  have hselect := query_accepted selectOrders none s (h.reliable _) rfl
  obtain ⟨c, hexec⟩ := fetchAll_mirrors (s := s.tick) (h.later _) m.orders.reverse
    fun order horder => List.mem_reverse.mp horder
  refine ⟨c, ?_⟩
  rw [MysqlOrders.listOrders, run_withConnection, exec_bind, hselect]
  change ((exec (fetchAll (s.db.orders.mergeSort fun a b => b.id ≤ a.id)) none s.tick).1.1,
    (exec (fetchAll (s.db.orders.mergeSort fun a b => b.id ≤ a.id)) none s.tick).2) = _
  rw [sorted_rows h, hexec]
  rfl

/-! ### Cancelling -/

theorem markCancelled_eq {orders : List Order} (h : (orders.map Order.id).Nodup)
    (orderId : Int32) : MemoryOrders.markCancelled orderId orders =
      orders.map fun order =>
        if order.id = orderId then { order with status := "cancelled" } else order := by
  induction orders with
  | nil => rfl
  | cons order rest ih =>
    rw [List.map_cons, List.nodup_cons] at h
    rw [MemoryOrders.markCancelled, List.map_cons]
    by_cases hid : order.id = orderId
    · have hrest : (rest.map fun other =>
          if other.id = orderId then { other with status := "cancelled" } else other) = rest := by
        refine (List.map_congr_left fun other hother => if_neg fun hsame => h.1 ?_).trans
          (List.map_id rest)
        exact List.mem_map.mpr ⟨other, hother, hsame.trans hid.symm⟩
      rw [if_pos hid, if_pos hid, hrest]
    · rw [if_neg hid, if_neg hid, ih h.2]

theorem Mirrors.cancelled (h : Mirrors m s) (orderId : Int32) (c : ℕ) :
    Mirrors (m.cancelOrder orderId).2
      { s with db := (cancelOrderRow orderId.toInt).effect s.db, clock := c } := by
  have hmark := markCancelled_eq h.nodup orderId
  have hid (order : Order) : (if order.id = orderId then { order with status := "cancelled" }
      else order : Order).id = order.id := by
    split <;> rfl
  refine ⟨fun n => h.reliable n, h.next, h.positive, ?_, ?_, ?_, ?_⟩
  · change (MemoryOrders.markCancelled orderId m.orders).Pairwise _
    rw [hmark, List.pairwise_map]
    refine h.increasing.imp fun hlt => ?_
    rwa [hid, hid]
  · change ∀ order ∈ MemoryOrders.markCancelled orderId m.orders, _
    rw [hmark]
    intro order horder
    obtain ⟨old, hold, rfl⟩ := List.mem_map.mp horder
    rw [hid]
    exact h.range old hold
  · change _ = (MemoryOrders.markCancelled orderId m.orders).map rowOf
    simp only [cancelOrderRow, h.orders, hmark, List.map_map]
    refine List.map_congr_left fun order _ => ?_
    simp only [Function.comp_apply]
    have hkey : (rowOf order).id = orderId.toInt ↔ order.id = orderId := Int32.toInt_inj
    by_cases hsame : order.id = orderId
    · rw [if_pos hsame, if_pos (hkey.mpr hsame)]
      rfl
    · rw [if_neg hsame, if_neg fun hrow => hsame (hkey.mp hrow)]
  · change s.db.orderItems = rowsOf (MemoryOrders.markCancelled orderId m.orders)
    rw [h.items, hmark, rowsOf, rowsOf, List.flatMap_map]
    refine List.flatMap_congr fun order _ => ?_
    split <;> rfl

theorem run_cancelOrder_mirrors (h : Mirrors m s) (orderId : Int32) :
    ∃ s', (MysqlOrders.cancelOrder orderId).run s = ((m.cancelOrder orderId).1, s') ∧
      Mirrors (m.cancelOrder orderId).2 s' ∧ SameStock s.db s'.db := by
  obtain ⟨r, db', c, hrun, _, hspec⟩ := cancelOrder_spec orderId s
  by_cases hpos : 0 < orderId.toInt
  · obtain ⟨rfl, hr⟩ := hspec h.reliable hpos
    have hmirrors := h.cancelled orderId c
    rw [hrun, hr, hmirrors.find orderId]
    exact ⟨_, rfl, hmirrors, ⟨rfl, rfl, rfl, rfl, rfl⟩⟩
  · have hle : orderId ≤ 0 := by
      rw [Int32.le_iff_toInt_le, Int32.toInt_zero]
      omega
    have hnone : ∀ order ∈ m.orders, ¬ order.id = orderId := by
      rintro order horder rfl
      exact hpos (h.range order horder).1
    have hmark : MemoryOrders.markCancelled orderId m.orders = m.orders := by
      rw [markCancelled_eq h.nodup]
      exact (List.map_congr_left fun order horder => if_neg (hnone order horder)).trans
        (List.map_id _)
    have hsame : m.cancelOrder orderId = (none, m) := by
      rw [MemoryOrders.cancelOrder, hmark, MemoryOrders.findOrder]
      exact congrArg (·, m) (List.find?_eq_none.mpr fun order horder hid =>
        hnone order horder (of_decide_eq_true hid))
    rw [hsame, MysqlOrders.cancelOrder, if_pos hle]
    exact ⟨s, rfl, h, .refl _⟩

/-! ### Creating -/

theorem next_toInt {id : Int32} (hpositive : 0 < id.toInt) (hroom : id.toInt < 2147483647) :
    (id + 1).toInt = id.toInt + 1 := by
  have hone : (1 : Int32).toInt = 1 := rfl
  have hadd := MachineInt.toInt_add_of_fits id 1 (by omega)
    (by unfold MachineInt.intMax; omega)
  rwa [hone] at hadd

theorem insertItems_accepted (orderId : Int32) (items : List OrderItem) (f : Db → Db)
    (hreliable : s.Reliable) (hparent : ∃ order ∈ (f s.db).orders, order.id = orderId.toInt)
    (hitems : ∀ item ∈ items, ((f s.db).books item.bookId.toInt).isSome ∧
      0 ≤ item.quantity.toInt ∧ 0 ≤ item.unitPriceCents.toInt ∧
      0 ≤ (item.quantity * item.unitPriceCents).toInt) :
    (exec (insertItems orderId items) (some f) s).1.1 = true := by
  induction items generalizing f s with
  | nil => rfl
  | cons item rest ih =>
    obtain ⟨⟨hbook, hquantity, hprice, hline⟩, hrest⟩ := List.forall_mem_cons.mp hitems
    have hunsigned (value : Int32) (hvalue : 0 ≤ value.toInt) : IsUnsigned value.toInt := by
      have hlt := value.toInt_lt
      exact ⟨hvalue, by unfold unsignedMax; omega⟩
    have hresult : (insertOrderItem (orderItemRow orderId item)).result (f s.db) = some () := by
      obtain ⟨order, horder, hid⟩ := hparent
      refine if_pos ⟨List.any_eq_true.mpr ⟨order, horder, decide_eq_true hid⟩, hbook,
        hunsigned _ hquantity, hunsigned _ hprice, hunsigned _ hline⟩
    have hinsert := query_accepted (insertOrderItem (orderItemRow orderId item)) (some f) s
      (hreliable _) hresult
    rw [insertItems, exec_bind, hinsert]
    exact @ih s.tick ((insertOrderItem (orderItemRow orderId item)).effect ∘ f)
      (fun n => hreliable n) hparent hrest

theorem Mirrors.insertable (h : Mirrors m s) {userId : Int32} {items : List OrderItem}
    {totalCents : Int32} (hstorable : Storable s.db userId items totalCents)
    (hroom : m.nextOrderId.toInt < 2147483647) :
    (insertOrder userId.toInt totalCents.toInt (s.nextKey .orders)).result s.db = some () := by
  have hlt := totalCents.toInt_lt
  have hpositive := h.positive
  have hnew : s.db.orders.all (fun order => !(order.id = s.nextKey .orders)) = true := by
    rw [List.all_eq_true, h.orders]
    intro row hrow
    obtain ⟨order, horder, rfl⟩ := List.mem_map.mp hrow
    have hdiff : ¬ (rowOf order).id = s.nextKey .orders := by
      rw [h.next, rowOf]
      exact ne_of_lt (h.range order horder).2
    simp [hdiff]
  refine if_pos ⟨hstorable.user, ⟨hstorable.total, ?_⟩, ⟨?_, ?_⟩, hnew⟩
  · unfold unsignedMax
    omega
  · rw [h.next]
    omega
  · rw [h.next]
    unfold unsignedMax
    omega

theorem insertOrderRows_accepted (h : Mirrors m s) {userId : Int32} {items : List OrderItem}
    {totalCents : Int32} (hstorable : Storable s.db userId items totalCents)
    (hroom : m.nextOrderId.toInt < 2147483647) :
    (exec (insertOrderRows userId items totalCents) (some id) s).1.1 =
      some (atoi (s.nextKey .orders)) := by
  have hkey : s.nextKey .orders = (atoi (s.nextKey .orders)).toInt := by
    rw [h.next, atoi_toInt]
  have hkeyed := insertKeyed_accepted .orders (insertOrder userId.toInt totalCents.toInt) id s
    (h.reliable _) (h.insertable hstorable hroom)
  have hitems := insertItems_accepted
    (s := { s.tick with nextKey := Function.update s.nextKey .orders (s.nextKey .orders + 1) })
    (atoi (s.nextKey .orders)) items
    ((insertOrder userId.toInt totalCents.toInt (s.nextKey .orders)).effect ∘ id)
    (fun n => h.reliable n)
    ⟨_, List.mem_append_right _ (List.mem_singleton_self _), hkey⟩ hstorable.items
  rw [insertOrderRows, exec_bind, hkeyed]
  dsimp only
  rw [exec_bind, hitems]
  rfl

theorem createOrder_accepted (h : Mirrors m s) {userId : Int32} {items : List OrderItem}
    {totalCents : Int32} (hguard : ¬ (userId ≤ 0 ∨ items = []))
    (hstorable : Storable s.db userId items totalCents)
    (hroom : m.nextOrderId.toInt < 2147483647) :
    ((MysqlOrders.createOrder userId items totalCents).run s).1 ≠ none := by
  have hrows := insertOrderRows_accepted (s := s.tick) (h.later _) hstorable hroom
  obtain ⟨r, g, c, nextKey, hexec, _⟩ := insertOrderRows_spec userId items totalCents id s.tick
  have hcommit := commit_accepted g { s.tick with nextKey := nextKey, clock := c } (h.reliable c)
  rw [hexec] at hrows
  have hr : r = some (atoi (s.nextKey .orders)) := hrows
  rw [MysqlOrders.createOrder, if_neg hguard, run_withConnection, exec_bind,
    startTransaction_accepted none s (h.reliable _)]
  dsimp only
  rw [if_pos rfl, exec_bind, hexec, hr]
  dsimp only
  rw [exec_bind, hcommit]
  exact Option.some_ne_none _

theorem run_createOrder_mirrors (h : Mirrors m s) {userId : Int32} {items : List OrderItem}
    {totalCents : Int32} (haccepts : Accepts s.db (.createOrder userId items totalCents))
    (hroom : m.nextOrderId.toInt < 2147483647) :
    ∃ s', (MysqlOrders.createOrder userId items totalCents).run s =
        ((m.createOrder userId items totalCents).1, s') ∧
      Mirrors (m.createOrder userId items totalCents).2 s' ∧ SameStock s.db s'.db := by
  by_cases hguard : userId ≤ 0 ∨ items = []
  · rw [MysqlOrders.createOrder, if_pos hguard, MemoryOrders.createOrder, if_pos hguard]
    exact ⟨s, rfl, h, .refl _⟩
  · have huser : 0 < userId := Int32.not_le.mp fun hle => hguard (.inl hle)
    have hsome := createOrder_accepted h hguard
      (haccepts huser fun hnil => hguard (.inr hnil)) hroom
    obtain ⟨r, db', c, nextKey, hrun, _, ⟨rfl, _⟩ | ⟨rfl, rfl, hstored⟩⟩ :=
      createOrder_spec userId items totalCents s
    · rw [hrun] at hsome
      exact absurd rfl hsome
    · have hkey : atoi (s.nextKey .orders) = m.nextOrderId := by
        rw [h.next, atoi_toInt]
      have hnext : (m.nextOrderId + 1).toInt = m.nextOrderId.toInt + 1 := by
        exact next_toInt h.positive hroom
      rw [hrun, MemoryOrders.createOrder, if_neg hguard, hkey]
      refine ⟨_, rfl, ⟨fun n => h.reliable n, ?_, ?_, ?_, ?_, ?_, ?_⟩, hstored.stock⟩
      · rw [hnext, ← h.next]
        exact Function.update_self Table.orders _ s.nextKey
      · have hpositive := h.positive
        change 0 < (m.nextOrderId + 1).toInt
        omega
      · refine List.pairwise_append.mpr ⟨h.increasing, List.pairwise_singleton _ _, ?_⟩
        intro order horder new hnew
        rw [List.mem_singleton.mp hnew]
        exact (h.range order horder).2
      · intro order horder
        change 0 < order.id.toInt ∧ order.id.toInt < (m.nextOrderId + 1).toInt
        rw [hnext]
        rcases List.mem_append.mp horder with hold | hnew
        · have hrange := h.range order hold
          omega
        · have hpositive := h.positive
          rw [List.mem_singleton.mp hnew]
          dsimp only
          omega
      · change db'.orders = (m.orders ++ [_]).map rowOf
        rw [hstored.orders, h.orders, List.map_append, h.next]
        rfl
      · change db'.orderItems = rowsOf (m.orders ++ [_])
        rw [hstored.rows, h.items, hkey, rowsOf, rowsOf, List.flatMap_append]
        exact congrArg (_ ++ ·) (List.append_nil _).symm

end Calls

/-! ## Runs -/

theorem Storable.of_same {db db' : Db} (h : SameStock db db') {userId : Int32}
    {items : List OrderItem} {totalCents : Int32} (hs : Storable db userId items totalCents) :
    Storable db' userId items totalCents :=
  ⟨by rw [h.users]; exact hs.user, hs.total, fun item hitem => by
    rw [h.books]
    exact hs.items item hitem⟩

theorem Accepts.of_same {db db' : Db} (h : SameStock db db') {c : Call} (hc : Accepts db c) :
    Accepts db' c := by
  cases c with
  | createOrder userId items totalCents =>
    exact fun huser hne => (hc huser hne).of_same h
  | listOrders => trivial
  | findOrder orderId => trivial
  | cancelOrder orderId => trivial

theorem nextOrderId_le (m : MemoryOrders) (c : Call) (hpositive : 0 < m.nextOrderId.toInt)
    (hroom : m.nextOrderId.toInt < 2147483647) :
    ((perform MemoryOrders.repository c).run m).2.nextOrderId.toInt ≤ m.nextOrderId.toInt + 1 := by
  cases c with
  | createOrder userId items totalCents =>
    change (m.createOrder userId items totalCents).2.nextOrderId.toInt ≤ _
    rw [MemoryOrders.createOrder]
    split
    · exact Int.le_add_one (le_refl _)
    · exact (next_toInt hpositive hroom).le
  | listOrders => exact Int.le_add_one (le_refl _)
  | findOrder orderId => exact Int.le_add_one (le_refl _)
  | cancelOrder orderId => exact Int.le_add_one (le_refl _)

/-- One call. -/
theorem run_perform {m : MemoryOrders} {s : MySql} (h : Mirrors m s) {c : Call}
    (hc : Accepts s.db c) (hroom : m.nextOrderId.toInt < 2147483647) :
    ∃ s', (perform MysqlOrders.repository c).run s =
        (((perform MemoryOrders.repository c).run m).1.newestFirst, s') ∧
      Mirrors ((perform MemoryOrders.repository c).run m).2 s' ∧ SameStock s.db s'.db := by
  cases c with
  | createOrder userId items totalCents =>
    obtain ⟨s', hrun, hmirrors, hsame⟩ := run_createOrder_mirrors h hc hroom
    refine ⟨s', ?_, hmirrors, hsame⟩
    have hrun' : (MysqlOrders.repository.createOrder userId items totalCents).run s = _ := hrun
    rw [perform, Prog.run_bind, hrun']
    rfl
  | listOrders =>
    obtain ⟨c, hrun⟩ := run_listOrders_mirrors h
    refine ⟨_, ?_, h.later c, .refl _⟩
    have hrun' : MysqlOrders.repository.listOrders.run s = _ := hrun
    rw [perform, Prog.run_bind, hrun']
    rfl
  | findOrder orderId =>
    obtain ⟨c, hrun⟩ := run_findOrder_mirrors h orderId
    refine ⟨_, ?_, h.later c, .refl _⟩
    have hrun' : (MysqlOrders.repository.findOrder orderId).run s = _ := hrun
    rw [perform, Prog.run_bind, hrun']
    rfl
  | cancelOrder orderId =>
    obtain ⟨s', hrun, hmirrors, hsame⟩ := run_cancelOrder_mirrors h orderId
    refine ⟨s', ?_, hmirrors, hsame⟩
    have hrun' : (MysqlOrders.repository.cancelOrder orderId).run s = _ := hrun
    rw [perform, Prog.run_bind, hrun']
    rfl

theorem replies_mirror {m : MemoryOrders} {s : MySql} (h : Mirrors m s) (calls : List Call)
    (haccepts : ∀ c ∈ calls, Accepts s.db c)
    (hroom : m.nextOrderId.toInt + calls.length ≤ 2147483647) :
    ∃ s', replies MysqlOrders.repository s calls =
        ((replies MemoryOrders.repository m calls).1.map Reply.newestFirst, s') ∧
      Mirrors (replies MemoryOrders.repository m calls).2 s' := by
  induction calls generalizing m s with
  | nil => exact ⟨s, rfl, h⟩
  | cons c rest ih =>
    obtain ⟨hc, hrest⟩ := List.forall_mem_cons.mp haccepts
    rw [List.length_cons] at hroom
    obtain ⟨t, hrun, hmirrors, hsame⟩ := run_perform h hc (by omega)
    have hnext := nextOrderId_le m c h.positive (by omega)
    obtain ⟨u, hreplies, hu⟩ := ih hmirrors (fun d hd => (hrest d hd).of_same hsame) (by omega)
    refine ⟨u, ?_, hu⟩
    simp only [replies, hrun, hreplies, List.map_cons]

/-- A shop that opens with either repository answers the same. -/
theorem orders_agree {s : MySql} (hreliable : s.Reliable) (hkey : s.nextKey .orders = 1)
    (horders : s.db.orders = []) (hitems : s.db.orderItems = []) (calls : List Call)
    (haccepts : ∀ c ∈ calls, Accepts s.db c) (hcount : calls.length < 2147483647) :
    (replies MysqlOrders.repository s calls).1 =
      (replies MemoryOrders.repository .empty calls).1.map Reply.newestFirst := by
  have hempty : Mirrors .empty s :=
    ⟨hreliable, hkey, by decide, .nil, by simp [MemoryOrders.empty], horders, hitems⟩
  have hone : MemoryOrders.empty.nextOrderId.toInt = 1 := rfl
  obtain ⟨s', hreplies, _⟩ := replies_mirror hempty calls haccepts (by omega)
  rw [hreplies]

/-- One user and one book. -/
def openShop : MySql where
  db := {
    users := fun id => id = 1
    books := fun id => if id = 7 then some ⟨"Dune", "Herbert", 900, 5, "active"⟩ else none
    inventory := fun id => if id = 7 then some 5 else none
    reservations := fun _ => none
    reservationItems := []
    orders := []
    orderItems := [] }
  nextKey := fun _ => 1
  faults := fun _ => false
  clock := 0

def firstCalls : List Call :=
  [.createOrder 1 [⟨7, 2, 900⟩] 1800, .createOrder 0 [⟨8, 1, 1⟩] 1, .createOrder 1 [⟨7, 1, 900⟩] 900,
    .cancelOrder 1, .listOrders, .findOrder 1]

theorem openShop_agrees : (replies MysqlOrders.repository openShop firstCalls).1 =
    (replies MemoryOrders.repository .empty firstCalls).1.map Reply.newestFirst := by
  refine orders_agree (fun _ => rfl) rfl rfl rfl firstCalls ?_ (by decide)
  have hfirst : Accepts openShop.db (.createOrder 1 [⟨7, 2, 900⟩] 1800) := fun _ _ =>
    ⟨rfl, by decide, List.forall_mem_singleton.mpr (by decide)⟩
  have hthird : Accepts openShop.db (.createOrder 1 [⟨7, 1, 900⟩] 900) := fun _ _ =>
    ⟨rfl, by decide, List.forall_mem_singleton.mpr (by decide)⟩
  simp only [firstCalls, List.forall_mem_cons]
  exact ⟨hfirst, fun huser => absurd huser (by decide), hthird, trivial, trivial, trivial, by simp⟩

end Bookstore.OrderBackends
