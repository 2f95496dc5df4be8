import Bookstore.MysqlOrders
import Bookstore.OverlappingCancels

/-!
The two order repositories under interleaved requests. MemoryOrderRepository
looks up and marks an order in one step each. MysqlOrderRepository takes one
step for each SQL statement: two to look up an order, three to mark it and to
read it back. Neither tells the caller whether it was this call that changed
the status, so two overlapping cancellations both release the items.
-/
namespace Bookstore.CancelSchedules

open CancelOnce Database Interleaving MysqlInventory MysqlOrders OverlappingCancels Protocols
open Records Repositories Transactions Transactions.Session

/-! ## MemoryOrderRepository -/

def memoryView : OrderView MemoryOrders where
  find := MemoryOrders.findOrder
  good s := ∀ order ∈ s.orders, ∀ item ∈ order.items, 0 ≤ item.quantity.toInt
  nonneg _ _ order hgood hfind := hgood order (List.mem_of_find?_eq_some hfind)

theorem good_markCancelled (s : MemoryOrders) (o' : Int32) (h : memoryView.good s) :
    memoryView.good ⟨s.nextOrderId, MemoryOrders.markCancelled o' s.orders⟩ := by
  obtain ⟨next, orders⟩ := s
  simp only [memoryView] at h ⊢
  induction orders with
  | nil => exact h
  | cons order rest ih =>
    have hrest := ih fun x hx => h x (List.mem_cons_of_mem _ hx)
    unfold MemoryOrders.markCancelled
    split
    · intro x hx
      rcases List.mem_cons.mp hx with rfl | hmem
      · exact h order List.mem_cons_self
      · exact h x (List.mem_cons_of_mem _ hmem)
    · intro x hx
      rcases List.mem_cons.mp hx with rfl | hmem
      · exact h x List.mem_cons_self
      · exact hrest x hmem

theorem steady_createOrder (o userId total : Int32) (items : List OrderItem) (s : MemoryOrders)
    (hitems : ∀ item ∈ items, 0 < item.quantity.toInt) :
    memoryView.Steady o s (MemoryOrders.createOrder userId items total s).2 := by
  unfold MemoryOrders.createOrder
  split
  · exact .refl memoryView o s
  · have hgood : memoryView.good s → memoryView.good
        ⟨s.nextOrderId + 1, s.orders ++ [⟨s.nextOrderId, userId, items, total, "created"⟩]⟩ := by
      intro h order horder
      rcases List.mem_append.mp horder with hold | hnew
      · exact h order hold
      · rw [List.mem_singleton.mp hnew]
        exact fun item hitem => (hitems item hitem).le
    cases hfind : s.orders.find? (fun order => order.id = o) with
    | some order =>
      refine .of_find hgood ?_
      simp [memoryView, MemoryOrders.findOrder, List.find?_append, hfind]
    | none =>
      by_cases hid : s.nextOrderId = o
      · have hnew : memoryView.find
            ⟨s.nextOrderId + 1, s.orders ++ [⟨s.nextOrderId, userId, items, total, "created"⟩]⟩ o =
            some ⟨s.nextOrderId, userId, items, total, "created"⟩ := by
          simp [memoryView, MemoryOrders.findOrder, List.find?_append, hfind, hid]
        exact .of_new hgood hfind hnew (show "created" ≠ "cancelled" by decide)
      · refine .of_find hgood ?_
        simp [memoryView, MemoryOrders.findOrder, List.find?_append, hfind, hid]

theorem memory_disciplined : Disciplined memoryView 1 MemoryOrders.repository where
  create o n userId items total hitems := by
    apply Follows.call
    intro s _
    exact ⟨.bystander, .pass (steady_createOrder o userId total items s hitems), rfl⟩
  findOther o n o' ho := by
    apply Follows.call
    intro s _
    exact ⟨.bystander, .pass (.refl memoryView o s), rfl⟩
  cancelOther o n o' ho := by
    apply Follows.call
    intro s _
    refine ⟨.bystander, .pass (.of_find (good_markCancelled s o') ?_), rfl⟩
    simp only [memoryView, MemoryOrders.cancelOrder, MemoryOrders.findOrder,
      MemoryOrders.find_markCancelled, ho, if_false, Option.map_id']
  find o _ := by
    apply Follows.call
    intro s _
    cases hfind : s.findOrder o with
    | none => exact ⟨.bystander, .leave (.refl memoryView o s), .inl ⟨rfl, by simp [hfind]⟩⟩
    | some order =>
      by_cases hstatus : order.status = "cancelled"
      · refine ⟨.bystander, .leave (.refl memoryView o s), .inl ⟨rfl, ?_⟩⟩
        intro order' h
        rw [← Option.some.inj (hfind.symm.trans h)]
        exact hstatus
      · exact ⟨.armed, .look (.refl memoryView o s) ⟨order, hfind, hstatus⟩ (le_refl 1),
          .inr ⟨rfl, order, hfind, hstatus⟩⟩
  cancel o n _ := by
    apply Follows.call
    intro s hpre
    obtain ⟨order, hfind⟩ := Option.isSome_iff_exists.mp (hpre.2.1 rfl)
    have hmarked : memoryView.find (MemoryOrders.cancelOrder o s).2 o =
        some { order with status := "cancelled" } := by
      have hold : s.orders.find? (fun order => order.id = o) = some order := hfind
      simp [memoryView, MemoryOrders.cancelOrder, MemoryOrders.findOrder,
        MemoryOrders.find_markCancelled, hold]
    have hgood := good_markCancelled s o
    have hreserved : ∀ book, memoryView.reserved (MemoryOrders.cancelOrder o s).2 o book =
        quantityOf book order.items := fun book => OrderView.reserved_of_find hmarked book
    refine ⟨.giving order.items, .markAndTake ⟨hgood, ⟨_, hmarked, rfl⟩, ?_⟩ ⟨?_, ?_⟩,
      .inr ⟨_, hmarked, rfl⟩⟩
    · intro _ book
      rw [hreserved book, OrderView.reserved_of_find hfind]
    · exact hpre.1 order (List.mem_of_find?_eq_some hfind)
    · exact fun book => (hreserved book).ge

/-! ## MysqlOrderRepository -/

def mysqlView : OrderView MySql where
  find m := orderAt m.db
  good m := ∀ row ∈ m.db.orderItems, 0 ≤ (atoi row.quantity).toInt
  nonneg m o order hgood hfind := by
    intro item hitem
    unfold orderAt at hfind
    split at hfind
    · cases hfind
    · obtain ⟨row, _, rfl⟩ := Option.map_eq_some_iff.mp hfind
      obtain ⟨itemRow, hrow, rfl⟩ := List.mem_map.mp hitem
      exact hgood itemRow (List.mem_filter.mp hrow).1

/-- Rows are only added: live orders, and items of no negative quantity. -/
structure Extends (db db' : Db) : Prop where
  orders : ∃ rows, db'.orders = db.orders ++ rows ∧ ∀ row ∈ rows, row.status ≠ "cancelled"
  items : ∃ rows, db'.orderItems = db.orderItems ++ rows ∧
    ∀ row ∈ rows, 0 ≤ (atoi row.quantity).toInt

theorem Extends.of_eq {db db' : Db} (horders : db'.orders = db.orders)
    (hitems : db'.orderItems = db.orderItems) : Extends db db' :=
  ⟨⟨[], by simp [horders]⟩, ⟨[], by simp [hitems]⟩⟩

theorem Extends.trans {a b c : Db} (h : Extends a b) (h' : Extends b c) : Extends a c := by
  obtain ⟨⟨rows, hrows, hlive⟩, ⟨items, hitems, hpos⟩⟩ := h
  obtain ⟨⟨rows', hrows', hlive'⟩, ⟨items', hitems', hpos'⟩⟩ := h'
  refine ⟨⟨rows ++ rows', by rw [hrows', hrows, List.append_assoc], ?_⟩,
    ⟨items ++ items', by rw [hitems', hitems, List.append_assoc], ?_⟩⟩
  · intro row hrow
    rcases List.mem_append.mp hrow with h | h
    · exact hlive row h
    · exact hlive' row h
  · intro row hrow
    rcases List.mem_append.mp hrow with h | h
    · exact hpos row h
    · exact hpos' row h

/-- Added rows leave the status of an order alone and take no item away. -/
theorem steady_of_extends (o : Int32) {m m' : MySql} (h : Extends m.db m'.db) :
    mysqlView.Steady o m m' := by
  obtain ⟨⟨rows, hrows, hlive⟩, ⟨items, hitems, hpos⟩⟩ := h
  have hgood : mysqlView.good m → mysqlView.good m' := by
    intro hold row hrow
    rw [hitems] at hrow
    rcases List.mem_append.mp hrow with h | h
    · exact hold row h
    · exact hpos row h
  by_cases hid : o ≤ 0
  · exact .of_find hgood (by simp [mysqlView, orderAt, hid])
  · cases hfind : m.db.orders.find? fun order => order.id = o.toInt with
    | some row =>
      have hfind' : m'.db.orders.find? (fun order => order.id = o.toInt) = some row := by
        rw [hrows, List.find?_append, hfind]
        rfl
      have hread : mysqlView.find m o = some (orderOfRow row ((m.db.orderItems.filter
          fun item => item.orderId = (atoi row.id).toInt).map itemOfRow)) := by
        simp [mysqlView, orderAt, hid, hfind]
      have hread' : mysqlView.find m' o = some (orderOfRow row ((m'.db.orderItems.filter
          fun item => item.orderId = (atoi row.id).toInt).map itemOfRow)) := by
        simp [mysqlView, orderAt, hid, hfind']
      refine ⟨hgood, by simp [hread'], ?_, ?_⟩
      · simp [OrderView.Cancelled, hread, hread', orderOfRow]
      · intro _ book
        simp only [OrderView.reserved, hread, hread', orderOfRow, hitems, List.filter_append,
          List.map_append, quantityOf_append]
        have hnew : 0 ≤ quantityOf book ((items.filter
            fun item => item.orderId = (atoi row.id).toInt).map itemOfRow) := by
          apply Tally.tally_nonneg
          intro item hitem
          obtain ⟨itemRow, hrow, rfl⟩ := List.mem_map.mp hitem
          exact hpos itemRow (List.mem_filter.mp hrow).1
        omega
    | none =>
      have hnone : mysqlView.find m o = none := by simp [mysqlView, orderAt, hid, hfind]
      cases hnew : rows.find? fun order => order.id = o.toInt with
      | none =>
        refine .of_find hgood ?_
        simp [mysqlView, orderAt, hid, hrows, List.find?_append, hfind, hnew]
      | some row =>
        refine .of_new hgood hnone (by
          simp only [mysqlView, orderAt, hid, if_false, hrows, List.find?_append, hfind, hnew]
          rfl) ?_
        exact hlive row (List.mem_of_find?_eq_some hnew)

theorem orderAt_cancelOrderRow (db : Db) (o' o : Int32) :
    orderAt ((cancelOrderRow o'.toInt).effect db) o =
      (orderAt db o).map fun order =>
        if o' = o then { order with status := "cancelled" } else order := by
  unfold orderAt
  split
  · rfl
  · have hsame : (fun order : OrderRow => decide (order.id = o.toInt)) ∘
        (fun order => if order.id = o'.toInt then { order with status := "cancelled" } else order) =
        fun order => decide (order.id = o.toInt) := by
      funext order
      simp only [Function.comp_apply]
      split <;> rfl
    simp only [cancelOrderRow, List.find?_map, hsame]
    cases hfind : db.orders.find? fun order => order.id = o.toInt with
    | none => rfl
    | some row =>
      have hid : row.id = o.toInt := by simpa using List.find?_some hfind
      simp only [Option.map_some, hid, Int32.toInt_inj, eq_comm (a := o)]
      by_cases ho : o' = o
      · simp [ho, orderOfRow, hid]
      · simp [ho, hid]

section Statements

variable (o : Int32)

abbrev mysqlProtocol : Protocol MySql Phase := storeProtocol mysqlView 2 o

/-- The redo log only adds rows. -/
def Extending : Redo Db → Prop
  | none => True
  | some f => ∀ db, Extends db (f db)

/-- A piece of SQL work that is a bystander of the order. -/
def Passive {α : Type} (body : Sql α) : Prop :=
  ∀ n redo, Extending redo → Follows (mysqlProtocol o)
    (fun phase _ r => phase = .bystander ∧ Extending r.2) .bystander n (body.run redo)

variable {o} {α β : Type}

theorem Passive.pure (a : α) : Passive o (pure a : Sql α) :=
  fun _ _ hredo => ⟨rfl, hredo⟩

theorem Passive.bind {body : Sql α} {k : α → Sql β} (hbody : Passive o body)
    (hk : ∀ a, Passive o (k a)) : Passive o (body >>= k) := by
  intro n redo hredo
  rw [StateT.run_bind]
  refine Follows.bind (hbody n redo hredo) ?_
  rintro phase n' r ⟨rfl, hr⟩
  exact hk r.1 n' r.2 hr

theorem Passive.query {stmt : Stmt Db α} (hstmt : ∀ db, Extends db (stmt.effect db)) :
    Passive o (query stmt) := by
  intro n redo hredo m _
  refine ⟨.bystander, .pass (steady_of_extends o ?_), rfl, ?_⟩
  · dsimp only
    split
    · exact .of_eq rfl rfl
    · split
      · exact .of_eq rfl rfl
      · cases redo with
        | none => exact hstmt m.db
        | some f => exact .of_eq rfl rfl
  · split
    · cases redo with
      | none => trivial
      | some f => exact fun db => (hredo db).trans (hstmt _)
    · exact hredo

theorem Passive.insertKeyed {table : Table} {stmt : ℤ → Stmt Db Unit}
    (hstmt : ∀ key db, Extends db ((stmt key).effect db)) : Passive o (insertKeyed table stmt) := by
  intro n redo hredo m _
  refine ⟨.bystander, .pass (steady_of_extends o ?_), rfl, ?_⟩
  · dsimp only
    split
    · exact .of_eq rfl rfl
    · split
      · exact .of_eq rfl rfl
      · cases redo with
        | none => exact hstmt _ m.db
        | some f => exact .of_eq rfl rfl
  · dsimp only
    split
    · exact hredo
    · cases redo with
      | none => trivial
      | some f => exact fun db => (hredo db).trans (hstmt _ _)

theorem Passive.startTransaction : Passive o (startTransaction : Sql Bool) := by
  intro n redo hredo m _
  refine ⟨.bystander, .pass (.of_find id rfl), rfl, ?_⟩
  split
  · exact fun db => .of_eq rfl rfl
  · exact hredo

theorem Passive.commit : Passive o (commit : Sql Bool) := by
  intro n redo hredo m _
  refine ⟨.bystander, .pass (steady_of_extends o ?_), rfl, ?_⟩
  · dsimp only
    split
    · exact .of_eq rfl rfl
    · cases redo with
      | none => exact .of_eq rfl rfl
      | some f => exact hredo m.db
  · split
    · trivial
    · exact hredo

theorem Passive.rollback : Passive o (rollback : Sql Unit) :=
  fun _ _ _ _ _ => ⟨.bystander, .pass (.of_find id rfl), rfl, trivial⟩

theorem follows_withConnection {Q : Phase → ℕ → α → Prop} {phase : Phase} {n : ℕ} {body : Sql α}
    (h : Follows (mysqlProtocol o) (fun phase n r => Q phase n r.1) phase n (body.run none)) :
    Follows (mysqlProtocol o) Q phase n (withConnection body) :=
  Follows.bind h fun _ _ _ hr => hr

theorem Passive.withConnection {body : Sql α} (h : Passive o body) {n : ℕ} :
    Follows (mysqlProtocol o) (fun phase _ _ => phase = .bystander) .bystander n
      (withConnection body) :=
  follows_withConnection ((h n none trivial).mono fun _ _ _ hr => hr.1)

theorem passive_insertItems (orderId : Int32) (items : List OrderItem)
    (hitems : ∀ item ∈ items, 0 < item.quantity.toInt) : Passive o (insertItems orderId items) := by
  induction items with
  | nil => exact .pure true
  | cons item rest ih =>
    refine .bind (.query ?_) ?_
    · intro db
      refine ⟨⟨[], by simp [insertOrderItem]⟩, ⟨[orderItemRow orderId item], rfl, ?_⟩⟩
      intro row hrow
      rw [List.mem_singleton.mp hrow]
      have hquantity : atoi (orderItemRow orderId item).quantity = item.quantity :=
        Int32.ofInt_toInt item.quantity
      rw [hquantity]
      exact (hitems item List.mem_cons_self).le
    · intro r
      cases r with
      | none => exact .pure false
      | some _ => exact ih fun x hx => hitems x (List.mem_cons_of_mem _ hx)

theorem passive_insertOrderRows (userId total : Int32) (items : List OrderItem)
    (hitems : ∀ item ∈ items, 0 < item.quantity.toInt) :
    Passive o (insertOrderRows userId items total) := by
  refine .bind (.insertKeyed ?_) ?_
  · intro key db
    refine ⟨⟨[⟨key, userId.toInt, "created", total.toInt⟩], rfl, ?_⟩, ⟨[], by simp [insertOrder]⟩⟩
    intro row hrow
    rw [List.mem_singleton.mp hrow]
    show "created" ≠ "cancelled"
    decide
  · intro r
    cases r with
    | none => exact .pure none
    | some key =>
      refine .bind (passive_insertItems (atoi key) items hitems) ?_
      intro ok
      cases ok with
      | false => exact .pure none
      | true => exact .pure (some (atoi key))

theorem passive_fetchOrderItems (orderId : Int32) : Passive o (fetchOrderItems orderId) := by
  refine .bind (.query fun db => .of_eq rfl rfl) ?_
  intro r
  cases r with
  | none => exact .pure []
  | some rows => exact .pure _

theorem follows_createOrder (n : ℕ) (userId total : Int32) (items : List OrderItem)
    (hitems : ∀ item ∈ items, 0 < item.quantity.toInt) :
    Follows (mysqlProtocol o) (fun phase _ _ => phase = .bystander) .bystander n
      (createOrder userId items total) := by
  unfold createOrder
  split
  · exact Follows.pure rfl
  · refine Passive.withConnection (.bind .startTransaction ?_)
    intro started
    cases started with
    | false => exact .pure none
    | true =>
      refine .bind (passive_insertOrderRows userId total items hitems) ?_
      intro r
      cases r with
      | none => exact .bind .rollback fun _ => .pure none
      | some orderId =>
        refine .bind .commit ?_
        intro committed
        cases committed with
        | true => exact .pure _
        | false => exact .bind .rollback fun _ => .pure none

theorem follows_findOther (n : ℕ) (o' : Int32) :
    Follows (mysqlProtocol o) (fun phase _ _ => phase = .bystander) .bystander n
      (findOrder o') := by
  unfold findOrder
  split
  · exact Follows.pure rfl
  · refine Passive.withConnection (.bind (.query fun db => .of_eq rfl rfl) ?_)
    intro r
    match r with
    | none => exact .pure none
    | some none => exact .pure none
    | some (some row) => exact .bind (passive_fetchOrderItems _) fun items => .pure _

theorem follows_cancelOther (n : ℕ) (o' : Int32) (ho : o' ≠ o) :
    Follows (mysqlProtocol o) (fun phase _ _ => phase = .bystander) .bystander n
      (cancelOrder o') := by
  unfold cancelOrder
  split
  · exact Follows.pure rfl
  · have hmark : Follows (mysqlProtocol o) (fun phase _ _ => phase = .bystander) .bystander n
        (withConnection (query (cancelOrderRow o'.toInt)) : Prog MySql (Option Unit)) := by
      intro m _
      refine ⟨.bystander, .pass ?_, rfl⟩
      dsimp only
      split
      · exact .of_find id rfl
      · refine .of_find id ?_
        simp only [mysqlView, cancelOrderRow, record, Server.tick]
        exact (orderAt_cancelOrderRow m.db o' o).trans (by simp [ho])
    refine Follows.bind hmark ?_
    rintro phase n' r rfl
    cases r with
    | none => exact Follows.pure rfl
    | some _ => exact follows_findOther n' o'

/-- The row that a SELECT on the order delivers. -/
theorem find_of_select {m : MySql} {row : OrderRow} (hid : ¬ o ≤ 0)
    (h : m.db.orders.find? (fun order => order.id = o.toInt) = some row) :
    atoi row.id = o ∧ mysqlView.find m o = some (orderOfRow row
      ((m.db.orderItems.filter fun item => item.orderId = o.toInt).map itemOfRow)) := by
  have hrow : row.id = o.toInt := by simpa using List.find?_some h
  have hkey : atoi row.id = o := by
    rw [hrow]
    exact Int32.ofInt_toInt o
  refine ⟨hkey, ?_⟩
  simp only [mysqlView, orderAt, hid, if_false, h, Option.map_some, hkey]

/-- The first SELECT: the request is armed when it reads a row that is not cancelled. -/
theorem follows_select (hid : ¬ o ≤ 0) :
    Follows (mysqlProtocol o)
      (fun phase n r => n = 1 ∧ r.2 = none ∧
        (phase = .bystander ∧ (∀ row, r.1 = some (some row) → row.status = "cancelled") ∨
          phase = .armed ∧ ∃ row, r.1 = some (some row) ∧ row.status ≠ "cancelled"))
      .fresh 0 ((query (selectOrder o.toInt)).run none) := by
  intro m _
  dsimp only
  split
  · exact ⟨.bystander, .leave (.of_find id rfl), rfl, rfl, .inl ⟨rfl, by simp⟩⟩
  · simp only [selectOrder, view_none]
    cases hfind : m.db.orders.find? fun order => order.id = o.toInt with
    | none => exact ⟨.bystander, .leave (.of_find id rfl), rfl, rfl, .inl ⟨rfl, by simp⟩⟩
    | some row =>
      by_cases hstatus : row.status = "cancelled"
      · exact ⟨.bystander, .leave (.of_find id rfl), rfl, rfl, .inl ⟨rfl, by simpa using hstatus⟩⟩
      · exact ⟨.armed, .look (.of_find id rfl) ⟨_, (find_of_select hid hfind).2, hstatus⟩
          (by decide), rfl, rfl, .inr ⟨rfl, row, rfl, hstatus⟩⟩

/-- A SELECT of the items changes no phase that the order store may stay in. -/
theorem follows_items {phase : Phase} {n : ℕ} (orderId : Int32)
    (hmove : ∀ m m' : MySql, m'.db = m.db → (mysqlProtocol o).pre phase m →
      (mysqlProtocol o).move phase n m phase m') :
    Follows (mysqlProtocol o) (fun phase' _ _ => phase' = phase) phase n
      ((fetchOrderItems orderId).run none) := by
  have hquery : Follows (mysqlProtocol o) (fun phase' _ _ => phase' = phase) phase n
      ((query (selectOrderItems orderId.toInt)).run none) := by
    intro m hpre
    refine ⟨phase, hmove m _ ?_ hpre, rfl⟩
    dsimp only
    split <;> rfl
  refine Follows.bind hquery ?_
  rintro phase' n' ⟨rows, redo⟩ rfl
  cases rows with
  | none => exact Follows.pure rfl
  | some rows => exact Follows.pure rfl

/-- Looking up the order, in two statements. -/
theorem follows_find (hid : ¬ o ≤ 0) :
    Follows (mysqlProtocol o)
      (fun phase _ r => phase = .bystander ∧ (∀ order, r = some order → order.status = "cancelled") ∨
        phase = .armed ∧ ∃ order, r = some order ∧ order.status ≠ "cancelled")
      .fresh 0 (findOrder o) := by
  simp only [findOrder, hid, if_false]
  refine follows_withConnection (Follows.bind (follows_select hid) ?_)
  rintro phase n ⟨r, redo⟩ ⟨rfl, hredo, ⟨rfl, hcancelled⟩ | ⟨rfl, row, hrow, hstatus⟩⟩
  · cases r with
    | none => exact Follows.pure (.inl ⟨rfl, by simp⟩)
    | some found =>
      cases found with
      | none => exact Follows.pure (.inl ⟨rfl, by simp⟩)
      | some row =>
        cases hredo
        refine Follows.bind ((passive_fetchOrderItems _) 1 none trivial) ?_
        rintro phase n items ⟨rfl, _⟩
        refine Follows.pure (.inl ⟨rfl, ?_⟩)
        rintro order ⟨⟩
        exact hcancelled row rfl
  · cases hrow
    cases hredo
    refine Follows.bind (follows_items _ ?_) ?_
    · intro m m' hdb _
      exact .hold (.of_find (by simp only [mysqlView, hdb, imp_self])
        (by simp only [mysqlView, hdb])) (le_refl _)
    · rintro phase n items rfl
      exact Follows.pure (.inr ⟨rfl, _, rfl, hstatus⟩)

/-- The UPDATE marks the order, whoever marked it before. -/
theorem follows_update (n : ℕ) :
    Follows (mysqlProtocol o)
      (fun phase _ r => phase = .bystander ∧ r = none ∨ phase = .marked ∧ r = some ())
      .armed n (withConnection (query (cancelOrderRow o.toInt)) : Prog MySql (Option Unit)) := by
  intro m hpre
  dsimp only
  split
  · exact ⟨.bystander, .yields (.of_find id rfl), .inl ⟨rfl, rfl⟩⟩
  · obtain ⟨order, hfind⟩ := Option.isSome_iff_exists.mp (hpre.2.1 rfl)
    have hfind' : mysqlView.find { m.tick with db := (cancelOrderRow o.toInt).effect m.db } o =
        some { order with status := "cancelled" } := by
      have hread := orderAt_cancelOrderRow m.db o o
      rw [show orderAt m.db o = some order from hfind] at hread
      simpa only [mysqlView, if_true, Option.map_some] using hread
    refine ⟨.marked, .mark ⟨id, ⟨_, hfind', rfl⟩, ?_⟩, .inr ⟨rfl, rfl⟩⟩
    intro _ book
    rw [OrderView.reserved_of_find hfind]
    exact (OrderView.reserved_of_find hfind' book).ge

/-- Reading the row back after the UPDATE. -/
theorem follows_reselect (hid : ¬ o ≤ 0) (n : ℕ) :
    Follows (mysqlProtocol o)
      (fun phase _ r => r.2 = none ∧ (phase = .bystander ∧ r.1 = none ∨
        phase = .marked ∧ ∃ row, r.1 = some (some row) ∧ atoi row.id = o))
      .marked n ((query (selectOrder o.toInt)).run none) := by
  intro m hpre
  dsimp only
  split
  · exact ⟨.bystander, .lose (.of_find id rfl), rfl, .inl ⟨rfl, rfl⟩⟩
  · simp only [selectOrder, view_none]
    obtain ⟨order, hfind, _⟩ := hpre.2.2 rfl
    simp only [mysqlView, orderAt, hid, if_false] at hfind
    obtain ⟨row, hrow, _⟩ := Option.map_eq_some_iff.mp hfind
    exact ⟨.marked, .wait (.of_find id rfl), rfl,
      .inr ⟨rfl, row, congrArg some hrow, (find_of_select hid hrow).1⟩⟩

/-- Reading the items back: they are the items of the order, or none at all. -/
theorem follows_reread (hid : ¬ o ≤ 0) (n : ℕ) :
    Follows (mysqlProtocol o) (fun phase _ r => phase = .giving r.1) .marked n
      ((fetchOrderItems o).run none) := by
  have hquery : Follows (mysqlProtocol o)
      (fun phase _ r => phase = .giving ((r.1.getD []).map itemOfRow)) .marked n
      ((query (selectOrderItems o.toInt)).run none) := by
    intro m hpre
    dsimp only
    split
    · refine ⟨.giving [], .take (.of_find id rfl) ⟨by simp, ?_⟩, rfl⟩
      exact fun book => mysqlView.reserved_nonneg hpre.1 o book
    · simp only [selectOrderItems, view_none]
      refine ⟨_, .take (.of_find id rfl) ⟨?_, ?_⟩, rfl⟩
      · intro item hitem
        obtain ⟨row, hrow, rfl⟩ := List.mem_map.mp hitem
        exact hpre.1 row (List.mem_filter.mp hrow).1
      · intro book
        obtain ⟨order, hfind, _⟩ := hpre.2.2 rfl
        have hread := hfind
        simp only [mysqlView, orderAt, hid, if_false] at hread
        obtain ⟨row, hrow, _⟩ := Option.map_eq_some_iff.mp hread
        exact (OrderView.reserved_of_find (find_of_select hid hrow).2 book).ge
  refine Follows.bind hquery ?_
  rintro phase n' ⟨rows, redo⟩ rfl
  cases rows with
  | none => exact Follows.pure rfl
  | some rows => exact Follows.pure rfl

/-- Cancelling the order: one statement to mark it, two to read it back. -/
theorem follows_cancelOrder (hid : ¬ o ≤ 0) (n : ℕ) :
    Follows (mysqlProtocol o)
      (fun phase _ r => phase = .bystander ∧ r = none ∨
        ∃ order, r = some order ∧ phase = .giving order.items)
      .armed n (cancelOrder o) := by
  simp only [cancelOrder, hid, if_false]
  refine Follows.bind (follows_update n) ?_
  rintro phase n r (⟨rfl, rfl⟩ | ⟨rfl, rfl⟩)
  · exact Follows.pure (.inl ⟨rfl, rfl⟩)
  · simp only [findOrder, hid, if_false]
    refine follows_withConnection (Follows.bind (follows_reselect hid n) ?_)
    rintro phase n ⟨r, redo⟩ ⟨hredo, ⟨rfl, hnone⟩ | ⟨rfl, row, hrow, hkey⟩⟩
    · cases hnone
      exact Follows.pure (.inl ⟨rfl, rfl⟩)
    · cases hredo
      cases hrow
      simp only [hkey]
      refine Follows.bind (follows_reread hid n) ?_
      rintro phase n ⟨items, redo⟩ rfl
      exact Follows.pure (.inr ⟨_, rfl, rfl⟩)

end Statements

theorem mysql_disciplined : Disciplined mysqlView 2 MysqlOrders.repository where
  create _ n userId items total hitems := follows_createOrder n userId total items hitems
  findOther _ n o' _ := follows_findOther n o'
  cancelOther _ n o' ho := follows_cancelOther n o' ho
  find _ hid := follows_find hid
  cancel _ n hid := follows_cancelOrder hid n

/-! ## Runs -/

/-- With either repository, along every run in which no cancel request reads
its order as not cancelled while another one is between reading and marking
it, no more is released on behalf of an order than it reserved. -/
theorem released_within_reserved {ι : Type} (client : InventoryClient ι) :
    (∀ (catalogue : MemoryOrders → ι → Int32 → Option Book) (start : Shop MemoryOrders ι)
        (c : Config Request (Shop MemoryOrders ι) (Option Order)),
      memoryView.good start.orders → start.ledger = [] →
      Runs (program MemoryOrders.repository catalogue client) (NoOverlap memoryView.find 1)
        ⟨start, []⟩ c →
      ∀ o book, c.state.released o book ≤ memoryView.reserved c.state.orders o book) ∧
    (∀ (catalogue : MySql → ι → Int32 → Option Book) (start : Shop MySql ι)
        (c : Config Request (Shop MySql ι) (Option Order)),
      mysqlView.good start.orders → start.ledger = [] →
      Runs (program MysqlOrders.repository catalogue client) (NoOverlap mysqlView.find 2)
        ⟨start, []⟩ c →
      ∀ o book, c.state.released o book ≤ mysqlView.reserved c.state.orders o book) :=
  ⟨fun _ _ _ hgood hledger hrun => released_le_reserved memory_disciplined hgood hledger hrun,
    fun _ _ _ hgood hledger hrun => released_le_reserved mysql_disciplined hgood hledger hrun⟩

section Apart

variable {τ ι : Type} {find : τ → Int32 → Option Order} {window : ℕ}
  {c : Config Request (Shop τ ι) (Option Order)}

theorem noOverlap_unread (h : ∀ t ∈ c.threads, t.steps = 0) (m : Move Request) :
    NoOverlap find window c m := by
  intro i t o order _ _ _ _ _ _ t' ht' hwindow
  have hlow := hwindow.2.1
  rw [h t' ht'] at hlow
  omega

theorem noOverlap_begun (i : ℕ) {t : Thread Request (Shop τ ι) (Option Order)}
    (ht : c.threads[i]? = some t) (hsteps : t.steps ≠ 0) : NoOverlap find window c (.step i) := by
  rintro i t' o order ⟨⟩ ht' _ hzero
  rw [ht] at ht'
  exact absurd (Option.some.inj ht' ▸ hzero) hsteps

theorem noOverlap_cancelled
    (h : ∀ o order, find c.state.orders o = some order → order.status = "cancelled")
    (m : Move Request) : NoOverlap find window c m :=
  fun _ _ o order _ _ _ _ hfind hlive => absurd (h o order hfind) hlive

end Apart

def smallInventory : MemoryInventory := ⟨fun book => if book = 1 then some 4 else none⟩

/-- One stored order of one copy, in memory and in the database. -/
def smallMemoryShop : Shop MemoryOrders MemoryInventory :=
  ⟨⟨2, [⟨1, 1, [⟨1, 1, 9800⟩], 9800, "created"⟩]⟩, smallInventory, 1, []⟩

def smallMysqlShop : Shop MySql MemoryInventory where
  orders := {
    db := {
      users := fun id => id = 1
      books := fun _ => none
      inventory := fun _ => none
      reservations := fun _ => none
      reservationItems := []
      orders := [⟨1, 1, "created", 9800⟩]
      orderItems := [⟨1, 1, 1, 9800, 9800⟩] }
    nextKey := fun _ => 2
    faults := fun _ => false
    clock := 0 }
  inventory := smallInventory
  nextId := 1
  ledger := []

def smallClient : InventoryClient MemoryInventory :=
  Services.localInventoryClient MemoryInventory.repository

def memoryProgram : Request → Prog (Shop MemoryOrders MemoryInventory) (Option Order) :=
  program MemoryOrders.repository (fun _ _ _ => none) smallClient

def mysqlProgram : Request → Prog (Shop MySql MemoryInventory) (Option Order) :=
  program MysqlOrders.repository (fun _ _ _ => none) smallClient

/-- Both requests read the order before either marks it. -/
def memorySchedule : List (Move Request) :=
  [.spawn (.cancel 1), .spawn (.cancel 1), .step 0, .step 1, .step 0, .step 1, .step 0, .step 1]

def mysqlSchedule : List (Move Request) :=
  [.spawn (.cancel 1), .spawn (.cancel 1), .step 0, .step 0, .step 1, .step 1,
    .step 0, .step 0, .step 0, .step 1, .step 1, .step 1, .step 0, .step 1]

/-- The second request reads the order between the mark and the release of the first one, and
finds it cancelled. -/
theorem released_within_reserved_apart :
    ∃ c, Runs memoryProgram (NoOverlap memoryView.find 1) ⟨smallMemoryShop, []⟩ c ∧
      c.threads.map Thread.request = [.cancel 1, .cancel 1] ∧
      (∀ t ∈ c.threads, t.Finished) ∧ c.state.released 1 1 = 1 ∧
      c.state.released 1 1 ≤ memoryView.reserved c.state.orders 1 1 := by
  have hfirst : Runs memoryProgram (NoOverlap memoryView.find 1) ⟨smallMemoryShop, []⟩
      ⟨smallMemoryShop, [⟨.cancel 1, memoryProgram (.cancel 1), 0⟩]⟩ :=
    .tail (.refl _) (noOverlap_unread (by simp) (.spawn (.cancel 1))) rfl
  have hsecond := hfirst.tail (noOverlap_unread (by simp) (.spawn (.cancel 1))) rfl
  have hread := hsecond.tail (noOverlap_unread (by simp) (.step 0)) rfl
  have hmark := hread.tail (noOverlap_begun 0 rfl Nat.one_ne_zero) rfl
  have hlate := hmark.tail (noOverlap_cancelled (fun o order hfind => ?_) (.step 1)) rfl
  · have hrelease := hlate.tail (noOverlap_begun 0 rfl (Nat.succ_ne_zero 1)) rfl
    refine ⟨_, hrelease, rfl, List.forall_mem_cons.mpr ⟨⟨_, rfl⟩, List.forall_mem_singleton.mpr
      ⟨_, rfl⟩⟩, by decide, (released_within_reserved smallClient).1 _ _ _
      (by unfold memoryView smallMemoryShop; decide) rfl hrelease 1 1⟩
  · have hmem := List.mem_of_find?_eq_some hfind
    rw [List.mem_singleton.mp hmem]

theorem overlapping_cancels_release_twice :
    (¬ ∀ c, Runs memoryProgram (fun _ _ => True) ⟨smallMemoryShop, []⟩ c →
      ∀ o book, c.state.released o book ≤ memoryView.reserved c.state.orders o book) ∧
    (¬ ∀ c, Runs mysqlProgram (fun _ _ => True) ⟨smallMysqlShop, []⟩ c →
      ∀ o book, c.state.released o book ≤ mysqlView.reserved c.state.orders o book) := by
  constructor
  · intro h
    have hbound : (execute memoryProgram ⟨smallMemoryShop, []⟩ memorySchedule).all (fun c =>
        decide (c.state.released 1 1 ≤ memoryView.reserved c.state.orders 1 1)) = true := by
      rw [Option.all_eq_true]
      intro c hc
      exact decide_eq_true (h c (runs_of_execute memorySchedule (.refl _) hc) 1 1)
    revert hbound
    decide
  · intro h
    have hbound : (execute mysqlProgram ⟨smallMysqlShop, []⟩ mysqlSchedule).all (fun c =>
        decide (c.state.released 1 1 ≤ mysqlView.reserved c.state.orders 1 1)) = true := by
      rw [Option.all_eq_true]
      intro c hc
      exact decide_eq_true (h c (runs_of_execute mysqlSchedule (.refl _) hc) 1 1)
    revert hbound
    decide

end Bookstore.CancelSchedules
