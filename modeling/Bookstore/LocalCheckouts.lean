import Bookstore.Checkouts
import Bookstore.LocalConservation
import Bookstore.MysqlOrders

/-!
The two local modes under concurrent checkouts: OrderService and
LocalInventoryClient over the memory repositories, and over the MySQL ones with
each call of a repository one atomic step.
-/
namespace Bookstore.LocalCheckouts

open Checkouts Database Interleaving LocalConservation MachineInt MemoryStock MysqlInventory
open MysqlOrders Records Repositories Services Transactions Transactions.Session

/-! ## Memory repositories -/

def memoryMode : Local LocalStore where
  catalogue s bookId := s.books.findBook bookId
  inventory := MemoryInventory.repository.lift LocalStore.inventoryLens
  orders := MemoryOrders.repository.lift LocalStore.ordersLens
  nextId := LocalStore.counterLens

def memoryShelf : Checkouts.Shelf LocalStore where
  available s book := MemoryStock.available s.inventory book
  stored s book := (s.orders.orders.map fun order => quantityOf book order.items).sum
  stocked _ _ := True
  good _ := True
  room := intMax

/-- A call on the inventory as one step of the whole state. -/
def onInventory {α : Type} (f : MemoryInventory → α × MemoryInventory) (s : LocalStore) :
    α × LocalStore := ((f s.inventory).1, { s with inventory := (f s.inventory).2 })

theorem memory_serves : memoryShelf.Serves memoryMode where
  draw _ _ _ := ⟨fun _ => rfl, fun _ => rfl, fun _ h => h, trivial⟩
  reserve book quantity := by
    refine ⟨onInventory (MemoryInventory.reserveStock book quantity), rfl, ?_⟩
    intro s _
    unfold onInventory
    rcases reserveStock_cases s.inventory book quantity with hrefused | ⟨t, ht, hpos, hle, hstock⟩
    · rw [hrefused]
      exact .inl ⟨s, rfl, .refl memoryShelf trivial⟩
    · rw [ht]
      exact .inr ⟨_, rfl, hpos, hle, trivial, fun _ h => h, trivial, fun _ => rfl, hstock⟩
  release book quantity := by
    refine ⟨onInventory fun s => ((), MemoryInventory.releaseStock book quantity s), rfl, ?_⟩
    intro s _ hq _ hnonneg hroom
    refine ⟨fun _ h => h, trivial, fun _ => rfl, ?_⟩
    intro b
    simp only [memoryShelf, onInventory, releaseStock_eq s.inventory hq]
    exact available_increase s.inventory book quantity b hq.le hnonneg hroom
  create userId items total := by
    refine ⟨_, rfl, ?_⟩
    intro s _
    by_cases hargs : userId ≤ 0 ∨ items = []
    · refine .inl ⟨s, ?_, .refl memoryShelf trivial⟩
      simp only [LocalStore.ordersLens, MemoryOrders.createOrder, hargs, if_true]
    · refine .inr ⟨⟨s.orders.nextOrderId, userId, items, total, "created"⟩, { s with
        orders := ⟨s.orders.nextOrderId + 1, s.orders.orders ++
          [⟨s.orders.nextOrderId, userId, items, total, "created"⟩]⟩ }, ?_, fun _ h => h, trivial,
        ?_, fun _ => rfl⟩
      · simp only [LocalStore.ordersLens, MemoryOrders.createOrder, hargs, if_false]
      · intro b
        simp [memoryShelf]

/-! ## MySQL repositories -/

/-- The database, and the counter of next_reservation_id. -/
structure MysqlStore where
  mysql : MySql
  nextReservation : ℕ

namespace MysqlStore

def mysqlLens : Lens MysqlStore MySql where
  get := mysql
  set t s := { s with mysql := t }
  get_set _ _ := rfl
  set_get _ := rfl
  set_set _ _ _ := rfl

def counterLens : Lens MysqlStore ℕ where
  get := nextReservation
  set t s := { s with nextReservation := t }
  get_set _ _ := rfl
  set_get _ := rfl
  set_set _ _ _ := rfl

end MysqlStore

/-- Each call of an inventory repository is one step. -/
def atomicInventory {σ : Type} (r : InventoryRepository σ) : InventoryRepository σ where
  availableStock book := (r.availableStock book).atomically
  addStock book quantity := (r.addStock book quantity).atomically
  reserveStock book quantity := (r.reserveStock book quantity).atomically
  releaseStock book quantity := (r.releaseStock book quantity).atomically
  reserveBatch id items := (r.reserveBatch id items).atomically
  releaseBatch id items := (r.releaseBatch id items).atomically

def atomicOrders {σ : Type} (r : OrderRepository σ) : OrderRepository σ where
  createOrder userId items total := (r.createOrder userId items total).atomically
  listOrders := r.listOrders.atomically
  findOrder id := (r.findOrder id).atomically
  cancelOrder id := (r.cancelOrder id).atomically

/-- The book lookup may read the tables in any way. -/
def mysqlMode (catalogue : Db → Int32 → Option Book) : Local MysqlStore where
  catalogue s bookId := catalogue s.mysql.db bookId
  inventory := (atomicInventory MysqlInventory.repository).lift MysqlStore.mysqlLens
  orders := (atomicOrders MysqlOrders.repository).lift MysqlStore.mysqlLens
  nextId := MysqlStore.counterLens

def orderedAt (book : ℤ) (rows : List OrderItemRow) : ℤ :=
  Tally.tally OrderItemRow.bookId OrderItemRow.quantity book rows

def mysqlShelf : Checkouts.Shelf MysqlStore where
  available s book := s.mysql.db.available book.toInt
  stored s book := orderedAt book.toInt s.mysql.db.orderItems
  stocked s book := 0 < book.toInt ∧ (s.mysql.db.inventory book.toInt).isSome
  good s := s.mysql.Reliable
  room := unsignedMax

theorem orderedAt_rows (orderId book : Int32) (items : List OrderItem) :
    orderedAt book.toInt (items.map (orderItemRow orderId)) = quantityOf book items := by
  induction items with
  | nil => rfl
  | cons item rest ih =>
    have hsum : orderedAt book.toInt ((item :: rest).map (orderItemRow orderId)) =
        (if item.bookId.toInt = book.toInt then item.quantity.toInt else 0) +
          orderedAt book.toInt (rest.map (orderItemRow orderId)) := rfl
    rw [hsum, ih, quantityOf_cons]
    simp only [Int32.toInt_inj]

/-- A call on the database as one step of the whole state. -/
def onMysql {α : Type} (p : Prog MySql α) (s : MysqlStore) : α × MysqlStore :=
  ((p.run s.mysql).1, { s with mysql := (p.run s.mysql).2 })

theorem onMysql_eq {α : Type} {p : Prog MySql α} {s : MysqlStore} {a : α} {t : MySql}
    (h : p.run s.mysql = (a, t)) : onMysql p s = (a, { s with mysql := t }) := by
  simp only [onMysql, h]

theorem mysql_serves (catalogue : Db → Int32 → Option Book) :
    mysqlShelf.Serves (mysqlMode catalogue) where
  draw _ _ h := ⟨fun _ => rfl, fun _ => rfl, fun _ h => h, h⟩
  reserve book quantity := by
    refine ⟨onMysql (reserveStock book quantity), rfl, ?_⟩
    intro s hgood
    rcases mysql_reserveStock book quantity s.mysql with
      ⟨c, hrun⟩ | ⟨value, c, hbook, hq, hrow, hle, hrun⟩
    · exact .inl ⟨_, onMysql_eq hrun, fun _ => rfl, fun _ => rfl, fun _ h => h, hgood⟩
    · have havailable : s.mysql.db.available book.toInt = value := by simp [Db.available, hrow]
      have hsome : (s.mysql.db.inventory book.toInt).isSome := by simp [hrow]
      have hrows := isSome_update s.mysql.db.inventory book.toInt (value - quantity.toInt) hsome
      refine .inr ⟨_, onMysql_eq hrun, hq, ?_, ⟨hbook, ?_⟩, ?_, hgood, fun _ => rfl, ?_⟩
      · simp only [mysqlShelf, havailable]
        exact hle
      · simp only [hrows, hsome]
      · intro b hb
        refine ⟨hb.1, ?_⟩
        simp only [hrows]
        exact hb.2
      · intro b
        simp only [mysqlShelf]
        rw [available_update]
        simp only [Int32.toInt_inj]
        split
        · rename_i hsame
          rw [← hsame, havailable]
        · omega
  release book quantity := by
    refine ⟨onMysql (releaseStock book quantity), rfl, ?_⟩
    intro s hgood hq hstock _ hroom
    obtain ⟨hbook, hsome⟩ := hstock
    obtain ⟨value, hrow⟩ := Option.isSome_iff_exists.mp hsome
    have havailable : s.mysql.db.available book.toInt = value := by simp [Db.available, hrow]
    have hrows := isSome_update s.mysql.db.inventory book.toInt (value + quantity.toInt) hsome
    simp only [mysqlShelf, havailable] at hroom
    rw [onMysql_eq (mysql_releaseStock book quantity s.mysql (hgood _) hbook hq hrow hroom)]
    refine ⟨?_, hgood, fun _ => rfl, ?_⟩
    · intro b hb
      refine ⟨hb.1, ?_⟩
      simp only [hrows]
      exact hb.2
    · intro b
      simp only [mysqlShelf]
      rw [available_update]
      simp only [Int32.toInt_inj]
      split
      · rename_i hsame
        rw [← hsame, havailable]
      · omega
  create userId items total := by
    refine ⟨onMysql (MysqlOrders.createOrder userId items total), rfl, ?_⟩
    intro s hgood
    obtain ⟨r, db', c, nextKey, hrun, _, hcases⟩ := createOrder_spec userId items total s.mysql
    rcases hcases with ⟨rfl, rfl⟩ | ⟨rfl, _, hdone⟩
    · exact .inl ⟨_, onMysql_eq hrun, fun _ => rfl, fun _ => rfl, fun _ h => h, hgood⟩
    · refine .inr ⟨_, _, onMysql_eq hrun, ?_, hgood, ?_, ?_⟩
      · intro b hb
        refine ⟨hb.1, ?_⟩
        simp only [hdone.stock.inventory]
        exact hb.2
      · intro b
        simp only [mysqlShelf, hdone.rows, orderedAt, Tally.tally_append]
        rw [← orderedAt_rows (atoi (s.mysql.nextKey .orders)) b items]
        rfl
      · exact fun b => hdone.stock.available b.toInt

/-! ## Any number of checkouts -/

/-- What is available, held by checkouts on their way, and in stored orders is
what there was; nothing is held when all checkouts have finished. Each checkout is at a
place where what is left of it, and what it was asked for, say what it holds. -/
def Conserved {σ : Type} (V : Checkouts.Shelf σ) (m : Local σ) (start : σ) (c : Shop σ) : Prop :=
  ∃ stages, Placed m c stages ∧
    (∀ (i : ℕ) t stage, c.threads[i]? = some t → stages[i]? = some stage →
      stage.Sound V c.state t.request) ∧
    (∀ book, 0 ≤ V.available c.state book ∧
      V.available c.state book + heldBy book stages + V.stored c.state book =
        V.available start book + V.stored start book) ∧
    ((∀ t ∈ c.threads, t.Finished) → ∀ book, heldBy book stages = 0)

theorem conserved_of_runs {σ : Type} {V : Checkouts.Shelf σ} {m : Local σ} {start : σ} {c : Shop σ}
    (hserves : V.Serves m) (hgood : V.good start) (hnonneg : ∀ book, 0 ≤ V.available start book)
    (hroom : ∀ book, V.available start book ≤ V.room)
    (hrun : Runs (createOrder m) (fun _ _ => True) ⟨start, []⟩ c) : Conserved V m start c := by
  obtain ⟨stages, h⟩ := accounted_of_runs hserves hgood hnonneg hroom hrun
  exact ⟨stages, h.placed, h.sound, fun book => ⟨h.nonneg book, h.balance book⟩,
    fun hfinished book => heldBy_of_finished hserves h.placed hfinished book⟩

/-- Concurrent checkouts never oversell, in memory and on a reliable database. -/
theorem checkouts_never_oversell :
    (∀ (start : LocalStore) (c : Shop LocalStore),
      (∀ book, 0 ≤ memoryShelf.available start book) →
      Runs (createOrder memoryMode) (fun _ _ => True) ⟨start, []⟩ c →
      Conserved memoryShelf memoryMode start c) ∧
    (∀ (catalogue : Db → Int32 → Option Book) (start : MysqlStore) (c : Shop MysqlStore),
      start.mysql.Reliable →
      (∀ book value, start.mysql.db.inventory book = some value → IsUnsigned value) →
      Runs (createOrder (mysqlMode catalogue)) (fun _ _ => True) ⟨start, []⟩ c →
      Conserved mysqlShelf (mysqlMode catalogue) start c) := by
  constructor
  · intro start c hnonneg hrun
    exact conserved_of_runs memory_serves trivial hnonneg
      (fun book => toInt_le_intMax _) hrun
  · intro catalogue start c hreliable hunsigned hrun
    have hcolumn : ∀ book : Int32, IsUnsigned (start.mysql.db.available book.toInt) := by
      intro book
      unfold Db.available
      cases hrow : start.mysql.db.inventory book.toInt with
      | none => exact ⟨le_refl 0, by decide⟩
      | some value => exact hunsigned _ _ hrow
    exact conserved_of_runs (mysql_serves catalogue) hreliable (fun book => (hcolumn book).1)
      (fun book => (hcolumn book).2) hrun

/-! ## Two checkouts that meet -/

/-- Three copies of one book, two of another. -/
def smallStore : LocalStore :=
  .initial [⟨1, "C++ Primer", "Stanley Lippman", 9800, 3, "active"⟩,
      ⟨2, "Effective C++", "Scott Meyers", 7900, 2, "active"⟩]
    fun book => if book = 1 then some 3 else if book = 2 then some 2 else none

/-- The second checkout is refused a copy of the second book while the first
one holds both, and gives back what it has taken of the first book. -/
def meeting : List (Move Checkout) :=
  [.spawn ⟨1, [⟨1, 2⟩, ⟨2, 2⟩]⟩, .spawn ⟨2, [⟨1, 1⟩, ⟨2, 1⟩]⟩, .step 0, .step 1, .step 0, .step 1,
    .step 0, .step 1, .step 0, .step 0, .step 1, .step 1, .step 1, .step 0]

theorem checkouts_never_oversell_meeting :
    ∃ c, execute (createOrder memoryMode) ⟨smallStore, []⟩ meeting = some c ∧
      memoryShelf.available c.state 1 = 1 ∧ memoryShelf.stored c.state 1 = 2 ∧
      Conserved memoryShelf memoryMode smallStore c := by
  obtain ⟨c, hc⟩ : ∃ c, execute (createOrder memoryMode) ⟨smallStore, []⟩ meeting = some c :=
    Option.isSome_iff_exists.mp (by decide +kernel)
  have hend : (execute (createOrder memoryMode) ⟨smallStore, []⟩ meeting).all (fun c =>
      memoryShelf.available c.state 1 = 1 ∧ memoryShelf.stored c.state 1 = 2) = true := by
    decide +kernel
  simp only [hc, Option.all_some, decide_eq_true_eq] at hend
  refine ⟨c, hc, hend.1, hend.2,
    checkouts_never_oversell.1 smallStore c ?_ (runs_of_execute meeting (.refl _) hc)⟩
  intro book
  simp only [memoryShelf, MemoryStock.available, smallStore, LocalStore.initial]
  split
  · decide
  · split <;> decide

end Bookstore.LocalCheckouts
