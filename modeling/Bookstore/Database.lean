import Bookstore.Records
import Bookstore.Transactions
import Mathlib.Logic.Function.Basic

/-!
The tables of scripts/init.sql and the SQL statements of the repositories.
A statement is rejected when it would break a key, a foreign key or the range
of an INT UNSIGNED column. The time stamps are left out: nothing reads them.
-/
namespace Bookstore.Database

open Records Transactions

structure BookRow where
  title : String
  author : String
  priceCents : ℤ
  stock : ℤ
  status : String
deriving DecidableEq

structure ReservationItem where
  reservationId : String
  bookId : ℤ
  quantity : ℤ

structure OrderRow where
  id : ℤ
  userId : ℤ
  status : String
  totalCents : ℤ

structure OrderItemRow where
  orderId : ℤ
  bookId : ℤ
  quantity : ℤ
  unitPriceCents : ℤ
  lineTotalCents : ℤ

structure Db where
  users : ℤ → Bool
  books : ℤ → Option BookRow
  inventory : ℤ → Option ℤ
  reservations : String → Option String
  reservationItems : List ReservationItem
  orders : List OrderRow
  orderItems : List OrderItemRow

/-- The tables whose generated keys the repositories read back. -/
inductive Table
  | books
  | orders
deriving DecidableEq

abbrev MySql := Server Db Table

abbrev Sql := Session Db Table

def unsignedMax : ℤ := 4294967295

/-- The range of an INT UNSIGNED column. -/
abbrev IsUnsigned (v : ℤ) : Prop := 0 ≤ v ∧ v ≤ unsignedMax

/-- The stock of a book, 0 when it has no inventory row. -/
def Db.available (db : Db) (book : ℤ) : ℤ := (db.inventory book).getD 0

/-! ## inventory -/

def selectAvailable (book : ℤ) : Stmt Db (Option ℤ) where
  result db := some (db.inventory book)
  effect db := db

/-- SET available=available-quantity WHERE book_id=book AND available>=quantity;
the result is the number of changed rows. -/
def takeStock (book quantity : ℤ) : Stmt Db ℕ where
  result db :=
    match db.inventory book with
    | none => some 0
    | some value => if quantity ≤ value then some 1 else some 0
  effect db :=
    match db.inventory book with
    | none => db
    | some value =>
      if quantity ≤ value then
        { db with inventory := Function.update db.inventory book (some (value - quantity)) }
      else db

/-- SET available=available+quantity WHERE book_id=book. -/
def giveStock (book quantity : ℤ) : Stmt Db ℕ where
  result db :=
    match db.inventory book with
    | none => some 0
    | some value => if value + quantity ≤ unsignedMax then some 1 else none
  effect db :=
    match db.inventory book with
    | none => db
    | some value =>
      { db with inventory := Function.update db.inventory book (some (value + quantity)) }

/-- SET stock=stock+quantity WHERE id=book. -/
def addBookStock (book quantity : ℤ) : Stmt Db ℕ where
  result db :=
    match db.books book with
    | none => some 0
    | some row => if row.stock + quantity ≤ unsignedMax then some 1 else none
  effect db :=
    match db.books book with
    | none => db
    | some row =>
      { db with
        books := Function.update db.books book (some { row with stock := row.stock + quantity }) }

/-! ## inventory_reservations and inventory_reservation_items -/

def selectReservationStatus (reservation : String) : Stmt Db (Option String) where
  result db := some (db.reservations reservation)
  effect db := db

def insertReservation (reservation : String) : Stmt Db Unit where
  result db :=
    if db.reservations reservation = none ∧ reservation.length ≤ 96 then some () else none
  effect db :=
    { db with reservations := Function.update db.reservations reservation (some "reserved") }

def insertReservationItem (reservation : String) (book quantity : ℤ) : Stmt Db Unit where
  result db :=
    if IsUnsigned quantity ∧ (db.reservations reservation).isSome ∧ (db.books book).isSome ∧
        db.reservationItems.all (fun row =>
          !(row.reservationId = reservation && row.bookId = book)) then
      some ()
    else none
  effect db := { db with reservationItems := db.reservationItems ++ [⟨reservation, book, quantity⟩] }

def selectReservationItems (reservation : String) : Stmt Db (List ReservationItem) where
  result db := some (db.reservationItems.filter fun row => row.reservationId = reservation)
  effect db := db

def updateReservationStatus (reservation status : String) : Stmt Db Unit where
  result _ := some ()
  effect db :=
    { db with
      reservations := fun id =>
        if id = reservation then (db.reservations id).map fun _ => status else db.reservations id }

/-! ## orders and order_items -/

def insertOrder (userId totalCents id : ℤ) : Stmt Db Unit where
  result db :=
    if db.users userId = true ∧ IsUnsigned totalCents ∧ IsUnsigned id ∧
        db.orders.all (fun order => !(order.id = id)) then
      some ()
    else none
  effect db := { db with orders := db.orders ++ [⟨id, userId, "created", totalCents⟩] }

def insertOrderItem (row : OrderItemRow) : Stmt Db Unit where
  result db :=
    if db.orders.any (fun order => order.id = row.orderId) ∧ (db.books row.bookId).isSome ∧
        IsUnsigned row.quantity ∧ IsUnsigned row.unitPriceCents ∧ IsUnsigned row.lineTotalCents then
      some ()
    else none
  effect db := { db with orderItems := db.orderItems ++ [row] }

def selectOrder (id : ℤ) : Stmt Db (Option OrderRow) where
  result db := some (db.orders.find? fun order => order.id = id)
  effect db := db

def selectOrders : Stmt Db (List OrderRow) where
  result db := some (db.orders.mergeSort fun a b => b.id ≤ a.id)
  effect db := db

def selectOrderItems (orderId : ℤ) : Stmt Db (List OrderItemRow) where
  result db := some (db.orderItems.filter fun row => row.orderId = orderId)
  effect db := db

/-- SET status='cancelled' WHERE id=id AND status<>'cancelled'. -/
def cancelOrderRow (id : ℤ) : Stmt Db Unit where
  result _ := some ()
  effect db :=
    { db with
      orders := db.orders.map fun order =>
        if order.id = id then { order with status := "cancelled" } else order }

end Bookstore.Database
