import Bookstore.Tally

/-!
The records the services exchange. An `int` of the code is an `Int32`; the
quantities of one book in a list are added up in the unbounded integers.
-/
namespace Bookstore.Records

open Tally

structure Book where
  id : Int32
  title : String
  author : String
  priceCents : Int32
  stock : Int32
  status : String
deriving DecidableEq, Repr

structure InventoryMutation where
  bookId : Int32
  quantity : Int32
deriving DecidableEq, Repr

structure OrderItemRequest where
  bookId : Int32
  quantity : Int32
deriving DecidableEq, Repr

structure OrderItem where
  bookId : Int32
  quantity : Int32
  unitPriceCents : Int32
deriving DecidableEq, Repr

structure Order where
  id : Int32
  userId : Int32
  items : List OrderItem
  totalCents : Int32
  status : String
deriving DecidableEq, Repr

def OrderItemRequest.toMutation (r : OrderItemRequest) : InventoryMutation :=
  ⟨r.bookId, r.quantity⟩

def OrderItem.toMutation (item : OrderItem) : InventoryMutation :=
  ⟨item.bookId, item.quantity⟩

/-- How many copies of a book a list of mutations asks for. -/
def requested (book : Int32) (items : List InventoryMutation) : ℤ :=
  tally InventoryMutation.bookId (fun item => item.quantity.toInt) book items

/-- How many copies of a book a list of order items holds. -/
def quantityOf (book : Int32) (items : List OrderItem) : ℤ :=
  tally OrderItem.bookId (fun item => item.quantity.toInt) book items

@[simp] theorem requested_nil (book : Int32) : requested book [] = 0 := rfl

@[simp] theorem requested_cons (book : Int32) (item : InventoryMutation)
    (rest : List InventoryMutation) :
    requested book (item :: rest) =
      (if item.bookId = book then item.quantity.toInt else 0) + requested book rest := rfl

@[simp] theorem requested_append (book : Int32) (xs ys : List InventoryMutation) :
    requested book (xs ++ ys) = requested book xs + requested book ys :=
  tally_append _ _ _ xs ys

@[simp] theorem quantityOf_nil (book : Int32) : quantityOf book [] = 0 := rfl

@[simp] theorem quantityOf_cons (book : Int32) (item : OrderItem) (rest : List OrderItem) :
    quantityOf book (item :: rest) =
      (if item.bookId = book then item.quantity.toInt else 0) + quantityOf book rest := rfl

@[simp] theorem quantityOf_append (book : Int32) (xs ys : List OrderItem) :
    quantityOf book (xs ++ ys) = quantityOf book xs + quantityOf book ys :=
  tally_append _ _ _ xs ys

theorem requested_toMutation (book : Int32) (items : List OrderItem) :
    requested book (items.map OrderItem.toMutation) = quantityOf book items :=
  tally_map _ _ book OrderItem.toMutation items

theorem requested_nonneg (book : Int32) (items : List InventoryMutation)
    (h : ∀ item ∈ items, 0 < item.quantity.toInt) : 0 ≤ requested book items :=
  tally_nonneg _ _ _ items fun item hitem => (h item hitem).le

theorem quantityOf_nonneg (book : Int32) (items : List OrderItem)
    (h : ∀ item ∈ items, 0 < item.quantity.toInt) : 0 ≤ quantityOf book items :=
  tally_nonneg _ _ _ items fun item hitem => (h item hitem).le

/-- A non-empty list of positive quantities holds some book. -/
theorem exists_quantityOf_pos (items : List OrderItem) (hne : items ≠ [])
    (h : ∀ item ∈ items, 0 < item.quantity.toInt) : ∃ book, 0 < quantityOf book items := by
  obtain ⟨item, hitem⟩ := List.exists_mem_of_ne_nil items hne
  exact ⟨item.bookId, tally_pos_of_mem OrderItem.bookId (fun i => i.quantity.toInt) items
    (fun i hi => (h i hi).le) hitem (h item hitem)⟩

end Bookstore.Records
