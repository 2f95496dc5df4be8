import Bookstore.Services

/-!
What the memory inventory and the loops of LocalInventoryClient do to the
stock of each book. Stock is read in the unbounded integers, a missing entry
counting as 0; the sums stay exact as long as they fit in an int.
-/
namespace Bookstore.MemoryStock

open Interleaving MachineInt Records Repositories Services

/-- The stock of a book, 0 when there is no entry. -/
def available (s : MemoryInventory) (book : Int32) : ℤ := ((s.stock book).getD 0).toInt

def NonNegative (s : MemoryInventory) : Prop := ∀ book, 0 ≤ available s book

theorem available_put (s : MemoryInventory) (bookId value book : Int32) :
    available (s.put bookId value) book =
      if bookId = book then value.toInt else available s book := by
  by_cases h : bookId = book
  · simp [available, MemoryInventory.put, h]
  · simp [available, MemoryInventory.put, h, Ne.symm h]

theorem available_increase (s : MemoryInventory) (bookId quantity book : Int32)
    (hq : 0 ≤ quantity.toInt) (hstock : 0 ≤ available s bookId)
    (hfits : available s bookId + quantity.toInt ≤ intMax) :
    available (s.increase bookId quantity) book =
      available s book + if bookId = book then quantity.toInt else 0 := by
  have hsum : ((s.stock bookId).getD 0 + quantity).toInt =
      available s bookId + quantity.toInt := by
    unfold available at *
    exact toInt_add_of_fits _ _ (by omega) hfits
  rw [MemoryInventory.increase, available_put, hsum]
  split
  · rename_i h
    rw [h]
  · simp

theorem releaseStock_eq (s : MemoryInventory) {bookId quantity : Int32}
    (hq : 0 < quantity.toInt) :
    MemoryInventory.releaseStock bookId quantity s = s.increase bookId quantity := by
  have hnot : ¬ quantity ≤ 0 := by
    rw [Int32.le_iff_toInt_le]
    simpa using hq
  simp [MemoryInventory.releaseStock, hnot]

/-- A single reservation is refused, or takes a positive quantity that was there. -/
theorem reserveStock_cases (s : MemoryInventory) (bookId quantity : Int32) :
    MemoryInventory.reserveStock bookId quantity s = (false, s) ∨
    ∃ s', MemoryInventory.reserveStock bookId quantity s = (true, s') ∧
      0 < quantity.toInt ∧ quantity.toInt ≤ available s bookId ∧
      ∀ book, available s' book =
        available s book - if bookId = book then quantity.toInt else 0 := by
  unfold MemoryInventory.reserveStock
  split
  · exact .inl rfl
  · rename_i hq
    cases hentry : s.stock bookId with
    | none => exact .inl rfl
    | some value =>
      by_cases hlt : value < quantity
      · simp [hlt]
      · have hpos := toInt_pos_of_not_le hq
        have hle := le_toInt_of_not_lt hlt
        have hvalue : available s bookId = value.toInt := by simp [available, hentry]
        refine .inr ⟨s.put bookId (value - quantity), by simp [hlt], hpos, by omega, ?_⟩
        intro book
        rw [available_put, toInt_sub_of_covered hpos hle, ← hvalue]
        split
        · rename_i h
          rw [h]
        · simp

/-- The state of the memory inventory after a program on it. -/
abbrev after {α : Type} (p : Prog MemoryInventory α) (s : MemoryInventory) : MemoryInventory :=
  (p.run s).2

abbrev service : InventoryRepository MemoryInventory :=
  inventoryService MemoryInventory.repository

@[simp] theorem run_releaseStock (bookId quantity : Int32) (s : MemoryInventory) :
    (service.releaseStock bookId quantity).run s =
      ((), MemoryInventory.releaseStock bookId quantity s) := rfl

@[simp] theorem run_reserveStock (bookId quantity : Int32) (s : MemoryInventory) :
    (service.reserveStock bookId quantity).run s =
      MemoryInventory.reserveStock bookId quantity s := rfl

/-- Giving back a list of positive quantities adds exactly their sum. -/
theorem available_releaseEach (items : List InventoryMutation) (s : MemoryInventory)
    (hpos : ∀ item ∈ items, 0 < item.quantity.toInt) (hstock : NonNegative s)
    (hfits : ∀ book, available s book + requested book items ≤ intMax) (book : Int32) :
    available (after (releaseEach service items) s) book =
      available s book + requested book items := by
  induction items generalizing s with
  | nil => simp [after, releaseEach]
  | cons item rest ih =>
    have hitem : 0 < item.quantity.toInt := hpos item (by simp)
    have hrest : ∀ i ∈ rest, 0 < i.quantity.toInt := fun i hi => hpos i (by simp [hi])
    have hroom : available s item.bookId + item.quantity.toInt ≤ intMax := by
      have h := hfits item.bookId
      have hnonneg := requested_nonneg item.bookId rest hrest
      simp only [requested_cons, if_true] at h
      omega
    have hstep : ∀ b, available (s.increase item.bookId item.quantity) b =
        available s b + if item.bookId = b then item.quantity.toInt else 0 := fun b =>
      available_increase s item.bookId item.quantity b hitem.le (hstock _) hroom
    have htail := ih (s.increase item.bookId item.quantity) hrest
      (fun b => by
        have h := hstock b
        rw [hstep b]
        split <;> omega)
      (fun b => by
        have h := hfits b
        rw [hstep b]
        simp only [requested_cons] at h
        omega)
    simp only [after, releaseEach, Prog.run_bind, run_releaseStock, releaseStock_eq s hitem]
    rw [htail, hstep book, requested_cons]
    omega

/-! ## The batch form -/

/-- The first loop looks at the stock before any item is taken. -/
theorem canReserve_iff (s : MemoryInventory) (items : List InventoryMutation) :
    s.canReserve items = true ↔ ∀ item ∈ items,
      0 < item.quantity.toInt ∧ item.quantity.toInt ≤ available s item.bookId := by
  rw [MemoryInventory.canReserve, List.all_eq_true]
  apply forall₂_congr
  intro item _
  have hq : ¬ item.quantity ≤ 0 ↔ 0 < item.quantity.toInt := by
    rw [Int32.le_iff_toInt_le, Int32.toInt_zero]
    omega
  cases hentry : s.stock item.bookId with
  | none =>
    have hzero : available s item.bookId = 0 := by simp [available, hentry]
    simp only [Option.any_none, Bool.and_false, Bool.false_eq_true, false_iff, hzero]
    omega
  | some value =>
    have hvalue : available s item.bookId = value.toInt := by simp [available, hentry]
    have hle : ¬ value < item.quantity ↔ item.quantity.toInt ≤ value.toInt := by
      rw [Int32.lt_iff_toInt_lt]
      omega
    simp [hvalue, hq, hle]

/-- The second loop takes the sum of every book. -/
theorem available_takeAll (items : List InventoryMutation) (s : MemoryInventory)
    (hpos : ∀ item ∈ items, 0 < item.quantity.toInt)
    (hfits : ∀ book, -2147483648 ≤ available s book - requested book items) (book : Int32) :
    available (s.takeAll items) book = available s book - requested book items := by
  induction items generalizing s with
  | nil => simp [MemoryInventory.takeAll]
  | cons item rest ih =>
    have hitem : 0 < item.quantity.toInt := hpos item (by simp)
    have hrest : ∀ i ∈ rest, 0 < i.quantity.toInt := fun i hi => hpos i (by simp [hi])
    have hvalue : ((s.stock item.bookId).getD 0 - item.quantity).toInt =
        available s item.bookId - item.quantity.toInt := by
      have hlow := hfits item.bookId
      have hnonneg := requested_nonneg item.bookId rest hrest
      have hhigh := toInt_le_intMax ((s.stock item.bookId).getD 0)
      simp only [requested_cons, if_true] at hlow
      unfold available at *
      apply toInt_sub_of_fits <;> omega
    have hstep : ∀ b, available
        (s.put item.bookId ((s.stock item.bookId).getD 0 - item.quantity)) b =
          available s b - if item.bookId = b then item.quantity.toInt else 0 := by
      intro b
      rw [available_put, hvalue]
      split
      · rename_i h
        rw [h]
      · simp
    have htail := ih (s.put item.bookId ((s.stock item.bookId).getD 0 - item.quantity)) hrest
      (fun b => by
        have h := hfits b
        rw [hstep b]
        simp only [requested_cons] at h
        omega)
    simp only [MemoryInventory.takeAll, List.foldl_cons] at htail ⊢
    rw [htail, hstep book, requested_cons]
    omega

/-- The items that release_stock heeds. -/
def heeded (items : List InventoryMutation) : List InventoryMutation :=
  items.filter fun item => 0 < item.quantity

theorem available_releaseBatch (items : List InventoryMutation) (s : MemoryInventory)
    (hstock : NonNegative s)
    (hfits : ∀ book, available s book + requested book (heeded items) ≤ intMax) (book : Int32) :
    available (MemoryInventory.releaseBatch items s) book =
      available s book + requested book (heeded items) := by
  induction items generalizing s with
  | nil => simp [MemoryInventory.releaseBatch, heeded]
  | cons item rest ih =>
    have hheeded : ∀ i ∈ heeded rest, 0 < i.quantity.toInt := by
      intro i hi
      have h := of_decide_eq_true (List.mem_filter.mp hi).2
      rw [Int32.lt_iff_toInt_lt] at h
      simpa using h
    by_cases hq : 0 < item.quantity
    · have hpos : 0 < item.quantity.toInt := by
        rw [Int32.lt_iff_toInt_lt] at hq
        simpa using hq
      have hcons : heeded (item :: rest) = item :: heeded rest := by simp [heeded, hq]
      rw [hcons] at hfits ⊢
      have hroom : available s item.bookId + item.quantity.toInt ≤ intMax := by
        have h := hfits item.bookId
        have hnonneg := requested_nonneg item.bookId (heeded rest) hheeded
        simp only [requested_cons, if_true] at h
        omega
      have hstep : ∀ b, available (s.increase item.bookId item.quantity) b =
          available s b + if item.bookId = b then item.quantity.toInt else 0 := fun b =>
        available_increase s item.bookId item.quantity b hpos.le (hstock _) hroom
      have htail := ih (s.increase item.bookId item.quantity)
        (fun b => by
          have h := hstock b
          rw [hstep b]
          split <;> omega)
        (fun b => by
          have h := hfits b
          rw [hstep b]
          simp only [requested_cons] at h
          omega)
      simp only [MemoryInventory.releaseBatch, List.foldl_cons, hq, if_true] at htail ⊢
      rw [htail, hstep book, requested_cons]
      omega
    · have hcons : heeded (item :: rest) = heeded rest := by simp [heeded, hq]
      rw [hcons] at hfits ⊢
      have htail := ih s hstock hfits
      simp only [MemoryInventory.releaseBatch, List.foldl_cons, hq, if_false] at htail ⊢
      exact htail

end Bookstore.MemoryStock
