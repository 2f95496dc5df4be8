import Bookstore.MemoryStock
import Bookstore.Undo
import Mathlib.Tactic.ByContra

/-!
The batch reservation of LocalInventoryClient over the memory inventory. Its loop takes
the items one by one and gives them back from the first one on. Single reservations can
be undone in any order, so that the loop takes all items or none, and it takes them
exactly when every book covers the sum of what is asked of it.
-/
namespace Bookstore.LocalReservations

open Interleaving MachineInt MemoryStock Records Repositories Services Undo

/-! ## Single reservations -/

section Single

variable {s s' : MemoryInventory}

theorem reserveStock_released {bookId quantity : Int32}
    (h : MemoryInventory.reserveStock bookId quantity s = (true, s')) :
    MemoryInventory.releaseStock bookId quantity s' = s := by
  unfold MemoryInventory.reserveStock at h
  split at h
  · cases h
  · rename_i hq
    cases hentry : s.stock bookId with
    | none =>
      rw [hentry] at h
      cases h
    | some value =>
      rw [hentry] at h
      dsimp only at h
      split at h
      · cases h
      · obtain rfl := (Prod.mk.inj h).2
        have hback : value - quantity + quantity = value := Int32.sub_add_cancel value quantity
        rw [MemoryInventory.releaseStock, if_neg hq]
        apply congrArg MemoryInventory.mk
        funext book
        by_cases hbook : book = bookId
        · simp [MemoryInventory.put, hbook, hentry, hback]
        · simp [MemoryInventory.put, hbook]

theorem reserveStock_refused {bookId quantity : Int32}
    (h : MemoryInventory.reserveStock bookId quantity s = (false, s')) : s' = s := by
  rcases reserveStock_cases s bookId quantity with hcase | ⟨_, hcase, _⟩
  · rw [h] at hcase
    exact (Prod.mk.inj hcase).2
  · rw [h] at hcase
    cases hcase

/-- Two releases may be made in either order. -/
theorem releaseStock_comm (a b p q : Int32) (s : MemoryInventory) :
    MemoryInventory.releaseStock a p (MemoryInventory.releaseStock b q s) =
      MemoryInventory.releaseStock b q (MemoryInventory.releaseStock a p s) := by
  unfold MemoryInventory.releaseStock
  by_cases hp : p ≤ 0
  · simp only [hp, if_true]
  · by_cases hq : q ≤ 0
    · simp only [hq, if_true]
    · simp only [hp, hq, if_false]
      apply congrArg MemoryInventory.mk
      funext book
      by_cases hab : a = b
      · subst hab
        by_cases hbook : book = a
        · simp only [MemoryInventory.increase, MemoryInventory.put, hbook, if_true,
            Option.getD_some, Int32.add_assoc, Int32.add_comm q p]
        · simp only [MemoryInventory.increase, MemoryInventory.put, hbook, if_false]
      · by_cases hbook : book = a
        · subst hbook
          simp [MemoryInventory.increase, MemoryInventory.put, hab]
        · by_cases hbook' : book = b
          · subst hbook'
            simp [MemoryInventory.increase, MemoryInventory.put, hbook]
          · simp [MemoryInventory.increase, MemoryInventory.put, hbook, hbook']

/-- A single reservation, undone by the release of the same item. -/
def reservation : Undoable MemoryInventory InventoryMutation where
  take item s :=
    match MemoryInventory.reserveStock item.bookId item.quantity s with
    | (true, s') => some s'
    | (false, _) => none
  undo item s := MemoryInventory.releaseStock item.bookId item.quantity s
  undo_take {item s s'} h := by
    rcases hrun : MemoryInventory.reserveStock item.bookId item.quantity s with ⟨taken, s₁⟩
    rw [hrun] at h
    cases taken with
    | true =>
      obtain rfl := Option.some.inj h
      exact reserveStock_released hrun
    | false => cases h
  undo_comm item item' s := releaseStock_comm item.bookId item'.bookId _ _ s

end Single

/-! ## The loop -/

theorem run_releaseEach (items : List InventoryMutation) (s : MemoryInventory) :
    (releaseEach service items).run s = ((), reservation.undoAll items s) := by
  induction items generalizing s with
  | nil => rfl
  | cons item rest ih =>
    rw [releaseEach, Prog.run_bind, run_releaseStock]
    exact ih _

/-- The loop is an attempt to take all items. -/
theorem run_reserveEach (reserved items : List InventoryMutation) (s : MemoryInventory) :
    (reserveEach service reserved items).run s = reservation.attempt reserved items s := by
  induction items generalizing reserved s with
  | nil => rfl
  | cons item rest ih =>
    rw [reserveEach, Prog.run_bind, run_reserveStock, Undoable.attempt]
    rcases hrun : MemoryInventory.reserveStock item.bookId item.quantity s with ⟨taken, s'⟩
    simp only [reservation, hrun]
    cases taken with
    | true => exact ih (reserved ++ [item]) s'
    | false =>
      obtain rfl := reserveStock_refused hrun
      simp only [Bool.false_eq_true, if_false, Prog.run_bind, Prog.run_pure, run_releaseEach]
      rfl

/-- The stock of the books that have an entry. -/
def stockOf (s : MemoryInventory) (book : Int32) : Option ℤ := (s.stock book).map Int32.toInt

theorem stockOf_put (s : MemoryInventory) (bookId value : Int32) :
    stockOf (s.put bookId value) = Function.update (stockOf s) bookId (some value.toInt) := by
  funext book
  by_cases hbook : book = bookId
  · subst hbook
    rw [Function.update_self]
    exact congrArg (Option.map Int32.toInt) (if_pos rfl)
  · rw [Function.update_of_ne hbook]
    exact congrArg (Option.map Int32.toInt) (if_neg hbook)

/-- The draw of an item from the stock of its book. -/
abbrev drawItem : InventoryMutation → (Int32 → Option ℤ) → Option (Int32 → Option ℤ) :=
  draw InventoryMutation.bookId fun item => item.quantity.toInt

/-- On the stock of the books, reserving an item is drawing it. -/
theorem take_view (item : InventoryMutation) (s : MemoryInventory) :
    (reservation.take item s).map stockOf = drawItem item (stockOf s) := by
  have hstock : stockOf s item.bookId = (s.stock item.bookId).map Int32.toInt := rfl
  simp only [reservation, MemoryInventory.reserveStock, drawItem, draw, hstock]
  cases hentry : s.stock item.bookId with
  | none =>
    by_cases hq : item.quantity ≤ 0
    · rw [if_pos hq]
      rfl
    · rw [if_neg hq]
      rfl
  | some value =>
    rw [Option.map_some]
    dsimp only
    by_cases hq : item.quantity ≤ 0
    · have hnot : ¬ (0 < item.quantity.toInt ∧ item.quantity.toInt ≤ value.toInt) := by
        rw [Int32.le_iff_toInt_le, Int32.toInt_zero] at hq
        omega
      rw [if_pos hq, if_neg hnot]
      rfl
    have hpos := toInt_pos_of_not_le hq
    rw [if_neg hq]
    by_cases hlt : value < item.quantity
    · have hnot : ¬ (0 < item.quantity.toInt ∧ item.quantity.toInt ≤ value.toInt) := by
        rw [Int32.lt_iff_toInt_lt] at hlt
        omega
      rw [if_pos hlt, if_neg hnot]
      rfl
    · have hle := le_toInt_of_not_lt hlt
      rw [if_neg hlt, if_pos ⟨hpos, hle⟩, ← toInt_sub_of_covered hpos hle, ← stockOf_put]
      rfl

/-! ## All or nothing -/

/-- What a list may ask for: positive quantities of books that have an entry, and of no
book more than there is of it. -/
structure Granted (items : List InventoryMutation) (s : MemoryInventory) : Prop where
  positive : ∀ item ∈ items, 0 < item.quantity.toInt
  entries : ∀ item ∈ items, (s.stock item.bookId).isSome
  covered : ∀ item ∈ items, requested item.bookId items ≤ available s item.bookId

/-- Every book is lowered by what is asked of it, and no entry comes or goes. -/
def Lowered (items : List InventoryMutation) (s s' : MemoryInventory) : Prop :=
  ∀ book, stockOf s' book = (stockOf s book).map (· - requested book items)

section Granted

variable {items : List InventoryMutation} {s s' : MemoryInventory}

theorem granted_iff_covered : Granted items s ↔ ∀ item ∈ items, Covered InventoryMutation.bookId
    (fun item => item.quantity.toInt) items (stockOf s) item := by
  have hentry (book : Int32) (n : ℤ) : (∃ value, stockOf s book = some value ∧ n ≤ value) ↔
      (s.stock book).isSome ∧ n ≤ available s book := by
    unfold stockOf available
    cases s.stock book <;> simp
  constructor
  · intro h item hitem
    exact ⟨h.positive item hitem, (hentry _ _).mpr ⟨h.entries item hitem, h.covered item hitem⟩⟩
  · intro h
    have hboth := fun item hitem => (hentry _ _).mp (h item hitem).2
    exact ⟨fun item hitem => (h item hitem).1, fun item hitem => (hboth item hitem).1,
      fun item hitem => (hboth item hitem).2⟩

/-- All items can be drawn just when they may be granted. -/
theorem takeAll_drawItem_iff {stock : Int32 → Option ℤ} :
    takeAll drawItem items (stockOf s) = some stock ↔ Granted items s ∧
      ∀ book, stock book = (stockOf s book).map (· - requested book items) := by
  rw [granted_iff_covered]
  exact takeAll_draw_iff items (stockOf s) stock

/-- An item that is positive and covered has an entry. -/
theorem granted_iff_available : Granted items s ↔ ∀ item ∈ items,
    0 < item.quantity.toInt ∧ requested item.bookId items ≤ available s item.bookId := by
  refine ⟨fun h item hitem => ⟨h.positive item hitem, h.covered item hitem⟩, fun h =>
    ⟨fun item hitem => (h item hitem).1, fun item hitem => ?_, fun item hitem => (h item hitem).2⟩⟩
  have hmost : item.quantity.toInt ≤ requested item.bookId items :=
    Tally.weight_le_tally _ _ items (fun i hi => (h i hi).1.le) hitem
  obtain ⟨hpos, hle⟩ := h item hitem
  cases hentry : s.stock item.bookId with
  | some _ => rfl
  | none =>
    rw [available, hentry, Option.getD_none, Int32.toInt_zero] at hle
    omega

theorem Granted.requested_le (h : Granted items s) {book : Int32} (hbook : 0 ≤ available s book) :
    requested book items ≤ available s book := by
  by_cases hzero : requested book items = 0
  · omega
  · obtain ⟨item, hitem, rfl⟩ := Tally.exists_mem_of_tally_ne_zero _ _ _ _ hzero
    exact h.covered item hitem

theorem Lowered.available (h : Lowered items s s') (hgranted : Granted items s) (book : Int32) :
    available s' book = available s book - requested book items := by
  have hbook := h book
  unfold stockOf at hbook
  unfold MemoryStock.available
  cases hentry : s.stock book with
  | some value =>
    rw [hentry, Option.map_some, Option.map_some] at hbook
    obtain ⟨value', hvalue', heq⟩ := Option.map_eq_some_iff.mp hbook
    rw [hvalue', Option.getD_some, Option.getD_some, heq]
  | none =>
    have hzero : requested book items = 0 := by
      by_contra hne
      obtain ⟨item, hitem, rfl⟩ := Tally.exists_mem_of_tally_ne_zero _ _ _ _ hne
      have hsome := hgranted.entries item hitem
      rw [hentry] at hsome
      cases hsome
    rw [hentry, Option.map_none, Option.map_none] at hbook
    rw [Option.map_eq_none_iff.mp hbook, hzero, Int.sub_zero]

/-- The loop takes a list that may be granted, and leaves everything as it was otherwise. -/
theorem reserveEach_cases (items : List InventoryMutation) (s : MemoryInventory) :
    (Granted items s ∧ ∃ s', (reserveEach service [] items).run s = (true, s') ∧
      Lowered items s s') ∨
    (¬ Granted items s ∧ (reserveEach service [] items).run s = (false, s)) := by
  have hview := takeAll_view take_view items s
  rw [run_reserveEach, reservation.attempt_nil]
  cases htaken : takeAll reservation.take items s with
  | some s' =>
    rw [htaken] at hview
    obtain ⟨hgranted, hlowered⟩ := takeAll_drawItem_iff.mp hview.symm
    exact .inl ⟨hgranted, s', rfl, hlowered⟩
  | none =>
    rw [htaken] at hview
    refine .inr ⟨fun hgranted => ?_, rfl⟩
    have hsome := takeAll_drawItem_iff.mpr ⟨hgranted, fun _ => rfl⟩
    rw [← hview] at hsome
    cases hsome

theorem Granted.run (h : Granted items s) :
    ∃ s', (reserveEach service [] items).run s = (true, s') ∧ Lowered items s s' := by
  rcases reserveEach_cases items s with ⟨-, htaken⟩ | ⟨hno, -⟩
  · exact htaken
  · exact absurd h hno

theorem run_of_not_granted (h : ¬ Granted items s) :
    (reserveEach service [] items).run s = (false, s) := by
  rcases reserveEach_cases items s with ⟨hyes, -⟩ | ⟨-, hrun⟩
  · exact absurd hyes h
  · exact hrun

/-- What the loop leaves in stock. -/
theorem available_reserveEach (items : List InventoryMutation) (s : MemoryInventory) :
    (Granted items s ∧ ((reserveEach service [] items).run s).1 = true ∧
      ∀ book, available (after (reserveEach service [] items) s) book =
        available s book - requested book items) ∨
    (¬ Granted items s ∧ (reserveEach service [] items).run s = (false, s)) := by
  rcases reserveEach_cases items s with ⟨hgranted, s', hrun, hlowered⟩ | hrefused
  · refine .inl ⟨hgranted, by rw [hrun], fun book => ?_⟩
    rw [after, hrun]
    exact hlowered.available hgranted book
  · exact .inr hrefused

end Granted

/-- How a reservation of a list turns out. -/
structure AllOrNothing (items : List InventoryMutation) (s : MemoryInventory)
    (outcome : Bool × MemoryInventory) : Prop where
  accepted : outcome.1 = true ↔ (∀ item ∈ items, 0 < item.quantity.toInt) ∧
    (∀ item ∈ items, (s.stock item.bookId).isSome) ∧
    ∀ book, requested book items ≤ available s book
  lowered : outcome.1 = true → Lowered items s outcome.2
  kept : outcome.1 = false → outcome.2 = s

/-- The batch reservation takes a list whole, just when every book covers it, or changes
nothing. -/
theorem batch_all_or_nothing {s : MemoryInventory} (hstock : NonNegative s) (id : String)
    (items : List InventoryMutation) : AllOrNothing items s
      (((localInventoryClient MemoryInventory.repository).reserveBatch id items).run s) := by
  change AllOrNothing items s ((reserveEach service [] items).run s)
  have hgranted : Granted items s ↔ (∀ item ∈ items, 0 < item.quantity.toInt) ∧
      (∀ item ∈ items, (s.stock item.bookId).isSome) ∧
      ∀ book, requested book items ≤ available s book := by
    constructor
    · intro h
      exact ⟨h.positive, h.entries, fun book => h.requested_le (hstock book)⟩
    · rintro ⟨hpositive, hentries, hcovered⟩
      exact ⟨hpositive, hentries, fun item _ => hcovered item.bookId⟩
  rcases reserveEach_cases items s with ⟨hyes, s', hrun, hlowered⟩ | ⟨hno, hrun⟩
  · rw [hrun]
    exact ⟨iff_of_true rfl (hgranted.mp hyes), fun _ => hlowered, nofun⟩
  · rw [hrun]
    exact ⟨iff_of_false nofun fun h => hno (hgranted.mpr h), nofun, fun _ => rfl⟩

/-- Five copies of one book and one of another. -/
def twoBooks : MemoryInventory where
  stock book := if book = 1 then some 5 else if book = 2 then some 1 else none

theorem nonNegative_twoBooks : NonNegative twoBooks := by
  intro book
  unfold available twoBooks
  dsimp only
  split
  · decide
  · split <;> decide

/-- The copies of a book that is named twice are counted together. -/
theorem two_books_all_or_nothing : AllOrNothing [⟨1, 2⟩, ⟨2, 1⟩, ⟨1, 4⟩] twoBooks
    (((localInventoryClient MemoryInventory.repository).reserveBatch "order-7-1"
      [⟨1, 2⟩, ⟨2, 1⟩, ⟨1, 4⟩]).run twoBooks) :=
  batch_all_or_nothing nonNegative_twoBooks "order-7-1" _

end Bookstore.LocalReservations
