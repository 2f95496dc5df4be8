import Bookstore.MemoryStock
import Bookstore.Runs

/-!
The stock of MemoryInventoryRepository over whole runs of its methods, called
through InventoryService, which passes any ids, quantities and lists on.
-/
namespace Bookstore.StockLevels

open Interleaving MachineInt MemoryStock Records Repositories Runs Services

inductive Call
  | addStock (bookId quantity : Int32)
  | reserveStock (bookId quantity : Int32)
  | releaseStock (bookId quantity : Int32)
  | reserveBatch (id : String) (items : List InventoryMutation)
  | releaseBatch (id : String) (items : List InventoryMutation)

def perform (s : MemoryInventory) : Call → MemoryInventory
  | .addStock bookId quantity => after (service.addStock bookId quantity) s
  | .reserveStock bookId quantity => after (service.reserveStock bookId quantity) s
  | .releaseStock bookId quantity => after (service.releaseStock bookId quantity) s
  | .reserveBatch id items => after (service.reserveBatch id items) s
  | .releaseBatch id items => after (service.releaseBatch id items) s

/-- The sums and differences that the call computes are ints. -/
def NoOverflow (s : MemoryInventory) : Call → Prop
  | .addStock bookId quantity =>
    0 < bookId.toInt → available s bookId + quantity.toInt ≤ intMax
  | .reserveStock _ _ => True
  | .releaseStock bookId quantity => available s bookId + quantity.toInt ≤ intMax
  | .reserveBatch _ items =>
    s.canReserve items = true → ∀ book, -2147483648 ≤ available s book - requested book items
  | .releaseBatch _ items =>
    ∀ book, available s book + requested book (heeded items) ≤ intMax

/-- No stored quantity is negative after the call, and a batch that succeeds
takes the sum that it asks of each book. -/
structure Kept (s : MemoryInventory) (call : Call) : Prop where
  nonneg : NonNegative (perform s call)
  taken : ∀ id items, call = .reserveBatch id items →
    ((service.reserveBatch id items).run s).1 = true →
    ∀ book, available (perform s call) book = available s book - requested book items

/-- A batch whose items pass the check one by one has its sums in stock. -/
def Covered (s : MemoryInventory) : Call → Prop
  | .reserveBatch _ items =>
    s.canReserve items = true → ∀ book, requested book items ≤ available s book
  | _ => True

variable {s : MemoryInventory}

theorem increase_nonneg (h : NonNegative s) {bookId quantity : Int32}
    (hq : 0 < quantity.toInt) (hfits : available s bookId + quantity.toInt ≤ intMax) :
    NonNegative (s.increase bookId quantity) := by
  intro book
  have hbook := h book
  rw [available_increase s bookId quantity book hq.le (h bookId) hfits]
  split <;> omega

theorem addStock_nonneg (h : NonNegative s) {bookId quantity : Int32}
    (hfits : NoOverflow s (.addStock bookId quantity)) :
    NonNegative (perform s (.addStock bookId quantity)) := by
  by_cases hrefused : bookId ≤ 0 ∨ quantity ≤ 0
  · have hsame : perform s (.addStock bookId quantity) = s := by
      simp [perform, after, inventoryService, hrefused]
    rw [hsame]
    exact h
  · have hadded : perform s (.addStock bookId quantity) = s.increase bookId quantity := by
      simp [perform, after, inventoryService, MemoryInventory.repository,
        MemoryInventory.addStock, hrefused]
    obtain ⟨hbook, hq⟩ := not_or.mp hrefused
    rw [hadded]
    exact increase_nonneg h (toInt_pos_of_not_le hq) (hfits (toInt_pos_of_not_le hbook))

theorem reserveStock_nonneg (h : NonNegative s) (bookId quantity : Int32) :
    NonNegative (perform s (.reserveStock bookId quantity)) := by
  intro book
  have hbook := h book
  simp only [perform, after, run_reserveStock]
  rcases reserveStock_cases s bookId quantity with hrefused | ⟨s', hs', -, hcovered, hstep⟩
  · rw [hrefused]
    exact hbook
  · rw [hs', hstep book]
    split
    · rename_i heq
      rw [← heq]
      omega
    · omega

theorem releaseStock_nonneg (h : NonNegative s) {bookId quantity : Int32}
    (hfits : NoOverflow s (.releaseStock bookId quantity)) :
    NonNegative (perform s (.releaseStock bookId quantity)) := by
  simp only [perform, after, run_releaseStock]
  by_cases hq : quantity ≤ 0
  · simp only [MemoryInventory.releaseStock, hq, if_true]
    exact h
  · have hpos := toInt_pos_of_not_le hq
    rw [releaseStock_eq s hpos]
    exact increase_nonneg h hpos hfits

theorem releaseBatch_nonneg (h : NonNegative s) {id : String} {items : List InventoryMutation}
    (hfits : NoOverflow s (.releaseBatch id items)) :
    NonNegative (perform s (.releaseBatch id items)) := by
  intro book
  have hbook := h book
  have hgiven : 0 ≤ requested book (heeded items) := by
    apply requested_nonneg
    intro item hitem
    have hq := of_decide_eq_true (List.mem_filter.mp hitem).2
    rw [Int32.lt_iff_toInt_lt] at hq
    simpa using hq
  have hall := available_releaseBatch items s h hfits book
  change 0 ≤ available (MemoryInventory.releaseBatch items s) book
  omega

/-- A batch that succeeds takes its sums, whether or not they are there. -/
theorem reserveBatch_taken {id : String} {items : List InventoryMutation}
    (hfits : NoOverflow s (.reserveBatch id items))
    (haccepted : ((service.reserveBatch id items).run s).1 = true) :
    s.canReserve items = true ∧ ∀ book,
      available (perform s (.reserveBatch id items)) book =
        available s book - requested book items := by
  change (MemoryInventory.reserveBatch items s).1 = true at haccepted
  change _ ∧ ∀ book, available (MemoryInventory.reserveBatch items s).2 book = _
  unfold MemoryInventory.reserveBatch at haccepted ⊢
  split at haccepted
  · cases haccepted
  · split at haccepted
    · rename_i hne hcan
      have hpos : ∀ item ∈ items, 0 < item.quantity.toInt := fun item hitem =>
        ((canReserve_iff s items).mp hcan item hitem).1
      refine ⟨hcan, fun book => ?_⟩
      rw [if_neg hne, if_pos hcan]
      exact available_takeAll items s hpos (hfits hcan) book
    · cases haccepted

theorem reserveBatch_refused {id : String} {items : List InventoryMutation}
    (hrefused : ((service.reserveBatch id items).run s).1 = false) :
    perform s (.reserveBatch id items) = s := by
  change (MemoryInventory.reserveBatch items s).1 = false at hrefused
  change (MemoryInventory.reserveBatch items s).2 = s
  unfold MemoryInventory.reserveBatch at hrefused ⊢
  split at hrefused
  · rw [if_pos ‹_›]
  · split at hrefused
    · cases hrefused
    · rw [if_neg ‹_›, if_neg ‹_›]

/-- The check of a batch and its acceptance differ on the empty list only. -/
theorem accepted_of_canReserve {id : String} {items : List InventoryMutation}
    (hne : items ≠ []) (hcan : s.canReserve items = true) :
    ((service.reserveBatch id items).run s).1 = true := by
  change (MemoryInventory.reserveBatch items s).1 = true
  unfold MemoryInventory.reserveBatch
  rw [if_neg (by simpa using hne), if_pos hcan]

theorem reserveBatch_kept_iff (h : NonNegative s) {id : String} {items : List InventoryMutation}
    (hfits : NoOverflow s (.reserveBatch id items)) :
    Kept s (.reserveBatch id items) ↔ Covered s (.reserveBatch id items) := by
  constructor
  · intro hkept hcan book
    by_cases hne : items = []
    · rw [hne]
      exact h book
    · have haccepted := @accepted_of_canReserve s id items hne hcan
      have hleft := hkept.nonneg book
      rw [(reserveBatch_taken hfits haccepted).2 book] at hleft
      omega
  · intro hcovered
    refine ⟨fun book => ?_, ?_⟩
    · cases haccepted : ((service.reserveBatch id items).run s).1 with
      | true =>
        obtain ⟨hcan, htaken⟩ := reserveBatch_taken hfits haccepted
        have hroom := hcovered hcan book
        rw [htaken book]
        omega
      | false =>
        rw [reserveBatch_refused haccepted]
        exact h book
    · intro id' items' heq haccepted
      cases heq
      exact (reserveBatch_taken hfits haccepted).2

theorem kept_iff (h : NonNegative s) (call : Call) (hfits : NoOverflow s call) :
    Kept s call ↔ Covered s call := by
  have hsingle : NonNegative (perform s call) → (∀ id items, call ≠ .reserveBatch id items) →
      Kept s call := fun hnonneg hnot => ⟨hnonneg, fun id items heq => absurd heq (hnot id items)⟩
  cases call with
  | addStock bookId quantity =>
    exact iff_of_true (hsingle (addStock_nonneg h hfits) (by simp)) trivial
  | reserveStock bookId quantity =>
    exact iff_of_true (hsingle (reserveStock_nonneg h bookId quantity) (by simp)) trivial
  | releaseStock bookId quantity =>
    exact iff_of_true (hsingle (releaseStock_nonneg h hfits) (by simp)) trivial
  | releaseBatch id items =>
    exact iff_of_true (hsingle (releaseBatch_nonneg h hfits) (by simp)) trivial
  | reserveBatch id items => exact reserveBatch_kept_iff h hfits

/-- Over every run without overflow no stock becomes negative and every batch
takes its sums if and only if every batch that passes the check is covered. -/
theorem never_negative_iff (hstart : NonNegative s) (calls : List Call)
    (hfits : Always perform NoOverflow s calls) :
    Always perform Kept s calls ↔ Always perform Covered s calls := by
  have hstep : ∀ s call, NonNegative s → NoOverflow s call → (Kept s call ↔ Covered s call) :=
    fun _ call h hcall => kept_iff h call hcall
  have hkeep : ∀ s call, NonNegative s → NoOverflow s call → Kept s call →
      NonNegative (perform s call) := fun _ _ _ _ hkept => hkept.nonneg
  exact always_iff hstep hkeep hstart calls hfits

/-! ## Two copies of one book -/

/-- One book with the given stock. -/
def oneBook (stock : Int32) : MemoryInventory := ⟨fun book => if book = 1 then some stock else none⟩

theorem oneBook_nonneg {stock : Int32} (h : 0 ≤ stock.toInt) : NonNegative (oneBook stock) := by
  intro book
  by_cases hbook : book = 1
  · simpa [available, oneBook, hbook] using h
  · simp [available, oneBook, hbook]

/-- One copy of the book, asked for twice. -/
def twice : List InventoryMutation := [⟨1, 1⟩, ⟨1, 1⟩]

theorem requested_twice (book : Int32) : requested book twice = if book = 1 then 2 else 0 := by
  by_cases hbook : book = 1
  · rw [hbook]
    decide
  · simp [twice, hbook, Ne.symm hbook]

theorem never_negative_small : Always perform Kept (oneBook 2) [.reserveBatch "r-1" twice] := by
  have hstart : NonNegative (oneBook 2) := oneBook_nonneg (by decide)
  have hroom : ∀ book, requested book twice ≤ available (oneBook 2) book := by
    intro book
    rw [requested_twice]
    by_cases hbook : book = 1
    · rw [hbook]
      decide
    · rw [if_neg hbook]
      exact hstart book
  have hfits : Always perform NoOverflow (oneBook 2) [.reserveBatch "r-1" twice] := by
    refine ⟨fun _ book => ?_, trivial⟩
    have := hroom book
    omega
  exact (never_negative_iff hstart _ hfits).mpr ⟨fun _ => hroom, trivial⟩

/-- Each item passes the check alone, and the stock becomes negative. -/
theorem batch_drives_stock_negative :
    NonNegative (oneBook 1) ∧ Always perform NoOverflow (oneBook 1) [.reserveBatch "r-1" twice] ∧
      ((service.reserveBatch "r-1" twice).run (oneBook 1)).1 = true ∧
      available (perform (oneBook 1) (.reserveBatch "r-1" twice)) 1 = -1 := by
  have hstart : NonNegative (oneBook 1) := oneBook_nonneg (by decide)
  refine ⟨hstart, ⟨?_, trivial⟩, by decide, by decide⟩
  intro _ book
  have := hstart book
  rw [requested_twice]
  split <;> omega

end Bookstore.StockLevels
