import Bookstore.BatchFaults
import Bookstore.LocalReservations

/-!
The three batch reservations side by side: the loop of LocalInventoryClient over
single reservations, the two loops of MemoryInventoryRepository, and the
transaction of MysqlInventoryRepository, from the same stock.
-/
namespace Bookstore.BatchAgreement

open BatchFaults Database Interleaving LocalReservations MachineInt MemoryStock MysqlInventory
open Records Repositories Services Transactions

section Batches

variable (id : String) (items : List InventoryMutation)

def localBatch (s : MemoryInventory) : Bool × MemoryInventory :=
  ((localInventoryClient MemoryInventory.repository).reserveBatch id items).run s

def memoryBatch (s : MemoryInventory) : Bool × MemoryInventory :=
  (MemoryInventory.repository.reserveBatch id items).run s

def mysqlBatch (m : MySql) : Bool × MySql := (MysqlInventory.repository.reserveBatch id items).run m

end Batches

/-- available_stock answers the same from the map and from the tables. -/
def Shows (s : MemoryInventory) (db : Db) : Prop :=
  ∀ book : Int32, 0 < book.toInt → db.inventory book.toInt = (s.stock book).map Int32.toInt

/-- The foreign keys of inventory and of inventory_reservation_items. -/
structure Keyed (db : Db) : Prop where
  books : ∀ book, (db.inventory book).isSome → (db.books book).isSome
  parents : ∀ row ∈ db.reservationItems, (db.reservations row.reservationId).isSome

/-- The three answer alike and leave the same stock. -/
structure Agree (id : String) (items : List InventoryMutation) (s : MemoryInventory) (m : MySql) :
    Prop where
  localAnswer : (localBatch id items s).1 = (memoryBatch id items s).1
  mysqlAnswer : (mysqlBatch id items m).1 = (memoryBatch id items s).1
  localStock : ∀ book, (localBatch id items s).2.stock book = (memoryBatch id items s).2.stock book
  tables : Shows (memoryBatch id items s).2 (mysqlBatch id items m).2.db

/-! ## Entries of the stock map -/

/-- The same books have an entry. -/
def SameEntries (s s' : MemoryInventory) : Prop :=
  ∀ book, (s'.stock book).isSome = (s.stock book).isSome

theorem SameEntries.trans {a b c : MemoryInventory} (h : SameEntries a b) (h' : SameEntries b c) :
    SameEntries a c := fun book => (h' book).trans (h book)

theorem sameEntries_put {s : MemoryInventory} {bookId : Int32} (h : (s.stock bookId).isSome = true)
    (value : Int32) : SameEntries s (s.put bookId value) := by
  intro book
  by_cases hbook : book = bookId
  · simp [MemoryInventory.put, hbook, h]
  · simp [MemoryInventory.put, hbook]

theorem stock_eq {s s' : MemoryInventory} (hentries : SameEntries s s')
    (havailable : ∀ book, available s' book = available s book) (book : Int32) :
    s'.stock book = s.stock book := by
  have hentry := hentries book
  have hvalue := havailable book
  unfold available at hvalue
  cases hold : s.stock book with
  | none =>
    rw [hold] at hentry
    exact Option.not_isSome_iff_eq_none.mp (by simp [hentry])
  | some value =>
    rw [hold] at hentry hvalue
    obtain ⟨value', hnew⟩ := Option.isSome_iff_exists.mp hentry
    rw [hnew, Option.getD_some, Option.getD_some] at hvalue
    rw [hnew, Int32.toInt_inj.mp hvalue]

theorem sameEntries_of_lowered {items : List InventoryMutation} {s s' : MemoryInventory}
    (h : Lowered items s s') : SameEntries s s' := by
  intro book
  have hbook := congrArg Option.isSome (h book)
  unfold stockOf at hbook
  rwa [Option.isSome_map, Option.isSome_map, Option.isSome_map] at hbook

theorem sameEntries_takeAll (items : List InventoryMutation) (s : MemoryInventory)
    (hentries : ∀ item ∈ items, (s.stock item.bookId).isSome = true) :
    SameEntries s (s.takeAll items) := by
  induction items generalizing s with
  | nil => exact fun _ => rfl
  | cons item rest ih =>
    have hstep := sameEntries_put (hentries item (by simp))
      ((s.stock item.bookId).getD 0 - item.quantity)
    refine hstep.trans (ih _ fun i hi => ?_)
    rw [hstep i.bookId]
    exact hentries i (by simp [hi])

/-! ## Sums of lists without repetitions -/

theorem requested_absent {book : Int32} {items : List InventoryMutation}
    (h : book ∉ items.map InventoryMutation.bookId) : requested book items = 0 := by
  by_contra hne
  obtain ⟨item, hitem, hbook⟩ := Tally.exists_mem_of_tally_ne_zero _ _ _ _ hne
  exact h (hbook ▸ List.mem_map_of_mem hitem)

/-- Without repetitions the sums are covered when the items are. -/
theorem requested_le_of_nodup {items : List InventoryMutation} {stock : Int32 → ℤ}
    (hdistinct : (items.map InventoryMutation.bookId).Nodup) (hstock : ∀ book, 0 ≤ stock book)
    (hcovered : ∀ item ∈ items, item.quantity.toInt ≤ stock item.bookId) (book : Int32) :
    requested book items ≤ stock book := by
  induction items with
  | nil => simpa using hstock book
  | cons item rest ih =>
    obtain ⟨hnot, hrest⟩ := List.nodup_cons.mp hdistinct
    rw [requested_cons]
    split
    · rename_i hbook
      have hcover := hcovered item (by simp)
      rw [← hbook, requested_absent hnot]
      omega
    · have := ih hrest fun i hi => hcovered i (by simp [hi])
      omega

/-! ## Each of the three -/

section Outcomes

variable {id : String} {items : List InventoryMutation} {s : MemoryInventory} {m : MySql}

theorem localBatch_accepts (hpos : Positive items)
    (hcovered : ∀ book, requested book items ≤ available s book) :
    (localBatch id items s).1 = true ∧ SameEntries s (localBatch id items s).2 ∧
      ∀ book, available (localBatch id items s).2 book =
        available s book - requested book items := by
  have hgranted : Granted items s :=
    granted_iff_available.mpr fun item hitem => ⟨(hpos item hitem).2, hcovered item.bookId⟩
  change ((reserveEach service [] items).run s).1 = true ∧
    SameEntries s ((reserveEach service [] items).run s).2 ∧
      ∀ book, available ((reserveEach service [] items).run s).2 book = _
  obtain ⟨s', hrun, hlowered⟩ := hgranted.run
  rw [hrun]
  exact ⟨rfl, sameEntries_of_lowered hlowered, hlowered.available hgranted⟩

/-- It gives everything back when one item is not covered. -/
theorem localBatch_refuses {item : InventoryMutation} (hitem : item ∈ items)
    (hpos : Positive items) (hshort : available s item.bookId < item.quantity.toInt) :
    localBatch id items s = (false, s) := by
  refine run_of_not_granted fun hgranted => ?_
  have hmost : item.quantity.toInt ≤ requested item.bookId items :=
    Tally.weight_le_tally _ _ items (fun i hi => (hpos i hi).2.le) hitem
  have hle := hgranted.covered item hitem
  omega

theorem memoryBatch_accepts (hne : items ≠ []) (hpos : Positive items)
    (hcovered : ∀ item ∈ items, item.quantity.toInt ≤ available s item.bookId) :
    memoryBatch id items s = (true, s.takeAll items) := by
  have hcan : s.canReserve items = true := by
    rw [canReserve_iff]
    exact fun item hitem => ⟨(hpos item hitem).2, hcovered item hitem⟩
  change MemoryInventory.reserveBatch items s = _
  unfold MemoryInventory.reserveBatch
  rw [if_neg (by simpa using hne), if_pos hcan]

theorem memoryBatch_refuses {item : InventoryMutation} (hitem : item ∈ items)
    (hshort : available s item.bookId < item.quantity.toInt) :
    memoryBatch id items s = (false, s) := by
  have hcan : ¬ s.canReserve items = true := by
    rw [canReserve_iff]
    intro hall
    have := (hall item hitem).2
    omega
  change MemoryInventory.reserveBatch items s = _
  unfold MemoryInventory.reserveBatch
  rw [if_neg hcan]
  split <;> rfl

theorem Keyed.clear (hkeys : Keyed m.db) (hnew : m.db.reservations id = none) :
    ∀ row ∈ m.db.reservationItems, row.reservationId ≠ id := by
  intro row hrow heq
  have hparent := hkeys.parents row hrow
  rw [heq, hnew] at hparent
  cases hparent

theorem mysqlBatch_accepts (hreliable : m.Reliable) (hkeys : Keyed m.db)
    (hnew : m.db.reservations id = none) (hbookable : Bookable id items m.db) :
    (mysqlBatch id items m).1 = true ∧
      (∀ book, (mysqlBatch id items m).2.db.available book =
        m.db.available book - requestedAt book items) ∧
      ∀ book, ((mysqlBatch id items m).2.db.inventory book).isSome =
        (m.db.inventory book).isSome := by
  obtain ⟨hnamed, hne, hpos, hinsert, hrows⟩ :=
    (bookable_iff id items m.db hnew (hkeys.clear hnew)).mp hbookable
  have haccepted := reserveBatch_reliable hreliable hnew hnamed hne hpos hinsert hrows
  refine ⟨haccepted, ?_⟩
  obtain ⟨ok, db', c, hrun, hcases⟩ := reserveBatch_spec id items m
  change (mysqlBatch id items m) = _ at hrun
  change (mysqlBatch id items m).1 = true at haccepted
  rw [hrun] at haccepted ⊢
  rcases hcases with ⟨-, hagain⟩ | ⟨-, -, -, hreserved⟩
  · rw [hnew] at hagain
    cases (hagain haccepted).2
  · exact ⟨hreserved.available, hreserved.rows⟩

theorem mysqlBatch_refuses (hkeys : Keyed m.db) (hnew : m.db.reservations id = none)
    (hnot : ¬ Bookable id items m.db) :
    (mysqlBatch id items m).1 = false ∧ (mysqlBatch id items m).2.db = m.db := by
  have hrefused : (mysqlBatch id items m).1 = false := by
    rw [← Bool.not_eq_true]
    intro haccepted
    apply hnot
    rw [bookable_iff id items m.db hnew (hkeys.clear hnew)]
    obtain ⟨hnamed, hne, hpos, hinsert, hrows, -, -⟩ := reserveBatch_booked hnew haccepted
    exact ⟨hnamed, hne, hpos, hinsert, hrows⟩
  refine ⟨hrefused, ?_⟩
  obtain ⟨ok, db', c, hrun, hcases⟩ := reserveBatch_spec id items m
  change (mysqlBatch id items m) = _ at hrun
  rw [hrun] at hrefused ⊢
  rcases hcases with ⟨hsame, -⟩ | ⟨htrue, -⟩
  · exact hsame
  · rw [htrue] at hrefused
    cases hrefused

theorem Shows.available_eq (h : Shows s m.db) {book : Int32} (hbook : 0 < book.toInt) :
    m.db.available book.toInt = available s book := by
  rw [Db.available, h book hbook, MemoryStock.available]
  cases s.stock book <;> rfl

/-- Every item is covered by an entry of the tables when it is by one of the map. -/
theorem Shows.bookable_iff (h : Shows s m.db) (hkeys : Keyed m.db) (hne : items ≠ [])
    (hpos : Positive items)
    (hcovered : ∀ item ∈ items, item.quantity.toInt ≤ available s item.bookId) :
    Bookable id items m.db ↔ id.isEmpty = false ∧ id.length ≤ 96 ∧
      (items.map InventoryMutation.bookId).Nodup := by
  have hrow : ∀ item ∈ items, ∃ value, m.db.inventory item.bookId.toInt = some value ∧
      item.quantity.toInt ≤ value := by
    intro item hitem
    obtain ⟨hbook, hq⟩ := hpos item hitem
    have hcover := hcovered item hitem
    rw [h item.bookId hbook]
    cases hentry : s.stock item.bookId with
    | none =>
      simp only [MemoryStock.available, hentry, Option.getD_none, Int32.toInt_zero] at hcover
      omega
    | some value =>
      simp only [MemoryStock.available, hentry, Option.getD_some] at hcover
      exact ⟨value.toInt, rfl, hcover⟩
  constructor
  · intro hbookable
    exact ⟨hbookable.named, hbookable.short, hbookable.distinct⟩
  · rintro ⟨hnamed, hshort, hdistinct⟩
    refine ⟨hne, hnamed, hshort, hpos, hdistinct, fun item hitem => ?_, hrow⟩
    obtain ⟨value, hvalue, -⟩ := hrow item hitem
    exact hkeys.books _ (by rw [hvalue]; rfl)

/-- The batch that all three accept. -/
theorem agree_of_bookable (hstock : NonNegative s) (hshows : Shows s m.db) (hkeys : Keyed m.db)
    (hreliable : m.Reliable) (hnew : m.db.reservations id = none) (hne : items ≠ [])
    (hpos : Positive items) (hdistinct : (items.map InventoryMutation.bookId).Nodup)
    (hcovered : ∀ item ∈ items, item.quantity.toInt ≤ available s item.bookId)
    (hbookable : Bookable id items m.db) : Agree id items s m := by
  have hsums : ∀ book, requested book items ≤ available s book :=
    requested_le_of_nodup hdistinct hstock hcovered
  have hentries : ∀ item ∈ items, (s.stock item.bookId).isSome = true := by
    intro item hitem
    obtain ⟨value, hvalue, -⟩ := hbookable.covered item hitem
    have hrow := hshows item.bookId (hpos item hitem).1
    rw [hvalue] at hrow
    cases hentry : s.stock item.bookId with
    | none =>
      rw [hentry] at hrow
      cases hrow
    | some _ => rfl
  have hmemory := @memoryBatch_accepts id items s hne hpos hcovered
  have htaken : ∀ book, available (s.takeAll items) book =
      available s book - requested book items := by
    apply available_takeAll items s fun item hitem => (hpos item hitem).2
    intro book
    have := hsums book
    omega
  have hkept := sameEntries_takeAll items s hentries
  obtain ⟨hlocal, hlocalEntries, hlocalStock⟩ := @localBatch_accepts id items s hpos hsums
  obtain ⟨hmysql, hmysqlStock, hmysqlRows⟩ := mysqlBatch_accepts hreliable hkeys hnew hbookable
  refine ⟨?_, ?_, ?_, ?_⟩
  · rw [hlocal, hmemory]
  · rw [hmysql, hmemory]
  · rw [hmemory]
    apply stock_eq
    · intro book
      exact (hlocalEntries book).trans (hkept book).symm
    · intro book
      rw [hlocalStock book, htaken book]
  · rw [hmemory]
    intro book hbook
    have hvalue : (mysqlBatch id items m).2.db.available book.toInt =
        available (s.takeAll items) book := by
      rw [hmysqlStock, htaken book, requestedAt_toInt, hshows.available_eq hbook]
    have hsome := hmysqlRows book.toInt
    rw [hshows book hbook, Option.isSome_map, ← hkept book] at hsome
    unfold Db.available MemoryStock.available at hvalue
    cases hrow : (mysqlBatch id items m).2.db.inventory book.toInt with
    | none =>
      rw [hrow] at hsome
      have hnone : (s.takeAll items).stock book = none :=
        Option.not_isSome_iff_eq_none.mp (by rw [← hsome]; simp)
      rw [hnone]
      rfl
    | some value =>
      rw [hrow] at hsome hvalue
      obtain ⟨entry, hentry⟩ := Option.isSome_iff_exists.mp hsome.symm
      rw [hentry] at hvalue ⊢
      exact congrArg some hvalue

/-- Under a fresh id the three batch reservations agree exactly when the id fits
its column and no book occurs twice, or when some item alone is not covered. -/
theorem batches_agree_iff (hstock : NonNegative s) (hshows : Shows s m.db) (hkeys : Keyed m.db)
    (hreliable : m.Reliable) (hnew : m.db.reservations id = none) (hne : items ≠ [])
    (hpos : Positive items) :
    Agree id items s m ↔
      (id.isEmpty = false ∧ id.length ≤ 96 ∧ (items.map InventoryMutation.bookId).Nodup) ∨
        ∃ item ∈ items, available s item.bookId < item.quantity.toInt := by
  by_cases hshort : ∃ item ∈ items, available s item.bookId < item.quantity.toInt
  · refine iff_of_true ?_ (.inr hshort)
    obtain ⟨item, hitem, hless⟩ := hshort
    have hmemory := @memoryBatch_refuses id items s item hitem hless
    have hlocal := @localBatch_refuses id items s item hitem hpos hless
    have hnot : ¬ Bookable id items m.db := by
      intro hbookable
      obtain ⟨value, hvalue, hle⟩ := hbookable.covered item hitem
      have havailable := hshows.available_eq (hpos item hitem).1
      rw [Db.available, hvalue, Option.getD_some] at havailable
      omega
    obtain ⟨hmysql, hmysqlStock⟩ := mysqlBatch_refuses hkeys hnew hnot
    refine ⟨?_, ?_, ?_, ?_⟩
    · rw [hlocal, hmemory]
    · rw [hmysql, hmemory]
    · exact fun book => by rw [hlocal, hmemory]
    · rw [hmemory, hmysqlStock]
      exact hshows
  · have hcovered : ∀ item ∈ items, item.quantity.toInt ≤ available s item.bookId := by
      intro item hitem
      exact Int.not_lt.mp fun hless => hshort ⟨item, hitem, hless⟩
    have hiff := @Shows.bookable_iff id items s m hshows hkeys hne hpos hcovered
    rw [or_iff_left hshort, ← hiff]
    constructor
    · intro hagree
      by_contra hnot
      have hanswer := hagree.mysqlAnswer
      rw [(mysqlBatch_refuses hkeys hnew hnot).1, memoryBatch_accepts hne hpos hcovered] at hanswer
      cases hanswer
    · intro hbookable
      exact agree_of_bookable hstock hshows hkeys hreliable hnew hne hpos hbookable.distinct
        hcovered hbookable

end Outcomes

/-! ## One book with five copies -/

def fiveCopies : MemoryInventory := ⟨fun book => if book = 1 then some 5 else none⟩

def fiveCopiesTables : Db where
  users := fun _ => false
  books := fun book => if book = 1 then some ⟨"Dune", "Frank Herbert", 4200, 5, "active"⟩ else none
  inventory := fun book => if book = 1 then some 5 else none
  reservations := fun _ => none
  reservationItems := []
  orders := []
  orderItems := []

def fiveCopiesServer : MySql := ⟨fiveCopiesTables, fun _ => 1, fun _ => false, 0⟩

theorem fiveCopies_nonneg : NonNegative fiveCopies := by
  intro book
  by_cases hbook : book = 1
  · rw [hbook]
    decide
  · simp [available, fiveCopies, hbook]

theorem fiveCopies_shows : Shows fiveCopies fiveCopiesServer.db := by
  intro book _
  by_cases hbook : book = 1
  · rw [hbook]
    rfl
  · have hkey : book.toInt ≠ 1 := fun heq => hbook (Int32.toInt_inj.mp heq)
    simp [fiveCopies, fiveCopiesServer, fiveCopiesTables, hbook, hkey]

theorem fiveCopies_keyed : Keyed fiveCopiesServer.db := by
  constructor
  · intro book hrow
    by_cases hbook : book = 1
    · rw [hbook]
      rfl
    · simp [fiveCopiesServer, fiveCopiesTables, hbook] at hrow
  · simp [fiveCopiesServer, fiveCopiesTables]

/-- One copy is reserved, and two copies at a time. -/
theorem batches_agree_small : Agree "r-1" [⟨1, 2⟩] fiveCopies fiveCopiesServer := by
  apply (batches_agree_iff fiveCopies_nonneg fiveCopies_shows fiveCopies_keyed (fun _ => rfl) rfl
    (by simp) ?_).mpr
  · exact .inl ⟨by decide, by decide, by simp⟩
  · intro item hitem
    rw [List.mem_singleton.mp hitem]
    decide

/-- A book that occurs twice is reserved in memory and refused by the unique key. -/
theorem batches_differ :
    (NonNegative fiveCopies ∧ Shows fiveCopies fiveCopiesServer.db ∧
      Keyed fiveCopiesServer.db ∧ fiveCopiesServer.Reliable) ∧
    (localBatch "r-1" [⟨1, 1⟩, ⟨1, 1⟩] fiveCopies).1 = true ∧
    (memoryBatch "r-1" [⟨1, 1⟩, ⟨1, 1⟩] fiveCopies).1 = true ∧
    (mysqlBatch "r-1" [⟨1, 1⟩, ⟨1, 1⟩] fiveCopiesServer).1 = false :=
  ⟨⟨fiveCopies_nonneg, fiveCopies_shows, fiveCopies_keyed, fun _ => rfl⟩, by decide,
    by decide, by decide +kernel⟩

end Bookstore.BatchAgreement
