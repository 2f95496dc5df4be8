import Bookstore.MysqlInventory

/-!
The reservation ledger of MysqlInventoryRepository: the two batch methods, each
one transaction, under any failures of their statements; the row lock serialises
the calls. Ids are compared exactly here, where the collation of the tables
ignores their case.
-/
namespace Bookstore.ReservationLedger

open Database Interleaving MysqlInventory Records Tally Transactions Transactions.Session

inductive LedgerCall
  | reserve (reservation : String) (items : List InventoryMutation)
  | release (reservation : String) (items : List InventoryMutation)

def perform (s : MySql) : LedgerCall → MySql
  | .reserve reservation items => ((reserveBatch reservation items).run s).2
  | .release reservation items => ((releaseBatch reservation items).run s).2

def performAll (s : MySql) (calls : List LedgerCall) : MySql := calls.foldl perform s

/-- The rows recorded under an id. -/
def recorded (db : Db) (reservation : String) : List ReservationItem :=
  db.reservationItems.filter fun row => row.reservationId = reservation

/-- What a recorded row still keeps out of the stock. -/
def outstandingRow (reservations : String → Option String) (row : ReservationItem) : ℤ :=
  if reservations row.reservationId = some "reserved" then row.quantity else 0

/-- The copies of a book recorded under reservations that are `reserved`. -/
def outstanding (db : Db) (book : ℤ) : ℤ :=
  tally ReservationItem.bookId (outstandingRow db.reservations) book db.reservationItems

/-- Tables that the two methods can have written: no negative stock, two
statuses, and rows of positive quantities of stocked books under known ids. -/
structure Consistent (db : Db) : Prop where
  nonneg : ∀ book, 0 ≤ db.available book
  statuses : ∀ reservation status, db.reservations reservation = some status →
    status = "reserved" ∨ status = "released"
  known : ∀ row ∈ db.reservationItems, (db.reservations row.reservationId).isSome
  items : ∀ row ∈ db.reservationItems, ∃ item : InventoryMutation,
    row = itemRow row.reservationId item ∧ 0 < item.bookId.toInt ∧ 0 < item.quantity.toInt ∧
      (db.inventory item.bookId.toInt).isSome

/-! ## A release under failures -/

/-- The release loop over recorded rows: when it answers true, its redo log
gives all of them back. -/
theorem releaseRows_spec (reservation : String) (items : List InventoryMutation) (f : Db → Db)
    (s : MySql) (hrows : ∀ item ∈ items, ((f s.db).inventory item.bookId.toInt).isSome) :
    ∃ ok g c, exec (releaseRows (items.map (itemRow reservation))) (some f) s =
        ((ok, some g), { s with clock := c }) ∧ (ok = true → Returned items (f s.db) (g s.db)) := by
  induction items generalizing f s with
  | nil => exact ⟨true, f, s.clock, rfl, fun _ => .nil _⟩
  | cons item rest ih =>
    have hbook : atoi item.bookId.toInt = item.bookId := Int32.ofInt_toInt item.bookId
    have hquantity : atoi item.quantity.toInt = item.quantity := Int32.ofInt_toInt item.quantity
    simp only [List.map_cons, releaseRows, itemRow, hbook, hquantity]
    split
    · exact ⟨false, f, s.clock, rfl, by simp⟩
    · rcases query_cases (giveStock item.bookId.toInt item.quantity.toInt) f s with
        ⟨hrun, _⟩ | ⟨changed, _, hrun⟩
      · exact ⟨false, f, s.clock + 1, by simp only [exec_bind, hrun]; rfl, by simp⟩
      · obtain ⟨value, hvalue⟩ := Option.isSome_iff_exists.mp (hrows item (by simp))
        have hstep : ((giveStock item.bookId.toInt item.quantity.toInt).effect ∘ f) s.db =
            { f s.db with
              inventory := Function.update (f s.db).inventory item.bookId.toInt
                (some (value + item.quantity.toInt)) } := giveStock_some hvalue
        obtain ⟨ok, g, c, hexec, hreturned⟩ := ih
          ((giveStock item.bookId.toInt item.quantity.toInt).effect ∘ f) s.tick (by
            intro i hi
            have h := hrows i (by simp [hi])
            simp only [Server.tick_db, hstep]
            rwa [isSome_update (f s.db).inventory item.bookId.toInt _ (by simp [hvalue])])
        simp only [Server.tick_db, hstep] at hreturned
        refine ⟨ok, g, c, ?_, fun hok => .cons hvalue (hreturned hok)⟩
        simp only [exec_bind, hrun]
        exact hexec

/-- The tables after a release that really took place. -/
def Released (reservation : String) (items : List InventoryMutation) (db db' : Db) : Prop :=
  ∃ mid, Returned items db mid ∧ db' = (updateReservationStatus reservation "released").effect mid

theorem unbookReservation_spec (reservation : String) (items : List InventoryMutation)
    (f : Db → Db) (s : MySql)
    (hrecorded : recorded (f s.db) reservation = items.map (itemRow reservation))
    (hrows : ∀ item ∈ items, ((f s.db).inventory item.bookId.toInt).isSome) :
    ∃ ok g c, exec (unbookReservation reservation) (some f) s =
        ((ok, some g), { s with clock := c }) ∧
      (ok = true → Released reservation items (f s.db) (g s.db)) := by
  unfold unbookReservation
  rcases query_cases (selectReservationItems reservation) f s with ⟨hrun, _⟩ | ⟨rows, hresult, hrun⟩
  · exact ⟨false, f, s.clock + 1, by simp only [exec_bind, hrun]; rfl, by simp⟩
  · have hsame : rows = items.map (itemRow reservation) :=
      (Option.some.inj hresult).symm.trans hrecorded
    subst hsame
    obtain ⟨ok, g, c, hexec, hreturned⟩ := releaseRows_spec reservation items
      ((selectReservationItems reservation).effect ∘ f) s.tick hrows
    simp only [exec_bind, hrun, hexec]
    cases ok with
    | false => exact ⟨false, g, c, rfl, by simp⟩
    | true =>
      simp only [if_true, exec_bind]
      rcases query_cases (updateReservationStatus reservation "released") g
        { s.tick with clock := c } with ⟨hupdate, _⟩ | ⟨_, _, hupdate⟩
      · simp only [hupdate]
        exact ⟨false, g, c + 1, rfl, by simp⟩
      · simp only [hupdate]
        exact ⟨true, _, c + 1, rfl, fun _ => ⟨g s.db, hreturned rfl, rfl⟩⟩

/-- A batch release leaves the tables alone, or gives back what is recorded
under an id that is `reserved`. -/
theorem releaseBatch_spec (reservation : String) (items items' : List InventoryMutation) (s : MySql)
    (hrecorded : recorded s.db reservation = items.map (itemRow reservation))
    (hrows : ∀ item ∈ items, (s.db.inventory item.bookId.toInt).isSome) :
    ∃ db' c, (releaseBatch reservation items').run s = ((), { s with db := db', clock := c }) ∧
      (db' = s.db ∨ s.db.reservations reservation = some "reserved" ∧
        Released reservation items s.db db') := by
  refine releaseBatch_cases reservation items' s fun _ => ?_
  exact unbookReservation_spec reservation items
    ((selectReservationStatus reservation).effect ∘ id) s.tick.tick hrecorded hrows

/-! ## What a call does to the ledger -/

theorem Consistent.recorded_eq {db : Db} (h : Consistent db) (reservation : String) :
    ∃ items, recorded db reservation = items.map (itemRow reservation) ∧ Positive items ∧
      ∀ item ∈ items, (db.inventory item.bookId.toInt).isSome := by
  have hrows : ∀ row ∈ recorded db reservation, row.reservationId = reservation ∧
      ∃ item : InventoryMutation, row = itemRow row.reservationId item ∧ 0 < item.bookId.toInt ∧
        0 < item.quantity.toInt ∧ (db.inventory item.bookId.toInt).isSome := by
    intro row hrow
    obtain ⟨hmem, hid⟩ := List.mem_filter.mp hrow
    exact ⟨by simpa using hid, h.items row hmem⟩
  revert hrows
  generalize recorded db reservation = rows
  intro hrows
  induction rows with
  | nil => exact ⟨[], rfl, by simp [Positive], by simp⟩
  | cons row rest ih =>
    obtain ⟨items, hrest, hpos, hstocked⟩ := ih fun r hr => hrows r (by simp [hr])
    obtain ⟨hid, item, hitem, hbook, hquantity, hstock⟩ := hrows row (by simp)
    rw [hid] at hitem
    refine ⟨item :: items, by rw [List.map_cons, hrest, ← hitem], ?_, ?_⟩
    · intro i hi
      rcases List.mem_cons.mp hi with rfl | hmem
      · exact ⟨hbook, hquantity⟩
      · exact hpos i hmem
    · intro i hi
      rcases List.mem_cons.mp hi with rfl | hmem
      · exact hstock
      · exact hstocked i hmem

/-- What rows of one id hold, as long as it is `reserved`. -/
theorem tally_itemRow {reservations : String → Option String} {reservation : String}
    (hreserved : reservations reservation = some "reserved") (items : List InventoryMutation)
    (book : ℤ) :
    tally ReservationItem.bookId (outstandingRow reservations) book
      (items.map (itemRow reservation)) = requestedAt book items := by
  induction items with
  | nil => rfl
  | cons item rest ih =>
    simp only [List.map_cons, tally_cons, requestedAt_cons, ih, outstandingRow, itemRow, hreserved,
      if_true]

/-- Rows of other ids do not change with the status of this one. -/
theorem tally_other {before after : String → Option String} {reservation : String}
    (hother : ∀ id, id ≠ reservation → after id = before id) (rows : List ReservationItem)
    (hrows : ∀ row ∈ rows, row.reservationId ≠ reservation) (book : ℤ) :
    tally ReservationItem.bookId (outstandingRow after) book rows =
      tally ReservationItem.bookId (outstandingRow before) book rows := by
  induction rows with
  | nil => rfl
  | cons row rest ih =>
    have hrow := hother row.reservationId (hrows row (by simp))
    simp only [tally_cons, outstandingRow, hrow, ih fun r hr => hrows r (by simp [hr])]

/-- Releasing an id takes its rows out of the sum. -/
theorem tally_released {before after : String → Option String} {reservation : String}
    (hafter : after reservation = some "released")
    (hother : ∀ id, id ≠ reservation → after id = before id) (rows : List ReservationItem)
    (book : ℤ) :
    tally ReservationItem.bookId (outstandingRow after) book rows +
        tally ReservationItem.bookId (outstandingRow before) book
          (rows.filter fun row => row.reservationId = reservation) =
      tally ReservationItem.bookId (outstandingRow before) book rows := by
  induction rows with
  | nil => rfl
  | cons row rest ih =>
    by_cases hid : row.reservationId = reservation
    · have hrow : outstandingRow after row = 0 := by
        simp [outstandingRow, hid, hafter]
      simp only [List.filter_cons, hid, decide_true, if_true, tally_cons, hrow]
      split <;> omega
    · have hrow : outstandingRow after row = outstandingRow before row := by
        simp only [outstandingRow, hother row.reservationId hid]
      simp only [List.filter_cons, hid, decide_false, Bool.false_eq_true, if_false, tally_cons, hrow]
      omega

/-- One call that books or gives back keeps the ledger in order. -/
structure Booking (db db' : Db) : Prop where
  consistent : Consistent db'
  balance : ∀ book, db'.available book + outstanding db' book =
    db.available book + outstanding db book
  status : ∀ id, db'.reservations id = db.reservations id ∨
    db.reservations id = none ∧ db'.reservations id = some "reserved" ∨
    db.reservations id = some "reserved" ∧ db'.reservations id = some "released"
  fixed : ∀ id, (db.reservations id).isSome → recorded db' id = recorded db id

theorem Booking.refl {db : Db} (h : Consistent db) : Booking db db :=
  ⟨h, fun _ => rfl, fun _ => .inl rfl, fun _ _ => rfl⟩

theorem booking_of_reserved {db db' : Db} {reservation : String} {items : List InventoryMutation}
    (h : Consistent db) (hnew : db.reservations reservation = none) (hpos : Positive items)
    (hreserved : Reserved reservation items db db') :
    Booking db db' ∧ db'.reservations reservation = some "reserved" := by
  have hstatus : db'.reservations = Function.update db.reservations reservation (some "reserved") :=
    hreserved.reservations
  have hself : db'.reservations reservation = some "reserved" := by
    rw [hstatus, Function.update_self]
  have hother : ∀ id, id ≠ reservation → db'.reservations id = db.reservations id := by
    intro id hid
    rw [hstatus, Function.update_of_ne hid]
  have hrows : db'.reservationItems = db.reservationItems ++ items.map (itemRow reservation) :=
    hreserved.recorded
  have hold : ∀ row ∈ db.reservationItems, row.reservationId ≠ reservation := by
    intro row hrow hid
    have hknown := h.known row hrow
    rw [hid, hnew] at hknown
    cases hknown
  have hstock : ∀ book, (db'.inventory book).isSome = (db.inventory book).isSome := hreserved.rows
  refine ⟨⟨⟨hreserved.covered h.nonneg, ?_, ?_, ?_⟩, ?_, ?_, ?_⟩, hself⟩
  · intro id status hid
    by_cases hsame : id = reservation
    · rw [hsame, hself] at hid
      exact .inl (Option.some.inj hid).symm
    · rw [hother id hsame] at hid
      exact h.statuses id status hid
  · intro row hrow
    rw [hrows] at hrow
    rcases List.mem_append.mp hrow with hmem | hmem
    · rw [hother _ (hold row hmem)]
      exact h.known row hmem
    · obtain ⟨item, _, rfl⟩ := List.mem_map.mp hmem
      simp only [itemRow, hself, Option.isSome_some]
  · intro row hrow
    rw [hrows] at hrow
    rcases List.mem_append.mp hrow with hmem | hmem
    · obtain ⟨item, heq, hbook, hquantity, hsome⟩ := h.items row hmem
      exact ⟨item, heq, hbook, hquantity, by rwa [hstock]⟩
    · obtain ⟨item, hitem, rfl⟩ := List.mem_map.mp hmem
      refine ⟨item, rfl, (hpos item hitem).1, (hpos item hitem).2, ?_⟩
      rw [hstock]
      exact hreserved.stocked item hitem
  · intro book
    have hsum : outstanding db' book = outstanding db book + requestedAt book items := by
      unfold outstanding
      rw [hrows, tally_append, tally_other hother db.reservationItems hold,
        tally_itemRow hself]
    have havailable := hreserved.available book
    have hbefore : Db.available ((insertReservation reservation).effect db) book =
        db.available book := rfl
    omega
  · intro id
    by_cases hsame : id = reservation
    · rw [hsame]
      exact .inr (.inl ⟨hnew, hself⟩)
    · exact .inl (hother id hsame)
  · intro id hid
    have hne : reservation ≠ id := by
      rintro rfl
      rw [hnew] at hid
      cases hid
    have hnone : (items.map (itemRow reservation)).filter (fun row => row.reservationId = id) =
        [] := by
      rw [List.filter_eq_nil_iff]
      intro row hrow
      obtain ⟨item, _, rfl⟩ := List.mem_map.mp hrow
      simp only [itemRow, hne, decide_false, Bool.false_eq_true, not_false_eq_true]
    unfold recorded
    rw [hrows, List.filter_append, hnone, List.append_nil]

theorem booking_of_released {db db' : Db} {reservation : String} {items : List InventoryMutation}
    (h : Consistent db) (hstatus : db.reservations reservation = some "reserved")
    (hrecorded : recorded db reservation = items.map (itemRow reservation)) (hpos : Positive items)
    (hreleased : Released reservation items db db') : Booking db db' := by
  obtain ⟨mid, hreturned, rfl⟩ := hreleased
  set db' := (updateReservationStatus reservation "released").effect mid with hdb'
  have hafter : ∀ id, db'.reservations id =
      if id = reservation then (db.reservations id).map fun _ => "released"
      else db.reservations id := by
    intro id
    rw [← hreturned.reservations]
    rfl
  have hself : db'.reservations reservation = some "released" := by
    rw [hafter, if_pos rfl, hstatus]
    rfl
  have hother : ∀ id, id ≠ reservation → db'.reservations id = db.reservations id := by
    intro id hid
    rw [hafter, if_neg hid]
  have hrows : db'.reservationItems = db.reservationItems := hreturned.recorded
  have hstock : ∀ book, (db'.inventory book).isSome = (db.inventory book).isSome := hreturned.rows
  have havailable : ∀ book, db'.available book = db.available book + requestedAt book items :=
    hreturned.available
  refine ⟨⟨?_, ?_, ?_, ?_⟩, ?_, ?_, ?_⟩
  · intro book
    have hbook := h.nonneg book
    have hitems := requestedAt_nonneg book items hpos
    rw [havailable]
    omega
  · intro id status hid
    by_cases hsame : id = reservation
    · rw [hsame, hself] at hid
      exact .inr (Option.some.inj hid).symm
    · rw [hother id hsame] at hid
      exact h.statuses id status hid
  · intro row hrow
    rw [hrows] at hrow
    rw [hafter]
    split
    · rw [Option.isSome_map]
      exact h.known row hrow
    · exact h.known row hrow
  · intro row hrow
    rw [hrows] at hrow
    obtain ⟨item, heq, hbook, hquantity, hsome⟩ := h.items row hrow
    exact ⟨item, heq, hbook, hquantity, by rwa [hstock]⟩
  · intro book
    have hsum := tally_released hself hother db.reservationItems book
    have hmine : tally ReservationItem.bookId (outstandingRow db.reservations) book
        (db.reservationItems.filter fun row => row.reservationId = reservation) =
        requestedAt book items := by
      rw [show db.reservationItems.filter (fun row => row.reservationId = reservation) =
        items.map (itemRow reservation) from hrecorded]
      exact tally_itemRow hstatus items book
    rw [hmine] at hsum
    have hbook := havailable book
    unfold outstanding
    rw [hrows]
    omega
  · intro id
    by_cases hsame : id = reservation
    · rw [hsame]
      exact .inr (.inr ⟨hstatus, hself⟩)
    · exact .inl (hother id hsame)
  · intro id _
    unfold recorded
    rw [hrows]
/-! ## Calls and runs -/

/-- Whatever fails, a call keeps the ledger in order. -/
theorem perform_booking (s : MySql) (call : LedgerCall) (h : Consistent s.db) :
    Booking s.db (perform s call).db := by
  cases call with
  | reserve reservation items =>
    obtain ⟨ok, db', c, hrun, hcases⟩ := reserveBatch_spec reservation items s
    simp only [perform, hrun]
    rcases hcases with ⟨rfl, _⟩ | ⟨_, hnew, hpos, hreserved⟩
    · exact .refl h
    · exact (booking_of_reserved h hnew hpos hreserved).1
  | release reservation items' =>
    obtain ⟨items, hrecorded, hpos, hstocked⟩ := h.recorded_eq reservation
    obtain ⟨db', c, hrun, hcases⟩ :=
      releaseBatch_spec reservation items items' s hrecorded hstocked
    simp only [perform, hrun]
    rcases hcases with rfl | ⟨hstatus, hreleased⟩
    · exact .refl h
    · exact booking_of_released h hstatus hrecorded hpos hreleased

/-- The answer of a reservation is only true for an id that is then `reserved`. -/
theorem reserve_true {s : MySql} (h : Consistent s.db) {reservation : String}
    {items : List InventoryMutation} (htrue : ((reserveBatch reservation items).run s).1 = true) :
    (perform s (.reserve reservation items)).db.reservations reservation = some "reserved" := by
  obtain ⟨ok, db', c, hrun, hcases⟩ := reserveBatch_spec reservation items s
  rw [hrun] at htrue
  simp only [perform, hrun]
  rcases hcases with ⟨rfl, hstatus⟩ | ⟨_, hnew, hpos, hreserved⟩
  · exact (hstatus htrue).2
  · exact (booking_of_reserved h hnew hpos hreserved).2

/-- A reservation under an id on record, whatever its items, changes no table. -/
theorem reserve_again {s : MySql} {reservation : String} {items : List InventoryMutation}
    (hknown : (s.db.reservations reservation).isSome) :
    (perform s (.reserve reservation items)).db = s.db := by
  obtain ⟨ok, db', c, hrun, hcases⟩ := reserveBatch_spec reservation items s
  simp only [perform, hrun]
  rcases hcases with ⟨rfl, _⟩ | ⟨_, hnew, _, _⟩
  · rfl
  · rw [hnew] at hknown
    cases hknown

/-- A release of an id that is not `reserved` changes no table. -/
theorem release_again {s : MySql} (h : Consistent s.db) {reservation : String}
    {items : List InventoryMutation} (hstatus : s.db.reservations reservation ≠ some "reserved") :
    (perform s (.release reservation items)).db = s.db := by
  obtain ⟨recordedItems, hrecorded, _, hstocked⟩ := h.recorded_eq reservation
  obtain ⟨db', c, hrun, hcases⟩ :=
    releaseBatch_spec reservation recordedItems items s hrecorded hstocked
  simp only [perform, hrun]
  rcases hcases with rfl | ⟨hreserved, _⟩
  · rfl
  · exact absurd hreserved hstatus

theorem performAll_consistent (calls : List LedgerCall) {s : MySql} (h : Consistent s.db) :
    Consistent (performAll s calls).db := by
  induction calls generalizing s with
  | nil => exact h
  | cons call rest ih => exact ih (perform_booking s call h).consistent

theorem performAll_balance (calls : List LedgerCall) {s : MySql} (h : Consistent s.db) (book : ℤ) :
    (performAll s calls).db.available book + outstanding (performAll s calls).db book =
      s.db.available book + outstanding s.db book := by
  induction calls generalizing s with
  | nil => rfl
  | cons call rest ih =>
    have hcall := perform_booking s call h
    exact (ih hcall.consistent).trans (hcall.balance book)

/-- What is recorded under an id on record stays, through any calls. -/
theorem performAll_recorded (calls : List LedgerCall) {s : MySql} (h : Consistent s.db)
    {id : String} (hknown : (s.db.reservations id).isSome) :
    ((performAll s calls).db.reservations id).isSome ∧
      recorded (performAll s calls).db id = recorded s.db id := by
  induction calls generalizing s with
  | nil => exact ⟨hknown, rfl⟩
  | cons call rest ih =>
    have hcall := perform_booking s call h
    have hnext : ((perform s call).db.reservations id).isSome := by
      rcases hcall.status id with hsame | ⟨hnone, _⟩ | ⟨_, hreleased⟩
      · rw [hsame]
        exact hknown
      · rw [hnone] at hknown
        cases hknown
      · rw [hreleased]
        rfl
    obtain ⟨hlast, hrecorded⟩ := ih hcall.consistent hnext
    exact ⟨hlast, hrecorded.trans (hcall.fixed id hknown)⟩

/-- The ledger balances: after any calls, and through the next one, under any
failures of statements. -/
theorem ledger_balances (start : MySql) (h : Consistent start.db) (calls more : List LedgerCall) :
    let s := performAll start calls
    (∀ book, 0 ≤ s.db.available book ∧
      s.db.available book + outstanding s.db book =
        start.db.available book + outstanding start.db book) ∧
    (∀ id, (s.db.reservations id).isSome →
      recorded (performAll s more).db id = recorded s.db id) ∧
    (∀ call id, (perform s call).db.reservations id = s.db.reservations id ∨
      s.db.reservations id = none ∧ (perform s call).db.reservations id = some "reserved" ∨
      s.db.reservations id = some "reserved" ∧
        (perform s call).db.reservations id = some "released") ∧
    (∀ id items, ((reserveBatch id items).run s).1 = true →
      (perform s (.reserve id items)).db.reservations id = some "reserved") ∧
    (∀ id items, (s.db.reservations id).isSome → (perform s (.reserve id items)).db = s.db) ∧
    (∀ id items, s.db.reservations id ≠ some "reserved" →
      (perform s (.release id items)).db = s.db) := by
  intro s
  have hs : Consistent s.db := performAll_consistent calls h
  refine ⟨?_, ?_, ?_, ?_, ?_, ?_⟩
  · exact fun book => ⟨hs.nonneg book, performAll_balance calls h book⟩
  · exact fun id hknown => (performAll_recorded more hs hknown).2
  · exact fun call id => (perform_booking s call hs).status id
  · exact fun id items htrue => reserve_true hs htrue
  · exact fun id items hknown => reserve_again hknown
  · exact fun id items hstatus => release_again hs hstatus
/-- One book with five copies and no reservations. -/
def oneBook (faults : ℕ → Bool) : MySql where
  db := {
    users := fun _ => false
    books := fun id => if id = 1 then some ⟨"C++ Primer", "Stanley Lippman", 9800, 5, "active"⟩
      else none
    inventory := fun id => if id = 1 then some 5 else none
    reservations := fun _ => none
    reservationItems := []
    orders := []
    orderItems := [] }
  nextKey := fun _ => 1
  faults := faults
  clock := 0

theorem consistent_oneBook (faults : ℕ → Bool) : Consistent (oneBook faults).db where
  nonneg book := by
    simp only [Db.available, oneBook]
    split
    · decide
    · exact le_refl 0
  statuses _ _ h := by cases h
  known _ h := by cases h
  items _ h := by cases h

/-- A reservation whose COMMIT fails, the same one again, too many copies, and a
release whose last UPDATE fails. -/
theorem ledger_balances_oneBook :
    let s := performAll (oneBook fun n => n = 5 ∨ n = 22)
      [.reserve "a" [⟨1, 2⟩], .reserve "a" [⟨1, 2⟩], .reserve "b" [⟨1, 4⟩], .release "a" []]
    s.db.available 1 = 3 ∧ s.db.available 1 + outstanding s.db 1 =
      (oneBook fun n => n = 5 ∨ n = 22).db.available 1 +
        outstanding (oneBook fun n => n = 5 ∨ n = 22).db 1 :=
  ⟨by decide +kernel, ((ledger_balances (oneBook fun n => n = 5 ∨ n = 22) (consistent_oneBook _)
    [.reserve "a" [⟨1, 2⟩], .reserve "a" [⟨1, 2⟩], .reserve "b" [⟨1, 4⟩], .release "a" []]
    []).1 1).2⟩

end Bookstore.ReservationLedger
