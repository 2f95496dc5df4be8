import Bookstore.Database
import Bookstore.MachineInt
import Bookstore.Repositories

/-!
MysqlInventoryRepository. A connection is always handed out: `pool_` is set
by every caller, and GetConnection returns a null pointer only after the pool
has been destroyed.
-/
namespace Bookstore.MysqlInventory

open Database Interleaving Records Repositories Transactions Transactions.Session

/-- `std::atoi` on a column. -/
def atoi (value : ℤ) : Int32 := Int32.ofInt value

def availableStock (bookId : Int32) : Prog MySql (Option Int32) :=
  if bookId ≤ 0 then pure none
  else withConnection do
    match ← query (selectAvailable bookId.toInt) with
    | none => pure none
    | some row => pure (row.map atoi)

/-- The statements of add_stock between START TRANSACTION and COMMIT. -/
def addStockRows (bookId quantity : Int32) : Sql (Option Int32) := do
  match ← query (giveStock bookId.toInt quantity.toInt) with
  | some 1 =>
    match ← query (addBookStock bookId.toInt quantity.toInt) with
    | none => pure none
    | some _ =>
      match ← query (selectAvailable bookId.toInt) with
      | some (some available) => pure (some (atoi available))
      | _ => pure none
  | _ => pure none

def addStock (bookId quantity : Int32) : Prog MySql (Option Int32) :=
  if bookId ≤ 0 ∨ quantity ≤ 0 then pure none
  else withConnection do
    if ← startTransaction then
      match ← addStockRows bookId quantity with
      | none => do
        rollback
        pure none
      | some available =>
        if ← commit then pure (some available)
        else do
          rollback
          pure none
    else pure none

def reserveStock (bookId quantity : Int32) : Prog MySql Bool :=
  if bookId ≤ 0 ∨ quantity ≤ 0 then pure false
  else withConnection do
    match ← query (takeStock bookId.toInt quantity.toInt) with
    | some 1 => pure true
    | _ => pure false

def releaseStock (bookId quantity : Int32) : Prog MySql Unit :=
  if bookId ≤ 0 ∨ quantity ≤ 0 then pure ()
  else withConnection do
    let _ ← query (giveStock bookId.toInt quantity.toInt)
    pure ()

/-- The loop of the batch reservation; `false` as soon as a statement fails,
an item is not covered or a book occurs for the second time. -/
def reserveItems (reservation : String) : List InventoryMutation → Sql Bool
  | [] => pure true
  | item :: rest => do
    match ← query (takeStock item.bookId.toInt item.quantity.toInt) with
    | some 1 =>
      match ← query (insertReservationItem reservation item.bookId.toInt item.quantity.toInt) with
      | none => pure false
      | some () => reserveItems reservation rest
    | _ => pure false

/-- The batch reservation inside its transaction, up to the COMMIT. -/
def bookReservation (reservation : String) (items : List InventoryMutation) : Sql Bool := do
  match ← query (insertReservation reservation) with
  | none => pure false
  | some () => reserveItems reservation items

def reserveBatch (reservation : String) (items : List InventoryMutation) : Prog MySql Bool :=
  if reservation.isEmpty ∨ items.isEmpty then pure false
  else if items.any fun item => item.bookId ≤ 0 ∨ item.quantity ≤ 0 then pure false
  else withConnection do
    if ← startTransaction then
      match ← query (selectReservationStatus reservation) with
      | none => do
        rollback
        pure false
      | some (some status) =>
        if status = "reserved" then do
          let _ ← commit
          pure true
        else do
          rollback
          pure false
      | some none =>
        if ← bookReservation reservation items then
          if ← commit then pure true
          else do
            rollback
            pure false
        else do
          rollback
          pure false
    else pure false

/-- The loop of the batch release over the recorded rows. -/
def releaseRows : List ReservationItem → Sql Bool
  | [] => pure true
  | row :: rest =>
    if atoi row.bookId ≤ 0 ∨ atoi row.quantity ≤ 0 then pure false
    else do
      match ← query (giveStock (atoi row.bookId).toInt (atoi row.quantity).toInt) with
      | none => pure false
      | some _ => releaseRows rest

/-- Give back what is recorded under a reservation, and mark it released. -/
def unbookReservation (reservation : String) : Sql Bool := do
  match ← query (selectReservationItems reservation) with
  | none => pure false
  | some rows =>
    if ← releaseRows rows then
      match ← query (updateReservationStatus reservation "released") with
      | none => pure false
      | some () => pure true
    else pure false

def releaseBatch (reservation : String) (_items : List InventoryMutation) : Prog MySql Unit :=
  if reservation.isEmpty then pure ()
  else withConnection do
    if ← startTransaction then
      match ← query (selectReservationStatus reservation) with
      | some (some status) =>
        if status = "released" then do
          let _ ← commit
          pure ()
        else if status = "reserved" then
          if ← unbookReservation reservation then
            if ← commit then pure ()
            else rollback
          else rollback
        else rollback
      | _ => rollback
    else pure ()

def repository : InventoryRepository MySql where
  availableStock := availableStock
  addStock := addStock
  reserveStock := reserveStock
  releaseStock := releaseStock
  reserveBatch := reserveBatch
  releaseBatch := releaseBatch

/-! ## What the two batch transactions do to the tables -/

/-- How many copies of the book with this key a list of mutations asks for. -/
def requestedAt (book : ℤ) (items : List InventoryMutation) : ℤ :=
  Tally.tally (fun item => item.bookId.toInt) (fun item => item.quantity.toInt) book items

@[simp] theorem requestedAt_nil (book : ℤ) : requestedAt book [] = 0 := rfl

@[simp] theorem requestedAt_cons (book : ℤ) (item : InventoryMutation)
    (rest : List InventoryMutation) :
    requestedAt book (item :: rest) =
      (if item.bookId.toInt = book then item.quantity.toInt else 0) + requestedAt book rest := rfl

theorem requestedAt_toInt (book : Int32) (items : List InventoryMutation) :
    requestedAt book.toInt items = requested book items := by
  induction items with
  | nil => rfl
  | cons item rest ih => simp [ih, Int32.toInt_inj]

/-- Items as the batch methods accept them. -/
def Positive (items : List InventoryMutation) : Prop :=
  ∀ item ∈ items, 0 < item.bookId.toInt ∧ 0 < item.quantity.toInt

theorem requestedAt_nonneg (book : ℤ) (items : List InventoryMutation) (h : Positive items) :
    0 ≤ requestedAt book items :=
  Tally.tally_nonneg _ _ book items fun item hitem => (h item hitem).2.le

/-- The row that records an item under a reservation. -/
def itemRow (reservation : String) (item : InventoryMutation) : ReservationItem :=
  ⟨reservation, item.bookId.toInt, item.quantity.toInt⟩

/-- Everything but the inventory and the reservation tables is the same. -/
structure SameShop (db db' : Db) : Prop where
  users : db'.users = db.users
  books : db'.books = db.books
  orders : db'.orders = db.orders
  orderItems : db'.orderItems = db.orderItems

theorem SameShop.refl (db : Db) : SameShop db db := ⟨rfl, rfl, rfl, rfl⟩

theorem SameShop.trans {a b c : Db} (h : SameShop a b) (h' : SameShop b c) : SameShop a c :=
  ⟨h'.users.trans h.users, h'.books.trans h.books, h'.orders.trans h.orders,
    h'.orderItems.trans h.orderItems⟩

/-- The loop of the batch reservation went through. -/
structure Booked (reservation : String) (items : List InventoryMutation) (db db' : Db) : Prop where
  shop : SameShop db db'
  reservations : db'.reservations = db.reservations
  available : ∀ book, db'.available book = db.available book - requestedAt book items
  rows : ∀ book, (db'.inventory book).isSome = (db.inventory book).isSome
  stocked : ∀ item ∈ items, (db.inventory item.bookId.toInt).isSome
  covered : (∀ book, 0 ≤ db.available book) → ∀ book, 0 ≤ db'.available book
  recorded : db'.reservationItems = db.reservationItems ++ items.map (itemRow reservation)

/-- The loop of the batch release went through. -/
structure Returned (items : List InventoryMutation) (db db' : Db) : Prop where
  shop : SameShop db db'
  reservations : db'.reservations = db.reservations
  available : ∀ book, db'.available book = db.available book + requestedAt book items
  rows : ∀ book, (db'.inventory book).isSome = (db.inventory book).isSome
  recorded : db'.reservationItems = db.reservationItems

theorem available_update (db : Db) (book value k : ℤ) :
    Db.available { db with inventory := Function.update db.inventory book (some value) } k =
      if book = k then value else db.available k := by
  by_cases h : book = k
  · subst h
    simp [Db.available]
  · simp [Db.available, Function.update_of_ne (Ne.symm h), h]

theorem isSome_update {α : Type} (rows : ℤ → Option α) (book : ℤ) (value : α)
    (hrow : (rows book).isSome) (k : ℤ) :
    (Function.update rows book (some value) k).isSome = (rows k).isSome := by
  by_cases h : k = book
  · subst h
    simp [hrow]
  · rw [Function.update_of_ne h]

/-- A row changed by takeStock existed and held at least the quantity. -/
theorem takeStock_one (book quantity : ℤ) (db : Db)
    (h : (takeStock book quantity).result db = some 1) :
    ∃ value, db.inventory book = some value ∧ quantity ≤ value ∧
      (takeStock book quantity).effect db =
        { db with inventory := Function.update db.inventory book (some (value - quantity)) } := by
  unfold takeStock at h ⊢
  cases hrow : db.inventory book with
  | none => simp [hrow] at h
  | some value =>
    by_cases hle : quantity ≤ value
    · exact ⟨value, rfl, hle, by simp [hrow, hle]⟩
    · simp [hrow, hle] at h

theorem Booked.nil (reservation : String) (db : Db) : Booked reservation [] db db where
  shop := .refl db
  reservations := rfl
  available := by simp
  rows _ := rfl
  stocked := by simp
  covered h := h
  recorded := by simp

/-- One round of the loop, followed by the others. -/
theorem Booked.cons {reservation : String} {item : InventoryMutation}
    {rest : List InventoryMutation} {db db' : Db}
    (htake : (takeStock item.bookId.toInt item.quantity.toInt).result db = some 1)
    (hrest : Booked reservation rest
      ((insertReservationItem reservation item.bookId.toInt item.quantity.toInt).effect
        ((takeStock item.bookId.toInt item.quantity.toInt).effect db)) db') :
    Booked reservation (item :: rest) db db' := by
  obtain ⟨value, hrow, hle, heffect⟩ := takeStock_one _ _ db htake
  have hvalue : db.available item.bookId.toInt = value := by simp [Db.available, hrow]
  have hsome : (db.inventory item.bookId.toInt).isSome := by simp [hrow]
  rw [heffect] at hrest
  have hstep : ∀ book, Db.available
      ((insertReservationItem reservation item.bookId.toInt item.quantity.toInt).effect
        { db with
          inventory := Function.update db.inventory item.bookId.toInt
            (some (value - item.quantity.toInt)) }) book =
      if item.bookId.toInt = book then value - item.quantity.toInt else db.available book :=
    fun book => available_update db item.bookId.toInt _ book
  refine ⟨⟨hrest.shop.users, hrest.shop.books, hrest.shop.orders, hrest.shop.orderItems⟩,
    hrest.reservations, ?_, ?_, ?_, ?_, ?_⟩
  · intro book
    rw [hrest.available book, hstep book, requestedAt_cons]
    split
    · rename_i h
      rw [← h, hvalue]
      omega
    · omega
  · intro book
    rw [hrest.rows book]
    exact isSome_update db.inventory item.bookId.toInt _ hsome book
  · intro i hi
    rcases List.mem_cons.mp hi with rfl | hmem
    · exact hsome
    · have h := hrest.stocked i hmem
      change (Function.update db.inventory _ _ _).isSome = true at h
      rwa [isSome_update db.inventory item.bookId.toInt _ hsome] at h
  · intro hnonneg
    apply hrest.covered
    intro book
    rw [hstep book]
    split
    · omega
    · exact hnonneg book
  · rw [hrest.recorded]
    simp [insertReservationItem, itemRow]

/-- The reservation loop never touches the committed tables; when it answers
true, its redo log books the items. -/
theorem reserveItems_spec (reservation : String) (items : List InventoryMutation) (f : Db → Db)
    (s : MySql) :
    ∃ ok g c, exec (reserveItems reservation items) (some f) s =
        ((ok, some g), { s with clock := c }) ∧
      (ok = true → Booked reservation items (f s.db) (g s.db)) := by
  induction items generalizing f s with
  | nil => exact ⟨true, f, s.clock, rfl, fun _ => .nil reservation _⟩
  | cons item rest ih =>
    unfold reserveItems
    rcases query_cases (takeStock item.bookId.toInt item.quantity.toInt) f s with
      ⟨hrun, _⟩ | ⟨changed, htake, hrun⟩
    · exact ⟨false, f, s.clock + 1, by simp only [exec_bind, hrun]; rfl, by simp⟩
    · by_cases hone : changed = 1
      · subst hone
        rcases query_cases (insertReservationItem reservation item.bookId.toInt
          item.quantity.toInt) ((takeStock item.bookId.toInt item.quantity.toInt).effect ∘ f)
          s.tick with ⟨hinsert, _⟩ | ⟨_, _, hinsert⟩
        · exact ⟨false, _, s.clock + 2, by simp only [exec_bind, hrun, hinsert]; rfl, by simp⟩
        · obtain ⟨ok, g, c, hexec, hbooked⟩ := ih
            ((insertReservationItem reservation item.bookId.toInt item.quantity.toInt).effect ∘
              (takeStock item.bookId.toInt item.quantity.toInt).effect ∘ f) s.tick.tick
          refine ⟨ok, g, c, ?_, fun hok => .cons htake (hbooked hok)⟩
          simp only [exec_bind, hrun, hinsert]
          exact hexec
      · refine ⟨false, (takeStock item.bookId.toInt item.quantity.toInt).effect ∘ f, s.clock + 1,
          ?_, by simp⟩
        simp only [exec_bind, hrun]
        split
        · rename_i h
          exact absurd (Option.some.inj h) hone
        · rfl

theorem positive_of_not_any {items : List InventoryMutation}
    (h : ¬ (items.any fun item => item.bookId ≤ 0 ∨ item.quantity ≤ 0) = true) :
    Positive items := by
  intro item hitem
  have hnot : ¬ (item.bookId ≤ 0 ∨ item.quantity ≤ 0) := by
    intro hbad
    exact h (List.any_eq_true.mpr ⟨item, hitem, by simpa using hbad⟩)
  rw [not_or] at hnot
  exact ⟨MachineInt.toInt_pos_of_not_le hnot.1, MachineInt.toInt_pos_of_not_le hnot.2⟩

/-- The tables after a batch reservation that really took place. -/
def Reserved (reservation : String) (items : List InventoryMutation) (db db' : Db) : Prop :=
  Booked reservation items ((insertReservation reservation).effect db) db'

theorem bookReservation_spec (reservation : String) (items : List InventoryMutation)
    (f : Db → Db) (s : MySql) :
    ∃ ok g c, exec (bookReservation reservation items) (some f) s =
        ((ok, some g), { s with clock := c }) ∧
      (ok = true → Reserved reservation items (f s.db) (g s.db)) := by
  unfold bookReservation
  rcases query_cases (insertReservation reservation) f s with ⟨hrun, _⟩ | ⟨_, _, hrun⟩
  · exact ⟨false, f, s.clock + 1, by simp only [exec_bind, hrun]; rfl, by simp⟩
  · obtain ⟨ok, g, c, hexec, hbooked⟩ := reserveItems_spec reservation items
      ((insertReservation reservation).effect ∘ f) s.tick
    refine ⟨ok, g, c, ?_, hbooked⟩
    simp only [exec_bind, hrun]
    exact hexec

/-- A batch reservation leaves the tables alone, also when it answers true for
an id that is already reserved, or it books all the items under a new id. -/
theorem reserveBatch_spec (reservation : String) (items : List InventoryMutation) (s : MySql) :
    ∃ ok db' c, (reserveBatch reservation items).run s =
        (ok, { s with db := db', clock := c }) ∧
      ((db' = s.db ∧ (ok = true → Positive items ∧
          s.db.reservations reservation = some "reserved")) ∨
        (ok = true ∧ s.db.reservations reservation = none ∧ Positive items ∧
          Reserved reservation items s.db db')) := by
  unfold reserveBatch
  split
  · exact ⟨false, s.db, s.clock, rfl, .inl ⟨rfl, by simp⟩⟩
  · split
    · exact ⟨false, s.db, s.clock, rfl, .inl ⟨rfl, by simp⟩⟩
    · rename_i hany
      have hpos := positive_of_not_any hany
      simp only [run_withConnection, exec_bind]
      rcases startTransaction_cases none s with ⟨hstart, _⟩ | hstart
      · rw [hstart]
        exact ⟨false, s.db, s.clock + 1, rfl, .inl ⟨rfl, by simp⟩⟩
      · simp only [hstart, if_true, exec_bind]
        rcases query_cases (selectReservationStatus reservation) id s.tick with
          ⟨hselect, _⟩ | ⟨status, hstatus, hselect⟩
        · rw [hselect]
          exact ⟨false, s.db, s.clock + 3, rfl, .inl ⟨rfl, by simp⟩⟩
        · rw [hselect]
          have hrow : s.db.reservations reservation = status := Option.some.inj hstatus
          cases status with
          | some text =>
            by_cases hreserved : text = "reserved"
            · subst hreserved
              simp only [if_true, exec_bind, exec_pure]
              rcases commit_cases ((selectReservationStatus reservation).effect ∘ id) s.tick.tick
                with ⟨hcommit, _⟩ | hcommit
              · rw [hcommit]
                exact ⟨true, s.db, s.clock + 3, rfl, .inl ⟨rfl, fun _ => ⟨hpos, hrow⟩⟩⟩
              · rw [hcommit]
                exact ⟨true, s.db, s.clock + 3, rfl, .inl ⟨rfl, fun _ => ⟨hpos, hrow⟩⟩⟩
            · simp only [hreserved, if_false]
              exact ⟨false, s.db, s.clock + 3, rfl, .inl ⟨rfl, by simp⟩⟩
          | none =>
            obtain ⟨ok, g, c, hbook, hbooked⟩ := bookReservation_spec reservation items
              ((selectReservationStatus reservation).effect ∘ id) s.tick.tick
            simp only [exec_bind, hbook]
            cases ok with
            | false => exact ⟨false, s.db, c + 1, rfl, .inl ⟨rfl, by simp⟩⟩
            | true =>
              simp only [if_true, exec_bind]
              rcases commit_cases g { s.tick.tick with clock := c } with ⟨hcommit, _⟩ | hcommit
              · rw [hcommit]
                exact ⟨false, s.db, c + 2, rfl, .inl ⟨rfl, by simp⟩⟩
              · rw [hcommit]
                exact ⟨true, g s.db, c + 1, rfl, .inr ⟨rfl, hrow, hpos, hbooked rfl⟩⟩

theorem giveStock_row (book quantity : ℤ) (db : Db) (value : ℤ)
    (hrow : db.inventory book = some value) (hroom : value + quantity ≤ unsignedMax) :
    (giveStock book quantity).result db = some 1 ∧
      (giveStock book quantity).effect db =
        { db with inventory := Function.update db.inventory book (some (value + quantity)) } := by
  simp [giveStock, hrow, hroom]

theorem Returned.nil (db : Db) : Returned [] db db where
  shop := .refl db
  reservations := rfl
  available := by simp
  rows _ := rfl
  recorded := rfl

theorem Returned.cons {item : InventoryMutation} {rest : List InventoryMutation} {db db' : Db}
    {value : ℤ} (hrow : db.inventory item.bookId.toInt = some value)
    (hrest : Returned rest
      { db with
        inventory := Function.update db.inventory item.bookId.toInt
          (some (value + item.quantity.toInt)) } db') :
    Returned (item :: rest) db db' := by
  have hvalue : db.available item.bookId.toInt = value := by simp [Db.available, hrow]
  refine ⟨⟨hrest.shop.users, hrest.shop.books, hrest.shop.orders, hrest.shop.orderItems⟩,
    hrest.reservations, ?_, ?_, hrest.recorded⟩
  · intro book
    rw [hrest.available book, available_update, requestedAt_cons]
    split
    · rename_i h
      rw [← h, hvalue]
      omega
    · omega
  · intro book
    rw [hrest.rows book]
    exact isSome_update db.inventory item.bookId.toInt _ (by simp [hrow]) book

theorem requestedAt_append (book : ℤ) (xs ys : List InventoryMutation) :
    requestedAt book (xs ++ ys) = requestedAt book xs + requestedAt book ys :=
  Tally.tally_append _ _ book xs ys

theorem Returned.trans {items items' : List InventoryMutation} {a b c : Db}
    (h : Returned items a b) (h' : Returned items' b c) : Returned (items' ++ items) a c where
  shop := h.shop.trans h'.shop
  reservations := h'.reservations.trans h.reservations
  available := by
    intro book
    rw [h'.available, h.available, requestedAt_append]
    omega
  rows book := (h'.rows book).trans (h.rows book)
  recorded := h'.recorded.trans h.recorded

/-- A return gives the same tables, however it is carried out. -/
theorem Returned.unique {items : List InventoryMutation} {a b c : Db} (h : Returned items a b)
    (h' : Returned items a c) : b = c := by
  have hinventory : b.inventory = c.inventory := by
    funext book
    have hvalue : (b.inventory book).getD 0 = (c.inventory book).getD 0 :=
      (h.available book).trans (h'.available book).symm
    have hrow := (h.rows book).trans (h'.rows book).symm
    cases hb : b.inventory book with
    | none =>
      cases hc : c.inventory book with
      | none => rfl
      | some value => simp [hb, hc] at hrow
    | some value =>
      cases hc : c.inventory book with
      | none => simp [hb, hc] at hrow
      | some value' => simpa [hb, hc] using hvalue
  have hshop := h.shop
  have hshop' := h'.shop
  cases b
  cases c
  simp only [Db.mk.injEq]
  exact ⟨hshop.users.trans hshop'.users.symm, hshop.books.trans hshop'.books.symm, hinventory,
    h.reservations.trans h'.reservations.symm, h.recorded.trans h'.recorded.symm,
    hshop.orders.trans hshop'.orders.symm, hshop.orderItems.trans hshop'.orderItems.symm⟩

/-- With room for a whole list, the row of its first item can take that item. -/
theorem first_fits {item : InventoryMutation} {rest : List InventoryMutation} {db : Db}
    {value : ℤ} (hrest : Positive rest) (hvalue : db.inventory item.bookId.toInt = some value)
    (hroom : ∀ book, db.available book + requestedAt book (item :: rest) ≤ unsignedMax) :
    value + item.quantity.toInt ≤ unsignedMax := by
  have hitem := hroom item.bookId.toInt
  have hnonneg := requestedAt_nonneg item.bookId.toInt rest hrest
  have havailable : db.available item.bookId.toInt = value := by simp [Db.available, hvalue]
  rw [requestedAt_cons, if_pos rfl, havailable] at hitem
  omega

/-- The room left once the first item is back is that of the rest. -/
theorem room_for_rest {item : InventoryMutation} {rest : List InventoryMutation} {db : Db}
    {value : ℤ} (hvalue : db.inventory item.bookId.toInt = some value)
    (hroom : ∀ book, db.available book + requestedAt book (item :: rest) ≤ unsignedMax)
    (book : ℤ) :
    Db.available { db with
        inventory := Function.update db.inventory item.bookId.toInt
          (some (value + item.quantity.toInt)) } book + requestedAt book rest ≤ unsignedMax := by
  have hbook := hroom book
  rw [requestedAt_cons] at hbook
  rw [available_update]
  by_cases hb : item.bookId.toInt = book
  · have havailable : db.available book = value := by simp [Db.available, ← hb, hvalue]
    rw [if_pos hb, havailable] at hbook
    rw [if_pos hb]
    omega
  · rw [if_neg hb] at hbook ⊢
    omega

/-- On a reliable server the recorded rows all go back, as long as no stock
outgrows its column. -/
theorem releaseRows_recorded (reservation : String) (items : List InventoryMutation)
    (f : Db → Db) (s : MySql) (hreliable : s.Reliable) (hpos : Positive items)
    (hrows : ∀ item ∈ items, ((f s.db).inventory item.bookId.toInt).isSome)
    (hroom : ∀ book, (f s.db).available book + requestedAt book items ≤ unsignedMax) :
    ∃ g c, exec (releaseRows (items.map (itemRow reservation))) (some f) s =
        ((true, some g), { s with clock := c }) ∧ Returned items (f s.db) (g s.db) := by
  induction items generalizing f s with
  | nil => exact ⟨f, s.clock, rfl, .nil _⟩
  | cons item rest ih =>
    have hitem := hpos item (by simp)
    have hrest : Positive rest := fun i hi => hpos i (by simp [hi])
    obtain ⟨value, hvalue⟩ := Option.isSome_iff_exists.mp (hrows item (by simp))
    obtain ⟨hresult, heffect⟩ := giveStock_row _ _ (f s.db) value hvalue
      (first_fits hrest hvalue hroom)
    have hbook : atoi item.bookId.toInt = item.bookId := Int32.ofInt_toInt item.bookId
    have hquantity : atoi item.quantity.toInt = item.quantity := Int32.ofInt_toInt item.quantity
    have hguard : ¬ (item.bookId ≤ 0 ∨ item.quantity ≤ 0) := by
      rw [not_or, Int32.le_iff_toInt_le, Int32.le_iff_toInt_le]
      simp only [Int32.toInt_zero]
      omega
    rcases query_cases (giveStock item.bookId.toInt item.quantity.toInt) f s with
      ⟨_, hnone⟩ | ⟨changed, _, hrun⟩
    · rw [hnone hreliable] at hresult
      cases hresult
    · have hstep : (((giveStock item.bookId.toInt item.quantity.toInt).effect ∘ f) s.db) =
          { f s.db with
            inventory := Function.update (f s.db).inventory item.bookId.toInt
              (some (value + item.quantity.toInt)) } := heffect
      obtain ⟨g, c, hexec, hreturned⟩ := ih
        ((giveStock item.bookId.toInt item.quantity.toInt).effect ∘ f) s.tick hreliable hrest
        (by
          intro i hi
          have h := hrows i (by simp [hi])
          simp only [Server.tick_db, hstep]
          rwa [isSome_update (f s.db).inventory item.bookId.toInt _ (by simp [hvalue])])
        (by
          intro book
          simp only [Server.tick_db, hstep]
          exact room_for_rest hvalue hroom book)
      simp only [Server.tick_db, hstep] at hreturned
      refine ⟨g, c, ?_, .cons hvalue hreturned⟩
      simp only [List.map_cons, releaseRows, itemRow, hbook, hquantity, hguard, if_false,
        exec_bind, hrun]
      exact hexec

/-- Releasing an id that was never reserved changes no table. -/
theorem releaseBatch_absent (reservation : String) (items : List InventoryMutation) (s : MySql)
    (habsent : s.db.reservations reservation = none) :
    ∃ c, (releaseBatch reservation items).run s = ((), { s with clock := c }) := by
  unfold releaseBatch
  split
  · exact ⟨s.clock, rfl⟩
  · simp only [run_withConnection, exec_bind]
    rcases startTransaction_cases none s with ⟨hstart, _⟩ | hstart
    · rw [hstart]
      exact ⟨s.clock + 1, rfl⟩
    · simp only [hstart, if_true, exec_bind]
      rcases query_cases (selectReservationStatus reservation) id s.tick with
        ⟨hselect, _⟩ | ⟨status, hstatus, hselect⟩
      · rw [hselect]
        exact ⟨s.clock + 3, rfl⟩
      · have hrow : s.db.reservations reservation = status := Option.some.inj hstatus
        rw [habsent] at hrow
        subst hrow
        rw [hselect]
        exact ⟨s.clock + 3, rfl⟩

/-- The release loop logs nothing but changes of the inventory. -/
theorem releaseRows_keeps (rows : List ReservationItem) (f : Db → Db) (s : MySql) :
    ∃ ok g c, exec (releaseRows rows) (some f) s = ((ok, some g), { s with clock := c }) ∧
      (g s.db).reservations = (f s.db).reservations := by
  induction rows generalizing f s with
  | nil => exact ⟨true, f, s.clock, rfl, rfl⟩
  | cons row rest ih =>
    unfold releaseRows
    split
    · exact ⟨false, f, s.clock, rfl, rfl⟩
    · rcases query_cases (giveStock (atoi row.bookId).toInt (atoi row.quantity).toInt) f s with
        ⟨hrun, _⟩ | ⟨changed, _, hrun⟩
      · exact ⟨false, f, s.clock + 1, by simp only [exec_bind, hrun]; rfl, rfl⟩
      · obtain ⟨ok, g, c, hexec, hsame⟩ := ih
          ((giveStock (atoi row.bookId).toInt (atoi row.quantity).toInt).effect ∘ f) s.tick
        refine ⟨ok, g, c, ?_, ?_⟩
        · simp only [exec_bind, hrun]
          exact hexec
        · rw [show (g s.db).reservations = _ from hsame]
          simp only [Function.comp_apply, giveStock, Server.tick_db]
          split <;> rfl

theorem updateReservationStatus_keeps (reservation status id : String) (db : Db) :
    (((updateReservationStatus reservation status).effect db).reservations id).isSome =
      (db.reservations id).isSome := by
  simp only [updateReservationStatus]
  split
  · rename_i h
    rw [h, Option.isSome_map]
  · rfl

theorem unbookReservation_keeps (reservation : String) (f : Db → Db) (s : MySql) :
    ∃ ok g c, exec (unbookReservation reservation) (some f) s =
        ((ok, some g), { s with clock := c }) ∧
      ∀ id, ((g s.db).reservations id).isSome = ((f s.db).reservations id).isSome := by
  unfold unbookReservation
  rcases query_cases (selectReservationItems reservation) f s with ⟨hrun, _⟩ | ⟨rows, _, hrun⟩
  · exact ⟨false, f, s.clock + 1, by simp only [exec_bind, hrun]; rfl, fun _ => rfl⟩
  · obtain ⟨ok, g, c, hexec, hsame⟩ := releaseRows_keeps rows
      ((selectReservationItems reservation).effect ∘ f) s.tick
    have hrows : ∀ id, ((g s.db).reservations id).isSome = ((f s.db).reservations id).isSome :=
      fun id => by rw [show (g s.db).reservations = _ from hsame]; rfl
    simp only [exec_bind, hrun, hexec]
    cases ok with
    | false => exact ⟨false, g, c, rfl, hrows⟩
    | true =>
      rcases query_cases (updateReservationStatus reservation "released") g
        { s.tick with clock := c } with ⟨hupdate, _⟩ | ⟨_, _, hupdate⟩
      · refine ⟨false, g, c + 1, ?_, hrows⟩
        simp only [if_true, exec_bind]
        rw [show exec (query (updateReservationStatus reservation "released")) (some g)
          { s.tick with clock := c } = _ from hupdate]
        rfl
      · refine ⟨true, (updateReservationStatus reservation "released").effect ∘ g, c + 1, ?_, ?_⟩
        · simp only [if_true, exec_bind]
          rw [show exec (query (updateReservationStatus reservation "released")) (some g)
            { s.tick with clock := c } = _ from hupdate]
          rfl
        · intro id
          rw [Function.comp_apply, updateReservationStatus_keeps, hrows id]

/-- A release leaves the tables alone, or commits what `unbookReservation` logs under
an id that is `reserved`. -/
theorem releaseBatch_cases {P : Db → Prop} (reservation : String) (items : List InventoryMutation)
    (s : MySql) (hunbook : s.db.reservations reservation = some "reserved" →
      ∃ ok g c, exec (unbookReservation reservation)
          (some ((selectReservationStatus reservation).effect ∘ id)) s.tick.tick =
          ((ok, some g), { s.tick.tick with clock := c }) ∧ (ok = true → P (g s.db))) :
    ∃ db' c, (releaseBatch reservation items).run s = ((), { s with db := db', clock := c }) ∧
      (db' = s.db ∨ s.db.reservations reservation = some "reserved" ∧ P db') := by
  unfold releaseBatch
  split
  · exact ⟨s.db, s.clock, rfl, .inl rfl⟩
  · simp only [run_withConnection, exec_bind]
    rcases startTransaction_cases none s with ⟨hstart, _⟩ | hstart
    · rw [hstart]
      exact ⟨s.db, s.clock + 1, rfl, .inl rfl⟩
    · simp only [hstart, if_true, exec_bind]
      rcases query_cases (selectReservationStatus reservation) id s.tick with
        ⟨hselect, _⟩ | ⟨status, hstatus, hselect⟩
      · rw [hselect]
        exact ⟨s.db, s.clock + 3, rfl, .inl rfl⟩
      · have hrow : s.db.reservations reservation = status := Option.some.inj hstatus
        rw [hselect]
        cases status with
        | none => exact ⟨s.db, s.clock + 3, rfl, .inl rfl⟩
        | some text =>
          by_cases hreleased : text = "released"
          · simp only [hreleased, if_true, exec_bind, exec_pure]
            rcases commit_cases ((selectReservationStatus reservation).effect ∘ id) s.tick.tick
              with ⟨hcommit, _⟩ | hcommit
            · rw [hcommit]
              exact ⟨s.db, s.clock + 3, rfl, .inl rfl⟩
            · rw [hcommit]
              exact ⟨s.db, s.clock + 3, rfl, .inl rfl⟩
          · simp only [hreleased, if_false]
            split
            · rename_i htext
              obtain ⟨ok, g, c, hexec, hdone⟩ := hunbook (htext ▸ hrow)
              simp only [exec_bind, hexec]
              cases ok with
              | false => exact ⟨s.db, c + 1, rfl, .inl rfl⟩
              | true =>
                simp only [if_true, exec_bind]
                rcases commit_cases g { s.tick.tick with clock := c } with ⟨hcommit, _⟩ | hcommit
                · rw [hcommit]
                  exact ⟨s.db, c + 2, rfl, .inl rfl⟩
                · rw [hcommit]
                  exact ⟨g s.db, c + 1, rfl, .inr ⟨htext ▸ hrow, hdone rfl⟩⟩
            · exact ⟨s.db, s.clock + 3, rfl, .inl rfl⟩

/-- Whatever fails, a release leaves every reservation on record. -/
theorem releaseBatch_keeps (reservation : String) (items : List InventoryMutation) (s : MySql) :
    ∃ db' c, (releaseBatch reservation items).run s = ((), { s with db := db', clock := c }) ∧
      ∀ id, (db'.reservations id).isSome = (s.db.reservations id).isSome := by
  obtain ⟨ok, g, c, hunbook, hsame⟩ := unbookReservation_keeps reservation
    ((selectReservationStatus reservation).effect ∘ id) s.tick.tick
  obtain ⟨db', clock, hrun, rfl | ⟨-, hkept⟩⟩ := @releaseBatch_cases
    (fun db => ∀ id, (db.reservations id).isSome = (s.db.reservations id).isSome)
    reservation items s fun _ => ⟨ok, g, c, hunbook, fun _ => hsame⟩
  · exact ⟨s.db, clock, hrun, fun _ => rfl⟩
  · exact ⟨db', clock, hrun, hkept⟩

/-- On a reliable server the release of a reservation gives back its rows. -/
theorem releaseBatch_recorded (reservation : String) (items items' : List InventoryMutation)
    (s : MySql) (hreliable : s.Reliable) (hid : reservation.isEmpty = false)
    (hstatus : s.db.reservations reservation = some "reserved")
    (hrecorded : s.db.reservationItems.filter (fun row => row.reservationId = reservation) =
      items.map (itemRow reservation))
    (hpos : Positive items)
    (hrows : ∀ item ∈ items, (s.db.inventory item.bookId.toInt).isSome)
    (hroom : ∀ book, s.db.available book + requestedAt book items ≤ unsignedMax) :
    ∃ db' c, (releaseBatch reservation items').run s =
        ((), { s with
          db := (updateReservationStatus reservation "released").effect db', clock := c }) ∧
      Returned items s.db db' := by
  have hstart : exec (startTransaction : Sql Bool) none s = ((true, some id), s.tick) := by
    rcases startTransaction_cases none s with ⟨_, hnot⟩ | hrun
    · exact absurd hreliable hnot
    · exact hrun
  have hselect : exec (query (selectReservationStatus reservation)) (some id) s.tick =
      ((some (some "reserved"), some id), s.tick.tick) := by
    rcases query_cases (selectReservationStatus reservation) id s.tick with
      ⟨_, hnone⟩ | ⟨status, hresult, hrun⟩
    · cases hnone hreliable
    · rw [hrun, ← Option.some.inj hresult]
      change ((some (s.db.reservations reservation), _), _) = _
      rw [hstatus]
      rfl
  have hrowsSelect : exec (query (selectReservationItems reservation)) (some id) s.tick.tick =
      ((some (items.map (itemRow reservation)), some id), s.tick.tick.tick) := by
    rcases query_cases (selectReservationItems reservation) id s.tick.tick with
      ⟨_, hnone⟩ | ⟨rows, hresult, hrun⟩
    · cases hnone hreliable
    · rw [hrun, ← Option.some.inj hresult]
      change ((some (s.db.reservationItems.filter _), _), _) = _
      rw [hrecorded]
      rfl
  obtain ⟨g, c, hrelease, hreturned⟩ := releaseRows_recorded reservation items id s.tick.tick.tick
    hreliable hpos hrows hroom
  have hupdate : exec (query (updateReservationStatus reservation "released")) (some g)
      { s.tick.tick.tick with clock := c } =
      ((some (), some ((updateReservationStatus reservation "released").effect ∘ g)),
        { s with clock := c + 1 }) := by
    rcases query_cases (updateReservationStatus reservation "released") g
      { s.tick.tick.tick with clock := c } with ⟨_, hnone⟩ | ⟨_, _, hrun⟩
    · cases hnone hreliable
    · exact hrun
  have hcommit : exec (commit : Sql Bool)
      (some ((updateReservationStatus reservation "released").effect ∘ g))
      { s with clock := c + 1 } =
      ((true, none), { s with
        db := (updateReservationStatus reservation "released").effect (g s.db),
        clock := c + 2 }) := by
    rcases commit_cases ((updateReservationStatus reservation "released").effect ∘ g)
      { s with clock := c + 1 } with ⟨_, hnot⟩ | hrun
    · exact absurd hreliable hnot
    · exact hrun
  have hother : ¬ "reserved" = "released" := by decide
  refine ⟨g s.db, c + 2, ?_, hreturned⟩
  simp only [releaseBatch, hother, hid, Bool.false_eq_true, if_false, run_withConnection, exec_bind,
    hstart, if_true, hselect, unbookReservation,
    hrowsSelect, hrelease, hupdate, exec_pure, hcommit]

/-! ## The calls for one book -/

/-- An UPDATE that changes no row changes nothing. -/
theorem takeStock_other {book quantity : ℤ} {db : Db} {changed : ℕ}
    (h : (takeStock book quantity).result db = some changed) (hone : changed ≠ 1) :
    (takeStock book quantity).effect db = db := by
  unfold takeStock at h ⊢
  cases hrow : db.inventory book with
  | none => simp only [hrow]
  | some value =>
    by_cases hle : quantity ≤ value
    · simp only [hrow, hle, if_true, Option.some.injEq] at h
      exact absurd h.symm hone
    · simp only [hrow, hle, if_false]

/-- A single reservation is refused, or takes a positive quantity of a row that
covers it. -/
theorem mysql_reserveStock (book quantity : Int32) (s : MySql) :
    (∃ c, (reserveStock book quantity).run s = (false, { s with clock := c })) ∨
    ∃ value c, 0 < book.toInt ∧ 0 < quantity.toInt ∧ s.db.inventory book.toInt = some value ∧
      quantity.toInt ≤ value ∧
      (reserveStock book quantity).run s = (true, { s with
        db := { s.db with
          inventory := Function.update s.db.inventory book.toInt (some (value - quantity.toInt)) }
        clock := c }) := by
  unfold reserveStock
  split
  · exact .inl ⟨s.clock, rfl⟩
  · rename_i hargs
    rw [not_or] at hargs
    simp only [run_withConnection, exec_bind]
    rcases query_autocommit (takeStock book.toInt quantity.toInt) s with
      ⟨hrun, _⟩ | ⟨changed, htake, hrun⟩
    · rw [hrun]
      exact .inl ⟨s.clock + 1, rfl⟩
    · by_cases hone : changed = 1
      · subst hone
        obtain ⟨value, hrow, hle, heffect⟩ := takeStock_one _ _ s.db htake
        refine .inr ⟨value, s.clock + 1, MachineInt.toInt_pos_of_not_le hargs.1,
          MachineInt.toInt_pos_of_not_le hargs.2,
          hrow, hle, ?_⟩
        rw [hrun, heffect]
        rfl
      · rw [hrun, takeStock_other htake hone]
        refine .inl ⟨s.clock + 1, ?_⟩
        dsimp only
        split
        · rename_i h
          exact absurd (Option.some.inj h) hone
        · rfl

/-- A single release of a stocked book arrives, unless its statement fails. -/
theorem mysql_releaseStock (book quantity : Int32) (s : MySql)
    (hfault : s.faults s.clock = false) (hbook : 0 < book.toInt) (hq : 0 < quantity.toInt)
    {value : ℤ} (hrow : s.db.inventory book.toInt = some value)
    (hroom : value + quantity.toInt ≤ unsignedMax) :
    (releaseStock book quantity).run s = ((), { s.tick with
      db := { s.db with
        inventory :=
          Function.update s.db.inventory book.toInt (some (value + quantity.toInt)) } }) := by
  have hguard : ¬ (book ≤ 0 ∨ quantity ≤ 0) := by
    rw [not_or, Int32.le_iff_toInt_le, Int32.le_iff_toInt_le, Int32.toInt_zero]
    omega
  obtain ⟨hresult, heffect⟩ := giveStock_row _ _ s.db value hrow hroom
  have hgive := query_accepted (giveStock book.toInt quantity.toInt) none s hfault hresult
  simp only [releaseStock, hguard, if_false, run_withConnection, exec_bind, hgive, record, heffect]
  rfl

theorem giveStock_some {book quantity : ℤ} {db : Db} {value : ℤ}
    (hrow : db.inventory book = some value) :
    (giveStock book quantity).effect db =
      { db with inventory := Function.update db.inventory book (some (value + quantity)) } := by
  simp [giveStock, hrow]

end Bookstore.MysqlInventory
