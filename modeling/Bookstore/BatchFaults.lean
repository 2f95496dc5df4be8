import Bookstore.Faults
import Bookstore.InventoryRpc
import Bookstore.MysqlOrders

/-!
The transactions of the inventory and order repositories under failures: each
goes side by side with its run on a reliable server, and a batch reservation
under a new id goes through exactly when the tables cover it and none of its
statements fails.
-/
namespace Bookstore.BatchFaults

open Database Faults Interleaving InventoryRpc MysqlInventory MysqlOrders Records Repositories
open Services Transactions Transactions.Session

/-! ## Every method goes side by side with its reliable run -/

theorem reserveItems_steady (reservation : String) (items : List InventoryMutation) :
    SteadySession (reserveItems reservation items) := by
  induction items with
  | nil => exact .pure _
  | cons item rest ih =>
    refine .bind (.query _) fun changed => ?_
    split
    · refine .bind (.query _) fun r => ?_
      cases r with
      | none => exact .pure _
      | some _ => exact ih
    · exact .pure _

theorem reserveBatch_steady (reservation : String) (items : List InventoryMutation) :
    Steady (MysqlInventory.reserveBatch reservation items) := by
  unfold MysqlInventory.reserveBatch
  split
  · exact .pure _
  · split
    · exact .pure _
    · refine .withConnection (.bind .startTransaction fun started => ?_)
      cases started with
      | false => exact .pure _
      | true =>
        refine .bind (.query _) fun status => ?_
        rcases status with _ | _ | status
        · exact .bind .rollback fun _ => .pure _
        · have hbook : SteadySession (bookReservation reservation items) := by
            refine .bind (.query _) fun r => ?_
            cases r with
            | none => exact .pure _
            | some _ => exact reserveItems_steady reservation items
          refine .bind hbook fun ok => ?_
          cases ok with
          | false => exact .bind .rollback fun _ => .pure _
          | true =>
            refine .bind .commit fun committed => ?_
            cases committed with
            | false => exact .bind .rollback fun _ => .pure _
            | true => exact .pure _
        · dsimp only
          split
          · exact .bind .commit fun _ => .pure _
          · exact .bind .rollback fun _ => .pure _

theorem releaseRows_steady (rows : List ReservationItem) : SteadySession (releaseRows rows) := by
  induction rows with
  | nil => exact .pure _
  | cons row rest ih =>
    unfold releaseRows
    split
    · exact .pure _
    · refine .bind (.query _) fun changed => ?_
      cases changed with
      | none => exact .pure _
      | some _ => exact ih

theorem releaseBatch_steady (reservation : String) (items : List InventoryMutation) :
    Steady (MysqlInventory.releaseBatch reservation items) := by
  unfold MysqlInventory.releaseBatch
  split
  · exact .pure _
  · refine .withConnection (.bind .startTransaction fun started => ?_)
    cases started with
    | false => exact .pure _
    | true =>
      refine .bind (.query _) fun status => ?_
      rcases status with _ | _ | status
      · exact .rollback
      · exact .rollback
      · dsimp only
        split
        · exact .bind .commit fun _ => .pure _
        · split
          · have hunbook : SteadySession (unbookReservation reservation) := by
              refine .bind (.query _) fun rows => ?_
              cases rows with
              | none => exact .pure _
              | some rows =>
                refine .bind (releaseRows_steady rows) fun ok => ?_
                cases ok with
                | false => exact .pure _
                | true =>
                  refine .bind (.query _) fun r => ?_
                  cases r <;> exact .pure _
            refine .bind hunbook fun ok => ?_
            cases ok with
            | false => exact .rollback
            | true =>
              refine .bind .commit fun committed => ?_
              cases committed with
              | false => exact .rollback
              | true => exact .pure _
          · exact .rollback

theorem appendCurrentItems_steady (items : List MutationMessage) :
    Steady (appendCurrentItems MysqlInventory.repository items) := by
  induction items with
  | nil => exact .pure _
  | cons item rest ih =>
    have hread : Steady (MysqlInventory.availableStock item.bookId.toInt32) := by
      unfold MysqlInventory.availableStock
      split
      · exact .pure _
      · refine .withConnection (.bind (.query _) fun row => ?_)
        cases row <;> exact .pure _
    have hcurrent : Steady (appendCurrentItem MysqlInventory.repository item.bookId.toInt32) := by
      refine .bind hread fun stock => ?_
      cases stock <;> exact .pure _
    refine .bind hcurrent fun current => ?_
    cases current with
    | error _ => exact .pure _
    | ok _ =>
      refine .bind ih fun currents => ?_
      cases currents <;> exact .pure _

/-! ## An order that is not stored -/

theorem insertItems_unfailed {orderId : Int32} {items : List OrderItem} {redo : Redo Db}
    {s : MySql} (h : failures whole (insertItems orderId items redo) s = 0) :
    (exec (insertItems orderId items) redo s).1.1 = true := by
  induction items generalizing redo s with
  | nil => rfl
  | cons item rest ih =>
    unfold insertItems at h ⊢
    rw [failures_session_bind] at h
    have hinserted := (query_passed_iff _ _ _).mp (Nat.eq_zero_of_add_eq_zero_right h)
    rw [exec_bind]
    rcases hrun : exec (query (insertOrderItem (orderItemRow orderId item))) redo s with
      ⟨⟨r, redo'⟩, s'⟩
    simp only [hrun] at h hinserted ⊢
    cases r with
    | none => exact absurd rfl hinserted
    | some _ => exact ih (Nat.eq_zero_of_add_eq_zero_left h)

theorem insertOrderRows_unfailed {userId total : Int32} {items : List OrderItem}
    {redo : Redo Db} {s : MySql}
    (h : failures whole (insertOrderRows userId items total redo) s = 0) :
    (exec (insertOrderRows userId items total) redo s).1.1 ≠ none := by
  unfold insertOrderRows at h ⊢
  rw [failures_session_bind] at h
  have hinserted := (insertKeyed_passed_iff _ _ _ _).mp (Nat.eq_zero_of_add_eq_zero_right h)
  rw [exec_bind]
  rcases hrun : exec (insertKeyed .orders (insertOrder userId.toInt total.toInt)) redo s with
    ⟨⟨r, redo'⟩, s'⟩
  simp only [hrun] at h hinserted ⊢
  cases r with
  | none => exact absurd rfl hinserted
  | some key =>
    have hrest := Nat.eq_zero_of_add_eq_zero_left h
    dsimp only at hrest ⊢
    rw [failures_session_bind] at hrest
    rw [exec_bind, insertItems_unfailed (Nat.eq_zero_of_add_eq_zero_right hrest)]
    exact Option.some_ne_none _

/-- Where no statement fails the order of a user is stored. -/
theorem createOrder_unfailed {userId total : Int32} {items : List OrderItem} {s : MySql}
    (huser : 0 < userId) (hne : items ≠ [])
    (h : failures whole (MysqlOrders.createOrder userId items total) s = 0) :
    ((MysqlOrders.createOrder userId items total).run s).1 ≠ none := by
  unfold MysqlOrders.createOrder at h ⊢
  rw [if_neg (not_or.mpr ⟨Int32.not_le.mpr huser, hne⟩)] at h ⊢
  rw [failures_withConnection, failures_session_bind] at h
  rw [run_withConnection, exec_bind]
  have hstarted := (startTransaction_passed_iff _ _).mp (Nat.eq_zero_of_add_eq_zero_right h)
  rcases hrun : exec (startTransaction : Sql Bool) none s with ⟨⟨started, redo⟩, s1⟩
  simp only [hrun] at h hstarted ⊢
  cases started with
  | false => exact absurd rfl hstarted
  | true =>
    have hrest := Nat.eq_zero_of_add_eq_zero_left h
    simp only [if_true] at hrest ⊢
    rw [failures_session_bind] at hrest
    rw [exec_bind]
    have hrows := insertOrderRows_unfailed (Nat.eq_zero_of_add_eq_zero_right hrest)
    rcases hrun' : exec (insertOrderRows userId items total) redo s1 with ⟨⟨r, redo'⟩, s2⟩
    simp only [hrun'] at hrest hrows ⊢
    cases r with
    | none => exact absurd rfl hrows
    | some orderId =>
      have hlast := Nat.eq_zero_of_add_eq_zero_left hrest
      dsimp only at hlast ⊢
      rw [failures_session_bind] at hlast
      rw [exec_bind]
      have hcommitted := (commit_passed_iff _ _).mp (Nat.eq_zero_of_add_eq_zero_right hlast)
      rcases hrun'' : exec (commit : Sql Bool) redo' s2 with ⟨⟨committed, redo''⟩, s3⟩
      simp only [hrun''] at hcommitted ⊢
      cases committed with
      | false => exact absurd rfl hcommitted
      | true => exact Option.some_ne_none _

/-! ## A reservation that goes through -/

theorem reserveItems_passed {reservation : String} {items : List InventoryMutation}
    {redo : Redo Db} {s : MySql}
    (h : (exec (reserveItems reservation items) redo s).1.1 = true) :
    failures whole (reserveItems reservation items redo) s = 0 := by
  induction items generalizing redo s with
  | nil => rfl
  | cons item rest ih =>
    unfold reserveItems at h ⊢
    rw [failures_session_bind]
    rw [exec_bind] at h
    have htaken := query_passed_iff (takeStock item.bookId.toInt item.quantity.toInt) redo s
    rcases hrun : exec (query (takeStock item.bookId.toInt item.quantity.toInt)) redo s with
      ⟨⟨r, redo'⟩, s'⟩
    simp only [hrun] at h htaken ⊢
    by_cases hone : r = some 1
    · subst hone
      simp only [failures_session_bind, exec_bind] at h ⊢
      have hinserted := query_passed_iff (insertReservationItem reservation item.bookId.toInt
        item.quantity.toInt) redo' s'
      rcases hrun' : exec (query (insertReservationItem reservation item.bookId.toInt
        item.quantity.toInt)) redo' s' with ⟨⟨r', redo''⟩, s''⟩
      simp only [hrun'] at h hinserted ⊢
      cases r' with
      | none => cases h
      | some _ =>
        rw [htaken.mpr (Option.some_ne_none _), hinserted.mpr (Option.some_ne_none _), ih h]
    · split at h
      · exact absurd rfl hone
      · cases h

theorem bookReservation_passed {reservation : String} {items : List InventoryMutation}
    {redo : Redo Db} {s : MySql}
    (h : (exec (bookReservation reservation items) redo s).1.1 = true) :
    failures whole (bookReservation reservation items redo) s = 0 := by
  unfold bookReservation at h ⊢
  rw [failures_session_bind]
  rw [exec_bind] at h
  have hinserted := query_passed_iff (insertReservation reservation) redo s
  rcases hrun : exec (query (insertReservation reservation)) redo s with ⟨⟨r, redo'⟩, s'⟩
  simp only [hrun] at h hinserted ⊢
  cases r with
  | none => cases h
  | some _ =>
    rw [hinserted.mpr (Option.some_ne_none _), reserveItems_passed h]

/-- A batch reservation that answers true has passed its two checks. -/
theorem reserveBatch_checked {reservation : String} {items : List InventoryMutation} {s : MySql}
    (h : ((MysqlInventory.reserveBatch reservation items).run s).1 = true) :
    ¬ (reservation.isEmpty ∨ items.isEmpty) ∧
      ¬ (items.any fun item => item.bookId ≤ 0 ∨ item.quantity ≤ 0) = true := by
  refine ⟨fun hbad => ?_, fun hbad => ?_⟩
  · simp only [MysqlInventory.reserveBatch, hbad, if_true, Prog.run_pure] at h
    cases h
  · by_cases hempty : reservation.isEmpty ∨ items.isEmpty
    · simp only [MysqlInventory.reserveBatch, hempty, if_true, Prog.run_pure] at h
      cases h
    · simp only [MysqlInventory.reserveBatch, hempty, hbad, if_true, if_false,
        Prog.run_pure] at h
      cases h

/-- No statement of a new reservation that goes through has failed. -/
theorem reserveBatch_passed {reservation : String} {items : List InventoryMutation} {s : MySql}
    (hnew : s.db.reservations reservation = none)
    (h : ((MysqlInventory.reserveBatch reservation items).run s).1 = true) :
    failures whole (MysqlInventory.reserveBatch reservation items) s = 0 := by
  obtain ⟨hargs, hpos⟩ := reserveBatch_checked h
  rw [MysqlInventory.reserveBatch, if_neg hargs, if_neg hpos] at h ⊢
  rw [failures_withConnection, failures_session_bind]
  rw [run_withConnection, exec_bind] at h
  have hstarted := startTransaction_passed_iff none s
  cases hfault : s.faults s.clock with
  | true =>
    rw [startTransaction_faulty none s hfault] at h
    cases h
  | false =>
    simp only [startTransaction_accepted none s hfault, if_true] at h hstarted ⊢
    rw [hstarted.mpr (by simp), failures_session_bind, Nat.zero_add]
    rw [exec_bind] at h
    have hselected := query_passed_iff (selectReservationStatus reservation) (some id) s.tick
    cases hfault' : s.tick.faults s.tick.clock with
    | true =>
      rw [query_faulty _ _ _ hfault'] at h
      cases h
    | false =>
      have hresult : (selectReservationStatus reservation).result (view (some id) s.tick.db) =
        some none := by simp [selectReservationStatus, hnew]
      simp only [query_accepted _ _ _ hfault' hresult, record] at h hselected ⊢
      rw [hselected.mpr (by simp), failures_session_bind, Nat.zero_add]
      rw [exec_bind] at h
      rcases hbook : exec (bookReservation reservation items)
        (Option.map ((selectReservationStatus reservation).effect ∘ ·) (some id)) s.tick.tick
        with ⟨⟨ok, redo⟩, s'⟩
      cases ok with
      | false =>
        rw [hbook] at h
        cases h
      | true =>
        have hbooked := bookReservation_passed (congrArg (fun r => r.1.1) hbook)
        simp only [hbook, if_true] at h ⊢
        rw [hbooked, failures_session_bind, Nat.zero_add]
        rw [exec_bind] at h
        have hcommitted := commit_passed_iff redo s'
        rcases hcommit : exec (commit : Sql Bool) redo s' with ⟨⟨committed, redo'⟩, s''⟩
        simp only [hcommit] at h hcommitted ⊢
        cases committed with
        | false => cases h
        | true => rw [hcommitted.mpr (by simp)]; rfl

theorem availableStock_failures_le (bookId : Int32) (s : MySql) :
    failures whole (MysqlInventory.availableStock bookId) s ≤ 1 ∧
      (((MysqlInventory.availableStock bookId).run s).1 ≠ none →
        failures whole (MysqlInventory.availableStock bookId) s = 0) := by
  unfold MysqlInventory.availableStock
  split
  · exact ⟨Nat.zero_le _, fun _ => rfl⟩
  · rw [failures_withConnection, failures_session_bind, run_withConnection, exec_bind]
    have hselected := query_passed_iff (selectAvailable bookId.toInt) none s
    have hle : failures whole ((query (selectAvailable bookId.toInt) : Sql _) none) s ≤ 1 :=
      failures_act_le rfl
    rcases hrun : exec (query (selectAvailable bookId.toInt)) none s with ⟨⟨r, redo⟩, s'⟩
    rw [hrun] at hselected
    dsimp only at hselected ⊢
    cases r with
    | none => exact ⟨hle, fun hsome => absurd rfl hsome⟩
    | some row => exact ⟨hle, fun _ => hselected.mpr (Option.some_ne_none _)⟩

/-- The reads stop at the first SELECT that fails. -/
theorem appendCurrentItems_failures_le (items : List MutationMessage) (s : MySql) :
    failures whole (appendCurrentItems MysqlInventory.repository items) s ≤ 1 := by
  induction items generalizing s with
  | nil => exact Nat.zero_le 1
  | cons item rest ih =>
    have hservice : (inventoryService MysqlInventory.repository).availableStock
      item.bookId.toInt32 = MysqlInventory.availableStock item.bookId.toInt32 := rfl
    obtain ⟨hle, hpassed⟩ := availableStock_failures_le item.bookId.toInt32 s
    simp only [appendCurrentItems, appendCurrentItem, failures_bind, Prog.run_bind, hservice]
    rcases hrun : (MysqlInventory.availableStock item.bookId.toInt32).run s with ⟨stock, s'⟩
    rw [hrun] at hpassed
    dsimp only at hpassed ⊢
    cases stock with
    | none => simpa using hle
    | some value =>
      have hrest := ih s'
      simp only [failures_pure, failures_bind, Prog.run_pure, hpassed (Option.some_ne_none _)]
      split <;> simpa using hrest

/-! ## When the reservation goes through -/

/-- The two statements of every round of the reservation loop are accepted. -/
def RowsAccepted (reservation : String) : List InventoryMutation → Db → Prop
  | [], _ => True
  | item :: rest, db =>
    let taken := (takeStock item.bookId.toInt item.quantity.toInt).effect db
    let insert := insertReservationItem reservation item.bookId.toInt item.quantity.toInt
    (takeStock item.bookId.toInt item.quantity.toInt).result db = some 1 ∧
      insert.result taken = some () ∧ RowsAccepted reservation rest (insert.effect taken)

/-- Everything the two batch methods ask of a reservation under a new id. -/
structure Bookable (reservation : String) (items : List InventoryMutation) (db : Db) : Prop where
  nonempty : items ≠ []
  named : reservation.isEmpty = false
  short : reservation.length ≤ 96
  positive : Positive items
  distinct : (items.map InventoryMutation.bookId).Nodup
  known : ∀ item ∈ items, (db.books item.bookId.toInt).isSome
  covered : ∀ item ∈ items, ∃ value, db.inventory item.bookId.toInt = some value ∧
    item.quantity.toInt ≤ value

theorem reserveItems_true {reservation : String} {items : List InventoryMutation} {f : Db → Db}
    {s s' : MySql} {redo : Redo Db}
    (h : exec (reserveItems reservation items) (some f) s = ((true, redo), s')) :
    RowsAccepted reservation items (f s.db) ∧ s'.clock = s.clock + 2 * items.length ∧
      Undisturbed s s'.clock := by
  induction items generalizing f s with
  | nil =>
    cases h
    exact ⟨trivial, rfl, fun n hlow hhigh => absurd hhigh (by omega)⟩
  | cons item rest ih =>
    unfold reserveItems at h
    rw [exec_bind] at h
    rcases htake : exec (query (takeStock item.bookId.toInt item.quantity.toInt)) (some f) s with
      ⟨⟨changed, redo1⟩, s1⟩
    rw [htake] at h
    by_cases hone : changed = some 1
    · subst hone
      obtain ⟨hfault, hresult, rfl, rfl⟩ := query_some htake
      simp only [exec_bind] at h
      rcases hinsert : exec (query (insertReservationItem reservation item.bookId.toInt
        item.quantity.toInt)) (some ((takeStock item.bookId.toInt item.quantity.toInt).effect ∘ f))
        s.tick with ⟨⟨inserted, redo2⟩, s2⟩
      rw [hinsert] at h
      cases inserted with
      | none => cases h
      | some _ =>
        obtain ⟨hfault', hresult', rfl, rfl⟩ := query_some hinsert
        obtain ⟨hrows, hclock, hquiet⟩ := ih h
        have hlater : s.tick.tick.clock = s.clock + 2 := rfl
        refine ⟨⟨hresult, hresult', hrows⟩, ?_, ?_⟩
        · rw [hclock, List.length_cons, hlater]
          omega
        · intro n hlow hhigh
          by_cases hfirst : n = s.clock
          · rw [hfirst, hfault]
          · by_cases hsecond : n = s.clock + 1
            · rw [hsecond]
              exact hfault'
            · exact hquiet n (by rw [hlater]; omega) hhigh
    · dsimp only at h
      split at h
      · exact absurd rfl hone
      · cases h

theorem reserveItems_reliable {reservation : String} {items : List InventoryMutation}
    {f : Db → Db} {s : MySql} (hreliable : s.Reliable)
    (h : RowsAccepted reservation items (f s.db)) :
    ∃ g, exec (reserveItems reservation items) (some f) s =
      ((true, some g), { s with clock := s.clock + 2 * items.length }) := by
  induction items generalizing f s with
  | nil => exact ⟨f, rfl⟩
  | cons item rest ih =>
    obtain ⟨htake, hinsert, hrows⟩ := h
    have htaken := query_accepted (takeStock item.bookId.toInt item.quantity.toInt) (some f) s
      (hreliable _) htake
    have hinserted := query_accepted
      (insertReservationItem reservation item.bookId.toInt item.quantity.toInt)
      (some ((takeStock item.bookId.toInt item.quantity.toInt).effect ∘ f)) s.tick
      (hreliable _) hinsert
    obtain ⟨g, hrun⟩ := @ih
      ((insertReservationItem reservation item.bookId.toInt item.quantity.toInt).effect ∘
        (takeStock item.bookId.toInt item.quantity.toInt).effect ∘ f) s.tick.tick hreliable hrows
    refine ⟨g, ?_⟩
    unfold reserveItems
    simp only [exec_bind, htaken, Option.map_some, record]
    rw [hinserted]
    simp only [Option.map_some, record]
    rw [hrun]
    simp only [Server.tick, List.length_cons]
    congr 2
    omega

theorem bookReservation_true {reservation : String} {items : List InventoryMutation}
    {f : Db → Db} {s s' : MySql} {redo : Redo Db}
    (h : exec (bookReservation reservation items) (some f) s = ((true, redo), s')) :
    (insertReservation reservation).result (f s.db) = some () ∧
      RowsAccepted reservation items ((insertReservation reservation).effect (f s.db)) ∧
      s'.clock = s.clock + 1 + 2 * items.length ∧ Undisturbed s s'.clock ∧
      s'.faults = s.faults ∧ ∃ g, redo = some g := by
  obtain ⟨ok, g, c, hspec, _⟩ := bookReservation_spec reservation items f s
  rw [h] at hspec
  unfold bookReservation at h
  rw [exec_bind] at h
  rcases hinsert : exec (query (insertReservation reservation)) (some f) s with ⟨⟨r, redo1⟩, s1⟩
  rw [hinsert] at h
  cases r with
  | none => cases h
  | some _ =>
    obtain ⟨hfault, hresult, rfl, rfl⟩ := query_some hinsert
    obtain ⟨hrows, hclock, hquiet⟩ := reserveItems_true h
    refine ⟨hresult, hrows, hclock, ?_, congrArg (fun r => r.2.faults) hspec, g,
      congrArg (fun r => r.1.2) hspec⟩
    intro n hlow hhigh
    by_cases hfirst : n = s.clock
    · rw [hfirst, hfault]
    · exact hquiet n (show s.clock + 1 ≤ n by omega) hhigh

/-- A batch reservation under a new id that answers true went through without a
failure; its statements are START, SELECT, INSERT, two for each item and COMMIT. -/
theorem reserveBatch_booked {reservation : String} {items : List InventoryMutation} {s : MySql}
    (hnew : s.db.reservations reservation = none)
    (h : ((MysqlInventory.reserveBatch reservation items).run s).1 = true) :
    reservation.isEmpty = false ∧ items ≠ [] ∧ Positive items ∧
      (insertReservation reservation).result s.db = some () ∧
      RowsAccepted reservation items ((insertReservation reservation).effect s.db) ∧
      ((MysqlInventory.reserveBatch reservation items).run s).2.clock =
        s.clock + 4 + 2 * items.length ∧
      Undisturbed s (s.clock + 4 + 2 * items.length) := by
  obtain ⟨hempty, hany⟩ := reserveBatch_checked h
  have hnamed : reservation.isEmpty = false ∧ items ≠ [] := by
    rw [not_or] at hempty
    exact ⟨by simpa using hempty.1, by simpa using hempty.2⟩
  rw [MysqlInventory.reserveBatch, if_neg hempty, if_neg hany] at h ⊢
  simp only [run_withConnection, exec_bind] at h ⊢
  rcases hstart : exec (startTransaction : Sql Bool) none s with ⟨⟨started, redo⟩, s1⟩
  rw [hstart] at h
  cases started with
  | false => cases h
  | true =>
    obtain ⟨hfault, rfl, rfl⟩ := startTransaction_true hstart
    simp only [if_true, exec_bind] at h ⊢
    rcases hselect : exec (query (selectReservationStatus reservation)) (some id) s.tick with
      ⟨⟨status, redo⟩, s1⟩
    rw [hselect] at h
    cases status with
    | none => cases h
    | some status =>
      obtain ⟨hfault', hresult, rfl, rfl⟩ := query_some hselect
      have hstatus : s.db.reservations reservation = status := Option.some.inj hresult
      rw [hnew] at hstatus
      subst hstatus
      simp only [exec_bind] at h ⊢
      rcases hbook : exec (bookReservation reservation items)
        (some ((selectReservationStatus reservation).effect ∘ id)) s.tick.tick with
        ⟨⟨ok, redo⟩, s1⟩
      rw [hbook] at h
      cases ok with
      | false => cases h
      | true =>
        obtain ⟨hinsert, hrows, hclock, hquiet, hfaults, g, rfl⟩ := bookReservation_true hbook
        simp only [if_true, exec_bind] at h ⊢
        rcases hcommit : exec (commit : Sql Bool) (some g) s1 with ⟨⟨committed, redo⟩, s2⟩
        rw [hcommit] at h
        cases committed with
        | false => cases h
        | true =>
          obtain ⟨hfault'', rfl⟩ := commit_true hcommit
          have hlater : s.tick.tick.clock = s.clock + 2 := rfl
          rw [hlater] at hclock
          refine ⟨hnamed.1, hnamed.2, positive_of_not_any hany, hinsert, hrows, ?_, ?_⟩
          · change s1.clock + 1 = _
            omega
          · intro n hlow hhigh
            by_cases hfirst : n = s.clock
            · rw [hfirst, hfault]
            · by_cases hsecond : n = s.clock + 1
              · rw [hsecond]
                exact hfault'
              · by_cases hlast : n = s1.clock
                · have hsame : s1.faults = s.faults := hfaults
                  rw [hlast, ← hsame]
                  exact hfault''
                · exact hquiet n (show s.clock + 2 ≤ n by omega) (by omega)

/-- On a reliable server an acceptable reservation goes through. -/
theorem reserveBatch_reliable {reservation : String} {items : List InventoryMutation} {s : MySql}
    (hreliable : s.Reliable) (hnew : s.db.reservations reservation = none)
    (hnamed : reservation.isEmpty = false) (hne : items ≠ []) (hpos : Positive items)
    (hinsert : (insertReservation reservation).result s.db = some ())
    (hrows : RowsAccepted reservation items ((insertReservation reservation).effect s.db)) :
    ((MysqlInventory.reserveBatch reservation items).run s).1 = true := by
  have hempty : ¬ (reservation.isEmpty ∨ items.isEmpty) := by
    simp [hnamed, hne]
  have hany : ¬ (items.any fun item => item.bookId ≤ 0 ∨ item.quantity ≤ 0) = true := by
    intro hbad
    obtain ⟨item, hitem, hguard⟩ := List.any_eq_true.mp hbad
    have hp := hpos item hitem
    simp only [decide_eq_true_eq, Int32.le_iff_toInt_le, Int32.toInt_zero] at hguard
    omega
  have hselected := query_accepted (selectReservationStatus reservation) (some id) s.tick
    (hreliable _) rfl
  have hinserted := query_accepted (insertReservation reservation)
    (some ((selectReservationStatus reservation).effect ∘ id)) s.tick.tick (hreliable _) hinsert
  obtain ⟨g, hbook⟩ := @reserveItems_reliable reservation items
    ((insertReservation reservation).effect ∘ (selectReservationStatus reservation).effect ∘ id)
    s.tick.tick.tick hreliable hrows
  rw [MysqlInventory.reserveBatch, if_neg hempty, if_neg hany]
  simp only [run_withConnection, exec_bind]
  rcases startTransaction_cases none s with ⟨_, hnot⟩ | hstart
  · exact absurd hreliable hnot
  · have hnone : s.tick.db.reservations reservation = none := hnew
    simp only [hstart, if_true, exec_bind, hselected, view_some, id, hnone, Option.map_some, record,
      bookReservation]
    rw [hinserted]
    simp only [Option.map_some, record, hbook, if_true, exec_bind]
    rcases commit_cases g { s.tick.tick.tick with clock := s.tick.tick.tick.clock +
      2 * items.length } with ⟨_, hnot⟩ | hcommit
    · exact absurd hreliable hnot
    · rw [hcommit]
      rfl

/-! ## The reservation loop in terms of the tables -/

/-- No row is recorded for a book of these items under the reservation. -/
def Unrecorded (reservation : String) (items : List InventoryMutation) (db : Db) : Prop :=
  ∀ item ∈ items, ∀ row ∈ db.reservationItems,
    ¬ (row.reservationId = reservation ∧ row.bookId = item.bookId.toInt)

theorem takeStock_result_iff (book quantity : ℤ) (db : Db) :
    (takeStock book quantity).result db = some 1 ↔
      ∃ value, db.inventory book = some value ∧ quantity ≤ value := by
  unfold takeStock
  cases hrow : db.inventory book with
  | none => simp [hrow]
  | some value => by_cases hle : quantity ≤ value <;> simp [hrow, hle]

theorem insertReservationItem_result_iff (reservation : String) (item : InventoryMutation)
    (db : Db) (hparent : (db.reservations reservation).isSome) (hq : 0 < item.quantity.toInt) :
    (insertReservationItem reservation item.bookId.toInt item.quantity.toInt).result db =
      some () ↔ (db.books item.bookId.toInt).isSome ∧ Unrecorded reservation [item] db := by
  have hmax := MachineInt.toInt_le_intMax item.quantity
  unfold MachineInt.intMax at hmax
  have hunsigned : IsUnsigned item.quantity.toInt := ⟨hq.le, by unfold unsignedMax; omega⟩
  simp [insertReservationItem, hunsigned, hparent, Unrecorded]

/-- The rows that a round of the loop leaves behind bar its book from coming again. -/
theorem unrecorded_step (reservation : String) (item : InventoryMutation)
    (rest : List InventoryMutation) (db taken : Db)
    (htaken : taken.reservationItems = db.reservationItems) :
    Unrecorded reservation rest
        ((insertReservationItem reservation item.bookId.toInt item.quantity.toInt).effect taken) ↔
      Unrecorded reservation rest db ∧ item.bookId ∉ rest.map InventoryMutation.bookId := by
  simp only [Unrecorded, insertReservationItem, htaken, List.mem_append, List.mem_singleton]
  constructor
  · intro h
    refine ⟨fun i hi row hrow => h i hi row (.inl hrow), ?_⟩
    intro hmem
    obtain ⟨i, hi, hbook⟩ := List.mem_map.mp hmem
    exact h i hi _ (.inr rfl) ⟨rfl, by rw [hbook]⟩
  · intro hboth i hi row hrow
    obtain ⟨h, hnot⟩ := hboth
    rcases hrow with hold | rfl
    · exact h i hi row hold
    · intro hclash
      apply hnot
      rw [Int32.toInt_inj.mp hclash.2]
      exact List.mem_map_of_mem hi

theorem rowsAccepted_iff (reservation : String) (items : List InventoryMutation) (db : Db)
    (hparent : (db.reservations reservation).isSome) (hpos : Positive items) :
    RowsAccepted reservation items db ↔
      (items.map InventoryMutation.bookId).Nodup ∧ Unrecorded reservation items db ∧
      (∀ item ∈ items, (db.books item.bookId.toInt).isSome) ∧
      ∀ item ∈ items, ∃ value, db.inventory item.bookId.toInt = some value ∧
        item.quantity.toInt ≤ value := by
  induction items generalizing db with
  | nil => simp [RowsAccepted, Unrecorded]
  | cons item rest ih =>
    have hrest : Positive rest := fun i hi => hpos i (by simp [hi])
    simp only [RowsAccepted]
    rw [takeStock_result_iff]
    by_cases htake : ∃ value, db.inventory item.bookId.toInt = some value ∧
        item.quantity.toInt ≤ value
    · obtain ⟨value, hrow, hle⟩ := htake
      obtain ⟨v, hv, _, heffect⟩ := takeStock_one item.bookId.toInt item.quantity.toInt db
        ((takeStock_result_iff _ _ db).mpr ⟨value, hrow, hle⟩)
      rw [heffect]
      have hinsert := insertReservationItem_result_iff reservation item
        { db with
          inventory := Function.update db.inventory item.bookId.toInt
            (some (v - item.quantity.toInt)) } hparent (hpos item (by simp)).2
      have hloop := ih
        ((insertReservationItem reservation item.bookId.toInt item.quantity.toInt).effect
          { db with
            inventory := Function.update db.inventory item.bookId.toInt
              (some (v - item.quantity.toInt)) }) hparent hrest
      have hstep := unrecorded_step reservation item rest db
        { db with
          inventory := Function.update db.inventory item.bookId.toInt
            (some (v - item.quantity.toInt)) } rfl
      rw [hinsert, hloop, hstep]
      have hother : item.bookId ∉ rest.map InventoryMutation.bookId → ∀ i ∈ rest,
          Function.update db.inventory item.bookId.toInt (some (v - item.quantity.toInt))
            i.bookId.toInt = db.inventory i.bookId.toInt := by
        intro hnot i hi
        apply Function.update_of_ne
        intro heq
        apply hnot
        rw [← Int32.toInt_inj.mp heq]
        exact List.mem_map_of_mem hi
      constructor
      · intro ⟨_, ⟨hknown, hclear⟩, hdistinct, ⟨hunrecorded, hnot⟩, hknowns, hcovered⟩
        refine ⟨List.nodup_cons.mpr ⟨hnot, hdistinct⟩, ?_, ?_, ?_⟩
        · intro i hi
          rcases List.mem_cons.mp hi with rfl | hmem
          · exact hclear i (by simp)
          · exact hunrecorded i hmem
        · intro i hi
          rcases List.mem_cons.mp hi with rfl | hmem
          · exact hknown
          · exact hknowns i hmem
        · intro i hi
          rcases List.mem_cons.mp hi with rfl | hmem
          · exact ⟨value, hrow, hle⟩
          · obtain ⟨w, hw, hq⟩ := hcovered i hmem
            exact ⟨w, (hother hnot i hmem).symm.trans hw, hq⟩
      · intro ⟨hdistinct, hunrecorded, hknowns, hcovered⟩
        have hnodup := List.nodup_cons.mp hdistinct
        refine ⟨⟨value, hrow, hle⟩, ⟨hknowns item (by simp), ?_⟩, hnodup.2,
          ⟨fun i hi => hunrecorded i (by simp [hi]), hnodup.1⟩,
          fun i hi => hknowns i (by simp [hi]), ?_⟩
        · intro i hi
          rw [List.mem_singleton.mp hi]
          exact hunrecorded item (by simp)
        · intro i hi
          obtain ⟨w, hw, hq⟩ := hcovered i (by simp [hi])
          exact ⟨w, (hother hnodup.1 i hi).trans hw, hq⟩
    · constructor
      · intro h
        exact absurd h.1 htake
      · intro h
        exact absurd (h.2.2.2 item (by simp)) htake

theorem bookable_iff (reservation : String) (items : List InventoryMutation) (db : Db)
    (hnew : db.reservations reservation = none)
    (hclear : ∀ row ∈ db.reservationItems, row.reservationId ≠ reservation) :
    Bookable reservation items db ↔
      reservation.isEmpty = false ∧ items ≠ [] ∧ Positive items ∧
        (insertReservation reservation).result db = some () ∧
        RowsAccepted reservation items ((insertReservation reservation).effect db) := by
  have hinsert : (insertReservation reservation).result db = some () ↔
      reservation.length ≤ 96 := by
    simp [insertReservation, hnew]
  have hparent : (((insertReservation reservation).effect db).reservations
      reservation).isSome := by
    simp [insertReservation]
  have hunrecorded : Unrecorded reservation items ((insertReservation reservation).effect db) :=
    fun _ _ row hrow hclash => hclear row hrow hclash.1
  constructor
  · intro h
    refine ⟨h.named, h.nonempty, h.positive, hinsert.mpr h.short, ?_⟩
    rw [rowsAccepted_iff reservation items _ hparent h.positive]
    exact ⟨h.distinct, hunrecorded, h.known, h.covered⟩
  · intro ⟨hnamed, hne, hpos, hshort, hrows⟩
    rw [rowsAccepted_iff reservation items _ hparent hpos] at hrows
    exact ⟨hne, hnamed, hinsert.mp hshort, hpos, hrows.1, hrows.2.2.1, hrows.2.2.2⟩

theorem availableStock_some {bookId stock : Int32} {s s' : MySql}
    (h : (MysqlInventory.availableStock bookId).run s = (some stock, s')) :
    s.faults s.clock = false ∧ s' = s.tick := by
  unfold MysqlInventory.availableStock at h
  split at h
  · cases h
  · simp only [run_withConnection, exec_bind] at h
    cases hfault : s.faults s.clock with
    | true =>
      rw [query_faulty _ none s hfault] at h
      cases h
    | false =>
      rw [query_accepted (selectAvailable bookId.toInt) none s hfault rfl] at h
      exact ⟨rfl, (congrArg Prod.snd h).symm⟩

/-- Whoever gets the stock of every item had none of the SELECTs fail. -/
theorem appendCurrentItems_ok {items : List MutationMessage} {s : MySql}
    {currents : List InventoryItem}
    (h : ((appendCurrentItems MysqlInventory.repository items).run s).1 = .ok currents) :
    ((appendCurrentItems MysqlInventory.repository items).run s).2.clock =
        s.clock + items.length ∧
      Undisturbed s (s.clock + items.length) := by
  induction items generalizing s currents with
  | nil => exact ⟨rfl, fun n hlow hhigh => absurd hhigh (Nat.not_lt.mpr hlow)⟩
  | cons item rest ih =>
    rcases hread : (MysqlInventory.availableStock item.bookId.toInt32).run s with ⟨stock, s1⟩
    have hcurrent : ((inventoryService MysqlInventory.repository).availableStock
        item.bookId.toInt32).run s = (stock, s1) := hread
    simp only [appendCurrentItems, appendCurrentItem, Prog.run_bind, hcurrent] at h ⊢
    cases stock with
    | none => cases h
    | some value =>
      obtain ⟨hfault, rfl⟩ := availableStock_some hread
      simp only [Prog.run_pure, Prog.run_bind] at h ⊢
      cases hrest : ((appendCurrentItems MysqlInventory.repository rest).run s.tick).1 with
      | error status =>
        rw [hrest] at h
        cases h
      | ok tail =>
        obtain ⟨hclock, hquiet⟩ := ih hrest
        have hlater : s.tick.clock = s.clock + 1 := rfl
        rw [hlater] at hclock hquiet
        refine ⟨?_, ?_⟩
        · simp only [Prog.run_pure, List.length_cons]
          omega
        · intro n hlow hhigh
          by_cases hfirst : n = s.clock
          · rw [hfirst, hfault]
          · rw [List.length_cons] at hhigh
            exact hquiet n (show s.clock + 1 ≤ n by omega) (by omega)

end Bookstore.BatchFaults
