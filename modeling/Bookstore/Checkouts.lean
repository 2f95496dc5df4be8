import Bookstore.Services
import Mathlib.Algebra.Order.BigOperators.Group.List

/-!
Concurrent create_order requests over LocalInventoryClient. A checkout is
somewhere in create_order: it prices its items, reserves them one by one, gives
back what it has reserved, or stores its order. What it holds can be read off
its place, and no step changes the sum of what is available, held and stored.
-/
namespace Bookstore.Checkouts

open Interleaving Records Repositories Services Tally

variable {σ : Type}

/-- What the stores of a local mode say about each book. -/
structure Shelf (σ : Type) where
  available : σ → Int32 → ℤ
  stored : σ → Int32 → ℤ
  stocked : σ → Int32 → Prop
  good : σ → Prop
  room : ℤ

/-- A step that leaves the stock and the stored orders alone. -/
structure Shelf.Aside (V : Shelf σ) (s s' : σ) : Prop where
  available : ∀ book, V.available s' book = V.available s book
  stored : ∀ book, V.stored s' book = V.stored s book
  stocked : ∀ book, V.stocked s book → V.stocked s' book
  good : V.good s'

theorem Shelf.Aside.refl (V : Shelf σ) {s : σ} (h : V.good s) : V.Aside s s :=
  ⟨fun _ => rfl, fun _ => rfl, fun _ h => h, h⟩

/-- The members of OrderService in local mode, each call of a repository one
atomic step. -/
structure Local (σ : Type) where
  catalogue : σ → Int32 → Option Book
  inventory : InventoryRepository σ
  orders : OrderRepository σ
  nextId : Lens σ ℕ

def Local.orderService (m : Local σ) : OrderService σ where
  bookClient := ⟨fun bookId => .read fun s => m.catalogue s bookId⟩
  inventoryClient := localInventoryClient m.inventory
  orderRepository := m.orders
  nextId := m.nextId

/-- What the atomic calls do to the shelf. -/
structure Shelf.Serves (V : Shelf σ) (m : Local σ) : Prop where
  draw : ∀ s n, V.good s → V.Aside s (m.nextId.set n s)
  reserve : ∀ book quantity, ∃ f, m.inventory.reserveStock book quantity = .call f ∧
    ∀ s, V.good s → (∃ s', f s = (false, s') ∧ V.Aside s s') ∨
      ∃ s', f s = (true, s') ∧ 0 < quantity.toInt ∧ quantity.toInt ≤ V.available s book ∧
        V.stocked s' book ∧ (∀ b, V.stocked s b → V.stocked s' b) ∧ V.good s' ∧
        (∀ b, V.stored s' b = V.stored s b) ∧
        ∀ b, V.available s' b = V.available s b - if book = b then quantity.toInt else 0
  release : ∀ book quantity, ∃ f, m.inventory.releaseStock book quantity = .call f ∧
    ∀ s, V.good s → 0 < quantity.toInt → V.stocked s book → 0 ≤ V.available s book →
      V.available s book + quantity.toInt ≤ V.room →
      (∀ b, V.stocked s b → V.stocked (f s).2 b) ∧ V.good (f s).2 ∧
      (∀ b, V.stored (f s).2 b = V.stored s b) ∧
      ∀ b, V.available (f s).2 b = V.available s b + if book = b then quantity.toInt else 0
  create : ∀ userId items total, ∃ f, m.orders.createOrder userId items total = .call f ∧
    ∀ s, V.good s → (∃ s', f s = (none, s') ∧ V.Aside s s') ∨
      ∃ order s', f s = (some order, s') ∧ (∀ b, V.stocked s b → V.stocked s' b) ∧ V.good s' ∧
        (∀ b, V.stored s' b = V.stored s b + quantityOf b items) ∧
        ∀ b, V.available s' b = V.available s b

structure Checkout where
  userId : Int32
  requests : List OrderItemRequest

/-- Where a checkout stands. -/
inductive Stage
  | pricing (items : List OrderItem) (total : Int32) (left : List OrderItemRequest)
  | reserving (reservation : String) (items : List OrderItem) (total : Int32)
      (reserved left : List InventoryMutation)
  | storing (reservation : String) (items : List OrderItem) (total : Int32)
  | returning (left : List InventoryMutation)
  | finished (result : Option Order)

/-- The copies of a book that a checkout holds: reserved, and neither given
back nor in a stored order. -/
def Stage.held (book : Int32) : Stage → ℤ
  | .pricing _ _ _ => 0
  | .reserving _ _ _ reserved _ => requested book reserved
  | .storing _ items _ => quantityOf book items
  | .returning left => requested book left
  | .finished _ => 0

def heldBy (book : Int32) (stages : List Stage) : ℤ := (stages.map (Stage.held book)).sum

section Program

variable (m : Local σ) (r : Checkout)

def createOrder : Prog σ (Option Order) := m.orderService.createOrder r.userId r.requests

/-- create_order after the answer of the order repository. -/
def afterStore (reservation : String) : Option Order → Prog σ (Option Order)
  | some order => pure (some order)
  | none => do
    m.orderService.inventoryClient.releaseBatch reservation
      (r.requests.map OrderItemRequest.toMutation)
    pure none

/-- create_order after the answer of the batch reservation. -/
def afterReserve (reservation : String) (items : List OrderItem) (total : Int32)
    (ok : Bool) : Prog σ (Option Order) :=
  if ok then m.orders.createOrder r.userId items total >>= afterStore m r reservation
  else pure none

/-- What is left of create_order. -/
def Stage.program : Stage → Prog σ (Option Order)
  | .pricing items total left => do
    match ← m.orderService.priceItems items total left with
    | none => pure none
    | some (items, total) => m.orderService.placeOrder r.userId r.requests items total
  | .reserving reservation items total reserved left =>
    reserveEach (inventoryService m.inventory) reserved left >>=
      afterReserve m r reservation items total
  | .storing reservation items total => afterReserve m r reservation items total true
  | .returning left => releaseEach (inventoryService m.inventory) left >>= fun _ => pure none
  | .finished result => pure result

end Program

/-- What is known of a checkout at its place. -/
def Stage.Sound (V : Shelf σ) (s : σ) (r : Checkout) : Stage → Prop
  | .pricing items _ left => r.requests ≠ [] ∧ ∃ priced, r.requests = priced ++ left ∧
      OrderService.Priced priced items
  | .reserving _ items _ reserved left =>
      r.requests.map OrderItemRequest.toMutation = reserved ++ left ∧ left ≠ [] ∧
        OrderService.Priced r.requests items ∧
        ∀ item ∈ reserved, 0 < item.quantity.toInt ∧ V.stocked s item.bookId
  | .storing _ items _ => OrderService.Priced r.requests items ∧
      ∀ item ∈ r.requests.map OrderItemRequest.toMutation,
        0 < item.quantity.toInt ∧ V.stocked s item.bookId
  | .returning left => ∀ item ∈ left, 0 < item.quantity.toInt ∧ V.stocked s item.bookId
  | .finished _ => True

theorem Stage.Sound.mono {V : Shelf σ} {s s' : σ} {r : Checkout} {stage : Stage}
    (h : stage.Sound V s r) (hstocked : ∀ book, V.stocked s book → V.stocked s' book) :
    stage.Sound V s' r := by
  cases stage with
  | pricing items total left => exact h
  | reserving reservation items total reserved left =>
    obtain ⟨hrequests, hleft, hpriced, hreserved⟩ := h
    exact ⟨hrequests, hleft, hpriced,
      fun item hitem => ⟨(hreserved item hitem).1, hstocked _ (hreserved item hitem).2⟩⟩
  | storing reservation items total =>
    exact ⟨h.1, fun item hitem => ⟨(h.2 item hitem).1, hstocked _ (h.2 item hitem).2⟩⟩
  | returning left => exact fun item hitem => ⟨(h item hitem).1, hstocked _ (h item hitem).2⟩
  | finished result => exact h

theorem Stage.Sound.held_nonneg {V : Shelf σ} {s : σ} {r : Checkout} {stage : Stage}
    (h : stage.Sound V s r) (book : Int32) : 0 ≤ stage.held book := by
  cases stage with
  | pricing items total left => exact le_refl 0
  | reserving reservation items total reserved left =>
    exact requested_nonneg book reserved fun item hitem => (h.2.2.2 item hitem).1
  | storing reservation items total => exact quantityOf_nonneg book items h.1.positive
  | returning left => exact requested_nonneg book left fun item hitem => (h item hitem).1
  | finished result => exact le_refl 0
/-! ## One step -/

/-- A step of a checkout from one place to another. -/
structure Moved (V : Shelf σ) (s : σ) (stage : Stage) (s' : σ) (stage' : Stage) : Prop where
  nonneg : (∀ book, 0 ≤ V.available s book) → ∀ book, 0 ≤ V.available s' book
  balance : ∀ book, V.available s' book + stage'.held book + V.stored s' book =
    V.available s book + stage.held book + V.stored s book
  stored : ∀ book, V.stored s book ≤ V.stored s' book
  stocked : ∀ book, V.stocked s book → V.stocked s' book
  good : V.good s'

theorem Moved.of_aside {V : Shelf σ} {s s' : σ} {stage stage' : Stage} (h : V.Aside s s')
    (hheld : ∀ book, stage'.held book = stage.held book) : Moved V s stage s' stage' where
  nonneg hs book := by
    rw [h.available]
    exact hs book
  balance book := by rw [h.available, h.stored, hheld]
  stored book := (h.stored book).ge
  stocked := h.stocked
  good := h.good

/-- What a checkout at some place does next: a finished one holds nothing, and
a step leads to a place that accounts for it. -/
def Advances (V : Shelf σ) (m : Local σ) (r : Checkout) (stage : Stage) :
    Prog σ (Option Order) → Prop
  | .done _ => ∀ book, stage.held book = 0
  | .act f next => ∀ s, V.good s → (∀ book, 0 ≤ V.available s book) →
      (∀ book, V.available s book + stage.held book ≤ V.room) → stage.Sound V s r →
      ∃ stage', next (f s).1 = stage'.program m r ∧ stage'.Sound V (f s).2 r ∧
        Moved V s stage (f s).2 stage'

section Step

variable {V : Shelf σ} {m : Local σ} {r : Checkout}

theorem program_createOrder (h : ¬ (r.userId ≤ 0 ∨ r.requests = [])) :
    createOrder m r = (Stage.pricing [] 0 r.requests).program m r := by
  simp only [createOrder, OrderService.createOrder, h, if_false]
  rfl

theorem advances_returning (hserves : V.Serves m) (left : List InventoryMutation) :
    Advances V m r (.returning left) ((Stage.returning left).program m r) := by
  cases left with
  | nil => exact fun _ => rfl
  | cons item rest =>
    obtain ⟨f, hcall, hf⟩ := hserves.release item.bookId item.quantity
    have hprogram : (Stage.returning (item :: rest)).program m r =
        .act f fun _ => (Stage.returning rest).program m r := by
      have hrelease : (inventoryService m.inventory).releaseStock item.bookId item.quantity =
          .call f := hcall
      simp only [Stage.program, releaseEach, hrelease, Prog.call_bind, Prog.act_bind]
    rw [hprogram]
    intro s hgood hnonneg hroom hsound
    obtain ⟨hq, hstock⟩ := hsound item (by simp)
    have hrest : 0 ≤ requested item.bookId rest :=
      requested_nonneg item.bookId rest fun i hi => (hsound i (by simp [hi])).1
    have hfits := hroom item.bookId
    simp only [Stage.held, requested_cons, if_true] at hfits
    obtain ⟨hstocked, hgood', hstored, havailable⟩ :=
      hf s hgood hq hstock (hnonneg item.bookId) (by omega)
    refine ⟨.returning rest, rfl, ?_, ?_, ?_, ?_, hstocked, hgood'⟩
    · exact fun i hi => ⟨(hsound i (by simp [hi])).1, hstocked _ (hsound i (by simp [hi])).2⟩
    · intro _ book
      have hbook := hnonneg book
      rw [havailable]
      split <;> omega
    · intro book
      rw [havailable, hstored]
      simp only [Stage.held, requested_cons]
      omega
    · exact fun book => (hstored book).ge

theorem advances_storing (hserves : V.Serves m) (reservation : String) (items : List OrderItem)
    (total : Int32) : Advances V m r (.storing reservation items total)
      ((Stage.storing reservation items total).program m r) := by
  obtain ⟨f, hcall, hf⟩ := hserves.create r.userId items total
  have hprogram : (Stage.storing reservation items total).program m r =
      .act f (afterStore m r reservation) := by
    simp only [Stage.program, afterReserve, if_true, hcall, Prog.call_bind]
  rw [hprogram]
  intro s hgood hnonneg hroom hsound
  rcases hf s hgood with ⟨s', hfs, haside⟩ | ⟨order, s', hfs, hstocked, hgood', hstored, havailable⟩
  · refine ⟨.returning (r.requests.map OrderItemRequest.toMutation), ?_, ?_, ?_⟩
    · rw [hfs]
      rfl
    · rw [hfs]
      exact fun item hitem => ⟨(hsound.2 item hitem).1, haside.stocked _ (hsound.2 item hitem).2⟩
    · rw [hfs]
      exact .of_aside haside fun book => (hsound.1.same book).symm
  · refine ⟨.finished (some order), ?_, trivial, ?_⟩
    · rw [hfs]
      rfl
    · rw [hfs]
      refine ⟨?_, ?_, ?_, hstocked, hgood'⟩
      · intro hs book
        rw [havailable]
        exact hs book
      · intro book
        rw [havailable, hstored]
        simp only [Stage.held]
        omega
      · intro book
        have hitems := quantityOf_nonneg book items hsound.1.positive
        rw [hstored]
        omega

theorem advances_reserving (hserves : V.Serves m) (reservation : String) (items : List OrderItem)
    (total : Int32) (reserved left : List InventoryMutation) :
    Advances V m r (.reserving reservation items total reserved left)
      ((Stage.reserving reservation items total reserved left).program m r) := by
  cases left with
  | nil =>
    obtain ⟨f, hcall, _⟩ := hserves.create r.userId items total
    have hprogram : (Stage.reserving reservation items total reserved []).program m r =
        .act f (afterStore m r reservation) := by
      change afterReserve m r reservation items total true = _
      simp only [afterReserve, if_true, hcall, Prog.call_bind]
    rw [hprogram]
    exact fun _ _ _ _ hsound => absurd rfl hsound.2.1
  | cons item rest =>
    obtain ⟨f, hcall, hf⟩ := hserves.reserve item.bookId item.quantity
    have hprogram : (Stage.reserving reservation items total reserved (item :: rest)).program m r =
        .act f fun ok =>
          if ok then (Stage.reserving reservation items total (reserved ++ [item]) rest).program m r
          else (Stage.returning reserved).program m r := by
      have hreserve : (inventoryService m.inventory).reserveStock item.bookId item.quantity =
          .call f := hcall
      simp only [Stage.program, reserveEach, hreserve, Prog.call_bind, Prog.act_bind]
      congr 1
      funext ok
      cases ok with
      | true => rfl
      | false =>
        simp only [Bool.false_eq_true, if_false, Prog.bind_assoc]
        rfl
    rw [hprogram]
    intro s hgood hnonneg hroom hsound
    obtain ⟨hrequests, _, hpriced, hreserved⟩ := hsound
    rcases hf s hgood with ⟨s', hfs, haside⟩ |
      ⟨s', hfs, hq, hcovered, hstock, hstocked, hgood', hstored, havailable⟩
    · refine ⟨.returning reserved, ?_, ?_, ?_⟩
      · rw [hfs]
        rfl
      · rw [hfs]
        exact fun i hi => ⟨(hreserved i hi).1, haside.stocked _ (hreserved i hi).2⟩
      · rw [hfs]
        exact .of_aside haside fun book => rfl
    · have hmoved : ∀ stage', (∀ b, stage'.held b = requested b (reserved ++ [item])) →
          Moved V s (.reserving reservation items total reserved (item :: rest)) s' stage' := by
        intro stage' hheld
        refine ⟨?_, ?_, ?_, hstocked, hgood'⟩
        · intro _ book
          have hbook := hnonneg book
          rw [havailable]
          split
          · rename_i hsame
            rw [← hsame]
            omega
          · omega
        · intro book
          rw [havailable, hstored, hheld]
          simp only [Stage.held, requested_append, requested_cons, requested_nil]
          omega
        · exact fun book => (hstored book).ge
      have htaken : ∀ i ∈ reserved ++ [item], 0 < i.quantity.toInt ∧ V.stocked s' i.bookId := by
        intro i hi
        rcases List.mem_append.mp hi with hold | hnew
        · exact ⟨(hreserved i hold).1, hstocked _ (hreserved i hold).2⟩
        · rw [List.mem_singleton.mp hnew]
          exact ⟨hq, hstock⟩
      rw [hfs]
      cases rest with
      | nil =>
        refine ⟨.storing reservation items total, rfl, ⟨hpriced, ?_⟩, hmoved _ fun book => ?_⟩
        · rw [hrequests]
          exact htaken
        · rw [← hrequests]
          exact hpriced.same book
      | cons next others =>
        exact ⟨.reserving reservation items total (reserved ++ [item]) (next :: others), rfl,
          ⟨by simpa using hrequests, by simp, hpriced, htaken⟩, hmoved _ fun _ => rfl⟩

theorem advances_pricing (hserves : V.Serves m) (items : List OrderItem) (total : Int32)
    (left : List OrderItemRequest) :
    Advances V m r (.pricing items total left) ((Stage.pricing items total left).program m r) := by
  cases left with
  | nil =>
    have hprogram : (Stage.pricing items total []).program m r =
        .act (fun s => (OrderService.reservationId r.userId (m.nextId.get s),
            m.nextId.set (m.nextId.get s + 1) s))
          fun reservation => (Stage.reserving reservation items total []
            (r.requests.map OrderItemRequest.toMutation)).program m r := by
      change (m.orderService.placeOrder r.userId r.requests items total : Prog σ _) = _
      simp only [OrderService.placeOrder, OrderService.nextReservationId, Prog.call_bind]
      rfl
    rw [hprogram]
    intro s hgood _ _ hsound
    obtain ⟨hne, priced, hrequests, hpriced⟩ := hsound
    rw [List.append_nil] at hrequests
    subst hrequests
    exact ⟨_, rfl, ⟨rfl, by simpa using hne, hpriced, by simp⟩,
      .of_aside (hserves.draw s _ hgood) fun _ => rfl⟩
  | cons request rest =>
    by_cases hq : request.quantity ≤ 0
    · have hprogram : (Stage.pricing items total (request :: rest)).program m r = .done none := by
        simp only [Stage.program, OrderService.priceItems, hq, if_true]
        rfl
      rw [hprogram]
      exact fun _ => rfl
    · have hprogram : (Stage.pricing items total (request :: rest)).program m r =
          .act (fun s => (m.catalogue s request.bookId, s)) fun book =>
            book.elim ((Stage.finished none).program m r) fun book => (Stage.pricing
              (items ++ [⟨request.bookId, request.quantity, book.priceCents⟩])
              (total + book.priceCents * request.quantity) rest).program m r := by
        simp only [Stage.program, OrderService.priceItems, hq, if_false]
        change Prog.act _ _ = _
        congr 1
        funext book
        cases book <;> rfl
      rw [hprogram]
      intro s hgood _ _ hsound
      obtain ⟨hne, priced, hrequests, hpriced⟩ := hsound
      dsimp only
      cases m.catalogue s request.bookId with
      | none => exact ⟨.finished none, rfl, trivial, .of_aside (.refl V hgood) fun _ => rfl⟩
      | some book =>
        rw [Option.elim_some]
        refine ⟨_, rfl, ⟨hne, priced ++ [request], by simpa using hrequests, ?_⟩,
          .of_aside (.refl V hgood) fun _ => rfl⟩
        exact hpriced.append (.cons book.priceCents (MachineInt.toInt_pos_of_not_le hq) .nil)

/-- Every place leads on to a place that accounts for the step. -/
theorem advances (hserves : V.Serves m) (stage : Stage) :
    Advances V m r stage (stage.program m r) := by
  cases stage with
  | pricing items total left => exact advances_pricing hserves items total left
  | reserving reservation items total reserved left =>
    exact advances_reserving hserves reservation items total reserved left
  | storing reservation items total => exact advances_storing hserves reservation items total
  | returning left => exact advances_returning hserves left
  | finished result => exact fun _ => rfl

end Step

/-! ## Runs -/

abbrev Shop (σ : Type) := Config Checkout σ (Option Order)

/-- Each request of a configuration is at its place in create_order. -/
def Placed (m : Local σ) (c : Shop σ) (stages : List Stage) : Prop :=
  stages.length = c.threads.length ∧ ∀ (i : ℕ) t stage, c.threads[i]? = some t →
    stages[i]? = some stage → t.prog = stage.program m t.request

/-- The invariant of concurrent checkouts. -/
structure Accounted (V : Shelf σ) (m : Local σ) (start : σ) (c : Shop σ) (stages : List Stage) :
    Prop where
  placed : Placed m c stages
  sound : ∀ (i : ℕ) t stage, c.threads[i]? = some t → stages[i]? = some stage →
    stage.Sound V c.state t.request
  good : V.good c.state
  nonneg : ∀ book, 0 ≤ V.available c.state book
  balance : ∀ book, V.available c.state book + heldBy book stages + V.stored c.state book =
    V.available start book + V.stored start book
  stored : ∀ book, V.stored start book ≤ V.stored c.state book

section Runs

variable {V : Shelf σ} {m : Local σ} {start : σ} {c : Shop σ} {stages : List Stage}

theorem Accounted.exists_stage (h : Accounted V m start c stages) {i : ℕ}
    {t : Thread Checkout σ (Option Order)} (ht : c.threads[i]? = some t) :
    ∃ stage, stages[i]? = some stage := by
  have hlt : i < stages.length := by
    rw [h.placed.1]
    exact (List.getElem?_eq_some_iff.mp ht).1
  exact ⟨stages[i], List.getElem?_eq_getElem hlt⟩

theorem Accounted.held_nonneg (h : Accounted V m start c stages) (book : Int32) :
    ∀ stage ∈ stages, 0 ≤ stage.held book := by
  intro stage hmem
  obtain ⟨i, hlt, hi⟩ := List.getElem_of_mem hmem
  have hthread : i < c.threads.length := h.placed.1 ▸ hlt
  exact (h.sound i _ stage (List.getElem?_eq_getElem hthread)
    (by rw [List.getElem?_eq_getElem hlt, hi])).held_nonneg book

/-- What is available and what one checkout holds fit where they started. -/
theorem Accounted.fits (h : Accounted V m start c stages)
    (hroom : ∀ book, V.available start book ≤ V.room) {stage : Stage} (hmem : stage ∈ stages)
    (book : Int32) : V.available c.state book + stage.held book ≤ V.room := by
  have hheld : stage.held book ≤ heldBy book stages := by
    apply List.single_le_sum
    · intro x hx
      obtain ⟨other, hother, rfl⟩ := List.mem_map.mp hx
      exact h.held_nonneg book other hother
    · exact List.mem_map_of_mem hmem
  have hbalance := h.balance book
  have hstored := h.stored book
  have hbook := hroom book
  omega

theorem Accounted.spawn (h : Accounted V m start c stages) (r : Checkout) :
    ∃ stages', Accounted V m start ⟨c.state, c.threads ++ [⟨r, createOrder m r, 0⟩]⟩ stages' := by
  have hfirst : ∃ stage : Stage, createOrder m r = stage.program m r ∧
      stage.Sound V c.state r ∧ ∀ book, stage.held book = 0 := by
    by_cases hargs : r.userId ≤ 0 ∨ r.requests = []
    · refine ⟨.finished none, ?_, trivial, fun _ => rfl⟩
      simp only [createOrder, OrderService.createOrder, hargs, if_true]
      rfl
    · exact ⟨.pricing [] 0 r.requests, program_createOrder hargs,
        ⟨(not_or.mp hargs).2, [], rfl, .nil⟩, fun _ => rfl⟩
  obtain ⟨stage, hprogram, hsound, hheld⟩ := hfirst
  have hplaces : ∀ (P : Thread Checkout σ (Option Order) → Stage → Prop),
      (∀ (i : ℕ) t s, c.threads[i]? = some t → stages[i]? = some s → P t s) →
      P ⟨r, createOrder m r, 0⟩ stage → ∀ (i : ℕ) t s,
      (c.threads ++ [⟨r, createOrder m r, 0⟩])[i]? = some t → (stages ++ [stage])[i]? = some s →
      P t s := by
    intro P hold hnew i t s ht hs
    rcases Nat.lt_or_ge i c.threads.length with hlt | hge
    · rw [List.getElem?_append_left hlt] at ht
      rw [List.getElem?_append_left (h.placed.1 ▸ hlt)] at hs
      exact hold i t s ht hs
    · rw [List.getElem?_append_right hge] at ht
      rw [List.getElem?_append_right (h.placed.1 ▸ hge), h.placed.1] at hs
      generalize i - c.threads.length = j at ht hs
      cases j with
      | zero =>
        cases ht
        cases hs
        exact hnew
      | succ j => cases ht
  refine ⟨stages ++ [stage], ⟨?_, ?_⟩, ?_, h.good, h.nonneg, ?_, h.stored⟩
  · simp [h.placed.1]
  · exact hplaces (fun t s => t.prog = s.program m t.request) h.placed.2 hprogram
  · exact hplaces (fun t s => s.Sound V c.state t.request) h.sound hsound
  · intro book
    have hbalance := h.balance book
    have hnew : heldBy book (stages ++ [stage]) = heldBy book stages := by
      simp [heldBy, hheld]
    rw [hnew]
    exact hbalance

theorem Accounted.step (hserves : V.Serves m) (h : Accounted V m start c stages)
    (hroom : ∀ book, V.available start book ≤ V.room) {i : ℕ}
    {t : Thread Checkout σ (Option Order)} {β : Type} {f : σ → β × σ}
    {next : β → Prog σ (Option Order)} (ht : c.threads[i]? = some t) (hprog : t.prog = .act f next) :
    ∃ stages', Accounted V m start
      ⟨(f c.state).2, c.threads.set i ⟨t.request, next (f c.state).1, t.steps + 1⟩⟩ stages' := by
  obtain ⟨stage, hstage⟩ := h.exists_stage ht
  have hadvances := advances (r := t.request) hserves stage
  rw [← h.placed.2 i t stage ht hstage, hprog] at hadvances
  obtain ⟨stage', hprogram, hsound, hmoved⟩ := hadvances c.state h.good h.nonneg
    (h.fits hroom (List.mem_of_getElem? hstage)) (h.sound i t stage ht hstage)
  have hlt : i < c.threads.length := (List.getElem?_eq_some_iff.mp ht).1
  refine ⟨stages.set i stage', ⟨by simp [h.placed.1], ?_⟩, ?_, hmoved.good,
    hmoved.nonneg h.nonneg, ?_, ?_⟩
  · intro j u s hu hs
    by_cases hj : i = j
    · subst hj
      rw [List.getElem?_set_self hlt] at hu
      rw [List.getElem?_set_self (h.placed.1 ▸ hlt)] at hs
      cases hu
      cases hs
      exact hprogram
    · rw [List.getElem?_set_ne hj] at hu hs
      exact h.placed.2 j u s hu hs
  · intro j u s hu hs
    by_cases hj : i = j
    · subst hj
      rw [List.getElem?_set_self hlt] at hu
      rw [List.getElem?_set_self (h.placed.1 ▸ hlt)] at hs
      cases hu
      cases hs
      exact hsound
    · rw [List.getElem?_set_ne hj] at hu hs
      exact (h.sound j u s hu hs).mono hmoved.stocked
  · intro book
    have hbalance := h.balance book
    have hstep := hmoved.balance book
    have hsum : heldBy book (stages.set i stage') =
        heldBy book stages - stage.held book + stage'.held book :=
      sum_map_set (Stage.held book) stages hstage
    simp only at hstep ⊢
    omega
  · intro book
    exact (h.stored book).trans (hmoved.stored book)

/-- Through every run of checkouts, what is available, held and stored adds up
to what there was. -/
theorem accounted_of_runs (hserves : V.Serves m) (hgood : V.good start)
    (hnonneg : ∀ book, 0 ≤ V.available start book)
    (hroom : ∀ book, V.available start book ≤ V.room)
    (hrun : Runs (createOrder m) (fun _ _ => True) ⟨start, []⟩ c) :
    ∃ stages, Accounted V m start c stages := by
  refine @Runs.invariant _ _ _ _ _ (fun c => ∃ stages, Accounted V m start c stages) ?_ _ _ hrun ?_
  · rintro c move c' ⟨stages, h⟩ _ hfire
    rcases fire_cases hfire with ⟨r, _, rfl⟩ | ⟨i, t, β, f, next, _, ht, hprog, rfl⟩
    · exact h.spawn r
    · exact h.step hserves hroom ht hprog
  · exact ⟨[], ⟨rfl, by simp⟩, by simp, hgood, hnonneg, by simp [heldBy], fun _ => le_refl _⟩

/-- Nothing is held once every checkout has finished. -/
theorem heldBy_of_finished (hserves : V.Serves m) (hplaced : Placed m c stages)
    (hfinished : ∀ t ∈ c.threads, t.Finished) (book : Int32) : heldBy book stages = 0 := by
  unfold heldBy
  apply List.sum_eq_zero
  intro x hx
  obtain ⟨stage, hmem, rfl⟩ := List.mem_map.mp hx
  obtain ⟨i, hlt, hi⟩ := List.getElem_of_mem hmem
  have hthread : i < c.threads.length := hplaced.1 ▸ hlt
  obtain ⟨result, hdone⟩ := hfinished _ (List.getElem_mem hthread)
  have hprogram := hplaced.2 i _ stage (List.getElem?_eq_getElem hthread)
    (by rw [List.getElem?_eq_getElem hlt, hi])
  have hadvances := advances (r := c.threads[i].request) hserves stage
  rw [← hprogram, hdone] at hadvances
  exact hadvances book

end Runs

end Bookstore.Checkouts
