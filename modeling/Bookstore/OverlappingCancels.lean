import Bookstore.CancelOnce
import Bookstore.Services

/-!
OrderService under concurrency: any number of create_order and cancel_order
requests take their steps in any order. Calls of the inventory client are
atomic, the client is otherwise arbitrary; the steps of the order repository
are its own. A ledger records what is given back on behalf of each order.
-/
namespace Bookstore.OverlappingCancels

open CancelOnce Interleaving Protocols Records Repositories Services

/-- One single-item release on behalf of an order. -/
structure Release where
  order : Int32
  book : Int32
  quantity : Int32
deriving DecidableEq

structure Shop (τ ι : Type) where
  orders : τ
  inventory : ι
  nextId : ℕ
  ledger : List Release

variable {τ ι : Type}

namespace Shop

def ordersLens : Lens (Shop τ ι) τ where
  get s := s.orders
  set t s := { s with orders := t }
  get_set _ _ := rfl
  set_get _ := rfl
  set_set _ _ _ := rfl

def inventoryLens : Lens (Shop τ ι) ι where
  get s := s.inventory
  set i s := { s with inventory := i }
  get_set _ _ := rfl
  set_get _ := rfl
  set_set _ _ _ := rfl

def nextIdLens : Lens (Shop τ ι) ℕ where
  get s := s.nextId
  set n s := { s with nextId := n }
  get_set _ _ := rfl
  set_get _ := rfl
  set_set _ _ _ := rfl

/-- How many copies of a book have been released on behalf of an order. -/
def released (s : Shop τ ι) (o book : Int32) : ℤ :=
  Tally.tally (fun r => (r.order, r.book)) (fun r => r.quantity.toInt) (o, book) s.ledger

end Shop

/-- The inventory client on the whole state, each call one step. -/
def atomicClient (client : InventoryClient ι) : InventoryClient (Shop τ ι) where
  availableStock book := ((client.availableStock book).lift Shop.inventoryLens).atomically
  addStock book quantity := ((client.addStock book quantity).lift Shop.inventoryLens).atomically
  reserveStock book quantity :=
    ((client.reserveStock book quantity).lift Shop.inventoryLens).atomically
  releaseStock book quantity :=
    ((client.releaseStock book quantity).lift Shop.inventoryLens).atomically
  reserveBatch id items := ((client.reserveBatch id items).lift Shop.inventoryLens).atomically
  releaseBatch id items := ((client.releaseBatch id items).lift Shop.inventoryLens).atomically

/-- The same client, with the releases for an order entered in the ledger. -/
def recordingClient (client : InventoryClient ι) (o : Int32) : InventoryClient (Shop τ ι) :=
  { atomicClient client with
    releaseStock := fun book quantity => .call fun s =>
      ((), { s with
        inventory := ((client.releaseStock book quantity).run s.inventory).2
        ledger := s.ledger ++ [⟨o, book, quantity⟩] }) }

inductive Request
  | create (userId : Int32) (requests : List OrderItemRequest)
  | cancel (orderId : Int32)

section Program

variable (repository : OrderRepository τ) (catalogue : τ → ι → Int32 → Option Book)

def orderService (client : InventoryClient (Shop τ ι)) : OrderService (Shop τ ι) where
  bookClient := ⟨fun bookId => .read fun s => catalogue s.orders s.inventory bookId⟩
  inventoryClient := client
  orderRepository := repository.lift Shop.ordersLens
  nextId := Shop.nextIdLens

def program (client : InventoryClient ι) : Request → Prog (Shop τ ι) (Option Order)
  | .create userId requests =>
    (orderService repository catalogue (atomicClient client)).createOrder userId requests
  | .cancel orderId =>
    (orderService repository catalogue (recordingClient client orderId)).cancelOrder orderId

end Program

/-- An unfinished cancel request that is past its first step, but not past its
step `window`. -/
def InWindow (window : ℕ) (o : Int32) (t : Thread Request (Shop τ ι) (Option Order)) : Prop :=
  t.request = .cancel o ∧ 1 ≤ t.steps ∧ t.steps ≤ window ∧ ¬ t.Finished

/-- No cancel request takes its first step, which reads the order, on an order
that is not cancelled while another cancel request for it is in the window. -/
def NoOverlap (find : τ → Int32 → Option Order) (window : ℕ)
    (c : Config Request (Shop τ ι) (Option Order)) (m : Move Request) : Prop :=
  ∀ i t o order, m = .step i → c.threads[i]? = some t → t.request = .cancel o → t.steps = 0 →
    find c.state.orders o = some order → order.status ≠ "cancelled" →
    ∀ t' ∈ c.threads, ¬ InWindow window o t'

/-- What the steps of an order repository do to one order. -/
structure Disciplined (V : OrderView τ) (window : ℕ) (repository : OrderRepository τ) : Prop where
  create : ∀ o n userId items total, (∀ item ∈ items, 0 < item.quantity.toInt) →
    Follows (storeProtocol V window o) (fun phase _ _ => phase = .bystander) .bystander n
      (repository.createOrder userId items total)
  findOther : ∀ o n o', o' ≠ o →
    Follows (storeProtocol V window o) (fun phase _ _ => phase = .bystander) .bystander n
      (repository.findOrder o')
  cancelOther : ∀ o n o', o' ≠ o →
    Follows (storeProtocol V window o) (fun phase _ _ => phase = .bystander) .bystander n
      (repository.cancelOrder o')
  find : ∀ o, ¬ o ≤ 0 → Follows (storeProtocol V window o)
    (fun phase _ r => phase = .bystander ∧ (∀ order, r = some order → order.status = "cancelled") ∨
      phase = .armed ∧ ∃ order, r = some order ∧ order.status ≠ "cancelled")
    .fresh 0 (repository.findOrder o)
  cancel : ∀ o n, ¬ o ≤ 0 → Follows (storeProtocol V window o)
    (fun phase _ r => phase = .bystander ∧ r = none ∨
      ∃ order, r = some order ∧ phase = .giving order.items)
    .armed n (repository.cancelOrder o)

section OneOrder

variable {V : OrderView τ} {window : ℕ} {repository : OrderRepository τ}
  {catalogue : τ → ι → Int32 → Option Book} {client : InventoryClient ι} (o : Int32)

variable (V window) in
/-- The protocol of one order on the whole state. -/
abbrev shopProtocol : Protocol (Shop τ ι) Phase :=
  protocol V window o Shop.orders fun s => s.released o

/-- Moves of the repository are moves on the whole state. -/
theorem follows_repository {α : Type} {Q : Phase → ℕ → α → Prop} {phase : Phase} {n : ℕ}
    {p : Prog τ α} (h : Follows (storeProtocol V window o) Q phase n p) :
    Follows (shopProtocol V window o) Q phase n (p.lift (Shop.ordersLens : Lens (Shop τ ι) τ)) :=
  h.lift Shop.ordersLens (fun _ _ hpre => hpre) fun _ _ _ _ _ _ hmove =>
    .store hmove fun _ => rfl

/-- A step that leaves the orders and what was released for this one alone. -/
theorem follows_aside {α : Type} {n : ℕ} {f : Shop τ ι → α × Shop τ ι}
    (horders : ∀ s, (f s).2.orders = s.orders)
    (hreleased : ∀ s book, (f s).2.released o book = s.released o book) :
    Follows (shopProtocol V window o) (fun phase _ _ => phase = .bystander) .bystander n
      (Prog.call f) := by
  apply Follows.call
  intro s _
  refine ⟨.bystander, .store ?_ (hreleased s), rfl⟩
  rw [horders s]
  exact .pass (.refl V o _)

theorem follows_inventory {α : Type} {n : ℕ} (p : Prog ι α) :
    Follows (shopProtocol V window o) (fun phase _ _ => phase = .bystander) .bystander n
      ((p.lift (Shop.inventoryLens : Lens (Shop τ ι) ι)).atomically) := by
  apply follows_aside o
  · intro s
    simp only [Prog.run_lift, Shop.inventoryLens]
  · intro s book
    simp only [Prog.run_lift, Shop.inventoryLens]
    rfl

variable (catalogue) in
theorem follows_priceItems {n : ℕ} (service : OrderService (Shop τ ι))
    (hbook : service.bookClient =
      ⟨fun bookId => .read fun s => catalogue s.orders s.inventory bookId⟩)
    (requests : List OrderItemRequest) (items : List OrderItem) (total : Int32)
    (hitems : ∀ item ∈ items, 0 < item.quantity.toInt) :
    Follows (shopProtocol V window o) (fun phase _ r => phase = .bystander ∧
        ∀ items' total', r = some (items', total') → ∀ item ∈ items', 0 < item.quantity.toInt)
      .bystander n (service.priceItems items total requests) := by
  induction requests generalizing n items total with
  | nil =>
    apply Follows.pure
    refine ⟨rfl, ?_⟩
    intro items' total' h
    simp only [Option.some.injEq, Prod.mk.injEq] at h
    rw [← h.1]
    exact hitems
  | cons request rest ih =>
    unfold OrderService.priceItems
    split
    · exact Follows.pure ⟨rfl, by simp⟩
    · rename_i hq
      rw [hbook]
      refine Follows.bind (follows_aside o (fun _ => rfl) fun _ _ => rfl) ?_
      intro phase' n' book hphase
      subst hphase
      cases book with
      | none => exact Follows.pure ⟨rfl, by simp⟩
      | some book =>
        apply ih
        intro item hitem
        rcases List.mem_append.mp hitem with hold | hnew
        · exact hitems item hold
        · rw [List.mem_singleton.mp hnew]
          exact MachineInt.toInt_pos_of_not_le hq

variable (hrepository : Disciplined V window repository)
include hrepository

/-- A create_order request is a bystander of every order. -/
theorem follows_create (userId : Int32) (requests : List OrderItemRequest) :
    Follows (shopProtocol V window o) (fun phase _ _ => phase ≠ .armed) .bystander 0
      (program repository catalogue client (.create userId requests)) := by
  simp only [program, OrderService.createOrder]
  split
  · exact Follows.pure (by simp)
  · refine Follows.bind (follows_priceItems catalogue o _ rfl requests [] 0
      (by simp)) ?_
    rintro phase n r ⟨rfl, hpositive⟩
    cases r with
    | none => exact Follows.pure (by simp)
    | some result =>
      obtain ⟨items, total⟩ := result
      refine Follows.bind (follows_aside o (fun _ => rfl) fun _ _ => rfl) ?_
      rintro phase n reservation rfl
      refine Follows.bind (follows_inventory o _) ?_
      rintro phase n ok rfl
      split
      · refine Follows.bind (follows_repository o
          (hrepository.create o n userId items total (hpositive items total rfl))) ?_
        rintro phase n order rfl
        cases order with
        | some order => exact Follows.pure (by simp)
        | none =>
          refine Follows.bind (follows_inventory o _) ?_
          rintro phase n _ rfl
          exact Follows.pure (by simp)
      · exact Follows.pure (by simp)

omit hrepository in
theorem released_append (s : Shop τ ι) (i : ι) (r : Release) (book : Int32) :
    Shop.released { s with inventory := i, ledger := s.ledger ++ [r] } o book =
      s.released o book + if r.order = o ∧ r.book = book then r.quantity.toInt else 0 := by
  simp [Shop.released]

omit hrepository in
/-- The releases of cancel_order for another order. -/
theorem follows_releaseOther (o' : Int32) (ho : o' ≠ o) (items : List OrderItem) {n : ℕ} :
    Follows (shopProtocol V window o) (fun phase _ _ => phase = .bystander) .bystander n
      ((orderService repository catalogue (recordingClient client o')).releaseItems items) := by
  induction items generalizing n with
  | nil => exact Follows.pure rfl
  | cons item rest ih =>
    unfold OrderService.releaseItems
    refine Follows.bind (follows_aside o (fun _ => rfl) ?_) ?_
    · intro s book
      rw [released_append]
      simp [ho]
    · rintro phase n _ rfl
      exact ih

/-- A cancel_order request for another order is a bystander of this one. -/
theorem follows_cancelOther (o' : Int32) (ho : o' ≠ o) :
    Follows (shopProtocol V window o) (fun phase _ _ => phase ≠ .armed) .bystander 0
      (program repository catalogue client (.cancel o')) := by
  simp only [program, OrderService.cancelOrder]
  split
  · exact Follows.pure (by simp)
  · refine Follows.bind (follows_repository o (hrepository.findOther o 0 o' ho)) ?_
    rintro phase n r rfl
    cases r with
    | none => exact Follows.pure (by simp)
    | some existing =>
      simp only
      split
      · exact Follows.pure (by simp)
      · refine Follows.bind (follows_repository o (hrepository.cancelOther o n o' ho)) ?_
        rintro phase n r rfl
        cases r with
        | none => exact Follows.pure (by simp)
        | some cancelled =>
          refine Follows.bind (follows_releaseOther o o' ho cancelled.items) ?_
          rintro phase n _ rfl
          exact Follows.pure (by simp)

omit hrepository in
/-- The releases of cancel_order for this order, item by item. -/
theorem follows_releaseItems (items : List OrderItem) {n : ℕ} :
    Follows (shopProtocol V window o) (fun phase _ _ => phase = .giving []) (.giving items) n
      ((orderService repository catalogue (recordingClient client o)).releaseItems items) := by
  induction items generalizing n with
  | nil => exact Follows.pure rfl
  | cons item rest ih =>
    unfold OrderService.releaseItems
    have hfirst : Follows (shopProtocol V window o) (fun phase _ _ => phase = .giving rest)
        (.giving (item :: rest)) n
        ((recordingClient client o).releaseStock item.bookId item.quantity :
          Prog (Shop τ ι) Unit) := by
      apply Follows.call
      intro s _
      refine ⟨.giving rest, .give rfl ?_, rfl⟩
      intro book
      rw [released_append]
      simp
    refine Follows.bind hfirst ?_
    rintro phase n _ rfl
    exact ih

/-- A cancel_order request for this order. -/
theorem follows_cancel :
    Follows (shopProtocol V window o) (fun phase _ _ => phase ≠ .armed) .fresh 0
      (program repository catalogue client (.cancel o)) := by
  simp only [program, OrderService.cancelOrder]
  split
  · exact Follows.pure (by simp)
  · rename_i hid
    refine Follows.bind (follows_repository o (hrepository.find o hid)) ?_
    rintro phase n r (⟨rfl, hcancelled⟩ | ⟨rfl, existing, rfl, hstatus⟩)
    · cases r with
      | none => exact Follows.pure (by simp)
      | some existing =>
        simp only [hcancelled existing rfl, if_true]
        exact Follows.pure (by simp)
    · simp only [hstatus, if_false]
      refine Follows.bind (follows_repository o (hrepository.cancel o n hid)) ?_
      rintro phase n r (⟨rfl, rfl⟩ | ⟨cancelled, rfl, rfl⟩)
      · exact Follows.pure (by simp)
      · refine Follows.bind (follows_releaseItems o cancelled.items) ?_
        rintro phase n _ rfl
        exact Follows.pure (by simp)

end OneOrder

/-! ## Runs -/

/-- Armed requests are in the window, and fresh ones have not taken a step. -/
def Tag (window : ℕ) (o : Int32) (r : Request) (n : ℕ) (phase : Phase) : Prop :=
  (phase = .armed → r = .cancel o ∧ 1 ≤ n ∧ n ≤ window) ∧
  (phase = .fresh → r = .cancel o ∧ n = 0)

theorem Tag.move {V : OrderView τ} {window : ℕ} {o : Int32} {r : Request} {n : ℕ}
    {phase phase' : Phase} {s s' : Shop τ ι} (h : Tag window o r n phase)
    (hmove : (shopProtocol V window o).move phase n s phase' s') :
    Tag window o r (n + 1) phase' := by
  cases hmove with
  | give => exact ⟨by simp, by simp⟩
  | store hstore _ =>
    generalize s.orders = t at hstore
    generalize s'.orders = t' at hstore
    cases hstore with
    | look _ _ hwindow => exact ⟨fun _ => ⟨(h.2 rfl).1, le_refl _, hwindow⟩, by simp⟩
    | hold _ hwindow => exact ⟨fun _ => ⟨(h.1 rfl).1, by omega, hwindow⟩, by simp⟩
    | pass => exact ⟨by simp, by simp⟩
    | leave => exact ⟨by simp, by simp⟩
    | yields => exact ⟨by simp, by simp⟩
    | mark => exact ⟨by simp, by simp⟩
    | markAndTake => exact ⟨by simp, by simp⟩
    | wait => exact ⟨by simp, by simp⟩
    | lose => exact ⟨by simp, by simp⟩
    | take => exact ⟨by simp, by simp⟩

section Runs

variable {V : OrderView τ} {window : ℕ} {repository : OrderRepository τ}
  {catalogue : τ → ι → Int32 → Option Book} {client : InventoryClient ι}

/-- Some assignment of phases fits the threads, and satisfies the invariant. -/
def Orderly (V : OrderView τ) (window : ℕ) (o : Int32)
    (c : Config Request (Shop τ ι) (Option Order)) : Prop :=
  ∃ phases, Phased (shopProtocol V window o) (fun phase _ _ => phase ≠ .armed) (Tag window o)
      .bystander c phases ∧
    AtMostOnce V o Shop.orders (fun s => s.released o) phases c.state

theorem Orderly.spawn (hrepository : Disciplined V window repository) {o : Int32}
    {c : Config Request (Shop τ ι) (Option Order)} (h : Orderly V window o c) (r : Request) :
    Orderly V window o
      ⟨c.state, c.threads ++ [⟨r, program repository catalogue client r, 0⟩]⟩ := by
  obtain ⟨phases, hphased, hinvariant⟩ := h
  have hbystander : Follows (shopProtocol V window o) (fun phase _ _ => phase ≠ .armed) .bystander 0
      (program repository catalogue client r) →
      Orderly V window o
        ⟨c.state, c.threads ++ [⟨r, program repository catalogue client r, 0⟩]⟩ := by
    intro hfollows
    exact ⟨_, hphased.spawn r .bystander hfollows ⟨by simp, by simp⟩,
      hinvariant.spawn hphased.idle (.inl rfl)⟩
  cases r with
  | create userId requests => exact hbystander (follows_create o hrepository userId requests)
  | cancel o' =>
    by_cases ho : o' = o
    · subst ho
      exact ⟨_, hphased.spawn _ .fresh (follows_cancel o' hrepository)
        ⟨by simp, fun _ => ⟨rfl, rfl⟩⟩, hinvariant.spawn hphased.idle (.inr rfl)⟩
    · exact hbystander (follows_cancelOther o hrepository o' ho)

/-- An armed request is an unfinished one in the window. -/
theorem inWindow_of_armed {o : Int32} {c : Config Request (Shop τ ι) (Option Order)}
    {phases : ℕ → Phase}
    (h : Phased (shopProtocol V window o) (fun phase _ _ => phase ≠ .armed) (Tag window o)
      .bystander c phases) {j : ℕ} (hj : phases j = .armed) :
    ∃ t ∈ c.threads, InWindow window o t := by
  have hlt : j < c.threads.length := by
    by_contra hge
    rw [h.idle j (by omega)] at hj
    cases hj
  obtain ⟨hfollows, htag⟩ := h.follows j c.threads[j] (List.getElem?_eq_getElem hlt)
  obtain ⟨hrequest, hlow, hhigh⟩ := htag.1 hj
  refine ⟨c.threads[j], List.getElem_mem hlt, hrequest, hlow, hhigh, ?_⟩
  rintro ⟨a, hdone⟩
  rw [hdone] at hfollows
  exact hfollows hj

theorem Orderly.step {o : Int32} {c c' : Config Request (Shop τ ι) (Option Order)}
    (hrepository : Disciplined V window repository) (h : Orderly V window o c) {m : Move Request}
    (hoverlap : NoOverlap V.find window c m)
    (hfire : fire (program repository catalogue client) c m = some c') : Orderly V window o c' := by
  rcases fire_cases hfire with ⟨r, _, rfl⟩ | ⟨i, t, β, f, next, rfl, ht, hprog, rfl⟩
  · exact h.spawn hrepository r
  · obtain ⟨phases, hphased, hinvariant⟩ := h
    obtain ⟨phase', hmove, hnext⟩ := hphased.step ht hprog (hinvariant.pre i)
      fun phase' htag hmove => htag.move hmove
    refine ⟨_, hnext, hinvariant.move hmove ?_⟩
    intro hfresh harmed j hj hjarmed
    obtain ⟨hrequest, hsteps⟩ := (hphased.follows i t ht).2.2 hfresh
    have hopen : V.Open c.state.orders o := by
      rw [hfresh, harmed] at hmove
      cases hmove with
      | store hstore _ =>
        generalize (f c.state).2.orders = t' at hstore
        generalize t.steps = n at hstore
        cases hstore with
        | look _ hopen _ => exact hopen
    obtain ⟨order, hfind, hstatus⟩ := hopen
    obtain ⟨t', hmem, hwindow⟩ := inWindow_of_armed hphased hjarmed
    exact hoverlap i t o order rfl ht hrequest hsteps hfind hstatus t' hmem hwindow

/-- Along every run without overlap, what is released for an order stays
within what it reserved. -/
theorem released_le_reserved (hrepository : Disciplined V window repository) {start : Shop τ ι}
    (hgood : V.good start.orders) (hledger : start.ledger = [])
    {c : Config Request (Shop τ ι) (Option Order)}
    (hrun : Runs (program repository catalogue client) (NoOverlap V.find window) ⟨start, []⟩ c)
    (o book : Int32) : c.state.released o book ≤ V.reserved c.state.orders o book := by
  have hstart : Orderly V window o (⟨start, []⟩ : Config Request (Shop τ ι) (Option Order)) := by
    refine ⟨fun _ => .bystander, ⟨by simp, fun _ _ => rfl⟩, hgood, .inl ⟨?_, ?_, ?_, ?_⟩⟩
    · intro book
      simp [Shop.released, hledger]
    · exact fun _ => .inl rfl
    · intro i j hi _
      cases hi
    · intro i hi
      cases hi
  have hend : Orderly V window o c :=
    hrun.invariant (fun _ _ _ h hoverlap hfire => h.step hrepository hoverlap hfire) hstart
  obtain ⟨phases, _, hinvariant⟩ := hend
  exact hinvariant.bound book

end Runs

end Bookstore.OverlappingCancels
