import Bookstore.OrderSessions

/-!
The gateway with the gRPC order client, in front of an order server. Requests and
replies go through messages, and a bad item is refused before the books are looked at.
RPCs are lossless: a call reaches the server once and its reply comes back. No browser
can tell the difference, whatever the others are doing at the same time.
-/
namespace Bookstore.OrderDeployments

open HttpTypes Interleaving Threads Sessions Records Repositories Services JsonGrammar
open ApiRoutes InventoryRpc MachineInt OrderController OrderRpc OrderSessions Routing
open LocalCheckouts LocalConservation

variable {σ ι : Type} [DecidableEq ι]

/-- A reply whose orders have been through messages. -/
def overWire : OrderReply → OrderReply
  | .created order => .created (orderFromProto (fillOrder order))
  | .refused => .refused
  | .found order => .found (orderFromProto (fillOrder order))
  | .notFound => .notFound
  | .listed orders => .listed ((orders.map fillOrder).map orderFromProto)

theorem overWire_listed {reply : OrderReply} (h : ∀ order ∈ reply.shown, Listed order) :
    overWire reply = reply := by
  cases reply with
  | created order => exact congrArg _ (orderFromProto_fill (h order (List.mem_singleton_self order)))
  | refused => rfl
  | found order => exact congrArg _ (orderFromProto_fill (h order (List.mem_singleton_self order)))
  | notFound => rfl
  | listed orders =>
    refine congrArg OrderReply.listed ?_
    rw [List.map_map]
    refine (List.map_congr_left fun order horder => ?_).trans (List.map_id orders)
    exact orderFromProto_fill (h order horder)

/-! ## Programs -/

section Programs

variable {service : OrderService σ}

/-- An item that the order server refuses at once. -/
def Bad (requests : List OrderItemRequest) : Prop :=
  ∃ item ∈ requests, item.bookId ≤ 0 ∨ item.quantity ≤ 0

/-- The service looks at some books, and comes to the same. -/
theorem settles_priceItems {catalogue : σ → Int32 → Option Book}
    (hfind : ∀ id, service.bookClient.findBook id = .read fun s => catalogue s id) {s : σ}
    (hpositive : ∀ id book, catalogue s id = some book → ¬ id ≤ 0)
    {requests : List OrderItemRequest} (hbad : Bad requests) (items : List OrderItem)
    (total : Int32) : Settles s (service.priceItems items total requests) (.done none) := by
  induction requests generalizing items total with
  | nil =>
    obtain ⟨item, hitem, -⟩ := hbad
    exact absurd hitem List.not_mem_nil
  | cons request requests ih =>
    rw [OrderService.priceItems]
    by_cases hq : request.quantity ≤ 0
    · rw [if_pos hq]
      exact .refl _
    · rw [if_neg hq, hfind]
      refine .step rfl ?_
      cases hbook : catalogue s request.bookId with
      | none =>
        simp only [hbook]
        exact .refl _
      | some book =>
        have hrest : Bad requests := by
          obtain ⟨item, hitem, hguard⟩ := hbad
          rcases List.mem_cons.mp hitem with rfl | hlater
          · rcases hguard with hid | hguard
            · exact absurd hid (hpositive _ _ hbook)
            · exact absurd hguard hq
          · exact ⟨item, hlater, hguard⟩
        simp only [hbook]
        exact ih hrest _ _

theorem settles_createOrder {catalogue : σ → Int32 → Option Book}
    (hfind : ∀ id, service.bookClient.findBook id = .read fun s => catalogue s id) {s : σ}
    (hpositive : ∀ id book, catalogue s id = some book → ¬ id ≤ 0)
    {requests : List OrderItemRequest} (hbad : Bad requests) (userId : Int32) :
    Settles s (service.createOrder userId requests) (.done none) := by
  rw [OrderService.createOrder]
  split
  · exact .refl _
  · exact (settles_priceItems hfind hpositive hbad [] 0).bind _

theorem created_respond (status : Status) (r : Option Order) :
    ofCreated (orderOf (respond status r)) = overWire (ofCreated r) := by
  cases r <;> rfl

theorem found_respond (status : Status) (r : Option Order) :
    ofFound (orderOf (respond status r)) = overWire (ofFound r) := by
  cases r <;> rfl

/-- A call that is forwarded. -/
theorem forwarded {status : Status} {show' : Option Order → OrderReply}
    (h : ∀ r, show' (orderOf (respond status r)) = overWire (show' r))
    (p : Prog σ (Option Order)) :
    ((p >>= fun order => pure (respond status order)) >>= fun response =>
      pure (orderOf response)) >>= (fun order => pure (show' order)) =
      translated overWire (p >>= fun order => pure (show' order)) := by
  rw [translated_eq_bind, Prog.bind_assoc, Prog.bind_assoc, Prog.bind_assoc]
  congr 1
  funext order
  exact congrArg Prog.done (h order)

/-- Through messages a call is the same program, or a bad order is refused at once. -/
theorem grpc_program (action : OrderAction) :
    action.program (grpcOrderClient (orderServer service)) =
        translated overWire (action.program (localOrderClient service)) ∨
      ∃ userId items, action = .place userId items ∧ Bad (items.map toRequest) ∧
        action.program (grpcOrderClient (orderServer service)) = .done .refused := by
  cases action with
  | place userId items =>
    simp only [OrderAction.program, grpcOrderClient, orderServer, OrderRpc.createOrder,
      localOrderClient, toInt64_le_zero_iff, List.isEmpty_map, Int32.toInt32_toInt64]
    by_cases hargs : Int32.ofInt userId ≤ 0 ∨ items.isEmpty
    · left
      have hlocal : Int32.ofInt userId ≤ 0 ∨ items.map toRequest = [] := by simpa using hargs
      rw [if_pos hargs, OrderService.createOrder, if_pos hlocal]
      rfl
    · rw [if_neg hargs]
      rcases collectItems_requestMessage (items.map toRequest) with
        ⟨status, hcollect, hbad⟩ | hcollect
      · right
        rw [hcollect]
        exact ⟨userId, items, rfl, hbad, rfl⟩
      · left
        rw [hcollect]
        exact forwarded (created_respond _) _
  | list =>
    left
    simp only [OrderAction.program, grpcOrderClient, orderServer, OrderRpc.listOrders,
      localOrderClient, translated_eq_bind, Prog.bind_assoc]
    rfl
  | get orderId =>
    left
    simp only [OrderAction.program, grpcOrderClient, orderServer, OrderRpc.getOrder,
      localOrderClient, toInt64_le_zero_iff, Int32.toInt32_toInt64]
    by_cases hid : Int32.ofInt orderId ≤ 0
    · rw [if_pos hid, OrderService.findOrder, if_pos hid]
      rfl
    · rw [if_neg hid]
      exact forwarded (found_respond _) _
  | cancel orderId =>
    left
    simp only [OrderAction.program, grpcOrderClient, orderServer, OrderRpc.cancelOrder,
      localOrderClient, toInt64_le_zero_iff, Int32.toInt32_toInt64]
    by_cases hid : Int32.ofInt orderId ≤ 0
    · rw [if_pos hid, OrderService.cancelOrder, if_pos hid]
      rfl
    · rw [if_neg hid]
      exact forwarded (found_respond _) _

end Programs

/-! ## Runs -/

/-- A call through messages and the call itself. -/
def Forwards (q q' : OrderAction × Prog σ OrderReply) : Prop :=
  q'.1 = id q.1 ∧ q.2 = translated overWire q'.2

theorem past_overWire {past : List (OrderAction × OrderReply)}
    {current calls : List (OrderAction × Prog σ OrderReply)}
    (h : List.Forall₂ Forwards ((past.map fun a => (a.1, .done a.2)) ++ current) calls)
    (hlisted : ∀ q ∈ calls, ∀ reply, q.2 = .done reply → overWire reply = reply) :
    ∃ rest, calls = (past.map fun a => (a.1, .done a.2)) ++ rest ∧
      List.Forall₂ Forwards current rest := by
  induction past generalizing calls with
  | nil => exact ⟨calls, rfl, h⟩
  | cons a past ih =>
    cases h with
    | @cons _ q' _ calls hfirst hrest =>
      obtain ⟨hhead, htail⟩ := List.forall_mem_cons.mp hlisted
      obtain ⟨rest, rfl, hcurrent⟩ := ih hrest htail
      obtain ⟨reply, hreply, hsame⟩ := translated_done hfirst.2.symm
      rw [hhead reply hreply] at hsame
      have hq : q' = (a.1, .done a.2) := Prod.ext hfirst.1 (hreply.trans (by rw [hsame]))
      exact ⟨rest, by rw [hq]; rfl, hcurrent⟩

/-- What is shown does not change on the way. -/
theorem shown_overWire {action : Exchange → OrderAction} {session : List Exchange}
    {calls calls' : List (OrderAction × Prog σ OrderReply)} {sent : Bytes}
    (h : Shown action session calls sent) (hcalls : List.Forall₂ Forwards calls calls')
    (hlisted : ∀ q ∈ calls', ∀ reply, q.2 = .done reply → overWire reply = reply) :
    Shown action session calls' sent := by
  obtain ⟨past, current, hone, hsession, rfl, hsent⟩ := h
  have hsplit : (past.map fun a => (action a.1, (Prog.done a.2 : Prog σ OrderReply))) =
      (past.map fun a => (action a.1, a.2)).map fun a => (a.1, .done a.2) := by
    rw [List.map_map]
    rfl
  rw [hsplit] at hcalls
  obtain ⟨rest, rfl, hrest⟩ := past_overWire hcalls hlisted
  rw [List.forall₂_map_left_iff] at hrest
  obtain ⟨current', hmap, rfl⟩ := current_shown (fun _ _ h => h.1) hrest
  have hlength : current'.length = current.length := by
    simpa using congrArg List.length hmap
  exact ⟨past, current', by omega, by rwa [hmap], by rw [hsplit], hsent⟩

/-- The ids of the books are positive. -/
def Positive (books : MemoryBooks) : Prop := ∀ book ∈ books.books, ¬ book.id ≤ 0

section Browsing

variable {others : Endpoint → HttpRequest → PathParams → Prog LocalStore HttpResponse}
  {server : Server LocalStore} {sessions : ι → List Exchange} {action : Exchange → OrderAction}
  {start : LocalStore} {n : ℕ}

theorem guarded_grpc {action : OrderAction}
    (hitems : ∀ userId items, action = .place userId items → items.length ≤ n) :
    Guarded (Kept n Positive) (fun reply => (∀ order ∈ reply.shown, Small n order) ∧
      (action ≠ .list → ∀ orders, reply ≠ .listed orders))
      (action.program (grpcOrderClient (orderServer memoryMode.orderService))) := by
  rcases @grpc_program _ memoryMode.orderService action with hsame | ⟨userId, items, -, -, hdone⟩
  · rw [hsame, translated_eq_bind]
    refine (guarded_program hitems).bind fun reply hreply => .done ?_
    rw [overWire_listed fun order horder => (hreply.1 order horder).listed]
    exact hreply
  · rw [hdone]
    exact .done ⟨nofun, fun _ => nofun⟩

theorem translates_grpc {s : LocalStore} (hs : Positive s.books) (action : OrderAction) :
    TranslatesFrom overWire s
      (action.program (grpcOrderClient (orderServer memoryMode.orderService)))
      (action.program (localOrderClient memoryMode.orderService)) := by
  rcases @grpc_program _ memoryMode.orderService action with
    hsame | ⟨userId, items, rfl, hbad, hdone⟩
  · exact ⟨_, .refl _, hsame⟩
  · refine ⟨.done .refused, ?_, hdone⟩
    have hfind : ∀ id, memoryMode.orderService.bookClient.findBook id =
        .read fun s => s.books.findBook id := fun _ => rfl
    have hpositive : ∀ id book, s.books.findBook id = some book → ¬ id ≤ 0 := by
      intro id book hfound
      have hid := List.find?_some hfound
      rw [decide_eq_true_eq] at hid
      rw [← hid]
      exact hs book (List.mem_of_find?_eq_some hfound)
    have hsettles := settles_createOrder hfind hpositive hbad (Int32.ofInt userId)
    exact hsettles.bind fun order => .done (ofCreated order)

/-- Whatever the browsers do at the same time, what they are shown is what they would be
shown by a gateway that calls the service itself. -/
theorem browsers_cannot_tell
    (hserver : server.dispatch = dispatch
      (handlers (grpcOrderClient (orderServer memoryMode.orderService)) others))
    (hspeaks : Speaks action sessions) (hstart : ∀ order ∈ start.orders.orders, Listed order)
    (hbooks : Positive start.books) {B : ℕ} (hB : B < 2 ^ 31)
    (hshort : ShortReplies server sessions start B) {events : List (ι × Event)}
    {w : World LocalStore ι} (h : Conducted server sessions start B events w) :
    ∃ moves c, Interleaving.execute (fun r : ι × OrderAction =>
        r.2.program (localOrderClient memoryMode.orderService)) ⟨start, []⟩ moves = some c ∧
      c.state = w.store ∧ ∀ i, Shown action (sessions i) (owned i c.threads) (w.sent i) := by
  obtain ⟨n, hn, hsmall⟩ := exists_small hstart
  obtain ⟨moves, c, hmoves, hstore, hshown⟩ := served hserver hspeaks hB hshort h
  have hkept : Kept n Positive start := ⟨hsmall, hbooks⟩
  have hitems : ∀ t ∈ c.threads, ∀ userId items, t.request.2 = .place userId items →
      items.length ≤ n := fun t ht userId items hplace =>
    (few_asked hspeaks hshown t ht userId items hplace).trans hn
  have hlocal : ∃ moves' c', Interleaving.execute (fun r : ι × OrderAction =>
      r.2.program (localOrderClient memoryMode.orderService)) ⟨start, []⟩ moves' = some c' ∧
      c'.state = c.state ∧ Projects (fun r : ι × OrderAction => some (r.1, id r.2)) overWire
        c.threads c'.threads := by
    refine execute_projects hkept hmoves
      (fun t ht => guarded_weaken (guarded_grpc (hitems t ht)) fun _ _ => trivial) nofun
      fun t ht r' hsome s hs => ?_
    obtain rfl := Option.some.inj hsome
    exact translates_grpc hs.books t.request.2
  obtain ⟨moves', c', hmoves', hstate, hthreads⟩ := hlocal
  have hitems' : ∀ t ∈ c'.threads, ∀ userId items, t.request.2 = .place userId items →
      items.length ≤ n := by
    intro t' ht' userId items hplace
    obtain ⟨t, ht, hsame, -⟩ := hthreads.mem t' ht'
    rw [← Option.some.inj hsame] at hplace
    exact hitems t ht userId items hplace
  refine ⟨moves', c', hmoves', hstate.trans hstore, fun i => ?_⟩
  exact shown_overWire (hshown i) (owned_forall₂ hthreads i) fun q hq reply hdone =>
    overWire_listed (listed_of_run hkept hmoves' hitems' i q hq reply hdone)

end Browsing

/-! ## The two browsers again -/

def splitServer : Server LocalStore where
  env := ChunkedParsing.bareEnv
  file _ := none
  beyond _ _ := 0
  dispatch := dispatch (handlers (grpcOrderClient (orderServer memoryMode.orderService))
    fun _ _ _ => pure .routeNotFound)

theorem positive_smallStore : Positive smallStore.books := by
  intro book hbook
  simp only [smallStore, LocalStore.initial, List.mem_cons, List.not_mem_nil, or_false] at hbook
  obtain rfl | rfl := hbook <;> decide

theorem shopping_short_split : ShortReplies splitServer shopping smallStore 8192 := by
  have hkept : Kept 85 Positive smallStore :=
    ⟨fun order horder => absurd horder List.not_mem_nil, positive_smallStore⟩
  exact short_of_guarded rfl shopping_speaks shopping_lists hkept fun _ => guarded_grpc

theorem atTheTill_runs_split :
    (splitServer.execute (World.start smallStore : World LocalStore Bool) atTheTill).isSome =
      true := by
  decide +kernel

def afterwards : World LocalStore Bool :=
  (splitServer.execute (.start smallStore) atTheTill).get atTheTill_runs_split

theorem atTheTill_same : ∃ moves c, Interleaving.execute (fun r : Bool × OrderAction =>
      r.2.program (localOrderClient memoryMode.orderService)) ⟨smallStore, []⟩ moves = some c ∧
    c.state = afterwards.store ∧
    ∀ i, Shown wanted (shopping i) (owned i c.threads) (afterwards.sent i) :=
  browsers_cannot_tell rfl shopping_speaks (fun order horder => absurd horder List.not_mem_nil)
    positive_smallStore (by decide) shopping_short_split
    ⟨(Option.some_get _).symm, atTheTill_heard, fun _ _ => atTheTill_rooms⟩

end Bookstore.OrderDeployments
