import Bookstore.LocalCheckouts
import Bookstore.OrderController
import Bookstore.Sessions

/-!
Browsers that use the order API over keep-alive connections. What they do to the store
is what their calls of the order client do as concurrent programs, so that what holds of
concurrent checkouts holds of everything the browsers send.
-/
namespace Bookstore.OrderSessions

open HttpTypes Interleaving Threads Sessions Records Repositories Services JsonGrammar
open JsonResponses ApiRoutes OrderController OrderRpc Routing Checkouts LocalCheckouts
open LocalConservation Decimals

variable {σ ι : Type} [DecidableEq ι]

/-! ## Browsers -/

/-- Every exchange says what its browser wants. -/
def Speaks (action : Exchange → OrderAction) (sessions : ι → List Exchange) : Prop :=
  ∀ i, ∀ x ∈ sessions i, (action x).Fits ∧ (action x).SaidBy x.request.asked

/-- The calls of a session go on in order, each after the answer to the one before, and
the bytes sent are the responses to those that are over. -/
def Shown (action : Exchange → OrderAction) (session : List Exchange)
    (calls : List (OrderAction × Prog σ OrderReply)) (sent : Bytes) : Prop :=
  ∃ (past : List (Exchange × OrderReply)) (current : List (Exchange × Prog σ OrderReply)),
    current.length ≤ 1 ∧ past.map Prod.fst ++ current.map Prod.fst <+: session ∧
    calls = (past.map fun a => (action a.1, .done a.2)) ++
      current.map (fun a => (action a.1, a.2)) ∧
    sent = past.flatMap fun a => a.2.response.toHttpString a.1.request.keepAlive

/-- The response that a result of a call becomes. -/
def shownAs (reply : OrderReply) : Option HttpResponse := some reply.response

section Serving

variable {client : OrderClient σ}
  {others : Endpoint → HttpRequest → PathParams → Prog σ HttpResponse} {server : Server σ}
  {sessions : ι → List Exchange} {action : Exchange → OrderAction}

omit [DecidableEq ι] in
theorem program_said (hserver : server.dispatch = dispatch (handlers client others))
    (hspeaks : Speaks action sessions) {r : ι × Exchange} (hr : r.2 ∈ sessions r.1) :
    server.program r = translated shownAs ((action r.2).program client) := by
  obtain ⟨hfits, hsaid⟩ := hspeaks r.1 r.2 hr
  rw [Server.program, hserver, dispatch_said client others hfits hsaid]
  rfl

/-- A thread of the server and the call of its browser. -/
def SameCall (action : Exchange → OrderAction) (q : Exchange × Prog σ (Option HttpResponse))
    (q' : OrderAction × Prog σ OrderReply) : Prop :=
  q'.1 = action q.1 ∧ q.2 = translated shownAs q'.2

theorem current_shown {γ : Type 1} {R : Exchange × γ → OrderAction × Prog σ OrderReply → Prop}
    (hR : ∀ q q', R q q' → q'.1 = action q.1) {current : List (Exchange × γ)}
    {calls : List (OrderAction × Prog σ OrderReply)} (h : List.Forall₂ R current calls) :
    ∃ current' : List (Exchange × Prog σ OrderReply),
      current'.map Prod.fst = current.map Prod.fst ∧
        calls = current'.map fun a => (action a.1, a.2) := by
  induction h with
  | nil => exact ⟨[], rfl, rfl⟩
  | @cons q q' _ _ hfirst _ ih =>
    obtain ⟨current', hmap, rfl⟩ := ih
    exact ⟨(q.1, q'.2) :: current', by simp [hmap], by simp [← hR q q' hfirst]⟩

theorem past_shown {past : List Answered}
    {current : List (Exchange × Prog σ (Option HttpResponse))}
    {calls : List (OrderAction × Prog σ OrderReply)}
    (h : List.Forall₂ (SameCall action) (past.map Answered.thread ++ current) calls) :
    ∃ (past' : List (Exchange × OrderReply)) (rest : List (OrderAction × Prog σ OrderReply)),
      past'.map Prod.fst = past.map Prod.fst ∧ List.Forall₂ (SameCall action) current rest ∧
        calls = (past'.map fun a => (action a.1, .done a.2)) ++ rest ∧
        past.flatMap Answered.bytes =
          past'.flatMap fun a => a.2.response.toHttpString a.1.request.keepAlive := by
  induction past generalizing calls with
  | nil => exact ⟨[], calls, rfl, h, rfl, rfl⟩
  | cons a past ih =>
    cases h with
    | @cons _ q' _ calls hfirst hrest =>
      obtain ⟨past', rest, hmap, hcurrent, rfl, hbytes⟩ := ih hrest
      obtain ⟨reply, hreply, hresponse⟩ := translated_done hfirst.2.symm
      have hq : q' = (action a.1, .done reply) := Prod.ext hfirst.1 hreply
      refine ⟨(a.1, reply) :: past', rest, by simp [hmap], hcurrent, by simp [hq], ?_⟩
      rw [List.flatMap_cons, List.flatMap_cons, hbytes, Answered.bytes, ← hresponse]
      rfl

/-- What was answered to a browser was shown to it. -/
theorem shown_of_served {session : List Exchange}
    {threads : List (Exchange × Prog σ (Option HttpResponse))} {sent : Bytes}
    (h : Served session threads sent) {calls : List (OrderAction × Prog σ OrderReply)}
    (hcalls : List.Forall₂ (SameCall action) threads calls) :
    Shown action session calls sent := by
  obtain ⟨past, current, hone, hsession, rfl, rfl⟩ := h
  obtain ⟨past', rest, hmap, hrest, rfl, hbytes⟩ := past_shown hcalls
  obtain ⟨current', hcurrent, rfl⟩ := current_shown (fun _ _ h => h.1) hrest
  have hlength : current'.length = current.length := by
    simpa using congrArg List.length hcurrent
  refine ⟨past', current', by omega, ?_, rfl, hbytes⟩
  rw [hmap, hcurrent]
  exact hsession

/-- Whatever the order of the events on all connections, the store is what the calls of
the browsers leave as concurrent programs, and every browser is shown what came of its
own calls, in order. -/
theorem served (hserver : server.dispatch = dispatch (handlers client others))
    (hspeaks : Speaks action sessions) {s : σ} {B : ℕ} (hB : B < 2 ^ 31)
    (hshort : ShortReplies server sessions s B) {events : List (ι × Event)} {w : World σ ι}
    (h : Conducted server sessions s B events w) :
    ∃ moves c, Interleaving.execute (fun r : ι × OrderAction => r.2.program client) ⟨s, []⟩ moves =
        some c ∧ c.state = w.store ∧
      ∀ i, Shown action (sessions i) (owned i c.threads) (w.sent i) := by
  obtain ⟨moves, c, hmoves, htracks⟩ := h.tracks hB hshort
  have hmem := asked_mem fun i => (htracks.stage i).served.asked
  have hcalls : ∃ moves' c', Interleaving.execute (fun r : ι × OrderAction => r.2.program client)
      ⟨s, []⟩ moves' = some c' ∧ c'.state = c.state ∧
        Projects (fun r : ι × Exchange => some (r.1, action r.2)) shownAs c.threads c'.threads := by
    refine execute_projects (I := fun _ => True) trivial hmoves (fun _ _ => guarded_trivial _) nofun
      fun t ht r' hsome _ _ => ?_
    obtain rfl := Option.some.inj hsome
    exact ⟨_, .refl _, program_said hserver hspeaks (hmem t ht)⟩
  obtain ⟨moves', c', hmoves', hstate, hthreads⟩ := hcalls
  refine ⟨moves', c', hmoves', hstate.trans htracks.store, fun i => ?_⟩
  exact shown_of_served (htracks.stage i).served (owned_forall₂ hthreads i)

end Serving

/-! ## Stock -/

/-- Nothing of the stock is sold twice: what is available and what is in stored orders
stay within what there was, and make it up when no handler is running. -/
structure Balanced (V : Checkouts.Shelf σ) (start : σ) (w : World σ ι) : Prop where
  nonneg : ∀ book, 0 ≤ V.available w.store book
  covered : ∀ book, V.available w.store book + V.stored w.store book ≤
    V.available start book + V.stored start book
  settled : (∀ i d p, w.conns i ≠ .serving d p) → ∀ book,
    V.available w.store book + V.stored w.store book =
      V.available start book + V.stored start book

/-- The checkout that a browser asks for. -/
def checkoutOf : OrderAction → Option Checkout
  | .place userId items => some ⟨Int32.ofInt userId, items.map toRequest⟩
  | _ => none

section Stock

variable {V : Checkouts.Shelf σ} {m : Local σ} {start : σ}
  {others : Endpoint → HttpRequest → PathParams → Prog σ HttpResponse} {server : Server σ}
  {sessions : ι → List Exchange} {action : Exchange → OrderAction} {B : ℕ}

omit [DecidableEq ι] in
theorem program_place
    (hserver : server.dispatch = dispatch (handlers (localOrderClient m.orderService) others))
    (hspeaks : Speaks action sessions) {r : ι × Exchange} (hr : r.2 ∈ sessions r.1) {r' : Checkout}
    (hcheckout : checkoutOf (action r.2) = some r') :
    server.program r =
      translated (fun order => shownAs (ofCreated order)) (createOrder m r') := by
  have hprogram := program_said hserver hspeaks hr
  generalize action r.2 = a at hprogram hcheckout
  cases a with
  | place userId items =>
    obtain rfl := Option.some.inj hcheckout
    rw [hprogram, translated_eq_bind, translated_eq_bind]
    exact Prog.bind_assoc _ _ _
  | list => cases hcheckout
  | get orderId => cases hcheckout
  | cancel orderId => cases hcheckout

/-- Every handler has finished when no connection is served. -/
theorem finished_of_resting {events : List (ι × Event)} {w : World σ ι}
    {c : Config (ι × Exchange) σ (Option HttpResponse)}
    (h : Tracks server sessions events w c) (hrest : ∀ i d p, w.conns i ≠ .serving d p) :
    ∀ t ∈ c.threads, t.Finished := by
  intro t ht
  have hmem : (t.request.2, t.prog) ∈ owned t.request.1 c.threads :=
    List.mem_map_of_mem (List.mem_filter.mpr ⟨ht, decide_eq_true rfl⟩)
  have hpast : ∀ past : List Answered, (t.request.2, t.prog) ∈ past.map Answered.thread →
      t.Finished := by
    intro past hin
    obtain ⟨a, -, ha⟩ := List.mem_map.mp hin
    exact ⟨a.2, (congrArg Prod.snd ha).symm⟩
  have hstage := h.stage t.request.1
  rcases hconn : w.conns t.request.1 with d | ⟨d, p⟩ | ⟨linger, mem, phase⟩ | _ | _
  · rw [hconn] at hstage
    cases hstage with
    | reading past rest pre _ _ hthreads =>
      rw [hthreads] at hmem
      exact hpast past hmem
  · exact absurd hconn (hrest _ d p)
  · rw [hconn] at hstage
    cases hstage with
    | sending past x rest response _ _ hthreads =>
      rw [hthreads] at hmem
      rcases List.mem_append.mp hmem with hin | hlast
      · exact hpast past hin
      · exact ⟨response, congrArg Prod.snd (List.mem_singleton.mp hlast)⟩
  · rw [hconn] at hstage
    cases hstage
  · rw [hconn] at hstage
    cases hstage with
    | closed past rest _ _ hthreads =>
      rw [hthreads] at hmem
      exact hpast past hmem

/-- Browsers that place orders, and otherwise only look, keep the balance. -/
theorem balanced_of_conducted (hserves : V.Serves m) (hgood : V.good start)
    (hnonneg : ∀ book, 0 ≤ V.available start book)
    (hroom : ∀ book, V.available start book ≤ V.room)
    (hserver : server.dispatch = dispatch (handlers (localOrderClient m.orderService) others))
    (hspeaks : Speaks action sessions)
    (hlook : ∀ i, ∀ x ∈ sessions i, checkoutOf (action x) = none →
      Reading ((action x).program (localOrderClient m.orderService)))
    (hB : B < 2 ^ 31) (hshort : ShortReplies server sessions start B)
    {events : List (ι × Event)} {w : World σ ι}
    (h : Conducted server sessions start B events w) : Balanced V start w := by
  obtain ⟨moves, c, hmoves, htracks⟩ := h.tracks hB hshort
  have hmem := asked_mem fun i => (htracks.stage i).served.asked
  have hcheckouts : ∃ moves' c', Interleaving.execute (createOrder m) ⟨start, []⟩ moves' = some c' ∧
      c'.state = c.state ∧ Projects (fun r : ι × Exchange => checkoutOf (action r.2))
        (fun order => shownAs (ofCreated order)) c.threads c'.threads := by
    refine execute_projects (I := fun _ => True) trivial hmoves (fun _ _ => guarded_trivial _)
      (fun t ht hnone => ?_)
      fun t ht r' hsome _ _ => ⟨_, .refl _, program_place hserver hspeaks (hmem t ht) hsome⟩
    have hreads := hlook _ _ (hmem t ht) hnone
    rw [program_said hserver hspeaks (hmem t ht)]
    exact hreads.bind fun _ => .done _
  obtain ⟨moves', c', hmoves', hstate, hthreads⟩ := hcheckouts
  obtain ⟨stages, hstages⟩ := accounted_of_runs hserves hgood hnonneg hroom
    (runs_of_execute moves' (.refl _) hmoves')
  have hstore : c'.state = w.store := hstate.trans htracks.store
  have hbalance := hstages.balance
  have havailable := hstages.nonneg
  rw [hstore] at hbalance havailable
  refine ⟨havailable, fun book => ?_, fun hrest book => ?_⟩
  · have hheld : 0 ≤ heldBy book stages := by
      refine List.sum_nonneg fun x hx => ?_
      obtain ⟨stage, hstage, rfl⟩ := List.mem_map.mp hx
      exact hstages.held_nonneg book stage hstage
    have hbook := hbalance book
    omega
  · have hfinished : ∀ t ∈ c'.threads, t.Finished := by
      intro t' ht'
      obtain ⟨t, ht, -, hprog⟩ := hthreads.mem t' ht'
      obtain ⟨response, hdone⟩ := finished_of_resting htracks hrest t ht
      obtain ⟨order, horder, -⟩ := translated_done (hprog.symm.trans hdone)
      exact ⟨order, horder⟩
    have hheld := heldBy_of_finished hserves hstages.placed hfinished book
    have hbook := hbalance book
    omega

end Stock

/-! ## Memory repositories -/

section Steps

variable {I : σ → Prop} {service : InventoryRepository σ}

theorem guarded_releaseEach
    (hrelease : ∀ book quantity, Guarded I (fun _ => True) (service.releaseStock book quantity))
    (items : List InventoryMutation) : Guarded I (fun _ => True) (releaseEach service items) := by
  induction items with
  | nil => exact .done trivial
  | cons item items ih => exact (hrelease _ _).bind fun _ _ => ih

theorem guarded_reserveEach
    (hreserve : ∀ book quantity, Guarded I (fun _ => True) (service.reserveStock book quantity))
    (hrelease : ∀ book quantity, Guarded I (fun _ => True) (service.releaseStock book quantity))
    (items reserved : List InventoryMutation) :
    Guarded I (fun _ => True) (reserveEach service reserved items) := by
  induction items generalizing reserved with
  | nil => exact .done trivial
  | cons item items ih =>
    refine (hreserve _ _).bind fun taken _ => ?_
    cases taken with
    | true => exact ih _
    | false => exact (guarded_releaseEach hrelease reserved).bind fun _ _ => .done trivial

/-- The first loop prices at most the items it is given. -/
theorem guarded_priceItems {service : OrderService σ}
    (hfind : ∀ book, Guarded I (fun _ => True) (service.bookClient.findBook book))
    (requests : List OrderItemRequest) (items : List OrderItem) (total : Int32) :
    Guarded I (fun r => ∀ p, r = some p → p.1.length ≤ items.length + requests.length)
      (service.priceItems items total requests) := by
  induction requests generalizing items total with
  | nil => exact .done fun p hp => by rw [← Option.some.inj hp]; exact Nat.le_refl _
  | cons request requests ih =>
    rw [OrderService.priceItems]
    by_cases hq : request.quantity ≤ 0
    · rw [if_pos hq]
      exact .done fun _ h => by cases h
    · rw [if_neg hq]
      refine (hfind _).bind fun book _ => ?_
      cases book with
      | none => exact .done fun _ h => by cases h
      | some book =>
        have hrest := ih (items ++ [⟨request.bookId, request.quantity, book.priceCents⟩])
          (total + book.priceCents * request.quantity)
        simp only [List.length_append, List.length_singleton, Nat.add_assoc,
          Nat.add_comm 1] at hrest
        exact hrest

end Steps

/-- An order of at most `n` items, in a status that the repository writes. -/
structure Small (n : ℕ) (order : Order) : Prop where
  items : order.items.length ≤ n
  listed : Listed order

/-- The orders are small, and nothing has happened to the books. -/
structure Kept (n : ℕ) (J : MemoryBooks → Prop) (s : LocalStore) : Prop where
  orders : ∀ order ∈ s.orders.orders, Small n order
  books : J s.books

section Memory

variable {n : ℕ} {J : MemoryBooks → Prop}

theorem small_create {userId total : Int32} {items : List OrderItem} (hitems : items.length ≤ n)
    {s : LocalStore} (hs : Kept n J s) :
    (∀ order, (MemoryOrders.createOrder userId items total s.orders).1 = some order →
      Small n order) ∧
    Kept n J { s with orders := (MemoryOrders.createOrder userId items total s.orders).2 } := by
  unfold MemoryOrders.createOrder
  split
  · exact ⟨nofun, hs⟩
  · refine ⟨fun order horder => ?_, fun order horder => ?_, hs.books⟩
    · rw [← Option.some.inj horder]
      exact ⟨hitems, .inl rfl⟩
    · rcases List.mem_append.mp horder with hold | hnew
      · exact hs.orders order hold
      · rw [List.mem_singleton.mp hnew]
        exact ⟨hitems, .inl rfl⟩

theorem small_markCancelled {orders : List Order} {orderId : Int32}
    (h : ∀ order ∈ orders, Small n order) :
    ∀ order ∈ MemoryOrders.markCancelled orderId orders, Small n order := by
  induction orders with
  | nil => exact h
  | cons order orders ih =>
    obtain ⟨hfirst, hrest⟩ := List.forall_mem_cons.mp h
    unfold MemoryOrders.markCancelled
    split
    · exact List.forall_mem_cons.mpr ⟨⟨hfirst.items, .inr rfl⟩, hrest⟩
    · exact List.forall_mem_cons.mpr ⟨hfirst, ih hrest⟩

theorem guarded_create {userId : Int32} {requests : List OrderItemRequest}
    (hrequests : requests.length ≤ n) :
    Guarded (Kept n J) (fun r => ∀ order, r = some order → Small n order)
      (memoryMode.orderService.createOrder userId requests) := by
  have hreserve (book quantity : Int32) : Guarded (Kept n J) (fun _ => True)
      ((inventoryService memoryMode.inventory).reserveStock book quantity) :=
    .lift (fun _ _ h => ⟨h.orders, h.books⟩) _
  have hrelease (book quantity : Int32) : Guarded (Kept n J) (fun _ => True)
      ((inventoryService memoryMode.inventory).releaseStock book quantity) :=
    .lift (fun _ _ h => ⟨h.orders, h.books⟩) _
  rw [OrderService.createOrder]
  split
  · exact .done fun _ h => by cases h
  · refine (guarded_priceItems (fun book => .call fun s hs => ⟨trivial, hs⟩) requests [] 0).bind
      fun priced hpriced => ?_
    cases priced with
    | none => exact .done fun _ h => by cases h
    | some priced =>
      obtain ⟨items, total⟩ := priced
      have hlength := hpriced (items, total) rfl
      rw [List.length_nil, Nat.zero_add] at hlength
      show Guarded _ _ (memoryMode.orderService.placeOrder userId requests items total)
      rw [OrderService.placeOrder]
      refine (Guarded.call (P := fun _ => True) fun s hs => ⟨trivial, hs.orders, hs.books⟩).bind
        fun _ _ => ?_
      refine (guarded_reserveEach hreserve hrelease _ []).bind fun taken _ => ?_
      cases taken with
      | false => exact .done fun _ h => by cases h
      | true =>
        have hcreate : Guarded (Kept n J) (fun r => ∀ order, r = some order → Small n order)
            (memoryMode.orders.createOrder userId items total) :=
          .call fun s hs => small_create (hlength.trans hrequests) hs
        refine hcreate.bind fun created hcreated => ?_
        cases created with
        | none => exact (guarded_releaseEach hrelease _).bind fun _ _ => .done fun _ h => by cases h
        | some order => exact .done hcreated

theorem guarded_find (orderId : Int32) :
    Guarded (Kept n J) (fun r => ∀ order, r = some order → Small n order)
      (memoryMode.orderService.findOrder orderId) := by
  rw [OrderService.findOrder]
  split
  · exact .done fun _ h => by cases h
  · exact .call fun s hs =>
      ⟨fun order hfound => hs.orders order (List.mem_of_find?_eq_some hfound), hs⟩

theorem guarded_cancel (orderId : Int32) :
    Guarded (Kept n J) (fun r => ∀ order, r = some order → Small n order)
      (memoryMode.orderService.cancelOrder orderId) := by
  have hrelease (items : List OrderItem) : Guarded (Kept n J) (fun _ => True)
      (memoryMode.orderService.releaseItems items) := by
    induction items with
    | nil => exact .done trivial
    | cons item items ih =>
      exact (Guarded.lift (fun _ _ h => ⟨h.orders, h.books⟩) _).bind fun _ _ => ih
  have hfind : Guarded (Kept n J) (fun r => ∀ order, r = some order → Small n order)
      (memoryMode.orders.findOrder orderId) :=
    .call fun s hs => ⟨fun order hfound => hs.orders order (List.mem_of_find?_eq_some hfound), hs⟩
  have hmark : Guarded (Kept n J) (fun r => ∀ order, r = some order → Small n order)
      (memoryMode.orders.cancelOrder orderId) :=
    .call fun s hs => ⟨fun order hfound =>
      small_markCancelled hs.orders order (List.mem_of_find?_eq_some hfound),
        small_markCancelled hs.orders, hs.books⟩
  rw [OrderService.cancelOrder]
  split
  · exact .done fun _ h => by cases h
  · refine hfind.bind fun found hfound => ?_
    cases found with
    | none => exact .done fun _ h => by cases h
    | some existing =>
      show Guarded _ _ (if existing.status = "cancelled" then _ else _)
      split
      · exact .done hfound
      · refine hmark.bind fun cancelled hcancelled => ?_
        cases cancelled with
        | none => exact .done fun _ h => by cases h
        | some order => exact (hrelease order.items).bind fun _ _ => .done hcancelled

theorem small_shown {r : Option Order} (h : ∀ order, r = some order → Small n order) :
    (∀ order ∈ (ofCreated r).shown, Small n order) ∧
      ∀ order ∈ (ofFound r).shown, Small n order := by
  cases r with
  | none => exact ⟨nofun, nofun⟩
  | some found =>
    have hfound := List.forall_mem_singleton.mpr (h found rfl)
    exact ⟨hfound, hfound⟩

/-- Every order that is shown has few items and one of two statuses. -/
theorem guarded_program {action : OrderAction}
    (hitems : ∀ userId items, action = .place userId items → items.length ≤ n) :
    Guarded (Kept n J) (fun reply => (∀ order ∈ reply.shown, Small n order) ∧
      (action ≠ .list → ∀ orders, reply ≠ .listed orders))
      (action.program (localOrderClient memoryMode.orderService)) := by
  have hcreated (r : Option Order) : ∀ orders, ofCreated r ≠ .listed orders := by
    cases r <;> exact nofun
  have hfound (r : Option Order) : ∀ orders, ofFound r ≠ .listed orders := by
    cases r <;> exact nofun
  cases action with
  | place userId items =>
    refine (guarded_create ?_).bind fun r hr => .done ⟨(small_shown hr).1, fun _ => hcreated r⟩
    rw [List.length_map]
    exact hitems userId items rfl
  | list =>
    have hlist : Guarded (Kept n J) (fun orders => ∀ order ∈ orders, Small n order)
        memoryMode.orderService.listOrders :=
      .call fun s hs => ⟨hs.orders, hs⟩
    exact hlist.bind fun orders horders => .done ⟨horders, fun hlist => absurd rfl hlist⟩
  | get orderId =>
    exact (guarded_find _).bind fun r hr => .done ⟨(small_shown hr).2, fun _ => hfound r⟩
  | cancel orderId =>
    exact (guarded_cancel _).bind fun r hr => .done ⟨(small_shown hr).2, fun _ => hfound r⟩

omit [DecidableEq ι] in
/-- The read buffer holds orders of 85 items at most. -/
theorem few_items {action : Exchange → OrderAction} {sessions : ι → List Exchange}
    (hspeaks : Speaks action sessions) {i : ι} {x : Exchange} (hx : x ∈ sessions i) :
    ∀ userId items, action x = .place userId items → items.length ≤ 85 := by
  intro userId items haction
  have hbody := (hspeaks i x hx).2.body
  have hfits := x.request.fits
  rw [haction] at hbody
  have hlength := length_checkoutText userId items
  have hsame : x.request.body = OrderRequests.checkoutText userId items := hbody
  rw [hsame] at hfits
  have hsize : kReadBufSize = 2048 := rfl
  omega

/-- The orders that come of the calls have one of two statuses. -/
theorem listed_of_run {start : LocalStore} (hs : Kept n J start)
    {moves : List (Move (ι × OrderAction))}
    {c : Config (ι × OrderAction) LocalStore OrderReply}
    (hexec : Interleaving.execute (fun r : ι × OrderAction =>
      r.2.program (localOrderClient memoryMode.orderService)) ⟨start, []⟩ moves = some c)
    (hitems : ∀ t ∈ c.threads, ∀ userId items, t.request.2 = .place userId items →
      items.length ≤ n) (i : ι) :
    ∀ call ∈ owned i c.threads, ∀ reply, call.2 = .done reply →
      ∀ order ∈ reply.shown, Listed order := by
  intro call hcall reply hdone order horder
  obtain ⟨t, ht, rfl⟩ := List.mem_map.mp hcall
  have hthread : Guarded (Kept n J) (fun reply => ∀ order ∈ reply.shown, Small n order) t.prog :=
    (guarded_execute hs hexec fun t ht =>
      guarded_weaken (guarded_program (hitems t ht)) fun _ h => h.1).2 t (List.mem_filter.mp ht).1
  have hprog : t.prog = .done reply := hdone
  rw [hprog] at hthread
  cases hthread with
  | done hshown => exact (hshown order horder).listed

theorem few_asked {action : Exchange → OrderAction} {sessions : ι → List Exchange}
    (hspeaks : Speaks action sessions) {threads : List (Thread (ι × OrderAction) σ OrderReply)}
    {sent : ι → Bytes} (hshown : ∀ i, Shown action (sessions i) (owned i threads) (sent i)) :
    ∀ t ∈ threads, ∀ userId items, t.request.2 = .place userId items → items.length ≤ 85 := by
  intro t ht userId items hplace
  obtain ⟨past, current, -, hsession, hcalls, -⟩ := hshown t.request.1
  have hown : (t.request.2, t.prog) ∈ owned t.request.1 threads :=
    List.mem_map_of_mem (List.mem_filter.mpr ⟨ht, decide_eq_true rfl⟩)
  rw [hcalls] at hown
  have hmem : t.request.2 ∈ (past.map Prod.fst ++ current.map Prod.fst).map action := by
    simpa using List.mem_map_of_mem (f := Prod.fst) hown
  obtain ⟨x, hx, hsame⟩ := List.mem_map.mp hmem
  exact few_items hspeaks (hsession.subset hx) userId items (hsame.trans hplace)

section Browsing

variable {others : Endpoint → HttpRequest → PathParams → Prog LocalStore HttpResponse}
  {server : Server LocalStore} {sessions : ι → List Exchange} {action : Exchange → OrderAction}
  {start : LocalStore}

/-- Without lists of orders, the responses are short. -/
theorem short_of_guarded {client : OrderClient LocalStore}
    (hserver : server.dispatch = dispatch (handlers client others))
    (hspeaks : Speaks action sessions) (hlists : ∀ i, ∀ x ∈ sessions i, action x ≠ .list)
    (hstart : Kept 85 J start)
    (hguarded : ∀ action : OrderAction,
      (∀ userId items, action = .place userId items → items.length ≤ 85) →
      Guarded (Kept 85 J) (fun reply => (∀ order ∈ reply.shown, Small 85 order) ∧
        (action ≠ .list → ∀ orders, reply ≠ .listed orders)) (action.program client)) :
    ShortReplies server sessions start 8192 := by
  refine shortReplies_of_guarded hstart fun i x hx => ?_
  obtain ⟨hfits, hsaid⟩ := hspeaks i x hx
  rw [hserver, dispatch_said _ others hfits hsaid, translated_eq_bind]
  refine (hguarded _ (few_items hspeaks hx)).bind fun reply hreply => .done fun linger => ?_
  refine (length_reply (n := 85) (by decide) (fun order horder => ?_) (hreply.2 (hlists i x hx))
    linger).trans (by decide)
  have hsmall := hreply.1 order horder
  exact ⟨hsmall.listed, hsmall.items⟩

theorem exists_small {orders : List Order} (h : ∀ order ∈ orders, Listed order) :
    ∃ n, 85 ≤ n ∧ ∀ order ∈ orders, Small n order := by
  induction orders with
  | nil => exact ⟨85, Nat.le_refl _, fun order horder => absurd horder List.not_mem_nil⟩
  | cons order orders ih =>
    obtain ⟨hfirst, hrest⟩ := List.forall_mem_cons.mp h
    obtain ⟨n, hn, hsmall⟩ := ih hrest
    refine ⟨n + order.items.length, by omega, List.forall_mem_cons.mpr ⟨⟨?_, hfirst⟩, ?_⟩⟩
    · exact Nat.le_add_left _ _
    · exact fun other hother => ⟨(hsmall other hother).items.trans (Nat.le_add_right _ _),
        (hsmall other hother).listed⟩

theorem clean_of_all {s : String} (h : s.toList.all (fun c => decide (32 ≤ c.toNat)) = true) :
    Clean s := fun c hc => .inl (of_decide_eq_true (List.all_eq_true.mp h c hc))

theorem clean_of_listed {order : Order} (h : Listed order) : Clean order.status := by
  rcases h with h | h
  · rw [h]
    exact clean_of_all (by decide)
  · rw [h]
    exact clean_of_all (by decide)

/-- On the memory repositories, whatever the browsers do at the same time, every response
has the status of what came of its call, and a body that is JSON of it. -/
theorem browsers_read_json
    (hserver : server.dispatch =
      dispatch (handlers (localOrderClient memoryMode.orderService) others))
    (hspeaks : Speaks action sessions) (hstart : ∀ order ∈ start.orders.orders, Listed order)
    {B : ℕ} (hB : B < 2 ^ 31) (hshort : ShortReplies server sessions start B)
    {events : List (ι × Event)} {w : World LocalStore ι}
    (h : Conducted server sessions start B events w) :
    ∃ moves c, Interleaving.execute (fun r : ι × OrderAction =>
        r.2.program (localOrderClient memoryMode.orderService)) ⟨start, []⟩ moves = some c ∧
      c.state = w.store ∧ ∀ i, Shown action (sessions i) (owned i c.threads) (w.sent i) ∧
        ∀ call ∈ owned i c.threads, ∀ reply, call.2 = .done reply →
          reply.response.statusCode = reply.status ∧
            Decodes reply.response.body reply.value := by
  obtain ⟨n, hn, hsmall⟩ := exists_small hstart
  obtain ⟨moves, c, hmoves, hstore, hshown⟩ := served hserver hspeaks hB hshort h
  refine ⟨moves, c, hmoves, hstore, fun i => ⟨hshown i, fun call hcall reply hdone => ?_⟩⟩
  have hitems : ∀ t ∈ c.threads, ∀ userId items, t.request.2 = .place userId items →
      items.length ≤ n := fun t ht userId items hplace =>
    (few_asked hspeaks hshown t ht userId items hplace).trans hn
  have hkept : Kept n (fun _ => True) start := ⟨hsmall, trivial⟩
  exact OrderReply.decodes fun order horder =>
    clean_of_listed (listed_of_run hkept hmoves hitems i call hcall reply hdone order horder)

/-- Browsers that place orders and look at them never oversell, whatever the order of the
events on their connections. -/
theorem browsers_never_oversell
    (hserver : server.dispatch =
      dispatch (handlers (localOrderClient memoryMode.orderService) others))
    (hspeaks : Speaks action sessions)
    (hnever : ∀ i, ∀ x ∈ sessions i, ∀ orderId, action x ≠ .cancel orderId)
    (hstart : ∀ book, 0 ≤ memoryShelf.available start book) {B : ℕ} (hB : B < 2 ^ 31)
    (hshort : ShortReplies server sessions start B) {events : List (ι × Event)}
    {w : World LocalStore ι} (h : Conducted server sessions start B events w) :
    Balanced memoryShelf start w := by
  refine balanced_of_conducted memory_serves trivial hstart (fun _ => MachineInt.toInt_le_intMax _)
    hserver hspeaks (fun i x hx hnone => ?_) hB hshort h
  have hcancel := hnever i x hx
  generalize action x = a at hnone hcancel
  cases a with
  | place userId items => cases hnone
  | list => exact .act (fun _ => rfl) fun _ => .done _
  | get orderId =>
    show Reading (memoryMode.orderService.findOrder _ >>= _)
    refine Reading.bind ?_ fun _ => .done _
    rw [OrderService.findOrder]
    split
    · exact .done none
    · exact .act (fun _ => rfl) fun _ => .done _
  | cancel orderId => exact absurd rfl (hcancel orderId)

end Browsing

end Memory

/-! ## Two browsers -/

/-- `POST /api/orders` for two books. -/
def placing (body : Bytes) (h : body.length = 77) : ChunkedParsing.Request where
  requestLine := ascii "POST /api/orders HTTP/1.1"
  headers := [ascii "Connection: keep-alive", ascii "Content-Length: 77"]
  body := body
  plain := LineReading.plainLine_of_all (by decide)
  accepted := by
    change (RequestParser.HttpConn.reset.parseRequestLine
      (ascii "POST /api/orders HTTP/1.1" ++ [0, 0])).1 = .noRequest
    decide
  header := by
    intro line hmem
    rcases List.mem_cons.mp hmem with rfl | hmem
    · exact ⟨LineReading.plainLine_of_all (by decide), by decide, fun h => absurd (by decide) h⟩
    · obtain rfl := List.mem_singleton.mp hmem
      exact ⟨LineReading.plainLine_of_all (by decide), by decide, fun _ => ⟨77, by decide⟩⟩
  length := by
    rw [h]
    decide
  fits := by
    rw [h]
    decide

/-- `GET /api/orders/1` -/
def looking : ChunkedParsing.Request where
  requestLine := ascii "GET /api/orders/1 HTTP/1.1"
  headers := []
  body := []
  plain := by unfold LineReading.PlainLine; decide +kernel
  accepted := by decide
  header := fun line hmem => absurd hmem List.not_mem_nil
  length := by decide
  fits := by decide

def bothCopies : ChunkedParsing.Request :=
  placing (OrderRequests.checkoutText 1 [(1, 2), (2, 2)]) (by decide +kernel)

def oneCopy : ChunkedParsing.Request :=
  placing (OrderRequests.checkoutText 2 [(1, 1), (2, 1)]) (by decide +kernel)

def atOnce (request : ChunkedParsing.Request)
    (api : (ascii "/api/").isPrefixOf request.url = true) (h : request.bytes ≠ []) : Exchange :=
  .cutInHead request [] request.bytes api rfl
    (fun hnil => h (List.mem_singleton.mp hnil).symm) (Nat.zero_le _)

def ordersBoth : Exchange := atOnce bothCopies (by decide +kernel) (by decide +kernel)

def ordersOne : Exchange := atOnce oneCopy (by decide +kernel) (by decide +kernel)

def looks : Exchange := atOnce looking (by decide +kernel) (by decide +kernel)

/-- One browser orders two copies of each book and looks at its order, the other one
orders one copy of each. -/
def shopping : Bool → List Exchange
  | false => [ordersBoth, looks]
  | true => [ordersOne]

def wanted (x : Exchange) : OrderAction :=
  if x.request.requestLine = looking.requestLine then .get 1
  else if x.request.body = bothCopies.body then .place 1 [(1, 2), (2, 2)]
  else .place 2 [(1, 1), (2, 1)]

theorem shopping_speaks : Speaks wanted shopping := by
  have hboth : wanted ordersBoth = .place 1 [(1, 2), (2, 2)] := by decide +kernel
  have hone : wanted ordersOne = .place 2 [(1, 1), (2, 1)] := by decide +kernel
  have hlooks : wanted looks = .get 1 := by decide +kernel
  intro i x hx
  cases i with
  | false =>
    simp only [shopping, List.mem_cons, List.not_mem_nil, or_false] at hx
    obtain rfl | rfl := hx
    · rw [hboth]
      exact ⟨⟨by norm_num [OrderRequests.InRange], by norm_num [OrderRequests.InRange],
        List.cons_ne_nil _ _⟩, by decide +kernel, by decide +kernel, rfl⟩
    · rw [hlooks]
      exact ⟨by norm_num [OrderAction.Fits], by decide +kernel, by decide +kernel, rfl⟩
  | true =>
    obtain rfl := List.mem_singleton.mp hx
    rw [hone]
    exact ⟨⟨by norm_num [OrderRequests.InRange], by norm_num [OrderRequests.InRange],
      List.cons_ne_nil _ _⟩, by decide +kernel, by decide +kernel, rfl⟩

def smallServer : Server LocalStore where
  env := ChunkedParsing.bareEnv
  file _ := none
  beyond _ _ := 0
  dispatch := dispatch (handlers (localOrderClient memoryMode.orderService)
    fun _ _ _ => pure .routeNotFound)

theorem shopping_lists : ∀ i, ∀ x ∈ shopping i, wanted x ≠ .list := by
  intro i x _
  unfold wanted
  split
  · exact nofun
  · split <;> exact nofun

theorem shopping_short : ShortReplies smallServer shopping smallStore 8192 := by
  have hkept : Kept 85 (fun _ => True) smallStore :=
    ⟨fun order horder => absurd horder List.not_mem_nil, trivial⟩
  exact short_of_guarded rfl shopping_speaks shopping_lists hkept fun _ => guarded_program

/-- The checkouts meet on the second book. -/
def atTheTill : List (Bool × Event) :=
  [(false, .received bothCopies.bytes), (true, .received oneCopy.bytes)] ++
    List.replicate 4 (false, .worked) ++ List.replicate 4 (true, .worked) ++
    List.replicate 2 (false, .worked) ++ List.replicate 3 (true, .worked) ++
    [(false, .worked), (true, .room 8192), (false, .room 0), (false, .room 8192),
      (false, .received looking.bytes), (false, .worked), (false, .worked), (false, .room 8192)]

theorem atTheTill_runs : (smallServer.execute (World.start smallStore : World LocalStore Bool)
    atTheTill).isSome = true := by
  decide +kernel

def afterwards : World LocalStore Bool := (smallServer.execute (.start smallStore) atTheTill).get
  atTheTill_runs

theorem atTheTill_rooms {i : Bool} {n : ℕ} (h : (i, .room n) ∈ atTheTill) : n = 0 ∨ 8192 ≤ n := by
  simp only [atTheTill, List.mem_append, List.mem_cons, List.mem_replicate, Prod.mk.injEq,
    reduceCtorEq, and_false, false_or, or_false, Event.room.injEq, List.not_mem_nil] at h
  omega

theorem atTheTill_heard (i : Bool) :
    heard i atTheTill <+: (shopping i).flatMap Exchange.chunks := by
  cases i <;> exact ⟨[], by decide +kernel⟩

theorem atTheTill_conducted :
    Conducted smallServer shopping smallStore 8192 atTheTill afterwards where
  exec := (Option.some_get _).symm
  client := atTheTill_heard
  kernel _ _ := atTheTill_rooms

theorem atTheTill_read : ∃ moves c, Interleaving.execute (fun r : Bool × OrderAction =>
      r.2.program (localOrderClient memoryMode.orderService)) ⟨smallStore, []⟩ moves = some c ∧
    c.state = afterwards.store ∧ ∀ i,
      Shown wanted (shopping i) (owned i c.threads) (afterwards.sent i) ∧
      ∀ call ∈ owned i c.threads, ∀ reply, call.2 = .done reply →
        reply.response.statusCode = reply.status ∧ Decodes reply.response.body reply.value :=
  browsers_read_json rfl shopping_speaks (fun order horder => absurd horder List.not_mem_nil)
    (by decide)
    shopping_short atTheTill_conducted

theorem atTheTill_not_oversold : memoryShelf.available afterwards.store 1 = 1 ∧
    memoryShelf.stored afterwards.store 1 = 2 ∧
    Balanced memoryShelf smallStore afterwards := by
  refine ⟨by decide +kernel, by decide +kernel, browsers_never_oversell rfl shopping_speaks ?_ ?_
    (by decide) shopping_short atTheTill_conducted⟩
  · intro i x _ orderId
    unfold wanted
    split
    · exact nofun
    · split <;> exact nofun
  · intro book
    simp only [memoryShelf, MemoryStock.available, smallStore, LocalStore.initial]
    split
    · decide
    · split <;> decide

end Bookstore.OrderSessions
