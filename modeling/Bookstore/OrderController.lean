import Bookstore.ApiRoutes
import Bookstore.OrderRequests
import Bookstore.OrderRpc
import Bookstore.Threads

/-!
The order controllers and the gateway in front of them, as programs on the stores. A
call of a client comes to one call of the order client, and the response shows its
result as JSON.
-/
namespace Bookstore.OrderController

open HttpTypes Interleaving RequestParser Records Decimals JsonFields JsonGrammar JsonResponses
open ApiRoutes OrderMarks OrderRequests OrderRpc Routing Utf8

variable {σ : Type}

/-! ## The handlers -/

/-- `std::atoi`, which goes through `long`. -/
def atoi (text : Bytes) : Int32 :=
  match strtol (HttpConn.cString text) with
  | none => 0
  | some n => Int32.ofInt (max (-2 ^ 63) (min n (2 ^ 63 - 1)))

/-- `path_params.find` -/
def param (params : PathParams) (name : Bytes) : Option Bytes :=
  (params.find? fun p => p.1 = name).map Prod.snd

def missingOrderId : HttpResponse :=
  .json 400 (ascii "\x7b\"code\":400,\"message\":\"missing order_id\",\"data\":null\x7d")

def orderNotFound : HttpResponse :=
  .json 404 (ascii "\x7b\"code\":404,\"message\":\"order not found\",\"data\":null\x7d")

def orderFound (order : Order) : HttpResponse :=
  .json 200 (ascii "\x7b\"code\":0,\"message\":\"ok\",\"data\":\x7b\"order\":" ++
    orderToJson order ++ ascii "\x7d\x7d")

def ordersFound (orders : List Order) : HttpResponse :=
  .json 200 (ascii "\x7b\"code\":0,\"message\":\"ok\",\"data\":\x7b\"orders\":[" ++
    List.intercalate (ascii ",") (orders.map orderToJson) ++ ascii "]\x7d\x7d")

section Handlers

variable (client : OrderClient σ)

/-- `handle_create_order`, as a program. -/
def handleCreateOrder (request : HttpRequest) : Prog σ HttpResponse :=
  match jsonIntValue request.body (ascii "user_id"), jsonOrderItems request.body with
  | none, _ | _, [] => pure invalidOrder
  | some userId, item :: items => do
    let order ← client.createOrder userId (item :: items)
    pure (orderReply order)

def handleListOrders : Prog σ HttpResponse := do
  let orders ← client.listOrders
  pure (ordersFound orders)

/-- The two handlers that take an id from the path. -/
def onOrder (call : Int32 → Prog σ (Option Order)) (params : PathParams) : Prog σ HttpResponse :=
  match param params (ascii "order_id") with
  | none => pure missingOrderId
  | some text => do
    let order ← call (atoi text)
    pure (match order with
      | none => orderNotFound
      | some order => orderFound order)

def handleGetOrder (params : PathParams) : Prog σ HttpResponse := onOrder client.findOrder params

def handleCancelOrder (params : PathParams) : Prog σ HttpResponse :=
  onOrder client.cancelOrder params

/-- The handlers of the gateway, the order controllers among them. -/
def handlers (others : Endpoint → HttpRequest → PathParams → Prog σ HttpResponse) :
    Endpoint → HttpRequest → PathParams → Prog σ HttpResponse
  | .createOrder, request, _ => handleCreateOrder client request
  | .listOrders, _, _ => handleListOrders client
  | .getOrder, _, params => handleGetOrder client params
  | .cancelOrder, _, params => handleCancelOrder client params
  | endpoint, request, params => others endpoint request params

end Handlers

/-- `ApiGateway::dispatch`, with handlers that are programs. -/
def dispatch (handlers : Endpoint → HttpRequest → PathParams → Prog σ HttpResponse)
    (request : HttpRequest) : Prog σ (Option HttpResponse) :=
  match router.route request.method request.path with
  | none => pure none
  | some (endpoint, params) => do
    let response ← handlers endpoint request params
    pure (some response)

/-- One run of the handler is the handler on that run of the client. -/
theorem run_handleCreateOrder (client : OrderClient σ) (request : HttpRequest) (s : σ) :
    (handleCreateOrder client request).run s =
      (OrderRequests.handleCreateOrder request
        fun userId items => (client.createOrder userId items).run : StateM σ HttpResponse).run s := by
  unfold handleCreateOrder OrderRequests.handleCreateOrder
  cases jsonIntValue request.body (ascii "user_id") with
  | none => rfl
  | some userId =>
    cases jsonOrderItems request.body with
    | nil => rfl
    | cons item items => exact Prog.run_bind _ _ s

/-! ## What a client wants -/

/-- The calls of the order API, with the numbers as a client has them. -/
inductive OrderAction
  | place (userId : ℤ) (items : List (ℤ × ℤ))
  | list
  | get (orderId : ℕ)
  | cancel (orderId : ℕ)
deriving DecidableEq

/-- What comes of it. -/
inductive OrderReply
  | created (order : Order)
  | refused
  | found (order : Order)
  | notFound
  | listed (orders : List Order)

def toRequest (item : ℤ × ℤ) : OrderItemRequest := ⟨Int32.ofInt item.1, Int32.ofInt item.2⟩

def ofCreated : Option Order → OrderReply
  | some order => .created order
  | none => .refused

def ofFound : Option Order → OrderReply
  | some order => .found order
  | none => .notFound

namespace OrderAction

/-- Numbers that fit `int`, and something to order. -/
def Fits : OrderAction → Prop
  | .place userId items =>
    InRange userId ∧ (∀ item ∈ items, InRange item.1 ∧ InRange item.2) ∧ items ≠ []
  | .list => True
  | .get orderId | .cancel orderId => orderId < 2 ^ 31

/-- The one call of the order client. -/
def program (client : OrderClient σ) : OrderAction → Prog σ OrderReply
  | .place userId items => do
    let order ← client.createOrder (Int32.ofInt userId) (items.map toRequest)
    pure (ofCreated order)
  | .list => do
    let orders ← client.listOrders
    pure (.listed orders)
  | .get orderId => do
    let order ← client.findOrder (Int32.ofInt orderId)
    pure (ofFound order)
  | .cancel orderId => do
    let order ← client.cancelOrder (Int32.ofInt orderId)
    pure (ofFound order)

def entry : OrderAction → Entry Endpoint
  | .place _ _ => ⟨.post, ascii "/api/orders", .createOrder⟩
  | .list => ⟨.get, ascii "/api/orders", .listOrders⟩
  | .get _ => ⟨.get, ascii "/api/orders/\x7border_id\x7d", .getOrder⟩
  | .cancel _ => ⟨.post, ascii "/api/orders/\x7border_id\x7d/cancel", .cancelOrder⟩

def segments : OrderAction → List Bytes
  | .place _ _ | .list => [ascii "api", ascii "orders"]
  | .get orderId => [ascii "api", ascii "orders", decimal orderId]
  | .cancel orderId => [ascii "api", ascii "orders", decimal orderId, ascii "cancel"]

def params : OrderAction → PathParams
  | .place _ _ | .list => []
  | .get orderId | .cancel orderId => [(ascii "order_id", decimal orderId)]

def body : OrderAction → Bytes
  | .place userId items => checkoutText userId items
  | _ => []

/-- The request says what the client wants. -/
structure SaidBy (action : OrderAction) (request : HttpRequest) : Prop where
  method : request.method = action.entry.method
  path : request.path = pathOf action.segments
  body : request.body = action.body

end OrderAction

/-! ## What the client is shown -/

/-- The members that every response has. -/
def envelope (code : ℤ) (message : String) (data : Json) : Json :=
  .object [("code".toList, .number code), ("message".toList, .string message.toList),
    ("data".toList, data)]

namespace OrderReply

def response : OrderReply → HttpResponse
  | .created order => orderReply (some order)
  | .refused => orderReply none
  | .found order => orderFound order
  | .notFound => orderNotFound
  | .listed orders => ordersFound orders

def status : OrderReply → Int32
  | .created _ => 201
  | .refused => 409
  | .found _ | .listed _ => 200
  | .notFound => 404

def value : OrderReply → Json
  | .created order | .found order => envelope 0 "ok" (.object [("order".toList, orderValue order)])
  | .refused => envelope 409 "insufficient stock or invalid order" .null
  | .notFound => envelope 404 "order not found" .null
  | .listed orders =>
    envelope 0 "ok" (.object [("orders".toList, .array (orders.map orderValue))])

/-- The orders in a reply. -/
def shown : OrderReply → List Order
  | .created order | .found order => [order]
  | .refused | .notFound => []
  | .listed orders => orders

end OrderReply

/-- The text of an envelope. -/
def envelopeText (code message : String) (data : List Char) : List Char :=
  objectText [("code".toList, code.toList), ("message".toList, '"' :: (message.toList ++ ['"'])),
    ("data".toList, data)]

theorem decodes_envelope {code message : String} {n : ℤ} {text : List Char} {data : Json}
    (hcode : code.toList = (toString n).toList)
    (hmessage : message.toList.all
      (fun c => decide (0x20 ≤ c.toNat) && c != '"' && c != '\\') = true)
    (hdata : Derives text (.value data)) :
    Decodes (utf8 (envelopeText code message text)) (envelope n message data) := by
  refine decodes_of_derives (derives_objectText (.cons ⟨chars_plain rfl, ?_⟩
    (.cons ⟨chars_plain rfl, .string (chars_plain hmessage)⟩
    (.cons ⟨chars_plain rfl, hdata⟩ .nil))))
  rw [hcode]
  exact .number (number_toString n)

theorem orderBody_eq (order : Order) :
    ascii "\x7b\"code\":0,\"message\":\"ok\",\"data\":\x7b\"order\":" ++ orderToJson order ++
      ascii "\x7d\x7d" =
    utf8 (envelopeText "0" "ok" (objectText [("order".toList, orderChars order)])) := by
  simp only [ascii, toUTF8_eq, orderToJson_eq, ← utf8_append]
  refine congrArg utf8 ?_
  simp only [envelopeText, objectText, memberText, List.map_cons, List.map_nil,
    List.intercalate_cons_cons, List.intercalate_singleton, List.append_assoc, List.cons_append,
    List.nil_append]
  rfl

theorem ordersBody_eq (orders : List Order) :
    ascii "\x7b\"code\":0,\"message\":\"ok\",\"data\":\x7b\"orders\":[" ++
      List.intercalate (ascii ",") (orders.map orderToJson) ++ ascii "]\x7d\x7d" =
    utf8 (envelopeText "0" "ok"
      (objectText [("orders".toList, arrayText (orders.map orderChars))])) := by
  rw [intercalate_eq orderToJson_eq]
  simp only [ascii, toUTF8_eq, ← utf8_append]
  refine congrArg utf8 ?_
  simp only [envelopeText, objectText, arrayText, memberText, List.map_cons, List.map_nil,
    List.intercalate_cons_cons, List.intercalate_singleton, List.append_assoc, List.cons_append,
    List.nil_append]
  rfl

/-- The body of a response is JSON of the reply. -/
theorem OrderReply.decodes {reply : OrderReply} (h : ∀ order ∈ reply.shown, Clean order.status) :
    reply.response.statusCode = reply.status ∧ Decodes reply.response.body reply.value := by
  have hone : ∀ order : Order, Clean order.status →
      Derives (objectText [("order".toList, orderChars order)])
        (.value (.object [("order".toList, orderValue order)])) := fun order hclean =>
    derives_objectText (.cons ⟨chars_plain rfl, derives_orderChars hclean⟩ .nil)
  refine ⟨by cases reply <;> rfl, ?_⟩
  cases reply with
  | created order =>
    show Decodes (ascii _ ++ orderToJson order ++ ascii _) _
    rw [orderBody_eq]
    exact decodes_envelope rfl rfl (hone order (h order (List.mem_singleton_self order)))
  | found order =>
    show Decodes (ascii _ ++ orderToJson order ++ ascii _) _
    rw [orderBody_eq]
    exact decodes_envelope rfl rfl (hone order (h order (List.mem_singleton_self order)))
  | refused =>
    have htext : (OrderReply.refused).response.body =
        utf8 (envelopeText "409" "insufficient stock or invalid order" ['n', 'u', 'l', 'l']) := by
      show ascii _ = _
      rw [ascii, toUTF8_eq]
      rfl
    rw [htext]
    exact decodes_envelope rfl rfl .null
  | notFound =>
    have htext : (OrderReply.notFound).response.body =
        utf8 (envelopeText "404" "order not found" ['n', 'u', 'l', 'l']) := by
      show ascii _ = _
      rw [ascii, toUTF8_eq]
      rfl
    rw [htext]
    exact decodes_envelope rfl rfl .null
  | listed orders =>
    show Decodes (ascii _ ++ _ ++ ascii _) _
    rw [ordersBody_eq]
    exact decodes_envelope rfl rfl (derives_objectText (.cons ⟨chars_plain rfl,
      derives_arrayText (derives_each fun order horder => derives_orderChars (h order horder))⟩
        .nil))

/-! ## From the request to the call -/

theorem digit_of_decimal {n : ℕ} {b : UInt8} (hb : b ∈ decimal n) :
    isDigit b = true ∧ b ≠ 0 ∧ Printable b := by
  obtain ⟨hlow, hhigh⟩ := mem_decimal hb
  have hle : 48 ≤ b := by
    rw [UInt8.le_iff_toNat_le]
    exact hlow
  have hge : b ≤ 57 := by
    rw [UInt8.le_iff_toNat_le]
    exact hhigh
  refine ⟨by simp [isDigit, hle, hge], ?_, ?_, ?_, ?_, ?_⟩
  · rintro rfl
    simp at hlow
  · rw [UInt8.lt_iff_toNat_lt]
    exact Nat.lt_of_lt_of_le (by decide) hlow
  · rintro rfl
    simp at hhigh
  · rintro rfl
    simp at hlow
  · rintro rfl
    simp at hhigh

theorem decimalValue_decimal (n : ℕ) : decimalValue (decimal n) = n := by
  have hcast : ∀ (digits : Bytes) (v : ℕ),
      digits.foldl (fun (n : ℤ) c => 10 * n + (c.toNat - 48 : ℕ)) v =
        (digits.foldl (fun v b => 10 * v + (b.toNat - 48)) v : ℕ) := by
    intro digits
    induction digits with
    | nil => exact fun _ => rfl
    | cons b digits ih => exact fun v => by simpa using ih (10 * v + (b.toNat - 48))
  rw [decimalValue]
  exact (hcast (decimal n) 0).trans (by rw [value_decimal])

/-- `atoi` reads an id back. -/
theorem atoi_decimal {n : ℕ} (h : n < 2 ^ 31) : atoi (decimal n) = Int32.ofInt n := by
  obtain ⟨b, digits, hdecimal⟩ := List.exists_cons_of_ne_nil (decimal_ne_nil n)
  have hb := digit_of_decimal (n := n) (b := b) (by simp [hdecimal])
  have hstring : HttpConn.cString (decimal n) = decimal n := by
    rw [HttpConn.cString, List.takeWhile_eq_self_iff]
    exact fun b hb => decide_eq_true (digit_of_decimal hb).2.1
  have hspace : (decimal n).dropWhile isSpace = decimal n := by
    rw [hdecimal]
    exact List.dropWhile_cons_of_neg (by
      rw [isSpace_digit hb.1]
      exact Bool.false_ne_true)
  have hsign : ∀ c, isDigit c = false → ((decimal n).head? == some c) = false := by
    intro c hc
    rw [hdecimal, List.head?_cons, beq_eq_false_iff_ne]
    rintro hsame
    rw [Option.some.inj hsame, hc] at hb
    exact absurd hb.1 Bool.false_ne_true
  have hall : (decimal n).takeWhile isDigit = decimal n := by
    rw [List.takeWhile_eq_self_iff]
    exact fun b hb => (digit_of_decimal hb).1
  have hread : strtol (decimal n) = some (n : ℤ) := by
    simp only [strtol, hspace, hsign 45 (by decide), hsign 43 (by decide), Bool.or_self, hall,
      decimal_ne_nil, decimalValue_decimal, Bool.false_eq_true, if_false]
  rw [atoi, hstring, hread]
  refine congrArg Int32.ofInt ?_
  omega

/-- The items that the client has written are the items that are ordered. -/
theorem jsonOrderItems_checkoutText (userId : ℤ) (items : List (ℤ × ℤ)) :
    jsonOrderItems (checkoutText userId items) = items.map toRequest := by
  rw [jsonOrderItems_iff]
  refine ⟨items.map itemMarks, [], ?_, ?_, stuck_nil⟩
  · rw [List.forall₂_map_left_iff, List.forall₂_map_right_iff, List.forall₂_same]
    exact fun item _ => ⟨item.1, item.2, ⟨[], [], by simp, by simp, rfl⟩, rfl⟩
  · rw [marks_checkoutText, List.append_nil]

namespace OrderAction

theorem entry_mem (action : OrderAction) : action.entry ∈ routeTable := by
  cases action <;> simp [entry, routeTable]

theorem fills (action : OrderAction) :
    Fills action.entry.parts action.segments action.params := by
  have hparts : (splitPath (ascii "/api/orders") = [ascii "api", ascii "orders"] ∧
      splitPath (ascii "/api/orders/\x7border_id\x7d") =
        [ascii "api", ascii "orders", ascii "\x7border_id\x7d"] ∧
      splitPath (ascii "/api/orders/\x7border_id\x7d/cancel") =
        [ascii "api", ascii "orders", ascii "\x7border_id\x7d", ascii "cancel"]) ∧
      isParam (ascii "api") = false ∧ isParam (ascii "orders") = false ∧
      isParam (ascii "cancel") = false ∧ isParam (ascii "\x7border_id\x7d") = true ∧
      ascii "order_id" = paramName (ascii "\x7border_id\x7d") := by
    decide
  obtain ⟨⟨hplain, hone, hcancelling⟩, hapi, horders, hcancel, hparam, hname⟩ := hparts
  cases action with
  | place userId items =>
    rw [Entry.parts, entry, hplain]
    exact .literal hapi (.literal horders .nil)
  | list =>
    rw [Entry.parts, entry, hplain]
    exact .literal hapi (.literal horders .nil)
  | get orderId =>
    rw [Entry.parts, entry, hone, params, hname]
    exact .literal hapi (.literal horders (.param hparam .nil))
  | cancel orderId =>
    rw [Entry.parts, entry, hcancelling, params, hname]
    exact .literal hapi (.literal horders (.param hparam (.literal hcancel .nil)))

theorem segments_filling (action : OrderAction) : ∀ s ∈ action.segments, Filling s := by
  refine fills_filling action.fills (routeTable_literals _ action.entry_mem) fun p hp => ?_
  have hfilling (n : ℕ) : Filling (decimal n) :=
    ⟨decimal_ne_nil n, fun b hb => (digit_of_decimal hb).2.2⟩
  cases action with
  | place userId items => exact absurd hp List.not_mem_nil
  | list => exact absurd hp List.not_mem_nil
  | get orderId =>
    rw [List.mem_singleton.mp hp]
    exact hfilling orderId
  | cancel orderId =>
    rw [List.mem_singleton.mp hp]
    exact hfilling orderId

/-- No route without parameters has a path with an id in it. -/
theorem no_other (action : OrderAction) : ∀ e ∈ routeTable, e.method = action.entry.method →
    hasParam e.parts = false → e.pattern = pathOf action.segments → e = action.entry := by
  intro e he hmethod hexact hpattern
  have hparts : e.parts = action.segments := by
    rw [Entry.parts, hpattern, splitPath_pathOf _ fun s hs => (action.segments_filling s hs).segment]
  have hshort : ∀ e ∈ routeTable, hasParam e.parts = false → e.parts.head? = some (ascii "api") →
      e.parts[1]? = some (ascii "orders") → e.parts.length = 2 := by
    decide
  have hunique : ∀ e ∈ routeTable, e.parts = [ascii "api", ascii "orders"] →
      (e.method = .post → e = (place 0 []).entry) ∧ (e.method = .get → e = list.entry) := by
    decide
  cases action with
  | place userId items => exact (hunique e he hparts).1 hmethod
  | list => exact (hunique e he hparts).2 hmethod
  | get orderId =>
    have hlength := hshort e he hexact (by rw [hparts]; rfl) (by rw [hparts]; rfl)
    rw [hparts] at hlength
    cases hlength
  | cancel orderId =>
    have hlength := hshort e he hexact (by rw [hparts]; rfl) (by rw [hparts]; rfl)
    rw [hparts] at hlength
    cases hlength

theorem route (action : OrderAction) {request : HttpRequest} (h : action.SaidBy request) :
    router.route request.method request.path = some (action.entry.handler, action.params) := by
  rw [h.method, h.path]
  exact route_filled register_router routeTable_unambiguous action.entry_mem action.fills
    (fun s hs => (action.segments_filling s hs).segment)
    (fills_distinct action.entry_mem action.fills) action.no_other

end OrderAction

/-- The handlers that take an id make their call with that id. -/
theorem onOrder_decimal (call : Int32 → Prog σ (Option Order)) {n : ℕ} (h : n < 2 ^ 31) :
    onOrder call [(ascii "order_id", decimal n)] =
      (call (Int32.ofInt n) >>= fun order => pure (ofFound order).response) := by
  have hparam : param [(ascii "order_id", decimal n)] (ascii "order_id") = some (decimal n) := by
    simp [param]
  simp only [onOrder, hparam, atoi_decimal h]
  congr 1
  funext order
  cases order <;> rfl

/-- What the client has asked for is what the handler does, and the response shows
what came of it. -/
theorem dispatch_said (client : OrderClient σ)
    (others : Endpoint → HttpRequest → PathParams → Prog σ HttpResponse) {action : OrderAction}
    (hfits : action.Fits) {request : HttpRequest} (h : action.SaidBy request) :
    dispatch (handlers client others) request =
      Threads.translated (some ∘ OrderReply.response) (action.program client) := by
  have hroute := action.route h
  unfold dispatch
  rw [hroute, Threads.translated_eq_bind]
  cases action with
  | place userId items =>
    obtain ⟨-, -, hnonempty⟩ := hfits
    obtain ⟨item, items, rfl⟩ := List.exists_cons_of_ne_nil hnonempty
    have hbody := h.body
    simp only [OrderAction.body] at hbody
    have hread := jsonOrderItems_checkoutText userId (item :: items)
    rw [List.map_cons] at hread
    simp only [OrderAction.entry, handlers, handleCreateOrder, hbody, hread,
      jsonIntValue_checkoutText, OrderAction.program, Prog.bind_assoc]
    congr 1
    funext order
    cases order <;> rfl
  | list =>
    simp only [OrderAction.entry, handlers, handleListOrders, OrderAction.program, Prog.bind_assoc]
    rfl
  | get orderId =>
    simp only [OrderAction.entry, handlers, handleGetOrder, OrderAction.params,
      onOrder_decimal client.findOrder hfits, OrderAction.program, Prog.bind_assoc]
    rfl
  | cancel orderId =>
    simp only [OrderAction.entry, handlers, handleCancelOrder, OrderAction.params,
      onOrder_decimal client.cancelOrder hfits, OrderAction.program, Prog.bind_assoc]
    rfl

/-! ## How long a response is -/

theorem length_signed {z : ℤ} (h : z.natAbs < 10 ^ 10) : (signed z).length ≤ 11 := by
  have hdigits := length_decimal_le (by decide) h
  unfold signed
  split
  · rw [List.length_cons]
    omega
  · omega

theorem length_intText (n : Int32) : (intText n).length ≤ 11 := by
  have hlow := Int32.le_toInt n
  have hhigh := Int32.toInt_lt n
  rw [intText, ascii, toUTF8_toString_int]
  exact length_signed (by omega)

theorem length_itemToJson (item : OrderItem) : (itemToJson item).length ≤ 77 := by
  have hbook := length_intText item.bookId
  have hquantity := length_intText item.quantity
  have hprice := length_intText item.unitPriceCents
  have hconst : (ascii "\x7b\"book_id\":").length = 11 ∧ (ascii ",\"quantity\":").length = 12 ∧
      (ascii ",\"unit_price_cents\":").length = 20 ∧ (ascii "\x7d").length = 1 := by
    decide
  simp only [itemToJson, List.length_append, hconst]
  omega

/-- An item of a checkout takes some room. -/
theorem length_checkoutText (userId : ℤ) (items : List (ℤ × ℤ)) :
    24 * items.length ≤ (checkoutText userId items).length := by
  have hconst : (ascii "\x7b\"book_id\":").length = 11 ∧ (ascii ",\"quantity\":").length = 12 ∧
      (ascii "\x7d").length = 1 := by
    decide
  have hitems : 24 * items.length ≤ (List.intercalate (ascii ",") (items.map itemText)).length := by
    induction items with
    | nil => exact Nat.zero_le _
    | cons item items ih =>
      have hfirst : 24 ≤ (itemText item).length := by
        simp only [itemText, List.length_append, hconst]
        omega
      cases items with
      | nil =>
        rw [List.map_singleton, List.intercalate_singleton]
        exact hfirst
      | cons next items =>
        rw [List.map_cons, List.map_cons, List.intercalate_cons_cons, ← List.map_cons]
        simp only [List.length_append, List.length_cons] at ih ⊢
        omega
  rw [checkoutText]
  simp only [List.length_append]
  omega

theorem length_intercalate {sep : UInt8} {parts : List Bytes} {n : ℕ}
    (h : ∀ part ∈ parts, part.length ≤ n) :
    (List.intercalate [sep] parts).length ≤ (n + 1) * parts.length := by
  induction parts with
  | nil => exact Nat.zero_le _
  | cons part parts ih =>
    obtain ⟨hfirst, hrest⟩ := List.forall_mem_cons.mp h
    have hparts := ih hrest
    rw [List.length_cons, Nat.mul_succ]
    cases parts with
    | nil =>
      rw [List.intercalate_singleton]
      omega
    | cons next parts =>
      rw [List.intercalate_cons_cons]
      simp only [List.length_append, List.length_cons, List.length_nil] at hparts ⊢
      omega

theorem length_orderToJson {order : Order} (h : Listed order) :
    (orderToJson order).length ≤ 98 + 78 * order.items.length := by
  have hid := length_intText order.id
  have huser := length_intText order.userId
  have htotal := length_intText order.totalCents
  have hstatus : (stringText order.status).length ≤ 9 := by
    rcases h with h | h
    · rw [h]
      decide
    · rw [h]
      decide
  have hitems := @length_intercalate 44 (order.items.map itemToJson) 77
    (List.forall_mem_map.mpr fun item _ => length_itemToJson item)
  rw [List.length_map] at hitems
  have hconst : (ascii "\x7b\"id\":").length = 6 ∧ (ascii ",\"user_id\":").length = 11 ∧
      (ascii ",\"status\":\"").length = 11 ∧ (ascii "\",\"total_cents\":").length = 16 ∧
      (ascii ",\"items\":[").length = 10 ∧ (ascii "]\x7d").length = 2 ∧ ascii "," = [44] := by
    decide
  simp only [orderToJson, List.length_append, hconst]
  omega

/-- The head of a response and the lengths of its parts. -/
theorem length_toHttpString {status : Int32} {payload : Bytes} (keepAlive : Bool)
    (hstatus : (toString status.toInt).toUTF8.data.toList.length +
      (reasonPhrase status).length ≤ 24) (hbody : payload.length < 10 ^ 10) :
    ((HttpResponse.json status payload).toHttpString keepAlive).length ≤
      130 + payload.length := by
  have hdigits : (ascii (toString payload.length)).length ≤ 10 := by
    rw [ascii, toUTF8_toString]
    exact length_decimal_le (by decide) hbody
  have hkeep : (ascii (if keepAlive then "keep-alive" else "close")).length ≤ 10 := by
    cases keepAlive <;> decide
  have hconst : (ascii "HTTP/1.1 ").length = 9 ∧ (ascii " ").length = 1 ∧
      (ascii "\r\n").length = 2 ∧ (ascii "Content-Type: ").length = 14 ∧
      (ascii "application/json").length = 16 ∧ (ascii "Content-Length: ").length = 16 ∧
      (ascii "Connection: ").length = 12 := by
    decide
  have hcode : (ascii (toString status.toInt)).length + (reasonPhrase status).length ≤ 24 := hstatus
  simp only [HttpResponse.toHttpString, HttpResponse.json, List.length_append, hconst]
  omega

/-- A response that shows one order at most, of at most `n` items. -/
theorem length_reply {reply : OrderReply} {n : ℕ} (hn : n ≤ 10000)
    (h : ∀ order ∈ reply.shown, Listed order ∧ order.items.length ≤ n)
    (hone : ∀ orders, reply ≠ .listed orders) (keepAlive : Bool) :
    (reply.response.toHttpString keepAlive).length ≤ 300 + 78 * n := by
  have hshow : ∀ order ∈ reply.shown, (ascii
      "\x7b\"code\":0,\"message\":\"ok\",\"data\":\x7b\"order\":" ++ orderToJson order ++
        ascii "\x7d\x7d").length ≤ 141 + 78 * n := by
    intro order horder
    obtain ⟨hlisted, hitems⟩ := h order horder
    have hlength := length_orderToJson hlisted
    have hconst : (ascii "\x7b\"code\":0,\"message\":\"ok\",\"data\":\x7b\"order\":").length = 41 ∧
        (ascii "\x7d\x7d").length = 2 := by
      decide
    simp only [List.length_append, hconst]
    omega
  cases reply with
  | created order =>
    have hbody := hshow order (List.mem_singleton_self order)
    exact (length_toHttpString keepAlive (by decide) (by omega)).trans (by omega)
  | found order =>
    have hbody := hshow order (List.mem_singleton_self order)
    exact (length_toHttpString keepAlive (by decide) (by omega)).trans (by omega)
  | refused =>
    exact (length_toHttpString keepAlive (by decide) (by decide +kernel)).trans
      (Nat.le_trans (by decide +kernel) (Nat.le_add_right 300 _))
  | notFound =>
    exact (length_toHttpString keepAlive (by decide) (by decide +kernel)).trans
      (Nat.le_trans (by decide +kernel) (Nat.le_add_right 300 _))
  | listed orders => exact absurd rfl (hone orders)

end Bookstore.OrderController
