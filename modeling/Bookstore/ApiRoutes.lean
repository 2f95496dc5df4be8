import Bookstore.LineReading
import Bookstore.Routing

/-!
The routes that the gateway registers, asked for over the wire. A request line
is written with the method and a path that fills the pattern of a route, and
read by a fresh connection. The parser of the request line knows two of the
methods that routes are registered with.
-/
namespace Bookstore.ApiRoutes

open HttpTypes LineReading RequestParser RequestParser.HttpConn Routing

/-! ## The table -/

/-- The handlers of the gateway. -/
inductive Endpoint
  | health
  | live
  | ready
  | listBooks
  | getBook
  | createBook
  | updateBook
  | searchBooks
  | similarBooks
  | registerUser
  | loginUser
  | getInventory
  | addInventory
  | createOrder
  | listOrders
  | getOrder
  | cancelOrder
deriving DecidableEq

/-- The calls of register_routes. -/
def routeTable : List (Entry Endpoint) :=
  [⟨.get, ascii "/api/health", .health⟩,
    ⟨.get, ascii "/api/live", .live⟩,
    ⟨.get, ascii "/api/ready", .ready⟩,
    ⟨.get, ascii "/api/books", .listBooks⟩,
    ⟨.get, ascii "/api/books/\x7bbook_id\x7d", .getBook⟩,
    ⟨.post, ascii "/api/books", .createBook⟩,
    ⟨.patch, ascii "/api/books/\x7bbook_id\x7d", .updateBook⟩,
    ⟨.get, ascii "/api/books/search", .searchBooks⟩,
    ⟨.get, ascii "/api/books/\x7bbook_id\x7d/similar", .similarBooks⟩,
    ⟨.post, ascii "/api/auth/register", .registerUser⟩,
    ⟨.post, ascii "/api/auth/login", .loginUser⟩,
    ⟨.get, ascii "/api/inventory/books/\x7bbook_id\x7d", .getInventory⟩,
    ⟨.post, ascii "/api/inventory/books/\x7bbook_id\x7d/inbound", .addInventory⟩,
    ⟨.post, ascii "/api/orders", .createOrder⟩,
    ⟨.get, ascii "/api/orders", .listOrders⟩,
    ⟨.get, ascii "/api/orders/\x7border_id\x7d", .getOrder⟩,
    ⟨.post, ascii "/api/orders/\x7border_id\x7d/cancel", .cancelOrder⟩]

theorem registered : (register .empty routeTable).isSome = true := by decide

def router : Router Endpoint := (register .empty routeTable).get registered

theorem register_router : register .empty routeTable = some router :=
  (Option.some_get registered).symm

abbrev Handler := HttpRequest → PathParams → HttpResponse

/-- `ApiGateway::dispatch`. -/
def dispatch (handlers : Endpoint → Handler) (request : HttpRequest) : Option HttpResponse :=
  (router.route request.method request.path).map fun found => handlers found.1 request found.2

theorem routeTable_unambiguous : Unambiguous routeTable where
  distinct := by decide
  clash := by decide
  canonical := by decide

/-- Every pattern starts with `api` and goes on. -/
theorem routeTable_api : ∀ e ∈ routeTable,
    e.parts.head? = some (ascii "api") ∧ isParam (ascii "api") = false ∧ 2 ≤ e.parts.length := by
  decide

theorem routeTable_names : ∀ e ∈ routeTable,
    ((e.parts.filter isParam).map paramName).Nodup := by
  decide

theorem routeTable_methods : ∀ e ∈ routeTable,
    e.method = .get ∨ e.method = .post ∨ e.method = .patch := by
  decide

/-! ## Requests -/

def methodText : HttpMethod → Bytes
  | .get => ascii "GET"
  | .post => ascii "POST"
  | .put => ascii "PUT"
  | .patch => ascii "PATCH"
  | .delete => ascii "DELETE"
  | .unknown => ascii "UNKNOWN"

def requestLine (method : HttpMethod) (path : Bytes) : Bytes :=
  methodText method ++ 32 :: (path ++ ascii " HTTP/1.1")

def requestBytes (method : HttpMethod) (path : Bytes) : Bytes :=
  requestLine method path ++ [13, 10, 13, 10]

/-- No slash, question mark, blank or control byte. -/
def Printable (b : UInt8) : Prop := 32 < b ∧ b ≠ 127 ∧ b ≠ 47 ∧ b ≠ 63

instance (b : UInt8) : Decidable (Printable b) := by
  unfold Printable
  infer_instance

def Filling (segment : Bytes) : Prop := segment ≠ [] ∧ ∀ b ∈ segment, Printable b

instance (segment : Bytes) : Decidable (Filling segment) :=
  @instDecidableAnd _ _ inferInstance (List.decidableBAll Printable segment)

theorem Filling.segment {segment : Bytes} (h : Filling segment) : Segment segment :=
  ⟨h.1, fun hslash => (h.2 47 hslash).2.2.1 rfl⟩

/-- The literal segments of the patterns are of that kind too. -/
theorem routeTable_literals : ∀ e ∈ routeTable, ∀ p ∈ e.parts, isParam p = false → Filling p := by
  decide

/-- The request is answered by the handler of the route, given the request with
this method and path and exactly these parameters. -/
def Reached (e : Entry Endpoint) (path : Bytes) (params : PathParams) : Prop :=
  ∀ (handlers : Endpoint → Handler) (env : Env), env.gateway = some (dispatch handlers) →
    ∃ c, processRead env (HttpConn.reset.receive (requestBytes e.method path)) =
        .ok (.apiResponse, c) ∧
      c.apiResponse =
        (handlers e.handler ⟨e.method, path, [], [], []⟩ params).toHttpString false

/-! ## Reading the request line -/

section RequestLine

variable {path : Bytes}

/-- A path that a request line can hold: it starts with a slash, and has no
blank, no question mark and no line end. -/
structure Target (path : Bytes) : Prop where
  slash : path.head? = some 47
  longer : path.length ≠ 1
  blank : ∀ b ∈ path, isBlank b = false
  query : 63 ∉ path
  eol : ∀ b ∈ path, isEol b = false

/-- A URL that a request line can hold: the same, but that a query may follow. -/
structure Address (url : Bytes) : Prop where
  slash : url.head? = some 47
  longer : url.length ≠ 1
  blank : ∀ b ∈ url, isBlank b = false
  eol : ∀ b ∈ url, isEol b = false

theorem Target.address (h : Target path) : Address path := ⟨h.slash, h.longer, h.blank, h.eol⟩

theorem Address.stripScheme (h : Address path) : stripScheme path = some path := by
  obtain ⟨rest, rfl⟩ := List.head?_eq_some_iff.mp h.slash
  have hhttp : sameNoCase (47 :: rest) (ascii "http://") = false := rfl
  have hhttps : sameNoCase (47 :: rest) (ascii "https://") = false := rfl
  simp only [HttpConn.stripScheme, hhttp, hhttps, Bool.and_false, Bool.false_eq_true, if_false]

theorem Address.parseTarget (h : Address path) :
    parseTarget (32 :: (path ++ ascii " HTTP/1.1") ++ [0, 0]) = some path := by
  obtain ⟨rest, rfl⟩ := List.head?_eq_some_iff.mp h.slash
  have hversion : ascii " HTTP/1.1" = 32 :: ascii "HTTP/1.1" := by decide
  have hplain : ∀ b ∈ 47 :: rest, (!isBlank b) = true := by
    intro b hb
    rw [h.blank b hb]
    rfl
  have hurl : (32 :: (47 :: rest ++ ascii " HTTP/1.1") ++ [0, 0]).dropWhile isBlank =
      47 :: rest ++ 32 :: (ascii "HTTP/1.1" ++ [0, 0]) := by
    rw [hversion]
    simp [isBlank]
  have htake : (47 :: rest ++ 32 :: (ascii "HTTP/1.1" ++ [0, 0])).takeWhile (fun b => !isBlank b) =
      47 :: rest := by
    rw [List.takeWhile_append_of_pos hplain]
    simp [isBlank]
  have hdrop : (47 :: rest ++ 32 :: (ascii "HTTP/1.1" ++ [0, 0])).dropWhile (fun b => !isBlank b) =
      32 :: (ascii "HTTP/1.1" ++ [0, 0]) := by
    rw [List.dropWhile_append_of_pos hplain]
    simp [isBlank]
  have hskip : (32 :: (ascii "HTTP/1.1" ++ [0, 0])).dropWhile isBlank =
      ascii "HTTP/1.1" ++ [0, 0] := by
    decide
  have hsame : sameNoCase (ascii "HTTP/1.1" ++ [0, 0]) (ascii "HTTP/1.1") = true := by
    decide
  have hnonempty : ascii "HTTP/1.1" ++ [0, 0] ≠ [] := by decide
  unfold HttpConn.parseTarget
  simp only [hurl, htake, hdrop, hskip, hsame, h.stripScheme, if_true, hnonempty]
  simp

theorem none_of_any {p : UInt8 → Bool} {text : Bytes} (h : text.any p = false) :
    ∀ b ∈ text, p b = false := by
  intro b hb
  exact eq_false_of_ne_true (List.any_eq_false.mp h b hb)

theorem methodText_plain (method : HttpMethod) : (∀ b ∈ methodText method, isBlank b = false) ∧
    ∀ b ∈ methodText method, isEol b = false := by
  constructor
  · apply none_of_any
    cases method <;> decide
  · apply none_of_any
    cases method <;> decide

theorem takeWhile_method (method : HttpMethod) (rest : Bytes) :
    (methodText method ++ 32 :: rest).takeWhile (fun b => !isBlank b) = methodText method ∧
      (methodText method ++ 32 :: rest).dropWhile (fun b => !isBlank b) = 32 :: rest := by
  have hplain : ∀ b ∈ methodText method, (!isBlank b) = true := by
    intro b hb
    rw [(methodText_plain method).1 b hb]
    rfl
  constructor
  · rw [List.takeWhile_append_of_pos hplain]
    simp [isBlank]
  · rw [List.dropWhile_append_of_pos hplain]
    simp [isBlank]

theorem requestLine_append (method : HttpMethod) (path : Bytes) :
    requestLine method path ++ [0, 0] =
      methodText method ++ 32 :: ((path ++ ascii " HTTP/1.1") ++ [0, 0]) := by
  simp [requestLine]

theorem parseRequestLine_known (h : Address path) {method : HttpMethod} {m : Method}
    (hmethod : parseMethod (methodText method) = some m) (c : HttpConn) :
    c.parseRequestLine (requestLine method path ++ [0, 0]) =
      (.noRequest, { c with
        method := m
        url := path
        checkState := .header }) := by
  rw [requestLine_append]
  obtain ⟨htake, hdrop⟩ := takeWhile_method method ((path ++ ascii " HTTP/1.1") ++ [0, 0])
  have htarget := h.parseTarget
  rw [List.cons_append] at htarget
  simp only [HttpConn.parseRequestLine, htake, hdrop, hmethod, htarget, h.longer, if_false,
    reduceCtorEq]

theorem parseRequestLine_unknown {method : HttpMethod}
    (hmethod : parseMethod (methodText method) = none) (c : HttpConn) (path : Bytes) :
    c.parseRequestLine (requestLine method path ++ [0, 0]) = (.badRequest, c) := by
  rw [requestLine_append]
  obtain ⟨htake, hdrop⟩ := takeWhile_method method ((path ++ ascii " HTTP/1.1") ++ [0, 0])
  simp only [HttpConn.parseRequestLine, htake, hdrop, hmethod, if_false, reduceCtorEq]

theorem requestLine_plain (h : Address path) (method : HttpMethod) :
    PlainLine (requestLine method path) := by
  have hversion := @none_of_any isEol (ascii " HTTP/1.1") (by decide)
  intro b hb
  simp only [requestLine, List.mem_append, List.mem_cons] at hb
  rcases hb with hb | rfl | hb | hb
  · exact (methodText_plain method).2 b hb
  · rfl
  · exact h.eol b hb
  · exact hversion b hb

end RequestLine

/-! ## Reading the request -/

section Reading

variable {env : Env} {path : Bytes} {method : HttpMethod}

/-- The connection that answers a request of a known method. -/
def answering (m : Method) (method : HttpMethod) (path : Bytes) : HttpConn :=
  passed
    { passed .reset (requestLine method path) with
      method := m
      url := path
      checkState := .header }
    []

theorem requestBytes_lines (method : HttpMethod) (path : Bytes) :
    requestBytes method path = requestLine method path ++ 13 :: 10 :: [13, 10] := rfl

theorem processRead_known (h : Target path) {m : Method}
    (hmethod : parseMethod (methodText method) = some m) :
    processRead env (HttpConn.reset.receive (requestBytes method path)) =
      .ok ((answering m method path).doRequest env) := by
  let d : HttpConn := { passed .reset (requestLine method path) with
      method := m
      url := path
      checkState := .header }
  have hhandle : (endedBy .reset (requestLine method path)).handleLine env = .inl (d, .ok) := by
    have hparse := parseRequestLine_known h.address hmethod (passed .reset (requestLine method path))
    unfold HttpConn.handleLine
    dsimp only
    rw [getLine_endedBy allHandled_reset]
    unfold passed at hparse
    split
    · rw [hparse]
      rfl
    · rename_i hother
      cases hother
    · rename_i hother
      cases hother
  rw [requestBytes_lines,
    processRead_line allHandled_reset reset_not_content (requestLine_plain h.address method) hhandle]
  exact @processRead_blank env d ⟨rfl, rfl⟩ rfl rfl

theorem processRead_unknown (h : Target path) (hmethod : parseMethod (methodText method) = none) :
    ∃ c, processRead env (HttpConn.reset.receive (requestBytes method path)) =
      .ok (.badRequest, c) := by
  have hhandles : Handles (HttpConn.reset.receive (requestBytes method path), .ok)
      ((endedBy .reset (requestLine method path)).receive [13, 10]) := by
    unfold Handles
    rw [if_neg fun hcontent => reset_not_content hcontent.1, requestBytes_lines]
    exact parseLine_line allHandled_reset (requestLine_plain h.address method) [13, 10]
  have hhandle : ((endedBy .reset (requestLine method path)).receive [13, 10]).handleLine env =
      .inr (.ok (.badRequest, (passed .reset (requestLine method path)).receive [13, 10])) := by
    have hline := @getLine_receive (endedBy .reset (requestLine method path)) (Nat.le_refl _)
      [13, 10]
    have hparse := parseRequestLine_unknown hmethod
      ((passed .reset (requestLine method path)).receive [13, 10]) path
    unfold HttpConn.handleLine
    dsimp only
    rw [hline, getLine_endedBy allHandled_reset]
    unfold passed at hparse ⊢
    unfold HttpConn.receive at hparse ⊢
    split
    · rw [hparse]
      rfl
    · rename_i hother
      cases hother
    · rename_i hother
      cases hother
  exact ⟨_, Loops.Loop.run_of_leaves ((turn_of_handles hhandles).trans hhandle)⟩

/-- A path under the API is answered by the gateway. -/
theorem doRequest_answering {m : Method} {dispatch : HttpRequest → Option HttpResponse}
    (h : Target path) (hgateway : env.gateway = some dispatch)
    (hapi : (ascii "/api/").isPrefixOf path = true) :
    ∃ c, (answering m method path).doRequest env = (.apiResponse, c) ∧ c.apiResponse =
      ((dispatch ⟨toApiMethod m, path, [], [], []⟩).getD .routeNotFound).toHttpString false := by
  have hrequest : (answering m method path).apiRequest = ⟨toApiMethod m, path, [], [], []⟩ := by
    have hsplit : UrlParams.splitPathAndQuery path = (path, []) := by
      rw [UrlParams.splitPathAndQuery, if_neg h.query]
    have hurl : (answering m method path).url = path := rfl
    simp only [HttpConn.apiRequest, hurl, hsplit]
    rfl
  have hurl : (answering m method path).url = path := rfl
  simp only [HttpConn.doRequest, hurl, hapi, if_true, hgateway, hrequest]
  exact ⟨_, rfl, rfl⟩

end Reading

/-! ## Filled patterns -/

/-- The names of the parameters are those of the pattern. -/
theorem fills_names {pattern segments : List Bytes} {params : PathParams}
    (h : Fills pattern segments params) :
    params.map Prod.fst = (pattern.filter isParam).map paramName := by
  induction h with
  | nil => rfl
  | literal hp _ ih => simp [hp, ih]
  | param hp _ ih => simp [hp, ih]

theorem fills_filling {pattern segments : List Bytes} {params : PathParams}
    (h : Fills pattern segments params)
    (hliterals : ∀ p ∈ pattern, isParam p = false → Filling p)
    (hvalues : ∀ p ∈ params, Filling p.2) : ∀ s ∈ segments, Filling s := by
  induction h with
  | nil => simp
  | literal hp _ ih =>
    obtain ⟨hfirst, hrest⟩ := List.forall_mem_cons.mp hliterals
    exact List.forall_mem_cons.mpr ⟨hfirst hp, ih hrest hvalues⟩
  | param _ _ ih =>
    obtain ⟨_, hrest⟩ := List.forall_mem_cons.mp hliterals
    obtain ⟨hvalue, hvalues⟩ := List.forall_mem_cons.mp hvalues
    exact List.forall_mem_cons.mpr ⟨hvalue, ih hrest hvalues⟩

theorem printable_facts : ∀ b, Printable b → isBlank b = false ∧ isEol b = false ∧ b ≠ 63 := by
  have hall : ∀ n : Fin 256, Printable (UInt8.ofFin n) →
      isBlank (UInt8.ofFin n) = false ∧ isEol (UInt8.ofFin n) = false ∧ UInt8.ofFin n ≠ 63 := by
    decide +kernel
  intro b
  exact hall b.toFin

/-- A path of such segments can stand in a request line. -/
theorem target_pathOf {segments : List Bytes} (h : ∀ s ∈ segments, Filling s)
    (hne : segments ≠ []) : Target (pathOf segments) := by
  have hbytes : ∀ b ∈ pathOf segments, b = 47 ∨ Printable b := by
    intro b hb
    obtain ⟨segment, hsegment, hmem⟩ := List.mem_flatMap.mp hb
    rcases List.mem_cons.mp hmem with rfl | hmem
    · exact .inl rfl
    · exact .inr ((h segment hsegment).2 b hmem)
  have hfacts : ∀ b ∈ pathOf segments, isBlank b = false ∧ isEol b = false ∧ b ≠ 63 := by
    intro b hb
    rcases hbytes b hb with rfl | hprintable
    · decide
    · exact printable_facts b hprintable
  obtain ⟨first, rest, rfl⟩ := List.exists_cons_of_ne_nil hne
  refine ⟨rfl, ?_, fun b hb => (hfacts b hb).1, fun hq => (hfacts 63 hq).2.2 rfl,
    fun b hb => (hfacts b hb).2.1⟩
  have hfirst := List.length_pos_iff.mpr (h first (by simp)).1
  simp only [pathOf, List.flatMap_cons, List.length_append, List.length_cons]
  omega

/-- A pattern under the API is filled by a path under the API. -/
theorem fills_api {pattern segments : List Bytes} {params : PathParams}
    (h : Fills pattern segments params) (hhead : pattern.head? = some (ascii "api"))
    (hliteral : isParam (ascii "api") = false) (hlength : 2 ≤ pattern.length) :
    (ascii "/api/").isPrefixOf (pathOf segments) = true ∧ segments ≠ [] := by
  cases h with
  | nil => cases hhead
  | param hp _ =>
    rw [← Option.some.inj hhead, hp] at hliteral
    cases hliteral
  | @literal p pattern path params hp hrest =>
    obtain rfl := Option.some.inj hhead
    refine ⟨?_, by simp⟩
    have hpath := hrest.length
    simp only [List.length_cons] at hlength
    obtain ⟨next, more, rfl⟩ := List.exists_cons_of_ne_nil
      (List.length_pos_iff.mp (show 0 < path.length by omega))
    rw [List.isPrefixOf_iff_prefix]
    have hslash : ascii "/api/" = 47 :: ascii "api" ++ [47] := by decide
    refine ⟨next ++ pathOf more, ?_⟩
    rw [hslash]
    simp [pathOf]

/-! ## Routes over the wire -/

section Reaching

variable {e : Entry Endpoint} {segments : List Bytes} {params : PathParams}

/-- Two parameters of a route have different names. -/
theorem fills_distinct (he : e ∈ routeTable) (hfill : Fills e.parts segments params) :
    params.Pairwise fun p q => p.1 ≠ q.1 := by
  have hnames := routeTable_names e he
  rw [← fills_names hfill] at hnames
  exact List.pairwise_map.mp hnames

theorem dispatch_filled (he : e ∈ routeTable) (hfill : Fills e.parts segments params)
    (hsegments : ∀ s ∈ segments, Filling s)
    (hother : ∀ e' ∈ routeTable, e'.method = e.method → hasParam e'.parts = false →
      e'.pattern = pathOf segments → e' = e)
    (handlers : Endpoint → Handler) {request : HttpRequest} (hmethod : request.method = e.method)
    (hpath : request.path = pathOf segments) :
    dispatch handlers request = some (handlers e.handler request params) := by
  have hroute := route_filled register_router routeTable_unambiguous he hfill
    (fun s hs => (hsegments s hs).segment) (fills_distinct he hfill) hother
  rw [dispatch, hmethod, hpath, hroute, Option.map_some]

/-- A route of a method that the parser knows is reached. -/
theorem reached_of_known (he : e ∈ routeTable) (hfill : Fills e.parts segments params)
    (hsegments : ∀ s ∈ segments, Filling s)
    (hother : ∀ e' ∈ routeTable, e'.method = e.method → hasParam e'.parts = false →
      e'.pattern = pathOf segments → e' = e)
    {m : Method} (hparse : parseMethod (methodText e.method) = some m)
    (hmethod : toApiMethod m = e.method) : Reached e (pathOf segments) params := by
  intro handlers env hgateway
  obtain ⟨hhead, hliteral, hlength⟩ := routeTable_api e he
  obtain ⟨hapi, hne⟩ := fills_api hfill hhead hliteral hlength
  have htarget := target_pathOf hsegments hne
  obtain ⟨c, hanswer, hresponse⟩ := @doRequest_answering env _ e.method m _ htarget hgateway hapi
  refine ⟨c, ?_, ?_⟩
  · rw [processRead_known htarget hparse, hanswer]
  · rw [hresponse, dispatch_filled he hfill hsegments hother handlers hmethod rfl, hmethod]
    rfl

/-- A route of a method that the parser does not know is a bad request. -/
theorem not_reached_of_unknown (he : e ∈ routeTable) (hfill : Fills e.parts segments params)
    (hsegments : ∀ s ∈ segments, Filling s)
    (hparse : parseMethod (methodText e.method) = none) : ¬ Reached e (pathOf segments) params := by
  intro hreached
  obtain ⟨hhead, hliteral, hlength⟩ := routeTable_api e he
  obtain ⟨-, hne⟩ := fills_api hfill hhead hliteral hlength
  let handlers : Endpoint → Handler := fun _ _ _ => .routeNotFound
  let env : Env := ⟨[], some (dispatch handlers), fun _ => none, fun _ => false, fun _ => false⟩
  obtain ⟨c, hanswer, -⟩ := hreached handlers env rfl
  obtain ⟨d, hbad⟩ := @processRead_unknown env _ _ (target_pathOf hsegments hne) hparse
  rw [hbad] at hanswer
  cases hanswer

/-- A registered route is reached over the wire, by every path that fills its
pattern, just when it is not one of PATCH. -/
theorem route_reached_iff (he : e ∈ routeTable) (hfill : Fills e.parts segments params)
    (hvalues : ∀ p ∈ params, Filling p.2)
    (hother : ∀ e' ∈ routeTable, e'.method = e.method → hasParam e'.parts = false →
      e'.pattern = pathOf segments → e' = e) :
    Reached e (pathOf segments) params ↔ e.method ≠ .patch := by
  have hsegments := fills_filling hfill (routeTable_literals e he) hvalues
  constructor
  · intro hreached hpatch
    have hparse : parseMethod (methodText e.method) = none := by
      rw [hpatch]
      decide
    exact not_reached_of_unknown he hfill hsegments hparse hreached
  · intro hpatch
    rcases routeTable_methods e he with hget | hpost | hother'
    · refine reached_of_known he hfill hsegments hother (m := .get) ?_ hget.symm
      rw [hget]
      decide
    · refine reached_of_known he hfill hsegments hother (m := .post) ?_ hpost.symm
      rw [hpost]
      decide
    · exact absurd hother' hpatch

end Reaching

/-- `GET /api/books/{book_id}` -/
def getBookRoute : Entry Endpoint := ⟨.get, ascii "/api/books/\x7bbook_id\x7d", .getBook⟩

/-- `PATCH /api/books/{book_id}` -/
def updateBookRoute : Entry Endpoint := ⟨.patch, ascii "/api/books/\x7bbook_id\x7d", .updateBook⟩

def bookSegments : List Bytes := [ascii "api", ascii "books", ascii "7"]

def bookParams : PathParams := [(ascii "book_id", ascii "7")]

theorem book_fills : Fills getBookRoute.parts bookSegments bookParams ∧
    Fills updateBookRoute.parts bookSegments bookParams := by
  have hparts : getBookRoute.parts = [ascii "api", ascii "books", ascii "\x7bbook_id\x7d"] ∧
      updateBookRoute.parts = [ascii "api", ascii "books", ascii "\x7bbook_id\x7d"] ∧
      isParam (ascii "api") = false ∧ isParam (ascii "books") = false ∧
      isParam (ascii "\x7bbook_id\x7d") = true ∧
      ascii "book_id" = paramName (ascii "\x7bbook_id\x7d") := by
    decide
  obtain ⟨hget, hupdate, hapi, hbooks, hparam, hname⟩ := hparts
  rw [hget, hupdate, bookParams, hname]
  exact ⟨.literal hapi (.literal hbooks (.param hparam .nil)),
    .literal hapi (.literal hbooks (.param hparam .nil))⟩

theorem book_values : (∀ p ∈ bookParams, Filling p.2) ∧
    ∀ e ∈ [getBookRoute, updateBookRoute], e ∈ routeTable ∧
      ∀ e' ∈ routeTable, e'.method = e.method → hasParam e'.parts = false →
        e'.pattern = pathOf bookSegments → e' = e := by
  decide

theorem get_book_reached : Reached getBookRoute (ascii "/api/books/7") bookParams := by
  obtain ⟨he, hother⟩ := book_values.2 getBookRoute (by simp)
  have hpath : ascii "/api/books/7" = pathOf bookSegments := by decide
  rw [hpath]
  exact (route_reached_iff he book_fills.1 book_values.1 hother).mpr (by decide)

/-- The route that updates a book is registered, and a request for it is bad. -/
theorem update_book_refused :
    updateBookRoute ∈ routeTable ∧ Fills updateBookRoute.parts bookSegments bookParams ∧
      (∀ p ∈ bookParams, Filling p.2) ∧
      (∀ e' ∈ routeTable, e'.method = updateBookRoute.method → hasParam e'.parts = false →
        e'.pattern = pathOf bookSegments → e' = updateBookRoute) ∧
      requestBytes updateBookRoute.method (pathOf bookSegments) =
        ascii "PATCH /api/books/7 HTTP/1.1" ++ [13, 10, 13, 10] ∧
      ¬ Reached updateBookRoute (pathOf bookSegments) bookParams := by
  obtain ⟨he, hother⟩ := book_values.2 updateBookRoute (by simp)
  have hsegments : ∀ s ∈ bookSegments, Filling s := by decide
  refine ⟨he, book_fills.2, book_values.1, hother, by decide, ?_⟩
  exact not_reached_of_unknown he book_fills.2 hsegments (by decide)

end Bookstore.ApiRoutes
