import Bookstore.ApiRoutes

/-!
Paths with the same segments and other slashes. The lookup without parameters compares
the text of a path, the matcher of the others its segments.
-/
namespace Bookstore.SlashAgreement

open HttpTypes Routing ApiRoutes

variable {η : Type} {table : List (Entry η)} {r : Router η}

/-- The handler of the route without parameters that is registered under this text. -/
def literalHandler (table : List (Entry η)) (method : HttpMethod) (path : Bytes) : Option η :=
  ((table.filter fun e => !hasParam e.parts).find? fun e =>
    e.method = method ∧ e.pattern = path).map Entry.handler

/-- The loop over the routes with parameters. -/
def paramLookup (r : Router η) (method : HttpMethod) (segments : List Bytes) :
    Option (η × PathParams) :=
  (r.paramRoutes method).findSome? fun e =>
    (matchPath e.parts segments).map fun params => (e.handler, params)

theorem exact_handler (hr : register .empty table = some r) (method : HttpMethod) (path : Bytes) :
    (r.exactRoutes.find? fun e => e.method = method ∧ e.path = path).map Route.handler =
      literalHandler table method path := by
  rw [(register_spec hr).1, Router.empty, List.nil_append, List.find?_map,
    Option.map_map, literalHandler]
  rfl

/-- A registered text is answered without parameters, any other by the matcher. -/
theorem route_eq (hr : register .empty table = some r) (method : HttpMethod) (path : Bytes) :
    r.route method path = match literalHandler table method path with
      | some handler => some (handler, [])
      | none => paramLookup r method (splitPath path) := by
  rw [← exact_handler hr, Router.route]
  cases r.exactRoutes.find? fun e => e.method = method ∧ e.path = path <;> rfl

/-! ## What the matcher finds -/

theorem setParam_ne_nil (params : PathParams) (key value : Bytes) :
    setParam params key value ≠ [] := by
  unfold setParam
  split
  · next hany =>
    obtain ⟨p, hp, -⟩ := List.any_eq_true.mp hany
    exact mt List.map_eq_nil_iff.mp (List.ne_nil_of_mem hp)
  · exact List.append_ne_nil_of_right_ne_nil _ (List.cons_ne_nil _ _)

/-- Parameters that are there stay, and a parameter of the pattern adds one. -/
theorem matchParts_ne_nil {before params : PathParams} {pattern path : List Bytes}
    (h : matchParts before pattern path = some params) (hlength : pattern.length = path.length)
    (hsome : before ≠ [] ∨ hasParam pattern = true) : params ≠ [] := by
  induction pattern generalizing before path with
  | nil =>
    cases h
    rcases hsome with hbefore | hparam
    · exact hbefore
    · cases hparam
  | cons p pattern ih =>
    cases path with
    | nil => cases hlength
    | cons q path =>
      have hrest : pattern.length = path.length := Nat.succ.inj hlength
      rw [matchParts] at h
      split at h
      · exact ih h hrest (.inl (setParam_ne_nil _ _ _))
      · next hliteral =>
        split at h
        · refine ih h hrest (hsome.imp_right fun hparam => ?_)
          rw [hasParam, List.any_cons, eq_false_of_ne_true hliteral, Bool.false_or] at hparam
          exact hparam
        · cases h

theorem paramLookup_ne_nil (hr : register .empty table = some r) {method : HttpMethod}
    {segments : List Bytes} {handler : η} {params : PathParams}
    (h : paramLookup r method segments = some (handler, params)) : params ≠ [] := by
  obtain ⟨route, hroute, hmatch⟩ := List.exists_of_findSome?_eq_some h
  obtain ⟨found, hfound, heq⟩ := Option.map_eq_some_iff.mp hmatch
  obtain ⟨-, rfl⟩ := Prod.mk.inj heq
  rw [(register_spec hr).2, Router.empty, List.nil_append] at hroute
  obtain ⟨e, he, rfl⟩ := List.mem_map.mp hroute
  have hparam := (Bool.and_eq_true_iff.mp (List.mem_filter.mp he).2).1
  unfold matchPath at hfound
  split at hfound
  · cases hfound
  · next hlength => exact matchParts_ne_nil hfound (not_not.mp hlength) (.inr hparam)

/-- Two paths with the same segments are dispatched alike exactly when their texts are
registered with the same handler or both not at all. -/
theorem slashes_agree_iff (hr : register .empty table = some r) (method : HttpMethod)
    {path path' : Bytes} (hsplit : splitPath path = splitPath path') :
    r.route method path = r.route method path' ↔
      literalHandler table method path = literalHandler table method path' := by
  have hdiffer {handler : η} {segments : List Bytes} :
      some (handler, []) ≠ paramLookup r method segments :=
    fun h => paramLookup_ne_nil hr h.symm rfl
  rw [route_eq hr, route_eq hr, hsplit]
  cases literalHandler table method path with
  | none =>
    cases literalHandler table method path' with
    | none => exact iff_of_true rfl rfl
    | some handler => exact iff_of_false hdiffer.symm (Option.some_ne_none _).symm
  | some handler =>
    cases literalHandler table method path' with
    | none => exact iff_of_false hdiffer (Option.some_ne_none _)
    | some handler' => rw [Option.some_inj, Option.some_inj, Prod.mk.injEq, and_iff_left rfl]

theorem book_slashes_agree :
    router.route .get (ascii "/api/books/7") = router.route .get (ascii "//api/books//7/") ↔
      literalHandler routeTable .get (ascii "/api/books/7") =
        literalHandler routeTable .get (ascii "//api/books//7/") :=
  slashes_agree_iff register_router .get (by decide)

/-- With a slash behind it, the search is taken for a book. -/
theorem search_slash_differs : ¬ ∀ (table : List (Entry Endpoint)) (r : Router Endpoint),
    register .empty table = some r → ∀ (method : HttpMethod) (path path' : Bytes),
      splitPath path = splitPath path' → r.route method path = r.route method path' := by
  intro h
  have hsplit : splitPath (ascii "/api/books/search") = splitPath (ascii "/api/books/search/") := by
    decide
  have hsame := h routeTable router register_router .get _ _ hsplit
  have hsearch : router.route .get (ascii "/api/books/search") = some (.searchBooks, []) := by
    decide
  have hbook : router.route .get (ascii "/api/books/search/") =
      some (.getBook, [(ascii "book_id", ascii "search")]) := by
    decide
  rw [hsearch, hbook] at hsame
  cases hsame

end Bookstore.SlashAgreement
