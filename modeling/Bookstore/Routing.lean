import Bookstore.UrlParams
import Mathlib.Data.List.Basic

/-!
The router of the API: routes without parameters are looked up by method and
path, the others are tried one after the other, segment by segment. A route of
the model carries any kind of handler.
-/
namespace Bookstore.Routing

open HttpTypes UrlParams

variable {η : Type}

/-- `path_params`. -/
abbrev PathParams := List (Bytes × Bytes)

/-- `params[key] = value` -/
def setParam (params : PathParams) (key value : Bytes) : PathParams :=
  if params.any fun p => p.1 = key then params.map fun p => if p.1 = key then (key, value) else p
  else params ++ [(key, value)]

/-- The segments between slashes; empty ones are skipped. -/
def splitPath (path : Bytes) : List Bytes := (splitOn 47 path).filter (· ≠ [])

/-- A segment in braces, with something in them. -/
def isParam (segment : Bytes) : Bool :=
  2 < segment.length && segment.head? == some 123 && segment.getLast? == some 125

def paramName (segment : Bytes) : Bytes := (segment.drop 1).take (segment.length - 2)

def hasParam (parts : List Bytes) : Bool := parts.any isParam

/-- The loop of match_path, on lists of one length. -/
def matchParts (params : PathParams) : List Bytes → List Bytes → Option PathParams
  | p :: pattern, q :: path =>
    if isParam p then matchParts (setParam params (paramName p) q) pattern path
    else if p = q then matchParts params pattern path
    else none
  | _, _ => some params

def matchPath (pattern path : List Bytes) : Option PathParams :=
  if pattern.length ≠ path.length then none else matchParts [] pattern path

structure Route (η : Type) where
  method : HttpMethod
  path : Bytes
  parts : List Bytes
  handler : η

structure Router (η : Type) where
  exactRoutes : List (Route η)
  paramRoutes : HttpMethod → List (Route η)

namespace Router

def empty : Router η := ⟨[], fun _ => []⟩

/-- `none` is the `logic_error` of an exact route that is registered twice. -/
def addRoute (r : Router η) (method : HttpMethod) (path : Bytes) (handler : η) :
    Option (Router η) :=
  let route : Route η := ⟨method, path, splitPath path, handler⟩
  if hasParam route.parts then
    some { r with
      paramRoutes := fun m => if m = method then r.paramRoutes m ++ [route] else r.paramRoutes m }
  else if r.exactRoutes.any fun e => e.method = method ∧ e.path = path then none
  else some { r with exactRoutes := r.exactRoutes ++ [route] }

/-- The handler that a request goes to, and the parameters that it is given. -/
def route (r : Router η) (method : HttpMethod) (path : Bytes) : Option (η × PathParams) :=
  match r.exactRoutes.find? fun e => e.method = method ∧ e.path = path with
  | some e => some (e.handler, [])
  | none => (r.paramRoutes method).findSome? fun e =>
    (matchPath e.parts (splitPath path)).map fun params => (e.handler, params)

end Router

/-! ## Paths made of segments -/

/-- A segment of a path: not empty and without a slash. -/
def Segment (segment : Bytes) : Prop := segment ≠ [] ∧ 47 ∉ segment

/-- The path with these segments. -/
def pathOf (segments : List Bytes) : Bytes := segments.flatMap fun segment => 47 :: segment

theorem splitOn_segment (segment rest : Bytes) (h : 47 ∉ segment) :
    splitOn 47 (segment ++ 47 :: rest) = segment :: splitOn 47 rest := by
  induction segment with
  | nil => simp [splitOn]
  | cons c segment ih =>
    rw [List.mem_cons, not_or] at h
    simp only [List.cons_append, splitOn, Ne.symm h.1, if_false, ih h.2]

theorem splitOn_last (segment : Bytes) (h : 47 ∉ segment) : splitOn 47 segment = [segment] := by
  induction segment with
  | nil => rfl
  | cons c segment ih =>
    rw [List.mem_cons, not_or] at h
    simp only [splitOn, Ne.symm h.1, if_false, ih h.2]

/-- The segments after a first one. -/
theorem splitOn_pathOf (segment : Bytes) (h : 47 ∉ segment) (segments : List Bytes)
    (hall : ∀ s ∈ segments, Segment s) :
    splitOn 47 (segment ++ pathOf segments) = segment :: segments := by
  induction segments generalizing segment with
  | nil => simpa [pathOf] using splitOn_last segment h
  | cons next rest ih =>
    obtain ⟨hnext, hrest⟩ := List.forall_mem_cons.mp hall
    have hpath : pathOf (next :: rest) = 47 :: (next ++ pathOf rest) := by simp [pathOf]
    rw [hpath, splitOn_segment segment _ h, ih next hnext.2 hrest]

theorem splitPath_pathOf (segments : List Bytes) (h : ∀ s ∈ segments, Segment s) :
    splitPath (pathOf segments) = segments := by
  have hsplit := splitOn_pathOf [] (by simp) segments h
  rw [List.nil_append] at hsplit
  rw [splitPath, hsplit, List.filter_cons_of_neg (by simp), List.filter_eq_self]
  intro s hs
  exact decide_eq_true (h s hs).1

/-- The segments and the parameters of a pattern that has been filled. -/
inductive Fills : List Bytes → List Bytes → PathParams → Prop
  | nil : Fills [] [] []
  | literal {p : Bytes} {pattern path : List Bytes} {params : PathParams} :
      isParam p = false → Fills pattern path params → Fills (p :: pattern) (p :: path) params
  | param {p q : Bytes} {pattern path : List Bytes} {params : PathParams} :
      isParam p = true → Fills pattern path params →
      Fills (p :: pattern) (q :: path) ((paramName p, q) :: params)

theorem Fills.length {pattern path : List Bytes} {params : PathParams}
    (h : Fills pattern path params) : pattern.length = path.length := by
  induction h with
  | nil => rfl
  | literal _ _ ih => simp [ih]
  | param _ _ ih => simp [ih]

/-- A pattern matches what fills it, with those parameters. -/
theorem Fills.matchParts {pattern path : List Bytes} {params : PathParams}
    (h : Fills pattern path params) (before : PathParams)
    (hnames : (before ++ params).Pairwise fun p q => p.1 ≠ q.1) :
    Routing.matchParts before pattern path = some (before ++ params) := by
  induction h generalizing before with
  | nil => simp [Routing.matchParts]
  | literal hp _ ih => simpa [Routing.matchParts, hp] using ih before hnames
  | @param p q pattern path params hp _ ih =>
    have hnew : setParam before (paramName p) q = before ++ [(paramName p, q)] := by
      have hfresh : ¬ (before.any fun entry => entry.1 = paramName p) = true := by
        rw [List.any_eq_true]
        rintro ⟨entry, hentry, hsame⟩
        have hdiffers := (List.pairwise_append.mp hnames).2.2 entry hentry (paramName p, q) (by simp)
        exact hdiffers (of_decide_eq_true hsame)
      rw [setParam, if_neg hfresh]
    have hrest := ih (before ++ [(paramName p, q)]) (by simpa using hnames)
    simpa [Routing.matchParts, hp, hnew] using hrest

theorem Fills.matchPath {pattern path : List Bytes} {params : PathParams}
    (h : Fills pattern path params) (hnames : params.Pairwise fun p q => p.1 ≠ q.1) :
    Routing.matchPath pattern path = some params := by
  have hparts := h.matchParts [] (by simpa using hnames)
  rw [Routing.matchPath, if_neg (not_not.mpr h.length)]
  simpa using hparts

/-- A pattern without parameters is filled by itself only. -/
theorem Fills.eq_of_exact {pattern path : List Bytes} {params : PathParams}
    (h : Fills pattern path params) (hexact : hasParam pattern = false) :
    path = pattern ∧ params = [] := by
  induction h with
  | nil => exact ⟨rfl, rfl⟩
  | literal hp _ ih =>
    simp only [hasParam, List.any_cons, hp, Bool.false_or] at hexact
    obtain ⟨hpath, hparams⟩ := ih hexact
    exact ⟨by rw [hpath], hparams⟩
  | param hp _ _ =>
    simp only [hasParam, List.any_cons, hp, Bool.true_or, Bool.true_eq_false] at hexact

/-! ## Tables of routes -/

/-- Two patterns of different lengths, or with different segments at a place
where neither has a parameter. -/
def Clash : List Bytes → List Bytes → Bool
  | p :: pattern, q :: other => !isParam p && !isParam q && p != q || Clash pattern other
  | [], [] => false
  | _, _ => true

/-- What does not match after a segment does not match with it. -/
theorem matchParts_cons_none {pattern path : List Bytes}
    (h : ∀ before, matchParts before pattern path = none) (before : PathParams) (p q : Bytes) :
    matchParts before (p :: pattern) (q :: path) = none := by
  unfold matchParts
  split
  · exact h _
  · split
    · exact h _
    · rfl

theorem Fills.matchParts_clash {pattern path other : List Bytes} {params : PathParams}
    (h : Fills pattern path params) (hclash : Clash pattern other = true)
    (hlength : other.length = path.length) (before : PathParams) :
    Routing.matchParts before other path = none := by
  induction h generalizing other before with
  | nil =>
    rw [List.length_nil] at hlength
    rw [List.eq_nil_of_length_eq_zero hlength] at hclash
    cases hclash
  | @literal p pattern path params hp _ ih =>
    cases other with
    | nil => cases hlength
    | cons q other =>
      simp only [List.length_cons, Nat.add_right_cancel_iff] at hlength
      simp only [Clash, hp, Bool.not_false, Bool.true_and, Bool.or_eq_true, Bool.and_eq_true,
        Bool.not_eq_true', bne_iff_ne] at hclash
      rcases hclash with ⟨hq, hdiffers⟩ | hrest
      · simp only [Routing.matchParts, hq, Bool.false_eq_true, if_false, Ne.symm hdiffers]
      · exact matchParts_cons_none (ih hrest hlength) before q p
  | @param p segment pattern path params hp _ ih =>
    cases other with
    | nil => cases hlength
    | cons q other =>
      simp only [List.length_cons, Nat.add_right_cancel_iff] at hlength
      have hrest : Clash pattern other = true := by simpa [Clash, hp] using hclash
      exact matchParts_cons_none (ih hrest hlength) before q segment

theorem Fills.matchPath_clash {pattern path other : List Bytes} {params : PathParams}
    (h : Fills pattern path params) (hclash : Clash pattern other = true) :
    Routing.matchPath other path = none := by
  by_cases hlength : other.length = path.length
  · rw [Routing.matchPath, if_neg (not_not.mpr hlength), h.matchParts_clash hclash hlength]
  · rw [Routing.matchPath, if_pos hlength]

structure Entry (η : Type) where
  method : HttpMethod
  pattern : Bytes
  handler : η
deriving DecidableEq

namespace Entry

def parts (e : Entry η) : List Bytes := splitPath e.pattern

def toRoute (e : Entry η) : Route η := ⟨e.method, e.pattern, e.parts, e.handler⟩

end Entry

def register (r : Router η) (table : List (Entry η)) : Option (Router η) :=
  table.foldlM (fun r e => r.addRoute e.method e.pattern e.handler) r

/-- A route goes to the exact ones or to those of its method. -/
theorem addRoute_cases {r next : Router η} {e : Entry η}
    (h : r.addRoute e.method e.pattern e.handler = some next) :
    hasParam e.parts = true ∧ next = ⟨r.exactRoutes, fun m =>
      if m = e.method then r.paramRoutes m ++ [e.toRoute] else r.paramRoutes m⟩ ∨
    hasParam e.parts = false ∧ next = ⟨r.exactRoutes ++ [e.toRoute], r.paramRoutes⟩ := by
  unfold Router.addRoute at h
  dsimp only at h
  split at h
  · rename_i hhas
    exact .inl ⟨hhas, (Option.some.inj h).symm⟩
  · rename_i hhas
    split at h
    · cases h
    · exact .inr ⟨eq_false_of_ne_true hhas, (Option.some.inj h).symm⟩

/-- Where the routes of a table are kept. -/
theorem register_spec {r r' : Router η} {table : List (Entry η)}
    (h : register r table = some r') :
    r'.exactRoutes = r.exactRoutes ++ (table.filter fun e => !hasParam e.parts).map Entry.toRoute ∧
      ∀ m, r'.paramRoutes m = r.paramRoutes m ++
        (table.filter fun e => hasParam e.parts && e.method == m).map Entry.toRoute := by
  induction table generalizing r with
  | nil =>
    cases h
    simp
  | cons e rest ih =>
    obtain ⟨next, hadd, hrest⟩ := Option.bind_eq_some_iff.mp h
    obtain ⟨hexact, hparam⟩ := ih hrest
    rcases addRoute_cases hadd with ⟨hhas, rfl⟩ | ⟨hhas, rfl⟩
    · refine ⟨by simpa [hhas] using hexact, fun m => ?_⟩
      rw [hparam m]
      by_cases hm : m = e.method
      · subst hm
        simp [hhas]
      · have hne : (e.method == m) = false := beq_false_of_ne (Ne.symm hm)
        simp [hm, hne]
    · refine ⟨?_, fun m => ?_⟩
      · rw [hexact]
        simp [hhas]
      · rw [hparam m]
        simp [hhas]

/-- No two routes of a table are in each other's way, and every pattern is the
path of its segments. -/
structure Unambiguous (table : List (Entry η)) : Prop where
  distinct : ∀ e ∈ table, ∀ e' ∈ table, e.method = e'.method → e.pattern = e'.pattern → e = e'
  clash : ∀ e ∈ table, ∀ e' ∈ table, e.method = e'.method → e.pattern ≠ e'.pattern →
    hasParam e.parts = true → hasParam e'.parts = true → Clash e.parts e'.parts = true
  canonical : ∀ e ∈ table, pathOf e.parts = e.pattern

theorem findSome?_of_only {α β : Type} {f : α → Option β} {l : List α} {x : α} {y : β}
    (hx : x ∈ l) (hfx : f x = some y) (honly : ∀ x' ∈ l, ∀ y', f x' = some y' → y' = y) :
    l.findSome? f = some y := by
  rcases hfound : l.findSome? f with _ | y'
  · rw [List.findSome?_eq_none_iff] at hfound
    rw [hfound x hx] at hfx
    cases hfx
  · obtain ⟨x', hx', hfx'⟩ := List.exists_of_findSome?_eq_some hfound
    rw [honly x' hx' y' hfx']

section Table

variable {table : List (Entry η)} {r : Router η} {e : Entry η} {segments : List Bytes}
  {params : PathParams}

/-- What a lookup without parameters can find. -/
theorem exact_found (hr : register .empty table = some r) {method : HttpMethod} {path : Bytes}
    {route : Route η}
    (h : r.exactRoutes.find? (fun e => e.method = method ∧ e.path = path) = some route) :
    ∃ e ∈ table, hasParam e.parts = false ∧ e.method = method ∧ e.pattern = path ∧
      route = e.toRoute := by
  obtain ⟨hexact, _⟩ := register_spec hr
  have hmem := List.mem_of_find?_eq_some h
  have hkey := List.find?_some h
  rw [decide_eq_true_eq] at hkey
  rw [hexact] at hmem
  simp only [Router.empty, List.nil_append, List.mem_map, List.mem_filter,
    Bool.not_eq_true'] at hmem
  obtain ⟨e, ⟨he, hnone⟩, rfl⟩ := hmem
  exact ⟨e, he, hnone, hkey.1, hkey.2, rfl⟩

/-- A path that fills a route of the table, and is no other exact route, goes to
that route's handler with the parameters it was filled with. -/
theorem route_filled (hr : register .empty table = some r) (htable : Unambiguous table)
    (he : e ∈ table) (hfill : Fills e.parts segments params)
    (hsegments : ∀ s ∈ segments, Segment s) (hnames : params.Pairwise fun p q => p.1 ≠ q.1)
    (hother : ∀ e' ∈ table, e'.method = e.method → hasParam e'.parts = false →
      e'.pattern = pathOf segments → e' = e) :
    r.route e.method (pathOf segments) = some (e.handler, params) := by
  obtain ⟨hexact, hparam⟩ := register_spec hr
  have hsplit := splitPath_pathOf segments hsegments
  unfold Router.route
  by_cases hhas : hasParam e.parts = true
  · have hnone : r.exactRoutes.find? (fun e' => e'.method = e.method ∧ e'.path = pathOf segments) =
        none := by
      rcases hfound : r.exactRoutes.find? _ with _ | route
      · rfl
      · obtain ⟨e', he', hplain, hmethod, hpattern, _⟩ := exact_found hr hfound
        rw [hother e' he' hmethod hplain hpattern, hhas] at hplain
        cases hplain
    rw [hnone, hparam e.method]
    simp only [Router.empty, List.nil_append]
    refine @findSome?_of_only _ _ _ _ e.toRoute _ ?_ ?_ ?_
    · exact List.mem_map.mpr ⟨e, List.mem_filter.mpr ⟨he, by simp [hhas]⟩, rfl⟩
    · simp only [Entry.toRoute, hsplit, hfill.matchPath hnames, Option.map_some]
    · intro route hroute answer hanswer
      obtain ⟨e', he', rfl⟩ := List.mem_map.mp hroute
      rw [List.mem_filter, Bool.and_eq_true, beq_iff_eq] at he'
      obtain ⟨he', hhas', hmethod⟩ := he'
      by_cases hpattern : e.pattern = e'.pattern
      · rw [← htable.distinct e he e' he' hmethod.symm hpattern] at hanswer
        simp only [Entry.toRoute, hsplit, hfill.matchPath hnames, Option.map_some] at hanswer
        exact (Option.some.inj hanswer).symm
      · have hclash := htable.clash e he e' he' hmethod.symm hpattern hhas hhas'
        simp only [Entry.toRoute, hsplit, hfill.matchPath_clash hclash, Option.map_none] at hanswer
        cases hanswer
  · have hplain : hasParam e.parts = false := by simpa using hhas
    obtain ⟨hpath, hparams⟩ := hfill.eq_of_exact hplain
    have hpattern : e.pattern = pathOf segments := by rw [hpath, htable.canonical e he]
    rcases hfound : r.exactRoutes.find? _ with _ | route
    · rw [List.find?_eq_none] at hfound
      have hmem : e.toRoute ∈ r.exactRoutes := by
        rw [hexact]
        exact List.mem_append_right _ (List.mem_map.mpr ⟨e, List.mem_filter.mpr ⟨he, by
          simp [hplain]⟩, rfl⟩)
      exact absurd (by simp [Entry.toRoute, hpattern]) (hfound e.toRoute hmem)
    · obtain ⟨e', he', hplain', hmethod, hpattern', rfl⟩ := exact_found hr hfound
      rw [hother e' he' hmethod hplain' hpattern', hparams]
      rfl

end Table

end Bookstore.Routing
