import Bookstore.LexicalPaths
import Bookstore.RequestParser

/-!
The files that `do_request` serves. The path is `doc_root_` followed by the URL
as it was received: no step between the two normalises it.
-/
namespace Bookstore.DocumentRoot

open HttpTypes RequestParser RequestParser.HttpConn LexicalPaths

/-! ## Paths -/

def segment (part : Bytes) : Segment Bytes :=
  if part = [] ∨ part = [46] then .here
  else if part = [46, 46] then .up
  else .down part

def segments (path : Bytes) : List (Segment Bytes) := (UrlParams.splitOn 47 path).map segment

/-- The place an absolute path leads to, by its text alone. -/
def place (path : Bytes) : List Bytes := resolve [] (segments path)

theorem place_append (root path : Bytes) :
    place (root ++ 47 :: path) = resolve (place root) (segments (47 :: path)) := by
  rw [place, segments, UrlParams.splitOn_append, List.map_append, resolve_append]
  rfl

theorem cString_append (s t : Bytes) :
    cString (s ++ t) = if 0 ∈ s then cString s else s ++ cString t := by
  induction s with
  | nil => rfl
  | cons c s ih =>
    by_cases hzero : c = 0
    · simp [cString, hzero]
    · have hne : (0 : UInt8) ≠ c := fun h => hzero h.symm
      have hkeep : ∀ u : Bytes, cString (c :: u) = c :: cString u := by
        intro u
        simp [cString, hzero]
      simp only [List.cons_append, hkeep, ih, List.mem_cons, hne, false_or]
      split <;> rfl

/-! ## What the parser accepts -/

theorem parseTarget_slash {rest url : Bytes} (h : parseTarget rest = some url) :
    ∃ path, url = 47 :: path := by
  unfold parseTarget at h
  dsimp only at h
  repeat' split at h
  all_goals cases h
  exact ⟨_, rfl⟩

/-- An accepted URL starts with a slash. -/
theorem url_of_accepted {c d : HttpConn} {text : Bytes}
    (h : c.parseRequestLine text = (.noRequest, d)) : ∃ path, d.url = 47 :: path := by
  unfold HttpConn.parseRequestLine at h
  dsimp only at h
  split at h
  · cases h
  · split at h
    · cases h
    · split at h
      · cases h
      · rename_i url htarget
        cases h
        obtain ⟨path, rfl⟩ := parseTarget_slash htarget
        dsimp only
        split
        · exact ⟨ascii "judge.html", by decide⟩
        · exact ⟨path, rfl⟩

/-! ## What is served -/

theorem realFile_doRequest {env : Env} {c : HttpConn}
    (hstatic : (ascii "/api/").isPrefixOf c.url = false) :
    (c.doRequest env).2.realFile = env.docRoot ++ c.url := by
  unfold HttpConn.doRequest
  rw [hstatic]
  dsimp only
  repeat' split
  all_goals first | rfl | contradiction

/-- A static file stays inside the document root exactly when its URL does not
climb above it, or comes back down to it. -/
theorem serves_below_root_iff (env : Env) (c d e : HttpConn) (text : Bytes)
    (haccepted : c.parseRequestLine text = (.noRequest, d)) (hurl : e.url = d.url)
    (hstatic : (ascii "/api/").isPrefixOf e.url = false) :
    Below (place (cString env.docRoot)) (place (cString (e.doRequest env).2.realFile)) ↔
      0 ∈ env.docRoot ∨
        Returns (place (cString env.docRoot)) (clean (segments (cString e.url))) := by
  obtain ⟨path, hpath⟩ := url_of_accepted haccepted
  rw [realFile_doRequest hstatic, cString_append]
  by_cases hzero : 0 ∈ env.docRoot
  · simp only [hzero, if_true, true_or, iff_true]
    exact List.suffix_rfl
  · have hroot : cString env.docRoot = env.docRoot := by
      have happend := cString_append env.docRoot []
      rw [List.append_nil, if_neg hzero] at happend
      exact happend.trans (List.append_nil _)
    have hcut : cString e.url = 47 :: cString path := by
      rw [hurl, hpath]
      rfl
    simp only [hzero, if_false, false_or]
    rw [hroot, hcut, place_append, below_resolve_iff]

/-! ## Two request lines -/

def emptyDisk (docRoot : Bytes) : Env where
  docRoot := docRoot
  gateway := none
  stat := fun _ => none
  canOpen := fun _ => false
  canMap := fun _ => false

/-- The connection after a request line, as `parse_line` has left it. -/
def afterLine (line : Bytes) : HttpConn := (reset.parseRequestLine (line ++ [0, 0])).2

theorem serves_cart_page :
    Below (place (cString (ascii "/srv/client")))
        (place (cString ((afterLine (ascii "GET /shop/../cart.html HTTP/1.1")).doRequest
          (emptyDisk (ascii "/srv/client"))).2.realFile)) ↔
      0 ∈ ascii "/srv/client" ∨ Returns (place (cString (ascii "/srv/client")))
        (clean (segments (cString (afterLine (ascii "GET /shop/../cart.html HTTP/1.1")).url))) :=
  serves_below_root_iff (emptyDisk (ascii "/srv/client")) reset
    (afterLine (ascii "GET /shop/../cart.html HTTP/1.1"))
    (afterLine (ascii "GET /shop/../cart.html HTTP/1.1"))
    (ascii "GET /shop/../cart.html HTTP/1.1" ++ [0, 0]) (by decide +kernel) rfl (by decide +kernel)

/-- `GET /../../etc/passwd` is accepted and leaves the document root. -/
theorem passwd_outside_root :
    ¬ ∀ (env : Env) (c d : HttpConn) (text : Bytes), c.parseRequestLine text = (.noRequest, d) →
      (ascii "/api/").isPrefixOf d.url = false →
      Below (place (cString env.docRoot)) (place (cString (d.doRequest env).2.realFile)) := by
  intro h
  refine absurd (h (emptyDisk (ascii "/srv/client")) reset
    (afterLine (ascii "GET /../../etc/passwd HTTP/1.1"))
    (ascii "GET /../../etc/passwd HTTP/1.1" ++ [0, 0]) (by decide +kernel) (by decide +kernel)) ?_
  decide +kernel

end Bookstore.DocumentRoot
