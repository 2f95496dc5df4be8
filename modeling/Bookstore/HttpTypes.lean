/-!
Byte strings and the small types of the HTTP layer. A C++ string or buffer is
the list of its bytes.
-/
namespace Bookstore.HttpTypes

abbrev Bytes := List UInt8

/-- The bytes of a string literal. -/
def ascii (s : String) : Bytes := s.toUTF8.data.toList

def kReadBufSize : Nat := 2048
def kWriteBufSize : Nat := 1024

inductive Method
  | get
  | post
deriving DecidableEq

inductive CheckState
  | requestLine
  | header
  | content
deriving DecidableEq

inductive HttpCode
  | noRequest
  | getRequest
  | badRequest
  | noResource
  | forbiddenRequest
  | fileRequest
  | apiResponse
  | internalError
  | closedConnection
deriving DecidableEq

inductive LineStatus
  | ok
  | bad
  | open
deriving DecidableEq

/-! ## What the router sees and answers -/

inductive HttpMethod
  | get
  | post
  | put
  | patch
  | delete
  | unknown
deriving DecidableEq

structure HttpRequest where
  method : HttpMethod
  path : Bytes
  body : Bytes
  headers : List (Bytes × Bytes)
  queryParams : List (Bytes × Bytes)
deriving DecidableEq

structure HttpResponse where
  statusCode : Int32
  reason : Bytes
  contentType : Bytes
  body : Bytes
deriving DecidableEq

def reasonPhrase (status : Int32) : Bytes :=
  if status = 200 then ascii "OK"
  else if status = 201 then ascii "Created"
  else if status = 400 then ascii "Bad Request"
  else if status = 401 then ascii "Unauthorized"
  else if status = 403 then ascii "Forbidden"
  else if status = 404 then ascii "Not Found"
  else if status = 409 then ascii "Conflict"
  else if status = 500 then ascii "Internal Server Error"
  else if status = 501 then ascii "Not Implemented"
  else if status = 503 then ascii "Service Unavailable"
  else ascii "OK"

namespace HttpResponse

def json (status : Int32) (payload : Bytes) : HttpResponse :=
  ⟨status, reasonPhrase status, ascii "application/json", payload⟩

def toHttpString (r : HttpResponse) (keepAlive : Bool) : Bytes :=
  ascii "HTTP/1.1 " ++ ascii (toString r.statusCode.toInt) ++ ascii " " ++ r.reason ++ ascii "\r\n" ++
    ascii "Content-Type: " ++ r.contentType ++ ascii "\r\n" ++
    ascii "Content-Length: " ++ ascii (toString r.body.length) ++ ascii "\r\n" ++
    ascii "Connection: " ++ ascii (if keepAlive then "keep-alive" else "close") ++ ascii "\r\n" ++
    ascii "\r\n" ++ r.body

/-- The answer of `do_request` when no route matches. -/
def routeNotFound : HttpResponse :=
  json 404 (ascii "\x7b\"code\":404,\"message\":\"api route not found\",\"data\":null\x7d")

end HttpResponse

end Bookstore.HttpTypes
