import Bookstore.Interleaving
import Bookstore.Sha256
import Mathlib.Logic.Basic

/-!
User accounts: the repository in memory, UserService, and its two clients. The
service hashes a password before the repository sees it. The RPC server checks
the password that it was sent, LocalUserClient does not.
-/
namespace Bookstore.Users

open HttpTypes Interleaving Sha256

variable {σ : Type}

structure User where
  id : Int32
  username : Bytes
deriving DecidableEq, Repr

/-- UserRepository and UserClient declare the same two methods. -/
structure UserRepository (σ : Type) where
  createUser : Bytes → Bytes → Prog σ (Option User)
  authenticate : Bytes → Bytes → Prog σ (Option User)

abbrev UserClient := UserRepository

/-! ## MemoryUserRepository -/

structure MemoryUsers where
  nextUserId : Int32
  usersByName : Bytes → Option User
  passwords : Bytes → Option Bytes

namespace MemoryUsers

def empty : MemoryUsers := ⟨1, fun _ => none, fun _ => none⟩

/-- The entries of a new user in both maps; the id is used up. -/
def insert (username password : Bytes) (s : MemoryUsers) : MemoryUsers where
  nextUserId := s.nextUserId + 1
  usersByName name := if name = username then some ⟨s.nextUserId, username⟩ else s.usersByName name
  passwords name := if name = username then some password else s.passwords name

def createUser (username password : Bytes) (s : MemoryUsers) : Option User × MemoryUsers :=
  if username = [] ∨ password = [] then (none, s)
  else if (s.passwords username).isSome then (none, s)
  else (some ⟨s.nextUserId, username⟩, s.insert username password)

def authenticate (username password : Bytes) (s : MemoryUsers) : Option User :=
  match s.passwords username with
  | none => none
  | some stored => if stored = password then s.usersByName username else none

def repository : UserRepository MemoryUsers where
  createUser username password := .call (createUser username password)
  authenticate username password := .read (authenticate username password)

end MemoryUsers

/-! ## UserService and LocalUserClient -/

section Service

variable (repository : UserRepository σ)

/-- The methods `register_user` and `authenticate` of the service. -/
def userService : UserRepository σ where
  createUser username password := repository.createUser username (sha256Hex password)
  authenticate username password := repository.authenticate username (sha256Hex password)

/-- The client forwards its calls as they are. -/
def localUserClient : UserClient σ := userService repository

end Service

/-! ## UserGrpcServiceImpl -/

inductive UserStatusCode
  | invalidArgument
  | alreadyExists
  | unauthenticated
deriving DecidableEq, Repr

/-- A status other than OK of the user service. -/
structure UserStatus where
  code : UserStatusCode
  message : String
deriving DecidableEq, Repr

abbrev UserRpc (α : Type) := Except UserStatus α

structure UserMessage where
  userId : Int64
  username : Bytes
deriving DecidableEq, Repr

/-- RegisterRequest and LoginRequest have the same fields. -/
structure CredentialsRequest where
  username : Bytes
  password : Bytes

/-- The two methods of the service, as the server implements them and as a
stub offers them. -/
structure UserStub (σ : Type) where
  register : CredentialsRequest → Prog σ (UserRpc UserMessage)
  login : CredentialsRequest → Prog σ (UserRpc UserMessage)

def fillUser (user : User) : UserMessage := ⟨user.id.toInt64, user.username⟩

/-- The user in a response, or the given status where there is none. -/
def respond (status : UserStatus) : Option User → UserRpc UserMessage
  | none => .error status
  | some user => .ok (fillUser user)

section Server

variable (service : UserRepository σ)

def register (request : CredentialsRequest) : Prog σ (UserRpc UserMessage) :=
  if request.username = [] ∨ request.password = [] then
    pure (.error ⟨.invalidArgument, "invalid register request"⟩)
  else do
    let user ← service.createUser request.username request.password
    pure (respond ⟨.alreadyExists, "user exists or invalid"⟩ user)

def login (request : CredentialsRequest) : Prog σ (UserRpc UserMessage) :=
  if request.username = [] ∨ request.password = [] then
    pure (.error ⟨.invalidArgument, "invalid login request"⟩)
  else do
    let user ← service.authenticate request.username request.password
    pure (respond ⟨.unauthenticated, "invalid credentials"⟩ user)

end Server

/-- The server over UserService over a repository. -/
def userServer (repository : UserRepository σ) : UserStub σ where
  register := register (userService repository)
  login := login (userService repository)

/-! ## GrpcUserClient -/

def userFromProto (message : UserMessage) : User := ⟨message.userId.toInt32, message.username⟩

/-- The user in a response, none when the status is not OK. -/
def userOf : UserRpc UserMessage → Option User
  | .ok message => some (userFromProto message)
  | .error _ => none

/-- Responses arrive as they were sent. -/
def grpcUserClient (stub : UserStub σ) : UserClient σ where
  createUser username password := do
    let response ← stub.register ⟨username, password⟩
    pure (userOf response)
  authenticate username password := do
    let response ← stub.login ⟨username, password⟩
    pure (userOf response)

/-- An id survives the way to the client and back. -/
theorem userOf_respond (status : UserStatus) (user : Option User) :
    userOf (respond status user) = user := by
  rcases user with _ | user
  · rfl
  · simp only [respond, userOf, fillUser, userFromProto, Int32.toInt32_toInt64]

end Bookstore.Users
