import ServerUi.Http.Url
import ServerUi.Table
import ServerUi.Text.Character

/-! # Exchanges

A request, the response to it, and the ways in which there is none.  An exchange is a request
together with the meaning of whatever comes back, so what a service says and how it is understood
stand apart from how it is reached.
-/

namespace ServerUi.Http

/-! ## Methods -/

inductive Method where
  | get
  | post
  | put
  | patch
  | delete
  | head
  | options
deriving DecidableEq, Repr

namespace Method

def all : List Method := [.get, .post, .put, .patch, .delete, .head, .options]

def name : Method → String
  | .get => "GET"
  | .post => "POST"
  | .put => "PUT"
  | .patch => "PATCH"
  | .delete => "DELETE"
  | .head => "HEAD"
  | .options => "OPTIONS"

/-- The method that a text names, in any case and with blanks around it. -/
def parse? (raw : String) : Option Method :=
  let wanted := (Text.trimBlank raw.toList).map Char.toUpper
  all.find? fun m => m.name.toList == wanted

end Method

/-! ## Requests and responses -/

structure Request where
  method : Method
  url : String
  /-- Pairs to put behind the query of the address. -/
  query : List (String × String)
  /-- Headers, by their names as written. -/
  headers : Table String
  body : Option String
  /-- How long to wait, in milliseconds. -/
  timeout : Nat

namespace Request

/-- How long is waited where nothing else is said, in milliseconds. -/
def defaultTimeout : Nat := 30000

def ofUrl (method : Method) (url : String) : Request := ⟨method, url, [], ∅, none, defaultTimeout⟩

def withPair (r : Request) (key value : String) : Request :=
  { r with query := r.query ++ [(key, value)] }

/-- The request with a header, in place of the one of that name. -/
def withHeader (r : Request) (name value : String) : Request :=
  { r with headers := r.headers.insert name value }

def withBody (r : Request) (body : String) : Request := { r with body := some body }

def withDocument (r : Request) (body : String) : Request :=
  (r.withHeader "Content-Type" "application/json").withBody body

def withTimeout (r : Request) (milliseconds : Nat) : Request := { r with timeout := milliseconds }

def address? (r : Request) : Option Url := (Url.parse? r.url).map (·.withPairs r.query)

end Request

structure Response where
  status : Nat
  body : String
deriving DecidableEq, Repr

namespace Response

def isSuccess (r : Response) : Bool := 200 ≤ r.status && r.status < 300

/-- The response of a body as received; a byte order mark in front is no part of it. -/
def received (status : Nat) (body : String) : Response :=
  ⟨status, match body.toList with
    | '\ufeff' :: rest => String.ofList rest
    | _ => body⟩

end Response

inductive Failure where
  | request (reason : String)
  | body (reason : String)
  | timeout
  | invalidUrl (url : String)
deriving DecidableEq, Repr

def Failure.message : Failure → String
  | .request reason => s!"HTTP request failed: {reason}"
  | .body reason => s!"Failed to read body: {reason}"
  | .timeout => "Request timed out"
  | .invalidUrl url => s!"Invalid URL: {url}"

/-- A request and the meaning of what comes back. -/
structure Exchange (α : Type) where
  request : Request
  interpret : Except Failure Response → α

/-- Carries out an exchange by a way of sending requests. -/
def Exchange.run {m : Type → Type} [Functor m] {α : Type}
    (send : Request → m (Except Failure Response)) (e : Exchange α) : m α :=
  e.interpret <$> send e.request

end ServerUi.Http
