import ServerUi.Chat
import ServerUi.Http.Exchange
import ServerUi.Json.Tree
import ServerUi.Session
import ServerUi.Validation.Step

/-! # Services

What is asked of the world, and how its answers are understood.  A message is posted to the address
of its app, and a successful response holds the reply; the model that a message asks for is named in
the query, and where it asks for none, the service's own is.  Code is posted to the validation
service, which answers one of two questions at a time: an answer to the first says whether the code
is valid, an answer to the second carries what the code was turned into, and the question that was
not answered counts as failed.  The response to the request of an action is read as a document where
it is one and taken as text where it is none, and it finds its way back to the session by the
generation of its request.
-/

namespace ServerUi.Service

open ServerUi.Http (Request Response Exchange)
open ServerUi.Json (Document Record Tree)
open ServerUi.Validation (Verdict ValidatorError)

/-! ## Chat -/

structure Chat where
  baseUrl : String
  /-- The model named for a message that names none. -/
  model : Option String
  /-- How long to wait for a reply, in milliseconds. -/
  timeout : Nat

namespace Chat

def withoutSlashes (s : String) : String :=
  String.ofList (s.toList.reverse.dropWhile (· == '/')).reverse

/-- The address of an app, without a query. -/
def url (c : Chat) (app : String) : String := s!"{withoutSlashes c.baseUrl}/{app}/chat"

def request (c : Chat) (m : Chat.Message) : Request :=
  let r := ((Request.ofUrl .post (c.url m.app)).withDocument m.encode).withTimeout c.timeout
  match m.model.or c.model with
  | some model => r.withPair "model" model
  | none => r

/-- What came back, understood as a reply. -/
def interpret : Except Http.Failure Response → Except Chat.Failure Chat.Reply
  | .error e => .error (.transport e.message)
  | .ok r =>
    if r.isSuccess then
      match Chat.Reply.decode r.body with
      | some reply => .ok reply
      | none => .error (.decode "not a reply")
    else .error (.status r.status r.body)

def exchange (c : Chat) (m : Chat.Message) : Exchange (Except Chat.Failure Chat.Reply) :=
  ⟨c.request m, interpret⟩

end Chat

/-! ## Validation -/

structure Finding where
  /-- The answer to the first question. -/
  isValid : Option Bool
  /-- Was the code turned into a document? -/
  hasDocument : Bool
  /-- Did the code bring a state of its own? -/
  hasState : Bool
deriving DecidableEq, Repr

namespace Finding

def nothing : Finding := ⟨none, false, false⟩

/-- A document that is there or not; what is there must be readable. -/
def presence (r : Record) (name : String) : Option Bool :=
  (r.optional name Tree.ofDocument).map (·.isSome)

def ofDocument (d : Document) : Option Finding := do
  let r ← Record.ofDocument [.defaulted "isValid", .defaulted "json", .defaulted "stateManager"] d
  let isValid ← r.optional "isValid" (·.bool?)
  let hasDocument ← presence r "json"
  let hasState ← presence r "stateManager"
  pure ⟨isValid, hasDocument, hasState⟩

/-- The verdict on both questions.  The question that the finding does not answer counts as
failed. -/
def verdict (f : Finding) : Except ValidatorError Verdict :=
  match f.isValid with
  | some valid => .ok ⟨valid, false⟩
  | none =>
    if f.hasDocument || f.hasState then .ok ⟨false, f.hasDocument⟩
    else .error .unexpectedPayload

end Finding

structure ValidatorReply where
  success : Bool
  finding : Finding
deriving DecidableEq, Repr

namespace ValidatorReply

def ofDocument (d : Document) : Option ValidatorReply := do
  let r ← Record.ofDocument [.defaulted "success", .defaulted "any"] d
  let success ← r.defaulted "success" false (·.bool?)
  let finding ← r.defaulted "any" .nothing Finding.ofDocument
  pure ⟨success, finding⟩

def decode (text : String) : Option ValidatorReply := (Document.read text).bind ofDocument

end ValidatorReply

/-- Where a validation service is found and how it is asked. -/
structure Validator where
  endpoint : String
  /-- How long to wait for an answer, in milliseconds. -/
  timeout : Nat

namespace Validator

def question (code : String) : Document := .object [("componentCode", .string code)]

def request (v : Validator) (code : String) : Request :=
  ((Request.ofUrl .post v.endpoint).withDocument (question code).compact).withTimeout v.timeout

/-- What came back, understood as a verdict. -/
def interpret : Except Http.Failure Response → Except ValidatorError Verdict
  | .error e => .error (.transport e.message)
  | .ok r =>
    if r.isSuccess then
      match ValidatorReply.decode r.body with
      | some reply => reply.finding.verdict
      | none => .error (.decode "not a validator reply")
    else .error (.status r.status)

def exchange (v : Validator) (code : String) : Exchange (Except ValidatorError Verdict) :=
  ⟨v.request code, interpret⟩

end Validator

/-! ## Requests of actions -/

namespace Api

/-- The value of a response, or why there is none. -/
def interpret : Except Http.Failure Response → Except String Value
  | .error e => .error e.message
  | .ok r =>
    if !r.isSuccess then .error s!"status {r.status}"
    else if (Text.trim r.body).isEmpty then .ok .null
    else .ok ((Value.decode r.body).getD (.string r.body))

/-- The exchange of a request for a value; none if its body holds a float that has no text. -/
def exchange (timeout : Nat) (q : ApiRequest) : Except String (Exchange (Except String Value)) :=
  let r := (Request.ofUrl q.method q.url).withTimeout timeout
  match q.body with
  | none => .ok ⟨r, interpret⟩
  | some body =>
    match body.encode with
    | .ok text => .ok ⟨r.withDocument text, interpret⟩
    | .error x => .error (Value.encodingMessage x)

/-- The reply that goes back to the session of a request. -/
def reply (q : ApiRequest) (result : Except String Value) : ApiResult :=
  ⟨q.generation, q.url, q.resultKey, result⟩

/-- Carries out a request by a way of sending; one that has no exchange is not sent. -/
def perform {m : Type → Type} [Monad m] (send : Request → m (Except Http.Failure Response))
    (timeout : Nat) (q : ApiRequest) : m ApiResult := do
  match exchange timeout q with
  | .error reason => pure (reply q (.error reason))
  | .ok e => pure (reply q (← e.run send))

end Api

end ServerUi.Service
