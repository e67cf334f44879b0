import ServerUi.Json.Reader
import ServerUi.Json.Record
import ServerUi.Json.Writer

/-! # Validation steps

The code of a component is checked in two steps, shown one after the other.  Here are the steps with
their status, the answer of a validator, and the ways in which a check can fail.
-/

namespace ServerUi.Validation

open ServerUi.Json (Document Record)

inductive Status where
  | pending
  | loading
  | success
  | failed
deriving DecidableEq, Repr

namespace Status

def name : Status → String
  | .pending => "pending"
  | .loading => "loading"
  | .success => "success"
  | .failed => "failed"

def ofName? (s : String) : Option Status :=
  [.pending, .loading, .success, .failed].find? (·.name == s)

def isTerminal : Status → Bool
  | .success | .failed => true
  | _ => false

end Status

structure Step where
  title : String
  description : String
  status : Status
deriving DecidableEq, Repr

namespace Step

def initial : List Step :=
  [⟨"Type Check", "Validating component structure and syntax", .pending⟩,
    ⟨"Serialization", "Verifying component can be serialized properly", .pending⟩]

def ofDocument (d : Document) : Option Step := do
  let r ← Record.ofDocument [.required "title", .required "description", .required "status"] d
  let title ← r.required "title" (·.string?)
  let description ← r.required "description" (·.string?)
  let status ← r.required "status" fun d => d.name?.bind Status.ofName?
  pure ⟨title, description, status⟩

def toDocument (s : Step) : Document :=
  .object [("title", .string s.title), ("description", .string s.description),
    ("status", .string s.status.name)]

def decode (text : String) : Option Step := (Document.read text).bind ofDocument

end Step

/-- The answer of a validator to both questions. -/
structure Verdict where
  typecheck : Bool
  serialize : Bool
deriving DecidableEq, Repr

inductive ValidatorError where
  | transport (reason : String)
  | status (code : Nat)
  | decode (reason : String)
  /-- The reply holds none of the results that are known. -/
  | unexpectedPayload
deriving DecidableEq, Repr

def ValidatorError.message : ValidatorError → String
  | .transport reason => s!"Validation request failed: {reason}"
  | .status code => s!"Validator answered with status {code}"
  | .decode reason => s!"Could not decode validator response: {reason}"
  | .unexpectedPayload => "Validator response carried no recognisable result"

inductive FailureReason where
  /-- The validator turned the code down at a step. -/
  | stepFailed (step : Nat)
  | error (e : ValidatorError)
deriving DecidableEq, Repr

/-- The text of a reason; steps are counted from one. -/
def FailureReason.message : FailureReason → String
  | .stepFailed step => s!"validation step {step + 1} failed"
  | .error e => e.message

inductive Ending where
  | completed
  | failed (reason : FailureReason)
  | cancelled
deriving DecidableEq, Repr

inductive Notice where
  | stepChanged (index : Nat) (status : Status)
  | completed
  | failed (reason : FailureReason)
deriving DecidableEq, Repr

structure Report where
  steps : List Step
  ending : Ending
deriving DecidableEq, Repr

/-- Did both steps succeed? -/
def Report.isSuccess (r : Report) : Bool := r.ending == .completed

end ServerUi.Validation
