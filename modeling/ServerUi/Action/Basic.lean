import ServerUi.Action.Spec
import ServerUi.Http.Exchange

/-! # Actions

An action whose payload has been checked against its kind, and the reasons for which an action is
dropped.
-/

namespace ServerUi

/-- A request that an action raises. -/
structure ApiRequest where
  url : String
  method : Http.Method
  body : Option Value
  /-- The key of the state that receives the reply. -/
  resultKey : Option String
  /-- The generation of the session in which the request was raised. -/
  generation : Nat

inductive ActionError where
  | missingPayload (kind : ActionKind) (key : String)
  | invalidPayload (kind : ActionKind) (key expected : String)
  /-- An update of the state where there is none. -/
  | noStore (key : String)
  /-- An effect that nobody was given to perform. -/
  | noCollaborator (kind : ActionKind)
  /-- Nobody listens to navigation any more. -/
  | channelClosed
  | cascadeTooDeep (depth : Nat) (key : String)
  | scriptFailed (reason : String)
deriving DecidableEq, Repr

def ActionError.message : ActionError → String
  | .missingPayload kind key => s!"{kind.tag} action is missing payload key '{key}'"
  | .invalidPayload kind key expected =>
    s!"{kind.tag} action payload key '{key}' must be {expected}"
  | .noStore key => s!"No state store to update '{key}'"
  | .noCollaborator kind => s!"No collaborator configured for {kind.tag} actions"
  | .channelClosed => "Navigation channel closed"
  | .cascadeTooDeep depth key => s!"Watcher cascade exceeded depth {depth} at key '{key}'"
  | .scriptFailed reason => s!"Script failed: {reason}"

inductive Action where
  | apiCall (request : ApiRequest)
  | navigate (target : String)
  | runScript (source : String)
  | share (text : String)
  | update (key : String) (value : Value)
  | unknown (tag : String)

namespace Action

/-- A text in a payload; null counts as absent. -/
def optionalText (spec : ActionSpec) (key : String) : Except ActionError (Option String) :=
  match spec.payload.find? key with
  | none | some .null => .ok none
  | some (.string s) => .ok (some s)
  | some _ => .error (.invalidPayload spec.kind key "a string")

def requiredText (spec : ActionSpec) (key : String) : Except ActionError String := do
  match ← optionalText spec key with
  | some s => pure s
  | none => throw (.missingPayload spec.kind key)

/-- The method that a payload names, or the one for reading. -/
def method (spec : ActionSpec) : Except ActionError Http.Method := do
  match ← optionalText spec "method" with
  | none => pure .get
  | some raw =>
    match Http.Method.parse? raw with
    | some m => pure m
    | none => throw (.invalidPayload spec.kind "method" "an HTTP method")

def ofSpec (spec : ActionSpec) : Except ActionError Action :=
  match spec.kind with
  | .apiCall => do
    let url ← requiredText spec "url"
    let method ← method spec
    let resultKey ← optionalText spec "resultKey"
    pure (.apiCall ⟨url, method, spec.payload.find? "body", resultKey, 0⟩)
  | .navigation => return .navigate (← requiredText spec "target")
  | .script => return .runScript (← requiredText spec "script")
  | .share => return .share (← requiredText spec "text")
  | .stateUpdate => do
    let key ← requiredText spec "key"
    match spec.payload.find? "value" with
    | some v => pure (.update key v)
    | none => throw (.missingPayload spec.kind "value")
  | .unknown tag => .ok (.unknown tag)

end Action

end ServerUi
