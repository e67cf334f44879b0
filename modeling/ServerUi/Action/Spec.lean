import ServerUi.Value.Codec

/-! # Action descriptions

What a server writes down as an action: the event that raises it, the kind of effect it names, and
a payload of values.  A kind that is not known keeps its tag, so that it is written as it was read.
-/

namespace ServerUi

open ServerUi.Json (Document Record Field)

inductive ActionKind where
  | apiCall
  | navigation
  | script
  | share
  | stateUpdate
  | unknown (tag : String)
deriving DecidableEq, Repr

namespace ActionKind

def tag : ActionKind → String
  | .apiCall => "API_CALL"
  | .navigation => "NAVIGATION"
  | .script => "JAVASCRIPT"
  | .share => "SHARE"
  | .stateUpdate => "STATE_UPDATE"
  | .unknown t => t

def ofTag (t : String) : ActionKind :=
  if t = "API_CALL" then .apiCall
  else if t = "NAVIGATION" then .navigation
  else if t = "JAVASCRIPT" then .script
  else if t = "SHARE" then .share
  else if t = "STATE_UPDATE" then .stateUpdate
  else .unknown t

end ActionKind

/-- An action as written. -/
structure ActionSpec where
  /-- The event of the user interface that raises the action. -/
  trigger : String
  kind : ActionKind
  payload : Table Value

namespace ActionSpec

def ofKind (trigger : String) (kind : ActionKind) : ActionSpec := ⟨trigger, kind, ∅⟩

def withValue (a : ActionSpec) (key : String) (v : Value) : ActionSpec :=
  { a with payload := a.payload.insert key v }

/-- The action that updates a key of the state to a value. -/
def stateUpdate (key : String) (v : Value) : ActionSpec :=
  ((ofKind "onChange" .stateUpdate).withValue "key" (.string key)).withValue "value" v

def fields : List Field := [.defaulted "trigger", .required "type", .defaulted "payload"]

def ofDocument (d : Document) : Option ActionSpec := do
  let r ← Record.ofDocument fields d
  let trigger ← r.defaulted "trigger" "" (·.string?)
  let kind ← r.required "type" (·.string?)
  let payload ← r.defaulted "payload" ∅ Value.tableOfDocument
  pure ⟨trigger, .ofTag kind, payload⟩

def toDocument (a : ActionSpec) : Document :=
  .object [("trigger", .string a.trigger), ("type", .string a.kind.tag),
    ("payload", (Value.ofTable a.payload).toDocument)]

def decode (text : String) : Option ActionSpec := (Document.read text).bind ofDocument

/-- The compact text of an action, or the float that has none. -/
def encode (a : ActionSpec) : Except Float String := a.toDocument.encode

end ActionSpec

end ServerUi
