import ServerUi.Json.Reader
import ServerUi.Json.Record
import ServerUi.Json.Writer
import ServerUi.Node
import ServerUi.Render
import ServerUi.Validation.Step

/-! # Chat

What a user says to an app, and what the app answers: a text, and often a component tree and the
code behind it.  A reply can always be displayed, for where no tree can be read the text itself
becomes one.

A turn is one message with its reply, made ready for display.  Where the reply brings code and a
validator is at hand, the code is checked; the check never keeps the tree from being displayed.
-/

namespace ServerUi.Chat

open ServerUi.Json (Document Record)
open ServerUi.Validation (Report)

/-! ## Messages -/

structure Message where
  app : String
  model : Option String
  text : String
  screenshot : Option String
deriving DecidableEq, Repr

namespace Message

/-- The message that a document holds; it has no address. -/
def ofDocument (d : Document) : Option Message := do
  let r ← Record.ofDocument [.required "message", .defaulted "screenshot_url"] d
  let text ← r.required "message" (·.string?)
  let screenshot ← r.optional "screenshot_url" (·.string?)
  pure ⟨"", none, text, screenshot⟩

def toDocument (m : Message) : Document :=
  .object (("message", .string m.text)
    :: Document.whenSome "screenshot_url" .string m.screenshot)

def decode (text : String) : Option Message := (Document.read text).bind ofDocument

def encode (m : Message) : String := m.toDocument.compact

end Message

/-! ## Replies -/

structure Reply where
  message : String
  hasCodeChange : Bool
  /-- The tree as received, not yet read. -/
  tree? : Option (Table Value)
  code : Option String
  version : Int64
  /-- Components that the app wanted and did not find. -/
  requested : List String
  error : Option String

namespace Reply

def ofDocument (d : Document) : Option Reply := do
  let r ← Record.ofDocument [.required "message", .defaulted "has_code_change",
    .defaulted "node_state_tree", .defaulted "typescript_code", .defaulted "version_number",
    .defaulted "requested_components", .defaulted "error"] d
  let message ← r.required "message" (·.string?)
  let hasCodeChange ← r.defaulted "has_code_change" false (·.bool?)
  let tree ← r.optional "node_state_tree" Value.tableOfDocument
  let code ← r.optional "typescript_code" (·.string?)
  let version ← r.defaulted "version_number" 0 (·.int64?)
  let requested ← r.defaulted "requested_components" [] (·.list? (·.string?))
  let error ← r.optional "error" (·.string?)
  pure ⟨message, hasCodeChange, tree, code, version, requested, error⟩

def toDocument (r : Reply) : Document :=
  .object ([("message", .string r.message), ("has_code_change", .bool r.hasCodeChange)]
    ++ Document.whenSome "node_state_tree" (fun t => (Value.ofTable t).toDocument) r.tree?
    ++ Document.whenSome "typescript_code" .string r.code
    ++ [("version_number", .integer r.version.toInt),
      ("requested_components", .array (r.requested.map .string))]
    ++ Document.whenSome "error" .string r.error)

def decode (text : String) : Option Reply := (Document.read text).bind ofDocument

/-- The compact text of a reply, or the float that has none. -/
def encode (r : Reply) : Except Float String := r.toDocument.encode

/-- The tree to display: the one received, or the text where none can be read. -/
def tree (r : Reply) : Node :=
  match r.tree?.map fun t => Node.ofValue (.ofTable t) with
  | some (.ok (some n)) => n
  | _ => .fallback r.message

end Reply

inductive Failure where
  | transport (reason : String)
  | status (code : Nat) (body : String)
  | decode (reason : String)
  | cancelled
deriving DecidableEq, Repr

def Failure.message : Failure → String
  | .transport reason => s!"Chat request failed: {reason}"
  | .status code body => s!"Chat service answered with status {code}: {body}"
  | .decode reason => s!"Could not decode chat response: {reason}"
  | .cancelled => "Chat turn cancelled"

/-! ## Turns -/

structure Turn where
  reply : Reply
  tree : Node
  /-- How the check of the code ended, if it was checked. -/
  report : Option Report

namespace Turn

/-- The code to check before a reply is displayed. -/
def codeToCheck (checks : Bool) (r : Reply) : Option String := if checks then r.code else none

/-- The answer that a turn goes on with: none if it was called off before the answer came. -/
def answer (calledOff : Bool) (a : Except Failure Reply) : Except Failure Reply :=
  if calledOff then .error .cancelled else a

/-- The turn of a reply whose code was checked, or not. -/
def ofReply (r : Reply) (report : Option Report) : Turn := ⟨r, r.tree, report⟩

def reportLine (r : Report) : String :=
  match r.ending with
  | .completed => "validation: passed"
  | .failed reason => s!"validation: {reason.message}"
  | .cancelled => "validation: cancelled"

/-- What the tree of the turn displays, each state key at its initial value. -/
def element (t : Turn) : Element := Render.element (t.tree.state.map Store.ofBlock) t.tree

/-- The turn in words: the message, what is to be known about it, and the element. -/
def summary (t : Turn) (f : Element.Format) : String :=
  String.intercalate "\n"
    ([t.reply.message]
      ++ (if t.reply.hasCodeChange then
          [s!"(code changed, version {intText t.reply.version})"] else [])
      ++ (t.reply.error.map fun e => s!"service error: {e}").toList
      ++ (t.report.map reportLine).toList
      ++ ["", t.element.print f])

end Turn

end ServerUi.Chat
