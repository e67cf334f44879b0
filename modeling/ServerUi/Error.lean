import ServerUi.Chat
import ServerUi.Config.File
import ServerUi.Dispatch
import ServerUi.Expr.Eval
import ServerUi.Http.Exchange
import ServerUi.Validation.Step
import ServerUi.Value.Codec

/-! # Errors of all kinds

What can go wrong anywhere in the library, for those who use several parts of it at once.  The
text of an error is that of its part; text that cannot be read has no words of its own.
-/

namespace ServerUi

inductive Error where
  /-- A text is no document of the kind that was wanted. -/
  | unreadable
  | unwritable (x : Float)
  | formula
  | evaluation (e : EvalError)
  | action (e : ActionError)
  | validation (e : Validation.ValidatorError)
  | chat (e : Chat.Failure)
  | http (e : Http.Failure)
  | script (e : ScriptError)
  | config (e : Config.Error)

namespace Error

def ofReading {α : Type} : Option α → Except Error α
  | some a => .ok a
  | none => .error .unreadable

/-- The text of an error, if it has words of its own. -/
def message? : Error → Option String
  | .unreadable => none
  | .formula => none
  | .unwritable x => some (Value.encodingMessage x)
  | .evaluation e => some e.message
  | .action e => some e.message
  | .validation e => some e.message
  | .chat e => some e.message
  | .http e => some e.message
  | .script e => some e.message
  | .config e => some e.message

end Error

end ServerUi
