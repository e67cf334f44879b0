import ServerUi.Json.Record
import ServerUi.Validation.Run

/-! # Settings

What can be set: where the services are found, the pace of validation, the limits of dispatching
and of scripts, and the log.  Every setting has a value to start from, so nothing need be set.
-/

namespace ServerUi.Config

open ServerUi.Json (Document Record)

def maxWord : Nat := UInt64.size - 1

structure ChatSettings where
  baseUrl : String
  model : Option String
  /-- How long to wait for a reply, in seconds. -/
  seconds? : Option Nat
deriving DecidableEq, Repr

namespace ChatSettings

def initial : ChatSettings := ⟨"http://localhost:3000/api/apps", none, none⟩

/-- How long to wait for a reply, in seconds, also where it is not set. -/
def seconds (s : ChatSettings) : Nat := s.seconds?.getD 120

def ofDocument (d : Document) : Option ChatSettings := do
  let r ← Record.ofDocument
    [.defaulted "base_url", .defaulted "model", .required "timeout_secs"] d
  let baseUrl ← r.defaulted "base_url" initial.baseUrl (·.string?)
  let model ← r.optional "model" (·.string?)
  let seconds ← r.optional "timeout_secs" (·.natural? maxWord)
  pure ⟨baseUrl, model, seconds⟩

end ChatSettings

/-- The validation service, and the pauses of a check. -/
structure ValidationSettings where
  endpoint : String
  /-- How long to wait for an answer, in seconds. -/
  seconds : Nat
  pacing : Validation.Pacing
deriving DecidableEq, Repr

namespace ValidationSettings

def initial : ValidationSettings := ⟨"http://localhost:3000/api/valid", 30, .default⟩

def ofDocument (d : Document) : Option ValidationSettings := do
  let r ← Record.ofDocument [.defaulted "endpoint", .defaulted "timeout_secs",
    .defaulted "first_step_delay_ms", .defaulted "step_delay_ms",
    .defaulted "completion_delay_ms"] d
  let endpoint ← r.defaulted "endpoint" initial.endpoint (·.string?)
  let seconds ← r.defaulted "timeout_secs" initial.seconds (·.natural? maxWord)
  let first ← r.defaulted "first_step_delay_ms" initial.pacing.first (·.natural? maxWord)
  let step ← r.defaulted "step_delay_ms" initial.pacing.step (·.natural? maxWord)
  let completion ← r.defaulted "completion_delay_ms" initial.pacing.completion
    (·.natural? maxWord)
  pure ⟨endpoint, seconds, ⟨first, step, completion⟩⟩

end ValidationSettings

structure DispatchSettings where
  maxWatcherDepth : Nat
deriving DecidableEq, Repr

namespace DispatchSettings

def initial : DispatchSettings := ⟨8⟩

def ofDocument (d : Document) : Option DispatchSettings := do
  let r ← Record.ofDocument [.defaulted "max_watcher_depth"] d
  let depth ← r.defaulted "max_watcher_depth" initial.maxWatcherDepth (·.natural? maxWord)
  pure ⟨depth⟩

end DispatchSettings

structure ScriptSettings where
  memory : Nat
  instructions : Nat
deriving DecidableEq, Repr

namespace ScriptSettings

def initial : ScriptSettings := ⟨8 * 1024 * 1024, 1000000⟩

def ofDocument (d : Document) : Option ScriptSettings := do
  let r ← Record.ofDocument [.defaulted "memory_limit_bytes", .defaulted "instruction_limit"] d
  let memory ← r.defaulted "memory_limit_bytes" initial.memory (·.natural? maxWord)
  let instructions ← r.defaulted "instruction_limit" initial.instructions
    (·.natural? (UInt32.size - 1))
  pure ⟨memory, instructions⟩

end ScriptSettings

inductive LogFormat where
  | text
  | json
deriving DecidableEq, Repr

def LogFormat.name : LogFormat → String
  | .text => "text"
  | .json => "json"

def LogFormat.ofName? (s : String) : Option LogFormat := [.text, .json].find? (·.name == s)

structure LogSettings where
  /-- The name of the least grave level that is logged; it is read where the log is opened. -/
  level : String
  format : LogFormat
deriving DecidableEq, Repr

namespace LogSettings

def initial : LogSettings := ⟨"warn", .text⟩

/-- A name in a document: a string, or the only key of an object over something that is empty. -/
def name? (isEmpty : Document → Bool) : Document → Option String
  | .string s => some s
  | .object [(s, d)] => if isEmpty d then some s else none
  | _ => none

def ofDocument (isEmpty : Document → Bool) (d : Document) : Option LogSettings := do
  let r ← Record.ofDocument [.defaulted "level", .defaulted "format"] d
  let level ← r.defaulted "level" initial.level (·.string?)
  let format ← r.defaulted "format" initial.format fun d =>
    (name? isEmpty d).bind LogFormat.ofName?
  pure ⟨level, format⟩

end LogSettings

end Config

structure Settings where
  chat : Config.ChatSettings
  validation : Config.ValidationSettings
  dispatch : Config.DispatchSettings
  scripts : Config.ScriptSettings
  log : Config.LogSettings
deriving DecidableEq, Repr

namespace Settings

open ServerUi.Config
open ServerUi.Json (Document Record)

def initial : Settings := ⟨.initial, .initial, .initial, .initial, .initial⟩

/-- The settings that a document holds; what counts as empty depends on the form of the document. -/
def ofDocument (isEmpty : Document → Bool) (d : Document) : Option Settings := do
  let r ← Record.ofDocument [.defaulted "chat", .defaulted "validation", .defaulted "dispatch",
    .defaulted "scripting", .defaulted "logging"] d
  let chat ← r.defaulted "chat" .initial ChatSettings.ofDocument
  let validation ← r.defaulted "validation" .initial ValidationSettings.ofDocument
  let dispatch ← r.defaulted "dispatch" .initial DispatchSettings.ofDocument
  let scripts ← r.defaulted "scripting" .initial ScriptSettings.ofDocument
  let log ← r.defaulted "logging" .initial (LogSettings.ofDocument isEmpty)
  pure ⟨chat, validation, dispatch, scripts, log⟩

end Settings

end ServerUi
