import ServerUi.Cli.Grammar
import ServerUi.Config.Settings
import ServerUi.Decimal.Reading
import ServerUi.Element

/-! # Invocations

What the program can be asked to do: render a tree after some edits and taps, validate code, or
send a message to an app.  Switches of the whole program may stand before the command or behind
it; what stands behind counts.

How grave a notice must be to be logged, the command line says first, then the settings; a level in
the settings that cannot be read counts as `warn`.
-/

namespace ServerUi.Cli

/-! ## Log levels -/

inductive Level where
  | off
  | error
  | warn
  | info
  | debug
  | trace
deriving DecidableEq, Repr

namespace Level

/-- The levels, each logging more than the one before. -/
def all : List Level := [.off, .error, .warn, .info, .debug, .trace]

def name : Level → String
  | .off => "off"
  | .error => "error"
  | .warn => "warn"
  | .info => "info"
  | .debug => "debug"
  | .trace => "trace"

def ofName? (s : String) : Option Level := all.find? (·.name == s)

/-- The level that a text in the settings means: a name in any case, the place of a level, or
nothing for `error`. -/
def parse? (s : String) : Option Level :=
  let cs := s.toList
  let place := if cs.head? = some '-' then none else Decimal.integerOf? cs
  match place.bind fun n => all[n.toNat]? with
  | some l => some l
  | none => if cs.isEmpty then some .error else ofName? (String.ofList (cs.map Char.toLower))

def resolve (asked : Option Level) (verbose : Bool) (s : Config.LogSettings) : Level :=
  match asked with
  | some l => l
  | none => if verbose then .debug else (parse? s.level).getD .warn

end Level

/-! ## Commands -/

structure RenderJob where
  tree : String
  /-- Edits to make first, each an identity and a text. -/
  edits : List String
  taps : List String
  format : Element.Format
  /-- How long to wait for replies, in seconds. -/
  wait : Nat
deriving DecidableEq, Repr

structure ChatJob where
  app : String
  message : String
  model : Option String
  screenshot : Option String
  /-- Is code in the reply left unchecked? -/
  unchecked : Bool
  format : Element.Format
deriving DecidableEq, Repr

inductive Command where
  | render (job : RenderJob)
  /-- Code, or the path of a file with code behind an at sign. -/
  | validate (code : String)
  | chat (job : ChatJob)
deriving DecidableEq, Repr

structure Invocation where
  command : Command
  level : Option Level
  verbose : Bool
  config : Option String
deriving DecidableEq, Repr

def formatName : Element.Format → String
  | .outline => "text"
  | .document => "json"

def formatOfName? (s : String) : Option Element.Format :=
  [Element.Format.outline, .document].find? (formatName · == s)

/-! ## The grammar -/

def commonSwitches : List Switch :=
  [⟨some 'l', "log-level", .takes (.oneOf (Level.all.map Level.name)) false⟩,
    ⟨some 'v', "verbose", .turnsOn⟩,
    ⟨some 'C', "config", .takes .path false⟩,
    ⟨some 'h', "help", .ends .help⟩]

def formatSwitch : Switch := ⟨some 'f', "format", .takes (.oneOf ["text", "json"]) false⟩

def renderGrammar : Grammar where
  switches := commonSwitches ++
    [⟨some 's', "set", .takes .text true⟩, ⟨some 't', "tap", .takes .text true⟩, formatSwitch,
      ⟨none, "wait", .takes .natural false⟩]
  parameters := [⟨"tree", .path, false⟩]
  surplus := .unknownArgument

def validateGrammar : Grammar where
  switches := commonSwitches
  parameters := [⟨"code", .text, false⟩]
  surplus := .unknownArgument

def chatGrammar : Grammar where
  switches := commonSwitches ++
    [⟨some 'm', "model", .takes .text false⟩, ⟨none, "screenshot", .takes .text false⟩,
      ⟨none, "no-validate", .turnsOn⟩, formatSwitch]
  parameters := [⟨"app_id", .text, false⟩, ⟨"message", .text, false⟩]
  surplus := .unknownArgument

def program : Program where
  root := ⟨commonSwitches ++ [⟨some 'V', "version", .ends .version⟩], [], .unknownCommand⟩
  commands := [("render", renderGrammar), ("validate", validateGrammar), ("chat", chatGrammar)]

/-! ## Reading -/

def commandOf (name : String) (r : Reading) : Command :=
  let format := ((r.get? "format").bind formatOfName?).getD .outline
  let given (name : String) : String := (r.get? name).getD ""
  if name = "render" then
    .render ⟨given "tree", r.all "set", r.all "tap", format,
      ((r.get? "wait").bind natural?).getD 5⟩
  else if name = "validate" then .validate (given "code")
  else
    .chat ⟨given "app_id", given "message", r.get? "model", r.get? "screenshot",
      r.has "no-validate", format⟩

/-- Reads a command line without the name of the program. -/
def Invocation.parse (args : List String) : Except Refusal Invocation := do
  let (outer, name, inner) ← program.read args
  let common (name : String) : Option String := (inner.get? name).or (outer.get? name)
  pure ⟨commandOf name inner, (common "log-level").bind Level.ofName?,
    (common "verbose").isSome, common "config"⟩

end ServerUi.Cli
