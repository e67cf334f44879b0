import ServerUi.Decimal.Reading

/-! # Command lines

How the arguments of a command line are read.  A command knows switches, which have a long name and
often a letter, and parameters, which are told apart by their place.  What a switch or parameter was
given is looked at only when the next one comes or the arguments end, so of two faults the later
one may win.
-/

namespace ServerUi.Cli

/-- Why arguments are not accepted, or ask for something else than to run a command. -/
inductive Refusal where
  | missingParameter
  | unknownArgument
  /-- A value that is missing, empty or none of the names allowed. -/
  | invalidValue
  /-- A value that is no number. -/
  | malformedValue
  /-- A switch that may stand once stands twice. -/
  | repeated
  /-- A value behind a switch that takes none. -/
  | surplusValue
  | unknownCommand
  | missingCommand
  | nothingGiven
  | help
  | version
deriving DecidableEq, Repr

inductive ValueKind where
  | text
  | path
  | natural
  | oneOf (names : List String)
deriving DecidableEq, Repr

/-- The natural number that a text writes, if it fits a word. -/
def natural? (s : String) : Option Nat :=
  if s.toList.head? = some '-' then none
  else (Decimal.integerOf? s.toList).bind fun n => if fitsUnsigned n then some n.toNat else none

def ValueKind.fault? : ValueKind → String → Option Refusal
  | .text, _ => none
  | .path, s => if s.isEmpty then some .invalidValue else none
  | .natural, s => if (natural? s).isSome then none else some .malformedValue
  | .oneOf names, s => if names.contains s then none else some .invalidValue

/-- Something that takes a value. -/
structure Slot where
  name : String
  kind : ValueKind
  repeats : Bool
deriving DecidableEq, Repr

inductive Effect where
  | turnsOn
  | takes (kind : ValueKind) (repeats : Bool)
  /-- It ends the reading. -/
  | ends (r : Refusal)
deriving DecidableEq, Repr

structure Switch where
  letter : Option Char
  name : String
  effect : Effect
deriving DecidableEq, Repr

structure Grammar where
  switches : List Switch
  parameters : List Slot
  surplus : Refusal

structure Reading where
  /-- Names with what they were given, in order. -/
  found : List (String × String)
  /-- What came last, with its value if there is one already. -/
  pending : Option (Slot × Option String)
  filled : Nat
  /-- Do switches count no more? -/
  plain : Bool

namespace Reading

def start : Reading := ⟨[], none, 0, false⟩

def has (r : Reading) (name : String) : Bool := r.found.any (·.1 == name)

def all (r : Reading) (name : String) : List String :=
  (r.found.filter (·.1 == name)).map (·.2)

def get? (r : Reading) (name : String) : Option String := (r.all name).head?

def awaits (r : Reading) : Bool :=
  match r.pending with
  | some (_, none) => true
  | _ => false

def accept (r : Reading) (s : Slot) (v : String) : Except Refusal Reading :=
  if !s.repeats && r.has s.name then .error .repeated
  else match s.kind.fault? v with
    | some e => .error e
    | none => .ok { r with found := r.found ++ [(s.name, v)] }

def settle (r : Reading) : Except Refusal Reading :=
  match r.pending with
  | none => .ok r
  | some (_, none) => .error .invalidValue
  | some (s, some v) => { r with pending := none }.accept s v

def turnOn (r : Reading) (name : String) : Except Refusal Reading := do
  let r ← r.settle
  r.accept ⟨name, .text, false⟩ "true"

/-- Takes a switch whose value stands with it, or is still to come. -/
def begin (r : Reading) (s : Slot) (value : Option String) : Except Refusal Reading := do
  let r ← r.settle
  match value with
  | some v => r.accept s v
  | none => .ok { r with pending := some (s, none) }

/-- Takes a long name, with what stands behind its equals sign. -/
def takeLong (g : Grammar) (r : Reading) (name : String) (value : Option String) :
    Except Refusal Reading :=
  match g.switches.find? (·.name == name) with
  | none => .error .unknownArgument
  | some s =>
    match s.effect, value with
    | .takes kind repeats, v => r.begin ⟨name, kind, repeats⟩ v
    | _, some _ => .error .surplusValue
    | .turnsOn, none => r.turnOn name
    | .ends e, none => do
      let _ ← r.settle
      .error e

/-- The value that stands with a letter; an equals sign between them is no part of it. -/
def attached : List Char → Option String
  | [] => none
  | '=' :: rest => some (String.ofList rest)
  | cs => some (String.ofList cs)

/-- Takes letters; the first that takes a value takes what stands behind it. -/
def takeLetters (g : Grammar) : Reading → List Char → Except Refusal Reading
  | r, [] => .ok r
  | r, c :: rest =>
    match g.switches.find? (·.letter == some c) with
    | none => .error .unknownArgument
    | some s =>
      match s.effect with
      | .takes kind repeats => r.begin ⟨s.name, kind, repeats⟩ (attached rest)
      | .turnsOn => do
        let r ← r.turnOn s.name
        takeLetters g r rest
      | .ends e => do
        let _ ← r.settle
        .error e

def takeParameter (g : Grammar) (r : Reading) (arg : String) : Except Refusal Reading :=
  match g.parameters[r.filled]? with
  | none => .error g.surplus
  | some s => do
    let r ← r.settle
    .ok { r with pending := some (s, some arg), filled := r.filled + 1 }

def splitName (cs : List Char) : String × Option String :=
  (String.ofList (cs.takeWhile (· != '=')),
    match cs.dropWhile (· != '=') with
    | [] => none
    | _ :: v => some (String.ofList v))

/-- Takes an argument.  Two hyphens alone make all that follow plain; one hyphen alone is plain. -/
def take (g : Grammar) (r : Reading) (arg : String) : Except Refusal Reading :=
  if r.plain then r.takeParameter g arg
  else match arg.toList with
    | ['-', '-'] => .ok { r with plain := true }
    | '-' :: '-' :: cs =>
      let (name, value) := splitName cs
      r.takeLong g name value
    | '-' :: c :: cs => r.takeLetters g (c :: cs)
    | _ =>
      match r.pending with
      | some (s, none) => .ok { r with pending := some (s, some arg) }
      | _ => r.takeParameter g arg

end Reading

def Grammar.read (g : Grammar) (args : List String) : Except Refusal Reading := do
  let r ← args.foldlM (Reading.take g) Reading.start
  let r ← r.settle
  if r.filled < g.parameters.length then .error .missingParameter else .ok r

/-- A program with commands: what stands before the command, and the commands by name. -/
structure Program where
  root : Grammar
  commands : List (String × Grammar)

namespace Program

/-- Is the argument the name of a command?  Asking for help is one. -/
def isCommand (p : Program) (arg : String) : Bool :=
  arg == "help" || p.commands.any (·.1 == arg)

def helpAbout (p : Program) : List String → Refusal
  | [] => .help
  | [name] => if p.isCommand name then .help else .unknownCommand
  | _ => .unknownCommand

/-- Takes arguments up to the command; the command takes the others.  What stands before the
command is looked at last. -/
def takeAll (p : Program) : Reading → List String → Except Refusal (Reading × String × Reading)
  | r, [] => do
    let r ← r.settle
    .error (if r.found.isEmpty then .nothingGiven else .missingCommand)
  | r, arg :: rest =>
    if r.awaits || r.plain || !p.isCommand arg then
      if r.plain && p.isCommand arg then .error .unknownArgument
      else do
        let r ← r.take p.root arg
        takeAll p r rest
    else if arg == "help" then .error (p.helpAbout rest)
    else match p.commands.find? (·.1 == arg) with
      | none => .error .unknownCommand
      | some (name, g) => do
        let inner ← g.read rest
        let r ← r.settle
        .ok (r, name, inner)

/-- Reads a command line: what stood before the command, its name, and what stood behind it. -/
def read (p : Program) (args : List String) : Except Refusal (Reading × String × Reading) :=
  p.takeAll Reading.start args

end Program

end ServerUi.Cli
