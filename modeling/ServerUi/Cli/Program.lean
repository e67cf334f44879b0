import ServerUi.Chat
import ServerUi.Cli.Invocation
import ServerUi.Config.File
import ServerUi.Config.Settings
import ServerUi.Http.Exchange
import ServerUi.Service
import ServerUi.Text.Character
import ServerUi.Text.Utf8

/-! # The program

A command line is read, the settings are loaded, and the command is carried out.  What a command
needs of the machine it runs on is a `Host`; everything else that it does is decided without the
machine.

* A tree is read, edited and tapped as asked, and printed.  What is shared is printed at once.  The
  replies to requests are awaited once, then the targets of navigation and the tree are printed.
* Code is sent to the validation service, and the steps of the check are printed as they change.
* A message is sent to an app, code in the reply is checked unless that was ruled out, and the turn
  is printed in words.
-/

namespace ServerUi.Cli

open ServerUi.Http (Request Response)

/-! ## The machine around a command -/

structure Host (m : Type → Type) where
  /-- The bytes of a file, or why they cannot be had. -/
  bytesAt : String → m (Except String (List UInt8))
  printLine : String → m Unit
  send : Request → m (Except Http.Failure Response)
  /-- Lets so many milliseconds pass. -/
  pause : Nat → m Unit

/-- Why a command failed, and why that was so. -/
structure Failure where
  text : String
  cause : Option String
deriving DecidableEq, Repr

def Failure.plain (text : String) : Failure := ⟨text, none⟩

/-- A command under way. -/
abbrev Task (m : Type → Type) := ExceptT Failure m

/-- The characters of bytes, if every byte belongs to one. -/
def textOfSymbols : List Text.Symbol → Option (List Char)
  | [] => some []
  | .char c :: rest => (textOfSymbols rest).map (c :: ·)
  | .stray _ :: _ => none

def textOfBytes? (bytes : List UInt8) : Option String :=
  (textOfSymbols (Text.symbols bytes)).map String.ofList

def Host.readText {m : Type → Type} [Monad m] (h : Host m) (path : String) :
    m (Except String String) := do
  match ← h.bytesAt path with
  | .error reason => pure (.error reason)
  | .ok bytes =>
    match textOfBytes? bytes with
    | some s => pure (.ok s)
    | none => pure (.error "not a text")

/-! ## Rendering -/

/-! ### Edits -/

/-- An edit: the identity of an element and its new text. -/
def assignment (raw : String) : Except Failure (String × String) :=
  let cs := raw.toList
  let id := cs.takeWhile (· != '=')
  match cs.dropWhile (· != '=') with
  | _ :: value =>
    if id.isEmpty then .error (.plain s!"Expected ID=VALUE, got '{raw}'")
    else .ok (String.ofList id, String.ofList value)
  | [] => .error (.plain s!"Expected ID=VALUE, got '{raw}'")

def editEvent (n : Node) (value : String) : Except Failure UiEvent :=
  match n.kind with
  | .textField => .ok (.textChanged n.id value)
  | .picker => .ok (.pickerSelected n.id value)
  | .imageUploader => .ok (.imagePicked n.id value)
  | kind => .error (.plain s!"'{n.id}' is a {kind.tag} and cannot be edited")

def noElement (id : String) : Failure := .plain s!"No element with id '{id}'"

def eventOfEdit (s : Session) (raw : String) : Except Failure UiEvent := do
  let (id, value) ← assignment raw
  match s.tree.find? id with
  | none => .error (noElement id)
  | some n => editEvent n value

def eventOfTap (s : Session) (id : String) : Except Failure UiEvent :=
  if (s.tree.find? id).isSome then .ok (.tap id) else .error (noElement id)

/-! ### The course of a rendering -/

/-- The session, the requests that have no reply yet, and the targets of navigation. -/
structure Course where
  session : Session
  requests : List ApiRequest
  targets : List String

variable {m : Type → Type} [Monad m] (h : Host m)

/-- Notes a call; what is shared is printed. -/
def Course.note (c : Course) : Call → m Course
  | .api q => pure { c with requests := c.requests ++ [q] }
  | .navigate target => pure { c with targets := c.targets ++ [target] }
  | .share text => do
    h.printLine s!"share: {text}"
    pure c
  | .script .. => pure c

def Course.handle (c : Course) (e : UiEvent) : m Course :=
  let (session, _, calls) := c.session.handle e
  calls.foldlM (Course.note h) { c with session := session }

/-- Takes what the user does for an argument, or fails. -/
def Course.take (event : Session → String → Except Failure UiEvent) (c : Course) (arg : String) :
    Task m Course :=
  match event c.session arg with
  | .error e => throw e
  | .ok e => (c.handle h e : m Course)

/-- Sends the requests and takes the replies; requests that these raise are not awaited. -/
def Course.awaitReplies (wait : Nat) (c : Course) : m Course := do
  if wait = 0 then pure c
  else
    let results ← c.requests.mapM (Service.Api.perform h.send Http.Request.defaultTimeout)
    let p := (results.foldl Session.receive c.session).pump
    p.calls.foldlM (Course.note h) { c with session := p.session, requests := [] }

/-- The dispatcher of a command: it reaches everybody. -/
def dispatcher (s : Settings) : Dispatcher where
  collaborators :=
    ⟨true, true, some fun _ _ => .error (.unavailable "no interpreter"), some .opened⟩
  maxDepth := s.dispatch.maxWatcherDepth
  generation := 0

def render (s : Settings) (job : RenderJob) : Task m Unit := do
  let bytes ← match ← (h.bytesAt job.tree : m _) with
    | .ok bytes => pure bytes
    | .error _ => throw (.plain s!"Failed to read {job.tree}")
  let tree ← match Node.decodeBytes bytes with
    | some n => pure n
    | none => throw (.plain s!"{job.tree} is not a component tree")
  let c : Course := ⟨Session.start tree (dispatcher s), [], []⟩
  let c ← job.edits.foldlM (Course.take h eventOfEdit) c
  let c ← job.taps.foldlM (Course.take h eventOfTap) c
  let c ← (c.awaitReplies h job.wait : m Course)
  for target in c.targets do
    h.printLine s!"navigate: {target}"
  h.printLine (c.session.element.print job.format)

/-! ## Validating -/

section Validating

open ServerUi.Validation (Notice Report Run Status Step)

/-! ### Progress -/

def statusMark : Status → String
  | .pending => "  "
  | .loading => ".."
  | .success => "ok"
  | .failed => "!!"

def stepLine (s : Step) (status : Status) : String :=
  s!"[{statusMark status}] {s.title} - {s.description}"

def noticeLine : Notice → String
  | .stepChanged i status => (Step.initial[i]?).elim "" (stepLine · status)
  | .completed => "Validation passed"
  | .failed reason => s!"Validation failed: {reason.message}"

/-! ### The course of a check -/

def validatorService (s : Settings) : Service.Validator :=
  ⟨s.validation.endpoint, 1000 * s.validation.seconds⟩

def showNews (watched : Bool) (before after : Run) : m Unit := do
  if watched then
    for n in after.notices.drop before.notices.length do
      h.printLine (noticeLine n)

def nextWake (v : Service.Validator) (setting : Run.Setting) (code : String) (r : Run) :
    m Validation.Wake :=
  let elapsed (delay : Nat) : m Validation.Wake := do
    h.pause delay
    pure .elapsed
  match r.stage with
  | .asking => do
    let answer ← (v.exchange code).run h.send
    pure (.answer answer false)
  | .firstPause _ => elapsed setting.pacing.first
  | .stepPause _ => elapsed setting.pacing.step
  | .completionPause => elapsed setting.pacing.completion
  | .ready | .ended _ => pure .poll

def follow (v : Service.Validator) (setting : Run.Setting) (watched : Bool) (code : String) :
    Nat → Run → m Run
  | 0, r => pure r
  | n + 1, r => do
    let w ← nextWake h v setting code r
    let next := r.wake setting w
    showNews h watched r next
    follow v setting watched code n next

/-- Checks code.  A run has at most five stretches. -/
def check (s : Settings) (watched : Bool) (code : String) : m Report := do
  let setting := Run.Setting.ofPacing s.validation.pacing
  let r ← follow h (validatorService s) setting watched code 5 Run.fresh
  pure ((r.report?).getD ⟨r.steps, .cancelled⟩)

def codeOf (arg : String) : Task m String :=
  match arg.toList with
  | '@' :: path => do
    let path := String.ofList path
    match ← (h.readText path : m _) with
    | .ok code => pure code
    | .error _ => throw (.plain s!"Failed to read component code from {path}")
  | _ => pure arg

def validate (s : Settings) (arg : String) : Task m Unit := do
  let code ← codeOf h arg
  if (Text.trim code).isEmpty then throw (.plain "No component code to validate")
  let report ← (check h s true code : m Report)
  match report.ending with
  | .completed => pure ()
  | .failed reason => throw (.plain s!"Validation failed: {reason.message}")
  | .cancelled => throw (.plain "Validation cancelled")

end Validating

/-! ## Sending a message -/

def chatService (s : Settings) : Service.Chat :=
  ⟨s.chat.baseUrl, s.chat.model, 1000 * s.chat.seconds⟩

def ChatJob.toMessage (job : ChatJob) : Chat.Message :=
  ⟨job.app, job.model, job.message, job.screenshot⟩

def chat (s : Settings) (job : ChatJob) : Task m Unit := do
  let answer ← (((chatService s).exchange job.toMessage).run h.send : m _)
  match answer with
  | .error e => throw ⟨s!"Chat with app {job.app} failed", some e.message⟩
  | .ok reply =>
    let report ← match Chat.Turn.codeToCheck (!job.unchecked) reply with
      | none => pure none
      | some code => some <$> (check h s true code : m _)
    h.printLine ((Chat.Turn.ofReply reply report).summary job.format)

/-! ## The whole program -/

inductive Ending where
  | done
  /-- The arguments asked for something else than a command, or were not accepted. -/
  | refused (r : Refusal)
  | failed (f : Failure)
deriving DecidableEq, Repr

def versionText : String := "crayon 0.1.0"

def usageText : String :=
  "Usage: crayon [OPTIONS] <COMMAND>\n\nCommands: render, validate, chat, help\n" ++
  "Options: --log-level <LEVEL>, --verbose, --config <PATH>, --help, --version"

def Ending.status : Ending → Nat
  | .done => 0
  | .refused .help => 0
  | .refused .version => 0
  | .refused _ => 2
  | .failed _ => 1

/-- Loads the settings: from the file asked for, else from the usual file if there is one. -/
def loadSettings (asked usual : Option String) : Task m Settings := do
  let loaded ← match asked, usual with
    | some path, _ => Config.ofFile path <$> (h.readText path : m _)
    | none, some path => (fun c => Config.ofUsualFile path (some c)) <$> (h.readText path : m _)
    | none, none => pure (Config.ofUsualFile "" none)
  match loaded with
  | .ok s => pure s
  | .error e => throw (.plain e.message)

/-- Carries out an invocation.  `usual` is the usual settings file, if it is there. -/
def invoke (usual : Option String) (i : Invocation) : Task m Unit := do
  let s ← loadSettings h i.config usual
  match i.command with
  | .render job => render h s job
  | .validate code => validate h s code
  | .chat job => chat h s job

def run (usual : Option String) (args : List String) : m Ending := do
  match Invocation.parse args with
  | .error .version => do
    h.printLine versionText
    pure (.refused .version)
  | .error .help => do
    h.printLine usageText
    pure (.refused .help)
  | .error r => pure (.refused r)
  | .ok i =>
    match ← (invoke h usual i).run with
    | .ok () => pure .done
    | .error f => pure (.failed f)

end ServerUi.Cli
