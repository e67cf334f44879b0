import ServerUi.Config.Settings
import ServerUi.Json.Reader
import ServerUi.Text.Character
import ServerUi.Toml.Reader

/-! # Settings files

A file holds settings in one of two forms, told apart by its name.  A file that was asked for must
be there; where none was asked for, the file at the usual place is taken if it is there.

Settings that were read may still be of no use: the services must be on the web, and no limit may be
zero.  The settings are checked in a fixed order, and the first that is of no use is named.
-/

/-! ## Usable settings -/

namespace ServerUi.Config

inductive Form where
  | toml
  | json
deriving DecidableEq, Repr

def Form.name : Form → String
  | .toml => "toml"
  | .json => "json"

inductive Error where
  | unreadable (path reason : String)
  | malformed (form : Form) (path reason : String)
  | invalid (field reason : String)
deriving DecidableEq, Repr

def Error.message : Error → String
  | .unreadable path reason => s!"Failed to read config file {path}: {reason}"
  | .malformed form path reason => s!"Failed to parse {form.name} config {path}: {reason}"
  | .invalid field reason => s!"Invalid value for {field}: {reason}"

/-- What is wrong with the address of a service; blanks around it do no harm. -/
def urlFault? (url : String) : Option String :=
  let cs := Text.trimBlank url.toList
  if cs.isEmpty then some "must not be empty"
  else if "http://".toList.isPrefixOf cs || "https://".toList.isPrefixOf cs then none
  else some s!"not an http(s) URL: {url}"

def limitFault? (n : Nat) : Option String := if n = 0 then some "must be > 0" else none

/-- The settings that are checked, in order, each with what is wrong with it. -/
def faults (s : Settings) : List (String × Option String) :=
  [("chat.base_url", urlFault? s.chat.baseUrl),
    ("validation.endpoint", urlFault? s.validation.endpoint),
    ("validation.timeout_secs", limitFault? s.validation.seconds),
    ("dispatch.max_watcher_depth", limitFault? s.dispatch.maxWatcherDepth),
    ("scripting.memory_limit_bytes", limitFault? s.scripts.memory),
    ("scripting.instruction_limit", limitFault? s.scripts.instructions)]

/-- The first of the settings that is of no use, as an error. -/
def firstFault? : List (String × Option String) → Option Error
  | [] => none
  | (field, some reason) :: _ => some (.invalid field reason)
  | (_, none) :: rest => firstFault? rest

end Config

/-- The first setting that is of no use, as an error. -/
def Settings.fault? (s : Settings) : Option Config.Error := Config.firstFault? (Config.faults s)

def Settings.isUsable (s : Settings) : Bool := s.fault?.isNone

end ServerUi

/-! ## Reading files -/

namespace ServerUi.Config

open ServerUi.Json (Document)

def fileName (path : List Char) : List Char :=
  ((path.reverse.dropWhile (· == '/')).takeWhile (· != '/')).reverse

/-- The part of a file name behind its last dot; a dot at the front starts no such part. -/
def extension? (path : String) : Option (List Char) :=
  let name := fileName path.toList
  let behind := (name.reverse.takeWhile (· != '.')).reverse
  if name = ['.', '.'] || name.length ≤ behind.length + 1 then none else some behind

def Form.ofPath (path : String) : Form :=
  match extension? path with
  | some e => if e.map Char.toLower = "json".toList then .json else .toml
  | none => .toml

/-- Does a document of the form stand for nothing? -/
def Form.isEmpty : Form → Document → Bool
  | .json, .null => true
  | .toml, .object [] => true
  | .toml, .array [] => true
  | _, _ => false

def Form.read : Form → String → Option Document
  | .json => Document.read
  | .toml => Toml.read

/-- The settings that a text holds, whether they are of use or not. -/
def Form.settings? (form : Form) (text : String) : Option Settings :=
  (form.read text).bind (Settings.ofDocument form.isEmpty)

def ofText (path text : String) : Except Error Settings :=
  let form := Form.ofPath path
  match form.settings? text with
  | none => .error (.malformed form path "no settings")
  | some s =>
    match s.fault? with
    | some e => .error e
    | none => .ok s

def ofFile (path : String) : Except String String → Except Error Settings
  | .error reason => .error (.unreadable path reason)
  | .ok text => ofText path text

/-- The settings in the file at the usual place, if it is there. -/
def ofUsualFile (path : String) : Option (Except String String) → Except Error Settings
  | none => .ok .initial
  | some contents => ofFile path contents

end ServerUi.Config
