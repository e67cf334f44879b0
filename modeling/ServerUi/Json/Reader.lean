import ServerUi.Json.Token

/-! # Reading documents

A machine with a stack of open containers turns tokens into one document.  A container that is
opened inside `Document.maxDepth` others, or that holds a key with a broken encoding, becomes
`malformed` when it is closed.
-/

namespace ServerUi.Json

open ServerUi.Text (Symbol)

/-- An open container with what it holds so far, backwards. -/
inductive Frame where
  | array (items : List Document)
  /-- An object before a key. -/
  | object (entries : List (Option String × Document))
  /-- An object whose next key is read. -/
  | entry (entries : List (Option String × Document)) (key : Option String)

/-- What may come next. -/
inductive Expect where
  | value
  /-- A value or the end of an array just opened. -/
  | valueOrClose
  /-- A key or the end of an object just opened. -/
  | keyOrClose
  | key
  | colon
  /-- A comma, the end of the container, or the end of the text. -/
  | more
deriving DecidableEq

/-- The machine between two tokens: the open containers, innermost first, what may come next, and
the document once it is complete. -/
structure Machine where
  stack : List Frame
  expect : Expect
  result : Option Document

namespace Machine

def initial : Machine := ⟨[], .value, none⟩

/-- Puts a complete value where it belongs. -/
def place (stack : List Frame) (d : Document) : Option Machine :=
  match stack with
  | [] => some ⟨[], .more, some d⟩
  | .array items :: rest => some ⟨.array (d :: items) :: rest, .more, none⟩
  | .entry entries key :: rest => some ⟨.object ((key, d) :: entries) :: rest, .more, none⟩
  | .object _ :: _ => none

/-- The entries of a closed object, or nothing if a key is broken. -/
def keyed : List (Option String × Document) → Option (List (String × Document))
  | [] => some []
  | (none, _) :: _ => none
  | (some k, d) :: rest => (keyed rest).map ((k, d) :: ·)

/-- The document of a container that `depth` others enclose. -/
def close (depth : Nat) (d : Option Document) : Document :=
  if depth < Document.maxDepth then d.getD .malformed else .malformed

def step (m : Machine) : Token → Option Machine
  | .openArray =>
    if m.expect = .value ∨ m.expect = .valueOrClose then
      some ⟨.array [] :: m.stack, .valueOrClose, none⟩ else none
  | .openObject =>
    if m.expect = .value ∨ m.expect = .valueOrClose then
      some ⟨.object [] :: m.stack, .keyOrClose, none⟩ else none
  | .closeArray =>
    match m.stack with
    | .array items :: rest =>
      if m.expect = .more ∨ m.expect = .valueOrClose then
        place rest (close rest.length (some (.array items.reverse))) else none
    | _ => none
  | .closeObject =>
    match m.stack with
    | .object entries :: rest =>
      if m.expect = .more ∨ m.expect = .keyOrClose then
        place rest (close rest.length ((keyed entries.reverse).map .object)) else none
    | _ => none
  | .comma =>
    if m.expect = .more then
      match m.stack with
      | .array _ :: _ => some { m with expect := .value }
      | .object _ :: _ => some { m with expect := .key }
      | _ => none
    else none
  | .colon => if m.expect = .colon then some { m with expect := .value } else none
  | .text s =>
    match m.expect with
    | .value | .valueOrClose => place m.stack (s.elim .malformed .string)
    | .key | .keyOrClose =>
      match m.stack with
      | .object entries :: rest => some ⟨.entry entries s :: rest, .colon, none⟩
      | _ => none
    | _ => none
  | .atom d =>
    if m.expect = .value ∨ m.expect = .valueOrClose then place m.stack d else none

def run : Machine → List Token → Option Document
  | m, [] => m.result
  | m, t :: rest => do
    let next ← m.step t
    next.run rest

end Machine

namespace Document

def ofSymbols (symbols : List Symbol) : Option Document := do
  let tokens ← Scan.between.run symbols
  Machine.initial.run tokens

def read (text : String) : Option Document := ofSymbols (Text.symbolsOf text)

def readBytes (bytes : List UInt8) : Option Document := ofSymbols (Text.symbols bytes)

end Document

end ServerUi.Json
