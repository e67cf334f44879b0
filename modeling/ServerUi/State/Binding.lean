import ServerUi.Action.Spec
import ServerUi.Decimal.Reading
import ServerUi.Text.Character
import ServerUi.Value.Codec

/-! # Bindings

A binding is a named slot of the state with a declared kind.  Whatever is written to it is coerced
to that kind, so its value always has the declared shape.  A state block is the part of a tree that
declares bindings and the actions to raise when they change.
-/

namespace ServerUi

open ServerUi.Json (Document Record Field)

inductive BindingKind where
  | string
  | number
  | boolean
  | object
  | array
deriving DecidableEq, Repr

namespace BindingKind

def name : BindingKind → String
  | .string => "string"
  | .number => "number"
  | .boolean => "boolean"
  | .object => "object"
  | .array => "array"

def ofName? (s : String) : Option BindingKind :=
  [.string, .number, .boolean, .object, .array].find? (·.name == s)

def ofDocument (d : Document) : Option BindingKind := d.name?.bind ofName?

/-- The value of a binding that declares none. -/
def zero : BindingKind → Value
  | .string => .string ""
  | .number => .int 0
  | .boolean => .bool false
  | .object => .object []
  | .array => .array []

/-- The number that a user typed, or zero.  It is an integer if it is written as one and fits, and
a float if it is any other finite decimal. -/
def typedNumber (s : String) : Value :=
  let cs := Text.trimBlank s.toList
  match (Decimal.integerOf? cs).bind int64? with
  | some i => .int i
  | none =>
    match Decimal.decimalOf? cs with
    | some x => if x.isFinite then .float x else .int 0
    | none => .int 0

/-- Is the text the word for truth, in any case? -/
def typedTruth (s : String) : Bool := s.toList.map Char.toLower == "true".toList

/-- The value of this kind that an incoming value becomes. -/
def coerce : BindingKind → Value → Value
  | .string, v => .string v.display
  | .number, .int i => .int i
  | .number, .float x => .float x
  | .number, .string s => typedNumber s
  | .number, _ => .int 0
  | .boolean, .bool b => .bool b
  | .boolean, .string s => .bool (typedTruth s)
  | .boolean, _ => .bool false
  | .object, .object entries => .object entries
  | .object, _ => .object []
  | .array, .array items => .array items
  | .array, _ => .array []

/-- Has a value the shape of this kind? -/
def admits : BindingKind → Value → Bool
  | .string, .string _ => true
  | .number, .int _ => true
  | .number, .float _ => true
  | .boolean, .bool _ => true
  | .object, .object _ => true
  | .array, .array _ => true
  | _, _ => false

theorem admits_typedNumber (s : String) : number.admits (typedNumber s) = true := by
  unfold typedNumber
  dsimp only
  split
  · rfl
  · split
    · split <;> rfl
    · rfl

theorem admits_coerce (k : BindingKind) (v : Value) : k.admits (k.coerce v) = true := by
  cases k <;> cases v <;> first | rfl | exact admits_typedNumber _

theorem admits_zero (k : BindingKind) : k.admits k.zero = true := by
  cases k <;> rfl

end BindingKind

/-- A named slot of the state. -/
structure Binding where
  /-- The name the binding gives itself; the key it is declared under is the one that counts. -/
  key : String
  kind : BindingKind
  default : Option Value
  computed : Option Bool
  formula : Option String

namespace Binding

def plain (key : String) (kind : BindingKind) : Binding := ⟨key, kind, none, none, none⟩

def computedBy (key : String) (kind : BindingKind) (formula : String) : Binding :=
  ⟨key, kind, none, some true, some formula⟩

def withDefault (b : Binding) (v : Value) : Binding := { b with default := some v }

/-- Is the binding declared as computed, with or without a formula? -/
def declaresComputed (b : Binding) : Bool := b.computed == some true

def source? (b : Binding) : Option String := if b.declaresComputed then b.formula else none

def initial (b : Binding) : Value :=
  match b.default with
  | some v => b.kind.coerce v
  | none => b.kind.zero

theorem admits_initial (b : Binding) : b.kind.admits b.initial = true := by
  unfold initial
  split
  · exact b.kind.admits_coerce _
  · exact b.kind.admits_zero

def fields : List Field :=
  [.defaulted "key", .required "type", .defaulted "defaultValue", .defaulted "computed",
    .defaulted "expression"]

def ofDocument (d : Document) : Option Binding := do
  let r ← Record.ofDocument fields d
  let key ← r.defaulted "key" "" (·.string?)
  let kind ← r.required "type" BindingKind.ofDocument
  let default ← r.optional "defaultValue" Value.ofDocument
  let computed ← r.optional "computed" (·.bool?)
  let formula ← r.optional "expression" (·.string?)
  pure ⟨key, kind, default, computed, formula⟩

def toDocument (b : Binding) : Document :=
  .object ([("key", .string b.key), ("type", .string b.kind.name)]
    ++ Document.whenSome "defaultValue" Value.toDocument b.default
    ++ Document.whenSome "computed" .bool b.computed
    ++ Document.whenSome "expression" .string b.formula)

def decode (text : String) : Option Binding := (Document.read text).bind ofDocument

/-- The compact text of a binding, or the float that has none. -/
def encode (b : Binding) : Except Float String := b.toDocument.encode

end Binding

structure Watcher where
  key : String
  action : ActionSpec

namespace Watcher

def ofDocument (d : Document) : Option Watcher := do
  let r ← Record.ofDocument [.required "key", .required "action"] d
  let key ← r.required "key" (·.string?)
  let action ← r.required "action" ActionSpec.ofDocument
  pure ⟨key, action⟩

def toDocument (w : Watcher) : Document :=
  .object [("key", .string w.key), ("action", w.action.toDocument)]

end Watcher

structure StateBlock where
  bindings : Table Binding
  watchers : List Watcher

namespace StateBlock

instance : EmptyCollection StateBlock := ⟨⟨∅, []⟩⟩
instance : Inhabited StateBlock := ⟨∅⟩

def bind (s : StateBlock) (b : Binding) : StateBlock :=
  { s with bindings := s.bindings.insert b.key b }

def watch (s : StateBlock) (key : String) (action : ActionSpec) : StateBlock :=
  { s with watchers := s.watchers ++ [⟨key, action⟩] }

def ofDocument (d : Document) : Option StateBlock := do
  let r ← Record.ofDocument [.defaulted "bindings", .defaulted "watchers"] d
  let bindings ← r.defaulted "bindings" ∅ (·.table? Binding.ofDocument)
  let watchers ← r.defaulted "watchers" [] (·.list? Watcher.ofDocument)
  pure ⟨bindings, watchers⟩

def toDocument (s : StateBlock) : Document :=
  .object [
    ("bindings", .object (s.bindings.entries.map fun e => (e.1, e.2.toDocument))),
    ("watchers", .array (s.watchers.map Watcher.toDocument))]

def decode (text : String) : Option StateBlock := (Document.read text).bind ofDocument

end StateBlock

end ServerUi
