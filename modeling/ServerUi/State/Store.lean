import ServerUi.Expr.Basic
import ServerUi.Expr.Eval
import ServerUi.Expr.Parser
import ServerUi.State.Binding
import ServerUi.Table

/-! # The store

A store holds the value of every binding of a state block.  What the block declares is kept as a
schema that never changes; a write changes values only.  After each accepted write the computed
bindings are evaluated in the order of the plan, and one whose formula fails keeps its value.
Watchers are not run here: a write returns an event for each of them.

Computed bindings may read one another.  Their order is found in rounds: each round takes, in the
order of keys, every formula that names no formula still waiting.  A formula on a cycle, or one
that reads from a cycle, is never taken.
-/

namespace ServerUi

/-! ## The order of evaluation -/

namespace Plan

/-- Does the formula name none of the waiting keys? -/
def isReady (waiting : Entries Expr) (e : Expr) : Bool :=
  e.names.all fun k => !waiting.keys.contains k

def rounds : Nat → Entries Expr → Entries Expr
  | 0, _ => []
  | n + 1, waiting =>
    let ready := waiting.filter fun p => isReady waiting p.2
    if ready.isEmpty then []
    else ready ++ rounds n (waiting.filter fun p => !isReady waiting p.2)

/-- The formulas that can be evaluated, each behind those it reads. -/
def order (formulas : Entries Expr) : Entries Expr := rounds formulas.length formulas

end Plan

/-! ## Schemas and stores -/

structure Computation where
  key : String
  kind : BindingKind
  formula : Expr

structure Schema where
  bindings : Table Binding
  watchers : List Watcher
  /-- The keys of computed bindings, also of those whose formula cannot be read. -/
  computed : List String
  /-- The computed bindings that can be evaluated, in their order. -/
  plan : List Computation

namespace Schema

/-- The formulas of the computed bindings that can be read. -/
def formulas (bindings : Table Binding) : Entries Expr :=
  bindings.entries.filterMap fun e => do
    let source ← e.2.source?
    let formula ← Expr.parse? source
    pure (e.1, formula)

def ofBlock (s : StateBlock) : Schema where
  bindings := s.bindings
  watchers := s.watchers
  computed := (s.bindings.entries.filter fun e => e.2.source?.isSome).map (·.1)
  plan := (Plan.order (formulas s.bindings)).filterMap fun e => do
    let b ← s.bindings.find? e.1
    pure ⟨e.1, b.kind, e.2⟩

def isComputed (s : Schema) (key : String) : Bool := s.computed.contains key

end Schema

/-- Evaluates one computed binding; a formula that fails changes nothing. -/
def Computation.run (values : Table Value) (c : Computation) : Table Value :=
  match c.formula.eval values with
  | .ok v => values.insert c.key (c.kind.coerce v)
  | .error _ => values

structure Store where
  schema : Schema
  values : Table Value

/-- A key has changed, and somebody watches it. -/
structure WatchEvent where
  key : String
  old : Value
  new : Value
  action : ActionSpec

inductive WriteOutcome where
  | unknownKey
  | computedKey
  /-- The value was stored; it may be the same as before. -/
  | applied (old new : Value) (events : List WatchEvent)

namespace WriteOutcome

def isApplied : WriteOutcome → Bool
  | .applied .. => true
  | _ => false

/-- Does the stored value differ from the one before? -/
def changed : WriteOutcome → Bool
  | .applied old new _ => !old.looseEq new
  | _ => false

def events : WriteOutcome → List WatchEvent
  | .applied _ _ es => es
  | _ => []

end WriteOutcome

namespace Store

def recompute (plan : List Computation) (values : Table Value) : Table Value :=
  plan.foldl Computation.run values

def ofBlock (s : StateBlock) : Store :=
  let schema := Schema.ofBlock s
  ⟨schema, recompute schema.plan (s.bindings.map Binding.initial)⟩

def get? (s : Store) (key : String) : Option Value := s.values.find? key

def snapshot (s : Store) : Value := .ofTable s.values

/-- The events of the watchers of a key whose value changes. -/
def eventsOf (s : Store) (key : String) (old new : Value) : List WatchEvent :=
  if old.looseEq new then []
  else (s.schema.watchers.filter (·.key == key)).map fun w => ⟨key, old, new, w.action⟩

/-- Writes a value to a key.  A key that is not bound, or is computed, is refused. -/
def write (s : Store) (key : String) (v : Value) : Store × WriteOutcome :=
  match s.schema.bindings.find? key with
  | none => (s, .unknownKey)
  | some b =>
    if s.schema.isComputed key then (s, .computedKey)
    else
      let new := b.kind.coerce v
      let old := (s.values.find? key).getD .null
      ({ s with values := recompute s.schema.plan (s.values.insert key new) },
        .applied old new (s.eventsOf key old new))

end Store

end ServerUi
