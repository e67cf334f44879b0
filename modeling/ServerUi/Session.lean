import ServerUi.Dispatch
import ServerUi.Render

/-! # Sessions

A session is one displayed tree with its store.  Events of the user and replies to requests go
through a dispatcher.  Every tree has a generation of its own, and a reply to a request of an
earlier generation is dropped.  The revision grows with every change, so it tells whether what was
displayed last is still right.
-/

namespace ServerUi

inductive UiEvent where
  | tap (id : String)
  | textChanged (id text : String)
  | pickerSelected (id value : String)
  | imagePicked (id url : String)
deriving DecidableEq, Repr

def UiEvent.target : UiEvent → String
  | .tap id => id
  | .textChanged id _ => id
  | .pickerSelected id _ => id
  | .imagePicked id _ => id

structure ApiResult where
  generation : Nat
  url : String
  resultKey : Option String
  /-- The value received, or why there is none. -/
  result : Except String Value

/-- How many replies were taken from the inbox, and how many were written to the store. -/
structure PumpReport where
  consumed : Nat
  applied : Nat
deriving DecidableEq, Repr

/-- A displayed tree with its store.  Generations and revisions are counted without a bound: what is
said of a session holds of one that counts them in words of 64 bits while it has seen fewer than
`2 ^ 64` of either. -/
structure Session where
  tree : Node
  store : Option Store
  dispatcher : Dispatcher
  generation : Nat
  inbox : List ApiResult
  revision : Nat
  /-- The revision that was displayed last. -/
  rendered : Option Nat

namespace Session

/-- The dispatcher that stamps requests with a generation. -/
def stamped (d : Dispatcher) (generation : Nat) : Dispatcher := { d with generation := generation }

def start (tree : Node) (d : Dispatcher) : Session :=
  let tree := tree.withPathIds
  ⟨tree, tree.state.map Store.ofBlock, stamped d 1, 1, [], 0, none⟩

def replaceTree (s : Session) (tree : Node) : Session :=
  let tree := tree.withPathIds
  { s with
    tree := tree
    store := tree.state.map Store.ofBlock
    generation := s.generation + 1
    dispatcher := stamped s.dispatcher (s.generation + 1)
    revision := s.revision + 1 }

/-- Has something changed since the last display? -/
def needsRender (s : Session) : Bool := s.rendered != some s.revision

def element (s : Session) : Element := Render.element s.store s.tree

def render (s : Session) : Session × Element := ({ s with rendered := some s.revision }, s.element)

/-- The truth value that a property of a node resolves to. -/
def flag (s : Session) (n : Node) (key : String) (default : Bool) : Bool :=
  (((n.props.find? key).map (·.resolve s.store)).bind (·.bool?)).getD default

/-- Is the button of a node to be pressed? -/
def isActive (s : Session) (n : Node) : Bool :=
  s.flag n "enabled" true && !s.flag n "loading" false

/-- Performs the action of a node, if it has one. -/
def raise (s : Session) (n : Node) (store : Option Store) : Trace :=
  match n.action? with
  | some a => s.dispatcher.dispatch a store
  | none => .start store

/-- Writes an edit to the key that a property is bound to. -/
def writeBound (s : Session) (n : Node) (key : String) (v : Value) : Trace :=
  match (n.props.find? key).bind (·.stateKey?), s.store with
  | some bound, some store => s.dispatcher.write store bound v
  | _, _ => .start s.store

/-- Writes an edit and then performs the action of the node. -/
def edit (s : Session) (n : Node) (key : String) (v : Value) : Trace :=
  let first := s.writeBound n key v
  let second := s.raise n first.store
  ⟨second.store, first.outcome.append second.outcome, first.calls ++ second.calls⟩

/-- What an event does, without the change of the session. -/
def react (s : Session) (n : Node) : UiEvent → Trace
  | .tap _ => if n.kind = .button ∧ ¬ s.isActive n then .start s.store else s.raise n s.store
  | .textChanged _ text => s.edit n "text" (.string text)
  | .pickerSelected _ value => s.edit n "selectedValue" (.string value)
  | .imagePicked _ url => s.edit n "imageUrl" (.string url)

/-- The session after a trace; an effect makes a new revision. -/
def after (s : Session) (t : Trace) : Session :=
  { s with
    store := t.store
    revision := if t.outcome.effects.isEmpty then s.revision else s.revision + 1 }

/-- Takes an event of the user.  One for an element that is not displayed does nothing. -/
def handle (s : Session) (e : UiEvent) : Session × Outcome × List Call :=
  match s.tree.find? e.target with
  | none => (s, .empty, [])
  | some n =>
    let t := s.react n e
    (s.after t, t.outcome, t.calls)

def receive (s : Session) (r : ApiResult) : Session := { s with inbox := s.inbox ++ [r] }

/-- Where a reply is to be written: nowhere if it is late or failed, or has no key or no store. -/
def destination? (s : Session) (r : ApiResult) : Option (Store × String × Value) :=
  if r.generation ≠ s.generation then none
  else match r.result, r.resultKey, s.store with
    | .ok v, some key, some store => some (store, key, v)
    | _, _, _ => none

/-- A pump under way: the session, its report and the calls made. -/
structure Pump where
  session : Session
  report : PumpReport
  calls : List Call

def Pump.take (p : Pump) (r : ApiResult) : Pump :=
  let consumed := p.report.consumed + 1
  match p.session.destination? r with
  | none => { p with report := { p.report with consumed := consumed } }
  | some (store, key, v) =>
    let t := p.session.dispatcher.write store key v
    ⟨p.session.after t, ⟨consumed, p.report.applied + 1⟩, p.calls ++ t.calls⟩

/-- Takes every reply out of the inbox, in order. -/
def pump (s : Session) : Pump :=
  s.inbox.foldl Pump.take ⟨{ s with inbox := [] }, ⟨0, 0⟩, []⟩

end Session

end ServerUi
