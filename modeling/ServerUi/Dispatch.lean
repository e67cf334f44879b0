import ServerUi.Action.Basic
import ServerUi.State.Reference

/-! # Dispatch

A dispatcher performs actions against a store and collaborators.  It never fails: an action that
cannot be performed is dropped, with the reason.  What one dispatch does is kept in a trace: the
store, the effects, the dropped actions, and the calls that reached collaborators, each in order.

An update of the state raises an event for each watcher of the key, and the actions of the watchers
are performed in turn.  They may raise events again, down to a greatest depth; the recursion is on
the depth that is left.
-/

namespace ServerUi

inductive ScriptError where
  | invalidSource (reason : String)
  | raised (reason : String)
  | limitExceeded (limit : String)
  | unavailable (reason : String)
deriving DecidableEq, Repr

def ScriptError.message : ScriptError → String
  | .invalidSource reason => s!"Script syntax error: {reason}"
  | .raised reason => s!"Script runtime error: {reason}"
  | .limitExceeded limit => s!"Script exceeded {limit} limit"
  | .unavailable reason => s!"Script sandbox unavailable: {reason}"

/-- Whether somebody listens to navigation. -/
inductive Channel where
  | opened
  | closed
deriving DecidableEq, Repr

/-- Those who perform effects; each may be missing. -/
structure Collaborators where
  api : Bool
  share : Bool
  /-- Runs a script on a snapshot of the state. -/
  script : Option (String → Value → Except ScriptError Value)
  navigation : Option Channel

def Collaborators.none : Collaborators := ⟨false, false, .none, .none⟩

/-- What a collaborator was asked to do. -/
inductive Call where
  | api (request : ApiRequest)
  | share (text : String)
  | script (source : String) (state : Value)
  | navigate (target : String)

/-- What an action did. -/
inductive Effect where
  | apiCall (url : String)
  | navigation (target : String)
  | script (result : Value)
  | share (text : String)
  | stateUpdate (key : String) (changed : Bool)
  /-- The kind of the action is not known. -/
  | ignored (tag : String)

/-- What a dispatch did, with the actions that its updates raised. -/
structure Outcome where
  effects : List Effect
  dropped : List ActionError

namespace Outcome

def empty : Outcome := ⟨[], []⟩

/-- Was no action dropped? -/
def isClean (o : Outcome) : Bool := o.dropped.isEmpty

/-- The number of updates that changed a value. -/
def stateChanges (o : Outcome) : Nat :=
  (o.effects.filter fun
    | .stateUpdate _ changed => changed
    | _ => false).length

def append (a b : Outcome) : Outcome := ⟨a.effects ++ b.effects, a.dropped ++ b.dropped⟩

end Outcome

/-- What has been done so far. -/
structure Trace where
  store : Option Store
  outcome : Outcome
  calls : List Call

namespace Trace

def start (store : Option Store) : Trace := ⟨store, .empty, []⟩

def effect (t : Trace) (e : Effect) : Trace :=
  { t with outcome := { t.outcome with effects := t.outcome.effects ++ [e] } }

def drop (t : Trace) (e : ActionError) : Trace :=
  { t with outcome := { t.outcome with dropped := t.outcome.dropped ++ [e] } }

def call (t : Trace) (c : Call) : Trace := { t with calls := t.calls ++ [c] }

end Trace

structure Dispatcher where
  collaborators : Collaborators
  maxDepth : Nat
  /-- Stamped onto requests, so that late replies can be told. -/
  generation : Nat

namespace Dispatcher

variable (d : Dispatcher)

/-- Writes to the store and hands the events of the watchers on, one after the other. -/
def store (fire : WatchEvent → Trace → Trace) (s : Store) (key : String) (v : Value)
    (t : Trace) : Trace :=
  let (s, result) := s.write key v
  if result.isApplied then
    result.events.foldl (fun t e => fire e t)
      ({ t with store := some s }.effect (.stateUpdate key result.changed))
  else t

/-- Performs one action; `fire` takes the events that it raises. -/
def perform (fire : WatchEvent → Trace → Trace) (spec : ActionSpec) (t : Trace) : Trace :=
  match Action.ofSpec spec with
  | .error e => t.drop e
  | .ok (.update key v) =>
    match t.store with
    | none => t.drop (.noStore key)
    | some s => store fire s key (v.resolveDeep t.store) t
  | .ok (.apiCall request) =>
    if d.collaborators.api then
      let sent := { request with
        generation := d.generation
        body := request.body.map (·.resolveDeep t.store) }
      (t.effect (.apiCall request.url)).call (.api sent)
    else t.drop (.noCollaborator .apiCall)
  | .ok (.navigate target) =>
    match d.collaborators.navigation with
    | none => t.drop (.noCollaborator .navigation)
    | some .closed => t.drop .channelClosed
    | some .opened => (t.call (.navigate target)).effect (.navigation target)
  | .ok (.runScript source) =>
    match d.collaborators.script with
    | none => t.drop (.noCollaborator .script)
    | some run =>
      let state := t.store.elim .null Store.snapshot
      let t := t.call (.script source state)
      match run source state with
      | .ok result => t.effect (.script result)
      | .error e => t.drop (.scriptFailed e.message)
  | .ok (.share text) =>
    if d.collaborators.share then (t.call (.share text)).effect (.share text)
    else t.drop (.noCollaborator .share)
  | .ok (.unknown tag) => t.effect (.ignored tag)

/-- Takes an event while so much depth is left: performs the action of the watcher, or drops it
where none is left. -/
def fire : Nat → WatchEvent → Trace → Trace
  | 0, e, t => t.drop (.cascadeTooDeep d.maxDepth e.key)
  | n + 1, e, t => d.perform (fire n) e.boundAction t

/-- Performs an action and all that it raises. -/
def dispatch (spec : ActionSpec) (store : Option Store) : Trace :=
  d.perform (d.fire d.maxDepth) spec (.start store)

/-- Writes a value as it is, as an edit of the user does, and performs all that it raises. -/
def write (s : Store) (key : String) (v : Value) : Trace :=
  store (d.fire d.maxDepth) s key v (.start (some s))

end Dispatcher

end ServerUi
