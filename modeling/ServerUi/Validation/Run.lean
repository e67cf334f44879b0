import ServerUi.Validation.Step

/-! # Runs

A run is one check of one piece of code.  It asks a validator, and shows the answer as two steps
with pauses between them.  It waits in four places, and each stretch between two of them is one
`wake`.  A run that is woken after it was cancelled ends there and tells its observer nothing more;
a pause of no length is passed over, but not without a look at the cancellation.

A supervisor lets at most one run live: to begin a run cancels the one before it.  It keeps every
run it ever began, in order, and the place of the one that is current.
-/

namespace ServerUi.Validation

/-- The pauses of a run, in milliseconds. -/
structure Pacing where
  first : Nat
  step : Nat
  completion : Nat
deriving DecidableEq, Repr

/-- The pauses that are taken when none are set. -/
def Pacing.default : Pacing := ⟨1000, 500, 1000⟩

inductive Stage where
  | ready
  | asking
  | firstPause (v : Verdict)
  | stepPause (v : Verdict)
  | completionPause
  | ended (e : Ending)
deriving DecidableEq, Repr

inductive Wake where
  /-- Nothing has come; the run looks whether it is cancelled. -/
  | poll
  /-- The validator answers; it may cancel the run as it does. -/
  | answer (result : Except ValidatorError Verdict) (cancels : Bool)
  /-- The pause is over. -/
  | elapsed

structure Run where
  stage : Stage
  steps : List Step
  /-- What the observer was told, in order. -/
  notices : List Notice
  cancelled : Bool
  /-- Was the validator asked? -/
  asked : Bool
deriving DecidableEq

namespace Run

def fresh : Run := ⟨.ready, Step.initial, [], false, false⟩

/-- Cancels the run; it ends when it is woken. -/
def cancel (r : Run) : Run := { r with cancelled := true }

def stop (r : Run) (e : Ending) : Run := { r with stage := .ended e }

def withStatus : List Step → Nat → Status → List Step
  | [], _, _ => []
  | s :: rest, 0, status => { s with status := status } :: rest
  | s :: rest, i + 1, status => s :: withStatus rest i status

/-- The pauses of a run, and which notices make its observer cancel it. -/
structure Setting where
  pacing : Pacing
  reacts : Notice → Bool

/-- An observer that cancels nothing. -/
def Setting.ofPacing (p : Pacing) : Setting := ⟨p, fun _ => false⟩

variable (s : Setting)

/-- Changes a step and tells the observer, who may cancel the run. -/
def set (i : Nat) (status : Status) (r : Run) : Run :=
  let notice := Notice.stepChanged i status
  { r with
    steps := withStatus r.steps i status
    notices := r.notices ++ [notice]
    cancelled := r.cancelled || s.reacts notice }

def fail (i : Nat) (reason : FailureReason) (r : Run) : Run :=
  let r := set s i .failed r
  { r with notices := r.notices ++ [.failed reason], stage := .ended (.failed reason) }

/-- Waits for a pause, unless the run is cancelled or the pause has no length. -/
def pause (delay : Nat) (waiting : Stage) (next : Run → Run) (r : Run) : Run :=
  if r.cancelled then r.stop .cancelled
  else if delay = 0 then next r
  else { r with stage := waiting }

/-- Both steps have succeeded and the last pause is over. -/
def complete (r : Run) : Run :=
  { r with notices := r.notices ++ [.completed], stage := .ended .completed }

/-- The pause of the second step is over. -/
def showSecond (v : Verdict) (r : Run) : Run :=
  if v.serialize then pause s.pacing.completion .completionPause complete (set s 1 .success r)
  else fail s 1 (.stepFailed 1) r

/-- The pause of the first step is over. -/
def showFirst (v : Verdict) (r : Run) : Run :=
  if v.typecheck then
    pause s.pacing.step (.stepPause v) (showSecond s v) (set s 1 .loading (set s 0 .success r))
  else fail s 0 (.stepFailed 0) r

def receive (r : Run) : Except ValidatorError Verdict → Run
  | .error e => fail s 0 (.error e) r
  | .ok v => pause s.pacing.first (.firstPause v) (showFirst s v) r

def begin (r : Run) : Run :=
  let r := set s 0 .loading r
  if r.cancelled then r.stop .cancelled else { r with stage := .asking, asked := true }

/-- One stretch of a run, up to the place where it waits next. -/
def wake (w : Wake) (r : Run) : Run :=
  match r.stage with
  | .ready => begin s r
  | .ended _ => r
  | .asking =>
    if r.cancelled then r.stop .cancelled
    else match w with
      | .answer result cancels => receive s { r with cancelled := cancels } result
      | _ => r
  | .firstPause v =>
    if r.cancelled then r.stop .cancelled
    else match w with
      | .elapsed => showFirst s v r
      | _ => r
  | .stepPause v =>
    if r.cancelled then r.stop .cancelled
    else match w with
      | .elapsed => showSecond s v r
      | _ => r
  | .completionPause =>
    if r.cancelled then r.stop .cancelled
    else match w with
      | .elapsed => complete r
      | _ => r

def report? (r : Run) : Option Report :=
  match r.stage with
  | .ended e => some ⟨r.steps, e⟩
  | _ => none

end Run

/-! ## Supersession -/

/-- Every run begun so far, and which of them is current. -/
structure Supervisor where
  runs : List Run
  current : Option Nat

namespace Supervisor

def initial : Supervisor := ⟨[], none⟩

inductive Event where
  /-- A run is begun; it starts when it is first woken. -/
  | begin
  | cancel
  | wake (index : Nat) (w : Wake)

def cancelCurrent (v : Supervisor) : List Run :=
  match v.current with
  | none => v.runs
  | some i => v.runs.modify i Run.cancel

def step (s : Run.Setting) (v : Supervisor) : Event → Supervisor
  | .begin => ⟨v.cancelCurrent ++ [.fresh], some v.runs.length⟩
  | .cancel => ⟨v.cancelCurrent, none⟩
  | .wake i w => { v with runs := v.runs.modify i (Run.wake s w) }

def after (s : Run.Setting) (events : List Event) : Supervisor :=
  events.foldl (step s) initial

end Supervisor

end ServerUi.Validation
