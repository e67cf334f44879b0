import ServerUi.Validation.Run

/-! # Timelines

Runs in time.  A run waits until a time that is known when it starts to wait: the validator takes
so long to answer, and each pause has its length.  What its observer is told is kept with the time.
Orders to start and to cancel are worked off in the order of their times; a run that is cancelled is
woken at once.
-/

namespace ServerUi.Validation

/-- How a validator answers: what, how long after it is asked, and whether it cancels the run. -/
structure Validator where
  answer : Except ValidatorError Verdict
  delay : Nat
  cancels : Bool

structure Timed where
  code : String
  validator : Validator
  setting : Run.Setting
  run : Run
  /-- When the run stops waiting. -/
  due : Option Nat
  /-- What the observer was told, and when. -/
  log : List (Nat × Notice)

namespace Timed

def lasts (t : Timed) : Stage → Option Nat
  | .asking => some t.validator.delay
  | .firstPause _ => some t.setting.pacing.first
  | .stepPause _ => some t.setting.pacing.step
  | .completionPause => some t.setting.pacing.completion
  | .ready | .ended _ => none

def wakeAt (now : Nat) (w : Wake) (t : Timed) : Timed :=
  let r := t.run.wake t.setting w
  { t with
    run := r
    due := (t.lasts r.stage).map (now + ·)
    log := t.log ++ (r.notices.drop t.run.notices.length).map fun n => (now, n) }

def start (now : Nat) (code : String) (v : Validator) (s : Run.Setting) (r : Run) : Timed :=
  wakeAt now .poll ⟨code, v, s, r, none, []⟩

/-- What comes when a stage has lasted its time. -/
def expected (t : Timed) : Wake :=
  match t.run.stage with
  | .asking => .answer t.validator.answer t.validator.cancels
  | _ => .elapsed

/-- Lets time pass until a limit, or until the run ends, in at most so many stretches. -/
def pass (limit : Option Nat) : Nat → Timed → Timed
  | 0, t => t
  | n + 1, t =>
    match t.due with
    | none => t
    | some d =>
      if limit.all (d < ·) then pass limit n (t.wakeAt d t.expected) else t

/-- The run waits in at most four places. -/
def passUntil (limit : Option Nat) (t : Timed) : Timed := t.pass limit 4

/-- Cancels the run at a time, and wakes it. -/
def cancelAt (now : Nat) (t : Timed) : Timed := wakeAt now .poll { t with run := t.run.cancel }

/-- One run from time zero on, cancelled before it starts or at a time. -/
def single (code : String) (v : Validator) (s : Run.Setting) : Option Nat → Timed
  | none => (start 0 code v s .fresh).passUntil none
  | some 0 => start 0 code v s Run.fresh.cancel
  | some (n + 1) =>
    ((start 0 code v s .fresh).passUntil (some (n + 1))).cancelAt (n + 1)

/-- The report of the run; one that never ends counts as cancelled. -/
def report (t : Timed) : Report := (t.run.report?).getD ⟨t.run.steps, .cancelled⟩

end Timed

inductive Order where
  /-- Start the run at a place of the request with a piece of code. -/
  | start (index : Nat) (code : String)
  | cancel

/-- Runs under one supervisor, in the order of their start, each with its place in the request. -/
structure Timeline where
  runs : List (Nat × Timed)
  current : Option Nat

namespace Timeline

/-- Puts an order among those sorted by time, behind the ones of the same time. -/
def insertOrder (o : Nat × Order) : List (Nat × Order) → List (Nat × Order)
  | [] => [o]
  | p :: rest => if o.1 < p.1 then o :: p :: rest else p :: insertOrder o rest

def sorted (os : List (Nat × Order)) : List (Nat × Order) :=
  os.foldl (fun r o => insertOrder o r) []

/-- Changes the run at a place in the order of starts. -/
def change (f : Timed → Timed) (i : Nat) (runs : List (Nat × Timed)) : List (Nat × Timed) :=
  runs.modify i fun p => (p.1, f p.2)

def cancelCurrent (now : Nat) (l : Timeline) : List (Nat × Timed) :=
  match l.current with
  | none => l.runs
  | some i => change (Timed.cancelAt now) i l.runs

def step (validator : String → Validator) (s : Run.Setting) (l : Timeline) (o : Nat × Order) :
    Timeline :=
  let l : Timeline := ⟨l.runs.map fun (i, t) => (i, t.passUntil (some o.1)), l.current⟩
  match o.2 with
  | .cancel => ⟨l.cancelCurrent o.1, none⟩
  | .start index code =>
    ⟨l.cancelCurrent o.1 ++ [(index, .start o.1 code (validator code) s .fresh)],
      some l.runs.length⟩

/-- The runs that orders bring about, at the end of time. -/
def ofOrders (validator : String → Validator) (s : Run.Setting) (os : List (Nat × Order)) :
    List (Nat × Timed) :=
  let last := (sorted os).foldl (step validator s) ⟨[], none⟩
  last.runs.map fun (i, t) => (i, t.passUntil none)

end Timeline

end ServerUi.Validation
