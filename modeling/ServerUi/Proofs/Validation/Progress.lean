import Mathlib.Data.List.Infix
import ServerUi.Validation.Run

/-! # The progress of one run

A run that nothing disturbs shows four changes of its steps, one after the other, and then that it
is completed.  At each stage it has told its observer a fixed part of that (`Told`), and its steps
are the initial ones with what was told put into effect (`Faithful`).  Each stretch of a run keeps
both, whatever wakes it and whenever it is cancelled (`Faithful.wake`), and together they settle
what the observer can see of a run (`Faithful.accounted`).
-/

namespace ServerUi.Validation

/-- The changes that a run shows if nothing disturbs it. -/
def path : List (Nat × Status) :=
  [(0, .loading), (0, .success), (1, .loading), (1, .success)]

/-- The changes go along the path, and perhaps the step that is loading then fails. -/
inductive OnPath : List (Nat × Status) → Prop where
  | along (changes : List (Nat × Status)) : changes <+: path → OnPath changes
  | failing (before : List (Nat × Status)) (i : Nat) :
    before ++ [(i, .loading)] <+: path → OnPath (before ++ [(i, .loading), (i, .failed)])

/-- The steps after changes of their status. -/
def applied (steps : List Step) (changes : List (Nat × Status)) : List Step :=
  changes.foldl (fun steps c => steps.modify c.1 fun step => { step with status := c.2 }) steps

namespace Notice

/-- The notice of a change. -/
def ofChange (c : Nat × Status) : Notice := .stepChanged c.1 c.2

/-- The change that a notice tells. -/
def change? : Notice → Option (Nat × Status)
  | .stepChanged i status => some (i, status)
  | _ => none

def failure? : Notice → Option FailureReason
  | .failed reason => some reason
  | _ => none

end Notice

def Ending.reason? : Ending → Option FailureReason
  | .failed reason => some reason
  | _ => none

/-- The notices of the first changes on the path. -/
def shown (n : Nat) : List Notice := (path.take n).map .ofChange

/-- What the observer of a run has been told at a stage. -/
inductive Told : Stage → List Notice → Prop where
  | ready : Told .ready (shown 0)
  | asking : Told .asking (shown 1)
  | firstPause (v : Verdict) : Told (.firstPause v) (shown 1)
  | stepPause (v : Verdict) : Told (.stepPause v) (shown 3)
  | completionPause : Told .completionPause (shown 4)
  | completed : Told (.ended .completed) (shown 4 ++ [.completed])
  | failed (n i : Nat) (reason : FailureReason) : path[n]? = some (i, .loading) →
    Told (.ended (.failed reason)) (shown (n + 1) ++ [.stepChanged i .failed, .failed reason])
  | cancelled (n : Nat) : Told (.ended .cancelled) (shown n)

namespace Run

def changes (r : Run) : List (Nat × Status) := r.notices.filterMap Notice.change?

def failures (r : Run) : List FailureReason := r.notices.filterMap Notice.failure?

/-- How the run ended, if it did. -/
def ending? (r : Run) : Option Ending := r.report?.map Report.ending

/-- The run has shown so many changes of the path and nothing else. -/
structure Shown (n : Nat) (r : Run) : Prop where
  notices : r.notices = shown n
  steps : r.steps = applied Step.initial r.changes

/-- What the observer was told suits the stage of the run, and it is what the steps show. -/
structure Faithful (r : Run) : Prop where
  told : Told r.stage r.notices
  steps : r.steps = applied Step.initial r.changes

/-- What an observer can rely on, at any moment of a run. -/
structure Accounted (r : Run) : Prop where
  onPath : OnPath r.changes
  completions : r.notices.count .completed = if r.ending? = some .completed then 1 else 0
  atLast : r.ending? = some .completed → r.notices = path.map .ofChange ++ [.completed]
  failures : r.failures = (r.ending?.bind Ending.reason?).toList
  report : ∀ report, r.report? = some report → report.steps = applied Step.initial r.changes

variable {s : Setting} {r : Run} {n : Nat}

/-! ## Changes of steps -/

theorem withStatus_eq_modify (steps : List Step) (i : Nat) (status : Status) :
    withStatus steps i status = steps.modify i fun step => { step with status := status } := by
  induction steps generalizing i with
  | nil => rw [withStatus, List.modify_nil]
  | cons step rest ih =>
    cases i with
    | zero => rw [withStatus, List.modify_zero_cons]
    | succ i => rw [withStatus, List.modify_succ_cons, ih]

theorem applied_concat (steps : List Step) (changes : List (Nat × Status)) (i : Nat)
    (status : Status) :
    applied steps (changes ++ [(i, status)]) = withStatus (applied steps changes) i status := by
  rw [withStatus_eq_modify, applied, List.foldl_append]
  rfl

theorem changes_set (i : Nat) (status : Status) :
    (set s i status r).changes = r.changes ++ [(i, status)] := by
  show List.filterMap _ (r.notices ++ [_]) = _
  rw [List.filterMap_append]
  rfl

theorem steps_set (h : r.steps = applied Step.initial r.changes) (i : Nat) (status : Status) :
    (set s i status r).steps = applied Step.initial (set s i status r).changes := by
  rw [changes_set, applied_concat, ← h]
  rfl

theorem shown_succ {c : Nat × Status} (h : path[n]? = some c) :
    shown (n + 1) = shown n ++ [.ofChange c] := by
  rw [shown, List.take_add_one, h, List.map_append]
  rfl

theorem Shown.set {i : Nat} {status : Status} (h : Shown n r)
    (hc : path[n]? = some (i, status)) : Shown (n + 1) (set s i status r) := by
  refine ⟨?_, steps_set h.steps i status⟩
  rw [shown_succ hc, ← h.notices]
  rfl

/-! ## The parts of a stretch -/

theorem Shown.stop (h : Shown n r) : Faithful (r.stop .cancelled) := by
  refine ⟨?_, h.steps⟩
  show Told (.ended .cancelled) r.notices
  rw [h.notices]
  exact .cancelled n

theorem Shown.unlessCancelled (h : Shown n r) {next : Run} (goes : Faithful next) :
    Faithful (if r.cancelled then r.stop .cancelled else next) := by
  split
  · exact h.stop
  · exact goes

theorem Shown.fail {i : Nat} (h : Shown (n + 1) r) (hi : path[n]? = some (i, .loading))
    (reason : FailureReason) : Faithful (fail s i reason r) := by
  constructor
  · show Told (.ended (.failed reason)) ((r.notices ++ [_]) ++ [_])
    rw [h.notices, List.append_assoc]
    exact .failed n i reason hi
  · have changes : (Run.fail s i reason r).changes = (Run.set s i .failed r).changes := by
      show List.filterMap _ (_ ++ [Notice.failed reason]) = _
      rw [List.filterMap_append]
      exact List.append_nil _
    rw [changes]
    exact steps_set h.steps i .failed

theorem Shown.pause {waiting : Stage} {next : Run → Run} (h : Shown n r)
    (waits : Told waiting (shown n)) (goes : Faithful (next r)) (delay : Nat) :
    Faithful (pause delay waiting next r) := by
  refine h.unlessCancelled ?_
  split
  · exact goes
  · refine ⟨?_, h.steps⟩
    show Told waiting r.notices
    rw [h.notices]
    exact waits

theorem Shown.complete (h : Shown 4 r) : Faithful (complete r) := by
  constructor
  · show Told (.ended .completed) (r.notices ++ [.completed])
    rw [h.notices]
    exact .completed
  · have changes : (Run.complete r).changes = r.changes := by
      show List.filterMap _ (_ ++ [Notice.completed]) = _
      rw [List.filterMap_append]
      exact List.append_nil _
    rw [changes]
    exact h.steps

theorem Shown.showSecond (h : Shown 3 r) (v : Verdict) : Faithful (showSecond s v r) := by
  unfold Run.showSecond
  split
  · have success : Shown 4 (Run.set s 1 .success r) := h.set rfl
    exact success.pause .completionPause success.complete _
  · exact h.fail rfl _

theorem Shown.showFirst (h : Shown 1 r) (v : Verdict) : Faithful (showFirst s v r) := by
  unfold Run.showFirst
  split
  · have success : Shown 2 (Run.set s 0 .success r) := h.set rfl
    have loading : Shown 3 (Run.set s 1 .loading (Run.set s 0 .success r)) := success.set rfl
    exact loading.pause (.stepPause v) (loading.showSecond v) _
  · exact h.fail rfl _

theorem Shown.receive (h : Shown 1 r) (result : Except ValidatorError Verdict) :
    Faithful (receive s r result) := by
  cases result with
  | error e => exact h.fail rfl _
  | ok v => exact h.pause (.firstPause v) (h.showFirst v) _

theorem Shown.begin (h : Shown 0 r) : Faithful (begin s r) := by
  have loading : Shown 1 (Run.set s 0 .loading r) := h.set rfl
  refine loading.unlessCancelled ⟨?_, loading.steps⟩
  show Told .asking (Run.set s 0 .loading r).notices
  rw [loading.notices]
  exact .asking

/-! ## One stretch -/

theorem faithful_fresh : Faithful fresh := ⟨.ready, rfl⟩

theorem Faithful.cancel (h : Faithful r) : Faithful r.cancel := ⟨h.told, h.steps⟩

theorem Faithful.wake (h : Faithful r) (w : Wake) : Faithful (wake s w r) := by
  obtain ⟨told, steps⟩ := h
  obtain ⟨stage, rows, notices, cancelled, asked⟩ := r
  -- what was told up to a stage is where the next part of the run takes up
  cases told with
  | ready => exact Shown.begin ⟨rfl, steps⟩
  | asking =>
    have here : Shown 1 ⟨.asking, rows, shown 1, cancelled, asked⟩ := ⟨rfl, steps⟩
    refine here.unlessCancelled ?_
    cases w with
    | answer result cancels =>
      have answered : Shown 1 ⟨.asking, rows, shown 1, cancels, asked⟩ := ⟨rfl, steps⟩
      exact answered.receive result
    | poll => exact ⟨.asking, steps⟩
    | elapsed => exact ⟨.asking, steps⟩
  | firstPause v =>
    have here : Shown 1 ⟨.firstPause v, rows, shown 1, cancelled, asked⟩ := ⟨rfl, steps⟩
    refine here.unlessCancelled ?_
    cases w with
    | elapsed => exact here.showFirst v
    | poll => exact ⟨.firstPause v, steps⟩
    | answer => exact ⟨.firstPause v, steps⟩
  | stepPause v =>
    have here : Shown 3 ⟨.stepPause v, rows, shown 3, cancelled, asked⟩ := ⟨rfl, steps⟩
    refine here.unlessCancelled ?_
    cases w with
    | elapsed => exact here.showSecond v
    | poll => exact ⟨.stepPause v, steps⟩
    | answer => exact ⟨.stepPause v, steps⟩
  | completionPause =>
    have here : Shown 4 ⟨.completionPause, rows, shown 4, cancelled, asked⟩ := ⟨rfl, steps⟩
    refine here.unlessCancelled ?_
    cases w with
    | elapsed => exact here.complete
    | poll => exact ⟨.completionPause, steps⟩
    | answer => exact ⟨.completionPause, steps⟩
  | completed => exact ⟨.completed, steps⟩
  | failed n i reason hi => exact ⟨.failed n i reason hi, steps⟩
  | cancelled n => exact ⟨.cancelled n, steps⟩

/-! ## What an observer can rely on -/

theorem filterMap_change?_shown (n : Nat) :
    (shown n).filterMap Notice.change? = path.take n := by
  rw [shown, List.filterMap_map]
  exact List.filterMap_some

theorem filterMap_failure?_shown (n : Nat) : (shown n).filterMap Notice.failure? = [] := by
  rw [shown, List.filterMap_map]
  exact List.filterMap_eq_nil_iff.mpr fun _ _ => rfl

theorem count_completed_shown (n : Nat) : (shown n).count .completed = 0 := by
  rw [List.count_eq_zero]
  intro h
  obtain ⟨c, -, hc⟩ := List.mem_map.mp h
  cases hc

theorem Shown.accounted (h : Shown n r) (he : r.ending? = none ∨ r.ending? = some .cancelled)
    (report : ∀ report, r.report? = some report →
      report.steps = applied Step.initial r.changes) : Accounted r := by
  have notCompleted : r.ending? ≠ some .completed := by
    rcases he with he | he <;> rw [he] <;> nofun
  have noReason : r.ending?.bind Ending.reason? = none := by
    rcases he with he | he <;> rw [he] <;> rfl
  constructor
  · rw [changes, h.notices, filterMap_change?_shown]
    exact .along _ (List.take_prefix n path)
  · rw [h.notices, count_completed_shown, if_neg notCompleted]
  · intro completed
    exact absurd completed notCompleted
  · rw [failures, h.notices, filterMap_failure?_shown, noReason]
    rfl
  · exact report

/-- The changes of a run that failed, and the failure itself. -/
theorem accounted_of_failed {i : Nat} {reason : FailureReason}
    (hi : path[n]? = some (i, .loading))
    (told : r.notices = shown (n + 1) ++ [.stepChanged i .failed, .failed reason])
    (he : r.ending? = some (.failed reason))
    (report : ∀ report, r.report? = some report →
      report.steps = applied Step.initial r.changes) : Accounted r := by
  have taken : path.take (n + 1) = path.take n ++ [(i, .loading)] := by
    rw [List.take_add_one, hi]
    rfl
  constructor
  · have changes : r.changes = path.take n ++ [(i, .loading), (i, .failed)] := by
      rw [Run.changes, told, List.filterMap_append, filterMap_change?_shown, taken,
        List.append_assoc]
      rfl
    rw [changes]
    refine .failing _ i ?_
    rw [← taken]
    exact List.take_prefix (n + 1) path
  · rw [told, he, List.count_append, count_completed_shown]
    rfl
  · intro completed
    rw [he] at completed
    cases completed
  · rw [failures, told, he, List.filterMap_append, filterMap_failure?_shown]
    rfl
  · exact report

theorem Faithful.report (h : Faithful r) (report : Report) (hr : r.report? = some report) :
    report.steps = applied Step.initial r.changes := by
  unfold report? at hr
  split at hr
  · cases hr
    exact h.steps
  · cases hr

theorem Faithful.accounted (h : Faithful r) : Accounted r := by
  have report := h.report
  obtain ⟨told, steps⟩ := h
  obtain ⟨stage, rows, notices, cancelled, asked⟩ := r
  cases told with
  | ready => exact Shown.accounted (n := 0) ⟨rfl, steps⟩ (.inl rfl) report
  | asking => exact Shown.accounted (n := 1) ⟨rfl, steps⟩ (.inl rfl) report
  | firstPause v => exact Shown.accounted (n := 1) ⟨rfl, steps⟩ (.inl rfl) report
  | stepPause v => exact Shown.accounted (n := 3) ⟨rfl, steps⟩ (.inl rfl) report
  | completionPause => exact Shown.accounted (n := 4) ⟨rfl, steps⟩ (.inl rfl) report
  | cancelled n => exact Shown.accounted (n := n) ⟨rfl, steps⟩ (.inr rfl) report
  | completed =>
    constructor
    · exact .along _ (List.prefix_refl path)
    · rfl
    · intro _
      rfl
    · rfl
    · exact report
  | failed n i reason hi => exact accounted_of_failed hi rfl rfl report

end Run

end ServerUi.Validation
