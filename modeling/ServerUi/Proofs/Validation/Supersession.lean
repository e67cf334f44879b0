import ServerUi.Proofs.Validation.Progress
import ServerUi.Validation.Run

/-! # One live run

However events of a supervisor and its runs interleave, every run but the latest is cancelled
(`Superseding`), and a cancelled run tells its observer nothing but, if it has not started, that the
first step is loading: the next time it is woken it ends, and it stays as it is then.
-/

namespace ServerUi.Validation

namespace Run

/-- What one event may do to a run. -/
inductive Moves (s : Setting) : Run → Run → Prop where
  | stay (r : Run) : Moves s r r
  | cancel (r : Run) : Moves s r r.cancel
  | wake (r : Run) (w : Wake) : Moves s r (r.wake s w)

variable {s : Setting} {r r' : Run}

theorem wake_of_ended {e : Ending} (h : r.stage = .ended e) (w : Wake) : wake s w r = r := by
  unfold wake
  rw [h]

/-- A cancelled run that has not ended does so when it is woken. -/
theorem stage_wake_of_cancelled (hc : r.cancelled = true) (hr : r.report? = none) (w : Wake) :
    (wake s w r).stage = .ended .cancelled := by
  obtain ⟨stage, rows, notices, cancelled, asked⟩ := r
  cases hc
  cases stage with
  | ready => rfl
  | asking => rfl
  | firstPause v => rfl
  | stepPause v => rfl
  | completionPause => rfl
  | ended e => cases hr

theorem Moves.cancelled (h : Moves s r r') (hc : r.cancelled = true) : r'.cancelled = true := by
  cases h with
  | stay => exact hc
  | cancel => rfl
  | wake w =>
    obtain ⟨stage, rows, notices, cancelled, asked⟩ := r
    cases hc
    cases stage <;> rfl

theorem Moves.faithful (h : Moves s r r') (hr : Faithful r) : Faithful r' := by
  cases h with
  | stay => exact hr
  | cancel => exact hr.cancel
  | wake w => exact hr.wake w

/-- A run that has ended changes neither its report nor what it has told. -/
theorem Moves.ended (h : Moves s r r') {e : Ending} (hr : r.stage = .ended e) :
    r'.stage = .ended e ∧ r'.notices = r.notices := by
  cases h with
  | stay => exact ⟨hr, rfl⟩
  | cancel => exact ⟨hr, rfl⟩
  | wake w =>
    rw [wake_of_ended hr]
    exact ⟨hr, rfl⟩

end Run

namespace Supervisor

variable {s : Run.Setting} {v : Supervisor}

/-- Is the event the beginning of a run? -/
def Event.isBegin : Event → Bool
  | .begin => true
  | _ => false

/-! ## One event -/

theorem length_cancelCurrent (v : Supervisor) : v.cancelCurrent.length = v.runs.length := by
  unfold cancelCurrent
  split
  · rfl
  · exact List.length_modify ..

theorem getElem?_cancelCurrent (v : Supervisor) (i : Nat) :
    v.cancelCurrent[i]? =
      if v.current = some i then v.runs[i]?.map Run.cancel else v.runs[i]? := by
  unfold cancelCurrent
  cases v.current with
  | none => rfl
  | some j =>
    rw [List.getElem?_modify]
    by_cases same : j = i
    · rw [if_pos (congrArg some same)]
      simp only [if_pos same]
      rfl
    · rw [if_neg fun e => same (Option.some.inj e)]
      simp only [if_neg same]
      exact Option.map_id'

theorem length_step (e : Event) :
    (step s v e).runs.length = v.runs.length + if e.isBegin then 1 else 0 := by
  cases e with
  | begin => rw [step, List.length_append, length_cancelCurrent]; rfl
  | cancel => exact length_cancelCurrent v
  | wake i w => exact List.length_modify ..

/-- A run that has begun stays in its place, and an event may move it. -/
theorem moves_of_getElem? {i : Nat} {r : Run} (h : v.runs[i]? = some r) (e : Event) :
    ∃ r', (step s v e).runs[i]? = some r' ∧ Run.Moves s r r' := by
  have cancelled : ∃ r', v.cancelCurrent[i]? = some r' ∧ Run.Moves s r r' := by
    rw [getElem?_cancelCurrent, h]
    split
    · exact ⟨r.cancel, rfl, .cancel r⟩
    · exact ⟨r, rfl, .stay r⟩
  cases e with
  | begin =>
    obtain ⟨r', hr', moves⟩ := cancelled
    have inside : i < v.cancelCurrent.length := (List.getElem?_eq_some_iff.mp hr').1
    exact ⟨r', (List.getElem?_append_left inside).trans hr', moves⟩
  | cancel => exact cancelled
  | wake j w =>
    show ∃ r', (List.modify _ _ _)[i]? = some r' ∧ _
    rw [List.getElem?_modify, h]
    by_cases same : j = i
    · exact ⟨r.wake s w, by simp only [if_pos same]; rfl, .wake r w⟩
    · exact ⟨r, by simp only [if_neg same]; rfl, .stay r⟩

/-- Behind an event is what it made of each run that had begun, and perhaps a new run. -/
theorem getElem?_step {i : Nat} {e : Event} {r' : Run} (h : (step s v e).runs[i]? = some r') :
    (∃ r, v.runs[i]? = some r ∧ Run.Moves s r r') ∨ (v.runs.length ≤ i ∧ r' = .fresh) := by
  cases begun : v.runs[i]? with
  | some r =>
    obtain ⟨r'', hr'', moves⟩ := moves_of_getElem? begun e
    obtain rfl : r'' = r' := Option.some.inj (hr''.symm.trans h)
    exact .inl ⟨r, rfl, moves⟩
  | none =>
    have outside : v.runs.length ≤ i := List.getElem?_eq_none_iff.mp begun
    refine .inr ⟨outside, ?_⟩
    have inside : i < (step s v e).runs.length := (List.getElem?_eq_some_iff.mp h).1
    rw [length_step] at inside
    cases e with
    | begin =>
      have last : i = v.cancelCurrent.length := by
        rw [length_cancelCurrent]
        exact Nat.le_antisymm (Nat.lt_succ_iff.mp inside) outside
      subst last
      exact (Option.some.inj (List.getElem?_concat_length.symm.trans h)).symm
    | cancel => exact absurd inside (Nat.not_lt.mpr outside)
    | wake j w => exact absurd inside (Nat.not_lt.mpr outside)

/-! ## Supersession -/

/-- The current run is the latest, and every run that is not current is cancelled. -/
structure Superseding (v : Supervisor) : Prop where
  latest : ∀ i, v.current = some i → i + 1 = v.runs.length
  cancelled : ∀ i r, v.runs[i]? = some r → v.current ≠ some i → r.cancelled = true

theorem superseding_initial : Superseding initial := by
  constructor
  · nofun
  · intro i r hr
    cases hr

theorem Superseding.cancelCurrent (h : Superseding v) {i : Nat} {r : Run}
    (hr : v.cancelCurrent[i]? = some r) : r.cancelled = true := by
  rw [getElem?_cancelCurrent] at hr
  split at hr
  · obtain ⟨r', -, rfl⟩ := Option.map_eq_some_iff.mp hr
    rfl
  · rename_i other
    exact h.cancelled i r hr other

theorem Superseding.step (h : Superseding v) (e : Event) : Superseding (step s v e) := by
  cases e with
  | begin =>
    constructor
    · intro i hi
      obtain rfl : v.runs.length = i := Option.some.inj hi
      exact (length_step (s := s) .begin).symm
    · intro i r hr other
      rcases Nat.lt_or_ge i v.cancelCurrent.length with inside | outside
      · exact h.cancelCurrent ((List.getElem?_append_left inside).symm.trans hr)
      · -- the only run behind the others is the current one
        have last : i + 1 ≤ (v.cancelCurrent ++ [Run.fresh]).length :=
          (List.getElem?_eq_some_iff.mp hr).1
        rw [List.length_append, List.length_singleton] at last
        have same : v.runs.length = i := by
          rw [← length_cancelCurrent]
          exact Nat.le_antisymm outside (Nat.le_of_succ_le_succ last)
        exact absurd (congrArg some same) other
  | cancel =>
    constructor
    · nofun
    · intro i r hr _
      exact h.cancelCurrent hr
  | wake j w =>
    constructor
    · intro i hi
      rw [length_step]
      exact h.latest i hi
    · intro i r' hr' other
      -- a wake begins no run, so this one was there before and was cancelled then
      rcases getElem?_step (e := .wake j w) hr' with ⟨r, hr, moves⟩ | ⟨outside, -⟩
      · exact moves.cancelled (h.cancelled i r hr other)
      · have inside := (List.getElem?_eq_some_iff.mp hr').1
        rw [length_step] at inside
        exact absurd inside (Nat.not_lt.mpr outside)

/-! ## Every interleaving -/

theorem after_append (events later : List Event) :
    after s (events ++ later) = later.foldl (step s) (after s events) :=
  List.foldl_append

theorem length_after (events : List Event) :
    (after s events).runs.length = events.countP Event.isBegin := by
  induction events using List.reverseRecOn with
  | nil => rfl
  | append_singleton events e ih =>
    rw [after_append, List.countP_append, List.countP_singleton, ← ih]
    exact length_step e

theorem superseding_after (events : List Event) : Superseding (after s events) := by
  induction events using List.reverseRecOn with
  | nil => exact superseding_initial
  | append_singleton events e ih =>
    rw [after_append]
    exact ih.step e

theorem faithful_after (events : List Event) {i : Nat} {r : Run}
    (h : (after s events).runs[i]? = some r) : r.Faithful := by
  induction events using List.reverseRecOn generalizing r with
  | nil => cases h
  | append_singleton events e ih =>
    rw [after_append] at h
    -- the run was there before the last event, or the event began it
    rcases getElem?_step h with ⟨r₀, hr₀, moves⟩ | ⟨-, rfl⟩
    · exact moves.faithful (ih hr₀)
    · exact Run.faithful_fresh

/-- A run that has ended is left as it is, whatever comes later. -/
theorem ended_foldl (later : List Event) {v : Supervisor} {i : Nat} {r : Run}
    (h : v.runs[i]? = some r) {e : Ending} (hr : r.stage = .ended e) :
    ∃ r', (later.foldl (step s) v).runs[i]? = some r' ∧ r'.stage = .ended e ∧
      r'.notices = r.notices := by
  induction later generalizing v r with
  | nil => exact ⟨r, h, hr, rfl⟩
  | cons event later ih =>
    obtain ⟨r₁, hr₁, moves⟩ := moves_of_getElem? (s := s) h event
    obtain ⟨ended, same⟩ := moves.ended hr
    obtain ⟨r', hr', ended', same'⟩ := ih hr₁ ended
    exact ⟨r', hr', ended', same'.trans same⟩

/-- A cancelled run ends at the next wake, and from then on it has told no end but that. -/
theorem ended_of_cancelled (events : List Event) {i : Nat} {r : Run}
    (h : (after s events).runs[i]? = some r) (hc : r.cancelled = true) (hr : r.report? = none)
    (w : Wake) (later : List Event) :
    ∃ r', (after s (events ++ .wake i w :: later)).runs[i]? = some r' ∧
      r'.ending? = some .cancelled ∧ .completed ∉ r'.notices ∧ r'.failures = [] := by
  have woken : (step s (after s events) (.wake i w)).runs[i]? = some (r.wake s w) := by
    show (List.modify _ _ _)[i]? = _
    rw [List.getElem?_modify_eq, h]
    rfl
  obtain ⟨r', hr', ended, -⟩ :=
    ended_foldl (s := s) later woken (Run.stage_wake_of_cancelled hc hr w)
  have found : (after s (events ++ .wake i w :: later)).runs[i]? = some r' := by
    rw [after_append]
    exact hr'
  have ending : r'.ending? = some .cancelled := by
    unfold Run.ending? Run.report?
    rw [ended]
    rfl
  have accounted := (faithful_after _ found).accounted
  refine ⟨r', found, ending, ?_, ?_⟩
  · rw [← List.count_eq_zero, accounted.completions, ending]
    rfl
  · rw [accounted.failures, ending]
    rfl

/-- **Runs under a supervisor.** Take any pauses, any observer and any events: runs that begin and
are cancelled, answers of validators, pauses that end and wakes of any run, in any order.  There is
one run for each beginning.  Every run but the latest is cancelled.  A cancelled run that has not
ended ends as cancelled when it is next woken, and never tells that it completed or failed.  What
each run has told and shown is accounted for. -/
theorem one_live_run (s : Run.Setting) (events : List Event) :
    (after s events).runs.length = events.countP Event.isBegin ∧
    ∀ i r, (after s events).runs[i]? = some r →
      (i + 1 < (after s events).runs.length → r.cancelled = true) ∧
      (r.cancelled = true → r.report? = none → ∀ w later,
        ∃ r', (after s (events ++ .wake i w :: later)).runs[i]? = some r' ∧
          r'.ending? = some .cancelled ∧ .completed ∉ r'.notices ∧ r'.failures = []) ∧
      r.Accounted := by
  refine ⟨length_after events, ?_⟩
  intro i r h
  have superseding := superseding_after (s := s) events
  refine ⟨?_, fun hc hr w later => ended_of_cancelled events h hc hr w later, ?_⟩
  · intro older
    apply superseding.cancelled i r h
    intro current
    exact absurd (superseding.latest i current) (Nat.ne_of_lt older)
  · exact (faithful_after events h).accounted

/-- A run that waits to show the second step is cancelled by the beginning of another one.  The
pause that is over then ends it. -/
theorem paused_run_superseded :
    let s := Run.Setting.ofPacing ⟨0, 500, 0⟩
    let events : List Event :=
      [.begin, .wake 0 .poll, .wake 0 (.answer (.ok ⟨true, true⟩) false), .begin]
    ∃ r, (after s events).runs[0]? = some r ∧ 0 + 1 < (after s events).runs.length ∧
      r.cancelled = true ∧ r.stage = .stepPause ⟨true, true⟩ ∧ r.report? = none ∧
      (∃ r', (after s (events ++ [.wake 0 .elapsed])).runs[0]? = some r' ∧
        r'.ending? = some .cancelled ∧ .completed ∉ r'.notices ∧ r'.failures = []) ∧
      r.Accounted := by
  intro s events
  obtain ⟨length, runs⟩ := one_live_run s events
  have two : 0 + 1 < (after s events).runs.length := by
    rw [length]
    decide
  obtain ⟨r, begun⟩ : ∃ r, (after s events).runs[0]? = some r := ⟨_, rfl⟩
  obtain ⟨older, ends, accounted⟩ := runs 0 r begun
  have waits : r.stage = .stepPause ⟨true, true⟩ := by
    cases begun
    rfl
  have going : r.report? = none := by
    rw [Run.report?, waits]
  exact ⟨r, begun, two, older two, waits, going, ends (older two) going .elapsed [], accounted⟩

end Supervisor

end ServerUi.Validation
