import ServerUi.Proofs.Validation.Supersession
import ServerUi.Validation.Timeline

/-! # How runs end

The answer of its validator decides how a run ends that nobody cancels (`endingOf`).  At every stage
a run suits the answer it got (`Suits`), and each stretch that it waited for brings it nearer to its
end (`Stretch`).  So a run in time comes to its end, which is the one that was decided unless
somebody cancelled it (`ends_as_answered`).
-/

namespace ServerUi.Validation

/-- How a run ends that nobody cancels, by the answer of its validator. -/
def endingOf : Except ValidatorError Verdict → Ending
  | .error e => .failed (.error e)
  | .ok v =>
    if v.typecheck then
      if v.serialize then .completed else .failed (.stepFailed 1)
    else .failed (.stepFailed 0)

/-- How many stretches are left at most before a run ends. -/
def Stage.left : Stage → Nat
  | .ready => 5
  | .asking => 4
  | .firstPause _ => 3
  | .stepPause _ => 2
  | .completionPause => 1
  | .ended _ => 0

/-- Does the wake cancel the run? -/
def Wake.cancels : Wake → Bool
  | .answer _ cancels => cancels
  | _ => false

namespace Run

/-- The runs whose validator gives this answer if it gives any: they are woken and cancelled in any
order. -/
inductive Driven (s : Setting) (answer : Except ValidatorError Verdict) : Run → Prop where
  | fresh : Driven s answer fresh
  | cancel {r : Run} : Driven s answer r → Driven s answer r.cancel
  | wake {r : Run} (w : Wake) : Driven s answer r →
    (∀ result cancels, w = .answer result cancels → result = answer) →
    Driven s answer (r.wake s w)

/-- A stage that the answer leads to; only a run that is cancelled ends as cancelled. -/
inductive Suits (answer : Except ValidatorError Verdict) : Stage → Bool → Prop where
  | ready (c : Bool) : Suits answer .ready c
  | asking (c : Bool) : Suits answer .asking c
  | firstPause {v : Verdict} (c : Bool) : answer = .ok v → Suits answer (.firstPause v) c
  | stepPause {v : Verdict} (c : Bool) : answer = .ok v → v.typecheck = true →
    Suits answer (.stepPause v) c
  | completionPause (c : Bool) : endingOf answer = .completed → Suits answer .completionPause c
  | ended (c : Bool) : Suits answer (.ended (endingOf answer)) c
  | cancelled : Suits answer (.ended .cancelled) true

/-- What a run waits for at a stage. -/
inductive Awaited (answer : Except ValidatorError Verdict) : Stage → Wake → Prop where
  | asking (cancels : Bool) : Awaited answer .asking (.answer answer cancels)
  | firstPause (v : Verdict) : Awaited answer (.firstPause v) .elapsed
  | stepPause (v : Verdict) : Awaited answer (.stepPause v) .elapsed
  | completionPause : Awaited answer .completionPause .elapsed

/-- What a stretch makes of a run that was cancelled before it or not: the run suits the answer,
at most so many stretches are left, and nobody but its observer cancels it. -/
structure Stretch (s : Setting) (answer : Except ValidatorError Verdict) (n : Nat) (c : Bool)
    (r : Run) : Prop where
  suits : Suits answer r.stage r.cancelled
  left : r.stage.left ≤ n
  quiet : (∀ notice, s.reacts notice = false) → r.cancelled = c

variable {s : Setting} {answer : Except ValidatorError Verdict} {v : Verdict} {r : Run}

/-! ## The parts of a stretch -/

theorem cancelled_set (quiet : ∀ notice, s.reacts notice = false) (i : Nat) (status : Status) :
    (set s i status r).cancelled = r.cancelled := by
  show (r.cancelled || s.reacts _) = _
  rw [quiet, Bool.or_false]

theorem Stretch.after {n : Nat} {c : Bool} {r' : Run} (h : Stretch s answer n r.cancelled r')
    (same : (∀ notice, s.reacts notice = false) → r.cancelled = c) : Stretch s answer n c r' :=
  ⟨h.suits, h.left, fun quiet => (h.quiet quiet).trans (same quiet)⟩

theorem Stretch.mono {n m : Nat} {c : Bool} (h : Stretch s answer n c r) (le : n ≤ m) :
    Stretch s answer m c r :=
  ⟨h.suits, h.left.trans le, h.quiet⟩

theorem stretch_stop (n : Nat) (cancelled : r.cancelled = true) :
    Stretch s answer n r.cancelled (r.stop .cancelled) := by
  refine ⟨?_, Nat.zero_le n, fun _ => rfl⟩
  show Suits answer (.ended .cancelled) r.cancelled
  rw [cancelled]
  exact .cancelled

theorem stretch_fail {i : Nat} {reason : FailureReason}
    (h : endingOf answer = .failed reason) (n : Nat) :
    Stretch s answer n r.cancelled (fail s i reason r) := by
  refine ⟨?_, Nat.zero_le n, fun quiet => cancelled_set quiet i .failed⟩
  show Suits answer (.ended (.failed reason)) _
  rw [← h]
  exact .ended _

theorem stretch_pause {n delay : Nat} {waiting : Stage} {next : Run → Run}
    (waits : ∀ c, Suits answer waiting c) (soon : waiting.left ≤ n)
    (goes : Stretch s answer n r.cancelled (next r)) :
    Stretch s answer n r.cancelled (pause delay waiting next r) := by
  unfold pause
  split
  · exact stretch_stop n ‹_›
  · split
    · exact goes
    · exact ⟨waits _, soon, fun _ => rfl⟩

theorem stretch_complete (h : endingOf answer = .completed) (n : Nat) :
    Stretch s answer n r.cancelled (complete r) := by
  refine ⟨?_, Nat.zero_le n, fun _ => rfl⟩
  show Suits answer (.ended .completed) _
  rw [← h]
  exact .ended _

theorem stretch_showSecond (h : answer = .ok v) (first : v.typecheck = true) :
    Stretch s answer 1 r.cancelled (showSecond s v r) := by
  subst h
  unfold showSecond
  split
  · rename_i second
    have completes : endingOf (.ok v) = .completed := by simp [endingOf, first, second]
    exact (stretch_pause (fun c => .completionPause c completes) (Nat.le_refl 1)
      (stretch_complete completes 1)).after fun quiet => cancelled_set quiet 1 .success
  · rename_i second
    exact stretch_fail (by simp [endingOf, first, second]) 1

theorem stretch_showFirst (h : answer = .ok v) :
    Stretch s answer 2 r.cancelled (showFirst s v r) := by
  subst h
  unfold showFirst
  split
  · rename_i first
    refine (stretch_pause (fun c => .stepPause c rfl first) (Nat.le_refl 2)
      ((stretch_showSecond rfl first).mono (Nat.le_succ 1))).after fun quiet => ?_
    rw [cancelled_set quiet, cancelled_set quiet]
  · rename_i first
    exact stretch_fail (by simp [endingOf, first]) 2

theorem stretch_receive : Stretch s answer 3 r.cancelled (receive s r answer) := by
  cases answer with
  | error e => exact stretch_fail rfl 3
  | ok v =>
    exact stretch_pause (fun c => .firstPause c rfl) (Nat.le_refl 3)
      ((stretch_showFirst rfl).mono (Nat.le_succ 2))

theorem stretch_begin (s : Setting) (answer : Except ValidatorError Verdict) (r : Run) :
    Stretch s answer 4 r.cancelled (begin s r) := by
  have same (quiet : ∀ notice, s.reacts notice = false) :
      (set s 0 .loading r).cancelled = r.cancelled := cancelled_set quiet 0 .loading
  unfold begin
  dsimp only
  split
  · exact (stretch_stop 4 ‹_›).after same
  · exact ⟨.asking _, Nat.le_refl 4, same⟩

/-! ## One stretch -/

/-- Woken for nothing, a run stays as it is unless it is cancelled. -/
theorem idle_cases (r : Run) :
    (r.cancelled = true ∧ (if r.cancelled then r.stop .cancelled else r) = r.stop .cancelled) ∨
      (if r.cancelled then r.stop .cancelled else r) = r := by
  cases h : r.cancelled with
  | true => exact .inl ⟨rfl, rfl⟩
  | false => exact .inr rfl

/-- A wake does one of four things: it starts the run, it is what the run waited for, it finds the
run cancelled, or nothing comes of it. -/
theorem wake_cases (s : Setting) (r : Run) {w : Wake}
    (given : ∀ result cancels, w = .answer result cancels → result = answer) :
    (r.stage = .ready ∧ wake s w r = begin s r) ∨ Awaited answer r.stage w ∨
      (r.cancelled = true ∧ wake s w r = r.stop .cancelled) ∨ wake s w r = r := by
  obtain ⟨stage, steps, notices, cancelled, asked⟩ := r
  let here : Run := ⟨stage, steps, notices, cancelled, asked⟩
  cases stage with
  | ready => exact .inl ⟨rfl, rfl⟩
  | ended e => exact .inr (.inr (.inr rfl))
  | asking =>
    cases w with
    | answer result cancels =>
      obtain rfl := given result cancels rfl
      exact .inr (.inl (.asking cancels))
    | poll => exact .inr (.inr (idle_cases here))
    | elapsed => exact .inr (.inr (idle_cases here))
  | firstPause v =>
    cases w with
    | elapsed => exact .inr (.inl (.firstPause v))
    | poll => exact .inr (.inr (idle_cases here))
    | answer => exact .inr (.inr (idle_cases here))
  | stepPause v =>
    cases w with
    | elapsed => exact .inr (.inl (.stepPause v))
    | poll => exact .inr (.inr (idle_cases here))
    | answer => exact .inr (.inr (idle_cases here))
  | completionPause =>
    cases w with
    | elapsed => exact .inr (.inl .completionPause)
    | poll => exact .inr (.inr (idle_cases here))
    | answer => exact .inr (.inr (idle_cases here))

/-- A wake that a run waited for brings it nearer to its end. -/
theorem stretch_wake (h : Suits answer r.stage r.cancelled) {w : Wake}
    (awaited : Awaited answer r.stage w) :
    Stretch s answer (r.stage.left - 1) (r.cancelled || w.cancels) (wake s w r) := by
  obtain ⟨stage, steps, notices, cancelled, asked⟩ := r
  cases awaited with
  | asking cancels =>
    cases cancelled with
    | true => exact stretch_stop (r := ⟨.asking, steps, notices, true, asked⟩) 3 rfl
    | false => exact stretch_receive (r := ⟨.asking, steps, notices, cancels, asked⟩)
  | firstPause v =>
    let here (c : Bool) : Run := ⟨.firstPause v, steps, notices, c, asked⟩
    cases cancelled with
    | true => exact stretch_stop (r := here true) 2 rfl
    | false =>
      cases h with
      | firstPause _ hv => exact stretch_showFirst (r := here false) hv
  | stepPause v =>
    let here (c : Bool) : Run := ⟨.stepPause v, steps, notices, c, asked⟩
    cases cancelled with
    | true => exact stretch_stop (r := here true) 1 rfl
    | false =>
      cases h with
      | stepPause _ hv first => exact stretch_showSecond (r := here false) hv first
  | completionPause =>
    let here (c : Bool) : Run := ⟨.completionPause, steps, notices, c, asked⟩
    cases cancelled with
    | true => exact stretch_stop (r := here true) 0 rfl
    | false =>
      cases h with
      | completionPause _ completes => exact stretch_complete (r := here false) completes 0

theorem Suits.cancel {stage : Stage} {c : Bool} (h : Suits answer stage c) :
    Suits answer stage true := by
  cases h with
  | ready => exact .ready true
  | asking => exact .asking true
  | firstPause _ hv => exact .firstPause true hv
  | stepPause _ hv first => exact .stepPause true hv first
  | completionPause _ completes => exact .completionPause true completes
  | ended => exact .ended true
  | cancelled => exact .cancelled

theorem Driven.suits (h : Driven s answer r) : Suits answer r.stage r.cancelled := by
  induction h with
  | fresh => exact .ready false
  | cancel _ ih => exact ih.cancel
  | @wake r w _ given ih =>
    rcases wake_cases s r given with ⟨-, woken⟩ | awaited | ⟨cancelled, woken⟩ | woken
    · rw [woken]
      exact (stretch_begin s answer r).suits
    · exact (stretch_wake ih awaited).suits
    · rw [woken]
      exact (stretch_stop (s := s) 0 cancelled).suits
    · rw [woken]
      exact ih

theorem Driven.faithful (h : Driven s answer r) : Faithful r := by
  induction h with
  | fresh => exact faithful_fresh
  | cancel _ ih => exact ih.cancel
  | wake w _ _ ih => exact ih.wake w

theorem ended_of_left {stage : Stage} (h : stage.left = 0) : ∃ e, stage = .ended e := by
  cases stage with
  | ended e => exact ⟨e, rfl⟩
  | _ => cases h

theorem ending?_eq_some_iff {e : Ending} : r.ending? = some e ↔ r.stage = .ended e := by
  unfold ending? report?
  cases r.stage with
  | ended e' => simp
  | _ => exact iff_of_false nofun nofun

/-- An ending of a run is the one that the answer decides, or the run was cancelled. -/
theorem Driven.ending (h : Driven s answer r) {e : Ending} (ended : r.ending? = some e) :
    e = endingOf answer ∨ e = .cancelled ∧ r.cancelled = true := by
  have suits := h.suits
  rw [ending?_eq_some_iff.mp ended] at suits
  generalize r.cancelled = c at suits ⊢
  cases suits with
  | ended => exact .inl rfl
  | cancelled => exact .inr ⟨rfl, rfl⟩

/-- A run is woken after it was cancelled, and so it ends. -/
theorem exists_ended_of_cancel (s : Setting) (r : Run) (w : Wake) :
    ∃ e, (r.cancel.wake s w).ending? = some e := by
  cases ended : r.cancel.report? with
  | none => exact ⟨_, ending?_eq_some_iff.mpr (stage_wake_of_cancelled rfl ended w)⟩
  | some report =>
    have stopped : r.cancel.ending? = some report.ending := by rw [ending?, ended]; rfl
    rw [wake_of_ended (ending?_eq_some_iff.mp stopped)]
    exact ⟨_, stopped⟩

end Run

/-! ## Runs in time -/

namespace Timed

open Run

/-- A run that has started: the answer of its validator allows it, and it is due at some time unless
it has ended. -/
structure Underway (s : Setting) (v : Validator) (t : Timed) : Prop where
  setting : t.setting = s
  validator : t.validator = v
  driven : Driven s v.answer t.run
  left : t.run.stage.left ≤ 4
  due : t.due = none ↔ t.run.stage.left = 0

variable {s : Setting} {v : Validator} {t : Timed}

theorem awaited_expected (h : t.run.stage.left ≤ 4) (going : t.run.stage.left ≠ 0) :
    Awaited t.validator.answer t.run.stage t.expected := by
  unfold expected
  cases stage : t.run.stage with
  | ready =>
    rw [stage] at h
    exact absurd h (by decide)
  | asking => exact .asking _
  | firstPause v => exact .firstPause v
  | stepPause v => exact .stepPause v
  | completionPause => exact .completionPause
  | ended e =>
    rw [stage] at going
    exact absurd rfl going

/-- Only the validator's own answer is expected, and only that may cancel the run. -/
theorem expected_given (t : Timed) :
    (∀ result cancels, t.expected = .answer result cancels → result = t.validator.answer) ∧
      (t.validator.cancels = false → t.expected.cancels = false) := by
  unfold expected
  split
  · refine ⟨?_, id⟩
    rintro result cancels ⟨⟩
    rfl
  · exact ⟨nofun, fun _ => rfl⟩

theorem underway_wakeAt {now : Nat} {w : Wake} (setting : t.setting = s)
    (validator : t.validator = v) (driven : Driven s v.answer (t.run.wake s w))
    (left : (t.run.wake s w).stage.left ≤ 4) :
    Underway s v (t.wakeAt now w) := by
  subst setting validator
  refine ⟨rfl, rfl, driven, left, ?_⟩
  show Option.map _ (t.lasts (t.run.wake t.setting w).stage) = none ↔
    (t.run.wake t.setting w).stage.left = 0
  cases stage : (t.run.wake t.setting w).stage with
  | ready =>
    rw [stage] at left
    exact absurd left (by decide)
  | ended e => exact iff_of_true rfl rfl
  | _ => exact iff_of_false nofun nofun

theorem underway_start (now : Nat) (code : String) (v : Validator) (s : Setting) :
    Underway s v (start now code v s .fresh) :=
  underway_wakeAt rfl rfl (Driven.wake .poll .fresh nofun) (stretch_begin s v.answer .fresh).left

/-- A run that is due comes nearer to its end, and nobody but its observer and its validator cancels
it. -/
theorem Underway.wakeAt (h : Underway s v t) (now : Nat) (going : t.due ≠ none) :
    Underway s v (t.wakeAt now t.expected) ∧
      (t.wakeAt now t.expected).run.stage.left < t.run.stage.left ∧
      ((∀ notice, s.reacts notice = false) → v.cancels = false →
        (t.wakeAt now t.expected).run.cancelled = t.run.cancelled) := by
  obtain ⟨rfl, rfl, driven, left, due⟩ := h
  have nonzero : t.run.stage.left ≠ 0 := mt due.mpr going
  obtain ⟨given, silent⟩ := expected_given t
  have stretch := stretch_wake (s := t.setting) driven.suits (awaited_expected left nonzero)
  have nearer : (t.run.wake t.setting t.expected).stage.left ≤ t.run.stage.left - 1 := stretch.left
  refine ⟨underway_wakeAt rfl rfl (driven.wake t.expected given) (by omega), ?_,
    fun quiet own => ?_⟩
  · show (t.run.wake t.setting t.expected).stage.left < _
    omega
  · show (t.run.wake t.setting t.expected).cancelled = _
    rw [stretch.quiet quiet, silent own, Bool.or_false]

/-- Time passes; where nothing limits it, the run comes to an end. -/
theorem Underway.pass (h : Underway s v t) (limit : Option Nat) (n : Nat) :
    Underway s v (t.pass limit n) ∧
      (limit = none → t.run.stage.left ≤ n → (t.pass limit n).run.stage.left = 0) ∧
      ((∀ notice, s.reacts notice = false) → v.cancels = false →
        (t.pass limit n).run.cancelled = t.run.cancelled) := by
  induction n generalizing t with
  | zero => exact ⟨h, fun _ none_left => Nat.le_zero.mp none_left, fun _ _ => rfl⟩
  | succ n ih =>
    unfold Timed.pass
    split
    · rename_i idle
      exact ⟨h, fun _ _ => h.due.mp idle, fun _ _ => rfl⟩
    · rename_i d hd
      split
      · obtain ⟨underway, nearer, silent⟩ := h.wakeAt d (by rw [hd]; nofun)
        obtain ⟨later, ends, same⟩ := ih underway
        refine ⟨later, fun unlimited enough => ends unlimited (by omega), fun quiet own => ?_⟩
        rw [same quiet own, silent quiet own]
      · rename_i late
        refine ⟨h, fun unlimited _ => ?_, fun _ _ => rfl⟩
        subst unlimited
        exact absurd rfl late

theorem single_none (code : String) (v : Validator) (s : Setting) :
    Driven s v.answer (single code v s none).run ∧
      (∃ e, (single code v s none).run.ending? = some e) ∧
      ((∀ notice, s.reacts notice = false) → v.cancels = false →
        (single code v s none).run.cancelled = false) := by
  have begun := underway_start 0 code v s
  obtain ⟨later, ends, same⟩ := begun.pass none 4
  obtain ⟨e, ended⟩ := ended_of_left (ends rfl begun.left)
  refine ⟨later.driven, ⟨e, ending?_eq_some_iff.mpr ended⟩, fun quiet own => ?_⟩
  rw [single, passUntil, same quiet own]
  exact (stretch_begin s v.answer .fresh).quiet quiet

/-- Whenever a run in time is cancelled, it is one that its validator's answer allows, and it
ends. -/
theorem single_ends (code : String) (v : Validator) (s : Setting) (instant : Option Nat) :
    Driven s v.answer (single code v s instant).run ∧
      ∃ e, (single code v s instant).run.ending? = some e := by
  match instant with
  | none => exact ⟨(single_none code v s).1, (single_none code v s).2.1⟩
  | some 0 => exact ⟨.wake .poll (.cancel .fresh) nofun, exists_ended_of_cancel s .fresh .poll⟩
  | some (n + 1) =>
    have later := ((underway_start 0 code v s).pass (some (n + 1)) 4).1
    have woken : (single code v s (some (n + 1))).run =
        (((start 0 code v s .fresh).passUntil (some (n + 1))).run.cancel).wake s .poll :=
      congrArg (fun s => Run.wake s .poll _) later.setting
    rw [woken]
    exact ⟨.wake .poll (.cancel later.driven) nofun, exists_ended_of_cancel s _ .poll⟩

end Timed

/-- Where the validator gives this answer, runs come to this end or are cancelled: a run in time, at
any pace, that nobody cancels; a run in time whatever cancels it; and any run, however it is woken
and cancelled. -/
structure Ends (answer : Except ValidatorError Verdict) (e : Ending) : Prop where
  alone : ∀ (code : String) (delay : Nat) (p : Pacing),
    (Timed.single code ⟨answer, delay, false⟩ (.ofPacing p) none).report.ending = e
  cancelled : ∀ (code : String) (delay : Nat) (cancels : Bool) (s : Run.Setting)
    (instant : Option Nat),
    (Timed.single code ⟨answer, delay, cancels⟩ s instant).report.ending ∈ [e, .cancelled]
  driven : ∀ (s : Run.Setting) (r : Run), Run.Driven s answer r → ∀ ending,
    r.ending? = some ending → ending = e ∨ ending = .cancelled ∧ r.cancelled = true

theorem Timed.report_ending {t : Timed} {e : Ending} (h : t.run.ending? = some e) :
    t.report.ending = e := by
  obtain ⟨report, found, rfl⟩ := Option.map_eq_some_iff.mp h
  rw [Timed.report, found]
  rfl

/-- Runs end as the answer of the validator decides, unless they are cancelled. -/
theorem ends_as_answered (answer : Except ValidatorError Verdict) :
    Ends answer (endingOf answer) := by
  constructor
  · intro code delay p
    obtain ⟨driven, ⟨e, ended⟩, uncancelled⟩ :=
      Timed.single_none code ⟨answer, delay, false⟩ (.ofPacing p)
    rw [Timed.report_ending ended]
    refine (driven.ending ended).resolve_right ?_
    rintro ⟨-, cancelled⟩
    rw [uncancelled (fun _ => rfl) rfl] at cancelled
    cases cancelled
  · intro code delay cancels s instant
    obtain ⟨driven, e, ended⟩ := Timed.single_ends code ⟨answer, delay, cancels⟩ s instant
    rw [Timed.report_ending ended]
    rcases driven.ending ended with rfl | ⟨rfl, -⟩
    · exact List.mem_cons_self
    · exact List.mem_cons_of_mem _ List.mem_cons_self
  · intro s r driven ending ended
    exact driven.ending ended

end ServerUi.Validation
