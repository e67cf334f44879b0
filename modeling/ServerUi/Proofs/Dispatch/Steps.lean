import Mathlib.Logic.Relation
import ServerUi.Dispatch
import ServerUi.Expr.Eval

/-! # The steps of a dispatch

Everything that a dispatch does, at any depth of its cascade, is one of eight steps on the trace.
`Dispatcher.Step` says once what each of them changes, and `perform_cases` which of them an action
takes by itself; `steps_dispatch` and `steps_write` say that there is nothing else.  A property of
dispatches is then an induction over steps.
-/

namespace ServerUi

/-! ## Why an action is dropped -/

/-- Is the error the failure of a script that was run? -/
def ActionError.isScriptFailure : ActionError → Bool
  | .scriptFailed _ => true
  | _ => false

namespace Action

theorem optionalText_error {spec : ActionSpec} {key : String} {e : ActionError}
    (h : optionalText spec key = .error e) : e.isScriptFailure = false := by
  unfold optionalText at h
  split at h <;> cases h
  rfl

theorem requiredText_error {spec : ActionSpec} {key : String} {e : ActionError}
    (h : requiredText spec key = .error e) : e.isScriptFailure = false := by
  rcases bind_eq_error h with h | ⟨s, -, h⟩
  · exact optionalText_error h
  · cases s <;> cases h
    rfl

theorem method_error {spec : ActionSpec} {e : ActionError} (h : method spec = .error e) :
    e.isScriptFailure = false := by
  rcases bind_eq_error h with h | ⟨s, -, h⟩
  · exact optionalText_error h
  · cases s with
    | none => cases h
    | some raw =>
      dsimp only at h
      split at h <;> cases h
      rfl

/-- What is wrong with a payload is never that a script has failed. -/
theorem ofSpec_error {spec : ActionSpec} {e : ActionError} (h : ofSpec spec = .error e) :
    e.isScriptFailure = false := by
  unfold ofSpec at h
  split at h
  · rcases bind_eq_error h with h | ⟨url, -, h⟩
    · exact requiredText_error h
    rcases bind_eq_error h with h | ⟨method, -, h⟩
    · exact method_error h
    rcases bind_eq_error h with h | ⟨resultKey, -, h⟩
    · exact optionalText_error h
    · cases h
  · rcases bind_eq_error h with h | ⟨target, -, h⟩
    · exact requiredText_error h
    · cases h
  · rcases bind_eq_error h with h | ⟨source, -, h⟩
    · exact requiredText_error h
    · cases h
  · rcases bind_eq_error h with h | ⟨text, -, h⟩
    · exact requiredText_error h
    · cases h
  · rcases bind_eq_error h with h | ⟨key, -, h⟩
    · exact requiredText_error h
    · split at h <;> cases h
      rfl
  · cases h

end Action

namespace Dispatcher

/-! ## Steps -/

open Relation

/-- One thing that a dispatcher does. -/
inductive Step (d : Dispatcher) : Trace → Trace → Prop where
  | drop (t : Trace) {e : ActionError} (unasked : e.isScriptFailure = false) :
      Step d t (t.drop e)
  | update {t : Trace} {s : Store} {key : String} {v : Value} (held : t.store = some s)
      (applied : (s.write key v).2.isApplied = true) :
      Step d t ({ t with store := some (s.write key v).1 }.effect
        (.stateUpdate key (s.write key v).2.changed))
  /-- A request is handed over, stamped. -/
  | api (t : Trace) (request : ApiRequest) (given : d.collaborators.api = true)
      (stamp : request.generation = d.generation) :
      Step d t ((t.effect (.apiCall request.url)).call (.api request))
  | navigate (t : Trace) {target : String} (given : d.collaborators.navigation = some .opened) :
      Step d t ((t.call (.navigate target)).effect (.navigation target))
  | script (t : Trace) {run : String → Value → Except ScriptError Value} {source : String}
      {state result : Value} (given : d.collaborators.script = some run)
      (returned : run source state = .ok result) :
      Step d t ((t.call (.script source state)).effect (.script result))
  | scriptFailed (t : Trace) {run : String → Value → Except ScriptError Value} {source : String}
      {state : Value} {e : ScriptError} (given : d.collaborators.script = some run)
      (failed : run source state = .error e) :
      Step d t ((t.call (.script source state)).drop (.scriptFailed e.message))
  | share (t : Trace) {text : String} (given : d.collaborators.share = true) :
      Step d t ((t.call (.share text)).effect (.share text))
  | ignore (t : Trace) (tag : String) : Step d t (t.effect (.ignored tag))

/-- Any number of steps. -/
abbrev Steps (d : Dispatcher) : Trace → Trace → Prop := ReflTransGen (Step d)

variable {d : Dispatcher}

theorem steps_foldl {fire : WatchEvent → Trace → Trace} (hfire : ∀ e t, Steps d t (fire e t))
    (events : List WatchEvent) (t : Trace) :
    Steps d t (events.foldl (fun t e => fire e t) t) := by
  induction events generalizing t with
  | nil => exact .refl
  | cons e rest ih => exact (hfire e t).trans (ih (fire e t))

theorem steps_store {fire : WatchEvent → Trace → Trace} (hfire : ∀ e t, Steps d t (fire e t))
    {s : Store} {t : Trace} (held : t.store = some s) (key : String) (v : Value) :
    Steps d t (store fire s key v t) := by
  simp only [store]
  split
  · rename_i applied
    exact (ReflTransGen.single (Step.update held applied)).trans (steps_foldl hfire _ _)
  · exact .refl

/-- An action is a write to the store, whose events are handed on, or it is one step and raises no
event. -/
theorem perform_cases (d : Dispatcher) (spec : ActionSpec) (t : Trace) :
    (∃ s key v, t.store = some s ∧ ∀ fire, d.perform fire spec t = store fire s key v t) ∨
      ∃ t', Step d t t' ∧ ∀ fire, d.perform fire spec t = t' := by
  have step {t' : Trace} (h : Step d t t') :
      (∃ s key v, t.store = some s ∧ ∀ fire : WatchEvent → Trace → Trace,
        t' = store fire s key v t) ∨
        ∃ u, Step d t u ∧ ∀ _ : WatchEvent → Trace → Trace, t' = u :=
    .inr ⟨t', h, fun _ => rfl⟩
  unfold perform
  split
  · rename_i refused
    exact step (.drop t (Action.ofSpec_error refused))
  · split
    · exact step (.drop t rfl)
    · rename_i held
      exact .inl ⟨_, _, _, held, fun _ => rfl⟩
  · split
    · rename_i request _ given
      let sent := { request with
        generation := d.generation
        body := request.body.map (Value.resolveDeep t.store) }
      exact step (.api t sent given rfl)
    · exact step (.drop t rfl)
  · split
    · exact step (.drop t rfl)
    · exact step (.drop t rfl)
    · rename_i given
      exact step (.navigate t given)
  · split
    · exact step (.drop t rfl)
    · rename_i run given
      dsimp only
      split
      · rename_i returned
        exact step (.script t given returned)
      · rename_i failed
        exact step (.scriptFailed t given failed)
  · split
    · rename_i given
      exact step (.share t given)
    · exact step (.drop t rfl)
  · exact step (.ignore t _)

theorem steps_perform {fire : WatchEvent → Trace → Trace} (hfire : ∀ e t, Steps d t (fire e t))
    (spec : ActionSpec) (t : Trace) : Steps d t (d.perform fire spec t) := by
  rcases d.perform_cases spec t with ⟨s, key, v, held, written⟩ | ⟨t', step, done⟩
  · rw [written]
    exact steps_store hfire held key v
  · rw [done]
    exact .single step

/-- By induction on the depth that is left: the cascade of an event is a performance whose own
events have one level less. -/
theorem steps_fire (n : Nat) (e : WatchEvent) (t : Trace) : Steps d t (d.fire n e t) := by
  induction n generalizing e t with
  | zero => exact .single (.drop t rfl)
  | succ n ih => exact steps_perform ih e.boundAction t

theorem steps_dispatch (spec : ActionSpec) (s : Option Store) :
    Steps d (.start s) (d.dispatch spec s) :=
  steps_perform (steps_fire d.maxDepth) spec (.start s)

theorem steps_write (s : Store) (key : String) (v : Value) :
    Steps d (.start (some s)) (d.write s key v) :=
  steps_store (steps_fire d.maxDepth) rfl key v

/-! ## One dispatch after another -/

/-- What was done first, and behind it what was done from the store it left. -/
def followedBy (t u : Trace) : Trace :=
  ⟨u.store, t.outcome.append u.outcome, t.calls ++ u.calls⟩

theorem followedBy_start (t : Trace) : followedBy t (.start t.store) = t := by
  simp [followedBy, Trace.start, Outcome.append, Outcome.empty]

/-- A step looks at the store alone, so it is a step behind anything done before. -/
theorem Step.followedBy {u u' : Trace} (h : Step d u u') (t : Trace) :
    Step d (followedBy t u) (followedBy t u') := by
  have effect : ∀ (u : Trace) (e : Effect),
      Dispatcher.followedBy t (u.effect e) = (Dispatcher.followedBy t u).effect e := by
    intro u e
    simp [Dispatcher.followedBy, Trace.effect, Outcome.append]
  have call : ∀ (u : Trace) (c : Call),
      Dispatcher.followedBy t (u.call c) = (Dispatcher.followedBy t u).call c := by
    intro u c
    simp [Dispatcher.followedBy, Trace.call]
  have drop : ∀ (u : Trace) (e : ActionError),
      Dispatcher.followedBy t (u.drop e) = (Dispatcher.followedBy t u).drop e := by
    intro u e
    simp [Dispatcher.followedBy, Trace.drop, Outcome.append]
  cases h with
  | drop unasked => rw [drop]; exact .drop _ unasked
  | update held applied => rw [effect]; exact .update held applied
  | api request given stamp => rw [call, effect]; exact .api _ request given stamp
  | navigate given => rw [effect, call]; exact .navigate _ given
  | script given returned => rw [effect, call]; exact .script _ given returned
  | scriptFailed given failed => rw [drop, call]; exact .scriptFailed _ given failed
  | share given => rw [effect, call]; exact .share _ given
  | ignore tag => rw [effect]; exact .ignore _ tag

theorem steps_followedBy {s : Option Store} {t u : Trace} (first : Steps d (.start s) t)
    (second : Steps d (.start t.store) u) : Steps d (.start s) (followedBy t u) := by
  refine first.trans ?_
  have shifted : Steps d (followedBy t (.start t.store)) (followedBy t u) :=
    second.lift (followedBy t) fun _ _ h => h.followedBy t
  rwa [followedBy_start] at shifted

/-! ## Effects and the store -/

/-- A step that records no effect leaves the store alone. -/
theorem Step.effects {t t' : Trace} (h : Step d t t') :
    ∃ more, t'.outcome.effects = t.outcome.effects ++ more ∧
      (more = [] → t'.store = t.store) := by
  cases h with
  | drop unasked => exact ⟨[], by simp [Trace.drop], fun _ => rfl⟩
  | scriptFailed given failed => exact ⟨[], by simp [Trace.drop, Trace.call], fun _ => rfl⟩
  | update held applied => exact ⟨[_], rfl, fun h => absurd h (List.cons_ne_nil _ _)⟩
  | api request given stamp => exact ⟨[_], rfl, fun h => absurd h (List.cons_ne_nil _ _)⟩
  | navigate given => exact ⟨[_], rfl, fun h => absurd h (List.cons_ne_nil _ _)⟩
  | script given returned => exact ⟨[_], rfl, fun h => absurd h (List.cons_ne_nil _ _)⟩
  | share given => exact ⟨[_], rfl, fun h => absurd h (List.cons_ne_nil _ _)⟩
  | ignore tag => exact ⟨[_], rfl, fun h => absurd h (List.cons_ne_nil _ _)⟩

/-- Effects are only added, and where none is added the store is as it was. -/
theorem Steps.effects {t t' : Trace} (h : Steps d t t') :
    ∃ more, t'.outcome.effects = t.outcome.effects ++ more ∧
      (more = [] → t'.store = t.store) := by
  induction h with
  | refl => exact ⟨[], by simp, fun _ => rfl⟩
  | tail _ step ih =>
    obtain ⟨more, he, hs⟩ := ih
    obtain ⟨last, he', hs'⟩ := step.effects
    refine ⟨more ++ last, by rw [he', he, List.append_assoc], fun h => ?_⟩
    obtain ⟨hm, hl⟩ := List.append_eq_nil_iff.mp h
    exact (hs' hl).trans (hs hm)

theorem store_eq_of_no_effects {t : Trace} {s : Option Store} (h : Steps d (.start s) t)
    (none : t.outcome.effects = []) : t.store = s := by
  obtain ⟨more, he, hs⟩ := h.effects
  exact hs (he.symm.trans none)

/-! ## Stamps -/

/-- Every request among the calls has this generation. -/
def Stamped (generation : Nat) (calls : List Call) : Prop :=
  ∀ request, Call.api request ∈ calls → request.generation = generation

theorem Stamped.append {generation : Nat} {a b : List Call} (ha : Stamped generation a)
    (hb : Stamped generation b) : Stamped generation (a ++ b) := by
  intro request h
  rcases List.mem_append.mp h with h | h
  · exact ha request h
  · exact hb request h

/-- A step adds at most one call, and a request among the calls is stamped. -/
theorem Step.stamped {t t' : Trace} (h : Step d t t') (ht : Stamped d.generation t.calls) :
    Stamped d.generation t'.calls := by
  cases h with
  | drop unasked => exact ht
  | update held applied => exact ht
  | ignore tag => exact ht
  | api request given stamp =>
    refine ht.append fun _ hr => ?_
    cases List.mem_singleton.mp hr
    exact stamp
  | navigate given => exact ht.append (by simp [Stamped])
  | script given returned => exact ht.append (by simp [Stamped])
  | scriptFailed given failed => exact ht.append (by simp [Stamped])
  | share given => exact ht.append (by simp [Stamped])

theorem stamped_of_steps {s : Option Store} {t : Trace} (h : Steps d (.start s) t) :
    Stamped d.generation t.calls := by
  induction h with
  | refl => exact fun _ h => absurd h (List.not_mem_nil)
  | tail _ step ih => exact step.stamped ih

end Dispatcher

end ServerUi
