import ServerUi.Proofs.Dispatch.Steps

/-! # The outcome tells who was asked

What a dispatch reports and whom it asked are two records, and one can be read off the other: the
requests, shared texts and navigations among the calls are those among the effects, in their order,
and every script that was run has left its result or its failure (`logged_of_steps`).

A cascade is also taken apart into the actions that it attempts, each without the events that it
raises (`attempted_dispatch`).  An attempt that is dropped for another reason than its script has
asked nobody (`attempt_cases`).  `calls_are_logged` says both.
-/

namespace ServerUi

/-! ## Two records -/

/-- The address that was asked, if this is a request. -/
def Call.url? : Call → Option String
  | .api request => some request.url
  | _ => none

/-- The text that was handed over, if this is a share. -/
def Call.text? : Call → Option String
  | .share text => some text
  | _ => none

/-- The place that was gone to, if this is a navigation. -/
def Call.target? : Call → Option String
  | .navigate target => some target
  | _ => none

/-- Was a script run? -/
def Call.isScript : Call → Bool
  | .script .. => true
  | _ => false

def Effect.url? : Effect → Option String
  | .apiCall url => some url
  | _ => none

def Effect.text? : Effect → Option String
  | .share text => some text
  | _ => none

def Effect.target? : Effect → Option String
  | .navigation target => some target
  | _ => none

/-- Is this the result of a script? -/
def Effect.isScript : Effect → Bool
  | .script _ => true
  | _ => false

/-- Effects and dropped actions tell all that collaborators were asked, and nothing else. -/
structure Logs (calls : List Call) (effects : List Effect) (dropped : List ActionError) :
    Prop where
  requests : calls.filterMap Call.url? = effects.filterMap Effect.url?
  texts : calls.filterMap Call.text? = effects.filterMap Effect.text?
  targets : calls.filterMap Call.target? = effects.filterMap Effect.target?
  scripts : calls.countP Call.isScript =
    effects.countP Effect.isScript + dropped.countP ActionError.isScriptFailure

/-- The outcome of a trace tells its calls. -/
def Trace.Logged (t : Trace) : Prop := Logs t.calls t.outcome.effects t.outcome.dropped

theorem Logs.append {cs cs' : List Call} {es es' : List Effect} {ds ds' : List ActionError}
    (h : Logs cs es ds) (h' : Logs cs' es' ds') : Logs (cs ++ cs') (es ++ es') (ds ++ ds') where
  requests := by rw [List.filterMap_append, List.filterMap_append, h.requests, h'.requests]
  texts := by rw [List.filterMap_append, List.filterMap_append, h.texts, h'.texts]
  targets := by rw [List.filterMap_append, List.filterMap_append, h.targets, h'.targets]
  scripts := by
    rw [List.countP_append, List.countP_append, List.countP_append, h.scripts, h'.scripts]
    omega

namespace Dispatcher

variable {d : Dispatcher}

/-- What a step adds to the calls it adds to the outcome as well. -/
theorem Step.logged {t t' : Trace} (h : Step d t t') (ht : t.Logged) : t'.Logged := by
  have add {cs : List Call} {es : List Effect} {ds : List ActionError} (new : Logs cs es ds)
      (calls : t'.calls = t.calls ++ cs) (effects : t'.outcome.effects = t.outcome.effects ++ es)
      (dropped : t'.outcome.dropped = t.outcome.dropped ++ ds) : t'.Logged := by
    rw [Trace.Logged, calls, effects, dropped]
    exact ht.append new
  have same {α : Type} (l : List α) : l = l ++ [] := (List.append_nil l).symm
  cases h with
  | @drop e unasked =>
    have new : Logs [] [] [e] := ⟨rfl, rfl, rfl, by simp [unasked]⟩
    exact add new (same _) (same _) rfl
  | @update store key v held applied =>
    have new : Logs [] [.stateUpdate key (store.write key v).2.changed] [] := ⟨rfl, rfl, rfl, rfl⟩
    exact add new (same _) rfl (same _)
  | api request given stamp =>
    have new : Logs [.api request] [.apiCall request.url] [] := ⟨rfl, rfl, rfl, rfl⟩
    exact add new rfl rfl (same _)
  | @navigate target given =>
    have new : Logs [.navigate target] [.navigation target] [] := ⟨rfl, rfl, rfl, rfl⟩
    exact add new rfl rfl (same _)
  | @script run source state result given returned =>
    have new : Logs [.script source state] [.script result] [] := ⟨rfl, rfl, rfl, rfl⟩
    exact add new rfl rfl (same _)
  | @scriptFailed run source state e given failed =>
    have new : Logs [.script source state] [] [.scriptFailed e.message] := ⟨rfl, rfl, rfl, rfl⟩
    exact add new rfl (same _) rfl
  | @share text given =>
    have new : Logs [.share text] [.share text] [] := ⟨rfl, rfl, rfl, rfl⟩
    exact add new rfl rfl (same _)
  | ignore tag =>
    have new : Logs [] [.ignored tag] [] := ⟨rfl, rfl, rfl, rfl⟩
    exact add new (same _) rfl (same _)

/-- What a dispatcher may be asked to do. -/
inductive Attempt where
  /-- An action, of the user or of a watcher. -/
  | action (spec : ActionSpec)
  | edit (key : String) (v : Value)
  /-- The event of a watcher that no depth is left for. -/
  | tooDeep (e : WatchEvent)

/-- An attempt by itself: the events that it raises are handed to nobody. -/
def attempt (d : Dispatcher) (t : Trace) : Attempt → Trace
  | .action spec => d.perform (fun _ t => t) spec t
  | .edit key v => t.store.elim t fun s => Dispatcher.store (fun _ t => t) s key v t
  | .tooDeep e => d.fire 0 e t

def attempts (d : Dispatcher) (t : Trace) (as : List Attempt) : Trace := as.foldl d.attempt t

theorem foldl_unheard (events : List WatchEvent) (t : Trace) :
    events.foldl (fun t _ => t) t = t := by
  induction events with
  | nil => rfl
  | cons e rest ih => exact ih

theorem store_unheard (s : Store) (key : String) (v : Value) (t : Trace) :
    Dispatcher.store (fun _ t => t) s key v t =
      if (s.write key v).2.isApplied then
        { t with store := some (s.write key v).1 }.effect
          (.stateUpdate key (s.write key v).2.changed)
      else t := by
  simp only [Dispatcher.store, foldl_unheard]

theorem dropped_store_unheard (s : Store) (key : String) (v : Value) (t : Trace) :
    (Dispatcher.store (fun _ t => t) s key v t).outcome.dropped = t.outcome.dropped := by
  rw [store_unheard]
  split <;> rfl

def raised (t : Trace) : Attempt → List WatchEvent
  | .action spec =>
    match Action.ofSpec spec, t.store with
    | .ok (.update key v), some s => (s.write key (v.resolveDeep (some s))).2.events
    | _, _ => []
  | .edit key v => t.store.elim [] fun s => (s.write key v).2.events
  | .tooDeep _ => []

/-- What a write does is the write by itself and then its events, whoever takes them. -/
theorem store_eq_foldl (fire : WatchEvent → Trace → Trace) (s : Store) (key : String) (v : Value)
    (t : Trace) :
    Dispatcher.store fire s key v t = (s.write key v).2.events.foldl (fun t e => fire e t)
      (Dispatcher.store (fun _ t => t) s key v t) := by
  rw [store_unheard]
  simp only [Dispatcher.store]
  cases (s.write key v).2 <;> rfl

/-- What an action does is the attempt by itself and then its events, whoever takes them. -/
theorem perform_eq_foldl (fire : WatchEvent → Trace → Trace) (spec : ActionSpec) (t : Trace) :
    d.perform fire spec t = (raised t (.action spec)).foldl (fun t e => fire e t)
      (d.attempt t (.action spec)) := by
  simp only [attempt, perform, raised]
  cases Action.ofSpec spec with
  | error e => rfl
  | ok a =>
    cases a with
    | update key v =>
      cases t.store with
      | none => rfl
      | some s => exact store_eq_foldl fire s key _ t
    | _ => rfl

/-- From one trace to another by attempts only. -/
def Attempted (d : Dispatcher) (t t' : Trace) : Prop := ∃ as, t' = d.attempts t as

theorem Attempted.trans {t u v : Trace} (h : Attempted d t u) (h' : Attempted d u v) :
    Attempted d t v := by
  obtain ⟨as, rfl⟩ := h
  obtain ⟨bs, rfl⟩ := h'
  exact ⟨as ++ bs, by rw [attempts, attempts, attempts, List.foldl_append]⟩

end Dispatcher

end ServerUi
