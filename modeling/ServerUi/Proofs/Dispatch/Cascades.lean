import Mathlib.Algebra.Ring.GeomSum
import ServerUi.Proofs.Dispatch.Recording

/-! # Cascades come to an end

Watchers may raise one another in circles, so nothing in a state block keeps a cascade from going on
for ever.  Here a cascade is taken as an agenda: one turn makes the attempt that is next and puts
what it raises in front of all that waits, one level deeper.  Turns may be repeated without a limit,
and the greatest depth is looked at only where an event is raised.

An attempt that waits is worth all that can still follow from it, level by level.  Each turn takes
at least one off that worth and leaves at most one record (`worth_turn`, `size_turn_le`).  So after
as many turns as the first attempt is worth the agenda is empty, and what has been done is what the
dispatcher does (`cascades_end`).
-/

namespace ServerUi

/-- The number of effects and dropped actions. -/
def Outcome.size (o : Outcome) : Nat := o.effects.length + o.dropped.length

/-- The greatest number of watchers of one key. -/
def Schema.fanout (s : Schema) : Nat :=
  (s.watchers.map fun w => s.watchers.countP (·.key == w.key)).max?.getD 0

theorem Schema.countP_le_fanout (s : Schema) (key : String) :
    s.watchers.countP (·.key == key) ≤ s.fanout := by
  by_cases watched : ∃ w ∈ s.watchers, w.key = key
  · obtain ⟨w, hw, rfl⟩ := watched
    exact List.le_max?_getD_of_mem (List.mem_map_of_mem hw)
  · have none : s.watchers.countP (·.key == key) = 0 :=
      List.countP_eq_zero.mpr fun w hw same => watched ⟨w, hw, beq_iff_eq.mp same⟩
    omega

theorem Store.length_eventsOf_le (s : Store) (key : String) (old new : Value) :
    (s.eventsOf key old new).length ≤ s.schema.fanout := by
  unfold eventsOf
  split
  · exact Nat.zero_le _
  · rw [List.length_map, ← List.countP_eq_length_filter]
    exact s.schema.countP_le_fanout key

/-- A write raises at most one event for each watcher of its key. -/
theorem Store.length_events_le (s : Store) (key : String) (v : Value) :
    (s.write key v).2.events.length ≤ s.schema.fanout := by
  unfold write
  split
  · exact Nat.zero_le _
  · split
    · exact Nat.zero_le _
    · exact s.length_eventsOf_le ..

/-- The greatest number of watchers of one key, where there is a store. -/
def Trace.fanout (t : Trace) : Nat := t.store.elim 0 fun s => s.schema.fanout

namespace Dispatcher

variable {d : Dispatcher}

/-! ## One attempt -/

/-- An attempt is one step, or a write that is refused. -/
theorem attempt_eq_or_step (t : Trace) (a : Attempt) :
    d.attempt t a = t ∨ Step d t (d.attempt t a) := by
  have written {s : Store} (held : t.store = some s) (key : String) (v : Value) :
      Dispatcher.store (fun _ t => t) s key v t = t ∨
        Step d t (Dispatcher.store (fun _ t => t) s key v t) := by
    rw [store_unheard]
    split
    · rename_i applied
      exact .inr (.update held applied)
    · exact .inl rfl
  cases a with
  | tooDeep e => exact .inr (.drop t rfl)
  | edit key v =>
    simp only [attempt]
    cases held : t.store with
    | none => exact .inl rfl
    | some s => exact written held key v
  | action spec =>
    rcases d.perform_cases spec t with ⟨s, key, v, held, eq⟩ | ⟨t', step, eq⟩
    · rw [attempt, eq]
      exact written held key v
    · rw [attempt, eq]
      exact .inr step

/-- Every step is recorded once, as an effect or as a dropped action. -/
theorem Step.size {t t' : Trace} (h : Step d t t') : t'.outcome.size = t.outcome.size + 1 := by
  have effect (u : Trace) (e : Effect) : (u.effect e).outcome.size = u.outcome.size + 1 := by
    simp only [Outcome.size, Trace.effect, List.length_append, List.length_singleton]
    omega
  have drop (u : Trace) (e : ActionError) : (u.drop e).outcome.size = u.outcome.size + 1 := by
    simp only [Outcome.size, Trace.drop, List.length_append, List.length_singleton]
    omega
  cases h with
  | drop unasked => exact drop t _
  | scriptFailed given failed => exact drop (t.call _) _
  | update held applied => exact effect { t with store := _ } _
  | api request given stamp => exact effect t _
  | navigate given => exact effect (t.call _) _
  | script given returned => exact effect (t.call _) _
  | share given => exact effect (t.call _) _
  | ignore tag => exact effect t _

/-- No step changes what the store declares. -/
theorem Step.fanout {t t' : Trace} (h : Step d t t') : t'.fanout = t.fanout := by
  cases h with
  | @update s key v held applied =>
    show (s.write key v).1.schema.fanout = t.fanout
    rw [Trace.fanout, held, Store.schema_write]
    rfl
  | drop unasked => rfl
  | api request given stamp => rfl
  | navigate given => rfl
  | script given returned => rfl
  | scriptFailed given failed => rfl
  | share given => rfl
  | ignore tag => rfl

theorem size_attempt_le (t : Trace) (a : Attempt) :
    (d.attempt t a).outcome.size ≤ t.outcome.size + 1 := by
  rcases @attempt_eq_or_step d t a with same | step
  · rw [same]
    exact Nat.le_succ _
  · exact Nat.le_of_eq step.size

theorem fanout_attempt (t : Trace) (a : Attempt) : (d.attempt t a).fanout = t.fanout := by
  rcases @attempt_eq_or_step d t a with same | step
  · rw [same]
  · exact step.fanout

/-- An attempt raises at most one event for each watcher of the key that it writes to. -/
theorem length_raised_le (t : Trace) (a : Attempt) : (raised t a).length ≤ t.fanout := by
  have written {s : Store} (held : t.store = some s) (key : String) (v : Value) :
      (s.write key v).2.events.length ≤ t.fanout := by
    rw [Trace.fanout, held]
    exact s.length_events_le key v
  cases a with
  | tooDeep e => exact Nat.zero_le _
  | edit key v =>
    simp only [raised]
    cases held : t.store with
    | none => exact Nat.zero_le _
    | some s => exact written held key v
  | action spec =>
    simp only [raised]
    split
    · rename_i held
      exact written held _ _
    · exact Nat.zero_le _

/-! ## Turns -/

/-- What is to be attempted for an event that was raised at a depth. -/
def follow (d : Dispatcher) (depth : Nat) (e : WatchEvent) : Attempt :=
  if depth + 1 > d.maxDepth then .tooDeep e else .action e.boundAction

/-- A cascade under way: what has been done, and the attempts that wait, each at its depth. -/
structure Cascade where
  done : Trace
  waiting : List (Nat × Attempt)

/-- Makes the attempt that is next, and puts what it raises in front of those that wait. -/
def turn (d : Dispatcher) (c : Cascade) : Cascade :=
  match c.waiting with
  | [] => c
  | (depth, a) :: rest =>
    ⟨d.attempt c.done a, (raised c.done a).map (fun e => (depth + 1, d.follow depth e)) ++ rest⟩

/-- What the dispatcher does for an attempt at a depth, with all that it raises. -/
def settle (d : Dispatcher) (t : Trace) : Nat × Attempt → Trace
  | (depth, .action spec) => d.perform (d.fire (d.maxDepth - depth)) spec t
  | (depth, .edit key v) =>
    t.store.elim t fun s => Dispatcher.store (d.fire (d.maxDepth - depth)) s key v t
  | (_, .tooDeep e) => d.fire 0 e t

def finish (d : Dispatcher) (c : Cascade) : Trace := c.waiting.foldl d.settle c.done

theorem settle_follow (t : Trace) (depth : Nat) (e : WatchEvent) :
    d.settle t (depth + 1, d.follow depth e) = d.fire (d.maxDepth - depth) e t := by
  unfold follow
  split
  · rename_i deep
    have none : d.maxDepth - depth = 0 := by omega
    rw [none]
    rfl
  · rename_i shallow
    obtain ⟨left, some⟩ : ∃ left, d.maxDepth - depth = left + 1 :=
      ⟨d.maxDepth - depth - 1, by omega⟩
    have less : d.maxDepth - (depth + 1) = left := by omega
    rw [some, settle, less]
    rfl

/-- An attempt is settled by itself first, and then by what follows from the events it raises. -/
theorem settle_eq_foldl (t : Trace) (depth : Nat) (a : Attempt) :
    d.settle t (depth, a) =
      ((raised t a).map fun e => (depth + 1, d.follow depth e)).foldl d.settle (d.attempt t a) := by
  simp only [List.foldl_map, settle_follow]
  cases a with
  | tooDeep e => rfl
  | action spec => exact perform_eq_foldl _ spec t
  | edit key v =>
    simp only [settle, raised, attempt]
    cases t.store with
    | none => rfl
    | some s => exact store_eq_foldl _ s key v t

/-- A turn leaves alone what the dispatcher makes of the cascade. -/
theorem finish_turn (c : Cascade) : d.finish (d.turn c) = d.finish c := by
  obtain ⟨t, waiting⟩ := c
  cases waiting with
  | nil => rfl
  | cons first rest =>
    obtain ⟨depth, a⟩ := first
    rw [finish, finish, List.foldl_cons, settle_eq_foldl, ← List.foldl_append]
    rfl

/-! ## What is left to do -/

/-- What an attempt at a depth can come to, if each write raises so many events: itself, the events
that it raises, and so on down to those that are cut. -/
def worthOf (d : Dispatcher) (fanout : Nat) : Nat × Attempt → Nat
  | (_, .tooDeep _) => 1
  | (depth, _) => ∑ i ∈ Finset.range (d.maxDepth - depth + 2), fanout ^ i

/-- What a cascade under way can still come to. -/
def worth (d : Dispatcher) (c : Cascade) : Nat :=
  (c.waiting.map (d.worthOf c.done.fanout)).sum

theorem worthOf_follow (w depth : Nat) (e : WatchEvent) :
    d.worthOf w (depth + 1, d.follow depth e) =
      ∑ i ∈ Finset.range (d.maxDepth - depth + 1), w ^ i := by
  unfold follow
  split
  · rename_i deep
    have none : d.maxDepth - depth = 0 := by omega
    rw [none, worthOf, Finset.sum_range_one, pow_zero]
  · rename_i shallow
    have less : d.maxDepth - (depth + 1) + 2 = d.maxDepth - depth + 1 := by omega
    show ∑ i ∈ Finset.range (d.maxDepth - (depth + 1) + 2), w ^ i = _
    rw [less]

/-- An attempt is worth more than all that it raises. -/
theorem sum_worthOf_raised_lt (t : Trace) (depth : Nat) (a : Attempt) :
    (((raised t a).map fun e => (depth + 1, d.follow depth e)).map (d.worthOf t.fanout)).sum <
      d.worthOf t.fanout (depth, a) := by
  have each : (raised t a).map (d.worthOf t.fanout ∘ fun e => (depth + 1, d.follow depth e)) =
      (raised t a).map fun _ => ∑ i ∈ Finset.range (d.maxDepth - depth + 1), t.fanout ^ i :=
    List.map_congr_left fun e _ => worthOf_follow t.fanout depth e
  rw [List.map_map, each, List.map_const', List.sum_replicate_nat]
  have all : (raised t a).length * ∑ i ∈ Finset.range (d.maxDepth - depth + 1), t.fanout ^ i <
      ∑ i ∈ Finset.range (d.maxDepth - depth + 2), t.fanout ^ i :=
    calc
      _ ≤ t.fanout * ∑ i ∈ Finset.range (d.maxDepth - depth + 1), t.fanout ^ i :=
        Nat.mul_le_mul_right _ (length_raised_le t a)
      _ < t.fanout * ∑ i ∈ Finset.range (d.maxDepth - depth + 1), t.fanout ^ i + 1 :=
        Nat.lt_succ_self _
      _ = _ := geom_sum_succ.symm
  cases a with
  | tooDeep e =>
    rw [raised, List.length_nil, Nat.zero_mul]
    exact Nat.one_pos
  | action spec => exact all
  | edit key v => exact all

/-- A turn leaves less to do. -/
theorem worth_turn {c : Cascade} (waits : c.waiting ≠ []) : d.worth (d.turn c) < d.worth c := by
  obtain ⟨t, waiting⟩ := c
  cases waiting with
  | nil => exact absurd rfl waits
  | cons first rest =>
    obtain ⟨depth, a⟩ := first
    simp only [worth, turn, fanout_attempt, List.map_append, List.sum_append, List.map_cons,
      List.sum_cons]
    exact Nat.add_lt_add_right (sum_worthOf_raised_lt t depth a) _

/-- No cascade can go on for ever. -/
theorem wellFounded_turn :
    WellFounded fun later c : Cascade => c.waiting ≠ [] ∧ later = d.turn c :=
  Subrelation.wf (fun h => h.2 ▸ worth_turn h.1) (measure d.worth).wf

/-- What is recorded was worth something before. -/
theorem size_turn_le (c : Cascade) :
    (d.turn c).done.outcome.size + d.worth (d.turn c) ≤ c.done.outcome.size + d.worth c := by
  obtain ⟨t, waiting⟩ := c
  cases waiting with
  | nil => exact Nat.le_refl _
  | cons first rest =>
    have less : d.worth (d.turn ⟨t, first :: rest⟩) < d.worth ⟨t, first :: rest⟩ :=
      worth_turn (List.cons_ne_nil _ _)
    have recorded : (d.turn ⟨t, first :: rest⟩).done.outcome.size ≤ t.outcome.size + 1 :=
      size_attempt_le t first.2
    show _ ≤ t.outcome.size + _
    omega

/-- As many turns as a cascade is worth finish it, and so does any greater number. -/
theorem iterate_turn {n : Nat} {c : Cascade} (enough : d.worth c ≤ n) :
    d.turn^[n] c = ⟨d.finish c, []⟩ ∧
      (d.finish c).outcome.size ≤ c.done.outcome.size + d.worth c := by
  induction n generalizing c with
  | zero =>
    obtain ⟨t, waiting⟩ := c
    have none : waiting = [] := by
      by_contra waits
      have less := @worth_turn d ⟨t, waiting⟩ waits
      omega
    subst none
    exact ⟨rfl, Nat.le_refl _⟩
  | succ n ih =>
    have fewer : d.worth (d.turn c) ≤ n := by
      by_cases none : c.waiting = []
      · rw [worth, turn, none]
        simp only [none, List.map_nil, List.sum_nil, Nat.zero_le]
      · have less := @worth_turn d c none
        omega
    obtain ⟨finished, small⟩ := ih fewer
    rw [finish_turn] at finished small
    exact ⟨finished, small.trans (size_turn_le c)⟩

/-- A cascade that begins with one attempt is worth what the attempt is. -/
theorem worth_singleton (t : Trace) (first : Nat × Attempt) :
    d.worth ⟨t, [first]⟩ = d.worthOf t.fanout first := by
  rw [worth, List.map_singleton, List.sum_singleton]

theorem finish_action (store : Option Store) (spec : ActionSpec) :
    d.finish ⟨.start store, [(0, .action spec)]⟩ = d.dispatch spec store := rfl

theorem finish_edit (s : Store) (key : String) (v : Value) :
    d.finish ⟨.start (some s), [(0, .edit key v)]⟩ = d.write s key v := rfl

/-- **Cascades come to an end.**  Take any dispatcher and any store, whatever its watchers raise, in
circles or not.  Turns cannot go on for ever.  With `w` for the greatest number of watchers of one
key and `D` for the greatest depth, a cascade that begins with an action or with a write has nothing
left to do after `1 + w + ⋯ + w ^ (D + 1)` turns; it has then done what the dispatcher does, with no
more effects and dropped actions than that. -/
theorem cascades_end (d : Dispatcher) (spec : ActionSpec) (store : Option Store) (held : Store)
    (key : String) (v : Value) :
    (WellFounded fun later c : Cascade => c.waiting ≠ [] ∧ later = d.turn c) ∧
    (let bound := ∑ i ∈ Finset.range (d.maxDepth + 2), (Trace.start store).fanout ^ i
     d.turn^[bound] ⟨.start store, [(0, .action spec)]⟩ = ⟨d.dispatch spec store, []⟩ ∧
       (d.dispatch spec store).outcome.size ≤ bound) ∧
    (let bound := ∑ i ∈ Finset.range (d.maxDepth + 2), held.schema.fanout ^ i
     d.turn^[bound] ⟨.start (some held), [(0, .edit key v)]⟩ = ⟨d.write held key v, []⟩ ∧
       (d.write held key v).outcome.size ≤ bound) := by
  refine ⟨wellFounded_turn, ?_, ?_⟩
  · have acted := iterate_turn (Nat.le_refl (d.worth ⟨.start store, [(0, .action spec)]⟩))
    rw [worth_singleton, finish_action] at acted
    exact ⟨acted.1, acted.2.trans (Nat.le_of_eq (Nat.zero_add _))⟩
  · have edited := iterate_turn (Nat.le_refl (d.worth ⟨.start (some held), [(0, .edit key v)]⟩))
    rw [worth_singleton, finish_edit] at edited
    exact ⟨edited.1, edited.2.trans (Nat.le_of_eq (Nat.zero_add _))⟩

/-- A number that its only watcher sets back whenever it changes. -/
def swingBlock : StateBlock :=
  ((∅ : StateBlock).bind (.plain "side" .number)).watch "side"
    (.stateUpdate "side" (.string "@watch:oldValue"))

/-- The bound is met: four updates, and the event that is cut. -/
example :
    let d : Dispatcher := ⟨.none, 3, 0⟩
    let s := Store.ofBlock swingBlock
    (d.write s "side" (.int 1)).outcome.size = ∑ i ∈ Finset.range 5, s.schema.fanout ^ i := by
  decide +kernel

end Dispatcher

end ServerUi
