import ServerUi.Proofs.Dispatch.Calls
import ServerUi.Proofs.State.Writes

/-! # Writes are logged

A dispatch asks the store for any number of writes, its own and those of its watchers, and some are
refused.  `recordDispatch` and `recordWrite` do what `dispatch` and `write` do and keep every write
that is asked, with its value.  The updates among the effects are those of the recorded writes that
the store accepts, and the recorded writes lead from the first store to the last
(`writes_are_logged`).
-/

namespace ServerUi

/-! ## Accepted writes -/

namespace Store

/-- Which of the writes are accepted, each at its turn, and whether it changes a value. -/
def accepted (s : Store) : List (String × Value) → List (String × Bool)
  | [] => []
  | (key, v) :: rest =>
    let (next, outcome) := s.write key v
    if outcome.isApplied then (key, outcome.changed) :: next.accepted rest
    else next.accepted rest

theorem accepted_append (s : Store) (ws ws' : List (String × Value)) :
    s.accepted (ws ++ ws') = s.accepted ws ++ (s.writes ws).accepted ws' := by
  induction ws generalizing s with
  | nil => rfl
  | cons w rest ih =>
    have next := ih (s.write w.1 w.2).1
    simp only [List.cons_append, accepted, next]
    split <;> rfl

theorem accepted_singleton (s : Store) (key : String) (v : Value) :
    s.accepted [(key, v)] =
      if (s.write key v).2.isApplied then [(key, (s.write key v).2.changed)] else [] :=
  rfl

theorem writes_of_accepted_eq_nil {s : Store} {ws : List (String × Value)}
    (none : s.accepted ws = []) : s.writes ws = s := by
  induction ws with
  | nil => rfl
  | cons w rest ih =>
    simp only [accepted] at none
    split at none
    · cases none
    · rename_i refused
      have same := write_of_not_applied (Bool.eq_false_iff.mpr refused)
      show (s.write w.1 w.2).1.writes rest = s
      rw [same] at none ⊢
      exact ih none

/-- A key that no accepted write names, and that is not planned, keeps its value. -/
theorem get?_writes_of_notMem {block : StateBlock} {s : Store}
    (hs : s.schema = Schema.ofBlock block) {k : String} (unplanned : ¬ Schema.Planned block k)
    {ws : List (String × Value)} (unnamed : k ∉ (s.accepted ws).map Prod.fst) :
    (s.writes ws).get? k = s.get? k := by
  induction ws generalizing s with
  | nil => rfl
  | cons w rest ih =>
    have next := @ih (s.write w.1 w.2).1 ((schema_write s w.1 w.2).trans hs)
    show ((s.write w.1 w.2).1.writes rest).get? k = s.get? k
    simp only [accepted] at unnamed
    split at unnamed
    · rw [List.map_cons, List.mem_cons, not_or] at unnamed
      rw [next unnamed.2, get?_write_of_ne hs unnamed.1 unplanned]
    · rename_i refused
      rw [next unnamed, write_of_not_applied (Bool.eq_false_iff.mpr refused)]

end Store

/-! ## Recordings -/

/-- The key of an update, and whether it changed the value. -/
def Effect.update? : Effect → Option (String × Bool)
  | .stateUpdate key changed => some (key, changed)
  | _ => none

/-- The updates among the effects, in order. -/
def Trace.updates (t : Trace) : List (String × Bool) := t.outcome.effects.filterMap Effect.update?

namespace Trace

theorem updates_effect (t : Trace) (e : Effect) :
    (t.effect e).updates = t.updates ++ e.update?.toList := by
  rw [updates, updates, effect, List.filterMap_append]
  cases h : e.update? <;> simp [h]

end Trace

/-- What has been done so far, with the writes that the store was asked for, accepted or not. -/
structure Recording where
  trace : Trace
  writes : List (String × Value)

namespace Dispatcher

variable {d : Dispatcher}

/-- A write to the store, recorded, and then its events. -/
def recordStore (fire : WatchEvent → Recording → Recording) (s : Store) (key : String) (v : Value)
    (r : Recording) : Recording :=
  (s.write key v).2.events.foldl (fun r e => fire e r)
    ⟨store (fun _ t => t) s key v r.trace, r.writes ++ [(key, v)]⟩

/-- An action; nothing is recorded of one that does not reach the store. -/
def recordPerform (d : Dispatcher) (fire : WatchEvent → Recording → Recording) (spec : ActionSpec)
    (r : Recording) : Recording :=
  match Action.ofSpec spec, r.trace.store with
  | .ok (.update key v), some s => recordStore fire s key (v.resolveDeep (some s)) r
  | _, _ => { r with trace := d.attempt r.trace (.action spec) }

/-- An event while so much depth is left. -/
def recordFire (d : Dispatcher) : Nat → WatchEvent → Recording → Recording
  | 0, e, r => { r with trace := d.fire 0 e r.trace }
  | n + 1, e, r => d.recordPerform (recordFire d n) e.boundAction r

/-- `dispatch`, with the writes it asks for. -/
def recordDispatch (d : Dispatcher) (spec : ActionSpec) (store : Option Store) : Recording :=
  d.recordPerform (d.recordFire d.maxDepth) spec ⟨.start store, []⟩

/-- `write`, with the writes it asks for. -/
def recordWrite (d : Dispatcher) (s : Store) (key : String) (v : Value) : Recording :=
  recordStore (d.recordFire d.maxDepth) s key v ⟨.start (some s), []⟩

/-- An action is an update where there is a store. -/
def Reaches (spec : ActionSpec) (t : Trace) : Prop :=
  ∃ key v s, Action.ofSpec spec = .ok (.update key v) ∧ t.store = some s

/-- Any other action raises no event and leaves the store and the updates alone. -/
theorem perform_of_not_reaches {spec : ActionSpec} {t : Trace} (elsewhere : ¬ Reaches spec t) :
    (∀ fire, d.perform fire spec t = d.attempt t (.action spec)) ∧
      (d.attempt t (.action spec)).store = t.store ∧
      (d.attempt t (.action spec)).updates = t.updates := by
  have added {e : Effect} (h : e.update? = none) (u : Trace) :
      (u.effect e).updates = u.updates := by
    rw [u.updates_effect, h, Option.toList_none, List.append_nil]
  -- one case for each kind of action, in the order of `perform`
  simp only [attempt, perform]
  split
  · exact ⟨fun _ => rfl, rfl, rfl⟩
  · rename_i key v update
    cases held : t.store with
    | none => exact ⟨fun _ => rfl, held, rfl⟩
    | some s => exact absurd ⟨key, v, s, update, held⟩ elsewhere
  · split
    · exact ⟨fun _ => rfl, rfl, added rfl t⟩
    · exact ⟨fun _ => rfl, rfl, rfl⟩
  · split
    · exact ⟨fun _ => rfl, rfl, rfl⟩
    · exact ⟨fun _ => rfl, rfl, rfl⟩
    · exact ⟨fun _ => rfl, rfl, added rfl _⟩
  · split
    · exact ⟨fun _ => rfl, rfl, rfl⟩
    · split
      · exact ⟨fun _ => rfl, rfl, added rfl _⟩
      · exact ⟨fun _ => rfl, rfl, rfl⟩
  · split
    · exact ⟨fun _ => rfl, rfl, added rfl _⟩
    · exact ⟨fun _ => rfl, rfl, rfl⟩
  · exact ⟨fun _ => rfl, rfl, added rfl t⟩

theorem recordPerform_cases (fire : WatchEvent → Recording → Recording) (spec : ActionSpec)
    (r : Recording) :
    (∃ key v s, r.trace.store = some s ∧
      (∀ fire, d.perform fire spec r.trace = store fire s key v r.trace) ∧
      d.recordPerform fire spec r = recordStore fire s key v r) ∨
    ¬ Reaches spec r.trace ∧
      d.recordPerform fire spec r = { r with trace := d.attempt r.trace (.action spec) } := by
  unfold recordPerform
  split
  · rename_i key v s update held
    refine .inl ⟨key, _, s, held, fun fire => ?_, rfl⟩
    simp only [perform, update, held]
  · rename_i other
    refine .inr ⟨?_, rfl⟩
    rintro ⟨key, v, s, update, held⟩
    exact other key v s update held

/-! ## A recording changes nothing -/

section

variable {recorded : WatchEvent → Recording → Recording} {fire : WatchEvent → Trace → Trace}
  (hfire : ∀ e r, (recorded e r).trace = fire e r.trace)

include hfire

theorem trace_foldl (events : List WatchEvent) (r : Recording) :
    (events.foldl (fun r e => recorded e r) r).trace =
      events.foldl (fun t e => fire e t) r.trace := by
  induction events generalizing r with
  | nil => rfl
  | cons e rest ih => rw [List.foldl_cons, List.foldl_cons, ih, hfire]

theorem trace_recordStore (s : Store) (key : String) (v : Value) (r : Recording) :
    (recordStore recorded s key v r).trace = store fire s key v r.trace := by
  rw [recordStore, trace_foldl hfire, store_unheard]
  simp only [store]
  cases (s.write key v).2 <;> rfl

theorem trace_recordPerform (spec : ActionSpec) (r : Recording) :
    (d.recordPerform recorded spec r).trace = d.perform fire spec r.trace := by
  rcases @recordPerform_cases d recorded spec r with ⟨key, v, s, -, written, eq⟩ | ⟨elsewhere, eq⟩
  · rw [eq, trace_recordStore hfire, written]
  · rw [eq, (perform_of_not_reaches elsewhere).1]

end

theorem trace_recordFire (n : Nat) (e : WatchEvent) (r : Recording) :
    (d.recordFire n e r).trace = d.fire n e r.trace := by
  induction n generalizing e r with
  | zero => rfl
  | succ n ih => exact trace_recordPerform ih e.boundAction r

theorem trace_recordDispatch (spec : ActionSpec) (s : Option Store) :
    (d.recordDispatch spec s).trace = d.dispatch spec s :=
  trace_recordPerform (trace_recordFire d.maxDepth) spec _

theorem trace_recordWrite (s : Store) (key : String) (v : Value) :
    (d.recordWrite s key v).trace = d.write s key v :=
  trace_recordStore (trace_recordFire d.maxDepth) s key v _

/-! ## What is recorded -/

/-- The recorded writes lead from a store to the one that the trace holds, and its updates are
those of them that are accepted.  Without a store nothing is asked for. -/
structure Recorded (before : Option Store) (r : Recording) : Prop where
  store : r.trace.store = before.map (·.writes r.writes)
  updates : r.trace.updates = before.elim [] (·.accepted r.writes)
  storeless : before = none → r.writes = []

theorem recorded_start (before : Option Store) : Recorded before ⟨.start before, []⟩ where
  store := by cases before <;> rfl
  updates := by cases before <;> rfl
  storeless _ := rfl

variable {before : Option Store} {r : Recording}

theorem Recorded.foldl {fire : WatchEvent → Recording → Recording}
    (hfire : ∀ e r, Recorded before r → Recorded before (fire e r)) (events : List WatchEvent)
    (h : Recorded before r) : Recorded before (events.foldl (fun r e => fire e r) r) := by
  induction events generalizing r with
  | nil => exact h
  | cons e rest ih => exact ih (hfire e r h)

/-- One more write is asked of the store that the writes so far have led to. -/
theorem Recorded.asked (h : Recorded before r) {s : Store} (held : r.trace.store = some s)
    (key : String) (v : Value) :
    Recorded before
      ⟨Dispatcher.store (fun _ t => t) s key v r.trace, r.writes ++ [(key, v)]⟩ := by
  obtain ⟨first, rfl⟩ : ∃ first, before = some first := by
    cases before with
    | none => cases held.symm.trans h.store
    | some first => exact ⟨first, rfl⟩
  obtain rfl : s = first.writes r.writes := Option.some.inj (held.symm.trans h.store)
  have updates : r.trace.updates = first.accepted r.writes := h.updates
  rw [store_unheard]
  refine ⟨?_, ?_, nofun⟩
  · -- a refused write is recorded too, and leads to the same store
    rw [Option.map_some, Store.writes_append]
    split
    · rfl
    · rename_i refused
      have same := Store.write_of_not_applied (Bool.eq_false_iff.mpr refused)
      show r.trace.store = some ((first.writes r.writes).write key v).1
      rw [same, held]
  · rw [Option.elim_some, Store.accepted_append, Store.accepted_singleton, ← updates]
    split
    · rw [Trace.updates_effect]
      rfl
    · rw [List.append_nil]

theorem Recorded.recordStore {fire : WatchEvent → Recording → Recording}
    (hfire : ∀ e r, Recorded before r → Recorded before (fire e r)) (h : Recorded before r)
    {s : Store} (held : r.trace.store = some s) (key : String) (v : Value) :
    Recorded before (recordStore fire s key v r) :=
  (h.asked held key v).foldl hfire _

theorem Recorded.recordPerform {fire : WatchEvent → Recording → Recording}
    (hfire : ∀ e r, Recorded before r → Recorded before (fire e r)) (h : Recorded before r)
    (spec : ActionSpec) : Recorded before (d.recordPerform fire spec r) := by
  rcases @recordPerform_cases d fire spec r with ⟨key, v, s, held, -, eq⟩ | ⟨elsewhere, eq⟩
  · rw [eq]
    exact h.recordStore hfire held key v
  · obtain ⟨-, store, updates⟩ := @perform_of_not_reaches d _ _ elsewhere
    rw [eq]
    exact ⟨store.trans h.store, updates.trans h.updates, h.storeless⟩

/-- By induction on the depth that is left. -/
theorem Recorded.recordFire (n : Nat) (e : WatchEvent) (h : Recorded before r) :
    Recorded before (d.recordFire n e r) := by
  induction n generalizing e r with
  | zero => exact ⟨h.store, h.updates, h.storeless⟩
  | succ n ih => exact h.recordPerform (fun e r h => ih e h) e.boundAction

/-- An action that is dropped itself, and not through the events of its update, leaves the store
and the updates alone. -/
theorem perform_of_dropped {spec : ActionSpec} {t : Trace}
    (dropped : (d.attempt t (.action spec)).outcome.dropped ≠ t.outcome.dropped)
    (fire : WatchEvent → Trace → Trace) :
    (d.perform fire spec t).store = t.store ∧ (d.perform fire spec t).updates = t.updates := by
  have elsewhere : ¬ Reaches spec t := by
    rintro ⟨key, v, s, update, held⟩
    apply dropped
    simp only [attempt, perform, update, held]
    exact dropped_store_unheard s key _ t
  obtain ⟨alone, store, updates⟩ := @perform_of_not_reaches d _ _ elsewhere
  rw [alone]
  exact ⟨store, updates⟩

theorem recorded_recordDispatch (spec : ActionSpec) (s : Option Store) :
    Recorded s (d.recordDispatch spec s) :=
  (recorded_start s).recordPerform (fun e _ h => h.recordFire d.maxDepth e) spec

theorem recorded_recordWrite (s : Store) (key : String) (v : Value) :
    Recorded (some s) (d.recordWrite s key v) :=
  (recorded_start (some s)).recordStore (fun e _ h => h.recordFire d.maxDepth e) rfl key v

/-! ## The log -/

/-- What the updates among the effects tell about the store. -/
structure Logged (before : Option Store) (r : Recording) : Prop extends Recorded before r where
  /-- A plain key that holds another value is among the updates. -/
  named : ∀ (block : StateBlock) (s s' : Store) (key : String) (b : Binding),
    before = some s → s.schema = Schema.ofBlock block →
    block.bindings.find? key = some b → b.source? = none →
    r.trace.store = some s' → s'.get? key ≠ s.get? key → key ∈ r.trace.updates.map Prod.fst
  unchanged : r.trace.updates = [] → r.trace.store = before

theorem Recorded.logged (h : Recorded before r) : Logged before r where
  toRecorded := h
  named := by
    rintro block s s' key b rfl schema bound plain held moved
    obtain rfl : s.writes r.writes = s' := Option.some.inj (h.store.symm.trans held)
    by_contra unnamed
    have updates : r.trace.updates = s.accepted r.writes := h.updates
    rw [updates] at unnamed
    have unplanned := Schema.unplanned_of_plain bound plain
    exact moved (Store.get?_writes_of_notMem schema unplanned unnamed)
  unchanged := by
    intro none
    cases before with
    | none => exact h.store
    | some s =>
      have updates : r.trace.updates = s.accepted r.writes := h.updates
      have store : r.trace.store = some (s.writes r.writes) := h.store
      rw [store, Store.writes_of_accepted_eq_nil (updates.symm.trans none)]

/-- **Writes are logged.**  Keep every write that a dispatch or a write of the user asks of the
store, with all of its cascade and under any limit.  In the order in which they are asked, those
that are accepted are the updates among the effects, and all of them together lead from the store
before to the store after.  So a plain key that holds another value is among the updates, and if
there is no update the store is as it was.  An action that is dropped for its payload, for want of
a collaborator or a listener, or because its script failed, leaves the store alone. -/
theorem writes_are_logged (d : Dispatcher) (spec : ActionSpec) (store : Option Store)
    (held : Store) (key : String) (v : Value) :
    ((d.recordDispatch spec store).trace = d.dispatch spec store ∧
      Logged store (d.recordDispatch spec store)) ∧
    ((d.recordWrite held key v).trace = d.write held key v ∧
      Logged (some held) (d.recordWrite held key v)) ∧
    ∀ (t : Trace) (action : ActionSpec),
      (d.attempt t (.action action)).outcome.dropped ≠ t.outcome.dropped →
      ∀ fire, (d.perform fire action t).store = t.store ∧
        (d.perform fire action t).updates = t.updates :=
  ⟨⟨trace_recordDispatch spec store, (recorded_recordDispatch spec store).logged⟩,
    ⟨trace_recordWrite held key v, (recorded_recordWrite held key v).logged⟩,
    fun _ _ dropped fire => perform_of_dropped dropped fire⟩

/-- A price, a note that follows it, and a total that is computed and cannot be written, though a
watcher tries to.  Another watcher shares the price. -/
def shelfBlock : StateBlock :=
  ((((((∅ : StateBlock).bind (.plain "price" .number)).bind (.plain "note" .string)).bind
    (.computedBy "total" .number "price * 2")).watch "price"
      (.stateUpdate "total" (.int 0))).watch "price"
        (.stateUpdate "note" (.string "@watch:newValue"))).watch "price"
          ((ActionSpec.ofKind "onChange" .share).withValue "text" (.string "@watch:newValue"))

/-- Of three writes two are accepted; the note holds another value and is among the updates.  With
nobody to share with, sharing alone leaves the store alone. -/
theorem shelf_logged :
    let d : Dispatcher := ⟨.none, 1, 0⟩
    let store := Store.ofBlock shelfBlock
    let spec := ActionSpec.stateUpdate "price" (.int 3)
    let share := (ActionSpec.ofKind "onTap" .share).withValue "text" (.string "hi")
    (d.recordDispatch spec (some store)).writes.map Prod.fst = ["price", "total", "note"] ∧
      (d.dispatch spec (some store)).updates = [("price", true), ("note", true)] ∧
      "note" ∈ (d.dispatch spec (some store)).updates.map Prod.fst ∧
      (d.write store "total" (.int 1)).store = some store ∧
      (d.attempt (.start (some store)) (.action share)).outcome.dropped ≠ [] ∧
      (d.perform (d.fire 1) share (.start (some store))).store = some store := by
  intro d store spec share
  obtain ⟨⟨acted, dispatched⟩, ⟨edited, written⟩, dropped⟩ :=
    writes_are_logged d spec (some store) store "total" (.int 1)
  have writes : (d.recordDispatch spec (some store)).writes.map Prod.fst =
      ["price", "total", "note"] := by decide +kernel
  have updates : (d.dispatch spec (some store)).updates = [("price", true), ("note", true)] := by
    decide +kernel
  have refused : (d.write store "total" (.int 1)).updates = [] := by decide +kernel
  have undone : (d.attempt (.start (some store)) (.action share)).outcome.dropped ≠ [] := by
    decide +kernel
  obtain ⟨last, held, note⟩ : ∃ last, (d.dispatch spec (some store)).store = some last ∧
      (last.get? "note").any (Value.strictEq (.string "3")) = true := by
    have after : ((d.dispatch spec (some store)).store.elim false fun s =>
        (s.get? "note").any (Value.strictEq (.string "3"))) = true := by decide +kernel
    cases held : (d.dispatch spec (some store)).store with
    | none =>
      rw [held] at after
      cases after
    | some last =>
      rw [held] at after
      exact ⟨last, rfl, after⟩
  have moved : last.get? "note" ≠ store.get? "note" := by
    intro same
    have before : (store.get? "note").any (Value.strictEq (.string "3")) = false := by
      decide +kernel
    rw [same, before] at note
    cases note
  have named := dispatched.named shelfBlock store last "note" (.plain "note" .string) rfl rfl rfl
    rfl (by rw [acted, held]) moved
  rw [acted] at named
  rw [← edited] at refused
  have kept := written.unchanged refused
  rw [edited] at kept
  exact ⟨writes, updates, named, kept, undone, (dropped _ share undone (d.fire 1)).1⟩

end Dispatcher

end ServerUi
