import ServerUi.Proofs.Dispatch.Updates
import ServerUi.Proofs.State.Writes

/-! # What a watcher copies

A watcher may copy the new value of its key to another key.  On its way the value is put into the
payload of the watcher's action, and the update then replaces the references to the state that it
finds there, also those in the value itself.  So the copy is the value with its own references
replaced (`copied_value`): it is the value as it was written only if no text in it names a key of
the state, and a text that was typed can ask for the value of another key
(`typed_reference_replaced`).
-/

namespace ServerUi

/-- The only watcher of one plain key sets another plain key, which has no watcher, to the new
value.  The two keys differ, since only one of them is watched. -/
structure StateBlock.Copies (s : StateBlock) (k t : String) (b c : Binding) : Prop where
  source : s.bindings.find? k = some b ∧ b.source? = none
  target : s.bindings.find? t = some c ∧ c.source? = none
  watched : ∃ w, s.watchers.filter (·.key == k) = [w] ∧ w.action.kind = .stateUpdate ∧
    w.action.payload.find? "key" = some (.string t) ∧
    w.action.payload.find? "value" = some (.string "@watch:newValue")
  unwatched : s.watchers.filter (·.key == t) = []
  /-- The name of the target is no reference to the event. -/
  named : t ∉ ["@watch:key", "@watch:oldValue", "@watch:newValue"]

namespace WatchEvent

/-- Bound to an event, the action of a watcher that copies sets the target to the new value. -/
theorem ofSpec_boundAction {e : WatchEvent} {t : String} (kind : e.action.kind = .stateUpdate)
    (key : e.action.payload.find? "key" = some (.string t))
    (value : e.action.payload.find? "value" = some (.string "@watch:newValue"))
    (named : t ∉ ["@watch:key", "@watch:oldValue", "@watch:newValue"]) :
    Action.ofSpec e.boundAction = .ok (.update t e.new) := by
  have updates : e.action.Updates t (.string "@watch:newValue") := ⟨kind, key, value⟩
  have bound : e.bind (.string "@watch:newValue") = e.new := rfl
  have ofSpec := (updates.boundAction (lookup?_eq_none named)).ofSpec
  rwa [bound] at ofSpec

end WatchEvent

namespace Store

variable {block : StateBlock} {store : Store}

theorem eventsOf_of_unwatched (hs : store.schema = Schema.ofBlock block) {key : String}
    (unwatched : block.watchers.filter (·.key == key) = []) (old new : Value) :
    store.eventsOf key old new = [] := by
  unfold eventsOf
  split
  · rfl
  · rw [hs]
    show List.map _ (List.filter _ block.watchers) = _
    rw [unwatched]
    rfl

theorem eventsOf_of_watched (hs : store.schema = Schema.ofBlock block) {key : String} {w : Watcher}
    (watched : block.watchers.filter (·.key == key) = [w]) {old new : Value}
    (differ : old.looseEq new = false) :
    store.eventsOf key old new = [⟨key, old, new, w.action⟩] := by
  unfold eventsOf
  rw [differ, if_neg Bool.false_ne_true, hs]
  show List.map _ (List.filter _ block.watchers) = _
  rw [watched]
  rfl

end Store

namespace Dispatcher

variable {block : StateBlock} {store : Store} {k t : String} {b c : Binding}

theorem store_of_applied (fire : WatchEvent → Trace → Trace) {s : Store} {key : String}
    {v : Value} (applied : (s.write key v).2.isApplied = true) (trace : Trace) :
    Dispatcher.store fire s key v trace =
      (s.write key v).2.events.foldl (fun trace e => fire e trace)
        ({ trace with store := some (s.write key v).1 }.effect
          (.stateUpdate key (s.write key v).2.changed)) := by
  simp only [Dispatcher.store]
  rw [if_pos applied]

/-- A write to a plain key that nobody watches hands nothing on. -/
theorem store_of_unwatched (fire : WatchEvent → Trace → Trace)
    (hs : store.schema = Schema.ofBlock block) (hb : block.bindings.find? k = some b)
    (plain : b.source? = none) (unwatched : block.watchers.filter (·.key == k) = []) (v : Value)
    (trace : Trace) :
    Dispatcher.store fire store k v trace =
      { trace with store := some (store.write k v).1 }.effect
        (.stateUpdate k (store.write k v).2.changed) := by
  obtain ⟨result, -⟩ := Store.write_plain hs hb plain v
  have applied : (store.write k v).2.isApplied = true := by rw [result]; rfl
  have events : (store.write k v).2.events = [] := by
    rw [result]
    exact Store.eventsOf_of_unwatched hs unwatched _ _
  rw [store_of_applied fire applied, events, List.foldl_nil]

/-- A write that changes a plain key with one watcher hands one event on. -/
theorem store_of_watched (fire : WatchEvent → Trace → Trace)
    (hs : store.schema = Schema.ofBlock block) (hb : block.bindings.find? k = some b)
    (plain : b.source? = none) {w : Watcher}
    (watched : block.watchers.filter (·.key == k) = [w]) {v : Value}
    (changed : (store.write k v).2.changed = true) (trace : Trace) :
    Dispatcher.store fire store k v trace =
      fire ⟨k, (store.values.find? k).getD .null, b.kind.coerce v, w.action⟩
        ({ trace with store := some (store.write k v).1 }.effect (.stateUpdate k true)) := by
  obtain ⟨result, -⟩ := Store.write_plain hs hb plain v
  have applied : (store.write k v).2.isApplied = true := by rw [result]; rfl
  have events : (store.write k v).2.events =
      [⟨k, (store.values.find? k).getD .null, b.kind.coerce v, w.action⟩] := by
    rw [result] at changed ⊢
    exact Store.eventsOf_of_watched hs watched (by simpa [WriteOutcome.changed] using changed)
  rw [store_of_applied fire applied, events, List.foldl_cons, List.foldl_nil, changed]

theorem write_of_unwatched (d : Dispatcher) (hs : store.schema = Schema.ofBlock block)
    (hb : block.bindings.find? k = some b) (plain : b.source? = none)
    (unwatched : block.watchers.filter (·.key == k) = []) (v : Value) :
    d.write store k v = ⟨some (store.write k v).1,
      ⟨[.stateUpdate k (store.write k v).2.changed], []⟩, []⟩ :=
  store_of_unwatched _ hs hb plain unwatched v _

/-- A write to the watched key is followed by an update of the target to the new value, with the
references in that value replaced, and by nothing else. -/
theorem write_of_copies (d : Dispatcher) (deep : 1 ≤ d.maxDepth)
    (hs : store.schema = Schema.ofBlock block) (copies : block.Copies k t b c) (v : Value)
    (changed : (store.write k v).2.changed = true) :
    let first := (store.write k v).1
    let second := first.write t ((b.kind.coerce v).resolveDeep (some first))
    d.write store k v = ⟨some second.1,
      ⟨[.stateUpdate k true, .stateUpdate t second.2.changed], []⟩, []⟩ := by
  intro first second
  obtain ⟨w, watchers, kind, key, value⟩ := copies.watched
  have hs' : first.schema = Schema.ofBlock block := (Store.schema_write store k v).trans hs
  obtain ⟨n, depth⟩ : ∃ n, d.maxDepth = n + 1 := ⟨d.maxDepth - 1, by omega⟩
  -- the write raises one event, whose action is bound and performed one level down
  rw [write, store_of_watched _ hs copies.source.1 copies.source.2 watchers changed, depth, fire,
    perform, WatchEvent.ofSpec_boundAction kind key value copies.named]
  -- here the bound payload is resolved against the state, and the value in it with it
  show Dispatcher.store (d.fire n) first t ((b.kind.coerce v).resolveDeep (some first)) _ = _
  rw [store_of_unwatched _ hs' copies.target.1 copies.target.2 copies.unwatched]
  rfl

/-- **What is copied.** Let the only watcher of a plain key copy its new value to another plain
key, and let cascades of one level be allowed.  A write that changes the first key, of whatever
value, leaves under the second one the new value with the references in it replaced.  If no text in
the new value names a key of the state, that is the new value as it is. -/
theorem copied_value (d : Dispatcher) (deep : 1 ≤ d.maxDepth)
    (hs : store.schema = Schema.ofBlock block) (copies : block.Copies k t b c) (v : Value)
    (changed : (store.write k v).2.changed = true) :
    ∃ after, (d.write store k v).store = some after ∧
      after.get? t = some (c.kind.coerce
        ((b.kind.coerce v).resolveDeep (some (store.write k v).1))) ∧
      ((∀ text ∈ (b.kind.coerce v).texts, ¬ Value.Refers (store.write k v).1 text) →
        after.get? t = some (c.kind.coerce (b.kind.coerce v))) := by
  have hs' : (store.write k v).1.schema = Schema.ofBlock block :=
    (Store.schema_write store k v).trans hs
  obtain ⟨-, copied⟩ := Store.write_plain hs' copies.target.1 copies.target.2
    ((b.kind.coerce v).resolveDeep (some (store.write k v).1))
  rw [write_of_copies d deep hs copies v changed]
  refine ⟨_, rfl, copied, ?_⟩
  intro literal
  rw [copied, Value.resolveDeep_eq_self literal]

/-- Two texts, of which the second is a copy of the first, and a third that nobody is to see. -/
def mirrorBlock : StateBlock :=
  ((((∅ : StateBlock).bind (.plain "a" .string)).bind (.plain "b" .string)).bind
    ((Binding.plain "secret" .string).withDefault (.string "hidden"))).watch "a"
      (.stateUpdate "b" (.string "@watch:newValue"))

theorem mirrorBlock_copies :
    mirrorBlock.Copies "a" "b" (.plain "a" .string) (.plain "b" .string) where
  source := ⟨by cbv, rfl⟩
  target := ⟨by cbv, rfl⟩
  watched := ⟨⟨"a", .stateUpdate "b" (.string "@watch:newValue")⟩, by cbv, rfl, by cbv, by cbv⟩
  unwatched := by cbv
  named := by decide

theorem plain_text_copied :
    let d : Dispatcher := ⟨.none, 1, 0⟩
    let store := Store.ofBlock mirrorBlock
    (store.write "a" (.string "hello")).2.changed = true ∧
      ∃ after, (d.write store "a" (.string "hello")).store = some after ∧
        after.get? "b" = some (.string "hello") := by
  have changed :
      ((Store.ofBlock mirrorBlock).write "a" (.string "hello")).2.changed = true := rfl
  obtain ⟨after, held, -, literal⟩ :=
    copied_value ⟨.none, 1, 0⟩ Nat.one_pos (rfl : (Store.ofBlock mirrorBlock).schema = _)
      mirrorBlock_copies (.string "hello") changed
  refine ⟨changed, after, held, literal ?_⟩
  intro text mem
  obtain rfl : text = "hello" := List.mem_singleton.mp mem
  rintro ⟨key, named, -⟩
  cases named

/-- The copy of a text that reads as a reference is not that text: it is what the reference stands
for. -/
theorem typed_reference_replaced :
    let d : Dispatcher := ⟨.none, 1, 0⟩
    let store := Store.ofBlock mirrorBlock
    mirrorBlock.Copies "a" "b" (.plain "a" .string) (.plain "b" .string) ∧
      (store.write "a" (.string "@state:secret")).2.changed = true ∧
      (d.write store "a" (.string "@state:secret")).store.bind (·.get? "b") =
        some (.string "hidden") ∧
      BindingKind.string.coerce (BindingKind.string.coerce (.string "@state:secret")) ≠
        .string "hidden" := by
  refine ⟨mirrorBlock_copies, rfl, rfl, ?_⟩
  intro same
  exact absurd (Value.string.inj same) (by decide)

end Dispatcher

end ServerUi
