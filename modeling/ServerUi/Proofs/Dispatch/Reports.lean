import ServerUi.Proofs.Dispatch.Typing

/-! # What a write reports

A write is refused, for a key without a binding or for a computed one, or it is accepted; which of
these is decided by the block alone.  A refused write changes nothing (`Refused`).  An accepted one
reports the value that was there and the value that is there now, moves no key but its own and
planned ones, and raises one event for each watcher of the key, if the two values differ
(`Accepted`).
-/

namespace ServerUi.Store

/-- A write that is refused for a reason leaves the store as it is and raises no event. -/
structure Refused (before after : Store) (outcome reason : WriteOutcome) : Prop where
  reported : outcome = reason
  unchanged : after = before
  silent : outcome.events = []

/-- A write to a key of a block that is accepted. -/
structure Accepted (s : StateBlock) (before after : Store) (outcome : WriteOutcome) (key : String)
    (old new : Value) (events : List WatchEvent) : Prop where
  reported : outcome = .applied old new events
  /-- The old value is the one that was stored before, and the new one is stored now. -/
  held : before.get? key = some old
  holds : after.get? key = some new
  schema : after.schema = before.schema
  elsewhere : ∀ k, after.get? k ≠ before.get? k → k = key ∨ Schema.Planned s k
  changed_iff : outcome.changed = true ↔ old.looseEq new = false
  /-- If the values differ, each watcher of the key gets an event, in the order of declaration. -/
  told : old.looseEq new = false →
    events = (s.watchers.filter (·.key == key)).map fun w => ⟨key, old, new, w.action⟩
  silent : old.looseEq new = true → events = []

variable {s : StateBlock} {store : Store}

theorem refused_of_write_eq {key : String} {v : Value} {reason : WriteOutcome}
    (same : store.write key v = (store, reason)) (silent : reason.events = []) :
    Refused store (store.write key v).1 (store.write key v).2 reason := by
  rw [same]
  exact ⟨rfl, rfl, silent⟩

theorem Typed.accepted (h : store.Typed s) {key : String} {b : Binding}
    (hb : s.bindings.find? key = some b) (plain : b.source? = none) (v : Value) :
    ∃ old events, Accepted s store (store.write key v).1 (store.write key v).2 key old
      (b.kind.coerce v) events := by
  obtain ⟨old, held, -⟩ := h.shaped.bound key b hb
  obtain ⟨reported, holds⟩ := write_plain h.schema hb plain v
  rw [held, Option.getD_some] at reported
  refine ⟨old, _, reported, held, holds, schema_write store key v, ?_, ?_, ?_, ?_⟩
  · intro k moved
    by_contra untouched
    rw [not_or] at untouched
    exact moved (get?_write_of_ne h.schema untouched.1 untouched.2 v)
  · rw [reported]
    simp [WriteOutcome.changed]
  · intro differ
    rw [eventsOf, differ, h.schema]
    rfl
  · intro same
    rw [eventsOf, same]
    rfl

/-- **A write reports what it did.**  Take the store of any state block after any uses, and any key
and value.  A key without a binding is unknown and a computed key is refused, and then the whole
store is as it was and no event is raised.  Else the write is accepted: it reports the value stored
before and the coerced value, only the key itself and planned keys may hold another value than
before, and exactly if the two values are not loosely equal the write counts as a change and raises
one event for each watcher of the key, in the order of declaration. -/
theorem write_reports (s : StateBlock) (uses : List Use) (key : String) (v : Value) :
    ∃ before, (ofBlock s).after uses = some before ∧
      let after := (before.write key v).1
      let outcome := (before.write key v).2
      (s.bindings.find? key = none → Refused before after outcome .unknownKey) ∧
      ∀ b, s.bindings.find? key = some b →
        (b.source?.isSome = true → Refused before after outcome .computedKey) ∧
        (b.source? = none →
          ∃ old events, Accepted s before after outcome key old (b.kind.coerce v) events) := by
  obtain ⟨before, reached, typed⟩ := (typed_ofBlock s).after uses
  refine ⟨before, reached, fun unbound => ?_, fun b hb => ⟨fun computed => ?_, fun plain => ?_⟩⟩
  · exact refused_of_write_eq (write_unbound typed.schema unbound v) rfl
  · exact refused_of_write_eq (write_computed typed.schema hb computed v) rfl
  · exact typed.accepted hb plain v

/-- A price, a count and their product.  Another price sets the count back, and the count is
watched twice. -/
def basketBlock : StateBlock :=
  ((((((∅ : StateBlock).bind (.plain "price" .number)).bind (.plain "count" .number)).bind
    (.computedBy "total" .number "price * count")).watch "count"
      ((ActionSpec.ofKind "onChange" .share).withValue "text" (.string "@watch:newValue"))).watch
        "price" (.stateUpdate "count" (.int 0))).watch "count"
          (.ofKind "onChange" (.unknown "BADGE"))

/-- A count that is typed reaches both its watchers, the first one first; the product and a key
that is not bound are not to be written. -/
theorem basket_reports :
    let d : Dispatcher := ⟨.none, 1, 0⟩
    ∃ before, (ofBlock basketBlock).after [.set "count" (.int 2), .write d "price" (.int 3)] =
        some before ∧
      (∃ old events, Accepted basketBlock before (before.write "count" (.string " 4 ")).1
          (before.write "count" (.string " 4 ")).2 "count" old (.int 4) events ∧
        events.map (·.action.kind) = [.share, .unknown "BADGE"]) ∧
      Refused before (before.write "total" (.int 1)).1 (before.write "total" (.int 1)).2
        .computedKey ∧
      Refused before (before.write "discount" (.int 1)).1 (before.write "discount" (.int 1)).2
        .unknownKey := by
  intro d
  let uses : List Use := [.set "count" (.int 2), .write d "price" (.int 3)]
  have coerced : (Binding.plain "count" .number).kind.coerce (.string " 4 ") = .int 4 := rfl
  obtain ⟨before, reached, -, typed⟩ := write_reports basketBlock uses "count" (.string " 4 ")
  obtain ⟨total, reached', -, refused⟩ := write_reports basketBlock uses "total" (.int 1)
  obtain ⟨discount, reached'', unknown, -⟩ := write_reports basketBlock uses "discount" (.int 1)
  obtain rfl : before = total := Option.some.inj (reached.symm.trans reached')
  obtain rfl : before = discount := Option.some.inj (reached.symm.trans reached'')
  have kinds : (((ofBlock basketBlock).after uses).map fun before =>
      (before.write "count" (.string " 4 ")).2.events.map (·.action.kind)) =
        some [.share, .unknown "BADGE"] := by decide +kernel
  rw [reached, Option.map_some, Option.some.injEq] at kinds
  obtain ⟨old, events, accepted⟩ := (typed (.plain "count" .number) rfl).2 rfl
  rw [coerced] at accepted
  rw [accepted.reported] at kinds
  refine ⟨before, reached, ⟨old, events, accepted, kinds⟩, ?_, unknown rfl⟩
  exact (refused (.computedBy "total" .number "price * count") rfl).1 rfl

end ServerUi.Store
