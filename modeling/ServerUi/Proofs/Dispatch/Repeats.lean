import ServerUi.Proofs.Dispatch.Typing
import ServerUi.Proofs.Value.Meaning

/-! # Writing twice

A store is settled if its plan has nothing left to do.  An accepted write leaves a settled store
that holds the coerced value, so the same write has nothing left to do either: it puts the value
where it is, and the formulas that failed fail again.  It is reported as a change only if the value
does not equal itself, that is, if there is a NaN in it.
-/

namespace ServerUi.Store

/-- Evaluating the plan once more changes nothing. -/
def Settled (s : Store) : Prop := recompute s.schema.plan s.values = s.values

/-- How the second of two equal writes ends, after the first has ended in some way and has left a
store. -/
inductive Repeats (left : Store) (key : String) : WriteOutcome → WriteOutcome → Prop
  | unknownKey : Repeats left key .unknownKey .unknownKey
  | computedKey : Repeats left key .computedKey .computedKey
  /-- The new value is there, and takes its own place. -/
  | applied {old new : Value} {events : List WatchEvent} (held : left.get? key = some new) :
    Repeats left key (.applied old new events) (.applied new new (left.eventsOf key new new))

/-- A second write that is accepted reports a change only if there is a NaN in the value. -/
theorem Repeats.silent {left : Store} {key : String} {first second : WriteOutcome}
    (h : Repeats left key first second)
    (numbers : ∀ v, left.get? key = some v → ∀ x ∈ v.floats, x.isNaN = false) :
    second.events = [] ∧ second.changed = false := by
  cases h with
  | unknownKey => exact ⟨rfl, rfl⟩
  | computedKey => exact ⟨rfl, rfl⟩
  | @applied _ new _ held =>
    have same : new.looseEq new = true := by
      rw [Value.looseEq_self, List.all_eq_true]
      intro x hx
      rw [numbers new held x hx]
      rfl
    constructor
    · show eventsOf left key new new = []
      rw [eventsOf, if_pos same]
    · show (!new.looseEq new) = false
      rw [same]
      rfl

variable {block : StateBlock} {s : Store}

/-- A settled store stays as it is when the value that a key holds is written to it. -/
theorem Settled.write {key : String} {b : Binding} {v : Value} (h : s.Settled)
    (hb : s.schema.bindings.find? key = some b) (plain : s.schema.isComputed key = false)
    (held : s.get? key = some (b.kind.coerce v)) :
    s.write key v =
      (s, .applied (b.kind.coerce v) (b.kind.coerce v)
        (s.eventsOf key (b.kind.coerce v) (b.kind.coerce v))) := by
  rcases write_cases s key v with ⟨unbound, -⟩ | ⟨computed, -⟩ | ⟨b', hb', -, e⟩
  · cases hb.symm.trans unbound
  · cases plain.symm.trans computed
  · obtain rfl : b = b' := Option.some.inj (hb.symm.trans hb')
    have there : s.values.find? key = some (b.kind.coerce v) := held
    rw [e, Table.insert_of_find? there, h, there, Option.getD_some]

/-- An accepted write leaves a settled store. -/
theorem settled_of_isApplied (hs : s.schema = Schema.ofBlock block) {key : String} {v : Value}
    (h : (s.write key v).2.isApplied = true) : (s.write key v).1.Settled := by
  rcases write_cases s key v with ⟨-, e⟩ | ⟨-, e⟩ | ⟨b, -, -, e⟩
  · simp [e, WriteOutcome.isApplied] at h
  · simp [e, WriteOutcome.isApplied] at h
  · rw [e, hs]
    exact recompute_recompute (Schema.plan_ordered block) _

/-- The second of two equal writes changes nothing and ends as the first. -/
theorem write_write (hs : s.schema = Schema.ofBlock block) (key : String) (v : Value) :
    ((s.write key v).1.write key v).1 = (s.write key v).1 ∧
      Repeats (s.write key v).1 key (s.write key v).2 ((s.write key v).1.write key v).2 := by
  cases hb : block.bindings.find? key with
  | none =>
    rw [write_unbound hs hb, write_unbound hs hb]
    exact ⟨rfl, .unknownKey⟩
  | some b =>
    cases computed : b.source? with
    | some source =>
      have computed : b.source?.isSome = true := by rw [computed]; rfl
      rw [write_computed hs hb computed, write_computed hs hb computed]
      exact ⟨rfl, .computedKey⟩
    | none =>
      obtain ⟨reported, held⟩ := write_plain hs hb computed v
      have settled : (s.write key v).1.Settled :=
        settled_of_isApplied hs (by rw [reported]; rfl)
      have schema : (s.write key v).1.schema = Schema.ofBlock block :=
        (schema_write s key v).trans hs
      have plain : (s.write key v).1.schema.isComputed key = false := by
        rw [schema]
        exact Schema.isComputed_of_plain hb computed
      rw [settled.write (by rw [schema]; exact hb) plain held, reported]
      exact ⟨rfl, .applied held⟩

/-- **Writing is idempotent.**  Take the store of any state block after any uses, and any key and
value.  Writing the value a second time leaves the store, plain and computed values alike, as the
first write left it, also where formulas fail or lead onto a cycle.  The second write is refused
for the reason for which the first was, or both are accepted; and if there is no NaN in the value
that the key then holds, the second raises no event and counts as no change. -/
theorem write_idempotent (block : StateBlock) (uses : List Use) (key : String) (v : Value) :
    ∃ before, (ofBlock block).after uses = some before ∧
      let first := before.write key v
      let second := first.1.write key v
      second.1 = first.1 ∧ Repeats first.1 key first.2 second.2 ∧
      ((∀ w, first.1.get? key = some w → ∀ x ∈ w.floats, x.isNaN = false) →
        second.2.events = [] ∧ second.2.changed = false) := by
  obtain ⟨before, reached, typed⟩ := (typed_ofBlock block).after uses
  obtain ⟨same, repeats⟩ := write_write typed.schema key v
  exact ⟨before, reached, same, repeats, repeats.silent⟩

/-- A dose and a total, the part that the dose is of the total, and a formula that reads that
part. -/
def doseBlock : StateBlock :=
  ((((((∅ : StateBlock).bind (.plain "dose" .number)).bind
    ((Binding.plain "total" .number).withDefault (.int 8))).bind
      (.computedBy "part" .number "dose / total")).bind
        (.computedBy "label" .string "part * 100")).watch "dose" (.ofKind "onChange" .share)).watch
          "total" (.stateUpdate "dose" (.float 2.5))

/-- With a total of zero there is no part, and it stays what it was; a dose typed once more moves
neither it nor what reads it, and is no change. -/
theorem dose_idempotent :
    let d : Dispatcher := ⟨.none, 1, 0⟩
    ∃ before, (ofBlock doseBlock).after [.set "dose" (.int 4), .write d "total" (.int 0)] =
        some before ∧
      let first := before.write "dose" (.string " 0.75 ")
      let second := first.1.write "dose" (.string " 0.75 ")
      (first.2.changed = true ∧ (first.1.get? "label").any (Value.strictEq (.string "50")) = true) ∧
      second.1 = first.1 ∧ second.2.events = [] ∧ second.2.changed = false := by
  intro d
  let uses : List Use := [.set "dose" (.int 4), .write d "total" (.int 0)]
  obtain ⟨before, reached, same, -, silent⟩ :=
    write_idempotent doseBlock uses "dose" (.string " 0.75 ")
  have values : (((ofBlock doseBlock).after uses).map fun before =>
      let first := before.write "dose" (.string " 0.75 ")
      (first.2.changed, (first.1.get? "label").any (Value.strictEq (.string "50")),
        (first.1.get? "dose").all fun v => v.floats.all fun x => !x.isNaN)) =
          some (true, true, true) := by
    decide +kernel
  rw [reached, Option.map_some, Option.some.injEq, Prod.mk.injEq, Prod.mk.injEq] at values
  obtain ⟨changed, label, numbers⟩ := values
  refine ⟨before, reached, ⟨changed, label⟩, same, silent fun w held x hx => ?_⟩
  rw [held, Option.all_some, List.all_eq_true] at numbers
  exact Bool.not_eq_true' _ |>.mp (numbers x hx)

/-- A NaN is a change each time it is written. -/
example :
    let first := (ofBlock doseBlock).write "dose" (.float (0 / 0))
    let second := first.1.write "dose" (.float (0 / 0))
    second.2.changed = true ∧ second.2.events.length = 1 := by
  decide +kernel

end ServerUi.Store
