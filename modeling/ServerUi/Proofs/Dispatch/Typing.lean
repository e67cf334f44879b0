import ServerUi.Proofs.Dispatch.Steps
import ServerUi.Proofs.State.Shape

/-! # Stores keep their types

Values come into a store from defaults, edits, payloads, other keys, events of watchers, replies and
formulas.  Whatever comes, and however deep the cascade that brings it, a store has a value under
each key that its block binds and under no other, and the value has the shape that the binding
declares.  What the block declares stays as it is.

The only step of a dispatch that touches the store is a write, so whatever every write keeps is kept
by steps, by dispatches and by any number of uses, in this order (`Store.after_keeps`).  The
invariant `Store.Typed` is one such thing.
-/

namespace ServerUi

namespace Store

/-- A store of the block: it declares what the block declares, and its values are one for each
binding, of the shape of its kind. -/
structure Typed (block : StateBlock) (store : Store) : Prop where
  schema : store.schema = Schema.ofBlock block
  shaped : Shaped block.bindings store.values

theorem typed_ofBlock (block : StateBlock) : (ofBlock block).Typed block :=
  ⟨rfl, shaped_ofBlock block⟩

theorem Typed.write {block : StateBlock} {store : Store} (h : store.Typed block) (key : String)
    (v : Value) : (store.write key v).1.Typed block :=
  ⟨(schema_write store key v).trans h.schema, h.shaped.write h.schema key v⟩

end Store

def Trace.Typed (block : StateBlock) (t : Trace) : Prop :=
  ∃ store, t.store = some store ∧ store.Typed block

namespace Dispatcher

variable {d : Dispatcher} {block : StateBlock} {t t' : Trace}

/-- What every write keeps is kept by a step, for it leaves the store as it is, or writes to it. -/
theorem Step.keeps {P : Store → Prop} (kept : ∀ s key v, P s → P (s.write key v).1)
    (h : Step d t t') (ht : ∃ store, t.store = some store ∧ P store) :
    ∃ store, t'.store = some store ∧ P store := by
  cases h with
  | @update held_store key v held applied =>
    obtain ⟨store, held', has⟩ := ht
    -- what is written to is the store that the trace holds
    obtain rfl : held_store = store := Option.some.inj (held.symm.trans held')
    exact ⟨_, rfl, kept _ key v has⟩
  | drop unasked => exact ht
  | api request given stamp => exact ht
  | navigate given => exact ht
  | script given returned => exact ht
  | scriptFailed given failed => exact ht
  | share given => exact ht
  | ignore tag => exact ht

theorem Steps.keeps {P : Store → Prop} (kept : ∀ s key v, P s → P (s.write key v).1)
    (h : Steps d t t') (ht : ∃ store, t.store = some store ∧ P store) :
    ∃ store, t'.store = some store ∧ P store := by
  induction h with
  | refl => exact ht
  | tail _ step ih => exact step.keeps kept ih

theorem Steps.typed (h : Steps d t t') (ht : t.Typed block) : t'.Typed block :=
  h.keeps (fun _ key v typed => typed.write key v) ht

/-- A step needs a store to write to, so where there is none there will be none. -/
theorem Step.storeless (h : Step d t t') (none : t.store = none) : t'.store = .none := by
  cases h with
  | update held applied => cases held.symm.trans none
  | drop unasked => exact none
  | api request given stamp => exact none
  | navigate given => exact none
  | script given returned => exact none
  | scriptFailed given failed => exact none
  | share given => exact none
  | ignore tag => exact none

theorem Steps.storeless (h : Steps d t t') (none : t.store = none) : t'.store = .none := by
  induction h with
  | refl => exact none
  | tail _ step ih => exact step.storeless ih

/-- A store that belongs to a block that may be absent still belongs to it after any steps. -/
theorem Steps.belongs {block? : Option StateBlock} (h : Steps d t t')
    (belongs : Option.Rel Store.Typed block? t.store) :
    Option.Rel Store.Typed block? t'.store := by
  cases hs : t.store with
  | none =>
    rw [hs] at belongs
    rw [h.storeless hs]
    exact belongs
  | some store =>
    rw [hs] at belongs
    cases belongs with
    | some typed =>
      obtain ⟨next, held, typed⟩ := h.typed ⟨store, hs, typed⟩
      rw [held]
      exact .some typed

end Dispatcher

namespace Store

/-! ## Uses of a store -/

/-- What can be done to a store. -/
inductive Use where
  | set (key : String) (v : Value)
  /-- An action is performed, with all that it raises. -/
  | dispatch (d : Dispatcher) (spec : ActionSpec)
  /-- An edit or a reply is written, with all that it raises. -/
  | write (d : Dispatcher) (key : String) (v : Value)

def use (s : Store) : Use → Option Store
  | .set key v => some (s.write key v).1
  | .dispatch d spec => (d.dispatch spec (some s)).store
  | .write d key v => (d.write s key v).store

def after (s : Store) (uses : List Use) : Option Store := uses.foldlM use s

variable {block : StateBlock}

/-- What every write keeps is kept by every use. -/
theorem use_keeps {P : Store → Prop} (kept : ∀ s key v, P s → P (s.write key v).1) {s : Store}
    (h : P s) (u : Use) : ∃ next, s.use u = some next ∧ P next := by
  have start : ∃ store, (Trace.start (some s)).store = some store ∧ P store := ⟨s, rfl, h⟩
  cases u with
  | set key v => exact ⟨_, rfl, kept s key v h⟩
  | dispatch d spec => exact (Dispatcher.steps_dispatch spec (some s)).keeps kept start
  | write d key v => exact (Dispatcher.steps_write s key v).keeps kept start

theorem after_keeps {P : Store → Prop} (kept : ∀ s key v, P s → P (s.write key v).1) {s : Store}
    (h : P s) (uses : List Use) : ∃ last, s.after uses = some last ∧ P last := by
  induction uses generalizing s with
  | nil => exact ⟨s, rfl, h⟩
  | cons u rest ih =>
    obtain ⟨next, used, has⟩ := use_keeps kept h u
    obtain ⟨last, rest_used, last_has⟩ := ih has
    refine ⟨last, ?_, last_has⟩
    rw [after, List.foldlM_cons, used]
    exact rest_used

theorem Typed.after {store : Store} (h : store.Typed block) (uses : List Use) :
    ∃ last, store.after uses = some last ∧ last.Typed block :=
  after_keeps (fun _ key v typed => typed.write key v) h uses

/-- **Values keep their types.**  After any uses of the store of a state block, each with a
dispatcher of its own, there is a store.  It declares what the new store declared: the bindings and
the watchers of the block, the computed keys and the plan.  The keys that hold a value are those
that the block binds, and every value, plain or computed, has the shape of the kind of its
binding. -/
theorem typed_throughout (block : StateBlock) (uses : List Use) :
    ∃ store, (ofBlock block).after uses = some store ∧
      store.schema = (ofBlock block).schema ∧
      store.schema.bindings = block.bindings ∧ store.schema.watchers = block.watchers ∧
      store.values.keys = block.bindings.keys ∧
      ∀ key b, block.bindings.find? key = some b →
        ∃ v, store.get? key = some v ∧ b.kind.admits v = true := by
  obtain ⟨store, reached, schema, shaped⟩ := (typed_ofBlock block).after uses
  refine ⟨store, reached, schema, ?_, ?_, shaped.keys, shaped.bound⟩
  · rw [schema]
    rfl
  · rw [schema]
    rfl

/-- A number that is typed, twice the number, and a flag that follows the number. -/
def meterBlock : StateBlock :=
  ((((∅ : StateBlock).bind (.plain "reading" .number)).bind
    (.computedBy "twice" .string "reading * 2")).bind (.plain "on" .boolean)).watch "reading"
      (.stateUpdate "on" (.string "@watch:newValue"))

/-- A text typed for the number raises the watcher; the result of the formula is put under a text,
and the number that the watcher passes on under a flag. -/
theorem meter_stays_typed :
    let d : Dispatcher := ⟨.none, 1, 0⟩
    ∃ store, (ofBlock meterBlock).after [.set "on" (.string "TRUE"),
        .write d "reading" (.string " 21 ")] = some store ∧
      store.values.keys = ["on", "reading", "twice"] ∧
      (∃ v, store.get? "twice" = some v ∧ BindingKind.string.admits v = true) ∧
      (store.get? "twice").any (Value.strictEq (.string "42")) = true ∧
      (store.get? "on").any (Value.strictEq (.bool false)) = true := by
  intro d
  obtain ⟨store, reached, -, -, -, keys, typed⟩ := typed_throughout meterBlock
    [.set "on" (.string "TRUE"), .write d "reading" (.string " 21 ")]
  have twice := typed "twice" (.computedBy "twice" .string "reading * 2") rfl
  have values : (((ofBlock meterBlock).after [.set "on" (.string "TRUE"),
      .write d "reading" (.string " 21 ")]).map fun s =>
        ((s.get? "twice").any (Value.strictEq (.string "42")),
          (s.get? "on").any (Value.strictEq (.bool false)))) = some (true, true) := by
    decide +kernel
  rw [reached, Option.map_some, Option.some.injEq, Prod.mk.injEq] at values
  exact ⟨store, reached, keys, twice, values⟩

end Store

end ServerUi
