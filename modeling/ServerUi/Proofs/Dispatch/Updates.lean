import ServerUi.Dispatch
import ServerUi.Proofs.State.References

/-! # Updates are writes

An action that updates a key comes to the store with its value resolved, and an edit of the user
comes there with its value as it is.  That is the only difference between the two, for every store
and every watcher graph (`dispatch_of_updates`).  So where nothing in the value refers to the state,
the action and the edit are one (`update_eq_edit`).
-/

namespace ServerUi

namespace ActionSpec

/-- The action asks for a key of the state to be set to a value, whatever else it carries. -/
structure Updates (a : ActionSpec) (target : String) (v : Value) : Prop where
  kind : a.kind = .stateUpdate
  key : a.payload.find? "key" = some (.string target)
  value : a.payload.find? "value" = some v

theorem updates_stateUpdate (key : String) (v : Value) : (stateUpdate key v).Updates key v where
  kind := rfl
  key := by
    show ((Table.insert _ "key" _).insert "value" v).find? "key" = _
    rw [Table.find?_insert_of_ne _ _ (by decide), Table.find?_insert_self]
  value := Table.find?_insert_self ..

variable {a : ActionSpec} {target : String} {v : Value}

theorem Updates.ofSpec (h : a.Updates target v) : Action.ofSpec a = .ok (.update target v) := by
  unfold Action.ofSpec Action.requiredText Action.optionalText
  rw [h.kind]
  dsimp only
  rw [h.key, h.value]
  rfl

/-- The parts of an event are put into the value, and into the key if it is a reference to one. -/
theorem Updates.boundAction {e : WatchEvent} (h : e.action.Updates target v)
    (named : e.lookup? target = none) : e.boundAction.Updates target (e.bind v) where
  kind := h.kind
  key := by
    show (e.action.payload.map e.bind).find? "key" = _
    rw [Table.find?_map, h.key, Option.map_some, WatchEvent.bind, named]
    rfl
  value := by
    show (e.action.payload.map e.bind).find? "value" = _
    rw [Table.find?_map, h.value, Option.map_some]

end ActionSpec

namespace Dispatcher

variable {d : Dispatcher} {spec : ActionSpec} {key : String} {v : Value} {s : Store} {t : Trace}

theorem perform_of_updates (fire : WatchEvent → Trace → Trace) (h : spec.Updates key v)
    (held : t.store = some s) :
    d.perform fire spec t = Dispatcher.store fire s key (v.resolveDeep (some s)) t := by
  simp only [perform, h.ofSpec, held]

/-- An update is the write of its value with the references in it replaced. -/
theorem dispatch_of_updates (h : spec.Updates key v) :
    d.dispatch spec (some s) = d.write s key (v.resolveDeep (some s)) :=
  perform_of_updates (d.fire d.maxDepth) h rfl

/-- **Updates are writes.**  Take any dispatcher, any store, whatever it binds and whoever watches,
and any key, bound or not, plain or computed.  If no text in a value, at any depth, is the mark of a
reference with a key behind it that the store holds, then the action that updates the key to the
value and the edit that writes the value there leave the same trace: the store, the effects, the
dropped actions and the calls, with the whole cascade. -/
theorem update_eq_edit (d : Dispatcher) (s : Store) (key : String) (v : Value)
    (literal : ∀ name, stateMark ++ name ∈ v.texts → s.get? name = none) :
    d.dispatch (.stateUpdate key v) (some s) = d.write s key v := by
  rw [dispatch_of_updates (ActionSpec.updates_stateUpdate key v), Value.resolveDeep_eq_self]
  rintro text mem ⟨name, named, held⟩
  obtain rfl := Value.stateKey?_eq_some_iff.mp named
  rw [literal name mem] at held
  cases held

/-- A list of entries, the number of entries that were made, and a text that names a key for the
list itself.  Whoever changes the list is told so, and the watcher of the number tries to change
it. -/
def ledgerBlock : StateBlock :=
  (((((((∅ : StateBlock).bind (.plain "entries" .array)).bind (.plain "made" .number)).bind
    (.computedBy "title" .string "made + ' made'")).watch "entries"
      ((ActionSpec.ofKind "onChange" .share).withValue "text" (.string "@watch:key"))).watch
        "entries" (.stateUpdate "made" (.int 1))).watch "made"
          (.stateUpdate "title" (.string "@watch:newValue")))

/-- A list with two texts that look like references, one to a key that is not there and one with a
blank before the key, comes to the list in the same way from an action and from an edit: it is told,
the number follows, and the title refuses to.  Sent to the title itself it is refused in both. -/
theorem ledger_update_eq_edit :
    let d : Dispatcher := ⟨⟨false, true, none, none⟩, 2, 0⟩
    let s := Store.ofBlock ledgerBlock
    let v : Value := .array [.string "@state:total", .object [("note", .string "@state: made")]]
    (∀ name, stateMark ++ name ∈ v.texts → s.get? name = none) ∧
      d.dispatch (.stateUpdate "entries" v) (some s) = d.write s "entries" v ∧
      (d.write s "entries" v).calls.length = 1 ∧
      (d.write s "entries" v).outcome.effects.length = 3 ∧
      d.dispatch (.stateUpdate "title" v) (some s) = d.write s "title" v ∧
      (d.write s "title" v).outcome.effects.length = 0 := by
  intro d s v
  have literal : ∀ name, stateMark ++ name ∈ v.texts → s.get? name = none := by
    intro name mem
    have texts : v.texts = ["@state:total", "@state: made"] := rfl
    have names (text rest : String) (mark : (Value.string text).stateKey? = some rest)
        (same : stateMark ++ name = text) : name = rest :=
      Option.some.inj ((Value.stateKey?_eq_some_iff.mpr same.symm).symm.trans mark)
    rw [texts] at mem
    rcases List.mem_cons.mp mem with first | second
    · rw [names _ "total" rfl first, ← Option.isNone_iff_eq_none]
      decide +kernel
    · rw [names _ " made" rfl (List.mem_singleton.mp second), ← Option.isNone_iff_eq_none]
      decide +kernel
  exact ⟨literal, update_eq_edit d s "entries" v literal, by decide +kernel, by decide +kernel,
    update_eq_edit d s "title" v literal, by decide +kernel⟩

end Dispatcher

end ServerUi
