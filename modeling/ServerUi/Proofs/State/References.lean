import ServerUi.State.Reference

/-! # References and what they stand for

A text is a reference to the state if it is the mark with a key behind it, and then it stands for
the value of that key.  A value in which no text refers to a key that the store holds stands for
itself (`resolveDeep_eq_self`), and a text that is none of the three references to an event is not
replaced by a part of it (`lookup?_eq_none`).
-/

namespace ServerUi

theorem append_of_behind? {start cs rest : List Char} (h : behind? start cs = some rest) :
    cs = start ++ rest := by
  induction start generalizing cs with
  | nil => exact Option.some.inj h
  | cons p start ih =>
    cases cs with
    | nil => cases h
    | cons c cs =>
      rw [behind?] at h
      split at h
      · rename_i same
        rw [same, ih h, List.cons_append]
      · cases h

theorem behind?_append (start rest : List Char) : behind? start (start ++ rest) = some rest := by
  induction start with
  | nil => rfl
  | cons p start ih => rw [List.cons_append, behind?, if_pos rfl, ih]

namespace Value

/-- Behind the start of a reference stands the key that it names. -/
theorem stateKey?_mark (key : String) : (Value.string (stateMark ++ key)).stateKey? = some key := by
  rw [stateKey?, String.toList_append, behind?_append, Option.map_some, String.ofList_toList]

mutual
/-- Every text in a value, at any depth. -/
def texts : Value → List String
  | .string s => [s]
  | .array items => textsAmong items
  | .object entries => textsUnder entries
  | _ => []
def textsAmong : List Value → List String
  | [] => []
  | v :: rest => texts v ++ textsAmong rest
def textsUnder : List (String × Value) → List String
  | [] => []
  | (_, v) :: rest => texts v ++ textsUnder rest
end

/-- A reference is the mark with the name of a key behind it. -/
theorem stateKey?_eq_some_iff {text key : String} :
    (Value.string text).stateKey? = some key ↔ text = stateMark ++ key := by
  constructor
  · intro named
    obtain ⟨rest, behind, rfl⟩ := Option.map_eq_some_iff.mp named
    apply String.toList_injective
    rw [append_of_behind? behind, String.toList_append, String.toList_ofList]
  · rintro rfl
    exact stateKey?_mark key

/-- Does the text name a key that the store holds? -/
def Refers (store : Store) (text : String) : Prop :=
  ∃ key, (Value.string text).stateKey? = some key ∧ (store.get? key).isSome = true

variable {store : Store}

theorem resolve_of_not_refers {text : String} (h : ¬ Refers store text) :
    (Value.string text).resolve (some store) = .string text := by
  unfold resolve
  split
  · rfl
  · rename_i key named
    have absent : store.get? key = none := by
      rw [← Option.not_isSome_iff_eq_none]
      exact fun held => h ⟨key, named, held⟩
    show (store.get? key).getD _ = _
    rw [absent]
    rfl

mutual
theorem resolveDeep_eq_self : ∀ {v : Value}, (∀ text ∈ v.texts, ¬ Refers store text) →
    v.resolveDeep (some store) = v
  | .null, _ => rfl
  | .bool _, _ => rfl
  | .int _, _ => rfl
  | .float _, _ => rfl
  | .string s, h => resolve_of_not_refers (h s (List.mem_singleton_self s))
  | .array items, h => congrArg Value.array (@resolveItems_eq_self items h)
  | .object entries, h => congrArg Value.object (@resolveEntries_eq_self entries h)
theorem resolveItems_eq_self : ∀ {items : List Value},
    (∀ text ∈ textsAmong items, ¬ Refers store text) → resolveItems (some store) items = items
  | [], _ => rfl
  | v :: rest, h => by
    rw [resolveItems, resolveDeep_eq_self fun x hx => h x (List.mem_append_left _ hx),
      resolveItems_eq_self fun x hx => h x (List.mem_append_right _ hx)]
theorem resolveEntries_eq_self : ∀ {entries : List (String × Value)},
    (∀ text ∈ textsUnder entries, ¬ Refers store text) →
      resolveEntries (some store) entries = entries
  | [], _ => rfl
  | (k, v) :: rest, h => by
    rw [resolveEntries, resolveDeep_eq_self fun x hx => h x (List.mem_append_left _ hx),
      resolveEntries_eq_self fun x hx => h x (List.mem_append_right _ hx)]
end

end Value

namespace WatchEvent

theorem lookup?_eq_none {e : WatchEvent} {t : String}
    (h : t ∉ ["@watch:key", "@watch:oldValue", "@watch:newValue"]) : e.lookup? t = none := by
  have part : ∀ name, (behind? watchMark.toList t.toList).map String.ofList = some name →
      t = watchMark ++ name := by
    intro name hname
    obtain ⟨rest, hrest, rfl⟩ := Option.map_eq_some_iff.mp hname
    apply String.toList_injective
    rw [append_of_behind? hrest, String.toList_append, String.toList_ofList]
  unfold lookup?
  split
  · rename_i hname
    exact absurd (part _ hname ▸ by decide) h
  · rename_i hname
    exact absurd (part _ hname ▸ by decide) h
  · rename_i hname
    exact absurd (part _ hname ▸ by decide) h
  · rfl

/-- A reference to the state is none to an event. -/
theorem bind_stateMark (e : WatchEvent) (key : String) :
    e.bind (.string (stateMark ++ key)) = .string (stateMark ++ key) := by
  have behind : behind? watchMark.toList (stateMark ++ key).toList = none := by
    rw [String.toList_append]
    rfl
  rw [bind, lookup?, behind]
  rfl

end WatchEvent

end ServerUi
