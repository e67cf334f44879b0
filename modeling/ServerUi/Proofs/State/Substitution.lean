import ServerUi.Proofs.State.References
import ServerUi.Proofs.Value.Positions

/-! # References are replaced in one pass

Values stand in the place of texts in two ways: what a store holds stands in the place of a
reference to the state, and a part of an event in the place of a reference to the event.  In both a
value is passed through once.  Lists keep their length and objects their keys, every text that a
value stands for gives way to that value as it is, and all else stays (`Replaced`).  So what is put
in is not looked at again, even if it reads as a reference itself, and there is only one value that
can come of it (`replaced_in_one_pass`).
-/

namespace ServerUi

namespace Value

/-- One value comes of another by putting other values in the place of texts: the texts that values
stand for give way to them, and nothing else changes. -/
structure Replaced (Stands : String → Value → Prop) (v w : Value) : Prop where
  /-- A list stays a list of as many items. -/
  list : ∀ {p items}, v.part? p = some (.array items) →
    ∃ items', w.part? p = some (.array items') ∧ items'.length = items.length
  /-- An object stays an object with the same keys. -/
  object : ∀ {p entries}, v.part? p = some (.object entries) →
    ∃ entries', w.part? p = some (.object entries') ∧ Entries.keys entries' = Entries.keys entries
  /-- In the place of a text stands, as it is, the value that stands for it. -/
  reference : ∀ {p text u}, v.part? p = some (.string text) → Stands text u → w.part? p = some u
  /-- Every other leaf stays. -/
  leaf : ∀ {p l}, v.part? p = some l → l.isLeaf = true →
    (∀ text, l = .string text → ∀ u, ¬ Stands text u) → w.part? p = some l

/-- A function puts values in the place of texts, one level at a time. -/
structure Replaces (Stands : String → Value → Prop) (f : Value → Value) : Prop where
  list : ∀ items, f (.array items) = .array (items.map f)
  object : ∀ entries, f (.object entries) = .object (Entries.mapValues f entries)
  reference : ∀ {text u}, Stands text u → f (.string text) = u
  leaf : ∀ {l : Value}, l.isLeaf = true → (∀ text, l = .string text → ∀ u, ¬ Stands text u) →
    f l = l

variable {Stands : String → Value → Prop} {f : Value → Value} {v w : Value}

/-! ## From one level to all -/

theorem map_snd_mapValues (f : Value → Value) (entries : Entries Value) :
    (Entries.mapValues f entries).map (·.2) = (entries.map (·.2)).map f := by
  induction entries with
  | nil => rfl
  | cons e rest ih => rw [Entries.mapValues, List.map_cons, ih, List.map_cons, List.map_cons]

theorem Replaces.parts (h : Replaces Stands f) (inner : v.isLeaf = false) :
    (f v).parts = v.parts.map f := by
  cases v with
  | array items =>
    rw [h.list]
    rfl
  | object entries =>
    rw [h.object]
    exact map_snd_mapValues f entries
  | _ => cases inner

theorem Replaces.part? (h : Replaces Stands f) {p : List Nat} {x : Value}
    (there : v.part? p = some x) : (f v).part? p = some (f x) := by
  induction p generalizing v with
  | nil =>
    cases there
    rfl
  | cons i rest ih =>
    obtain ⟨c, inside, there⟩ := part?_cons_eq_some.mp there
    have inner : v.isLeaf = false := by
      cases leaf : v.isLeaf with
      | false => rfl
      | true =>
        rw [parts_of_isLeaf leaf] at inside
        cases inside
    refine part?_cons_eq_some.mpr ⟨f c, ?_, ih there⟩
    rw [h.parts inner, List.getElem?_map, inside, Option.map_some]

theorem Replaces.replaced (h : Replaces Stands f) (v : Value) : v.Replaced Stands (f v) where
  list there := by
    refine ⟨_, ?_, List.length_map f⟩
    rw [h.part? there, h.list]
  object there := by
    refine ⟨_, ?_, Entries.keys_mapValues f _⟩
    rw [h.part? there, h.object]
  reference there stands := by rw [h.part? there, h.reference stands]
  leaf there leaf alone := by rw [h.part? there, h.leaf leaf alone]

/-- Behind a text that a value stands for come the parts of that value, references among them. -/
theorem Replaced.behind (h : v.Replaced Stands w) {p : List Nat} {text : String} {u : Value}
    (there : v.part? p = some (.string text)) (stands : Stands text u) (q : List Nat) :
    w.part? (p ++ q) = u.part? q := by
  rw [part?_append, h.reference there stands, Option.bind_some]

/-! ## Only one value comes of it -/

theorem Replaced.inside (h : v.Replaced Stands w) {i : Nat} {c d : Value}
    (hc : v.parts[i]? = some c) (hd : w.parts[i]? = some d) : c.Replaced Stands d := by
  have below (p : List Nat) : v.part? (i :: p) = c.part? p := part?_cons hc p
  have below' (p : List Nat) : w.part? (i :: p) = d.part? p := part?_cons hd p
  constructor
  · intro p items there
    rw [← below']
    exact h.list ((below p).trans there)
  · intro p entries there
    rw [← below']
    exact h.object ((below p).trans there)
  · intro p text u there stands
    rw [← below']
    exact h.reference ((below p).trans there) stands
  · intro p l there leaf alone
    rw [← below']
    exact h.leaf ((below p).trans there) leaf alone

theorem Replaced.parts_eq (h : v.Replaced Stands w) (length : w.parts.length = v.parts.length)
    (only : ∀ c ∈ v.parts, ∀ d, c.Replaced Stands d → d = f c) : w.parts = v.parts.map f := by
  apply List.ext_getElem
  · rw [length, List.length_map]
  · intro i hw hv
    rw [List.length_map] at hv
    have inside : v.parts[i].Replaced Stands w.parts[i] :=
      h.inside (List.getElem?_eq_getElem hv) (List.getElem?_eq_getElem hw)
    rw [List.getElem_map]
    exact only _ (List.getElem_mem hv) _ inside

/-- Entries are their keys and what stands under them. -/
theorem entries_ext {es fs : Entries Value} (keys : es.keys = fs.keys)
    (values : es.map (·.2) = fs.map (·.2)) : es = fs :=
  (List.zip_of_prod keys values).trans (List.zip_of_prod rfl rfl).symm

theorem Replaces.eq_of_leaf (h : Replaces Stands f) (leaf : v.isLeaf = true)
    (replaced : v.Replaced Stands w) : w = f v := by
  by_cases referred : ∃ text u, v = .string text ∧ Stands text u
  · obtain ⟨text, u, rfl, stands⟩ := referred
    rw [h.reference stands]
    exact Option.some.inj (replaced.reference (p := []) rfl stands)
  · have alone : ∀ text, v = .string text → ∀ u, ¬ Stands text u := by
      intro text same u stands
      exact referred ⟨text, u, same, stands⟩
    rw [h.leaf leaf alone]
    exact Option.some.inj (replaced.leaf (p := []) rfl leaf alone)

/-- By induction on the value: what stands at the top is given, and what stands inside comes of
what stood there. -/
theorem Replaces.eq_of_replaced (h : Replaces Stands f) (replaced : v.Replaced Stands w) :
    w = f v := by
  induction v using parts_induction generalizing w with
  | whole v ih =>
    cases v with
    | array items =>
      obtain ⟨items', same, length⟩ := replaced.list (p := []) rfl
      obtain rfl := Option.some.inj same
      rw [h.list]
      exact congrArg Value.array (replaced.parts_eq length fun c inside d => ih c inside)
    | object entries =>
      obtain ⟨entries', same, keys⟩ := replaced.object (p := []) rfl
      obtain rfl := Option.some.inj same
      have length : (entries'.map (·.2)).length = (entries.map (·.2)).length := by
        have lengths := congrArg List.length keys
        simpa only [Entries.keys, List.length_map] using lengths
      have values := replaced.parts_eq length fun c inside d => ih c inside
      rw [h.object]
      refine congrArg Value.object (entries_ext ?_ ?_)
      · rw [keys, Entries.keys_mapValues]
      · rw [map_snd_mapValues]
        exact values
    | _ => exact h.eq_of_leaf rfl replaced

theorem Replaces.replaced_iff (h : Replaces Stands f) : v.Replaced Stands w ↔ w = f v := by
  constructor
  · exact h.eq_of_replaced
  · rintro rfl
    exact h.replaced v

/-! ## References to the state -/

/-- The text refers to a key of the state, and the store holds the value under it.  Where there is
no store, no text does. -/
def Held (store : Option Store) (text : String) (u : Value) : Prop :=
  ∃ key s, text = "@state:" ++ key ∧ store = some s ∧ s.get? key = some u

theorem resolveItems_eq (store : Option Store) (items : List Value) :
    resolveItems store items = items.map (resolveDeep store) := by
  induction items with
  | nil => rfl
  | cons v rest ih => rw [resolveItems, ih, List.map_cons]

theorem resolveEntries_eq (store : Option Store) (entries : Entries Value) :
    resolveEntries store entries = Entries.mapValues (resolveDeep store) entries := by
  induction entries with
  | nil => rfl
  | cons e rest ih => rw [resolveEntries, ih, Entries.mapValues]

theorem resolve_reference {store : Option Store} {text : String} {u : Value}
    (held : Held store text u) : (Value.string text).resolve store = u := by
  obtain ⟨key, s, rfl, rfl, found⟩ := held
  have named : (Value.string ("@state:" ++ key)).stateKey? = some key := stateKey?_mark key
  rw [resolve, named]
  show (s.get? key).getD _ = u
  rw [found, Option.getD_some]

theorem resolve_other {store : Option Store} {text : String} (free : ∀ u, ¬ Held store text u) :
    (Value.string text).resolve store = .string text := by
  cases store with
  | none =>
    unfold resolve
    split <;> rfl
  | some s =>
    apply resolve_of_not_refers
    rintro ⟨key, named, found⟩
    obtain ⟨u, found⟩ := Option.isSome_iff_exists.mp found
    exact free u ⟨key, s, stateKey?_eq_some_iff.mp named, rfl, found⟩

theorem replaces_resolveDeep (store : Option Store) :
    Replaces (Held store) (resolveDeep store) where
  list items := by rw [resolveDeep, resolveItems_eq]
  object entries := by rw [resolveDeep, resolveEntries_eq]
  reference held := resolve_reference held
  leaf := by
    intro l leaf free
    cases l with
    | string text => exact resolve_other (free text rfl)
    | array items => cases leaf
    | object entries => cases leaf
    | _ => rfl

end Value

/-! ## References to an event -/

namespace WatchEvent

/-- The text refers to a part of the event, and this is it. -/
def Tells (e : WatchEvent) (text : String) (u : Value) : Prop :=
  (text, u) ∈
    [("@watch:key", .string e.key), ("@watch:oldValue", e.old), ("@watch:newValue", e.new)]

theorem bindItems_eq (e : WatchEvent) (items : List Value) :
    e.bindItems items = items.map e.bind := by
  induction items with
  | nil => rfl
  | cons v rest ih => rw [bindItems, ih, List.map_cons]

theorem bindEntries_eq (e : WatchEvent) (entries : Entries Value) :
    e.bindEntries entries = Entries.mapValues e.bind entries := by
  induction entries with
  | nil => rfl
  | cons entry rest ih => rw [bindEntries, ih, Entries.mapValues]

theorem bind_reference {e : WatchEvent} {text : String} {u : Value} (told : e.Tells text u) :
    e.bind (.string text) = u := by
  simp only [Tells, List.mem_cons, Prod.mk.injEq, List.not_mem_nil, or_false] at told
  rcases told with ⟨rfl, rfl⟩ | ⟨rfl, rfl⟩ | ⟨rfl, rfl⟩
  · rfl
  · rfl
  · rfl

theorem bind_other {e : WatchEvent} {text : String} (free : ∀ u, ¬ e.Tells text u) :
    e.bind (.string text) = .string text := by
  have unknown : text ∉ ["@watch:key", "@watch:oldValue", "@watch:newValue"] := by
    intro known
    simp only [List.mem_cons, List.not_mem_nil, or_false] at known
    rcases known with rfl | rfl | rfl
    · exact free (.string e.key) (by simp [Tells])
    · exact free e.old (by simp [Tells])
    · exact free e.new (by simp [Tells])
  rw [bind, lookup?_eq_none unknown, Option.getD_none]

theorem replaces_bind (e : WatchEvent) : Value.Replaces e.Tells e.bind where
  list items := by rw [bind, bindItems_eq]
  object entries := by rw [bind, bindEntries_eq]
  reference told := bind_reference told
  leaf := by
    intro l leaf free
    cases l with
    | string text => exact bind_other (free text rfl)
    | array items => cases leaf
    | object entries => cases leaf
    | _ => rfl

/-- The payload of the bound action is the payload of the action with the event put into it. -/
theorem ofTable_boundAction (e : WatchEvent) :
    Value.ofTable e.boundAction.payload = e.bind (Value.ofTable e.action.payload) :=
  ((replaces_bind e).object e.action.payload.entries).symm

theorem eq_boundAction_iff {e : WatchEvent} {a : ActionSpec} :
    a = e.boundAction ↔ a.trigger = e.action.trigger ∧ a.kind = e.action.kind ∧
      Value.ofTable a.payload = e.bind (Value.ofTable e.action.payload) := by
  constructor
  · rintro rfl
    exact ⟨rfl, rfl, e.ofTable_boundAction⟩
  · rintro ⟨trigger, kind, payload⟩
    rw [← ofTable_boundAction] at payload
    obtain ⟨trigger', kind', ⟨entries, ascending⟩⟩ := a
    obtain rfl : entries = e.boundAction.payload.entries := Value.object.inj payload
    cases trigger
    cases kind
    rfl

end WatchEvent

/-- **References are replaced in one pass.**  Put into a value, a store changes the texts that refer
to a key it holds, each to the value under that key as it is, and nothing else: lists keep their
length, objects their keys, and every other leaf stays where it is.  Put into the action of a
watcher, an event does the same with the texts that refer to one of its three parts, at any depth of
the payload, and the trigger and the kind of the action stay.  Neither leaves anything open: there
is just one value and one action of which all this is true. -/
theorem replaced_in_one_pass :
    (∀ (store : Option Store) (raw w : Value),
      raw.Replaced (Value.Held store) w ↔ w = raw.resolveDeep store) ∧
    (∀ (e : WatchEvent) (a : ActionSpec),
      (a.trigger = e.action.trigger ∧ a.kind = e.action.kind ∧
        (Value.ofTable e.action.payload).Replaced e.Tells (Value.ofTable a.payload)) ↔
      a = e.boundAction) := by
  constructor
  · intro store raw w
    exact (Value.replaces_resolveDeep store).replaced_iff
  · intro e a
    rw [e.replaces_bind.replaced_iff]
    exact WatchEvent.eq_boundAction_iff.symm

/-- A name, and a list of a text that reads as a reference to it. -/
def aliasBlock : StateBlock :=
  ((∅ : StateBlock).bind ((Binding.plain "name" .string).withDefault (.string "Ada"))).bind
    ((Binding.plain "aliases" .array).withDefault (.array [.string "@state:name"]))

/-- References to both, and to a key that is not bound. -/
def letter : Value :=
  .object [("from", .string "@state:aliases"),
    ("to", .array [.string "@state:name", .string "@state:nobody"])]

/-- A watcher that passes on the key and the new value, which reads as a reference to the key. -/
def renamed : WatchEvent where
  key := "name"
  old := .string "Ada"
  new := .string "@watch:key"
  action := ((ActionSpec.ofKind "onChange" .apiCall).withValue "body"
    (.array [.string "@watch:key", .string "@watch:newValue"])).withValue "note"
      (.string "@watch:unknown")

/-- What reads as a reference after the pass stays as it is. -/
theorem aliases_stay :
    let resolved := letter.resolveDeep (some (.ofBlock aliasBlock))
    let bound := Value.ofTable renamed.boundAction.payload
    resolved.part? [0, 0] = some (.string "@state:name") ∧
      resolved.part? [1, 0] = some (.string "Ada") ∧
      resolved.part? [1, 1] = some (.string "@state:nobody") ∧
      bound.part? [0, 0] = some (.string "name") ∧
      bound.part? [0, 1] = some (.string "@watch:key") ∧
      bound.part? [1] = some (.string "@watch:unknown") := by
  intro resolved bound
  have state : letter.Replaced (Value.Held (some (.ofBlock aliasBlock))) resolved :=
    (replaced_in_one_pass.1 (some (.ofBlock aliasBlock)) letter resolved).mpr rfl
  obtain ⟨-, -, event⟩ := (replaced_in_one_pass.2 renamed renamed.boundAction).mpr rfl
  have nobody : ∀ text, Value.string "@state:nobody" = .string text →
      ∀ u, ¬ Value.Held (some (.ofBlock aliasBlock)) text u := by
    rintro text ⟨⟩ u ⟨key, s, same, held, found⟩
    cases held
    have named := Value.stateKey?_eq_some_iff.mpr same
    obtain rfl : "nobody" = key := Option.some.inj named
    cases found
  have unknown : ∀ text, Value.string "@watch:unknown" = .string text →
      ∀ u, ¬ renamed.Tells text u := by
    rintro text ⟨⟩ u
    simp [WatchEvent.Tells]
  refine ⟨?_, ?_, ?_, ?_, ?_, ?_⟩
  · exact state.behind (p := [0]) rfl ⟨"aliases", _, by decide, rfl, rfl⟩ [0]
  · exact state.reference (p := [1, 0]) rfl ⟨"name", _, by decide, rfl, rfl⟩
  · exact state.leaf (p := [1, 1]) rfl rfl nobody
  · exact event.reference (p := [0, 0]) rfl (by simp [WatchEvent.Tells, renamed])
  · exact event.reference (p := [0, 1]) rfl (by simp [WatchEvent.Tells, renamed])
  · exact event.leaf (p := [1]) rfl rfl unknown

end ServerUi
