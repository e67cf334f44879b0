import ServerUi.Proofs.State.Writes

/-! # Every value has the shape of its binding

A store holds a value under each bound key and nothing under any other key.  The value has the
shape of the kind of its binding, because whatever is put into a store is coerced to that kind.
The new store is so, and each write keeps it so.
-/

namespace ServerUi

theorem BindingKind.coerce_of_admits {k : BindingKind} {v : Value} (h : k.admits v = true) :
    k.coerce v = v := by
  cases k <;> cases v <;> first | rfl | cases h

theorem BindingKind.isNull_of_admits {k : BindingKind} {v : Value} (h : k.admits v = true) :
    v.isNull = false := by
  cases v with
  | null => cases k <;> cases h
  | _ => rfl

namespace Store

/-- The values are one for each binding, of the shape of its kind. -/
structure Shaped (bindings : Table Binding) (values : Table Value) : Prop where
  bound : ∀ key b, bindings.find? key = some b →
    ∃ v, values.find? key = some v ∧ b.kind.admits v = true
  unbound : ∀ key, bindings.find? key = none → values.find? key = none

/-- The keys that hold a value are the keys that are bound. -/
theorem Shaped.keys {bindings : Table Binding} {values : Table Value}
    (h : Shaped bindings values) : values.keys = bindings.keys := by
  have same : values.map (fun _ => ()) = bindings.map fun _ => () := by
    apply Table.ext_find?
    intro key
    rw [Table.find?_map, Table.find?_map]
    cases hb : bindings.find? key with
    | none => rw [h.unbound key hb]; rfl
    | some b =>
      obtain ⟨v, hv, -⟩ := h.bound key b hb
      rw [hv]
      rfl
  rw [← Table.keys_map (fun _ => ()) values, same, Table.keys_map]

theorem shaped_initial (bindings : Table Binding) :
    Shaped bindings (bindings.map Binding.initial) := by
  constructor
  · intro key b hb
    refine ⟨b.initial, ?_, b.admits_initial⟩
    rw [Table.find?_map, hb]
    rfl
  · intro key hb
    rw [Table.find?_map, hb]
    rfl

theorem Shaped.insert {bindings : Table Binding} {values : Table Value}
    (h : Shaped bindings values) {key : String} {b : Binding}
    (hb : bindings.find? key = some b) (v : Value) :
    Shaped bindings (values.insert key (b.kind.coerce v)) := by
  constructor
  · intro k c hc
    by_cases hk : k = key
    · subst hk
      obtain rfl : b = c := Option.some.inj (hb.symm.trans hc)
      exact ⟨_, Table.find?_insert_self .., b.kind.admits_coerce v⟩
    · rw [Table.find?_insert_of_ne _ _ hk]
      exact h.bound k c hc
  · intro k hk
    have hne : k ≠ key := by
      rintro rfl
      rw [hb] at hk
      cases hk
    rw [Table.find?_insert_of_ne _ _ hne]
    exact h.unbound k hk

theorem Shaped.run {bindings : Table Binding} {values : Table Value}
    (h : Shaped bindings values) {c : Computation} {b : Binding}
    (hb : bindings.find? c.key = some b) (hkind : b.kind = c.kind) :
    Shaped bindings (c.run values) := by
  unfold Computation.run
  split
  · rw [← hkind]
    exact h.insert hb _
  · exact h

theorem Shaped.recompute {s : StateBlock} {values : Table Value}
    (h : Shaped s.bindings values) :
    Shaped s.bindings (recompute (Schema.ofBlock s).plan values) := by
  have declared : ∀ c ∈ (Schema.ofBlock s).plan,
      ∃ b, s.bindings.find? c.key = some b ∧ b.kind = c.kind := by
    intro c hc
    obtain ⟨b, hb, -, hkind, -⟩ := Schema.mem_plan_iff.mp hc
    exact ⟨b, hb, hkind⟩
  generalize (Schema.ofBlock s).plan = plan at declared
  induction plan generalizing values with
  | nil => exact h
  | cons c rest ih =>
    obtain ⟨b, hb, hkind⟩ := declared c List.mem_cons_self
    exact ih (h.run hb hkind) fun d hd => declared d (List.mem_cons_of_mem _ hd)

theorem shaped_ofBlock (s : StateBlock) : Shaped s.bindings (ofBlock s).values :=
  (shaped_initial s.bindings).recompute

theorem Shaped.write {s : StateBlock} {store : Store} (hs : store.schema = Schema.ofBlock s)
    (h : Shaped s.bindings store.values) (key : String) (v : Value) :
    Shaped s.bindings (store.write key v).1.values := by
  rcases write_cases store key v with ⟨-, e⟩ | ⟨-, e⟩ | ⟨b, hb, -, e⟩
  · rw [e]
    exact h
  · rw [e]
    exact h
  · rw [e, hs]
    rw [hs] at hb
    exact (h.insert hb v).recompute

theorem Shaped.writes {s : StateBlock} {store : Store} (hs : store.schema = Schema.ofBlock s)
    (h : Shaped s.bindings store.values) (history : List (String × Value)) :
    Shaped s.bindings (store.writes history).values := by
  induction history generalizing store with
  | nil => exact h
  | cons w rest ih => exact ih ((schema_write ..).trans hs) (h.write hs w.1 w.2)

end Store

end ServerUi
