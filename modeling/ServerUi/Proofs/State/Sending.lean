import ServerUi.Proofs.Expr.Overflow
import ServerUi.Proofs.Node.RoundTrip
import ServerUi.Proofs.State.Coherence

/-! # Stores that can be sent

The values of a store have a text if every float in them is finite.  Reading yields finite floats
only, and coercion keeps them, also those of a number that was typed; so whatever is not finite
comes of a formula of the plan.  As long as none of those overflows, the values can be sent.
-/

namespace ServerUi

open ServerUi.Json (Document)

/-! ## Finite values -/

theorem Value.finite_of_whole {v : Value} (h : v.toDocument.Whole) : v.AllFinite :=
  (Value.encode_ok h.encode_eq).1

theorem Value.finite_of_decodeBytes {bytes : List UInt8} {v : Value}
    (decoded : Value.decodeBytes bytes = some v) : v.AllFinite := by
  obtain ⟨d, read, held⟩ := Option.bind_eq_some_iff.mp decoded
  exact (Value.settled_of_ofDocument (Document.held_readBytes read).sound held).1.finite

namespace BindingKind

theorem finite_typedNumber (s : String) : (typedNumber s).AllFinite := by
  unfold typedNumber
  dsimp only
  split
  · exact Value.allFinite_of_no_floats rfl
  · split
    · split
      · rename_i finite
        exact Value.allFinite_float finite
      · exact Value.allFinite_of_no_floats rfl
    · exact Value.allFinite_of_no_floats rfl

theorem finite_coerce (k : BindingKind) {v : Value} (h : v.AllFinite) : (k.coerce v).AllFinite := by
  cases k with
  | string => exact Value.allFinite_of_no_floats rfl
  | number =>
    cases v with
    | float x => exact h
    | string s => exact finite_typedNumber s
    | _ => exact Value.allFinite_of_no_floats rfl
  | boolean => cases v <;> exact Value.allFinite_of_no_floats rfl
  | object =>
    cases v with
    | object entries => exact h
    | _ => exact Value.allFinite_of_no_floats rfl
  | array =>
    cases v with
    | array items => exact h
    | _ => exact Value.allFinite_of_no_floats rfl

end BindingKind

theorem Binding.finite_initial {b : Binding} (default : ∀ v ∈ b.default, v.AllFinite) :
    b.initial.AllFinite := by
  unfold initial
  split
  · rename_i v held
    exact b.kind.finite_coerce (default v held)
  · cases b.kind <;> exact Value.allFinite_of_no_floats rfl

/-- The defaults of a block that was read are finite. -/
theorem StateBlock.finite_defaults {d : Document} (sound : ∀ l ∈ d.leaves, l.Sound)
    {block : StateBlock} (read : ofDocument d = some block) {key : String} {b : Binding}
    (hb : block.bindings.find? key = some b) : ∀ v ∈ b.default, v.AllFinite := by
  intro v hv
  have block_whole : block.toDocument.Whole := (StateBlock.faithful sound block read).1.whole
  have bindings_whole := Document.whole_object_iff.mp block_whole _ List.mem_cons_self
  have entry : (key, b.toDocument) ∈
      block.bindings.entries.map fun e => (e.1, e.2.toDocument) :=
    List.mem_map.mpr ⟨(key, b), Entries.mem_of_find? hb, rfl⟩
  have binding_whole := Document.whole_object_iff.mp bindings_whole _ entry
  have value_whole : v.toDocument.Whole := by
    refine Document.whole_object_iff.mp binding_whole ("defaultValue", v.toDocument) ?_
    simp [Option.mem_def.mp hv, Document.whenSome]
  exact Value.finite_of_whole value_whole

namespace Store

variable {block : StateBlock} {s : Store}

/-! ## Outside the plan -/

/-- Every key outside the plan holds finite floats. -/
def FiniteOutside (block : StateBlock) (s : Store) : Prop :=
  ∀ k v, ¬ Schema.Planned block k → s.get? k = some v → v.AllFinite

theorem finite_initial
    (defaults : ∀ k b, block.bindings.find? k = some b → ∀ v ∈ b.default, v.AllFinite)
    {k : String} {v : Value} (held : (block.bindings.map Binding.initial).find? k = some v) :
    v.AllFinite := by
  rw [Table.find?_map, Option.map_eq_some_iff] at held
  obtain ⟨b, hb, rfl⟩ := held
  exact Binding.finite_initial (defaults k b hb)

theorem finiteOutside_ofBlock
    (defaults : ∀ k b, block.bindings.find? k = some b → ∀ v ∈ b.default, v.AllFinite) :
    FiniteOutside block (ofBlock block) := by
  intro k v unplanned held
  refine finite_initial defaults (k := k) ?_
  rw [← find?_recompute_of_notMem unplanned]
  exact held

theorem FiniteOutside.write (hs : s.schema = Schema.ofBlock block) (h : FiniteOutside block s)
    (key : String) {v : Value} (hv : v.AllFinite) : FiniteOutside block (s.write key v).1 := by
  intro k w unplanned held
  by_cases same : k = key
  · subst same
    cases hb : block.bindings.find? k with
    | none =>
      rw [write_unbound hs hb] at held
      exact h k w unplanned held
    | some b =>
      cases source : b.source? with
      | none =>
        rw [(write_plain hs hb source v).2] at held
        cases held
        exact b.kind.finite_coerce hv
      | some text =>
        rw [write_computed hs hb (by rw [source]; rfl)] at held
        exact h k w unplanned held
  · rw [get?_write_of_ne hs same unplanned] at held
    exact h k w unplanned held

theorem FiniteOutside.writes (hs : s.schema = Schema.ofBlock block) (h : FiniteOutside block s)
    {history : List (String × Value)} (finite : ∀ w ∈ history, w.2.AllFinite) :
    FiniteOutside block (s.writes history) := by
  induction history generalizing s with
  | nil => exact h
  | cons w rest ih =>
    exact ih ((schema_write ..).trans hs) (h.write hs w.1 (finite w List.mem_cons_self))
      fun u hu => finite u (List.mem_cons_of_mem _ hu)

end Store

/-! ## Inside the plan -/

/-- Every key holds finite floats. -/
def Table.AllFinite (values : Table Value) : Prop := ∀ k v, values.find? k = some v → v.AllFinite

theorem Table.AllFinite.insert {values : Table Value} (h : values.AllFinite) (key : String)
    {v : Value} (hv : v.AllFinite) : (values.insert key v).AllFinite := by
  intro k w held
  by_cases same : k = key
  · rw [same, Table.find?_insert_self] at held
    cases held
    exact hv
  · rw [Table.find?_insert_of_ne _ _ same] at held
    exact h k w held

namespace Computation

/-- Has the formula a value, and does it come from an overflow? -/
def Overflows (c : Computation) (values : Table Value) : Prop :=
  (∃ v, c.formula.eval values = .ok v) ∧ c.formula.overflows values = true

theorem overflows_congr {c : Computation} {σ τ : Table Value}
    (same : ∀ k ∈ c.formula.names, σ.find? k = τ.find? k) : c.Overflows σ ↔ c.Overflows τ := by
  rw [Overflows, Overflows, Expr.eval_congr same, Expr.overflows_congr same]

theorem finite_run {c : Computation} {values : Table Value} (h : values.AllFinite)
    (within : ¬ c.Overflows values) : (c.run values).AllFinite := by
  unfold run
  split
  · rename_i v result
    have fits : c.formula.overflows values = false :=
      Bool.eq_false_iff.mpr fun spilled => within ⟨⟨v, result⟩, spilled⟩
    exact h.insert c.key (c.kind.finite_coerce (Expr.finite_eval h fits result))
  · exact h

end Computation

namespace Store

variable {block : StateBlock} {s : Store}

/-- By induction on the plan: its first formula reads what the values are at the end, so it is the
values at the end that decide whether it overflows. -/
theorem finite_recompute {plan : List Computation} (ordered : Computation.Ordered plan)
    {values : Table Value} (h : values.AllFinite)
    (within : ∀ c ∈ plan, ¬ c.Overflows (recompute plan values)) :
    (recompute plan values).AllFinite := by
  induction plan generalizing values with
  | nil => exact h
  | cons c rest ih =>
    have reads : ∀ n ∈ c.formula.names,
        (recompute (c :: rest) values).find? n = values.find? n :=
      fun n hn => find?_recompute_of_notMem (ordered.notMem_of_read hn) values
    have first : ¬ c.Overflows values :=
      mt (Computation.overflows_congr reads).mpr (within c List.mem_cons_self)
    exact ih ordered.tail (Computation.finite_run h first)
      fun d hd => within d (List.mem_cons_of_mem _ hd)

theorem finite_write (hs : s.schema = Schema.ofBlock block) (h : s.values.AllFinite) (key : String)
    {v : Value} (hv : v.AllFinite)
    (within : ∀ c ∈ (Schema.ofBlock block).plan, ¬ c.Overflows (s.write key v).1.values) :
    (s.write key v).1.values.AllFinite := by
  rcases write_cases s key v with ⟨-, e⟩ | ⟨-, e⟩ | ⟨b, -, -, e⟩
  · rw [e]
    exact h
  · rw [e]
    exact h
  · rw [e, hs] at within ⊢
    exact finite_recompute (Schema.plan_ordered block) (h.insert key (b.kind.finite_coerce hv))
      within

/-- By induction on the history, from its end: a write keeps finite values finite unless a formula
overflows on the values after it. -/
theorem finite_writes
    (defaults : ∀ k b, block.bindings.find? k = some b → ∀ v ∈ b.default, v.AllFinite)
    {history : List (String × Value)} (finite : ∀ w ∈ history, w.2.AllFinite)
    (within : ∀ earlier, earlier <+: history → ∀ c ∈ (Schema.ofBlock block).plan,
      ¬ c.Overflows ((ofBlock block).writes earlier).values) :
    ((ofBlock block).writes history).values.AllFinite := by
  induction history using List.reverseRecOn with
  | nil =>
    exact finite_recompute (Schema.plan_ordered block) (fun _ _ => finite_initial defaults)
      (within [] List.nil_prefix)
  | append_singleton history w ih =>
    rw [List.forall_mem_append] at finite
    have before := ih finite.1 fun earlier he => within earlier (he.trans (List.prefix_append _ _))
    have after := within (history ++ [w]) List.prefix_rfl
    rw [writes_append] at after ⊢
    exact finite_write (schema_writes ..) before w.1 (finite.2 w List.mem_cons_self) after

/-! ## Sending -/

/-- The values have no text just if a key holds a float that is not finite. -/
theorem encode_snapshot_error_iff (s : Store) :
    (∃ x, s.snapshot.encode = .error x) ↔ ∃ k v, s.get? k = some v ∧ ¬ v.AllFinite := by
  rw [Value.encode_error_iff]
  constructor
  · rintro ⟨x, hx, unfit⟩
    obtain ⟨e, he, hx⟩ := Value.mem_floatsUnder.mp hx
    refine ⟨e.1, e.2, (Table.find?_eq_some_iff _).mpr he, fun finite => ?_⟩
    rw [finite x hx] at unfit
    cases unfit
  · rintro ⟨k, v, held, unfit⟩
    simp only [Value.AllFinite, not_forall, Bool.not_eq_true] at unfit
    obtain ⟨x, hx, unfit⟩ := unfit
    have entry : (k, v) ∈ s.values.entries := (Table.find?_eq_some_iff _).mp held
    exact ⟨x, Value.mem_floatsUnder.mpr ⟨_, entry, hx⟩, unfit⟩

/-- **Sending the values of a store.**  Take a state block that was read, and any writes of values
that were read.  Every key outside the plan holds finite floats, so the values of the store have no
text just if a key of the plan holds a float that is not finite.  If none of its formulas has
overflowed after any of the writes, they have a text. -/
theorem sent_unless_overflow {bytes : List UInt8} {block : StateBlock}
    (decoded : (Document.readBytes bytes).bind StateBlock.ofDocument = some block)
    {history : List (String × Value)}
    (values : ∀ w ∈ history, ∃ bytes, Value.decodeBytes bytes = some w.2) :
    (∀ key v, ((ofBlock block).writes history).get? key = some v → ¬ Schema.Planned block key →
      v.AllFinite) ∧
    ((∃ x, ((ofBlock block).writes history).snapshot.encode = .error x) ↔
      ∃ key v, Schema.Planned block key ∧ ((ofBlock block).writes history).get? key = some v ∧
        ¬ v.AllFinite) ∧
    ((∀ earlier, earlier <+: history → ∀ c ∈ (Schema.ofBlock block).plan,
        ¬ c.Overflows ((ofBlock block).writes earlier).values) →
      ∃ text, ((ofBlock block).writes history).snapshot.encode = .ok text) := by
  obtain ⟨d, read, held⟩ := Option.bind_eq_some_iff.mp decoded
  have defaults : ∀ k b, block.bindings.find? k = some b → ∀ v ∈ b.default, v.AllFinite :=
    fun _ _ => StateBlock.finite_defaults (Document.held_readBytes read).sound held
  have finite : ∀ w ∈ history, w.2.AllFinite := by
    intro w hw
    obtain ⟨_, decoded⟩ := values w hw
    exact Value.finite_of_decodeBytes decoded
  have outside : FiniteOutside block ((ofBlock block).writes history) :=
    (finiteOutside_ofBlock defaults).writes rfl finite
  refine ⟨fun key v held unplanned => outside key v unplanned held, ?_, fun within => ?_⟩
  · rw [encode_snapshot_error_iff]
    constructor
    · rintro ⟨k, v, held, unfit⟩
      exact ⟨k, v, not_not.mp fun unplanned => unfit (outside k v unplanned held), held, unfit⟩
    · rintro ⟨k, v, -, held, unfit⟩
      exact ⟨k, v, held, unfit⟩
  · have all := finite_writes defaults finite within
    cases result : ((ofBlock block).writes history).snapshot.encode with
    | ok text => exact ⟨text, rfl⟩
    | error x =>
      obtain ⟨k, v, held, unfit⟩ := (encode_snapshot_error_iff _).mp ⟨x, result⟩
      exact absurd (all k v held) unfit

/-- A number to start from, and its tenfold. -/
def tenfoldDocument (start : Float) : Document :=
  .object [("bindings", .object [
    ("x", .object [("type", .string "number"), ("defaultValue", .real start)]),
    ("tenfold", .object [("type", .string "number"), ("computed", .bool true),
      ("expression", .string "x * 10")])])]

/-- The tenfold of `1e307` is still a float. -/
theorem tenfold_sent :
    ∃ block v text,
      (Document.readBytes (Text.bytesOf (tenfoldDocument 0.5).compact)).bind
        StateBlock.ofDocument = some block ∧
      Value.decodeBytes (Text.bytesOf (Document.real 1e307).compact) = some v ∧
      ((ofBlock block).writes [("x", v)]).snapshot.encode = .ok text := by
  have fits : ((Document.readBytes (Text.bytesOf (tenfoldDocument 0.5).compact)).bind
      StateBlock.ofDocument).any (fun block =>
        (Value.decodeBytes (Text.bytesOf (Document.real 1e307).compact)).any fun v =>
          (List.inits [("x", v)]).all fun earlier => (Schema.ofBlock block).plan.all fun c =>
            !c.formula.overflows ((ofBlock block).writes earlier).values) = true := by
    decide +kernel
  obtain ⟨block, decoded, fits⟩ := (Option.any_eq_true _ _).mp fits
  obtain ⟨v, value, fits⟩ := (Option.any_eq_true _ _).mp fits
  simp only [List.all_eq_true] at fits
  have values : ∀ w ∈ [("x", v)], ∃ bytes, Value.decodeBytes bytes = some w.2 :=
    List.forall_mem_singleton.mpr ⟨_, value⟩
  obtain ⟨text, sent⟩ := (sent_unless_overflow decoded values).2.2 fun earlier he c hc => by
    have fine := fits earlier ((List.mem_inits _ _).mpr he) c hc
    rintro ⟨-, spilled⟩
    rw [spilled] at fine
    cases fine
  exact ⟨block, v, text, decoded, value, sent⟩

/-- The tenfold of `1e308` is not, and is stored as an infinity. -/
theorem tenfold_overflows :
    ∃ block, (Document.readBytes (Text.bytesOf (tenfoldDocument 1e308).compact)).bind
        StateBlock.ofDocument = some block ∧
      ∃ x, (ofBlock block).snapshot.encode = .error x ∧ x.isInf = true := by
  have spilled : ((Document.readBytes (Text.bytesOf (tenfoldDocument 1e308).compact)).bind
      StateBlock.ofDocument).any (fun block =>
        match (ofBlock block).snapshot.encode with
        | .error x => x.isInf
        | .ok _ => false) = true := by
    decide +kernel
  obtain ⟨block, decoded, spilled⟩ := (Option.any_eq_true _ _).mp spilled
  refine ⟨block, decoded, ?_⟩
  split at spilled
  · rename_i x failed
    exact ⟨x, failed, spilled⟩
  · cases spilled

end Store

end ServerUi
