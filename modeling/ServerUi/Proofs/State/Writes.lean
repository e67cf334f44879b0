import ServerUi.Proofs.Expr.Coincidence
import ServerUi.Proofs.State.Schema

/-! # Writes and recomputation

What one write does to a store, said once: it is refused, or it stores the coerced value and
evaluates the plan (`write_cases`).  Which of these is decided by the block of the store
(`write_unbound`, `write_computed`, `write_plain`).  Evaluating an ordered plan leaves every
planned key in agreement with the values at the end, not only with those at its turn
(`recompute_agrees`), so that evaluating it again changes nothing (`recompute_recompute`).
-/

namespace ServerUi

/-- The binding holds the coerced result of its formula on the values as they are `now`, or, if
the formula fails on them, what it held `before`. -/
def Computation.Agrees (c : Computation) (before now : Table Value) : Prop :=
  match c.formula.eval now with
  | .ok v => now.find? c.key = some (c.kind.coerce v)
  | .error _ => now.find? c.key = before.find? c.key

namespace Store

/-! ## Recomputation -/

theorem find?_run_of_ne (values : Table Value) {c : Computation} {key : String}
    (h : key ≠ c.key) : (c.run values).find? key = values.find? key := by
  unfold Computation.run
  split
  · exact Table.find?_insert_of_ne _ _ h
  · rfl

theorem find?_recompute_of_notMem {plan : List Computation} {key : String}
    (h : key ∉ plan.map Computation.key) (values : Table Value) :
    (recompute plan values).find? key = values.find? key := by
  induction plan generalizing values with
  | nil => rfl
  | cons c rest ih =>
    rw [List.map_cons, List.mem_cons, not_or] at h
    show (recompute rest (c.run values)).find? key = _
    rw [ih h.2, find?_run_of_ne values h.1]

/-- Where its own run leaves a binding in agreement, so do the runs of bindings it does not
name. -/
theorem run_agrees (values : Table Value) {c : Computation} (h : c.key ∉ c.formula.names) :
    c.Agrees values (c.run values) := by
  have same : c.formula.eval (c.run values) = c.formula.eval values :=
    Expr.eval_congr fun k hk => find?_run_of_ne values fun e => h (e ▸ hk)
  unfold Computation.Agrees
  rw [same]
  unfold Computation.run
  cases c.formula.eval values with
  | ok v => exact Table.find?_insert_self ..
  | error e => rfl

theorem agrees_congr {c : Computation} {before before' now now' : Table Value}
    (hb : before.find? c.key = before'.find? c.key) (hk : now.find? c.key = now'.find? c.key)
    (hn : ∀ k ∈ c.formula.names, now.find? k = now'.find? k) :
    c.Agrees before now ↔ c.Agrees before' now' := by
  unfold Computation.Agrees
  rw [Expr.eval_congr hn, hb, hk]

/-- **One pass suffices.** After the plan has run, every binding in it agrees with the values at
the end.  By induction on the plan: what follows a binding changes none of the names it reads. -/
theorem recompute_agrees {plan : List Computation} (ordered : Computation.Ordered plan)
    (values : Table Value) : ∀ c ∈ plan, c.Agrees values (recompute plan values) := by
  induction plan generalizing values with
  | nil => simp
  | cons c rest ih =>
    intro d hd
    show d.Agrees values (recompute rest (c.run values))
    rcases List.mem_cons.mp hd with rfl | hd
    · have untouched {k : String} (hk : k = d.key ∨ k ∈ d.formula.names) :
          (recompute rest (d.run values)).find? k = (d.run values).find? k :=
        find?_recompute_of_notMem (ordered.notMem_later hk) _
      refine (agrees_congr rfl (untouched (.inl rfl)) fun k hk => untouched (.inr hk)).mpr ?_
      exact run_agrees values (ordered.self d List.mem_cons_self)
    · have step := ih ordered.tail (c.run values) d hd
      have other : d.key ≠ c.key := fun same =>
        ordered.notMem_later (.inl same) (List.mem_map_of_mem hd)
      exact (agrees_congr (find?_run_of_ne values other) rfl fun _ _ => rfl).mp step

theorem run_of_agrees {c : Computation} {before now : Table Value} (h : c.Agrees before now) :
    c.run now = now := by
  unfold Computation.Agrees at h
  unfold Computation.run
  cases result : c.formula.eval now with
  | ok v =>
    rw [result] at h
    exact Table.insert_of_find? h
  | error e => rfl

theorem recompute_of_agrees {plan : List Computation} {before now : Table Value}
    (h : ∀ c ∈ plan, c.Agrees before now) : recompute plan now = now := by
  induction plan with
  | nil => rfl
  | cons c rest ih =>
    show recompute rest (c.run now) = now
    rw [run_of_agrees (h c List.mem_cons_self), ih fun d hd => h d (List.mem_cons_of_mem c hd)]

/-- A plan that has run has nothing left to do, whichever of its formulas fail. -/
theorem recompute_recompute {plan : List Computation} (ordered : Computation.Ordered plan)
    (values : Table Value) : recompute plan (recompute plan values) = recompute plan values :=
  recompute_of_agrees (recompute_agrees ordered values)

/-! ## One write -/

/-- A write is refused and changes nothing, or it puts the coerced value under the key and
evaluates the plan. -/
theorem write_cases (s : Store) (key : String) (v : Value) :
    (s.schema.bindings.find? key = none ∧ s.write key v = (s, .unknownKey)) ∨
    (s.schema.isComputed key = true ∧ s.write key v = (s, .computedKey)) ∨
    ∃ b, s.schema.bindings.find? key = some b ∧ s.schema.isComputed key = false ∧
      s.write key v =
        ({ s with
            values := recompute s.schema.plan (s.values.insert key (b.kind.coerce v)) },
          .applied ((s.values.find? key).getD .null) (b.kind.coerce v)
            (s.eventsOf key ((s.values.find? key).getD .null) (b.kind.coerce v))) := by
  unfold write
  cases hb : s.schema.bindings.find? key with
  | none => exact .inl ⟨rfl, rfl⟩
  | some b =>
    cases hc : s.schema.isComputed key with
    | true => exact .inr (.inl ⟨rfl, rfl⟩)
    | false => exact .inr (.inr ⟨b, rfl, rfl, rfl⟩)

theorem schema_write (s : Store) (key : String) (v : Value) :
    (s.write key v).1.schema = s.schema := by
  rcases write_cases s key v with ⟨-, h⟩ | ⟨-, h⟩ | ⟨b, -, -, h⟩ <;> rw [h]

theorem write_of_not_applied {s : Store} {key : String} {v : Value}
    (h : (s.write key v).2.isApplied = false) : (s.write key v).1 = s := by
  rcases write_cases s key v with ⟨-, e⟩ | ⟨-, e⟩ | ⟨b, -, -, e⟩
  · rw [e]
  · rw [e]
  · rw [e] at h
    simp [WriteOutcome.isApplied] at h

/-! ## One write to a store of a block -/

section

variable {block : StateBlock} {s : Store} (hs : s.schema = Schema.ofBlock block)

include hs

/-- A write changes no key but the one written and those that are planned. -/
theorem get?_write_of_ne {key k : String} (ne : k ≠ key) (unplanned : ¬ Schema.Planned block k)
    (v : Value) : (s.write key v).1.get? k = s.get? k := by
  rcases write_cases s key v with ⟨-, e⟩ | ⟨-, e⟩ | ⟨b, -, -, e⟩
  · rw [e]
  · rw [e]
  · rw [e, hs]
    show (recompute _ _).find? k = s.values.find? k
    rw [find?_recompute_of_notMem unplanned, Table.find?_insert_of_ne _ _ ne]

/-- A write to a plain key is accepted, and the key then holds the coerced value. -/
theorem write_plain {key : String} {b : Binding} (hb : block.bindings.find? key = some b)
    (plain : b.source? = none) (v : Value) :
    (s.write key v).2 = .applied ((s.values.find? key).getD .null) (b.kind.coerce v)
        (s.eventsOf key ((s.values.find? key).getD .null) (b.kind.coerce v)) ∧
      (s.write key v).1.get? key = some (b.kind.coerce v) := by
  rcases write_cases s key v with ⟨unbound, -⟩ | ⟨computed, -⟩ | ⟨b', hb', -, e⟩
  · rw [hs] at unbound
    cases hb.symm.trans unbound
  · rw [hs, Schema.isComputed_of_plain hb plain] at computed
    cases computed
  · rw [hs] at hb'
    obtain rfl : b = b' := Option.some.inj (hb.symm.trans hb')
    rw [e]
    refine ⟨rfl, ?_⟩
    show (recompute s.schema.plan _).find? key = _
    rw [hs, find?_recompute_of_notMem (Schema.unplanned_of_plain hb plain),
      Table.find?_insert_self]

/-- A write to a computed key is refused. -/
theorem write_computed {key : String} {b : Binding} (hb : block.bindings.find? key = some b)
    (computed : b.source?.isSome = true) (v : Value) : s.write key v = (s, .computedKey) := by
  rcases write_cases s key v with ⟨unbound, -⟩ | ⟨-, e⟩ | ⟨_, -, plain, -⟩
  · rw [hs] at unbound
    cases hb.symm.trans unbound
  · exact e
  · rw [hs, Schema.isComputed_iff.mpr ⟨b, hb, computed⟩] at plain
    cases plain

/-- A write to a key without a binding is refused. -/
theorem write_unbound {key : String} (unbound : block.bindings.find? key = none) (v : Value) :
    s.write key v = (s, .unknownKey) := by
  rcases write_cases s key v with ⟨-, e⟩ | ⟨computed, -⟩ | ⟨_, hb, -, -⟩
  · exact e
  · rw [hs] at computed
    obtain ⟨b, hb, -⟩ := Schema.isComputed_iff.mp computed
    cases hb.symm.trans unbound
  · rw [hs] at hb
    cases hb.symm.trans unbound

end

/-! ## Histories -/

/-- The store after a number of writes, whatever becomes of each. -/
def writes (s : Store) (history : List (String × Value)) : Store :=
  history.foldl (fun s w => (s.write w.1 w.2).1) s

theorem writes_append (s : Store) (ws ws' : List (String × Value)) :
    s.writes (ws ++ ws') = (s.writes ws).writes ws' :=
  List.foldl_append

theorem schema_writes (s : Store) (history : List (String × Value)) :
    (s.writes history).schema = s.schema := by
  induction history generalizing s with
  | nil => rfl
  | cons w rest ih =>
    show ((s.write w.1 w.2).1.writes rest).schema = _
    rw [ih, schema_write]

end Store

end ServerUi
