import ServerUi.Proofs.State.Coherence
import ServerUi.Proofs.State.Shape

/-! # What is left of a history

A formula that fails leaves the value of an earlier time in place, so what a store holds may depend
on the order of the writes and on what failed between them.  Once every planned formula succeeds,
none of that is left: the store holds what a new one would, given the same plain values.

Both stores are fixed points of the plan.  Two fixed points that agree outside the plan agree on
it as well, one key after the other in the order of the plan, since a formula reads earlier keys
only (`find?_eq_of_agrees`).
-/

namespace ServerUi

/-- The binding with another default, if it is a plain one. -/
def Binding.startingFrom (b : Binding) (default : Option Value) : Binding :=
  if b.source?.isSome then b else { b with default := default }

/-- The block whose plain bindings start with the values that they have now. -/
def StateBlock.startingFrom (s : StateBlock) (values : Table Value) : StateBlock :=
  { s with bindings := s.bindings.mapKeyed fun key b => b.startingFrom (values.find? key) }

namespace Binding

@[simp] theorem source?_startingFrom (b : Binding) (default : Option Value) :
    (b.startingFrom default).source? = b.source? := by
  unfold startingFrom
  split <;> rfl

@[simp] theorem kind_startingFrom (b : Binding) (default : Option Value) :
    (b.startingFrom default).kind = b.kind := by
  unfold startingFrom
  split <;> rfl

theorem initial_startingFrom_of_computed {b : Binding} (h : b.source?.isSome = true)
    (default : Option Value) : (b.startingFrom default).initial = b.initial := by
  rw [startingFrom, if_pos h]

theorem initial_startingFrom_of_plain {b : Binding} (h : b.source? = none) {v : Value}
    (hv : b.kind.admits v = true) : (b.startingFrom (some v)).initial = v := by
  rw [startingFrom, h]
  exact BindingKind.coerce_of_admits hv

end Binding

namespace Store

/-! ## Fixed points of a plan -/

theorem find?_eq_of_agrees {plan : List Computation} (ordered : Computation.Ordered plan)
    {before now before' now' : Table Value}
    (agrees : ∀ c ∈ plan, c.Agrees before now) (agrees' : ∀ c ∈ plan, c.Agrees before' now')
    (succeeds : ∀ c ∈ plan, ∃ v, c.formula.eval now = .ok v)
    (outside : ∀ k, k ∉ plan.map Computation.key → now.find? k = now'.find? k) (k : String) :
    now.find? k = now'.find? k := by
  induction plan with
  | nil => exact outside k List.not_mem_nil
  | cons c rest ih =>
    -- the first formula of the plan reads no planned key, so it gives the same in both
    have reads : ∀ n ∈ c.formula.names, now.find? n = now'.find? n :=
      fun n hn => outside n (ordered.notMem_of_read hn)
    have first : now.find? c.key = now'.find? c.key := by
      obtain ⟨v, hv⟩ := succeeds c List.mem_cons_self
      have held := agrees c List.mem_cons_self
      have held' := agrees' c List.mem_cons_self
      unfold Computation.Agrees at held held'
      rw [hv] at held
      rw [← Expr.eval_congr reads, hv] at held'
      exact held.trans held'.symm
    refine ih ordered.tail (fun d hd => agrees d (List.mem_cons_of_mem _ hd))
      (fun d hd => agrees' d (List.mem_cons_of_mem _ hd))
      (fun d hd => succeeds d (List.mem_cons_of_mem _ hd)) ?_
    intro n hn
    by_cases hc : n = c.key
    · rw [hc]
      exact first
    · apply outside
      rw [List.map_cons, List.mem_cons, not_or]
      exact ⟨hc, hn⟩

theorem Coherent.agrees {s : StateBlock} {before now : Table Value} (h : Coherent s before now) :
    ∀ c ∈ (Schema.ofBlock s).plan, c.Agrees before now := by
  rintro ⟨key, kind, formula⟩ hc
  obtain ⟨b, hb, he, rfl, hno⟩ := Schema.mem_plan_iff.mp hc
  exact h key b formula hb he (Schema.planned_iff.mpr ⟨b, formula, hb, he, hno⟩)

theorem exists_coherent_writes {s : StateBlock} {store : Store}
    (hs : store.schema = Schema.ofBlock s) (h : ∃ before, Coherent s before store.values)
    (history : List (String × Value)) :
    ∃ before, Coherent s before (store.writes history).values := by
  induction history generalizing store with
  | nil => exact h
  | cons w rest ih =>
    refine ih ((schema_write ..).trans hs) ?_
    cases applied : (store.write w.1 w.2).2.isApplied with
    | true => exact ⟨store.values, coherent_write hs applied⟩
    | false =>
      show ∃ before, Coherent s before (store.write w.1 w.2).1.values
      rw [write_of_not_applied applied]
      exact h

/-! ## The block with other values to start from -/

theorem find?_startingFrom (s : StateBlock) (values : Table Value) (key : String) :
    (s.startingFrom values).bindings.find? key =
      (s.bindings.find? key).map fun b => b.startingFrom (values.find? key) :=
  Table.find?_mapKeyed ..

theorem plan_startingFrom (s : StateBlock) (values : Table Value) :
    (Schema.ofBlock (s.startingFrom values)).plan = (Schema.ofBlock s).plan := by
  have formulas : Schema.formulas (s.startingFrom values).bindings =
      Schema.formulas s.bindings := by
    show List.filterMap _ (List.map _ _) = _
    rw [List.filterMap_map]
    refine List.filterMap_congr fun e _ => ?_
    simp only [Function.comp_apply, Binding.source?_startingFrom]
  show List.filterMap _ (Plan.order (Schema.formulas _)) = _
  rw [formulas]
  refine List.filterMap_congr fun e _ => ?_
  rw [find?_startingFrom]
  cases s.bindings.find? e.1 with
  | none => rfl
  | some b =>
    show some (Computation.mk _ (b.startingFrom _).kind _) = _
    rw [Binding.kind_startingFrom]
    rfl

theorem values_ofBlock_startingFrom (s : StateBlock) (values : Table Value) :
    (ofBlock (s.startingFrom values)).values =
      recompute (Schema.ofBlock s).plan ((s.startingFrom values).bindings.map Binding.initial) := by
  show recompute (Schema.ofBlock _).plan _ = _
  rw [plan_startingFrom]

/-- Outside the plan the new store starts with what the old one holds. -/
theorem initial_startingFrom {s : StateBlock} {history : List (String × Value)} {k : String}
    (hp : ¬ Schema.Planned s k) :
    ((s.startingFrom ((ofBlock s).writes history).values).bindings.map
      Binding.initial).find? k = ((ofBlock s).writes history).get? k := by
  have shaped := (shaped_ofBlock s).writes rfl history
  rw [Table.find?_map, find?_startingFrom]
  cases hb : s.bindings.find? k with
  | none => exact (shaped.unbound k hb).symm
  | some b =>
    obtain ⟨v, hv, admitted⟩ := shaped.bound k b hb
    show some (b.startingFrom _).initial = _
    cases hsource : b.source? with
    | none => rw [hv, Binding.initial_startingFrom_of_plain hsource admitted, get?, hv]
    | some source =>
      have computed : b.source?.isSome = true := by rw [hsource]; rfl
      rw [Binding.initial_startingFrom_of_computed computed,
        get?_writes_of_unplanned rfl (Schema.isComputed_iff.mpr ⟨b, hb, computed⟩) hp,
        get?_ofBlock_of_unplanned hb hp]

/-! ## Histories wash out -/

/-- Two histories that leave the same plain values leave the same value under every key outside
the plan: an unplanned computed key holds its initial value after both. -/
theorem get?_writes_eq_of_unplanned {s : StateBlock} {history other : List (String × Value)}
    (plain : ∀ key b, s.bindings.find? key = some b → b.source? = none →
      ((ofBlock s).writes other).get? key = ((ofBlock s).writes history).get? key)
    {k : String} (hp : ¬ Schema.Planned s k) :
    ((ofBlock s).writes other).get? k = ((ofBlock s).writes history).get? k := by
  cases hb : s.bindings.find? k with
  | none =>
    have absent := ((shaped_ofBlock s).writes rfl history).unbound k hb
    have absent' := ((shaped_ofBlock s).writes rfl other).unbound k hb
    rw [get?, get?, absent, absent']
  | some b =>
    cases hsource : b.source? with
    | none => exact plain k b hb hsource
    | some source =>
      have computed : b.source?.isSome = true := by rw [hsource]; rfl
      have hc := Schema.isComputed_iff.mpr ⟨b, hb, computed⟩
      rw [get?_writes_of_unplanned rfl hc hp, get?_writes_of_unplanned rfl hc hp]

/-- **A history washes out.** Take any state block and any history of writes after which every
planned formula evaluates without an error.  The store then holds what the store of the block with
the present plain values as defaults starts with.  And whatever other history leaves the same plain
values, whatever failed on its way, leaves all values the same. -/
theorem history_washes_out (s : StateBlock) (history : List (String × Value))
    (succeeds : ∀ c ∈ (Schema.ofBlock s).plan,
      ∃ v, c.formula.eval ((ofBlock s).writes history).values = .ok v) :
    ((ofBlock s).writes history).values =
      (ofBlock (s.startingFrom ((ofBlock s).writes history).values)).values ∧
    ∀ other : List (String × Value),
      (∀ key b, s.bindings.find? key = some b → b.source? = none →
        ((ofBlock s).writes other).get? key = ((ofBlock s).writes history).get? key) →
      ((ofBlock s).writes other).values = ((ofBlock s).writes history).values := by
  have ordered := Schema.plan_ordered s
  have settled : ∀ h, ∃ before, Coherent s before ((ofBlock s).writes h).values :=
    exists_coherent_writes rfl ⟨_, coherent_recompute s _⟩
  obtain ⟨before, coherent⟩ := settled history
  constructor
  · rw [values_ofBlock_startingFrom]
    apply Table.ext_find?
    apply find?_eq_of_agrees ordered coherent.agrees (recompute_agrees ordered _) succeeds
    intro k hk
    rw [find?_recompute_of_notMem hk, initial_startingFrom hk]
    rfl
  · intro other plain
    obtain ⟨before', coherent'⟩ := settled other
    apply Table.ext_find?
    intro k
    symm
    apply find?_eq_of_agrees ordered coherent.agrees coherent'.agrees succeeds
    intro n hn
    exact (get?_writes_eq_of_unplanned plain hn).symm

def sumBlock : StateBlock :=
  (((∅ : StateBlock).bind (.plain "a" .number)).bind (.plain "b" .number)).bind
    (.computedBy "total" .number "a + b")

/-- The sum overflows after the second write and keeps its old value; when it fits again, nothing
of that is left. -/
theorem overflow_washes_out :
    let history : List (String × Value) :=
      [("a", .int 9223372036854775807), ("b", .int 1), ("a", .int 4)]
    let other : List (String × Value) := [("b", .int 1), ("a", .int 4)]
    ((ofBlock sumBlock).writes (history.take 2)).get? "total" =
        some (.int 9223372036854775807) ∧
      ((ofBlock sumBlock).writes history).values =
        (ofBlock (sumBlock.startingFrom ((ofBlock sumBlock).writes history).values)).values ∧
      ((ofBlock sumBlock).writes other).values = ((ofBlock sumBlock).writes history).values := by
  intro history other
  have plan : (Schema.ofBlock sumBlock).plan =
      [⟨"total", .number, .binary .add (.name "a") (.name "b")⟩] := rfl
  have entries : sumBlock.bindings.entries = [("a", .plain "a" .number),
      ("b", .plain "b" .number), ("total", .computedBy "total" .number "a + b")] := rfl
  have succeeds : ∀ c ∈ (Schema.ofBlock sumBlock).plan,
      ∃ v, c.formula.eval ((ofBlock sumBlock).writes history).values = .ok v := by
    intro c hc
    rw [plan, List.mem_singleton] at hc
    subst hc
    exact ⟨.int 5, rfl⟩
  obtain ⟨fresh, same⟩ := history_washes_out sumBlock history succeeds
  refine ⟨rfl, fresh, same other ?_⟩
  intro key b hb hsource
  have declared := (Table.find?_eq_some_iff _).mp hb
  rw [entries] at declared
  simp only [List.mem_cons, Prod.mk.injEq, List.not_mem_nil, or_false] at declared
  rcases declared with ⟨rfl, -⟩ | ⟨rfl, -⟩ | ⟨-, rfl⟩
  · rfl
  · rfl
  · cases hsource

end Store

end ServerUi
