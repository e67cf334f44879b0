import ServerUi.Proofs.State.Writes

/-! # Computed bindings stay coherent

After the store is built, and after every write that it accepts, whatever was written before, each
planned key agrees with its formula on the values of all keys as they then are.  Every computed key
outside the plan keeps the value it started with.
-/

namespace ServerUi.Store

/-- Every planned key of the block holds the coerced result of its formula on the values as they
are `now`, or, if its formula fails on them, what it held `before`. -/
def Coherent (s : StateBlock) (before now : Table Value) : Prop :=
  ∀ key b e, s.bindings.find? key = some b → b.expr? = some e → Schema.Planned s key →
    Computation.Agrees ⟨key, b.kind, e⟩ before now

theorem coherent_recompute (s : StateBlock) (values : Table Value) :
    Coherent s values (recompute (Schema.ofBlock s).plan values) :=
  fun _ _ _ hb he hp =>
    recompute_agrees (Schema.plan_ordered s) values _ (Schema.mem_plan_of_planned hp hb he)

theorem coherent_write {s : StateBlock} {store : Store} (hs : store.schema = Schema.ofBlock s)
    {key : String} {v : Value} (h : (store.write key v).2.isApplied = true) :
    Coherent s store.values (store.write key v).1.values := by
  rcases write_cases store key v with ⟨-, e⟩ | ⟨-, e⟩ | ⟨b, -, hplain, e⟩
  · simp [e, WriteOutcome.isApplied] at h
  · simp [e, WriteOutcome.isApplied] at h
  · rw [e, hs]
    intro k binding f hk hf hp
    -- the key written is no computed one, so planned keys still hold what they held before
    have hne : k ≠ key := by
      rintro rfl
      rw [hs, Schema.isComputed_of_planned hp] at hplain
      cases hplain
    have held := Table.find?_insert_of_ne store.values (b.kind.coerce v) hne
    exact (agrees_congr held rfl fun _ _ => rfl).mp (coherent_recompute s _ k binding f hk hf hp)

/-! ## Keys outside the plan -/

theorem get?_write_of_unplanned {s : StateBlock} {store : Store}
    (hs : store.schema = Schema.ofBlock s) {k : String}
    (hc : (Schema.ofBlock s).isComputed k = true) (hp : ¬ Schema.Planned s k)
    (key : String) (v : Value) : (store.write key v).1.get? k = store.get? k := by
  by_cases same : k = key
  · obtain ⟨b, hb, computed⟩ := Schema.isComputed_iff.mp hc
    rw [← same, write_computed hs hb computed]
  · exact get?_write_of_ne hs same hp v

theorem get?_ofBlock_of_unplanned {s : StateBlock} {k : String} {b : Binding}
    (hb : s.bindings.find? k = some b) (hp : ¬ Schema.Planned s k) :
    (Store.ofBlock s).get? k = some b.initial := by
  show (recompute _ _).find? k = _
  rw [find?_recompute_of_notMem hp, Table.find?_map, hb]
  rfl

theorem get?_writes_of_unplanned {s : StateBlock} {store : Store}
    (hs : store.schema = Schema.ofBlock s) {k : String}
    (hc : (Schema.ofBlock s).isComputed k = true) (hp : ¬ Schema.Planned s k)
    (history : List (String × Value)) : (store.writes history).get? k = store.get? k := by
  induction history generalizing store with
  | nil => rfl
  | cons w rest ih =>
    show ((store.write w.1 w.2).1.writes rest).get? k = _
    rw [ih ((schema_write ..).trans hs), get?_write_of_unplanned hs hc hp]

/-! ## Every history -/

/-- **Coherence.** Take any state block and any history of writes.  The new store is coherent with
respect to the initial values, and every write that is accepted after the history leaves it
coherent with respect to the values before that write.  A computed key outside the plan still holds
its initial value; and the plan leaves out only a key whose formula cannot be read or leads onto a
cycle of formulas. -/
theorem coherent_throughout (s : StateBlock) (history : List (String × Value)) :
    Coherent s (s.bindings.map Binding.initial) (ofBlock s).values ∧
    (∀ key v, (((ofBlock s).writes history).write key v).2.isApplied = true →
      Coherent s ((ofBlock s).writes history).values
        (((ofBlock s).writes history).write key v).1.values) ∧
    (∀ key b, s.bindings.find? key = some b → b.source?.isSome = true →
      ¬ Schema.Planned s key → ((ofBlock s).writes history).get? key = some b.initial) ∧
    ∀ key, Schema.Planned s key ↔
      ∃ b e, s.bindings.find? key = some b ∧ b.expr? = some e ∧
        ¬ Plan.ReachesCycle (Schema.formulas s.bindings) key := by
  have schema : ((ofBlock s).writes history).schema = Schema.ofBlock s := schema_writes ..
  refine ⟨coherent_recompute s _, fun key v h => coherent_write schema h, ?_,
    fun _ => Schema.planned_iff⟩
  intro key b hb hsource hp
  have hc := Schema.isComputed_iff.mpr ⟨b, hb, hsource⟩
  rw [get?_writes_of_unplanned rfl hc hp, get?_ofBlock_of_unplanned hb hp]

/-- A ratio of two plain bindings, and a binding that reads itself. -/
def ratioBlock : StateBlock :=
  ((((∅ : StateBlock).bind ((Binding.plain "a" .number).withDefault (.int 4))).bind
    (.plain "b" .number)).bind (.computedBy "ratio" .number "a / b")).bind
      (.computedBy "loop" .number "loop + ratio")

/-- Writing a zero divisor is accepted, and the ratio keeps what it held. -/
theorem coherent_with_zero_divisor :
    let before := (ofBlock ratioBlock).writes [("b", .int 2), ("loop", .int 9)]
    let after := (before.write "b" (.int 0)).1
    (before.write "b" (.int 0)).2.isApplied = true ∧
      Coherent ratioBlock before.values after.values ∧
      (after.get? "ratio").any (Value.strictEq (.int 2)) = true := by
  have coherent := (coherent_throughout ratioBlock [("b", .int 2), ("loop", .int 9)]).2.1
  exact ⟨by decide, coherent "b" (.int 0) (by decide), by decide +kernel⟩

end ServerUi.Store
