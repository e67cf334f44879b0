import ServerUi.Proofs.State.Plan
import ServerUi.State.Store

/-! # What a state block declares

The schema of a block in terms of its bindings: which formulas it has, which keys it computes, and
what its plan holds.  A key is planned if its formula can be read and reaches no cycle
(`planned_iff`), and a planned formula names neither its own key nor that of a later one.
-/

namespace ServerUi

/-- The formula of a computed binding, if its source can be read. -/
def Binding.expr? (b : Binding) : Option Expr := b.source?.bind Expr.parse?

/-- A binding has a source if it is marked as computed and an expression is given. -/
theorem Binding.isSome_source?_iff {b : Binding} :
    b.source?.isSome = true ↔ b.computed = some true ∧ b.formula.isSome = true := by
  unfold source? declaresComputed
  split
  · rename_i marked
    simp [beq_iff_eq.mp marked]
  · rename_i unmarked
    have unmarked : b.computed ≠ some true := fun h => unmarked (beq_iff_eq.mpr h)
    simp [unmarked]

namespace Schema

/-- Does the plan of the block evaluate this key? -/
def Planned (s : StateBlock) (key : String) : Prop :=
  key ∈ (ofBlock s).plan.map Computation.key

/-! ## Formulas and computed keys -/

theorem mem_formulas_iff {bindings : Table Binding} {key : String} {e : Expr} :
    (key, e) ∈ formulas bindings ↔
      ∃ b, bindings.find? key = some b ∧ b.expr? = some e := by
  simp only [formulas, List.mem_filterMap, Prod.exists, Table.find?_eq_some_iff, Binding.expr?]
  constructor
  · rintro ⟨k, b, hb, h⟩
    cases hs : b.source? with
    | none => simp [hs] at h
    | some source =>
      cases he : Expr.parse? source with
      | none => simp [hs, he] at h
      | some f =>
        simp only [hs, he, Option.bind_eq_bind, Option.bind_some, Option.pure_def,
          Option.some.injEq, Prod.mk.injEq] at h
        obtain ⟨rfl, rfl⟩ := h
        exact ⟨b, hb, by simp [hs, he]⟩
  · rintro ⟨b, hb, h⟩
    obtain ⟨source, hs, he⟩ := Option.bind_eq_some_iff.mp h
    exact ⟨key, b, hb, by simp [hs, he]⟩

theorem ascending_formulas (bindings : Table Binding) : (formulas bindings).Ascending := by
  refine List.Pairwise.filterMap _ ?_ bindings.ascending
  intro e f hlt p hp q hq
  have key_eq : ∀ {e : String × Binding} {p : String × Expr},
      (do let source ← e.2.source?; let formula ← Expr.parse? source; pure (e.1, formula))
        = some p → p.1 = e.1 := by
    intro e p h
    simp only [Option.bind_eq_bind, Option.bind_eq_some_iff] at h
    obtain ⟨_, -, _, -, h⟩ := h
    cases h
    rfl
  rw [key_eq hp, key_eq hq]
  exact hlt

theorem nodup_keys_formulas (bindings : Table Binding) : (formulas bindings).keys.Nodup :=
  Entries.nodup_keys (ascending_formulas bindings)

theorem isComputed_iff {s : StateBlock} {key : String} :
    (ofBlock s).isComputed key = true ↔
      ∃ b, s.bindings.find? key = some b ∧ b.source?.isSome = true := by
  simp [isComputed, ofBlock, Table.find?_eq_some_iff]

/-! ## The plan -/

theorem mem_plan_iff {s : StateBlock} {c : Computation} :
    c ∈ (ofBlock s).plan ↔
      ∃ b, s.bindings.find? c.key = some b ∧ b.expr? = some c.formula ∧ b.kind = c.kind ∧
        ¬ Plan.ReachesCycle (formulas s.bindings) c.key := by
  have order := Plan.mem_order_iff (nodup_keys_formulas s.bindings) (p := (c.key, c.formula))
  rw [mem_formulas_iff] at order
  simp only [ofBlock, List.mem_filterMap, Prod.exists, Option.bind_eq_bind,
    Option.bind_eq_some_iff, Option.pure_def, Option.some.injEq]
  constructor
  · rintro ⟨key, e, h, b, hb, rfl⟩
    obtain ⟨⟨b', hb', he⟩, hno⟩ := order.mp h
    obtain rfl : b' = b := Option.some.inj (hb'.symm.trans hb)
    exact ⟨b', hb, he, rfl, hno⟩
  · rintro ⟨b, hb, he, hkind, hno⟩
    exact ⟨c.key, c.formula, order.mpr ⟨⟨b, hb, he⟩, hno⟩, b, hb, by rw [hkind]⟩

/-- **What is planned.** The plan holds the keys whose formula can be read and does not lead, over
the formulas it reads, onto a cycle. -/
theorem planned_iff {s : StateBlock} {key : String} :
    Planned s key ↔
      ∃ b e, s.bindings.find? key = some b ∧ b.expr? = some e ∧
        ¬ Plan.ReachesCycle (formulas s.bindings) key := by
  simp only [Planned, List.mem_map]
  constructor
  · rintro ⟨c, hc, rfl⟩
    obtain ⟨b, hb, he, -, hno⟩ := mem_plan_iff.mp hc
    exact ⟨b, c.formula, hb, he, hno⟩
  · rintro ⟨b, e, hb, he, hno⟩
    exact ⟨⟨key, b.kind, e⟩, mem_plan_iff.mpr ⟨b, hb, he, rfl, hno⟩, rfl⟩

theorem isComputed_of_planned {s : StateBlock} {key : String} (h : Planned s key) :
    (ofBlock s).isComputed key = true := by
  obtain ⟨b, e, hb, he, -⟩ := planned_iff.mp h
  obtain ⟨source, hs, -⟩ := Option.bind_eq_some_iff.mp he
  exact isComputed_iff.mpr ⟨b, hb, by simp [hs]⟩

theorem isComputed_of_plain {s : StateBlock} {key : String} {b : Binding}
    (hb : s.bindings.find? key = some b) (plain : b.source? = none) :
    (ofBlock s).isComputed key = false := by
  rw [← Bool.not_eq_true, isComputed_iff]
  rintro ⟨b', hb', computed⟩
  obtain rfl : b = b' := Option.some.inj (hb.symm.trans hb')
  rw [plain] at computed
  cases computed

theorem unplanned_of_plain {s : StateBlock} {key : String} {b : Binding}
    (hb : s.bindings.find? key = some b) (plain : b.source? = none) : ¬ Planned s key := by
  intro planned
  cases (isComputed_of_plain hb plain).symm.trans (isComputed_of_planned planned)

theorem mem_plan_of_planned {s : StateBlock} {key : String} {b : Binding} {e : Expr}
    (h : Planned s key) (hb : s.bindings.find? key = some b) (he : b.expr? = some e) :
    ⟨key, b.kind, e⟩ ∈ (ofBlock s).plan := by
  obtain ⟨_, _, -, -, hno⟩ := planned_iff.mp h
  exact mem_plan_iff.mpr ⟨b, hb, he, rfl, hno⟩

end Schema

/-- A plan in which nothing is evaluated twice, and nothing before what it reads. -/
structure Computation.Ordered (plan : List Computation) : Prop where
  pairwise : plan.Pairwise fun c d => c.key ≠ d.key ∧ d.key ∉ c.formula.names
  self : ∀ c ∈ plan, c.key ∉ c.formula.names

namespace Computation.Ordered

variable {c : Computation} {rest : List Computation}

theorem tail (h : Ordered (c :: rest)) : Ordered rest :=
  ⟨(List.pairwise_cons.mp h.pairwise).2, fun d hd => h.self d (List.mem_cons_of_mem _ hd)⟩

/-- What comes later computes neither the key of the first computation nor a name it reads. -/
theorem notMem_later (h : Ordered (c :: rest)) {k : String}
    (hk : k = c.key ∨ k ∈ c.formula.names) : k ∉ rest.map Computation.key := by
  obtain ⟨later, -⟩ := List.pairwise_cons.mp h.pairwise
  intro planned
  obtain ⟨d, hd, rfl⟩ := List.mem_map.mp planned
  rcases hk with same | read
  · exact (later d hd).1 same.symm
  · exact (later d hd).2 read

/-- The first computation reads no key of the plan. -/
theorem notMem_of_read (h : Ordered (c :: rest)) {k : String} (read : k ∈ c.formula.names) :
    k ∉ (c :: rest).map Computation.key := by
  rw [List.map_cons, List.mem_cons, not_or]
  refine ⟨?_, h.notMem_later (.inr read)⟩
  rintro rfl
  exact h.self c List.mem_cons_self read

end Computation.Ordered

theorem Schema.plan_ordered (s : StateBlock) : Computation.Ordered (Schema.ofBlock s).plan := by
  have order := Plan.order_ordered (Schema.nodup_keys_formulas s.bindings)
  have entry : ∀ {p : String × Expr} {c : Computation},
      (do let b ← s.bindings.find? p.1; pure (⟨p.1, b.kind, p.2⟩ : Computation)) = some c →
        c.key = p.1 ∧ c.formula = p.2 := by
    intro p c h
    simp only [Option.bind_eq_bind, Option.bind_eq_some_iff] at h
    obtain ⟨b, -, h⟩ := h
    cases h
    exact ⟨rfl, rfl⟩
  constructor
  · refine List.Pairwise.filterMap _ ?_ order.pairwise
    intro p q hpq c hc d hd
    obtain ⟨hck, hcf⟩ := entry hc
    obtain ⟨hdk, -⟩ := entry hd
    rw [hck, hcf, hdk]
    exact hpq
  · intro c hc
    obtain ⟨p, hp, h⟩ := List.mem_filterMap.mp hc
    obtain ⟨hck, hcf⟩ := entry h
    rw [hck, hcf]
    exact order.self p hp

end ServerUi
