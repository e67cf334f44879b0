import ServerUi.Proofs.State.Plan

/-! # The rounds come to an end

The order of evaluation is found in rounds, and how many of them are allowed is fixed beforehand.
Here a round is a step of its own that may be repeated for ever.  It cannot be: every round takes a
formula, and the number allowed is enough (`run_rounds`).

What the order is worth is said on the graph of the formulas, with an edge from a key to each key
that its formula mentions (`order_exact`).
-/

namespace ServerUi

/-- The name is written somewhere in the formula. -/
inductive Expr.Mentions (k : String) : Expr → Prop where
  | name : Mentions k (.name k)
  | operand {op : UnaryOp} {e : Expr} (h : Mentions k e) : Mentions k (.unary op e)
  | left {op : BinaryOp} {l r : Expr} (h : Mentions k l) : Mentions k (.binary op l r)
  | right {op : BinaryOp} {l r : Expr} (h : Mentions k r) : Mentions k (.binary op l r)
  | test {t y n : Expr} (h : Mentions k t) : Mentions k (.choice t y n)
  | yes {t y n : Expr} (h : Mentions k y) : Mentions k (.choice t y n)
  | no {t y n : Expr} (h : Mentions k n) : Mentions k (.choice t y n)

theorem Expr.mem_names_iff {k : String} {e : Expr} : k ∈ e.names ↔ e.Mentions k := by
  constructor
  · intro h
    induction e with
    | literal v => cases h
    | name l =>
      cases List.mem_singleton.mp h
      exact .name
    | unary op e ih => exact .operand (ih h)
    | binary op l r ihl ihr =>
      rcases List.mem_append.mp h with h | h
      · exact .left (ihl h)
      · exact .right (ihr h)
    | choice t y n iht ihy ihn =>
      rcases List.mem_append.mp h with h | h
      · rcases List.mem_append.mp h with h | h
        · exact .test (iht h)
        · exact .yes (ihy h)
      · exact .no (ihn h)
  · intro h
    induction h with
    | name => exact List.mem_singleton_self _
    | operand _ ih => exact ih
    | left _ ih => exact List.mem_append_left _ ih
    | right _ ih => exact List.mem_append_right _ ih
    | test _ ih => exact List.mem_append_left _ (List.mem_append_left _ ih)
    | yes _ ih => exact List.mem_append_left _ (List.mem_append_right _ ih)
    | no _ ih => exact List.mem_append_right _ ih

namespace Plan

open Relation

/-! ## The graph -/

/-- The formula under one key mentions another key of the table, or its own. -/
def Edge (formulas : Table Expr) (a b : String) : Prop :=
  ∃ e, formulas.find? a = some e ∧ e.Mentions b ∧ (formulas.find? b).isSome = true

theorem isSome_find?_iff_mem_keys {formulas : Table Expr} {k : String} :
    (formulas.find? k).isSome = true ↔ k ∈ formulas.entries.keys := by
  rw [Option.isSome_iff_exists]
  constructor
  · rintro ⟨e, he⟩
    exact mem_keys (formulas.find?_eq_some_iff.mp he)
  · intro h
    obtain ⟨e, he⟩ := exists_of_mem_keys h
    exact ⟨e, formulas.find?_eq_some_iff.mpr he⟩

theorem reads_eq_edge (formulas : Table Expr) : Reads formulas.entries = Edge formulas := by
  funext a b
  simp only [Reads, Edge, Table.find?_eq_some_iff, Expr.mem_names_iff, isSome_find?_iff_mem_keys]

/-! ## Rounds without a limit -/

/-- The formulas that wait, and those that were taken, in the order of taking. -/
structure Stage where
  waiting : Entries Expr
  taken : Entries Expr

/-- A round takes all that is ready, if anything is. -/
inductive Round : Stage → Stage → Prop where
  | take {s : Stage} {p : String × Expr} (waits : p ∈ s.waiting)
      (ready : isReady s.waiting p.2 = true) :
      Round s ⟨s.waiting.filter fun q => !isReady s.waiting q.2,
        s.taken ++ s.waiting.filter fun q => isReady s.waiting q.2⟩

theorem Round.shorter {s s' : Stage} (h : Round s s') :
    s'.waiting.length < s.waiting.length := by
  cases h with
  | take waits ready => exact length_unready_lt waits ready

/-- No rounds can go on for ever, wherever they begin. -/
theorem wellFounded_round : WellFounded fun later s : Stage => Round s later :=
  Subrelation.wf Round.shorter (measure fun s : Stage => s.waiting.length).wf

/-- As many rounds as there are formulas waiting are as good as any number. -/
theorem run_rounds (n : Nat) (s : Stage) :
    ∃ left, ReflTransGen Round s ⟨left, s.taken ++ rounds n s.waiting⟩ ∧
      (s.waiting.length ≤ n → ∀ later, ¬ Round ⟨left, s.taken ++ rounds n s.waiting⟩ later) := by
  induction n generalizing s with
  | zero =>
    refine ⟨s.waiting, ?_, fun enough later h => ?_⟩
    · rw [rounds, List.append_nil]
    · have shorter : later.waiting.length < s.waiting.length := h.shorter
      omega
  | succ n ih =>
    by_cases some_ready : ∃ p ∈ s.waiting, isReady s.waiting p.2 = true
    · obtain ⟨p, waits, ready⟩ := some_ready
      have first : Round s _ := .take waits ready
      obtain ⟨left, run, halts⟩ := ih ⟨_, _⟩
      rw [rounds_succ_of_ready waits ready, ← List.append_assoc]
      refine ⟨left, .head first run, fun enough => halts ?_⟩
      exact Nat.le_of_lt_succ (Nat.lt_of_lt_of_le first.shorter enough)
    · rw [rounds_succ_of_stuck some_ready, List.append_nil]
      refine ⟨s.waiting, .refl, fun _ later h => ?_⟩
      cases h with
      | take waits ready => exact some_ready ⟨_, waits, ready⟩

/-! ## The order -/

/-- What a planned formula mentions is planned as well, and stands before it. -/
theorem mem_before_of_edge {formulas : Table Expr} {before after : Entries Expr} {key k : String}
    {e : Expr} (split : order formulas.entries = before ++ (key, e) :: after)
    (edge : Edge formulas key k) : k ∈ before.keys := by
  have distinct : formulas.entries.keys.Nodup := Entries.nodup_keys formulas.ascending
  obtain ⟨pairwise, self⟩ := order_ordered distinct
  have planned : (key, e) ∈ order formulas.entries := by
    rw [split]
    exact List.mem_append_right _ List.mem_cons_self
  obtain ⟨mem, acyclic⟩ := (mem_order_iff distinct).mp planned
  have reads : Reads formulas.entries key k := reads_eq_edge formulas ▸ edge
  have ⟨e', mem', named, waits⟩ := reads
  obtain rfl : e = e' := eq_of_mem_of_nodup distinct mem mem'
  obtain ⟨f, hf⟩ := exists_of_mem_keys waits
  have placed : (k, f) ∈ order formulas.entries := by
    refine (mem_order_iff distinct).mpr ⟨hf, ?_⟩
    rintro ⟨c, reached, cycle⟩
    exact acyclic ⟨c, .head reads reached, cycle⟩
  -- neither the formula itself nor a later one is named by it
  rw [split] at placed pairwise
  rcases List.mem_append.mp placed with earlier | placed
  · exact mem_keys earlier
  · rcases List.mem_cons.mp placed with same | later
    · cases same
      exact absurd named (self _ planned)
    · have apart := (List.pairwise_cons.mp (List.pairwise_append.mp pairwise).2.1).1 _ later
      exact absurd named apart.2

/-- **The order of evaluation is exact.**  Take any table of formulas, with an edge from a key to
each key of the table that its formula mentions.  Rounds cannot be repeated for ever, and what has
been taken where they end is the order.  It holds each key at most once, and it holds a key with its
own formula exactly if no cycle can be reached from the key; a formula that mentions its own key is
a cycle.  Every key stands behind all keys that there is an edge to. -/
theorem order_exact (formulas : Table Expr) :
    (WellFounded (fun later s : Stage => Round s later) ∧
      ∃ left, ReflTransGen Round ⟨formulas.entries, []⟩ ⟨left, order formulas.entries⟩ ∧
        ∀ later, ¬ Round ⟨left, order formulas.entries⟩ later) ∧
    (order formulas.entries).keys.Nodup ∧
    (∀ key e, (key, e) ∈ order formulas.entries ↔
      formulas.find? key = some e ∧
        ¬ ∃ c, ReflTransGen (Edge formulas) key c ∧ TransGen (Edge formulas) c c) ∧
    ∀ (before after : Entries Expr) key e k, order formulas.entries = before ++ (key, e) :: after →
      Edge formulas key k → k ∈ before.keys := by
  have distinct : formulas.entries.keys.Nodup := Entries.nodup_keys formulas.ascending
  refine ⟨⟨wellFounded_round, ?_⟩, ?_, ?_, fun _ _ _ _ _ => mem_before_of_edge⟩
  · obtain ⟨left, run, halts⟩ := run_rounds formulas.entries.length ⟨formulas.entries, []⟩
    exact ⟨left, run, halts (Nat.le_refl _)⟩
  · exact List.pairwise_map.mpr ((order_ordered distinct).pairwise.imp fun h => h.1)
  · intro key e
    rw [mem_order_iff distinct, Table.find?_eq_some_iff, ReachesCycle, reads_eq_edge]

def tallyFormulas : Table Expr :=
  .ofPairs [("all", .binary .add (.name "twice") (.name "base")),
    ("base", .literal (.int 1)),
    ("echo", .unary .not (.name "loop")),
    ("loop", .choice (.name "base") (.name "loop") (.name "plain")),
    ("twice", .binary .mul (.name "base") (.literal (.int 2)))]

/-- The sum of the two others comes last although its key comes first.  A formula that mentions
itself in one branch is left out, and so is one that mentions it. -/
theorem tally_ordered :
    (order tallyFormulas.entries).keys = ["base", "twice", "all"] ∧
      (∀ k, Edge tallyFormulas "all" k → k ∈ ["base", "twice"]) ∧
      ∃ c, ReflTransGen (Edge tallyFormulas) "echo" c ∧ TransGen (Edge tallyFormulas) c c := by
  obtain ⟨-, -, planned, before⟩ := order_exact tallyFormulas
  have placed : order tallyFormulas.entries =
      [("base", .literal (.int 1)), ("twice", .binary .mul (.name "base") (.literal (.int 2)))] ++
        ("all", .binary .add (.name "twice") (.name "base")) :: [] := rfl
  refine ⟨by rw [placed]; rfl, fun k => before _ _ _ _ k placed, ?_⟩
  by_contra acyclic
  have echo := (planned "echo" (.unary .not (.name "loop"))).mpr ⟨rfl, acyclic⟩
  rw [placed] at echo
  simp at echo

end Plan

end ServerUi
