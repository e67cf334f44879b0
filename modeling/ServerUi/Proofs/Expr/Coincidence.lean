import Mathlib.Data.List.Basic
import ServerUi.Expr.Eval
import ServerUi.Expr.Parser

/-! # A formula reads its names only

What a formula gives, a value or an error, depends on the values of the names written in it and on
nothing else (`eval_congr`).  Operations fail for their operands and never for a name
(`nameless_apply`), so a name that a formula finds unknown is written in it (`unknown_of_eval`).
-/

namespace ServerUi.Expr

theorem eval_congr {σ τ : Table Value} {e : Expr}
    (h : ∀ k ∈ e.names, σ.find? k = τ.find? k) : e.eval σ = e.eval τ := by
  induction e with
  | literal v => simp only [eval]
  | name k => simp only [eval, h k (List.mem_singleton.mpr rfl)]
  | unary op e ih =>
    have he : e.eval σ = e.eval τ := ih h
    cases op <;> simp only [eval, he]
  | binary op l r ihl ihr =>
    have hl : l.eval σ = l.eval τ := ihl fun k hk => h k (List.mem_append_left _ hk)
    have hr : r.eval σ = r.eval τ := ihr fun k hk => h k (List.mem_append_right _ hk)
    cases op <;> simp only [eval, hl, hr]
  | choice t y n iht ihy ihn =>
    simp only [names, List.append_assoc, List.mem_append] at h
    have ht : t.eval σ = t.eval τ := iht fun k hk => h k (.inl hk)
    have hy : y.eval σ = y.eval τ := ihy fun k hk => h k (.inr (.inl hk))
    have hn : n.eval σ = n.eval τ := ihn fun k hk => h k (.inr (.inr hk))
    simp only [eval, ht, hy, hn]

theorem mem_reads_iff {e : Expr} {k : String} : k ∈ e.reads ↔ k ∈ e.names := by
  show k ∈ (Entries.ofPairs _).keys ↔ _
  rw [Entries.mem_keys_ofPairs, List.map_map]
  show k ∈ e.names.map id ↔ _
  rw [List.map_id]

/-! ## Names without a value -/

/-- Whatever it gives, it does not give a name as unknown. -/
def Nameless {α : Type} (out : Except EvalError α) : Prop := ∀ k, out ≠ .error (.unknownName k)

theorem nameless_ok {α : Type} (a : α) : Nameless (.ok a) := nofun

theorem Nameless.bind {α β : Type} {x : Except EvalError α} {f : α → Except EvalError β}
    (hx : Nameless x) (hf : ∀ a, Nameless (f a)) : Nameless (x >>= f) := by
  intro k h
  rcases bind_eq_error h with h | ⟨a, -, h⟩
  · exact hx k h
  · exact hf a k h

theorem nameless_exact (symbol : String) (n : Int) : Nameless (exact symbol n) := by
  unfold exact
  split
  · exact nameless_ok _
  · rintro k ⟨⟩

theorem nameless_floating (op : BinaryOp) (f : Float → Float → Float) (a b : Value) :
    Nameless (floating op f a b) := by
  unfold floating
  split <;> nofun

theorem nameless_divisible (op : BinaryOp) (a b : Value) : Nameless (divisible op a b) := by
  unfold divisible
  split
  · split <;> nofun
  · nofun

theorem nameless_comparison (op : BinaryOp) (holds : Ordering → Bool) (a b : Value) :
    Nameless (comparison op holds a b) := by
  refine Nameless.bind ?_ fun o => nameless_ok _
  unfold order
  split
  · nofun
  · split <;> nofun

theorem nameless_sum (a b : Value) : Nameless (sum a b) := by
  unfold sum
  split
  · exact nameless_exact _ _
  · exact nameless_ok _
  · exact nameless_ok _
  · exact nameless_floating _ _ _ _

theorem nameless_difference (a b : Value) : Nameless (difference a b) := by
  unfold difference
  split
  · exact nameless_exact _ _
  · exact nameless_floating _ _ _ _

theorem nameless_product (a b : Value) : Nameless (product a b) := by
  unfold product
  split
  · exact nameless_exact _ _
  · exact nameless_floating _ _ _ _

theorem nameless_quotient (a b : Value) : Nameless (quotient a b) := by
  refine (nameless_divisible .div a b).bind fun _ => ?_
  split
  · split
    · split
      · exact nameless_ok _
      · exact nameless_floating _ _ _ _
    · exact nameless_floating _ _ _ _
  · exact nameless_floating _ _ _ _

theorem nameless_residue (a b : Value) : Nameless (residue a b) := by
  refine (nameless_divisible .rem a b).bind fun _ => ?_
  split
  · split
    · exact nameless_exact _ _
    · nofun
  · exact nameless_floating _ _ _ _

/-- An operation fails for its operands, never for a name. -/
theorem nameless_apply (op : BinaryOp) (a b : Value) : Nameless (apply op a b) := by
  cases op with
  | or => exact nameless_ok _
  | and => exact nameless_ok _
  | eq => exact nameless_ok _
  | ne => exact nameless_ok _
  | lt => exact nameless_comparison _ _ a b
  | le => exact nameless_comparison _ _ a b
  | gt => exact nameless_comparison _ _ a b
  | ge => exact nameless_comparison _ _ a b
  | add => exact nameless_sum a b
  | sub => exact nameless_difference a b
  | mul => exact nameless_product a b
  | div => exact nameless_quotient a b
  | rem => exact nameless_residue a b

theorem nameless_negate (v : Value) : Nameless (negate v) := by
  cases v with
  | int i => exact nameless_exact "-" _
  | float x => exact nameless_ok _
  | _ => nofun

/-- A name that an operator finds unknown is unknown in one of its operands. -/
theorem unknown_of_unary {σ : Table Value} {op : UnaryOp} {e : Expr} {k : String}
    (h : (unary op e).eval σ = .error (.unknownName k)) : e.eval σ = .error (.unknownName k) := by
  cases op with
  | not => exact (bind_eq_error h).resolve_right fun ⟨_, _, h⟩ => nameless_ok _ k h
  | neg => exact (bind_eq_error h).resolve_right fun ⟨v, _, h⟩ => nameless_negate v k h

theorem unknown_of_binary {σ : Table Value} {op : BinaryOp} {l r : Expr} {k : String}
    (h : (binary op l r).eval σ = .error (.unknownName k)) :
    l.eval σ = .error (.unknownName k) ∨ r.eval σ = .error (.unknownName k) := by
  have right {f : Value → Except EvalError Value} (hf : ∀ b, Nameless (f b))
      (h : (r.eval σ >>= f) = .error (.unknownName k)) : r.eval σ = .error (.unknownName k) :=
    (bind_eq_error h).resolve_right fun ⟨b, _, h⟩ => hf b k h
  cases op with
  | and =>
    refine (bind_eq_error h).imp_right fun ⟨a, _, h⟩ => ?_
    split at h
    · exact right (fun b => nameless_ok _) h
    · cases h
  | or =>
    refine (bind_eq_error h).imp_right fun ⟨a, _, h⟩ => ?_
    split at h
    · cases h
    · exact right (fun b => nameless_ok _) h
  | _ => exact (bind_eq_error h).imp_right fun ⟨a, _, h⟩ => right (nameless_apply _ a) h

theorem unknown_of_eval {σ : Table Value} {e : Expr} {k : String}
    (h : e.eval σ = .error (.unknownName k)) : k ∈ e.names ∧ σ.find? k = none := by
  induction e with
  | literal v => cases h
  | name l =>
    unfold eval at h
    split at h
    · cases h
    · rename_i unbound
      cases h
      exact ⟨List.mem_singleton_self _, unbound⟩
  | unary op e ih => exact ih (unknown_of_unary h)
  | binary op l r ihl ihr =>
    rcases unknown_of_binary h with h | h
    · exact (ihl h).imp_left (List.mem_append_left _)
    · exact (ihr h).imp_left (List.mem_append_right _)
  | choice t y n iht ihy ihn =>
    rcases bind_eq_error h with h | ⟨v, _, h⟩
    · exact (iht h).imp_left fun hk => List.mem_append_left _ (List.mem_append_left _ hk)
    · split at h
      · exact (ihy h).imp_left fun hk => List.mem_append_left _ (List.mem_append_right _ hk)
      · exact (ihn h).imp_left (List.mem_append_right _)

/-- **Coincidence.**  Values that agree on the names of a formula, on each of them the same value or
none, give it the same outcome, value or error.  A formula that finds a name unknown names it, and
it has no value. -/
theorem reads_suffice (e : Expr) :
    (∀ σ τ : Table Value, (∀ k ∈ e.reads, σ.find? k = τ.find? k) → e.eval σ = e.eval τ) ∧
    ∀ (σ : Table Value) (k : String), e.eval σ = .error (.unknownName k) →
      k ∈ e.reads ∧ σ.find? k = none := by
  refine ⟨fun σ τ same => eval_congr fun k hk => same k (mem_reads_iff.mpr hk), ?_⟩
  intro σ k unknown
  exact (unknown_of_eval unknown).imp_left mem_reads_iff.mpr

/-- The price of what is counted, or a discount. -/
def orderFormula : Expr :=
  .choice (.name "ready") (.binary .mul (.name "price") (.name "count")) (.name "discount")

/-- Of two names without a value the one that is needed is reported, and a value that the formula
does not name changes nothing. -/
theorem count_reported_unknown :
    let σ : Table Value := Table.ofPairs [("price", .int 2), ("ready", .bool true)]
    let τ : Table Value := σ.insert "note" (.string "today")
    parse? "ready ? price * count : discount" = some orderFormula ∧
      orderFormula.eval σ = orderFormula.eval τ ∧
      orderFormula.eval σ = .error (.unknownName "count") ∧
      "count" ∈ orderFormula.reads ∧ σ.find? "count" = none := by
  intro σ τ
  obtain ⟨agree, unknown⟩ := reads_suffice orderFormula
  have same : ∀ k ∈ ["count", "discount", "price", "ready"], σ.find? k = τ.find? k := by
    intro k hk
    refine (Table.find?_insert_of_ne σ _ ?_).symm
    rintro rfl
    exact absurd hk (by decide)
  have lexed : tokens? "ready ? price * count : discount" =
      some [.name "ready", .question, .name "price", .op .mul, .name "count", .colon,
        .name "discount"] := rfl
  have written : parse? "ready ? price * count : discount" = some orderFormula := by
    rw [parse?, lexed]
    rfl
  have missing : orderFormula.eval σ = .error (.unknownName "count") := rfl
  exact ⟨written, agree σ τ same, missing, unknown σ "count" missing⟩

end ServerUi.Expr
