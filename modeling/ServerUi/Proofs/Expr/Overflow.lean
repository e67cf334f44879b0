import ServerUi.Expr.Eval
import ServerUi.Proofs.Decimal.Integers
import ServerUi.Proofs.Decimal.Overflow
import ServerUi.Proofs.Expr.Coincidence
import ServerUi.Proofs.Value.RoundTrip

/-! # Formulas that leave the finite floats

Integers overflow with an error, and a division by zero is one too, but a literal may be too large
for a float, and so may the result of an operation on finite floats; then it is an infinity, and no
error.  A formula whose value comes from neither has a value of finite floats (`finite_eval`).
-/

namespace ServerUi

/-- Every float in the value is finite. -/
def Value.AllFinite (v : Value) : Prop := ∀ x ∈ v.floats, x.isFinite = true

namespace Value

instance (v : Value) : Decidable v.AllFinite :=
  inferInstanceAs (Decidable (∀ x ∈ v.floats, x.isFinite = true))

theorem allFinite_of_no_floats {v : Value} (none : v.floats = []) : v.AllFinite := by
  rw [AllFinite, none]
  exact List.forall_mem_nil _

theorem allFinite_float {x : Float} (finite : x.isFinite = true) : (Value.float x).AllFinite :=
  fun _ hy => (List.mem_singleton.mp hy).symm ▸ finite

theorem AllFinite.isFinite_float? {v : Value} (h : v.AllFinite) {x : Float}
    (number : v.float? = some x) : x.isFinite = true := by
  cases v with
  | int i =>
    cases number
    exact (Decimal.exact_floatOfInt i).1
  | float y =>
    cases number
    exact h x (List.mem_singleton_self x)
  | _ => cases number

end Value

/-- Is the operator one of arithmetic? -/
def BinaryOp.isArithmetic : BinaryOp → Bool
  | .add | .sub | .mul | .div | .rem => true
  | _ => false

namespace Expr

open Value

/-! ## Operations -/

/-- A result of finite floats, or an infinity. -/
def FiniteOrInf (v : Value) : Prop := v.AllFinite ∨ ∃ z, v = .float z ∧ z.isInf = true

theorem FiniteOrInf.float {z : Float} (h : z.isFinite = true ∨ z.isInf = true) :
    FiniteOrInf (.float z) :=
  h.imp allFinite_float fun infinite => ⟨z, rfl, infinite⟩

theorem finite_exact {symbol : String} {n : Int} {v : Value} (h : exact symbol n = .ok v) :
    v.AllFinite := by
  unfold exact at h
  split at h
  · cases h
    exact allFinite_of_no_floats rfl
  · cases h

theorem comparison_bool {op : BinaryOp} {holds : Ordering → Bool} {a b v : Value}
    (h : comparison op holds a b = .ok v) : ∃ b, v = .bool b := by
  obtain ⟨o, -, h⟩ := bind_eq_ok h
  cases h
  exact ⟨_, rfl⟩

/-- What comes after the test of a divisor has a divisor that is not zero. -/
theorem divisible_bind {op : BinaryOp} {a b v : Value} {rest : Unit → Except EvalError Value}
    (h : (divisible op a b >>= rest) = .ok v) :
    (∀ y, b.float? = some y → ¬ (y == 0) = true) ∧ rest () = .ok v := by
  unfold divisible at h
  split at h
  · rename_i x y hx hy
    split at h
    · cases h
    · rename_i nonzero
      refine ⟨fun z hz => ?_, h⟩
      rw [hy] at hz
      cases hz
      exact nonzero
  · cases h

section

variable {a b v : Value} (ha : a.AllFinite) (hb : b.AllFinite)

include ha hb

theorem finiteOrInf_floating {op : BinaryOp} {f : Float → Float → Float}
    (stays : ∀ x y, a.float? = some x → b.float? = some y → x.isFinite = true →
      y.isFinite = true → (f x y).isFinite = true ∨ (f x y).isInf = true)
    (h : floating op f a b = .ok v) : FiniteOrInf v := by
  unfold floating at h
  split at h
  · rename_i x y hx hy
    cases h
    exact .float (stays x y hx hy (ha.isFinite_float? hx) (hb.isFinite_float? hy))
  · cases h

theorem finiteOrInf_sum (h : sum a b = .ok v) : FiniteOrInf v := by
  unfold sum at h
  split at h
  · exact .inl (finite_exact h)
  · cases h
    exact .inl (allFinite_of_no_floats rfl)
  · cases h
    exact .inl (allFinite_of_no_floats rfl)
  · exact finiteOrInf_floating ha hb (fun _ _ _ _ => Decimal.add_isFinite_or_isInf) h

theorem finiteOrInf_difference (h : difference a b = .ok v) : FiniteOrInf v := by
  unfold difference at h
  split at h
  · exact .inl (finite_exact h)
  · exact finiteOrInf_floating ha hb (fun _ _ _ _ => Decimal.sub_isFinite_or_isInf) h

theorem finiteOrInf_product (h : product a b = .ok v) : FiniteOrInf v := by
  unfold product at h
  split at h
  · exact .inl (finite_exact h)
  · exact finiteOrInf_floating ha hb (fun _ _ _ _ => Decimal.mul_isFinite_or_isInf) h

theorem finiteOrInf_quotient (h : quotient a b = .ok v) : FiniteOrInf v := by
  unfold quotient at h
  obtain ⟨nonzero, h⟩ := divisible_bind h
  have divided : ∀ x y, a.float? = some x → b.float? = some y → x.isFinite = true →
      y.isFinite = true → (x / y).isFinite = true ∨ (x / y).isInf = true :=
    fun _ y _ hy finite finite' => Decimal.div_isFinite_or_isInf finite finite' (nonzero y hy)
  split at h
  · split at h
    · split at h
      · cases h
        exact .inl (allFinite_of_no_floats rfl)
      · exact finiteOrInf_floating ha hb divided h
    · exact finiteOrInf_floating ha hb divided h
  · exact finiteOrInf_floating ha hb divided h

theorem finiteOrInf_residue (h : residue a b = .ok v) : FiniteOrInf v := by
  unfold residue at h
  obtain ⟨nonzero, h⟩ := divisible_bind h
  split at h
  · split at h
    · exact .inl (finite_exact h)
    · cases h
  · exact finiteOrInf_floating ha hb (fun _ y _ hy finite finite' =>
      .inl (Decimal.isFinite_remainder finite finite' (nonzero y hy))) h

/-- **An operation on finite floats gives finite floats or an infinity.** -/
theorem finiteOrInf_apply {op : BinaryOp} (arithmetic : op.isArithmetic = true)
    (h : apply op a b = .ok v) : FiniteOrInf v := by
  cases op with
  | add => exact finiteOrInf_sum ha hb h
  | sub => exact finiteOrInf_difference ha hb h
  | mul => exact finiteOrInf_product ha hb h
  | div => exact finiteOrInf_quotient ha hb h
  | rem => exact finiteOrInf_residue ha hb h
  | _ => cases arithmetic

end

theorem finite_negate {a v : Value} (ha : a.AllFinite) (h : negate a = .ok v) : v.AllFinite := by
  cases a with
  | int i => exact finite_exact h
  | float x =>
    cases h
    exact allFinite_float (Decimal.isFinite_neg (ha x (List.mem_singleton_self x)))
  | _ => cases h

/-! ## Formulas -/

/-- Do finite operands have an infinite result? -/
def spills (op : BinaryOp) : Except EvalError Value → Except EvalError Value → Bool
  | .ok a, .ok b => decide a.AllFinite && decide b.AllFinite &&
    match apply op a b with
    | .ok (.float z) => z.isInf
    | _ => false
  | _, _ => false

/-- Does the value of the formula come from a literal that is beyond the floats, or from an
operation whose operands are finite and whose result is not? -/
def overflows (values : Table Value) : Expr → Bool
  | .literal v => !decide v.AllFinite
  | .name _ => false
  | .unary .not _ => false
  | .unary .neg e => e.overflows values
  | .binary op l r => op.isArithmetic &&
    (l.overflows values || r.overflows values || spills op (l.eval values) (r.eval values))
  | .choice t y n =>
    match t.eval values with
    | .ok v => if v.isTruthy then y.overflows values else n.overflows values
    | .error _ => false

/-- A binary formula has a truth value, or the value of an arithmetic operation. -/
theorem eval_binary_cases {values : Table Value} {op : BinaryOp} {l r : Expr} {v : Value}
    (h : (binary op l r).eval values = .ok v) :
    (∃ b, v = .bool b) ∨ op.isArithmetic = true ∧
      ∃ a b, l.eval values = .ok a ∧ r.eval values = .ok b ∧ apply op a b = .ok v := by
  have both {op : BinaryOp}
      (h : (l.eval values >>= fun a => r.eval values >>= fun b => apply op a b) = .ok v) :
      ∃ a b, l.eval values = .ok a ∧ r.eval values = .ok b ∧ apply op a b = .ok v := by
    obtain ⟨a, first, h⟩ := bind_eq_ok h
    obtain ⟨b, second, h⟩ := bind_eq_ok h
    exact ⟨a, b, first, second, h⟩
  cases op with
  | add | sub | mul | div | rem => exact .inr ⟨rfl, both h⟩
  | lt | le | gt | ge =>
    obtain ⟨a, b, -, -, h⟩ := both h
    exact .inl (comparison_bool h)
  | eq | ne =>
    obtain ⟨a, b, -, -, h⟩ := both h
    cases h
    exact .inl ⟨_, rfl⟩
  | and =>
    obtain ⟨a, -, h⟩ := bind_eq_ok h
    split at h
    · obtain ⟨b, -, h⟩ := bind_eq_ok h
      cases h
      exact .inl ⟨_, rfl⟩
    · cases h
      exact .inl ⟨_, rfl⟩
  | or =>
    obtain ⟨a, -, h⟩ := bind_eq_ok h
    split at h
    · cases h
      exact .inl ⟨_, rfl⟩
    · obtain ⟨b, -, h⟩ := bind_eq_ok h
      cases h
      exact .inl ⟨_, rfl⟩

/-- **The value of a formula is finite unless the formula overflows.** -/
theorem finite_eval {values : Table Value} {e : Expr} {v : Value}
    (finite : ∀ k v, values.find? k = some v → v.AllFinite) (within : e.overflows values = false)
    (h : e.eval values = .ok v) : v.AllFinite := by
  induction e generalizing v with
  | literal w =>
    cases h
    simpa [overflows] using within
  | name k =>
    rw [eval] at h
    split at h
    · rename_i w held
      cases h
      exact finite k _ held
    · cases h
  | unary op e ih =>
    cases op with
    | not =>
      obtain ⟨a, -, h⟩ := bind_eq_ok h
      cases h
      exact allFinite_of_no_floats rfl
    | neg =>
      obtain ⟨a, first, h⟩ := bind_eq_ok h
      exact finite_negate (ih within first) h
  | binary op l r ihl ihr =>
    obtain ⟨b, rfl⟩ | ⟨arithmetic, a, b, first, second, h⟩ := eval_binary_cases h
    · exact allFinite_of_no_floats rfl
    · simp only [overflows, arithmetic, first, second, Bool.true_and,
        Bool.or_eq_false_iff] at within
      obtain ⟨⟨left, right⟩, result⟩ := within
      have ha := ihl left first
      have hb := ihr right second
      rcases finiteOrInf_apply ha hb arithmetic h with finite | ⟨z, rfl, infinite⟩
      · exact finite
      · simp [spills, ha, hb, h, infinite] at result
  | choice t y n iht ihy ihn =>
    obtain ⟨a, first, h⟩ := bind_eq_ok h
    simp only [overflows, first] at within
    split at h
    · rename_i truthy
      rw [if_pos truthy] at within
      exact ihy within h
    · rename_i falsy
      rw [if_neg falsy] at within
      exact ihn within h

/-- Whether a formula overflows depends on the values of its names only. -/
theorem overflows_congr {σ τ : Table Value} {e : Expr}
    (same : ∀ k ∈ e.names, σ.find? k = τ.find? k) : e.overflows σ = e.overflows τ := by
  induction e with
  | literal v => rfl
  | name k => rfl
  | unary op e ih =>
    cases op with
    | not => rfl
    | neg => exact ih same
  | binary op l r ihl ihr =>
    have left : ∀ k ∈ l.names, σ.find? k = τ.find? k :=
      fun k hk => same k (List.mem_append_left _ hk)
    have right : ∀ k ∈ r.names, σ.find? k = τ.find? k :=
      fun k hk => same k (List.mem_append_right _ hk)
    simp only [overflows, ihl left, ihr right, eval_congr left, eval_congr right]
  | choice t y n iht ihy ihn =>
    simp only [names, List.append_assoc, List.mem_append] at same
    have test : ∀ k ∈ t.names, σ.find? k = τ.find? k := fun k hk => same k (.inl hk)
    simp only [overflows, eval_congr test, ihy fun k hk => same k (.inr (.inl hk)),
      ihn fun k hk => same k (.inr (.inr hk))]

end Expr

end ServerUi
