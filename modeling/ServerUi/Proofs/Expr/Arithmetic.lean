import ServerUi.Expr.Eval
import ServerUi.Proofs.Decimal.Integers

/-! # Arithmetic of integers

A formula of integers either has the value it would have over all integers or fails where the first
of its operations, from left to right, leaves the words of 64 bits or divides by zero
(`integers_exact`).  The operations are written down beside the run by `Arithmetic.steps`, with the
numbers they would have over all integers: up to the first failure the run has the same.
-/

namespace ServerUi

open Decimal

/-! ## Formulas of integers and their operations -/

/-- The operators that make an integer from two. -/
inductive Operator where
  | add
  | sub
  | mul
  | rem
deriving DecidableEq, Repr

namespace Operator

def op : Operator → BinaryOp
  | add => .add
  | sub => .sub
  | mul => .mul
  | rem => .rem

/-- The result over all integers; a remainder has the sign of the dividend. -/
def on : Operator → Int → Int → Int
  | add, a, b => a + b
  | sub, a, b => a - b
  | mul, a, b => a * b
  | rem, a, b => a.tmod b

end Operator

/-- An operation on integers. -/
inductive Operation where
  | opposite (a : Int)
  | operate (o : Operator) (a b : Int)

namespace Operation

/-- Why the operation fails on words, if it does.  The least word has no remainder by minus one. -/
def failure? : Operation → Option EvalError
  | operate .rem a b =>
    if b = 0 then some .divisionByZero
    else if a = -2 ^ 63 ∧ b = -1 then some (.overflow "%")
    else none
  | operate o a b => if fitsSigned (o.on a b) then none else some (.overflow o.op.symbol)
  | opposite a => if fitsSigned (-a) then none else some (.overflow "-")

end Operation

/-- A formula of integers: words, names, opposites, and operators on two formulas. -/
inductive Arithmetic where
  | int (i : Int64)
  | name (key : String)
  | neg (e : Arithmetic)
  | binary (o : Operator) (l r : Arithmetic)

namespace Arithmetic

def formula : Arithmetic → Expr
  | int i => .literal (.int i)
  | name k => .name k
  | neg e => .unary .neg e.formula
  | binary o l r => .binary o.op l.formula r.formula

variable (ints : String → Int64)

def total : Arithmetic → Int
  | int i => i.toInt
  | name k => (ints k).toInt
  | neg e => -e.total
  | binary o l r => o.on l.total r.total

/-- The operations from left to right, each on its operands over all integers. -/
def steps : Arithmetic → List Operation
  | int _ | name _ => []
  | neg e => e.steps ++ [.opposite (e.total ints)]
  | binary o l r => l.steps ++ r.steps ++ [.operate o (l.total ints) (r.total ints)]

/-- Why the first operation that fails does so. -/
def failure? (e : Arithmetic) : Option EvalError := (e.steps ints).findSome? Operation.failure?

theorem failure?_neg (e : Arithmetic) :
    (neg e).failure? ints =
      (e.failure? ints).or (Operation.opposite (e.total ints)).failure? := by
  simp only [failure?, steps, List.findSome?_append, List.findSome?_singleton]

theorem failure?_binary (o : Operator) (l r : Arithmetic) :
    (binary o l r).failure? ints = (l.failure? ints).or ((r.failure? ints).or
      (Operation.operate o (l.total ints) (r.total ints)).failure?) := by
  simp only [failure?, steps, List.findSome?_append, List.findSome?_singleton, Option.or_assoc]

end Arithmetic

/-! ## Runs beside the operations -/

/-- A run gives this failure, or without one this number. -/
inductive Gives : Option EvalError → Int → Except EvalError Value → Prop where
  | failed (err : EvalError) (n : Int) : Gives (some err) n (.error err)
  | done (i : Int64) : Gives none i.toInt (.ok (.int i))

namespace Gives

theorem bind {f g : Option EvalError} {n m : Int} {out : Except EvalError Value}
    {next : Value → Except EvalError Value} (first : Gives f n out)
    (after : ∀ i : Int64, i.toInt = n → Gives g m (next (.int i))) :
    Gives (f.or g) m (out >>= next) := by
  cases first with
  | failed err n => exact failed err m
  | done i => exact after i rfl

theorem ok_iff {f : Option EvalError} {n : Int} {out : Except EvalError Value}
    (h : Gives f n out) (m : Int) :
    (∃ i : Int64, i.toInt = m ∧ out = .ok (.int i)) ↔ f = none ∧ m = n := by
  cases h with
  | failed err n => simp only [reduceCtorEq, and_false, exists_false, false_and]
  | done i =>
    simp only [Except.ok.injEq, Value.int.injEq, true_and]
    constructor
    · rintro ⟨_, rfl, rfl⟩
      rfl
    · rintro rfl
      exact ⟨i, rfl, rfl⟩

theorem error_iff {f : Option EvalError} {n : Int} {out : Except EvalError Value}
    (h : Gives f n out) (err : EvalError) : out = .error err ↔ f = some err := by
  cases h with
  | failed e n => rw [Except.error.injEq, Option.some.injEq]
  | done i => simp only [reduceCtorEq]

end Gives

namespace Expr

theorem gives_exact (symbol : String) (n : Int) :
    Gives (if fitsSigned n then none else some (.overflow symbol)) n (exact symbol n) := by
  unfold exact
  cases h : int64? n with
  | none =>
    rw [if_neg (int64?_eq_none_iff.mp h)]
    exact .failed _ n
  | some i =>
    rw [← toInt_of_int64? h, if_pos (fitsSigned_toInt i)]
    exact .done i

theorem divisible_int (op : BinaryOp) (a b : Int64) :
    divisible op (.int a) (.int b) = if b.toInt = 0 then .error .divisionByZero else .ok () := by
  have zero : (floatOfInt b == 0) = true ↔ b.toInt = 0 := by
    rw [floatOfInt_beq_zero_iff, ← Int64.toInt_inj]
    rfl
  simp only [divisible, Value.float?, zero]

theorem gives_residue (a b : Int64) :
    Gives (Operation.operate .rem a.toInt b.toInt).failure? (a.toInt.tmod b.toInt)
      (residue (.int a) (.int b)) := by
  simp only [residue, divisible_int, Operation.failure?]
  by_cases zero : b.toInt = 0
  · rw [if_pos zero, if_pos zero]
    exact .failed _ _
  · rw [if_neg zero, if_neg zero]
    -- the quotient is asked for first: it is a word but for the one pair
    show Gives _ _ (if (int64? (a.toInt.tdiv b.toInt)).isSome then exact "%" (a.toInt.tmod b.toInt)
      else .error (.overflow "%"))
    have quotients := isSome_int64?.trans (fitsSigned_tdiv (fitsSigned_toInt a) zero)
    by_cases least : a.toInt = -2 ^ 63 ∧ b.toInt = -1
    · rw [if_pos least, if_neg fun fits => quotients.mp fits least]
      exact .failed _ _
    · rw [if_neg least, if_pos (quotients.mpr least)]
      have fits := fitsSigned_tmod b.toInt (fitsSigned_toInt a)
      have seen := gives_exact "%" (a.toInt.tmod b.toInt)
      rwa [if_pos fits] at seen

/-- Every operator on words fails as its operation does, or is exact. -/
theorem gives_apply (o : Operator) (a b : Int64) :
    Gives (Operation.operate o a.toInt b.toInt).failure? (o.on a.toInt b.toInt)
      (apply o.op (.int a) (.int b)) := by
  cases o with
  | add => exact gives_exact "+" _
  | sub => exact gives_exact "-" _
  | mul => exact gives_exact "*" _
  | rem => exact gives_residue a b

theorem eval_operator (o : Operator) (l r : Expr) (values : Table Value) :
    (binary o.op l r).eval values =
      (l.eval values >>= fun a => r.eval values >>= fun b => apply o.op a b) := by
  cases o <;> rfl

/-- A run goes along with the operations.  By induction on the formula: the operations of the
operands come first, and the last one has the numbers of the run if none of them fails. -/
theorem gives_formula {values : Table Value} {ints : String → Int64} (e : Arithmetic)
    (bound : ∀ k ∈ e.formula.names, values.find? k = some (.int (ints k))) :
    Gives (e.failure? ints) (e.total ints) (e.formula.eval values) := by
  induction e with
  | int i => exact .done i
  | name k =>
    simp only [Arithmetic.formula, eval, bound k (List.mem_singleton.mpr rfl)]
    exact .done (ints k)
  | neg e ih =>
    rw [Arithmetic.failure?_neg]
    refine (ih bound).bind fun i value => ?_
    show Gives _ (-e.total ints) _
    rw [← value]
    exact gives_exact "-" (-i.toInt)
  | binary o l r ihl ihr =>
    have left := ihl fun k hk => bound k (List.mem_append_left _ hk)
    have right := ihr fun k hk => bound k (List.mem_append_right _ hk)
    rw [Arithmetic.failure?_binary, Arithmetic.formula, eval_operator]
    refine left.bind fun i valueL => right.bind fun j valueR => ?_
    show Gives _ (o.on (l.total ints) (r.total ints)) _
    rw [← valueL, ← valueR]
    exact gives_apply o i j

/-! ## Quotients -/

theorem quotient_int_eq {a b : Int64} (nonzero : b.toInt ≠ 0) :
    quotient (.int a) (.int b) =
      if a.toInt.tmod b.toInt = 0 then
        (int64? (a.toInt.tdiv b.toInt)).elim (.ok (.float (floatOfInt a / floatOfInt b)))
          fun q => .ok (.int q)
      else .ok (.float (floatOfInt a / floatOfInt b)) := by
  simp only [quotient, divisible_int, if_neg nonzero]
  cases int64? (a.toInt.tdiv b.toInt) <;> rfl

/-- A quotient is the integer that multiplies back, or the quotient of the floats. -/
theorem quotient_int {a b : Int64} (nonzero : b.toInt ≠ 0) :
    (∃ q : Int64, a.toInt = b.toInt * q.toInt ∧ quotient (.int a) (.int b) = .ok (.int q)) ∨
      ((¬ ∃ q : Int64, a.toInt = b.toInt * q.toInt) ∧
        quotient (.int a) (.int b) = .ok (.float (floatOfInt a / floatOfInt b))) := by
  rw [quotient_int_eq nonzero]
  by_cases divides : a.toInt.tmod b.toInt = 0
  · rw [if_pos divides]
    cases h : int64? (a.toInt.tdiv b.toInt) with
    | some q =>
      have back : b.toInt * a.toInt.tdiv b.toInt = a.toInt :=
        Int.mul_tdiv_cancel_of_tmod_eq_zero divides
      exact .inl ⟨q, by rw [toInt_of_int64? h, back], rfl⟩
    | none =>
      refine .inr ⟨?_, rfl⟩
      rintro ⟨q, product⟩
      rw [product, Int.mul_tdiv_cancel_left _ nonzero, int64?_toInt] at h
      cases h
  · rw [if_neg divides]
    refine .inr ⟨?_, rfl⟩
    rintro ⟨q, product⟩
    exact divides (by rw [product, Int.mul_tmod_right])

theorem eval_quotient {values : Table Value} {l r : Expr} {a b : Int64}
    (hl : l.eval values = .ok (.int a)) (hr : r.eval values = .ok (.int b)) :
    (binary .div l r).eval values = quotient (.int a) (.int b) := by
  simp only [eval, hl, hr]
  rfl

/-- **Integer arithmetic never wraps.**  A formula of integers has an integer as value just if no
operation fails, and then it is the value over all integers; else it fails as the first operation
does that fails from left to right.  A quotient of integers, not by zero, never fails: it is the
integer that multiplies back to the dividend if there is one among the words, and else a float. -/
theorem integers_exact (values : Table Value) :
    (∀ (e : Arithmetic) (ints : String → Int64),
      (∀ k ∈ e.formula.names, values.find? k = some (.int (ints k))) →
      (∀ n : Int, (∃ i : Int64, i.toInt = n ∧ e.formula.eval values = .ok (.int i)) ↔
        (∀ s ∈ e.steps ints, s.failure? = none) ∧ n = e.total ints) ∧
      ∀ err, e.formula.eval values = .error err ↔
        (e.steps ints).findSome? Operation.failure? = some err) ∧
    (∀ (l r : Expr) (a b : Int64), l.eval values = .ok (.int a) → r.eval values = .ok (.int b) →
      b ≠ 0 →
      (∀ q : Int64, (binary .div l r).eval values = .ok (.int q) ↔ a.toInt = b.toInt * q.toInt) ∧
      ((¬ ∃ q : Int64, a.toInt = b.toInt * q.toInt) →
        (binary .div l r).eval values = .ok (.float (floatOfInt a / floatOfInt b)))) := by
  constructor
  · intro e ints bound
    have run := gives_formula e bound
    refine ⟨fun n => ?_, run.error_iff⟩
    rw [run.ok_iff, Arithmetic.failure?, List.findSome?_eq_none_iff]
  · intro l r a b hl hr nonzero
    have nonzero : b.toInt ≠ 0 := fun zero => nonzero (Int64.toInt_inj.mp zero)
    rw [eval_quotient hl hr]
    rcases quotient_int (a := a) nonzero with ⟨q, product, value⟩ | ⟨none, value⟩
    · refine ⟨fun p => ?_, fun no => absurd ⟨q, product⟩ no⟩
      rw [value, Except.ok.injEq, Value.int.injEq]
      constructor
      · rintro rfl
        exact product
      · intro other
        exact Int64.toInt_inj.mp (Int.eq_of_mul_eq_mul_left nonzero (product.symm.trans other))
    · refine ⟨fun p => ?_, fun _ => value⟩
      rw [value, Except.ok.injEq]
      exact ⟨Value.noConfusion, fun product => absurd ⟨p, product⟩ none⟩

/-- The least word and minus one, by name. -/
def extremes (key : String) : Int64 := if key = "least" then Int64.minValue else -1

/-- A table with both. -/
def extremeValues : Table Value :=
  ((∅ : Table Value).insert "least" (.int (extremes "least"))).insert "one" (.int (extremes "one"))

/-- A sum over the extremes that is exact, one with two operations that fail, and their quotient,
which is no word. -/
theorem extremes_exact :
    let least : Arithmetic := .name "least"
    let one : Arithmetic := .name "one"
    (∃ i : Int64, i.toInt = 11 ∧ (Arithmetic.binary .sub
        (.binary .mul (.binary .rem least (.int 10)) one) (.neg (.int 3))).formula.eval extremeValues =
          .ok (.int i)) ∧
      (Arithmetic.binary .add (.binary .rem least one)
        (.binary .rem one (.int 0))).formula.eval extremeValues = .error (.overflow "%") ∧
      (binary .div (.name "least") (.name "one")).eval extremeValues =
        .ok (.float (floatOfInt Int64.minValue / floatOfInt (-1))) := by
  intro least one
  obtain ⟨trees, quotients⟩ := integers_exact extremeValues
  have bound (e : Arithmetic) (named : ∀ k ∈ e.formula.names, k = "least" ∨ k = "one")
      (k : String) (read : k ∈ e.formula.names) :
      extremeValues.find? k = some (.int (extremes k)) := by
    rcases named k read with rfl | rfl <;> rfl
  refine ⟨((trees _ extremes (bound _ (by decide))).1 11).mpr (by decide +kernel),
    ((trees _ extremes (bound _ (by decide))).2 _).mpr (by decide +kernel),
    (quotients _ _ Int64.minValue (-1) rfl rfl (by decide)).2 ?_⟩
  rintro ⟨q, product⟩
  have least : q.toInt = 9223372036854775808 := by
    rw [show Int64.toInt (-1) = -1 from rfl, Int64.toInt_minValue] at product
    omega
  exact absurd q.toInt_lt (by rw [least]; decide)

end Expr

end ServerUi
