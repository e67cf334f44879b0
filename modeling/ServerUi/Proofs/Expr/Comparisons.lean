import ServerUi.Expr.Eval
import ServerUi.Proofs.Decimal.Integers

/-! # Comparisons of integers

Equality compares integers as they are, and the order compares them as floats.  So the six
comparisons of two integers agree with one another just if the integers are equal or become
different floats; up to 53 binary digits they always do (`integers_compared`).
-/

namespace ServerUi.Expr

open ServerUi.Decimal

/-- Equality and inequality of two formulas tell whether two integers are equal. -/
structure EqualAs (values : Table Value) (l r : Expr) (a b : Int) : Prop where
  eq : (binary .eq l r).eval values = .ok (.bool (decide (a = b)))
  ne : (binary .ne l r).eval values = .ok (.bool (decide (a ≠ b)))

/-- The comparisons by order of two formulas tell the order of two integers. -/
structure OrderedAs (values : Table Value) (l r : Expr) (a b : Int) : Prop where
  lt : (binary .lt l r).eval values = .ok (.bool (decide (a < b)))
  le : (binary .le l r).eval values = .ok (.bool (decide (a ≤ b)))
  gt : (binary .gt l r).eval values = .ok (.bool (decide (b < a)))
  ge : (binary .ge l r).eval values = .ok (.bool (decide (b ≤ a)))

theorem order_int (op : BinaryOp) (a b : Int64) :
    order op (.int a) (.int b) = .ok (some (compare (rounded a.toInt) (rounded b.toInt))) := by
  have less := floatOfInt_lt_iff a b
  have equal := floatOfInt_beq_iff a b
  show Except.ok _ = _
  rcases lt_trichotomy (rounded a.toInt) (rounded b.toInt) with h | h | h
  · rw [compare_lt_iff_lt.mpr h, if_pos (less.mpr h)]
  · rw [compare_eq_iff_eq.mpr h, if_neg (fun l => (less.mp l).ne h), if_pos (equal.mpr h)]
  · rw [compare_gt_iff_gt.mpr h, if_neg (fun l => (less.mp l).not_gt h),
      if_neg (fun e => h.ne' (equal.mp e)), if_pos ((floatOfInt_lt_iff b a).mpr h)]

/-- Rounding keeps the order, but may make different integers equal. -/
theorem rounded_lt_iff {i j : Int} (apart : i = j ∨ rounded i ≠ rounded j) :
    rounded i < rounded j ↔ i < j := by
  constructor
  · intro less
    by_contra notLess
    exact absurd (rounded_mono (Int.not_lt.mp notLess)) (Int.not_le.mpr less)
  · intro less
    have differ := apart.resolve_left (Int.ne_of_lt less)
    exact lt_of_le_of_ne (rounded_mono (Int.le_of_lt less)) differ

section

variable {values : Table Value} {l r : Expr} {a b : Int64}
  (hl : l.eval values = .ok (.int a)) (hr : r.eval values = .ok (.int b))

include hl hr

theorem equalAs_of_int : EqualAs values l r a.toInt b.toInt where
  eq := by
    have same : (a == b) = decide (a.toInt = b.toInt) := by
      rw [Bool.eq_iff_iff, beq_iff_eq, decide_eq_true_iff, Int64.toInt_inj]
    simp only [eval, hl, hr]
    show Except.ok (Value.bool (a == b)) = _
    rw [same]
  ne := by
    have same : (!(a == b)) = decide (a.toInt ≠ b.toInt) := by
      rw [Bool.eq_iff_iff, Bool.not_eq_true', beq_eq_false_iff_ne, decide_eq_true_iff, ne_eq,
        ne_eq, Int64.toInt_inj]
    simp only [eval, hl, hr]
    show Except.ok (Value.bool (!(a == b))) = _
    rw [same]

theorem orderedAs_rounded : OrderedAs values l r (rounded a.toInt) (rounded b.toInt) := by
  have compared (op : BinaryOp) (holds : Ordering → Bool) {p : Prop} [Decidable p]
      (tells : holds (compare (rounded a.toInt) (rounded b.toInt)) = true ↔ p) :
      comparison op holds (.int a) (.int b) = .ok (.bool (decide p)) := by
    have decided : holds (compare (rounded a.toInt) (rounded b.toInt)) = decide p := by
      rw [Bool.eq_iff_iff, tells, decide_eq_true_iff]
    rw [comparison, order_int, ← decided]
    rfl
  constructor <;> simp only [eval, hl, hr]
  · exact compared .lt Ordering.isLT (Ordering.isLT_iff_eq_lt.trans Int.compare_eq_lt)
  · exact compared .le Ordering.isLE Int.isLE_compare
  · exact compared .gt Ordering.isGT (Ordering.isGT_iff_eq_gt.trans Int.compare_eq_gt)
  · exact compared .ge Ordering.isGE Int.isGE_compare

theorem orderedAs_iff :
    OrderedAs values l r a.toInt b.toInt ↔ a = b ∨ rounded a.toInt ≠ rounded b.toInt := by
  have seen := orderedAs_rounded hl hr
  constructor
  · intro told
    by_contra hidden
    rw [not_or, not_not] at hidden
    have bools : decide (a.toInt < b.toInt) = decide (rounded a.toInt < rounded b.toInt) ∧
        decide (b.toInt < a.toInt) = decide (rounded b.toInt < rounded a.toInt) := by
      have lt := told.lt.symm.trans seen.lt
      have gt := told.gt.symm.trans seen.gt
      simp only [Except.ok.injEq, Value.bool.injEq] at lt gt
      exact ⟨lt, gt⟩
    rw [hidden.2] at bools
    simp only [lt_irrefl, decide_false, decide_eq_false_iff_not, Int.not_lt] at bools
    exact hidden.1 (Int64.toInt_inj.mp (Int.le_antisymm bools.2 bools.1))
  · intro apart
    have apart : a.toInt = b.toInt ∨ rounded a.toInt ≠ rounded b.toInt :=
      apart.imp_left (congrArg Int64.toInt)
    have less := rounded_lt_iff apart
    have greater := rounded_lt_iff (apart.imp Eq.symm Ne.symm)
    have le : rounded a.toInt ≤ rounded b.toInt ↔ a.toInt ≤ b.toInt := by
      rw [← Int.not_lt, ← Int.not_lt, greater]
    have ge : rounded b.toInt ≤ rounded a.toInt ↔ b.toInt ≤ a.toInt := by
      rw [← Int.not_lt, ← Int.not_lt, less]
    constructor
    · rw [seen.lt, decide_eq_decide.mpr less]
    · rw [seen.le, decide_eq_decide.mpr le]
    · rw [seen.gt, decide_eq_decide.mpr greater]
    · rw [seen.ge, decide_eq_decide.mpr ge]

/-- **Comparisons of integers.**  Whatever integers two formulas have as values, equality and
inequality tell whether they are equal.  The comparisons by order tell the order of the nearest
numbers with 53 binary digits, which never is the opposite one.  They tell the order of the integers
themselves, and so agree with equality, just if the integers are equal or their nearest numbers
differ; for integers of at most `2 ^ 53` in size they always do. -/
theorem integers_compared :
    EqualAs values l r a.toInt b.toInt ∧
    OrderedAs values l r (rounded a.toInt) (rounded b.toInt) ∧
    (∀ i j, i ≤ j → rounded i ≤ rounded j) ∧
    (OrderedAs values l r a.toInt b.toInt ↔ a = b ∨ rounded a.toInt ≠ rounded b.toInt) ∧
    (a.toInt.natAbs ≤ 2 ^ 53 → b.toInt.natAbs ≤ 2 ^ 53 →
      OrderedAs values l r a.toInt b.toInt) := by
  refine ⟨equalAs_of_int hl hr, orderedAs_rounded hl hr, fun _ _ => rounded_mono,
    orderedAs_iff hl hr, fun smallA smallB => ?_⟩
  have seen := orderedAs_rounded hl hr
  rwa [rounded_of_natAbs_le smallA, rounded_of_natAbs_le smallB] at seen

end

def pairOf (a b : Int64) : Table Value :=
  ((∅ : Table Value).insert "x" (.int a)).insert "y" (.int b)

/-- The least integer and the one above it, halved, are told apart; so are small ones. -/
theorem halves_of_least_ordered :
    OrderedAs (pairOf (-4611686018427387904) 4611686018427387903) (.name "x") (.name "y")
        (-4611686018427387904) 4611686018427387903 ∧
      OrderedAs (pairOf (-7) 9007199254740992) (.name "x") (.name "y") (-7) 9007199254740992 := by
  have reads (a b : Int64) : (name "x").eval (pairOf a b) = .ok (.int a) ∧
      (name "y").eval (pairOf a b) = .ok (.int b) := ⟨rfl, rfl⟩
  obtain ⟨far, far'⟩ := reads (-4611686018427387904) 4611686018427387903
  obtain ⟨small, small'⟩ := reads (-7) 9007199254740992
  exact ⟨(integers_compared far far').2.2.2.1.mpr (.inr (by decide +kernel)),
    (integers_compared small small').2.2.2.2 (by decide +kernel) (by decide +kernel)⟩

/-- From `2 ^ 53` on an integer and the next one may share a float: the first is neither less nor
equal nor greater, and yet both `<=` and `>=` hold. -/
theorem neighbours_unordered :
    let values := pairOf 9007199254740992 9007199254740993
    let told (op : BinaryOp) := (((binary op (.name "x") (.name "y")).eval values).toOption.bind
      Value.bool?)
    told .lt = some false ∧ told .eq = some false ∧ told .gt = some false ∧
      told .le = some true ∧ told .ge = some true := by
  decide +kernel

end ServerUi.Expr
