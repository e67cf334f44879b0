import Mathlib.Tactic.Ring
import ServerUi.Proofs.Decimal.Rounding

/-! # Floats compare as numbers

The order of floats looks at signs, exponents and digits in turn.  Since the digits that come out of
the bits are aligned (`Aligned`), that is the order of the exact values: `lt_iff_exact_lt` and
`beq_iff_exact_eq` hold of all finite floats.  Every float equals itself, finite or not, but for NaN
(`beq_self`).
-/

namespace ServerUi.Decimal

open Float.Model Float.Model.UnpackedFloat

/-! ## Aligned digits -/

/-- Either all 53 digits are there, or the exponent is the least one. -/
inductive Aligned : UnpackedFloat → Prop
  | zero (s : Sign) : Aligned (.zero s)
  | finite {s : Sign} {m : Nat} {e : Int} {h : 0 < m} (short : m < 2 ^ 53) (low : -1074 ≤ e)
    (full : -1074 < e → 2 ^ 52 ≤ m) : Aligned (.finite s m e h)

theorem aligned_signed {s : Sign} {m : Nat} {e : Int} (short : m < 2 ^ 53) (low : -1074 ≤ e)
    (full : -1074 < e → 2 ^ 52 ≤ m) : Aligned (signed s m e) := by
  rcases signed_cases s m e with ⟨-, eq⟩ | ⟨_, eq⟩
  · rw [eq]
    exact .zero s
  · rw [eq]
    exact .finite short low full

theorem aligned_unpack {v : Float.Model} (finite : v.unpack.isFinite = true) :
    Aligned v.unpack := by
  have digits := (@unpackMantissa .binary64 v.toBits.toBitVec).isLt
  change _ < 2 ^ 52 at digits
  rw [Float.Model.unpack, unpack_eq, if_neg (unpackExponent_ne_top finite)]
  by_cases least : @unpackExponent .binary64 v.toBits.toBitVec = 0#11
  · rw [if_pos least]
    exact aligned_signed (by omega) (by omega) (by omega)
  · rw [if_neg least]
    have positive : (@unpackExponent .binary64 v.toBits.toBitVec).toNat ≠ 0 := by
      intro zero
      apply least
      rw [← BitVec.toNat_inj, zero]
      rfl
    exact aligned_signed (by omega) (by omega) (by omega)

/-- Of two aligned sizes the one with the smaller exponent is smaller. -/
theorem size_lt_of_exponent_lt {m n : Nat} {e f : Int} (short : m < 2 ^ 53) (full : 2 ^ 52 ≤ n)
    (h : e < f) : (m * 2 ^ e : ℚ) < n * 2 ^ f :=
  calc (m * 2 ^ e : ℚ) < 2 ^ 53 * 2 ^ e := by
        gcongr
        exact_mod_cast short
    _ = 2 ^ 52 * 2 ^ (e + 1) := by
        rw [zpow_add₀ (by norm_num)]
        ring
    _ ≤ 2 ^ 52 * 2 ^ f := by
        gcongr
        · norm_num
        · omega
    _ ≤ n * 2 ^ f := by
        gcongr
        exact_mod_cast full

/-- The order by exponent and then by digits is the order of sizes. -/
theorem compare_sizes {m n : Nat} {e f : Int} (short : m < 2 ^ 53) (short' : n < 2 ^ 53)
    (low : -1074 ≤ e) (low' : -1074 ≤ f) (full : -1074 < e → 2 ^ 52 ≤ m)
    (full' : -1074 < f → 2 ^ 52 ≤ n) :
    (compare e f).then (compare m n) = compare (m * 2 ^ e : ℚ) (n * 2 ^ f) := by
  rcases lt_trichotomy e f with less | rfl | greater
  · rw [compare_lt_iff_lt.mpr less,
      compare_lt_iff_lt.mpr (size_lt_of_exponent_lt short (full' (by omega)) less)]
    rfl
  · -- one exponent: the digits decide
    have unit : (0 : ℚ) < 2 ^ e := by positivity
    rw [compare_eq_iff_eq.mpr rfl]
    show compare m n = _
    rcases lt_trichotomy m n with less | rfl | greater
    · rw [compare_lt_iff_lt.mpr less, eq_comm, compare_lt_iff_lt]
      gcongr
    · rw [compare_eq_iff_eq.mpr rfl, compare_eq_iff_eq.mpr rfl]
    · rw [compare_gt_iff_gt.mpr greater, eq_comm, compare_gt_iff_gt]
      show (n * 2 ^ e : ℚ) < m * 2 ^ e
      gcongr
  · rw [compare_gt_iff_gt.mpr greater,
      compare_gt_iff_gt.mpr (size_lt_of_exponent_lt short' (full (by omega)) greater)]
    rfl

theorem compare_neg_neg (a b : ℚ) : compare (-a) (-b) = (compare a b).swap := by
  rcases lt_trichotomy a b with less | rfl | greater
  · rw [compare_lt_iff_lt.mpr less, compare_gt_iff_gt.mpr (neg_lt_neg less)]
    rfl
  · rw [compare_eq_iff_eq.mpr rfl, compare_eq_iff_eq.mpr rfl]
    rfl
  · rw [compare_gt_iff_gt.mpr greater, compare_lt_iff_lt.mpr (neg_lt_neg greater)]
    rfl

/-- By cases on the signs: sizes decide only where these are the same. -/
theorem compare_eq_compare_number {u v : UnpackedFloat} (hu : Aligned u) (hv : Aligned v) :
    u.compare v = some (compare (number u) (number v)) := by
  have size {m : Nat} (e : Int) (h : 0 < m) : (0 : ℚ) < m * 2 ^ e := by
    have : (0 : ℚ) < m := by exact_mod_cast h
    positivity
  have less {a b : ℚ} (h : a < b) : some Ordering.lt = some (compare a b) := by
    rw [compare_lt_iff_lt.mpr h]
  have greater {a b : ℚ} (h : b < a) : some Ordering.gt = some (compare a b) := by
    rw [compare_gt_iff_gt.mpr h]
  cases hu with
  | zero s =>
    cases hv with
    | zero t => exact congrArg some (compare_eq_iff_eq.mpr rfl).symm
    | @finite t n f pos =>
      cases t with
      | negative => exact greater (neg_lt_zero.mpr (size f pos))
      | positive => exact less (size f pos)
  | @finite s m e pos short low full =>
    cases hv with
    | zero t =>
      cases s with
      | negative => exact less (neg_lt_zero.mpr (size e pos))
      | positive => exact greater (size e pos)
    | @finite t n f pos' short' low' full' =>
      have sizes := compare_sizes short short' low low' full full'
      cases s <;> cases t
      case negative.negative =>
        show some (Ordering.swap _) = some (compare (-(_ : ℚ)) (-_))
        rw [sizes, compare_neg_neg]
      case negative.positive => exact less ((neg_lt_zero.mpr (size e pos)).trans (size f pos'))
      case positive.negative => exact greater ((neg_lt_zero.mpr (size f pos')).trans (size e pos))
      case positive.positive => exact congrArg some sizes

/-! ## Comparison of floats -/

section

variable {x y : Float} (hx : x.isFinite = true) (hy : y.isFinite = true)

include hx hy

theorem compare_eq_compare_exact :
    x.toModel.unpack.compare y.toModel.unpack = some (compare (exact x) (exact y)) := by
  rw [exact_eq_number hx, exact_eq_number hy]
  exact compare_eq_compare_number (aligned_unpack hx) (aligned_unpack hy)

theorem lt_iff_exact_lt : x < y ↔ exact x < exact y := by
  have decided : x < y ↔ (x.toModel.unpack.compare y.toModel.unpack == some .lt) = true := by
    show decide (x.toModel.unpack.lt y.toModel.unpack = true) = true ↔ _
    rw [decide_eq_true_iff]
    rfl
  rw [decided, compare_eq_compare_exact hx hy, ← compare_lt_iff_lt]
  simp

theorem beq_iff_exact_eq : (x == y) = true ↔ exact x = exact y := by
  have decided : (x == y) = (x.toModel.unpack.compare y.toModel.unpack == some .eq) := rfl
  rw [decided, compare_eq_compare_exact hx hy, ← compare_eq_iff_eq]
  simp

end

theorem unpacked_beq_self (u : UnpackedFloat) : u.beq u = !u.isNaN := by
  cases u with
  | infinity s => cases s <;> rfl
  | notANumber => rfl
  | zero s => rfl
  | finite s m e pos =>
    have same : (compare e e).then (compare m m) = .eq := by
      rw [compare_eq_iff_eq.mpr rfl, compare_eq_iff_eq.mpr rfl]
      rfl
    cases s with
    | negative => exact congrArg (fun o => some (Ordering.swap o) == some .eq) same
    | positive => exact congrArg (fun o => some o == some .eq) same

/-- Every float but NaN equals itself. -/
theorem beq_self (x : Float) : (x == x) = !x.isNaN := unpacked_beq_self x.toModel.unpack

end ServerUi.Decimal
