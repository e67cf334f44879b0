import ServerUi.Proofs.Decimal.Comparing
import ServerUi.Proofs.Decimal.Magnitude

/-! # What leaves the finite floats

An operation on finite floats gives a finite float or an infinity: a result that is no number comes
of an infinity, or of a division by zero.  A remainder is always finite.
-/

namespace ServerUi.Decimal

open Float.Model Float.Model.UnpackedFloat

/-! ## Sums, products and quotients -/

theorem isNaN_roundWithAccuracy (s : Sign) (m : Nat) (e : Int) (a : Accuracy) :
    (roundWithAccuracy .binary64 s m e a).isNaN = false := by
  obtain ⟨r, -, -, eq⟩ := roundWithAccuracy_eq s m e a
  rw [eq]
  exact isNaN_signed _ _ _

theorem isNaN_normalize (m e : Int) (s : Sign) :
    (UnpackedFloat.normalize .binary64 m e s).isNaN = false := by
  unfold UnpackedFloat.normalize
  split
  · exact isNaN_roundWithAccuracy _ _ _ _
  · rfl
  · exact isNaN_roundWithAccuracy _ _ _ _

variable {u v : UnpackedFloat}

theorem isNaN_add (hu : u.isFinite = true) (hv : v.isFinite = true) :
    (UnpackedFloat.add .binary64 u v).isNaN = false := by
  cases u with
  | infinity s => cases hu
  | notANumber => cases hu
  | zero s =>
    cases v with
    | infinity t => cases hv
    | notANumber => cases hv
    | zero t => cases s <;> cases t <;> rfl
    | finite t n f positive => rfl
  | finite s m e pos =>
    cases v with
    | infinity t => cases hv
    | notANumber => cases hv
    | zero t => rfl
    | finite t n f positive => exact isNaN_normalize _ _ _

/-- A difference is the sum with the opposite. -/
theorem unpacked_sub_eq (u v : UnpackedFloat) :
    UnpackedFloat.sub .binary64 u v = UnpackedFloat.add .binary64 u v.neg := by
  have opposite (s : Sign) (n : Int) : (-s).apply n = -s.apply n := by
    cases s
    · exact (Int.neg_neg n).symm
    · rfl
  cases u with
  | finite s m e pos =>
    cases v with
    | finite t n f positive =>
      show UnpackedFloat.normalize .binary64 (_ - _) _ _ =
        UnpackedFloat.normalize .binary64 (_ + _) _ _
      rw [opposite, ← Int.sub_eq_add_neg]
    | zero t => rfl
    | infinity t => rfl
    | notANumber => rfl
  | zero s => cases v <;> rfl
  | infinity s => cases v <;> rfl
  | notANumber => cases v <;> rfl

theorem isNaN_sub (hu : u.isFinite = true) (hv : v.isFinite = true) :
    (UnpackedFloat.sub .binary64 u v).isNaN = false := by
  rw [unpacked_sub_eq]
  refine isNaN_add hu ?_
  cases v <;> first | rfl | cases hv

theorem isNaN_div (hu : u.isFinite = true) (hv : v.isFinite = true)
    (nonzero : ∀ s, v ≠ .zero s) : (UnpackedFloat.div .binary64 u v).isNaN = false := by
  cases v with
  | infinity t => cases hv
  | notANumber => cases hv
  | zero t => exact absurd rfl (nonzero t)
  | finite t n f positive =>
    cases u with
    | infinity s => cases hu
    | notANumber => cases hu
    | zero s => rfl
    | finite s m e pos => exact isNaN_roundWithAccuracy _ _ _ _

theorem beq_zero_of_unpack {y : Float} {s : Sign} (h : y.toModel.unpack = .zero s) :
    (y == 0) = true := by
  show (y.toModel.unpack.compare (0 : Float).toModel.unpack == some .eq) = true
  rw [h]
  cases s <;> rfl

/-- A number is finite or an infinity. -/
theorem isFinite_or_isInf {z : Float} (number : z.isNaN = false) :
    z.isFinite = true ∨ z.isInf = true := by
  by_cases infinite : z.isInf = true
  · exact .inr infinite
  · exact .inl (isFinite_of_number number infinite)

section

variable {x y : Float} (hx : x.isFinite = true) (hy : y.isFinite = true)

include hx hy

theorem add_isFinite_or_isInf : (x + y).isFinite = true ∨ (x + y).isInf = true :=
  isFinite_or_isInf (isNaN_unpack_pack (isNaN_add hx hy))

theorem sub_isFinite_or_isInf : (x - y).isFinite = true ∨ (x - y).isInf = true :=
  isFinite_or_isInf (isNaN_unpack_pack (isNaN_sub hx hy))

theorem mul_isFinite_or_isInf : (x * y).isFinite = true ∨ (x * y).isInf = true :=
  isFinite_or_isInf (isNaN_unpack_pack (isNaN_mul hx hy))

theorem div_isFinite_or_isInf (nonzero : ¬ (y == 0) = true) :
    (x / y).isFinite = true ∨ (x / y).isInf = true :=
  isFinite_or_isInf
    (isNaN_unpack_pack (isNaN_div hx hy fun _ zero => nonzero (beq_zero_of_unpack zero)))

end

/-! ## Remainders -/

/-- Bits whose exponent is not the greatest are those of a finite float. -/
theorem isFinite_ofBits {b : UInt64} (h : b.toNat / 2 ^ 52 % 2 ^ 11 < 2047) :
    (Float.ofBits b).isFinite = true := by
  have field : (@unpackExponent .binary64 b.toBitVec).toNat = b.toNat / 2 ^ 52 % 2 ^ 11 :=
    toNat_unpackExponent _
  have notTop : ¬ @unpackExponent .binary64 b.toBitVec = -1#11 := by
    rw [← BitVec.toNat_inj, field]
    show ¬ _ = 2047
    omega
  have kept {s : Sign} {m : Nat} {e : Int} (high : e ≤ 971) :
      (Float.Model.pack (signed s m e)).unpack.isFinite = true := by
    rcases signed_cases s m e with ⟨-, eq⟩ | ⟨positive, eq⟩
    · rw [eq]
      cases s <;> rfl
    · obtain ⟨n, f, unpacked⟩ := exists_signed_unpack_pack (s := s) positive high
      rw [eq, unpacked]
      exact isFinite_signed _ _ _
  show (Float.Model.pack (UnpackedFloat.unpack .binary64 b.toBitVec)).unpack.isFinite = true
  rw [unpack_eq, if_neg notTop]
  split
  · exact kept (by decide)
  · exact kept (by omega)

/-- Sizes of at most 53 digits that are not too large are finite floats. -/
theorem isFinite_ofSize {m : Nat} {e : Int} (short : m < 2 ^ 53) (high : e ≤ 971) :
    (ofSize m e).isFinite = true := by
  unfold ofSize
  split
  · rfl
  · rename_i nonzero
    dsimp only
    have digits : m.log2 ≤ 52 := by
      have := (Nat.log2_lt nonzero).mpr short
      omega
    generalize shifted : min (52 - m.log2) (e + 1074).toNat = k
    have few : m <<< k < 2 ^ 53 := by
      have place := lead_shiftLeft nonzero k 0
      have positive : m <<< k ≠ 0 := by
        rw [Nat.shiftLeft_eq]
        positivity
      refine (Nat.log2_lt positive).mp ?_
      unfold lead at place
      omega
    generalize m <<< k = n at few
    simp only [Nat.pow_eq]
    split
    · refine isFinite_ofBits ?_
      rw [Nat.toUInt64_eq, UInt64.toNat_ofNat', Nat.mod_eq_of_lt (by omega)]
      omega
    · refine isFinite_ofBits ?_
      rw [Nat.shiftLeft_eq, Nat.toUInt64_eq, UInt64.toNat_ofNat', Nat.mod_eq_of_lt (by omega)]
      omega

/-- The size of a finite float has at most 53 digits and is not too large. -/
theorem Binary.ofFloat_bounds {x : Float} (finite : x.isFinite = true) :
    (Binary.ofFloat x).significand < 2 ^ 53 ∧ (Binary.ofFloat x).exponent ≤ 971 := by
  have digits := (@unpackMantissa .binary64 x.toModel.toBits.toBitVec).isLt
  have field := (@unpackExponent .binary64 x.toModel.toBits.toBitVec).isLt
  change _ < 2 ^ 52 at digits
  change _ < 2 ^ 11 at field
  have notTop : ((x.toBits >>> 52) &&& 0x7FF).toNat ≠ 2047 := by
    intro top
    rw [exponentBits_eq] at top
    have full : @unpackExponent .binary64 x.toModel.toBits.toBitVec = -1#11 := by
      rw [← BitVec.toNat_inj, top]
      rfl
    exact unpackExponent_ne_top finite full
  rw [← mantissaBits_eq] at digits
  rw [← exponentBits_eq] at field
  unfold Binary.ofFloat
  dsimp only
  simp only [Nat.pow_eq]
  split <;> dsimp only <;> omega

theorem Binary.significand_ne_zero {y : Float} (finite : y.isFinite = true)
    (nonzero : ¬ (y == 0) = true) : (Binary.ofFloat y).significand ≠ 0 := by
  intro zero
  have none : exact (0 : Float) = 0 := by
    rw [exact_eq_number rfl]
    rfl
  refine nonzero ((beq_iff_exact_eq finite rfl).mpr ?_)
  rw [none, exact_eq_withSign, Binary.value, zero, Nat.cast_zero, zero_mul]
  generalize Sign.ofBitVec _ = s
  cases s
  · exact neg_zero
  · rfl

theorem isFinite_iff {x : Float} : x.isFinite = true ↔ x.isNaN = false ∧ x.isInf = false := by
  show x.toModel.unpack.isFinite = true ↔ x.toModel.unpack.isNaN = false ∧
    x.toModel.unpack.isInf = false
  cases x.toModel.unpack with
  | finite s m e pos => exact iff_of_true rfl ⟨rfl, rfl⟩
  | zero s => exact iff_of_true rfl ⟨rfl, rfl⟩
  | infinity s => exact iff_of_false nofun fun h => nomatch h.2
  | notANumber => exact iff_of_false nofun fun h => nomatch h.1

/-- At the lower of both places the remainder is smaller than the divisor and no larger than the
dividend, and one of them stands at that place. -/
theorem isFinite_remainder {x y : Float} (hx : x.isFinite = true) (hy : y.isFinite = true)
    (nonzero : ¬ (y == 0) = true) : (remainder x y).isFinite = true := by
  obtain ⟨short, high⟩ := Binary.ofFloat_bounds hx
  obtain ⟨short', high'⟩ := Binary.ofFloat_bounds hy
  have divisor := Binary.significand_ne_zero hy nonzero
  obtain ⟨number, bounded⟩ := isFinite_iff.mp hx
  obtain ⟨number', bounded'⟩ := isFinite_iff.mp hy
  simp only [remainder, number, bounded, number', bounded', Bool.or_false, Bool.false_or,
    if_neg nonzero, Bool.false_eq_true, if_false]
  generalize Binary.ofFloat x = a at short high ⊢
  generalize Binary.ofFloat y = b at short' high' divisor ⊢
  have size : (ofSize
      ((a.significand <<< (a.exponent - min a.exponent b.exponent).toNat) %
        (b.significand <<< (b.exponent - min a.exponent b.exponent).toNat))
      (min a.exponent b.exponent)).isFinite = true := by
    refine isFinite_ofSize ?_ (by omega)
    rcases le_total a.exponent b.exponent with low | low
    · rw [min_eq_left low, Int.sub_self]
      exact (Nat.mod_le _ _).trans_lt short
    · rw [min_eq_right low, Int.sub_self]
      exact (Nat.mod_lt _ (Nat.pos_of_ne_zero divisor)).trans short'
  split
  · exact isFinite_neg size
  · exact size

end ServerUi.Decimal
