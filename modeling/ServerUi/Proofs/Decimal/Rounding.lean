import Mathlib.Algebra.Order.Round
import Mathlib.Data.Nat.Log
import ServerUi.Proofs.Decimal.Exact

/-! # Rounding and packing

Arithmetic on floats is exact arithmetic on a number of binary digits and a power of two, rounded to
53 digits and packed into bits.  `roundWithAccuracy_eq` says what rounding does to the digits, and
`unpack_pack_finite` what comes back out of the bits.  The size of a float is measured by the power
of two at its leading digit, for that is what rounding changes by at most one.
-/

namespace ServerUi.Decimal

open Float.Model Float.Model.UnpackedFloat

/-- The power of two at the leading digit of `m * 2 ^ e`. -/
def lead (m : Nat) (e : Int) : Int := m.log2 + e

/-- How many binary digits of `m * 2 ^ e` are below the least digit of a float. -/
def excess (m : Nat) (e : Int) : Nat := (max (lead m e - 52) (-1074) - e).toNat

/-- A float of a sign and a size that may be zero. -/
def signed (s : Sign) (m : Nat) (e : Int) : UnpackedFloat :=
  if h : m = 0 then .zero s else .finite s m e (Nat.pos_of_ne_zero h)

/-! ## Leading digits -/

theorem log2_div_two_pow (m k : Nat) : (m / 2 ^ k).log2 = m.log2 - k := by
  rw [Nat.log2_eq_log_two, Nat.log2_eq_log_two, Nat.log_div_base_pow]

theorem lead_div {m k : Nat} (e : Int) (h : m / 2 ^ k ≠ 0) :
    lead (m / 2 ^ k) (e + k) = lead m e := by
  have enough : k ≤ m.log2 := by
    by_contra short
    exact h (Nat.div_eq_of_lt (Nat.lt_of_lt_of_le Nat.lt_log2_self
      (Nat.pow_le_pow_right (by decide) (by omega))))
  rw [lead, lead, log2_div_two_pow]
  omega

theorem lead_shiftLeft {m : Nat} (h : m ≠ 0) (k : Nat) (e : Int) :
    lead (m <<< k) e = lead m (e + k) := by
  have back : m <<< k / 2 ^ k = m := by
    rw [Nat.shiftLeft_eq, Nat.mul_div_cancel _ (by positivity)]
  have := lead_div (m := m <<< k) (k := k) e (by rw [back]; exact h)
  rw [← this, back]

theorem log2_le_log2 {m n : Nat} (h : m ≤ n) : m.log2 ≤ n.log2 := by
  rw [Nat.log2_eq_log_two, Nat.log2_eq_log_two]
  exact Nat.log_mono_right h

theorem log2_succ_le {m : Nat} : (m + 1).log2 ≤ m.log2 + 1 := by
  have := Nat.lt_log2_self (n := m)
  rw [← Nat.lt_succ_iff, Nat.log2_lt (by omega)]
  rw [pow_succ]
  omega

/-! ## Rounding -/

theorem mantissa_shiftRight (em : ExtendedMantissa) (k : Nat) :
    (em >>> k).mantissa = em.mantissa / 2 ^ k := by
  induction k with
  | zero => simp [HShiftRight.hShiftRight, Nat.repeat]
  | succ k ih =>
    show (em >>> k).mantissa / 2 = em.mantissa / 2 ^ (k + 1)
    rw [ih, Nat.div_div_eq_div_mul, Nat.pow_succ]

theorem roundedMantissa_bounds (em : ExtendedMantissa) :
    em.mantissa ≤ em.roundedMantissa ∧ em.roundedMantissa ≤ em.mantissa + 1 := by
  obtain ⟨m, round, sticky⟩ := em
  cases round <;> cases sticky <;>
    simp only [ExtendedMantissa.roundedMantissa, ExtendedMantissa.accuracy,
      Accuracy.roundToNearestEven] <;> omega

theorem targetExponent_eq (t : Int) :
    Format.binary64.targetExponent t = max (t - 53) (-1074) := rfl

theorem targetExponent_sub (m : Nat) (e : Int) :
    (Format.binary64.targetExponent (totalExponent m e) - e).toNat = excess m e := by
  rw [targetExponent_eq, totalExponent, excess, lead]
  omega

theorem shiftToTargetExponent_eq (m : Nat) (e : Int) (a : Accuracy) :
    (shiftToTargetExponent .binary64 m e a).1.mantissa = m / 2 ^ excess m e ∧
      (shiftToTargetExponent .binary64 m e a).2 = e + excess m e := by
  have start : (ExtendedMantissa.ofMantissaAndAccuracy m a).mantissa = m := by
    rcases a with _ | (_ | _ | _) <;> rfl
  simp only [shiftToTargetExponent, shiftToExponent, targetExponent_sub, mantissa_shiftRight, start,
    true_and]

/-- What is left of the digits after the first cut is rounded, and cut once more. -/
theorem roundWithAccuracy_of_rounded {m r : Nat} {e : Int} {a : Accuracy}
    (first : (shiftToTargetExponent .binary64 m e a).1.roundedMantissa = r) (s : Sign) :
    roundWithAccuracy .binary64 s m e a =
      signed s (r / 2 ^ excess r (e + excess m e))
        (e + excess m e + excess r (e + excess m e)) := by
  have place := (shiftToTargetExponent_eq m e a).2
  obtain ⟨cut, place'⟩ := shiftToTargetExponent_eq r (e + excess m e) .exact
  subst first
  rw [← cut, ← place', ← place]
  rfl

/-- Rounding cuts the excess off, adds at most one to the last digit, and if that makes another
digit cuts it off as well. -/
theorem roundWithAccuracy_eq (s : Sign) (m : Nat) (e : Int) (a : Accuracy) :
    ∃ r, m / 2 ^ excess m e ≤ r ∧ r ≤ m / 2 ^ excess m e + 1 ∧
      roundWithAccuracy .binary64 s m e a =
        signed s (r / 2 ^ excess r (e + excess m e))
          (e + excess m e + excess r (e + excess m e)) := by
  have near := roundedMantissa_bounds (shiftToTargetExponent .binary64 m e a).1
  rw [(shiftToTargetExponent_eq m e a).1] at near
  exact ⟨_, near.1, near.2, roundWithAccuracy_of_rounded rfl s⟩

theorem roundWithAccuracy_normal {m : Nat} {e : Int} (bits : 52 ≤ m.log2)
    (normal : -1022 ≤ lead m e) (s : Sign) (a : Accuracy) :
    ∃ r f h, roundWithAccuracy .binary64 s m e a = .finite s r f h ∧ r.log2 = 52 ∧
      lead m e ≤ lead r f ∧ lead r f ≤ lead m e + 1 := by
  obtain ⟨r, below, above, eq⟩ := roundWithAccuracy_eq s m e a
  have cut : excess m e = m.log2 - 52 := by
    unfold excess lead at *
    omega
  have digits : (m / 2 ^ excess m e).log2 = 52 := by
    rw [log2_div_two_pow]
    omega
  have least := log2_le_log2 below
  have most : r.log2 ≤ 53 := by
    have := (log2_le_log2 above).trans log2_succ_le
    omega
  have again : excess r (e + excess m e) = r.log2 - 52 := by
    unfold excess lead at *
    omega
  have final : (r / 2 ^ excess r (e + excess m e)).log2 = 52 := by
    rw [log2_div_two_pow]
    omega
  have nonzero : r / 2 ^ excess r (e + excess m e) ≠ 0 := by
    intro zero
    rw [zero] at final
    cases final
  refine ⟨_, _, Nat.pos_of_ne_zero nonzero, eq.trans (dif_neg nonzero), final, ?_⟩
  rw [lead_div _ nonzero]
  unfold lead at *
  omega

/-! ## Through the bits -/

theorem toNat_one_append (m : BitVec 52) : (1#1 ++ m).toNat = 2 ^ 52 + m.toNat := by
  rw [BitVec.toNat_append, ← Nat.shiftLeft_add_eq_or_of_lt m.isLt]
  rfl

theorem finite_eq_signed {s : Sign} {m n : Nat} {e f : Int} {h : 0 < m} (digits : m = n)
    (place : e = f) : .finite s m e h = signed s n f := by
  subst digits place
  rw [signed, dif_neg h.ne']

/-- The float of a sign, an exponent and digits: the greatest exponent is kept for what is not
finite, and the least leaves the first digit out. -/
theorem unpack_eq (b : BitVec 64) :
    UnpackedFloat.unpack .binary64 b =
      if @unpackExponent .binary64 b = -1#11 then
        (if @unpackMantissa .binary64 b = 0#52 then
          .infinity (.ofBitVec (@unpackSign .binary64 b)) else .notANumber)
      else if @unpackExponent .binary64 b = 0#11 then
        signed (.ofBitVec (@unpackSign .binary64 b))
          (@unpackMantissa .binary64 b).toNat (-1074)
      else signed (.ofBitVec (@unpackSign .binary64 b))
        (2 ^ 52 + (@unpackMantissa .binary64 b).toNat)
        ((@unpackExponent .binary64 b).toNat - 1075) := by
  by_cases top : @unpackExponent .binary64 b = -1#11
  · rw [if_pos top]
    exact if_pos top
  · rw [if_neg top]
    refine (if_neg top).trans ?_
    by_cases least : @unpackExponent .binary64 b = 0#11
    · rw [if_pos least, if_pos least]
      by_cases zero : @unpackMantissa .binary64 b = 0#52
      · refine (dif_pos zero).trans ?_
        rw [zero]
        rfl
      · refine (dif_neg zero).trans (finite_eq_signed rfl ?_)
        rw [least]
        rfl
    · rw [if_neg least, if_neg least]
      exact finite_eq_signed (toNat_one_append _) rfl

theorem sign_packComponents (s : Sign) (e : BitVec 11) (m : BitVec 52) :
    Sign.ofBitVec (@unpackSign .binary64 (packComponents .binary64 s e m)) = s := by
  have first : @unpackSign .binary64 (packComponents .binary64 s e m) = s.toBitVec := by
    show (s.toBitVec ++ e ++ m).extractLsb' 63 1 = s.toBitVec
    ext i hi
    obtain rfl : i = 0 := by omega
    rw [BitVec.getElem_extractLsb', BitVec.getLsbD_append, BitVec.getLsbD_append]
    exact BitVec.getLsbD_eq_getElem hi
  rw [first]
  cases s <;> rfl

theorem unpack_packComponents (s : Sign) (e : BitVec 11) (m : BitVec 52) :
    UnpackedFloat.unpack .binary64 (packComponents .binary64 s e m) =
      if e = -1#11 then (if m = 0#52 then .infinity s else .notANumber)
      else if e = 0#11 then signed s m.toNat (-1074)
      else signed s (2 ^ 52 + m.toNat) (e.toNat - 1075) := by
  rw [unpack_eq, unpackExponent_packComponents, unpackMantissa_packComponents, sign_packComponents]

theorem signed_cases (s : Sign) (m : Nat) (e : Int) :
    (m = 0 ∧ signed s m e = .zero s) ∨ ∃ h, signed s m e = .finite s m e h := by
  by_cases zero : m = 0
  · exact .inl ⟨zero, dif_pos zero⟩
  · exact .inr ⟨_, dif_neg zero⟩

theorem isFinite_signed (s : Sign) (m : Nat) (e : Int) : (signed s m e).isFinite = true := by
  rcases signed_cases s m e with ⟨-, eq⟩ | ⟨_, eq⟩ <;> rw [eq] <;> rfl

theorem isNaN_signed (s : Sign) (m : Nat) (e : Int) : (signed s m e).isNaN = false := by
  rcases signed_cases s m e with ⟨-, eq⟩ | ⟨_, eq⟩ <;> rw [eq] <;> rfl

theorem eq_of_signed {s t : Sign} {m n : Nat} {e f : Int} {h : 0 < n}
    (same : signed s m e = .finite t n f h) : s = t ∧ m = n ∧ e = f := by
  rcases signed_cases s m e with ⟨-, eq⟩ | ⟨_, eq⟩
  · cases eq.symm.trans same
  · cases eq.symm.trans same
    exact ⟨rfl, rfl, rfl⟩

/-- The greatest exponent is kept for what is not finite. -/
theorem unpackExponent_ne_top {b : BitVec 64}
    (finite : (UnpackedFloat.unpack .binary64 b).isFinite = true) :
    @unpackExponent .binary64 b ≠ -1#11 := by
  intro top
  rw [unpack_eq, if_pos top] at finite
  by_cases zero : @unpackMantissa .binary64 b = 0#52
  · rw [if_pos zero] at finite
    cases finite
  · rw [if_neg zero] at finite
    cases finite

theorem exponent_le_of_unpack {v : Float.Model} {s : Sign} {m : Nat} {e : Int} {h : 0 < m}
    (unpacked : v.unpack = .finite s m e h) : e ≤ 971 := by
  have field := (@unpackExponent .binary64 v.toBits.toBitVec).isLt
  change _ < 2 ^ 11 at field
  rw [Float.Model.unpack] at unpacked
  have top := unpackExponent_ne_top (congrArg UnpackedFloat.isFinite unpacked)
  have notTop : (@unpackExponent .binary64 v.toBits.toBitVec).toNat ≠ 2047 := by
    intro full
    refine top ?_
    rw [← BitVec.toNat_inj, full]
    rfl
  rw [unpack_eq, if_neg top] at unpacked
  by_cases least : @unpackExponent .binary64 v.toBits.toBitVec = 0#11
  · rw [if_pos least] at unpacked
    obtain ⟨-, -, place⟩ := eq_of_signed unpacked
    omega
  · rw [if_neg least] at unpacked
    obtain ⟨-, -, place⟩ := eq_of_signed unpacked
    omega

/-- What the bits keep of a float whose exponent is not too large. -/
theorem unpack_pack_finite {s : Sign} {m : Nat} {e : Int} (h : 0 < m) (high : e ≤ 971) :
    (Float.Model.pack (.finite s m e h)).unpack =
      if m.log2 = 52 ∧ -1074 ≤ e then .finite s m e h else signed s (m % 2 ^ 52) (-1074) := by
  have bias : (e + (Format.binary64.exponentBias : Int) + (52 : Nat)).toNat = (e + 1075).toNat := by
    show (e + 1023 + 52).toNat = _
    omega
  have digits : (BitVec.ofNat 52 m).toNat = m % 2 ^ 52 := BitVec.toNat_ofNat m 52
  have expo : (BitVec.ofNat 11 (e + 1075).toNat).toNat = (e + 1075).toNat := by
    rw [BitVec.toNat_ofNat, Nat.mod_eq_of_lt (by omega)]
  have zero : -1074 ≤ e ↔ ¬ BitVec.ofNat 11 (e + 1075).toNat = 0#11 := by
    rw [← BitVec.toNat_inj, expo]
    show _ ↔ ¬ _ = 0
    omega
  have top : ¬ BitVec.ofNat 11 (e + 1075).toNat = -1#11 := by
    rw [← BitVec.toNat_inj, expo]
    show ¬ _ = 2047
    omega
  have fits : ¬ 2 ^ 11 ≤ (e + (Format.binary64.exponentBias : Int) + (52 : Nat)).toNat + 1 := by
    rw [bias]
    omega
  have packed : UnpackedFloat.pack .binary64 (.finite s m e h) =
      if m.log2 + 1 = 53 then
        packComponents .binary64 s (BitVec.ofNat 11 (e + 1075).toNat) (BitVec.ofNat 52 m)
      else packComponents .binary64 s 0#11 (BitVec.ofNat 52 m) := by
    rw [← bias]
    exact if_neg fits
  show UnpackedFloat.unpack .binary64 (UnpackedFloat.pack .binary64 (.finite s m e h)) = _
  rw [packed]
  by_cases full : m.log2 = 52
  · have bounds := (Nat.log2_eq_iff h.ne').mp full
    have whole : 2 ^ 52 + m % 2 ^ 52 = m := by omega
    rw [if_pos (by rw [full]), unpack_packComponents, if_neg top]
    by_cases least : -1074 ≤ e
    · rw [if_neg (zero.mp least), if_pos ⟨full, least⟩, digits, expo, whole]
      have place : ((e + 1075).toNat : Int) - 1075 = e := by omega
      rw [place, signed, dif_neg h.ne']
    · rw [if_pos (not_not.mp (mt zero.mpr least)), if_neg (fun h => least h.2), digits]
  · rw [if_neg (by omega), unpack_packComponents, if_neg (by decide), if_pos rfl,
      if_neg (fun h => full h.1), digits]

theorem unpack_pack_full {s : Sign} {m : Nat} {e : Int} (h : 0 < m) (full : m.log2 = 52)
    (low : -1074 ≤ e) (high : e ≤ 971) :
    (Float.Model.pack (.finite s m e h)).unpack = .finite s m e h :=
  (unpack_pack_finite h high).trans (if_pos ⟨full, low⟩)

theorem exists_signed_unpack_pack {s : Sign} {m : Nat} {e : Int} (h : 0 < m) (high : e ≤ 971) :
    ∃ n f, (Float.Model.pack (.finite s m e h)).unpack = signed s n f := by
  by_cases kept : m.log2 = 52 ∧ -1074 ≤ e
  · exact ⟨m, e, (unpack_pack_full h kept.1 kept.2 high).trans (finite_eq_signed rfl rfl)⟩
  · exact ⟨_, _, (unpack_pack_finite h high).trans (if_neg kept)⟩

/-! ## The exact value -/

theorem toNat_unpackExponent (b : BitVec 64) :
    (@unpackExponent .binary64 b).toNat = b.toNat / 2 ^ 52 % 2 ^ 11 := by
  simp [unpackExponent, BitVec.extractLsb, BitVec.extractLsb', Nat.shiftRight_eq_div_pow]

theorem toNat_unpackMantissa (b : BitVec 64) :
    (@unpackMantissa .binary64 b).toNat = b.toNat % 2 ^ 52 := by
  simp [unpackMantissa, BitVec.extractLsb, BitVec.extractLsb']

theorem toNat_unpackSign (b : BitVec 64) :
    (@unpackSign .binary64 b).toNat = b.toNat / 2 ^ 63 := by
  have bit : (@unpackSign .binary64 b).toNat = b.toNat / 2 ^ 63 % 2 := by
    delta unpackSign
    simp [BitVec.extractLsb, BitVec.extractLsb', Nat.shiftRight_eq_div_pow]
  omega

theorem exponentBits_eq (x : Float) :
    ((x.toBits >>> 52) &&& 0x7FF).toNat =
      (@unpackExponent .binary64 x.toModel.toBits.toBitVec).toNat := by
  rw [toNat_unpackExponent, UInt64.toNat_and, UInt64.toNat_shiftRight]
  show x.toBits.toNat >>> 52 &&& 2 ^ 11 - 1 = _
  rw [Nat.and_two_pow_sub_one_eq_mod, Nat.shiftRight_eq_div_pow]
  rfl

theorem mantissaBits_eq (x : Float) :
    (x.toBits &&& 0xFFFFFFFFFFFFF).toNat =
      (@unpackMantissa .binary64 x.toModel.toBits.toBitVec).toNat := by
  rw [toNat_unpackMantissa, UInt64.toNat_and]
  show x.toBits.toNat &&& 2 ^ 52 - 1 = _
  rw [Nat.and_two_pow_sub_one_eq_mod]
  rfl

def withSign : Sign → ℚ → ℚ
  | .positive, v => v
  | .negative, v => -v

/-- The rational number that a finite float stands for. -/
def number : UnpackedFloat → ℚ
  | .finite s m e _ => withSign s (m * 2 ^ e)
  | _ => 0

theorem number_signed (s : Sign) (m : Nat) (e : Int) :
    number (signed s m e) = withSign s (m * 2 ^ e) := by
  rcases signed_cases s m e with ⟨zero, eq⟩ | ⟨_, eq⟩
  · rw [eq, zero]
    show 0 = withSign s ((0 : Nat) * 2 ^ e)
    cases s <;> simp [withSign]
  · rw [eq]
    rfl

theorem exact_eq_withSign (x : Float) :
    exact x = withSign (.ofBitVec (@unpackSign .binary64 x.toModel.toBits.toBitVec))
      (Binary.ofFloat x).value := by
  have bit : (@unpackSign .binary64 x.toModel.toBits.toBitVec).toNat =
      (x.toBits >>> 63).toNat := by
    rw [toNat_unpackSign, UInt64.toNat_shiftRight]
    show _ = x.toBits.toNat >>> 63
    rw [Nat.shiftRight_eq_div_pow]
    rfl
  have negative : isNegative x =
      decide (@unpackSign .binary64 x.toModel.toBits.toBitVec = 1#1) := by
    rw [isNegative, Bool.eq_iff_iff, beq_iff_eq, decide_eq_true_iff, ← UInt64.toNat_inj, ← bit,
      ← BitVec.toNat_inj]
    rfl
  rw [exact, negative]
  generalize @unpackSign .binary64 x.toModel.toBits.toBitVec = b
  obtain rfl | rfl := BitVec.eq_zero_or_eq_one b <;> rfl

/-- The exact value of a finite float is that of its model. -/
theorem exact_eq_number {x : Float} (finite : x.isFinite = true) :
    exact x = number x.toModel.unpack := by
  change x.toModel.unpack.isFinite = true at finite
  have zero : @unpackExponent .binary64 x.toModel.toBits.toBitVec = 0#11 ↔
      ((x.toBits >>> 52) &&& 0x7FF).toNat = 0 := by
    rw [exponentBits_eq, ← BitVec.toNat_inj]
    rfl
  rw [exact_eq_withSign, Float.Model.unpack, unpack_eq, if_neg (unpackExponent_ne_top finite)]
  by_cases least : @unpackExponent .binary64 x.toModel.toBits.toBitVec = 0#11
  · rw [if_pos least, number_signed, ← mantissaBits_eq]
    simp [Binary.value, Binary.ofFloat, zero.mp least]
  · rw [if_neg least, number_signed, ← mantissaBits_eq, ← exponentBits_eq]
    simp only [Binary.value, Binary.ofFloat, if_neg (mt zero.mpr least), Nat.pow_eq]

theorem exact_of_unpack {x : Float} {s : Sign} {m : Nat} {e : Int} {h : 0 < m}
    (unpacked : x.toModel.unpack = .finite s m e h) :
    x.isFinite = true ∧ exact x = withSign s (m * 2 ^ e) := by
  have finite : x.isFinite = true := by
    show x.toModel.unpack.isFinite = true
    rw [unpacked]
    rfl
  exact ⟨finite, by rw [exact_eq_number finite, unpacked]; rfl⟩

end ServerUi.Decimal
