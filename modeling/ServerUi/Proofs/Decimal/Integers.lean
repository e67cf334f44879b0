import ServerUi.Proofs.Decimal.Comparing
import ServerUi.Proofs.Decimal.Magnitude
import ServerUi.Value.Basic

/-! # The float of an integer

An integer becomes the float of the nearest number with 53 binary digits, and of two such numbers
equally near the one whose last digit is even (`exact_floatOfInt`).  So floats of integers are in
the order of the integers, but integers of more than 53 digits may share a float.
-/

namespace ServerUi.Decimal

open Float.Model Float.Model.UnpackedFloat

/-! ## Rounding a natural number -/

/-- The whole number nearest to `m / 2 ^ k`; of two the even one. -/
def halfEven (m k : Nat) : Nat :=
  let q := m / 2 ^ k
  let r := m % 2 ^ k
  if 2 * r < 2 ^ k then q
  else if 2 * r = 2 ^ k then q + q % 2
  else q + 1

/-- The nearest number with 53 binary digits. -/
def shortened (n : Nat) : Nat := halfEven n (n.log2 - 52) * 2 ^ (n.log2 - 52)

theorem halfEven_zero (m : Nat) : halfEven m 0 = m := by
  simp [halfEven, Nat.mod_one]

theorem halfEven_shift (m k j : Nat) : halfEven (m * 2 ^ j) (k + j) = halfEven m k := by
  have unit : 0 < 2 ^ j := by positivity
  have quotient : m * 2 ^ j / 2 ^ (k + j) = m / 2 ^ k := by
    rw [pow_add, Nat.mul_div_mul_right _ _ unit]
  have rest : m * 2 ^ j % 2 ^ (k + j) = m % 2 ^ k * 2 ^ j := by
    rw [pow_add, Nat.mul_mod_mul_right]
  have less : 2 * (m % 2 ^ k * 2 ^ j) < 2 ^ (k + j) ↔ 2 * (m % 2 ^ k) < 2 ^ k := by
    rw [pow_add, ← Nat.mul_assoc]
    exact Nat.mul_lt_mul_right unit
  have half : 2 * (m % 2 ^ k * 2 ^ j) = 2 ^ (k + j) ↔ 2 * (m % 2 ^ k) = 2 ^ k := by
    rw [pow_add, ← Nat.mul_assoc]
    exact Nat.mul_left_inj unit.ne'
  simp only [halfEven, quotient, rest, less, half]

theorem le_halfEven (m k : Nat) : m / 2 ^ k ≤ halfEven m k := by
  unfold halfEven
  dsimp only
  split
  · exact Nat.le_refl _
  · split <;> omega

theorem halfEven_le (m k : Nat) : halfEven m k ≤ m / 2 ^ k + 1 := by
  unfold halfEven
  dsimp only
  split
  · omega
  · split <;> omega

theorem halfEven_mono {m n : Nat} (h : m ≤ n) (k : Nat) : halfEven m k ≤ halfEven n k := by
  have quotients : m / 2 ^ k ≤ n / 2 ^ k := Nat.div_le_div_right h
  rcases Nat.lt_or_eq_of_le quotients with less | same
  · have up := halfEven_le m k
    have down := le_halfEven n k
    omega
  · -- the same quotient: what is cut off decides
    have rests : m % 2 ^ k ≤ n % 2 ^ k := by
      have hm := Nat.div_add_mod m (2 ^ k)
      have hn := Nat.div_add_mod n (2 ^ k)
      rw [same] at hm
      omega
    unfold halfEven
    dsimp only
    rw [same]
    split_ifs <;> omega

theorem shortened_of_lt {n : Nat} (h : n < 2 ^ 53) : shortened n = n := by
  have few : n.log2 - 52 = 0 := by
    rcases Nat.eq_zero_or_pos n with rfl | positive
    · rfl
    · have := (Nat.log2_lt positive.ne').mpr h
      omega
  rw [shortened, few, halfEven_zero, pow_zero, Nat.mul_one]

theorem two_pow_log2_le_shortened {n : Nat} (h : n ≠ 0) : 2 ^ n.log2 ≤ shortened n := by
  have digits : n.log2 = n.log2 - (n.log2 - 52) + (n.log2 - 52) := by omega
  have least : 2 ^ (n.log2 - (n.log2 - 52)) ≤ n / 2 ^ (n.log2 - 52) := by
    rw [Nat.le_div_iff_mul_le (by positivity), ← pow_add, ← digits]
    exact Nat.log2_self_le h
  calc 2 ^ n.log2 = 2 ^ (n.log2 - (n.log2 - 52)) * 2 ^ (n.log2 - 52) := by rw [← pow_add, ← digits]
    _ ≤ halfEven n (n.log2 - 52) * 2 ^ (n.log2 - 52) :=
      Nat.mul_le_mul_right _ (least.trans (le_halfEven _ _))

theorem shortened_le_two_pow (n : Nat) : shortened n ≤ 2 ^ (n.log2 + 1) := by
  have digits : n.log2 + 1 = n.log2 + 1 - (n.log2 - 52) + (n.log2 - 52) := by omega
  have most : n / 2 ^ (n.log2 - 52) < 2 ^ (n.log2 + 1 - (n.log2 - 52)) := by
    rw [Nat.div_lt_iff_lt_mul (by positivity), ← pow_add, ← digits]
    exact Nat.lt_log2_self
  calc halfEven n (n.log2 - 52) * 2 ^ (n.log2 - 52)
      ≤ 2 ^ (n.log2 + 1 - (n.log2 - 52)) * 2 ^ (n.log2 - 52) :=
        Nat.mul_le_mul_right _ ((halfEven_le _ _).trans most)
    _ = 2 ^ (n.log2 + 1) := by rw [← pow_add, ← digits]

/-- Numbers with the same leading digit are cut at the same place; else a power of two stands
between what they become. -/
theorem shortened_mono {m n : Nat} (h : m ≤ n) : shortened m ≤ shortened n := by
  rcases Nat.lt_or_eq_of_le (log2_le_log2 h) with less | same
  · have nonzero : n ≠ 0 := by
      rintro rfl
      exact absurd less (Nat.not_lt_zero _)
    calc shortened m ≤ 2 ^ (m.log2 + 1) := shortened_le_two_pow m
      _ ≤ 2 ^ n.log2 := Nat.pow_le_pow_right (by decide) less
      _ ≤ shortened n := two_pow_log2_le_shortened nonzero
  · rw [shortened, shortened, same]
    exact Nat.mul_le_mul_right _ (halfEven_mono h _)

/-! ## Rounding in the model -/

/-- Behind the point stand one digit by itself and whether there is anything after it. -/
theorem shiftRight_exact (m k : Nat) :
    (ExtendedMantissa.mk m false false) >>> (k + 1) =
      ⟨m / 2 ^ (k + 1), m / 2 ^ k % 2 != 0, m % 2 ^ k != 0⟩ := by
  induction k with
  | zero => simp [HShiftRight.hShiftRight, Nat.repeat, ExtendedMantissa.shiftRightOne, Nat.mod_one]
  | succ k ih =>
    show ((ExtendedMantissa.mk m false false) >>> (k + 1)).shiftRightOne = _
    have digit : m % 2 ^ (k + 1) = m % 2 ^ k + 2 ^ k * (m / 2 ^ k % 2) := by
      rw [pow_succ, Nat.mod_mul]
    have unit : 0 < 2 ^ k := by positivity
    have sticky : (m / 2 ^ k % 2 != 0 || m % 2 ^ k != 0) = (m % 2 ^ (k + 1) != 0) := by
      rw [digit]
      rcases Nat.mod_two_eq_zero_or_one (m / 2 ^ k) with zero | one
      · simp [zero]
      · simp [one]
    rw [ih, ExtendedMantissa.shiftRightOne, Nat.div_div_eq_div_mul, ← pow_succ, sticky]

theorem roundedMantissa_shiftRight (m k : Nat) :
    ((ExtendedMantissa.mk m false false) >>> k).roundedMantissa = halfEven m k := by
  cases k with
  | zero =>
    rw [halfEven_zero]
    rfl
  | succ k =>
    have digit : m % 2 ^ (k + 1) = m % 2 ^ k + 2 ^ k * (m / 2 ^ k % 2) := by
      rw [pow_succ, Nat.mod_mul]
    have below : m % 2 ^ k < 2 ^ k := Nat.mod_lt _ (by positivity)
    have double : 2 ^ (k + 1) = 2 * 2 ^ k := by rw [pow_succ, Nat.mul_comm]
    rw [shiftRight_exact]
    unfold halfEven
    rcases Nat.mod_two_eq_zero_or_one (m / 2 ^ k) with zero | one
    · have low : 2 * (m % 2 ^ (k + 1)) < 2 ^ (k + 1) := by
        rw [digit, zero]
        omega
      rw [if_pos low, zero]
      cases m % 2 ^ k != 0 <;> rfl
    · have high : ¬ 2 * (m % 2 ^ (k + 1)) < 2 ^ (k + 1) := by
        rw [digit, one]
        omega
      have half : 2 * (m % 2 ^ (k + 1)) = 2 ^ (k + 1) ↔ m % 2 ^ k = 0 := by
        rw [digit, one]
        omega
      rw [if_neg high, one]
      by_cases tie : m % 2 ^ k = 0
      · rw [if_pos (half.mpr tie), tie]
        rfl
      · have more : (m % 2 ^ k != 0) = true := bne_iff_ne.mpr tie
        rw [if_neg (mt half.mp tie), more]
        rfl

theorem roundWithAccuracy_exact (s : Sign) (m : Nat) (e : Int) :
    roundWithAccuracy .binary64 s m e .exact =
      signed s (halfEven m (excess m e) /
          2 ^ excess (halfEven m (excess m e)) (e + excess m e))
        (e + excess m e + excess (halfEven m (excess m e)) (e + excess m e)) := by
  refine roundWithAccuracy_of_rounded ?_ s
  simp only [shiftToTargetExponent, shiftToExponent, targetExponent_sub]
  exact roundedMantissa_shiftRight m _

/-- Where all 53 digits are there, what is rounded comes out of the bits as it is. -/
theorem unpack_round {m : Nat} {e : Int} (bits : 52 ≤ m.log2) (low : -1022 ≤ lead m e)
    (high : lead m e ≤ 1022) (s : Sign) :
    ∃ r f h, (Float.Model.pack (roundWithAccuracy .binary64 s m e .exact)).unpack =
        .finite s r f h ∧ r.log2 = 52 ∧ -1074 ≤ f ∧ lead r f ≤ lead m e + 1 ∧
      (r * 2 ^ f : ℚ) = halfEven m (m.log2 - 52) * 2 ^ (e + (m.log2 - 52 : Nat)) := by
  have cut : excess m e = m.log2 - 52 := by
    unfold excess lead at *
    omega
  have quotient : (m / 2 ^ (m.log2 - 52)).log2 = 52 := by
    rw [log2_div_two_pow]
    omega
  have nonzero : m / 2 ^ (m.log2 - 52) ≠ 0 := by
    intro zero
    rw [zero] at quotient
    cases quotient
  obtain ⟨least, most⟩ := (Nat.log2_eq_iff nonzero).mp quotient
  have above := le_halfEven m (m.log2 - 52)
  have below := halfEven_le m (m.log2 - 52)
  rw [roundWithAccuracy_exact, cut]
  generalize halfEven m (m.log2 - 52) = r at *
  have place : -1074 ≤ e + (m.log2 - 52 : Nat) ∧ e + (m.log2 - 52 : Nat) = lead m e - 52 := by
    unfold lead at *
    omega
  generalize e + (m.log2 - 52 : Nat) = f at *
  rcases Nat.lt_or_eq_of_le (below.trans most) with short | carried
  · have digits : r.log2 = 52 := (Nat.log2_eq_iff (by omega)).mpr ⟨by omega, short⟩
    have again : excess r f = 0 := by
      unfold excess lead
      omega
    have place' : lead r f ≤ lead m e + 1 := by
      rw [lead, digits, place.2]
      omega
    refine ⟨r, f, by omega, ?_, digits, place.1, place', rfl⟩
    -- no digit is left to cut, so rounding twice is rounding once
    rw [again, pow_zero, Nat.div_one, Nat.cast_zero, Int.add_zero, signed, dif_neg (by omega)]
    exact unpack_pack_full _ digits place.1 (by omega)
  · -- the carry leaves a one and zeros, of which the last is cut off
    subst carried
    have digits : Nat.log2 (2 ^ (52 + 1)) = 53 := Nat.log2_two_pow
    have again : excess (2 ^ (52 + 1)) f = 1 := by
      unfold excess lead
      omega
    have place' : lead (2 ^ 52) (f + 1) ≤ lead m e + 1 := by
      rw [lead, Nat.log2_two_pow, place.2]
      omega
    refine ⟨2 ^ 52, f + 1, by decide, ?_, Nat.log2_two_pow, by omega, place', ?_⟩
    · rw [again, show 2 ^ (52 + 1) / 2 ^ 1 = 2 ^ 52 from rfl, Nat.cast_one, signed,
        dif_neg (by decide)]
      exact unpack_pack_full _ Nat.log2_two_pow (by omega) (by omega)
    · rw [zpow_add₀ (by norm_num)]
      push_cast
      ring

/-! ## Floats of natural numbers -/

/-- A float with all its digits, of this sign and size, with its leading digit not beyond
`2 ^ k`. -/
def Sized (k : Int) (s : Sign) (n : Nat) (u : UnpackedFloat) : Prop :=
  ∃ r f h, u = .finite s r f h ∧ r.log2 = 52 ∧ -1074 ≤ f ∧ lead r f ≤ k ∧ (r * 2 ^ f : ℚ) = n

theorem Sized.mono {j k : Int} {s : Sign} {n : Nat} {u : UnpackedFloat} (h : Sized j s n u)
    (le : j ≤ k) : Sized k s n u := by
  obtain ⟨r, f, positive, eq, full, low, high, value⟩ := h
  exact ⟨r, f, positive, eq, full, low, high.trans le, value⟩

theorem sized_word {n : Nat} (positive : 0 < n) (small : n < 2 ^ 53) :
    Sized 53 .positive n n.toUInt64.toFloat.toModel.unpack := by
  have word : n.toUInt64.toNat = n := by
    rw [Nat.toUInt64_eq, UInt64.toNat_ofNat', Nat.mod_eq_of_lt (by omega)]
  have short : n.log2 ≤ 52 := by
    have := (Nat.log2_lt positive.ne').mpr small
    omega
  have aligned : UnpackedFloat.normalize .binary64 n 0 .positive =
      roundWithAccuracy .binary64 .positive (n <<< (52 - n.log2)) (-(52 - n.log2 : Nat))
        .exact := by
    have sign : compare (n : Int) 0 = .gt := Int.compare_eq_gt.mpr (by omega)
    have amount : (-Format.binary64.targetExponent (totalExponent n 0)).toNat = 52 - n.log2 := by
      rw [targetExponent_eq, totalExponent]
      omega
    simp only [UnpackedFloat.normalize, sign, UnpackedFloat.round, decreaseExponent, Int.zero_sub,
      amount, Int.toNat_natCast]
  have digits : (n <<< (52 - n.log2)).log2 = 52 := by
    have := lead_shiftLeft positive.ne' (52 - n.log2) 0
    unfold lead at this
    omega
  have place : lead (n <<< (52 - n.log2)) (-(52 - n.log2 : Nat)) = n.log2 := by
    unfold lead
    omega
  -- the digits are moved up to the 53rd place first, so nothing is cut
  obtain ⟨r, f, h, unpacked, full, low, high, value⟩ :=
    unpack_round (e := -(52 - n.log2 : Nat)) digits.ge (by omega) (by omega) .positive
  refine ⟨r, f, h, ?_, full, low, by omega, ?_⟩
  · show (Float.Model.pack (UnpackedFloat.normalize .binary64 n.toUInt64.toNat 0 .positive)).unpack
      = _
    rw [word, aligned, unpacked]
  · have unit : (2 : ℚ) ^ (52 - n.log2) ≠ 0 := by positivity
    rw [value, digits, Nat.sub_self, halfEven_zero, Nat.cast_zero, add_zero, Nat.shiftLeft_eq,
      zpow_neg, zpow_natCast]
    push_cast
    rw [mul_assoc, mul_inv_cancel₀ unit, mul_one]

theorem log2_mul_two_pow {m : Nat} (h : m ≠ 0) (k : Nat) : (m * 2 ^ k).log2 = m.log2 + k := by
  have := lead_shiftLeft h k 0
  rw [Nat.shiftLeft_eq] at this
  unfold lead at this
  omega

theorem unpack_one :
    Float.exactlyRepresentablePowersOfTen[0].toModel.unpack =
      .finite .positive (2 ^ 52) (-52) (by decide) :=
  rfl

/-- The product with one is as large. -/
theorem Sized.mul_one {k : Int} {n : Nat} {x : Float} (le : k ≤ 1022)
    (h : Sized k .positive n x.toModel.unpack) :
    Sized (k + 1) .positive n (x * Float.exactlyRepresentablePowersOfTen[0]).toModel.unpack := by
  obtain ⟨r, f, positive, unpacked, full, low, high, value⟩ := h
  have digits : (r * 2 ^ 52).log2 = 104 := by rw [log2_mul_two_pow positive.ne', full]
  have place : lead (r * 2 ^ 52) (f + -52) = lead r f := by
    unfold lead
    omega
  have least : -1022 ≤ lead r f := by
    unfold lead
    omega
  obtain ⟨r', f', positive', unpacked', full', low', high', value'⟩ :=
    unpack_round (e := f + -52) (by omega : 52 ≤ (r * 2 ^ 52).log2) (by omega) (by omega) .positive
  refine ⟨r', f', positive', ?_, full', low', by omega, ?_⟩
  · show (Float.Model.pack (UnpackedFloat.mul .binary64 x.toModel.unpack
      Float.exactlyRepresentablePowersOfTen[0].toModel.unpack)).unpack = _
    rw [unpacked, unpack_one]
    exact unpacked'
  · have kept := halfEven_shift r 0 52
    rw [Nat.zero_add, halfEven_zero] at kept
    rw [value', digits, kept, ← value]
    norm_num

theorem sized_ofNat {n : Nat} (positive : 0 < n) (small : n < 2 ^ 64) :
    Sized 64 .positive (shortened n) (Float.ofNat n).toModel.unpack := by
  show Sized 64 .positive (shortened n) (Float.ofScientific n false 0).toModel.unpack
  unfold Float.ofScientific
  split
  · -- few digits fit a word whose float is exact, times the zeroth power of ten
    rename_i few
    rw [shortened_of_lt few.1]
    exact ((sized_word positive few.1).mul_one (by decide)).mono (by decide)
  · -- more digits are moved up by 53 places before the decimal rounding
    rename_i many
    have large : 2 ^ 53 ≤ n := by omega
    have bits : 53 ≤ n.log2 := (Nat.le_log2 positive.ne').mpr large
    have most : n.log2 < 64 := (Nat.log2_lt positive.ne').mpr small
    have digits : ((n * 10 ^ 0) <<< 53).log2 = n.log2 + 53 := by
      rw [pow_zero, Nat.mul_one, Nat.shiftLeft_eq, log2_mul_two_pow positive.ne']
    have place : lead ((n * 10 ^ 0) <<< 53) (-53) = n.log2 := by
      unfold lead
      omega
    obtain ⟨r, f, h, unpacked, full, low, high, value⟩ :=
      unpack_round (e := -53) (by omega : 52 ≤ ((n * 10 ^ 0) <<< 53).log2) (by omega) (by omega)
        .positive
    refine ⟨r, f, h, ?_, full, low, by omega, ?_⟩
    · show (Float.Model.pack (UnpackedFloat.ofScientific .binary64 n (0 : Nat))).unpack = _
      rw [ofScientific_eq positive.ne' (by decide), unpacked]
    · have shift : n.log2 + 53 - 52 = n.log2 - 52 + 53 := by omega
      rw [value, digits, shift, pow_zero, Nat.mul_one, Nat.shiftLeft_eq, halfEven_shift, shortened]
      push_cast
      rw [← zpow_natCast]
      norm_num

/-! ## Floats of integers -/

/-- The nearest integer with 53 binary digits. -/
def rounded : Int → Int
  | .ofNat n => shortened n
  | .negSucc n => -shortened (n + 1)

theorem Sized.neg {k : Int} {n : Nat} {x : Float} (le : k ≤ 1023)
    (h : Sized k .positive n x.toModel.unpack) : Sized k .negative n (-x).toModel.unpack := by
  obtain ⟨r, f, positive, unpacked, full, low, high, value⟩ := h
  have most : f ≤ 971 := by
    unfold lead at high
    omega
  refine ⟨r, f, positive, ?_, full, low, high, value⟩
  show (Float.Model.pack x.toModel.unpack.neg).unpack = _
  rw [unpacked]
  exact unpack_pack_full positive full low most

theorem Sized.exact {k : Int} {s : Sign} {n : Nat} {x : Float}
    (h : Sized k s n x.toModel.unpack) : x.isFinite = true ∧ exact x = withSign s n := by
  obtain ⟨r, f, positive, unpacked, -, -, -, value⟩ := h
  rw [← value]
  exact exact_of_unpack unpacked

/-- **The float of an integer is the nearest one.** -/
theorem exact_ofInt {i : Int} (small : i.natAbs < 2 ^ 64) :
    (Float.ofInt i).isFinite = true ∧ exact (Float.ofInt i) = rounded i := by
  cases i with
  | ofNat n =>
    rcases Nat.eq_zero_or_pos n with rfl | positive
    · have finite : (Float.ofNat 0).isFinite = true := by decide +kernel
      have unpacked : (Float.ofNat 0).toModel.unpack = .zero .positive := rfl
      refine ⟨finite, ?_⟩
      rw [Float.ofInt, exact_eq_number finite, unpacked, rounded, shortened_of_lt (by decide)]
      rfl
    · obtain ⟨finite, value⟩ := (sized_ofNat positive small).exact
      exact ⟨finite, value.trans (Int.cast_natCast _).symm⟩
  | negSucc n =>
    obtain ⟨finite, value⟩ := ((sized_ofNat n.succ_pos small).neg (by decide)).exact
    refine ⟨finite, value.trans ?_⟩
    rw [rounded, Int.cast_neg, Int.cast_natCast]
    rfl

theorem rounded_of_natAbs_le {i : Int} (h : i.natAbs ≤ 2 ^ 53) : rounded i = i := by
  have whole : ∀ n ≤ 2 ^ 53, shortened n = n := by
    intro n hn
    rcases Nat.lt_or_eq_of_le hn with less | rfl
    · exact shortened_of_lt less
    · decide +kernel
  cases i with
  | ofNat n =>
    rw [rounded, whole n h]
    rfl
  | negSucc n =>
    rw [rounded, whole (n + 1) h]
    rfl

theorem shortened_ne_zero {n : Nat} (h : n ≠ 0) : shortened n ≠ 0 := by
  have unit : 0 < 2 ^ n.log2 := by positivity
  have := two_pow_log2_le_shortened h
  omega

theorem rounded_eq_zero_iff {i : Int} : rounded i = 0 ↔ i = 0 := by
  constructor
  case mpr =>
    rintro rfl
    exact rounded_of_natAbs_le (by decide)
  intro zero
  by_contra nonzero
  cases i with
  | ofNat n =>
    have := shortened_ne_zero (n := n) (by rintro rfl; exact nonzero rfl)
    rw [rounded] at zero
    omega
  | negSucc n =>
    have := shortened_ne_zero (n := n + 1) (by omega)
    rw [rounded] at zero
    omega

theorem rounded_mono {i j : Int} (h : i ≤ j) : rounded i ≤ rounded j := by
  cases i with
  | ofNat m =>
    cases j with
    | ofNat n =>
      rw [rounded, rounded]
      exact_mod_cast shortened_mono (Int.ofNat_le.mp h)
    | negSucc n =>
      exact absurd ((Int.natCast_nonneg m).trans h) (Int.not_le.mpr (Int.negSucc_lt_zero n))
  | negSucc m =>
    cases j with
    | ofNat n =>
      rw [rounded, rounded]
      omega
    | negSucc n =>
      have := shortened_mono (show n + 1 ≤ m + 1 by omega)
      rw [rounded, rounded]
      omega

/-! ## Words as floats -/

theorem exact_floatOfInt (i : Int64) :
    (floatOfInt i).isFinite = true ∧ exact (floatOfInt i) = rounded i.toInt := by
  refine exact_ofInt ?_
  have low := i.minValue_le_toInt
  have high := i.toInt_le
  rw [Int64.toInt_minValue] at low
  rw [Int64.toInt_maxValue] at high
  omega

theorem floatOfInt_lt_iff (i j : Int64) :
    floatOfInt i < floatOfInt j ↔ rounded i.toInt < rounded j.toInt := by
  obtain ⟨finite, value⟩ := exact_floatOfInt i
  obtain ⟨finite', value'⟩ := exact_floatOfInt j
  rw [lt_iff_exact_lt finite finite', value, value', Int.cast_lt]

theorem floatOfInt_beq_iff (i j : Int64) :
    (floatOfInt i == floatOfInt j) = true ↔ rounded i.toInt = rounded j.toInt := by
  obtain ⟨finite, value⟩ := exact_floatOfInt i
  obtain ⟨finite', value'⟩ := exact_floatOfInt j
  rw [beq_iff_exact_eq finite finite', value, value', Int.cast_inj]

theorem floatOfInt_beq_zero_iff (i : Int64) : (floatOfInt i == 0) = true ↔ i = 0 := by
  show (floatOfInt i == floatOfInt 0) = true ↔ _
  rw [floatOfInt_beq_iff, show rounded (Int64.toInt 0) = 0 from rounded_eq_zero_iff.mpr rfl,
    rounded_eq_zero_iff, ← Int64.toInt_inj]
  rfl

end ServerUi.Decimal
