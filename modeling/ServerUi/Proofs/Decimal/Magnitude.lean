import ServerUi.Decimal.Reading
import ServerUi.Proofs.Decimal.Rounding

/-! # How large the floats of literals are

The float of a number literal is finite (`isFinite_scaled`): a division by powers of ten adds at
most one to the power of two at the leading digit, and a multiplication that leaves the floats is no
literal.  A whole number beyond the words with a sign is not rounded back into them
(`le_exact_ofNat`).
-/

namespace ServerUi.Decimal

open Float.Model Float.Model.UnpackedFloat

/-! ## Bounds -/

/-- A float is finite and smaller than `2 ^ k`. -/
inductive Below (k : Int) : UnpackedFloat → Prop
  | zero (s : Sign) : Below k (.zero s)
  | finite {s : Sign} {m : Nat} {e : Int} {h : 0 < m} (less : lead m e < k) :
    Below k (.finite s m e h)

instance (k : Int) : DecidablePred (Below k)
  | .zero s => isTrue (.zero s)
  | .finite _ m e _ => decidable_of_iff (lead m e < k) ⟨.finite, fun | .finite less => less⟩
  | .infinity _ => isFalse nofun
  | .notANumber => isFalse nofun

theorem Below.mono {j k : Int} {u : UnpackedFloat} (h : Below j u) (le : j ≤ k) : Below k u := by
  cases h with
  | zero s => exact .zero s
  | finite less => exact .finite (Int.lt_of_lt_of_le less le)

theorem below_signed {s : Sign} {m : Nat} {e k : Int} (h : m ≠ 0 → lead m e < k) :
    Below k (signed s m e) := by
  rcases signed_cases s m e with ⟨-, eq⟩ | ⟨positive, eq⟩
  · rw [eq]
    exact .zero s
  · rw [eq]
    exact .finite (h positive.ne')

theorem below_roundWithAccuracy {m : Nat} {e k : Int} (hk : 0 ≤ k) (h : lead m e < k) (s : Sign)
    (a : Accuracy) : Below (k + 1) (roundWithAccuracy .binary64 s m e a) := by
  obtain ⟨r, -, above, eq⟩ := roundWithAccuracy_eq s m e a
  rw [eq]
  refine below_signed fun nonzero => ?_
  rw [lead_div _ nonzero]
  have size : r.log2 ≤ (m / 2 ^ excess m e).log2 + 1 :=
    (log2_le_log2 above).trans log2_succ_le
  by_cases gone : m / 2 ^ excess m e = 0
  · -- nothing but the last digit is left
    have one : r.log2 = 0 := by
      obtain rfl | rfl : r = 0 ∨ r = 1 := by omega
      · rfl
      · rfl
    rw [lead, one]
    unfold excess lead at *
    omega
  · have := lead_div e gone
    unfold lead at *
    omega

theorem below_unpack_pack {u : UnpackedFloat} {k : Int} (low : 0 ≤ k) (high : k ≤ 970)
    (h : Below k u) : Below k (Float.Model.pack u).unpack := by
  cases h with
  | zero s => cases s <;> exact .zero _
  | @finite s m e pos less =>
    have small : e ≤ 971 := by
      unfold lead at less
      omega
    rw [unpack_pack_finite pos small]
    by_cases kept : m.log2 = 52 ∧ -1074 ≤ e
    · rw [if_pos kept]
      exact .finite less
    · rw [if_neg kept]
      refine below_signed fun nonzero => ?_
      have : (m % 2 ^ 52).log2 < 52 := (Nat.log2_lt nonzero).mpr (Nat.mod_lt _ (by decide))
      unfold lead
      omega

/-! ## Operations -/

/-- The size of a quotient is at most the size of the dividend over the power of two at the
leading digit of the divisor. -/
theorem lead_div_le {m n : Nat} (e : Int) (hn : n ≠ 0) (h : m / n ≠ 0) :
    lead (m / n) e ≤ lead m e - n.log2 := by
  have least : 2 ^ n.log2 ≤ n := Nat.log2_self_le hn
  have smaller : m / n ≤ m / 2 ^ n.log2 := Nat.div_le_div_left least (by positivity)
  have place : lead (m / 2 ^ n.log2) e + n.log2 = lead m e := by
    have positive : m / 2 ^ n.log2 ≠ 0 := fun zero => h (Nat.le_zero.mp (zero ▸ smaller))
    rw [← lead_div e positive, lead, lead]
    omega
  have := log2_le_log2 smaller
  unfold lead at *
  omega

theorem lead_divCore_lt {m n : Nat} {e f k : Int} (hm : m ≠ 0) (hn : n ≠ 0) (hk : 0 ≤ k)
    (dividend : lead m e < k) (divisor : 0 ≤ lead n f) :
    lead (divCore .binary64 m e n f).1 (divCore .binary64 m e n f).2.1 < k := by
  have target : Format.binary64.targetExponent (totalExponent m e - totalExponent n f) =
      max (lead m e - lead n f - 53) (-1074) := by
    rw [targetExponent_eq, totalExponent, totalExponent, lead, lead]
    omega
  simp only [divCore, target]
  generalize ht : min (e - f) (max (lead m e - lead n f - 53) (-1074)) = t
  by_cases gone : m <<< (e - f - t).toNat / n = 0
  · rw [gone, lead, show Nat.log2 0 = 0 from rfl]
    omega
  · have size := lead_div_le t hn gone
    rw [lead_shiftLeft hm] at size
    have place : lead m (t + (e - f - t).toNat) = lead m e - f := by
      unfold lead
      omega
    rw [place] at size
    unfold lead at *
    omega

/-- A float is finite and at least one in size. -/
inductive AtLeastOne : UnpackedFloat → Prop
  | finite {s : Sign} {m : Nat} {e : Int} {h : 0 < m} (large : 0 ≤ lead m e) :
    AtLeastOne (.finite s m e h)

instance : DecidablePred AtLeastOne
  | .finite _ m e _ => decidable_of_iff (0 ≤ lead m e) ⟨.finite, fun | .finite large => large⟩
  | .zero _ => isFalse nofun
  | .infinity _ => isFalse nofun
  | .notANumber => isFalse nofun

/-- A float divided by one that is not less than one does not grow, except by rounding. -/
theorem below_div {u v : UnpackedFloat} {k : Int} (hk : 0 ≤ k) (hu : Below k u)
    (hv : AtLeastOne v) : Below (k + 1) (UnpackedFloat.div .binary64 u v) := by
  cases hv with
  | @finite t n f positive large =>
    cases hu with
    | zero s => exact .zero _
    | @finite s m e pos less =>
      exact below_roundWithAccuracy hk
        (lead_divCore_lt pos.ne' positive.ne' hk less large) _ _

theorem lead_mul_le (m n : Nat) (e f : Int) (hm : m ≠ 0) (hn : n ≠ 0) :
    lead (m * n) (e + f) ≤ lead m e + lead n f + 1 := by
  have left := Nat.lt_log2_self (n := m)
  have right := Nat.lt_log2_self (n := n)
  have size : m * n < 2 ^ (m.log2 + 1 + (n.log2 + 1)) := by
    rw [pow_add]
    exact Nat.mul_lt_mul'' left right
  have := (Nat.log2_lt (Nat.mul_ne_zero hm hn)).mpr size
  unfold lead
  omega

theorem below_mul {u v : UnpackedFloat} {j k : Int} (hj : 0 ≤ j) (hk : 0 ≤ k) (hu : Below j u)
    (hv : Below k v) : Below (j + k + 1) (UnpackedFloat.mul .binary64 u v) := by
  cases hu with
  | zero s => cases hv <;> exact .zero _
  | @finite s m e pos less =>
    cases hv with
    | zero t => exact .zero _
    | @finite t n f positive smaller =>
      have size := lead_mul_le m n e f pos.ne' positive.ne'
      exact below_roundWithAccuracy (by omega) (by omega) _ _

/-- The product of finite floats is finite or too large, but a number. -/
theorem isNaN_mul {u v : UnpackedFloat} (hu : u.isFinite = true) (hv : v.isFinite = true) :
    (UnpackedFloat.mul .binary64 u v).isNaN = false := by
  cases u with
  | infinity s => cases hu
  | notANumber => cases hu
  | zero s =>
    cases v with
    | infinity s => cases hv
    | notANumber => cases hv
    | zero t => rfl
    | finite t n f positive => rfl
  | finite s m e pos =>
    cases v with
    | infinity s => cases hv
    | notANumber => cases hv
    | zero t => rfl
    | finite t n f positive =>
      obtain ⟨r, -, -, eq⟩ := roundWithAccuracy_eq (s * t) (m * n) (e + f) .exact
      show (roundWithAccuracy .binary64 (s * t) (m * n) (e + f) .exact).isNaN = false
      rw [eq]
      exact isNaN_signed _ _ _

/-! ## Floats of literals -/

theorem Below.isFinite {k : Int} {u : UnpackedFloat} (h : Below k u) : u.isFinite = true := by
  cases h <;> rfl

theorem lead_lt_of_lt {n : Nat} (nonzero : n ≠ 0) (h : n < 2 ^ 64) : lead n 0 < 64 := by
  have := (Nat.log2_lt nonzero).mpr h
  unfold lead
  omega

theorem below_round {s : Sign} {m : Nat} {e k : Int} (hm : m ≠ 0) (hk : 0 ≤ k)
    (h : lead m e < k) : Below (k + 1) (UnpackedFloat.round .binary64 s m e) := by
  refine below_roundWithAccuracy hk ?_ _ _
  rw [lead_shiftLeft hm, Int.sub_add_cancel]
  exact h

theorem below_normalize {n : Nat} (h : n < 2 ^ 64) (s : Sign) :
    Below 65 (UnpackedFloat.normalize .binary64 n 0 s) := by
  by_cases zero : n = 0
  · subst zero
    exact .zero s
  · have positive : compare (n : Int) 0 = .gt := Int.compare_eq_gt.mpr (by omega)
    rw [UnpackedFloat.normalize, positive]
    exact below_round zero (by decide) (lead_lt_of_lt zero h)

/-- A decimal without a negative exponent is rounded once. -/
theorem ofScientific_eq {m n : Nat} (hm : m ≠ 0) (hn : n ≤ 2048) :
    UnpackedFloat.ofScientific .binary64 m n =
      roundWithAccuracy .binary64 .positive ((m * 10 ^ n) <<< 53) (-53) .exact := by
  have small : ¬ (n : Int) > 2 ^ Format.binary64.exponentBits := by
    show ¬ (n : Int) > 2048
    omega
  have range : ¬ (n : Int) < -((2 ^ Format.binary64.exponentBits : Int) + m.log2) := by
    show ¬ (n : Int) < -(2048 + m.log2)
    omega
  have product : (m * 10 ^ n) <<< 53 = m <<< 53 * 10 ^ n := by
    rw [Nat.shiftLeft_eq, Nat.shiftLeft_eq, Nat.mul_right_comm]
  unfold UnpackedFloat.ofScientific
  rw [dif_neg hm, if_neg small, if_neg range, if_pos (by omega), product]
  rfl

theorem below_ofScientific {n : Nat} (h : n < 2 ^ 64) :
    Below 65 (UnpackedFloat.ofScientific .binary64 n (0 : Nat)) := by
  by_cases zero : n = 0
  · subst zero
    exact .zero _
  · rw [ofScientific_eq zero (by decide)]
    refine below_roundWithAccuracy (k := 64) (by decide) ?_ _ _
    rw [pow_zero, Nat.mul_one, lead_shiftLeft zero]
    exact lead_lt_of_lt zero h

/-- A decimal within the floats becomes a float with all its digits. -/
theorem unpack_ofScientific {m n : Nat} (hm : m ≠ 0) (hn : n ≤ 2048)
    (fits : (m * 10 ^ n).log2 ≤ 1022) :
    ∃ r f h, (Float.Model.ofScientific m n).unpack = .finite .positive r f h ∧ r.log2 = 52 ∧
      (m * 10 ^ n).log2 ≤ lead r f := by
  have place : lead ((m * 10 ^ n) <<< 53) (-53) = (m * 10 ^ n).log2 := by
    rw [lead_shiftLeft (by positivity), lead]
    omega
  have bits : 52 ≤ ((m * 10 ^ n) <<< 53).log2 := by
    unfold lead at place
    omega
  obtain ⟨r, f, positive, rounded, digits, low, high⟩ :=
    roundWithAccuracy_normal bits (by omega : -1022 ≤ lead _ (-53)) .positive .exact
  have digit : lead r f = 52 + f := by
    rw [lead, digits]
    rfl
  refine ⟨r, f, positive, ?_, digits, by omega⟩
  rw [Float.Model.ofScientific, ofScientific_eq hm hn, rounded]
  exact unpack_pack_full positive digits (by omega) (by omega)

theorem below_ofNat {n : Nat} (h : n < 2 ^ 64) :
    Below 67 (Float.ofNat n).toModel.unpack := by
  show Below 67 (Float.ofScientific n false 0).toModel.unpack
  unfold Float.ofScientific
  split
  · refine below_unpack_pack (by decide) (by decide) ?_
    have whole : Below 65 n.toUInt64.toFloat.toModel.unpack := by
      refine below_unpack_pack (by decide) (by decide) ?_
      show Below 65 (UnpackedFloat.normalize .binary64 n.toUInt64.toNat 0 .positive)
      rw [Nat.toUInt64_eq, UInt64.toNat_ofNat', Nat.mod_eq_of_lt h]
      exact below_normalize h _
    have one : Below 1 Float.exactlyRepresentablePowersOfTen[0].toModel.unpack := by
      decide +kernel
    exact (below_mul (by decide) (by decide) whole one).mono (by decide)
  · exact below_unpack_pack (by decide) (by decide) ((below_ofScientific h).mono (by decide))

theorem atLeastOne_powerOfTen {n : Nat} (h : n ≤ 308) :
    AtLeastOne (powerOfTen n).toModel.unpack := by
  have tabled : ∀ n < 23, AtLeastOne (powerOfTen n).toModel.unpack := by decide +kernel
  have greatest : AtLeastOne (powerOfTen 308).toModel.unpack := by decide +kernel
  by_cases short : n < 23
  · exact tabled n short
  by_cases last : n = 308
  · rw [last]
    exact greatest
  have computed : powerOfTen n = .ofModel (.ofScientific 1 n) := by
    show Float.ofScientific 1 false n = _
    rw [Float.ofScientific, dif_neg (by omega)]
    rfl
  have fits : (1 * 10 ^ n).log2 ≤ 1019 := by
    rw [Nat.one_mul]
    exact (log2_le_log2 (Nat.pow_le_pow_right (by decide) (by omega : n ≤ 307))).trans
      (by decide +kernel)
  obtain ⟨r, f, positive, unpacked, -, large⟩ :=
    unpack_ofScientific (by decide : 1 ≠ 0) (by omega : n ≤ 2048) (by omega)
  rw [computed, unpacked]
  exact .finite (by omega)

theorem below_scaleDown {x : Float} {k : Int} (steps n : Nat) (low : 0 ≤ k)
    (high : k + steps ≤ 970) (h : Below k x.toModel.unpack) :
    Below (k + steps) (scaleDown steps x n).toModel.unpack := by
  induction steps generalizing x k n with
  | zero => exact h.mono (by omega)
  | succ steps ih =>
    have divided {n : Nat} (hn : n ≤ 308) : Below (k + 1) (x / powerOfTen n).toModel.unpack :=
      below_unpack_pack (by omega) (by omega) (below_div low h (atLeastOne_powerOfTen hn))
    rw [scaleDown]
    split
    · exact (divided ‹_›).mono (by omega)
    · split
      · exact h.mono (by omega)
      · exact (ih (n - 308) (by omega) (by omega) (divided (by decide))).mono (by omega)

theorem AtLeastOne.isFinite {u : UnpackedFloat} (h : AtLeastOne u) : u.isFinite = true := by
  cases h
  rfl

theorem isFinite_of_number {u : UnpackedFloat} (number : u.isNaN = false)
    (bounded : ¬ u.isInf = true) : u.isFinite = true := by
  cases u with
  | infinity s => exact absurd rfl bounded
  | notANumber => cases number
  | zero s => rfl
  | finite s m e pos => rfl

theorem isNaN_unpack_pack {u : UnpackedFloat} (h : u.isNaN = false) :
    (Float.Model.pack u).unpack.isNaN = false := by
  cases u with
  | infinity s => cases s <;> rfl
  | notANumber => cases h
  | zero s => cases s <;> rfl
  | finite s m e pos =>
    by_cases high : e ≤ 971
    · obtain ⟨n, f, eq⟩ := exists_signed_unpack_pack (s := s) pos high
      rw [eq]
      exact isNaN_signed _ _ _
    · have large : 2 ^ Format.binary64.exponentBits ≤ (e + (Format.binary64.exponentBias : Int) +
          Format.binary64.mantissaBitsWithoutImplicit).toNat + 1 := by
        show 2048 ≤ (e + 1023 + 52).toNat + 1
        omega
      have packed : UnpackedFloat.pack .binary64 (.finite s m e pos) =
          UnpackedFloat.pack .binary64 (.infinity s) := if_pos large
      show (UnpackedFloat.unpack .binary64 (UnpackedFloat.pack .binary64 _)).isNaN = false
      rw [packed]
      cases s <;> rfl

/-- What a literal scales to is finite. -/
theorem isFinite_scaled {n : Nat} {power : Int} {x : Float} (fits : n < 2 ^ 64)
    (h : scaled n power = some x) : x.isFinite = true := by
  have start := below_ofNat fits
  simp only [scaled] at h
  split at h
  · cases h
    exact (below_scaleDown 4 _ (by decide) (by decide) start).isFinite
  · split at h
    · rw [Option.ite_none_left_eq_some, Option.some.injEq] at h
      obtain ⟨bounded, rfl⟩ := h
      have factor := (atLeastOne_powerOfTen (n := power.toNat) (by omega)).isFinite
      exact isFinite_of_number (isNaN_unpack_pack (isNaN_mul start.isFinite factor)) bounded
    · rw [Option.ite_none_right_eq_some, Option.some.injEq] at h
      obtain ⟨-, rfl⟩ := h
      exact start.isFinite

theorem isFinite_neg {x : Float} (h : x.isFinite = true) : (-x).isFinite = true := by
  show (Float.Model.pack x.toModel.unpack.neg).unpack.isFinite = true
  change x.toModel.unpack.isFinite = true at h
  cases unpacked : x.toModel.unpack with
  | infinity s =>
    rw [unpacked] at h
    cases h
  | notANumber =>
    rw [unpacked] at h
    cases h
  | zero s => cases s <;> rfl
  | finite s m e pos =>
    show (Float.Model.pack (.finite (-s) m e pos)).unpack.isFinite = true
    obtain ⟨n, f, eq⟩ :=
      exists_signed_unpack_pack (s := -s) pos (exponent_le_of_unpack unpacked)
    rw [eq]
    exact isFinite_signed _ _ _

/-- A whole number beyond the words with a sign stays beyond them when it is rounded. -/
theorem le_exact_ofNat {n : Nat} (low : 2 ^ 63 ≤ n) (high : n < 2 ^ 64) :
    2 ^ 63 ≤ exact (Float.ofNat n) := by
  have computed : Float.ofNat n = .ofModel (.ofScientific n (0 : Nat)) := by
    show Float.ofScientific n false 0 = _
    rw [Float.ofScientific, dif_neg (by omega)]
    rfl
  have size : (n * 10 ^ 0).log2 = 63 := by
    rw [pow_zero, Nat.mul_one]
    exact (Nat.log2_eq_iff (by omega)).mpr ⟨low, high⟩
  obtain ⟨m, e, h, unpacked, digits, large⟩ :=
    unpack_ofScientific (by omega : n ≠ 0) (Nat.zero_le 2048) (by omega)
  have least : 2 ^ 52 ≤ m := ((Nat.log2_eq_iff h.ne').mp digits).1
  have place : 11 ≤ e := by
    unfold lead at large
    omega
  have value : exact (.ofModel (.ofScientific n (0 : Nat))) = m * 2 ^ e :=
    (exact_of_unpack unpacked).2
  rw [computed, value]
  calc (2 : ℚ) ^ 63 = 2 ^ 52 * 2 ^ (11 : ℤ) := by
        rw [show (11 : ℤ) = (11 : ℕ) from rfl, zpow_natCast, ← pow_add]
    _ ≤ 2 ^ 52 * 2 ^ e := by
        gcongr
        norm_num
    _ ≤ m * 2 ^ e := by
        gcongr
        exact_mod_cast least

end ServerUi.Decimal
