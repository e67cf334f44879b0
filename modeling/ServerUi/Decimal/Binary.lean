/-! # Words and binary fractions

A whole number fits a word of 64 bits, with a sign or without one, or it does not.  A finite float
is a natural number times a power of two: that form is taken out of the bits and put back, so that
comparisons, whole parts and remainders are exact arithmetic on integers.
-/

namespace ServerUi

/-! ## Words -/

def fitsSigned (n : Int) : Bool := Int64.minValue.toInt ≤ n && n ≤ Int64.maxValue.toInt

def fitsUnsigned (n : Int) : Bool := 0 ≤ n && n < UInt64.size

def int64? (n : Int) : Option Int64 := if fitsSigned n then some (Int64.ofInt n) else none

theorem fitsSigned_toInt (i : Int64) : fitsSigned i.toInt = true := by
  rw [fitsSigned, Bool.and_eq_true, decide_eq_true_eq, decide_eq_true_eq]
  exact ⟨i.minValue_le_toInt, i.toInt_le⟩

theorem int64?_toInt (i : Int64) : int64? i.toInt = some i := by
  rw [int64?, if_pos (fitsSigned_toInt i), Int64.ofInt_toInt]

theorem int64?_eq_none_iff {n : Int} : int64? n = none ↔ ¬ fitsSigned n = true := by
  unfold int64?
  split <;> simp [*]

theorem toInt_of_int64? {n : Int} {i : Int64} (h : int64? n = some i) : i.toInt = n := by
  unfold int64? at h
  split at h
  · rename_i fits
    cases h
    rw [fitsSigned, Bool.and_eq_true, decide_eq_true_eq, decide_eq_true_eq,
      Int64.toInt_minValue, Int64.toInt_maxValue] at fits
    exact Int64.toInt_ofInt_of_le fits.1 (Int.lt_of_le_sub_one fits.2)
  · cases h

end ServerUi

/-! ## Binary fractions -/

namespace ServerUi.Decimal

/-- The size of a finite float, `significand * 2 ^ exponent`. -/
structure Binary where
  significand : Nat
  exponent : Int
  /-- The gap to the next smaller size is half the gap to the next larger one. -/
  narrowBelow : Bool
deriving DecidableEq, Repr

/-- Is the sign bit set?  It tells the two zeros apart. -/
def isNegative (x : Float) : Bool := x.toBits >>> 63 == 1

/-- The size of a finite float; infinities and NaN have none and must be told apart first. -/
def Binary.ofFloat (x : Float) : Binary :=
  let bits := x.toBits
  let e := ((bits >>> 52) &&& 0x7FF).toNat
  let f := (bits &&& 0xFFFFFFFFFFFFF).toNat
  if e = 0 then ⟨f, -1074, false⟩ else ⟨Nat.pow 2 52 + f, (e : Int) - 1075, f == 0 && e > 1⟩

/-- The float of a size below `2 ^ 53` units of `2 ^ exponent`, for an exponent from -1074 up to
971; every such size is a float. -/
def ofSize (significand : Nat) (exponent : Int) : Float :=
  if significand = 0 then 0 else
  let shift := min (52 - significand.log2) (exponent + 1074).toNat
  let m := significand <<< shift
  let e := exponent - shift
  if m < Nat.pow 2 52 then Float.ofBits m.toUInt64
  else Float.ofBits (((e + 1075).toNat <<< 52) + (m - Nat.pow 2 52)).toUInt64

/-- The whole number equal to a size, if there is one. -/
def Binary.whole? (b : Binary) : Option Nat :=
  if 0 ≤ b.exponent then some (b.significand * Nat.pow 2 b.exponent.toNat)
  else
    let unit := Nat.pow 2 (-b.exponent).toNat
    if b.significand % unit = 0 then some (b.significand / unit) else none

def whole? (x : Float) : Option Int :=
  if x.isFinite then
    (Binary.ofFloat x).whole?.map fun n => if isNegative x then -(n : Int) else n
  else none

/-- The exact remainder of a division whose quotient is cut toward zero.  It has the sign of the
dividend; a dividend that is not finite and a divisor zero leave none. -/
def remainder (x y : Float) : Float :=
  if x.isNaN || y.isNaN || x.isInf || y == 0 then 0.0 / 0.0
  else if y.isInf then x
  else
    let a := Binary.ofFloat x
    let b := Binary.ofFloat y
    let e := min a.exponent b.exponent
    let m := (a.significand <<< (a.exponent - e).toNat) % (b.significand <<< (b.exponent - e).toNat)
    let size := ofSize m e
    if isNegative x then -size else size

end ServerUi.Decimal
