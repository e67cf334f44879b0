import ServerUi.Decimal.Binary

/-! # Writing decimals

Of all decimals that round to a given float, the one with the fewest digits is written; of two
equally short ones the nearer, and of two equally near ones the one that the format's tie rule
names.  The search compares integers exactly: for one digit, two digits and so on it tests the
two neighbours of the value on that decimal grid.

A layout says which leading exponents are written positionally, whether a whole number keeps a point
and a zero, and which way ties between two shortest decimals go.  The sign of zero is written.
-/

namespace ServerUi.Decimal

/-! ## The shortest decimal that reads back -/

/-- A decimal number, `coefficient * 10 ^ exponent`. -/
structure Scaled where
  coefficient : Nat
  exponent : Int
deriving DecidableEq, Repr

/-- Which of two equally near neighbours is taken. -/
inductive Tie where
  | toEven
  | upward
deriving DecidableEq, Repr

/-- Compares `a * 10 ^ i` with `n * 2 ^ j`. -/
def compareScaled (a : Nat) (i : Int) (n : Nat) (j : Int) : Ordering :=
  compare (a * Nat.pow 10 i.toNat * Nat.pow 2 (-j).toNat)
    (n * Nat.pow 2 j.toNat * Nat.pow 10 (-i).toNat)

/-- Does a decimal lie among the reals that round to this size, to nearest and ties to even? -/
def Binary.readsBack (b : Binary) (d : Scaled) : Bool :=
  let low := if b.narrowBelow then 4 * b.significand - 1 else 4 * b.significand - 2
  let high := 4 * b.significand + 2
  let ends := b.significand % 2 == 0
  let atLow := compareScaled d.coefficient d.exponent low (b.exponent - 2)
  let atHigh := compareScaled d.coefficient d.exponent high (b.exponent - 2)
  (atLow == .gt || (ends && atLow == .eq)) && (atHigh == .lt || (ends && atHigh == .eq))

/-- Is `num / den` below `10 ^ k`? -/
def belowPower (num den : Nat) (k : Int) : Bool :=
  num * Nat.pow 10 (-k).toNat < den * Nat.pow 10 k.toNat

/-- The least `k` from a start on with `num / den < 10 ^ k`, within a number of steps. -/
def leastPower (num den : Nat) : Nat → Int → Int
  | 0, k => k
  | steps + 1, k => if belowPower num den k then k else leastPower num den steps (k + 1)

/-- The two neighbours of `num / den` on the grid of `10 ^ g`, the nearer one first. -/
def neighbours (tie : Tie) (num den : Nat) (g : Int) : List Scaled :=
  let n := num * Nat.pow 10 (-g).toNat
  let d := den * Nat.pow 10 g.toNat
  let q := n / d
  let r := n % d
  let lower := match compare (2 * r) d with
    | .lt => true
    | .gt => false
    | .eq => match tie with
      | .toEven => q % 2 == 0
      | .upward => false
  if lower then [⟨q, g⟩, ⟨q + 1, g⟩] else [⟨q + 1, g⟩, ⟨q, g⟩]

/-- The first grid, of those with `n` digits and more, on which a neighbour reads back. -/
def searchGrids (tie : Tie) (b : Binary) (num den : Nat) (k : Int) : Nat → Nat → Option Scaled
  | 0, _ => none
  | steps + 1, n =>
    match (neighbours tie num den (k - n)).find? b.readsBack with
    | some d => some d
    | none => searchGrids tie b num den k steps (n + 1)

/-- Moves trailing zeros of the coefficient into the exponent, at most `steps` of them. -/
def stripZeros : Nat → Scaled → Scaled
  | 0, d => d
  | steps + 1, d =>
    if d.coefficient % 10 = 0 then stripZeros steps ⟨d.coefficient / 10, d.exponent + 1⟩ else d

/-- The shortest decimal that reads back as a size other than zero.  Seventeen digits always
suffice; should they not, the exact value is the answer. -/
def shortest (tie : Tie) (b : Binary) : Scaled :=
  let num := b.significand * Nat.pow 2 b.exponent.toNat
  let den := Nat.pow 2 (-b.exponent).toNat
  let start : Int := ((b.significand.log2 : Int) + b.exponent) * 30103 / 100000 - 1
  let k := leastPower num den 6 start
  match searchGrids tie b num den k 17 1 with
  | some d => stripZeros 17 d
  | none =>
    ⟨b.significand * Nat.pow 5 (-b.exponent).toNat * Nat.pow 2 b.exponent.toNat,
      min b.exponent 0⟩

/-! ## Layouts -/

/-- The decisions of one number format. -/
structure Layout where
  /-- Is a number whose leading digit has this exponent written without a power of ten? -/
  positional : Int → Bool
  /-- Does a whole number end in `.0`? -/
  pointZero : Bool
  /-- Which of two equally near shortest decimals is written? -/
  tie : Tie

def digits (n : Nat) : List Char := Nat.toDigits 10 n

def signedDigits (n : Int) : List Char := if n < 0 then '-' :: digits n.natAbs else digits n.natAbs

/-- Digits with the point where it falls, filled up with zeros. -/
def positionalChars (pointZero : Bool) (ds : List Char) (exponent : Int) : List Char :=
  let lead := exponent + ds.length - 1
  if 0 ≤ exponent then
    ds ++ List.replicate exponent.toNat '0' ++ (if pointZero then ['.', '0'] else [])
  else if 0 ≤ lead then
    ds.take (lead.toNat + 1) ++ '.' :: ds.drop (lead.toNat + 1)
  else '0' :: '.' :: (List.replicate (-lead - 1).toNat '0' ++ ds)

/-- Digits with a point behind the first and a signed power of ten. -/
def scientificChars (ds : List Char) (exponent : Int) : List Char :=
  let lead := exponent + ds.length - 1
  let mantissa := match ds with
    | [] => []
    | [d] => [d]
    | d :: rest => d :: '.' :: rest
  mantissa ++ 'e' :: (if lead < 0 then '-' else '+') :: digits lead.natAbs

def Layout.finiteChars (l : Layout) (x : Float) : List Char :=
  let b := Binary.ofFloat x
  let d := if b.significand = 0 then ⟨0, 0⟩ else shortest l.tie b
  let ds := digits d.coefficient
  let body :=
    if l.positional (d.exponent + ds.length - 1) then positionalChars l.pointZero ds d.exponent
    else scientificChars ds d.exponent
  if isNegative x then '-' :: body else body

/-- A float set out by a layout; the values that are not finite have names. -/
def Layout.chars (l : Layout) (x : Float) : List Char :=
  if x.isNaN then "NaN".toList
  else if x.isInf then (if isNegative x then "-inf" else "inf").toList
  else l.finiteChars x

end ServerUi.Decimal
