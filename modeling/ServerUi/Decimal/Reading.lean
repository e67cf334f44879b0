import ServerUi.Decimal.Binary

/-! # Reading decimals

Two ways from digits to a float.  `nearest` rounds the exact decimal once.  `scaled` is the
reading of number literals in documents: a significand of at most 64 bits is taken from the
digits, and the power of ten is applied in one floating multiplication or division, so the last
bit may differ from the nearest float.

A user types an integer as digits behind an optional sign.  A decimal has digits, a point with
digits on at least one side of it, and an optional exponent; it is rounded once to the nearest
float.  The names of infinity and NaN are not read, since no number may be kept that is not finite.
-/

namespace ServerUi.Decimal

def digitValue (c : Char) : Nat := c.toNat - '0'.toNat

def natOfDigits (ds : List Char) : Nat := Nat.ofDigitChars 10 ds 0

/-- The float nearest to `coefficient * 10 ^ exponent`. -/
def nearest (coefficient : Nat) (exponent : Int) : Float :=
  let lead : Int := exponent + (digitsOf coefficient : Int)
  if coefficient = 0 || lead < -400 then 0
  else if 400 < lead then 1.0 / 0.0
  else Float.ofScientific coefficient (exponent < 0) exponent.natAbs
where
  /-- A bound on the number of digits, at most one too large. -/
  digitsOf (n : Nat) : Nat := n.log2 * 30103 / 100000 + 1

def powerOfTen (n : Nat) : Float := Float.ofScientific 1 false n

/-- Divides by a power of ten, in steps where the power itself is no float.  Three steps take
every 64-bit significand to zero. -/
def scaleDown : Nat → Float → Nat → Float
  | 0, x, _ => x
  | steps + 1, x, n =>
    if n ≤ 308 then x / powerOfTen n
    else if x == 0 then x
    else scaleDown steps (x / powerOfTen 308) (n - 308)

/-- A significand times a power of ten, or nothing if that is beyond the floats. -/
def scaled (significand : Nat) (exponent : Int) : Option Float :=
  let x := Float.ofNat significand
  if exponent < 0 then some (scaleDown 4 x (-exponent).toNat)
  else if exponent ≤ 308 then
    let y := x * powerOfTen exponent.toNat
    if y.isInf then none else some y
  else if x == 0 then some x
  else none

/-- Appends digits to a significand while it fits a word; the rest is returned. -/
def takeWord : Nat → List Char → Nat × List Char
  | n, [] => (n, [])
  | n, c :: rest =>
    if fitsUnsigned (10 * n + digitValue c : Nat) then takeWord (10 * n + digitValue c) rest
    else (n, c :: rest)

/-! ## Numbers as a user types them -/

/-- Splits an optional sign off; `true` stands for a minus. -/
def splitSign : List Char → Bool × List Char
  | '-' :: rest => (true, rest)
  | '+' :: rest => (false, rest)
  | cs => (false, cs)

def integerOf? (cs : List Char) : Option Int :=
  let (minus, ds) := splitSign cs
  if ds.isEmpty || !ds.all Char.isDigit then none
  else some (if minus then -(natOfDigits ds : Int) else natOfDigits ds)

/-- The power of ten that an exponent writes; no characters stand for none. -/
def exponentOf? : List Char → Option Int
  | [] => some 0
  | c :: rest => if c == 'e' || c == 'E' then integerOf? rest else none

/-- The float nearest to the decimal that characters write. -/
def decimalOf? (cs : List Char) : Option Float :=
  let (minus, body) := splitSign cs
  let whole := body.takeWhile Char.isDigit
  let (fraction, tail) := match body.dropWhile Char.isDigit with
    | '.' :: rest => (rest.takeWhile Char.isDigit, rest.dropWhile Char.isDigit)
    | rest => ([], rest)
  if whole.isEmpty && fraction.isEmpty then none
  else (exponentOf? tail).map fun power =>
    let x := nearest (natOfDigits (whole ++ fraction)) (power - (fraction.length : Int))
    if minus then -x else x

end ServerUi.Decimal
