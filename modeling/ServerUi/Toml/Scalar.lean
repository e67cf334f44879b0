import ServerUi.Decimal.Reading
import ServerUi.Json.Document
import ServerUi.Text.Character

/-! # Numbers, truth values and dates of TOML

A word of a TOML text stands for a truth value, a whole number, a real number or a point in time.
Underscores may stand between digits.  A point in time is a document of its own with the words of
it, for nothing here computes with time.
-/

namespace ServerUi.Toml

open ServerUi.Json (Document)
open ServerUi.Decimal (natOfDigits nearest)

/-! ## Numbers -/

/-- The digits of a run in which underscores stand between digits only. -/
def digitRun? (isDigit : Char → Bool) : List Char → Option (List Char)
  | [] => none
  | [c] => if isDigit c then some [c] else none
  | c :: d :: rest =>
    if !isDigit c then none
    else if d == '_' then (digitRun? isDigit rest).map (c :: ·)
    else (digitRun? isDigit (d :: rest)).map (c :: ·)

/-- The digits of a whole number in base ten: no zero in front of others. -/
def wholeRun? (cs : List Char) : Option (List Char) :=
  (digitRun? Char.isDigit cs).bind fun ds =>
    if 1 < ds.length && ds.head? == some '0' then none else some ds

/-- Splits an optional sign off; `true` stands for a minus. -/
def splitSign : List Char → Bool × List Char
  | '-' :: rest => (true, rest)
  | '+' :: rest => (false, rest)
  | cs => (false, cs)

/-- A whole number behind the mark of its base. -/
def based? (base : Nat) (cs : List Char) : Option Int :=
  let isDigit (c : Char) : Bool := (Text.digitValue? base c).isSome
  ((digitRun? isDigit cs).bind (Text.natOf? base)).map Int.ofNat

def integer? : List Char → Option Int
  | '0' :: 'x' :: ds => based? 16 ds
  | '0' :: 'o' :: ds => based? 8 ds
  | '0' :: 'b' :: ds => based? 2 ds
  | cs =>
    let (minus, ds) := splitSign cs
    (wholeRun? ds).map fun ds => if minus then -(natOfDigits ds : Int) else natOfDigits ds

def exponent? (cs : List Char) : Option Int :=
  let (minus, ds) := splitSign cs
  (digitRun? Char.isDigit ds).map fun ds =>
    if minus then -(natOfDigits ds : Int) else natOfDigits ds

/-- The real number that a word without sign writes: a whole part with a fraction, an exponent or
both. -/
def unsignedReal? (cs : List Char) : Option Float := do
  let mantissa := cs.takeWhile fun c => c != 'e' && c != 'E'
  let tail := cs.dropWhile fun c => c != 'e' && c != 'E'
  let whole ← wholeRun? (mantissa.takeWhile (· != '.'))
  let fraction ← match mantissa.dropWhile (· != '.') with
    | [] => if tail.isEmpty then none else some []
    | _ :: ds => digitRun? Char.isDigit ds
  let power ← match tail with
    | [] => some 0
    | _ :: ds => exponent? ds
  let x := nearest (natOfDigits (whole ++ fraction)) (power - (fraction.length : Int))
  if x.isInf then none else some x

def real? (cs : List Char) : Option Float :=
  let (minus, body) := splitSign cs
  let size :=
    if body = ['i', 'n', 'f'] then some (1.0 / 0.0)
    else if body = ['n', 'a', 'n'] then some (0.0 / 0.0)
    else unsignedReal? body
  size.map fun x => if minus then -x else x

/-! ## Points in time -/

/-- A number of so many digits at the front. -/
def fixed? (n : Nat) (cs : List Char) : Option (Nat × List Char) :=
  let ds := cs.take n
  if ds.length = n && ds.all Char.isDigit then some (natOfDigits ds, cs.drop n) else none

/-- What follows a character at the front. -/
def after? (c : Char) : List Char → Option (List Char)
  | d :: rest => if d == c then some rest else none
  | [] => none

def daysOf (year month : Nat) : Nat :=
  if month = 2 then
    if year % 4 = 0 ∧ (year % 100 ≠ 0 ∨ year % 400 = 0) then 29 else 28
  else if [4, 6, 9, 11].contains month then 30
  else 31

def date? (cs : List Char) : Option (List Char) := do
  let (year, cs) ← fixed? 4 cs
  let cs ← after? '-' cs
  let (month, cs) ← fixed? 2 cs
  let cs ← after? '-' cs
  let (day, cs) ← fixed? 2 cs
  if 1 ≤ month && month ≤ 12 && 1 ≤ day && day ≤ daysOf year month then some cs else none

def clock? (cs : List Char) : Option (List Char) := do
  let (hour, cs) ← fixed? 2 cs
  let cs ← after? ':' cs
  let (minute, cs) ← fixed? 2 cs
  if hour ≤ 23 && minute ≤ 59 then some cs else none

/-- What follows the fraction of a second, if there is one. -/
def fraction? : List Char → Option (List Char)
  | '.' :: d :: rest => if d.isDigit then some (rest.dropWhile Char.isDigit) else none
  | ['.'] => none
  | cs => some cs

/-- What follows a time of day; the seconds may be left out. -/
def time? (cs : List Char) : Option (List Char) := do
  let cs ← clock? cs
  match after? ':' cs with
  | none => some cs
  | some cs =>
    let (second, cs) ← fixed? 2 cs
    if second ≤ 60 then fraction? cs else none

/-- Is the rest of a point in time a distance from the reference time, or nothing? -/
def isOffset : List Char → Bool
  | [] => true
  | ['Z'] => true
  | ['z'] => true
  | c :: rest => (c == '+' || c == '-') && clock? rest == some []

/-- Is the word a point in time? -/
def isMoment (cs : List Char) : Bool :=
  match date? cs with
  | some [] => true
  | some (c :: rest) => (c == 'T' || c == 't' || c == ' ') && (time? rest).any isOffset
  | none => time? cs == some []

/-! ## Words -/

def isWordChar (c : Char) : Bool := c.isAlphanum || ['+', '-', '_', '.', ':'].contains c

/-- The word at the front and what follows it.  A date takes the time behind one space with it. -/
def splitWord (cs : List Char) : List Char × List Char :=
  let word := cs.takeWhile isWordChar
  let rest := cs.dropWhile isWordChar
  match rest with
  | ' ' :: d :: more =>
    if d.isDigit && date? word == some [] then
      (word ++ ' ' :: (d :: more).takeWhile isWordChar, (d :: more).dropWhile isWordChar)
    else (word, rest)
  | _ => (word, rest)

/-- The whole numbers that are kept fit a word, with a sign or without. -/
def keepsInteger (n : Int) : Bool := fitsSigned n || fitsUnsigned n

def word? (cs : List Char) : Option Document :=
  if cs = "true".toList then some (.bool true)
  else if cs = "false".toList then some (.bool false)
  else match integer? cs with
  | some n => if keepsInteger n then some (.integer n) else none
  | none =>
    match real? cs with
    | some x => some (.real x)
    | none =>
      if isMoment cs then some (.object [("datetime", .string (String.ofList cs))]) else none

end ServerUi.Toml
