import ServerUi.Text.Character
import ServerUi.Text.Utf8

/-! # Hosts

The host of an address is a name, a number of 32 bits written in up to four parts, or eight pieces
of 16 bits in brackets.  A name whose last label is a number must be an address of the second kind.

A byte that may not stand in a part of an address is written as a percent sign and two digits of
base sixteen.  Which bytes may stand is a matter of the part.
-/

/-! ## Percent encoding -/

namespace ServerUi.Http.Percent

/-- A byte behind a percent sign, in capital digits. -/
def escape (b : UInt8) : List Char :=
  let digit (n : Nat) : Char := (Nat.digitChar n).toUpper
  ['%', digit (b.toNat / 16), digit (b.toNat % 16)]

/-- The bytes of a character, escaped. -/
def escapeChar (c : Char) : List Char := (Text.bytesOf (String.singleton c)).flatMap escape

/-- A text in which only characters that may stand are not escaped. -/
def encode (stays : Char → Bool) (cs : List Char) : List Char :=
  cs.flatMap fun c => if stays c then [c] else escapeChar c

def isVisible (c : Char) : Bool := '!' ≤ c && c ≤ '~'

def staysInPath (c : Char) : Bool :=
  isVisible c && !(['"', '#', '<', '>', '?', '`', '\x7b', '\x7d'].contains c)

def staysInQuery (c : Char) : Bool := isVisible c && !(['"', '#', '<', '>', '\''].contains c)

def staysInForm (c : Char) : Bool := c.isAlphanum || c == '*' || c == '-' || c == '.' || c == '_'

/-- A name or a value of a form; a space is written as a plus sign. -/
def formText (s : String) : String :=
  String.ofList (s.toList.flatMap fun c =>
    if c == ' ' then ['+'] else if staysInForm c then [c] else escapeChar c)

def formPairs (ps : List (String × String)) : String :=
  String.intercalate "&" (ps.map fun p => formText p.1 ++ "=" ++ formText p.2)

/-- The bytes of a text with every escape taken back; a percent sign that starts none stays. -/
def decode : List Char → List UInt8
  | [] => []
  | '%' :: a :: b :: rest =>
    match Text.hexValue? a, Text.hexValue? b with
    | some x, some y => (16 * x + y).toUInt8 :: decode rest
    | _, _ => '%'.toNat.toUInt8 :: decode (a :: b :: rest)
  | c :: rest => Text.bytesOf (String.singleton c) ++ decode rest
termination_by cs => cs.length

end ServerUi.Http.Percent

/-! ## Hosts -/

namespace ServerUi.Http

inductive Host where
  | name (labels : String)
  | v4 (address : Nat)
  | v6 (pieces : List Nat)
deriving DecidableEq, Repr

namespace Host

/-! ## Four parts -/

def splitOn (sep : Char) : List Char → List (List Char)
  | [] => [[]]
  | c :: rest =>
    if c == sep then [] :: splitOn sep rest
    else match splitOn sep rest with
      | [] => [[c]]
      | part :: more => (c :: part) :: more

/-- The labels of a name, without an empty one behind the last dot. -/
def labels (cs : List Char) : List (List Char) :=
  match (splitOn '.' cs).reverse with
  | [] :: p :: rest => (p :: rest).reverse
  | ps => ps.reverse

/-- The number of a part: of base sixteen behind `0x`, of base eight behind `0`, else of base
ten. -/
def part? : List Char → Option Nat
  | [] => none
  | '0' :: 'x' :: ds => Text.natFrom? 16 0 ds
  | '0' :: 'X' :: ds => Text.natFrom? 16 0 ds
  | '0' :: d :: ds => Text.natOf? 8 (d :: ds)
  | ds => Text.natOf? 10 ds

def endsInNumber (cs : List Char) : Bool :=
  match (labels cs).getLast? with
  | none => false
  | some l => (!l.isEmpty && l.all Char.isDigit) || (2 ≤ l.length && (part? l).isSome)

/-- The address that parts write; the last part fills all bytes that the others leave. -/
def v4OfParts (parts : List Nat) : Option Nat :=
  match parts.reverse with
  | [] => none
  | last :: front =>
    if 3 < front.length || !front.all (· < 256) || Nat.pow 256 (4 - front.length) ≤ last then none
    else some (front.foldr (fun p n => 256 * n + p) 0 * Nat.pow 256 (4 - front.length) + last)

/-- The address of a name in up to four parts. -/
def v4? (cs : List Char) : Option Nat := ((labels cs).mapM part?).bind v4OfParts

/-! ## Eight pieces -/

/-- Four plain decimal parts as two pieces. -/
def tailPieces? (cs : List Char) : Option (List Nat) := do
  let parts ← (splitOn '.' cs).mapM fun ds =>
    if ds.length ≤ 3 && !(1 < ds.length && ds.head? == some '0') then Text.natOf? 10 ds else none
  match parts with
  | [a, b, c, d] => if parts.all (· < 256) then some [a * 256 + b, c * 256 + d] else none
  | _ => none

/-- The pieces between colons; only the last may be written in decimal parts. -/
def pieces? (mayEndInParts : Bool) : List (List Char) → Option (List Nat)
  | [] => some []
  | [ds] =>
    if mayEndInParts && ds.contains '.' then tailPieces? ds
    else if ds.length ≤ 4 then (Text.natOf? 16 ds).map ([·]) else none
  | ds :: rest => do
    let p ← if ds.length ≤ 4 then Text.natOf? 16 ds else none
    let more ← pieces? mayEndInParts rest
    pure (p :: more)

/-- The pieces of a side of the gap; an empty side has none. -/
def side? (mayEndInParts : Bool) (cs : List Char) : Option (List Nat) :=
  if cs.isEmpty then some [] else pieces? mayEndInParts (splitOn ':' cs)

/-- Splits at the first pair of colons. -/
def splitGap : List Char → Option (List Char × List Char)
  | ':' :: ':' :: rest => some ([], rest)
  | c :: rest => (splitGap rest).map fun (a, b) => (c :: a, b)
  | [] => none

/-- The eight pieces of an address in brackets; a pair of colons stands for one or more zeros. -/
def v6? (cs : List Char) : Option (List Nat) :=
  match splitGap cs with
  | none => (side? true cs).bind fun ps => if ps.length = 8 then some ps else none
  | some (front, back) => do
    let a ← side? false front
    let b ← side? true back
    if a.length + b.length ≤ 7 then
      some (a ++ List.replicate (8 - a.length - b.length) 0 ++ b)
    else none

/-! ## Any host -/

def isNameChar (c : Char) : Bool :=
  '!' ≤ c && c != '\x7f'
    && !(['#', '/', ':', '<', '>', '?', '@', '[', '\\', ']', '^', '|', '%'].contains c)

/-- The characters of bytes; a byte that belongs to none becomes a replacement character. -/
def charsOf (bytes : List UInt8) : List Char :=
  (Text.symbols bytes).map fun
    | .char c => c
    | .stray _ => '\ufffd'

def parse? (cs : List Char) : Option Host :=
  match cs with
  | '[' :: rest =>
    match rest.reverse with
    | ']' :: inner => (v6? inner.reverse).map .v6
    | _ => none
  | _ =>
    let name := (charsOf (Percent.decode cs)).map Char.toLower
    if name.isEmpty || !name.all isNameChar then none
    else if endsInNumber name then (v4? name).map .v4
    else some (.name (String.ofList name))

end Host

end ServerUi.Http
