import ServerUi.Decimal.Layout
import ServerUi.Json.Document

/-! # Writing documents

The compact text of a document has no blank space; the pretty text indents by two spaces.  Only
quotes, backslashes and control characters are escaped.  A real that is not finite is written as
null, for there is no other form of it.
-/

namespace ServerUi.Json

open ServerUi.Decimal

/-- Reals are written with the fewest digits that read back, of two equally near ones the even
one; positionally from `0.00001` up to `10 ^ 16` and with a point, else with a signed exponent. -/
def realLayout : Layout where
  positional e := -5 ≤ e && e ≤ 15
  pointZero := true
  tie := .toEven

/-- Two digits of base sixteen, in lower case. -/
def hexPair (n : Nat) : List Char := [Nat.digitChar (n / 16), Nat.digitChar (n % 16)]

/-- The letter behind a backslash that stands for a character. -/
def escapeLetter? : Char → Option Char
  | '"' => some '"'
  | '\\' => some '\\'
  | '\x08' => some 'b'
  | '\x0c' => some 'f'
  | '\n' => some 'n'
  | '\r' => some 'r'
  | '\t' => some 't'
  | _ => none

def escapeChar (c : Char) : List Char :=
  match escapeLetter? c with
  | some l => ['\\', l]
  | none => if c < ' ' then '\\' :: 'u' :: '0' :: '0' :: hexPair c.toNat else [c]

def stringChars (s : String) : List Char := '"' :: (s.toList.flatMap escapeChar ++ ['"'])

/-- A real number; null if it is not finite. -/
def realChars (x : Float) : List Char :=
  if x.isFinite then realLayout.finiteChars x else "null".toList

namespace Document

def leafChars : Document → List Char
  | .bool true => "true".toList
  | .bool false => "false".toList
  | .integer n => signedDigits n
  | .real x => realChars x
  | .string s => stringChars s
  | _ => "null".toList

mutual
def chars : Document → List Char
  | .array items => '[' :: (itemChars items ++ [']'])
  | .object entries => '{' :: (entryChars entries ++ ['}'])
  | d => leafChars d
/-- The items of an array, with commas between them. -/
def itemChars : List Document → List Char
  | [] => []
  | d :: rest => chars d ++ moreItemChars rest
def moreItemChars : List Document → List Char
  | [] => []
  | d :: rest => ',' :: (chars d ++ moreItemChars rest)
/-- The entries of an object, with commas between them. -/
def entryChars : List (String × Document) → List Char
  | [] => []
  | (k, d) :: rest => stringChars k ++ ':' :: (chars d ++ moreEntryChars rest)
def moreEntryChars : List (String × Document) → List Char
  | [] => []
  | (k, d) :: rest => ',' :: (stringChars k ++ ':' :: (chars d ++ moreEntryChars rest))
end

def compact (d : Document) : String := String.ofList d.chars

/-- The compact text, or the first real that has none because it is not finite. -/
def encode (d : Document) : Except Float String :=
  match d.nonFinite? with
  | some x => .error x
  | none => .ok d.compact

def newLine (level : Nat) : List Char := '\n' :: List.replicate (2 * level) ' '

mutual
def prettyChars (level : Nat) : Document → List Char
  | .array [] => ['[', ']']
  | .array (d :: rest) =>
    '[' :: (newLine (level + 1) ++ prettyChars (level + 1) d ++ prettyItems (level + 1) rest
      ++ newLine level ++ [']'])
  | .object [] => ['{', '}']
  | .object ((k, d) :: rest) =>
    '{' :: (newLine (level + 1) ++ stringChars k ++ ':' :: ' ' :: prettyChars (level + 1) d
      ++ prettyEntries (level + 1) rest ++ newLine level ++ ['}'])
  | d => leafChars d
/-- The items behind the first, each on a line of its own. -/
def prettyItems (level : Nat) : List Document → List Char
  | [] => []
  | d :: rest => ',' :: (newLine level ++ prettyChars level d ++ prettyItems level rest)
/-- The entries behind the first, each on a line of its own. -/
def prettyEntries (level : Nat) : List (String × Document) → List Char
  | [] => []
  | (k, d) :: rest =>
    ',' :: (newLine level ++ stringChars k ++ ':' :: ' ' :: prettyChars level d
      ++ prettyEntries level rest)
end

/-- The text of a document with one entry or item a line. -/
def pretty (d : Document) : String := String.ofList (d.prettyChars 0)

end Document

end ServerUi.Json
