import ServerUi.Decimal.Reading
import ServerUi.Json.Document
import ServerUi.Text.Character
import ServerUi.Text.Utf8

/-! # Tokens

The text of a document is cut into tokens by an automaton that looks at one symbol after the
other.  Blank space is space, tab, line feed and carriage return.  Inside a string a control
character is an error, and so is a backslash before anything but the eight letters and `u` with
four digits of base sixteen; a stray byte or an unpaired surrogate only makes the string
`malformed`.

A number is read from its parts as written.  A literal without fraction and exponent is an integer
while it fits 64 bits, except that minus zero is a real; every other literal is read by
`Decimal.scaled`.
-/

namespace ServerUi.Json

open ServerUi.Decimal
open ServerUi.Text (Symbol)

/-! ## Number literals -/

/-- A number as written: sign, digits, and for a fraction or an exponent their digits. -/
structure Literal where
  negative : Bool
  whole : List Char
  fraction : Option (List Char)
  /-- Sign and digits of the exponent; `true` stands for a minus. -/
  exponent : Option (Bool × List Char)
deriving Repr

namespace Literal

/-- The significand of 64 bits that the digits fill and the power of ten that goes with it. -/
def significand (l : Literal) : Nat × Int :=
  let (n, dropped) := takeWord 0 l.whole
  let power := match l.exponent with
    | none => 0
    | some (minus, ds) => if minus then -(natOfDigits ds : Int) else natOfDigits ds
  match l.fraction with
  | none => (n, dropped.length + power)
  | some ds =>
    let (m, unused) := takeWord n ds
    (m, dropped.length - ((ds.length - unused.length : Nat) : Int) + power)

/-- The real number of a literal, or `malformed` where it is beyond the floats. -/
def real (l : Literal) : Document :=
  let (n, power) := l.significand
  match scaled n power with
  | none => .malformed
  | some x => .real (if l.negative then -x else x)

def toDocument (l : Literal) : Document :=
  match l.fraction, l.exponent with
  | none, none =>
    let n := natOfDigits l.whole
    if l.negative then
      if 0 < n && fitsSigned (-n) then .integer (-n) else l.real
    else if fitsUnsigned n then .integer n else l.real
  | _, _ => l.real

end Literal

/-! ## The automaton -/

inductive Token where
  | openArray
  | closeArray
  | openObject
  | closeObject
  | comma
  | colon
  /-- A string, or nothing for one with a broken encoding. -/
  | text (s : Option String)
  /-- A document of one token other than a string. -/
  | atom (d : Document)

/-- The part of a number that the automaton is in. -/
inductive NumberPart where
  /-- Behind the minus sign. -/
  | sign
  /-- Behind a leading zero. -/
  | zero
  | whole
  /-- Behind the point. -/
  | point
  | fraction
  /-- Behind the letter of the exponent. -/
  | power
  /-- Behind the sign of the exponent. -/
  | powerSign
  | exponent
deriving DecidableEq

/-- A string in the making: its characters backwards, whether its encoding holds, and the leading
surrogate that waits for its partner. -/
structure TextDraft where
  reversed : List Char
  sound : Bool
  pending : Option Nat

inductive Scan where
  | between
  /-- In a word, before the letters still expected. -/
  | word (rest : List Char) (value : Document)
  /-- In a number, whose digits are kept backwards. -/
  | number (part : NumberPart) (literal : Literal)
  | string (draft : TextDraft)
  | escape (draft : TextDraft)
  /-- In the digits of a code unit, before so many more. -/
  | unit (more : Nat) (code : Nat) (draft : TextDraft)

namespace TextDraft

def empty : TextDraft := ⟨[], true, none⟩

/-- Adds a character; a leading surrogate that waits is now alone. -/
def push (t : TextDraft) (c : Char) : TextDraft :=
  ⟨c :: t.reversed, t.sound && t.pending.isNone, none⟩

/-- Notes that the encoding is broken. -/
def spoil (t : TextDraft) : TextDraft := ⟨t.reversed, false, none⟩

/-- Adds a code unit: a character, or half of a surrogate pair. -/
def pushUnit (t : TextDraft) (code : Nat) : TextDraft :=
  match t.pending with
  | some high =>
    if 0xDC00 ≤ code && code < 0xE000 then
      ⟨Char.ofNat (0x10000 + (high - 0xD800) * 0x400 + (code - 0xDC00)) :: t.reversed, t.sound,
        none⟩
    else t.spoil
  | none =>
    if 0xD800 ≤ code && code < 0xDC00 then ⟨t.reversed, t.sound, some code⟩
    else if 0xDC00 ≤ code && code < 0xE000 then t.spoil
    else t.push (Char.ofNat code)

def finish (t : TextDraft) : Option String :=
  if t.sound && t.pending.isNone then some (String.ofList t.reversed.reverse) else none

end TextDraft

/-- May the character stand between tokens? -/
def isSpace (c : Char) : Bool := c == ' ' || c == '\t' || c == '\n' || c == '\r'

/-- The character that a letter behind a backslash stands for. -/
def unescape? : Char → Option Char
  | '"' => some '"'
  | '\\' => some '\\'
  | '/' => some '/'
  | 'b' => some '\x08'
  | 'f' => some '\x0c'
  | 'n' => some '\n'
  | 'r' => some '\r'
  | 't' => some '\t'
  | _ => none

/-- The literal with its digits the right way round. -/
def Literal.reversed (l : Literal) : Literal :=
  ⟨l.negative, l.whole.reverse, l.fraction.map List.reverse,
    l.exponent.map fun (minus, ds) => (minus, ds.reverse)⟩

/-- Starts a token at a character, or passes over blank space. -/
def Scan.start (c : Char) : Option (Scan × List Token) :=
  if isSpace c then some (.between, [])
  else match c with
    | '[' => some (.between, [.openArray])
    | ']' => some (.between, [.closeArray])
    | '{' => some (.between, [.openObject])
    | '}' => some (.between, [.closeObject])
    | ',' => some (.between, [.comma])
    | ':' => some (.between, [.colon])
    | '"' => some (.string .empty, [])
    | 't' => some (.word ['r', 'u', 'e'] (.bool true), [])
    | 'f' => some (.word ['a', 'l', 's', 'e'] (.bool false), [])
    | 'n' => some (.word ['u', 'l', 'l'] .null, [])
    | '-' => some (.number .sign ⟨true, [], none, none⟩, [])
    | '0' => some (.number .zero ⟨false, ['0'], none, none⟩, [])
    | c => if c.isDigit then some (.number .whole ⟨false, [c], none, none⟩, []) else none

/-- Does a number that stands in this part end well? -/
def NumberPart.isComplete : NumberPart → Bool
  | .zero | .whole | .fraction | .exponent => true
  | _ => false

/-- What a character adds to a number; nothing if the number ends before it. -/
def NumberPart.extend? (part : NumberPart) (l : Literal) (c : Char) :
    Option (NumberPart × Literal) :=
  let wholeDigit := some (.whole, { l with whole := c :: l.whole })
  let point := some (.point, { l with fraction := some [] })
  let power := some (.power, { l with exponent := some (false, []) })
  let fractionDigit := some (.fraction, { l with fraction := l.fraction.map (c :: ·) })
  let powerDigit :=
    some (.exponent, { l with exponent := l.exponent.map fun (s, ds) => (s, c :: ds) })
  match part with
  | .sign => if c == '0' then some (.zero, { l with whole := ['0'] })
      else if c.isDigit then wholeDigit else none
  | .zero => if c == '.' then point else if c == 'e' || c == 'E' then power else none
  | .whole => if c.isDigit then wholeDigit else if c == '.' then point
      else if c == 'e' || c == 'E' then power else none
  | .point => if c.isDigit then fractionDigit else none
  | .fraction => if c.isDigit then fractionDigit else if c == 'e' || c == 'E' then power else none
  | .power => if c == '+' then some (.powerSign, l)
      else if c == '-' then some (.powerSign, { l with exponent := some (true, []) })
      else if c.isDigit then powerDigit else none
  | .powerSign => if c.isDigit then powerDigit else none
  | .exponent => if c.isDigit then powerDigit else none

/-- The step of the automaton on one symbol: where it stands then, and the tokens completed. -/
def Scan.step : Scan → Symbol → Option (Scan × List Token)
  | .string t, .stray _ => some (.string t.spoil, [])
  | _, .stray _ => none
  | .between, .char c => start c
  | .word rest value, .char c =>
    match rest with
    | [] => none
    | [l] => if c == l then some (.between, [.atom value]) else none
    | l :: more => if c == l then some (.word more value, []) else none
  | .number part l, .char c =>
    match part.extend? l c with
    | some (next, m) => some (.number next m, [])
    | none =>
      if part.isComplete && !c.isDigit then
        (start c).map fun (s, ts) => (s, .atom l.reversed.toDocument :: ts)
      else none
  | .string t, .char c =>
    if c == '"' then some (.between, [.text t.finish])
    else if c == '\\' then some (.escape t, [])
    else if c < ' ' then none
    else some (.string (t.push c), [])
  | .escape t, .char c =>
    if c == 'u' then some (.unit 3 0 t, [])
    else (unescape? c).map fun d => (.string (t.push d), [])
  | .unit more code t, .char c => do
    let d ← Text.hexValue? c
    match more with
    | 0 => some (.string (t.pushUnit (16 * code + d)), [])
    | more + 1 => some (.unit more (16 * code + d) t, [])

def Scan.finish : Scan → Option (List Token)
  | .between => some []
  | .number part l => if part.isComplete then some [.atom l.reversed.toDocument] else none
  | _ => none

def Scan.run : Scan → List Symbol → Option (List Token)
  | s, [] => s.finish
  | s, x :: rest => do
    let (next, ts) ← s.step x
    let more ← next.run rest
    pure (ts ++ more)

end ServerUi.Json
