import ServerUi.Decimal.Reading
import ServerUi.Expr.Basic
import ServerUi.Text.Character

/-! # Tokens of formulas

A formula is cut into tokens by an automaton that looks at one character after the other.  White
space may stand around every token.  A number is `0` or starts with another digit, and may have a
point with digits behind it; without a point it must fit 64 bits.  A text stands between two
quotes of one kind and has no escapes.  A word has ASCII letters, digits and underscores.
-/

namespace ServerUi.Expr

open ServerUi.Decimal

inductive Token where
  /-- A number, a text, or one of the words for null and the truth values. -/
  | literal (value : Value)
  | name (key : String)
  | openParen
  | closeParen
  | question
  | colon
  | bang
  /-- An operator between two operands; the minus sign also stands before one. -/
  | op (op : BinaryOp)

/-- Where the automaton stands; digits and letters are kept backwards. -/
inductive Scan where
  | between
  /-- Behind a number that is a lone zero. -/
  | zero
  | whole (digits : List Char)
  /-- Behind the point of a number. -/
  | point (whole : List Char)
  | fraction (whole digits : List Char)
  | word (letters : List Char)
  /-- In a text, before the closing quote. -/
  | quoted (quote : Char) (letters : List Char)
  /-- Behind a character that starts an operator of two. -/
  | half (first : Char)

def startsWord (c : Char) : Bool := c.isAlpha || c == '_'

def continuesWord (c : Char) : Bool := c.isAlpha || c.isDigit || c == '_'

/-- The token of a word: one of three literals, or a name. -/
def wordToken (s : String) : Token :=
  if s = "true" then .literal (.bool true)
  else if s = "false" then .literal (.bool false)
  else if s = "null" then .literal .null
  else .name s

/-- The token of a number without point, if it fits 64 bits. -/
def wholeToken? (digits : List Char) : Option Token :=
  (int64? (natOfDigits digits)).map fun i => .literal (.int i)

def fractionToken (whole digits : List Char) : Token :=
  .literal (.float (nearest (natOfDigits (whole ++ digits)) (-(digits.length : Int))))

def pair? : Char → Char → Option BinaryOp
  | '|', '|' => some .or
  | '&', '&' => some .and
  | '=', '=' => some .eq
  | '!', '=' => some .ne
  | '<', '=' => some .le
  | '>', '=' => some .ge
  | _, _ => none

/-- The token of the first character of `pair?` when it stands alone. -/
def lone? : Char → Option Token
  | '!' => some .bang
  | '<' => some (.op .lt)
  | '>' => some (.op .gt)
  | _ => none

namespace Scan

/-- Starts a token at a character, or passes over white space. -/
def start (c : Char) : Option (Scan × List Token) :=
  if Text.isBlank c then some (.between, [])
  else if c == '0' then some (.zero, [])
  else if c.isDigit then some (.whole [c], [])
  else if startsWord c then some (.word [c], [])
  else match c with
    | '(' => some (.between, [.openParen])
    | ')' => some (.between, [.closeParen])
    | '?' => some (.between, [.question])
    | ':' => some (.between, [.colon])
    | '*' => some (.between, [.op .mul])
    | '/' => some (.between, [.op .div])
    | '%' => some (.between, [.op .rem])
    | '+' => some (.between, [.op .add])
    | '-' => some (.between, [.op .sub])
    | '|' | '&' | '=' | '!' | '<' | '>' => some (.half c, [])
    | '\'' | '"' => some (.quoted c [], [])
    | _ => none

/-- The token that is complete when the next character does not belong to it. -/
def complete? : Scan → Option Token
  | .zero => wholeToken? ['0']
  | .whole ds => wholeToken? ds.reverse
  | .fraction ws ds => some (fractionToken ws.reverse ds.reverse)
  | .word ls => some (wordToken (String.ofList ls.reverse))
  | .half c => lone? c
  | _ => none

/-- The step of the automaton on one character: where it stands then, and the tokens completed. -/
def step (s : Scan) (c : Char) : Option (Scan × List Token) :=
  let next := do
    let t ← s.complete?
    let (n, ts) ← start c
    pure (n, t :: ts)
  match s with
  | .between => start c
  | .zero => if c == '.' then some (.point ['0'], []) else next
  | .whole ds =>
    if c.isDigit then some (.whole (c :: ds), [])
    else if c == '.' then some (.point ds, [])
    else next
  | .point ws => if c.isDigit then some (.fraction ws [c], []) else none
  | .fraction ws ds => if c.isDigit then some (.fraction ws (c :: ds), []) else next
  | .word ls => if continuesWord c then some (.word (c :: ls), []) else next
  | .quoted q ls =>
    if c == q then some (.between, [.literal (.string (String.ofList ls.reverse))])
    else some (.quoted q (c :: ls), [])
  | .half first =>
    match pair? first c with
    | some o => some (.between, [.op o])
    | none => next

def finish : Scan → Option (List Token)
  | .between => some []
  | s => s.complete?.map ([·])

def run : Scan → List Char → Option (List Token)
  | s, [] => s.finish
  | s, c :: rest => do
    let (next, ts) ← s.step c
    let more ← next.run rest
    pure (ts ++ more)

end Scan

def tokens? (source : String) : Option (List Token) := Scan.between.run source.toList

end ServerUi.Expr
