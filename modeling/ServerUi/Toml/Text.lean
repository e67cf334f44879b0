import ServerUi.Text.Character
import ServerUi.Text.Utf8

/-! # Strings of TOML

A string stands between quotes of one of two kinds, and between three of a kind it may run over
several lines.  Only double quotes know escapes.  The characters are taken one after the other; what
has been read of an escape is kept as a mark.
-/

namespace ServerUi.Toml

def isLineChar (c : Char) : Bool := c == '\t' || (' ' ≤ c && c != '\x7f')

structure Quoting where
  quote : Char
  /-- Does a backslash start an escape? -/
  escapes : Bool
  /-- May the string run over several lines? -/
  long : Bool

/-- What has been read of an escape. -/
inductive Mark where
  | nothing
  | backslash
  /-- Digits of a code, of which so many are still to come. -/
  | digits (more code : Nat)
  /-- Blanks behind a backslash at the end of a line; has the line ended yet? -/
  | gap (ended : Bool)

/-- The character that a letter behind a backslash stands for. -/
def escaped? : Char → Option Char
  | 'b' => some '\x08'
  | 't' => some '\t'
  | 'n' => some '\n'
  | 'f' => some '\x0c'
  | 'r' => some '\r'
  | 'e' => some '\x1b'
  | '"' => some '"'
  | '\\' => some '\\'
  | _ => none

/-- The number of digits behind a letter that starts a code. -/
def codeLength? : Char → Option Nat
  | 'x' => some 2
  | 'u' => some 4
  | 'U' => some 8
  | _ => none

/-- What follows the quotes that close a long string, and how many quotes in front of them are
text. -/
def closing? (q : Char) : List Char → Option (Nat × List Char)
  | a :: b :: rest =>
    if a == q && b == q then
      match rest with
      | c :: d :: more =>
        if c == q && d == q then some (2, more)
        else if c == q then some (1, d :: more)
        else some (0, rest)
      | [c] => if c == q then some (1, []) else some (0, rest)
      | [] => some (0, [])
    else none
  | _ => none

namespace Quoting

/-- The rest of a string whose text so far is given backwards, and what follows the string. -/
def finish (q : Quoting) : Mark → List Char → List Char → Option (List Char × List Char)
  | _, _, [] => none
  | .backslash, text, c :: rest =>
    match escaped? c, codeLength? c with
    | some d, _ => finish q .nothing (d :: text) rest
    | none, some n => finish q (.digits n 0) text rest
    | none, none =>
      if q.long && (c == ' ' || c == '\t') then finish q (.gap false) text rest
      else if q.long && c == '\n' then finish q (.gap true) text rest
      else if q.long && c == '\r' && rest.head? == some '\n' then finish q (.gap false) text rest
      else none
  | .digits more code, text, c :: rest => do
    let d ← Text.hexValue? c
    let code := 16 * code + d
    if more = 1 then
      let x ← Text.scalar? code
      finish q .nothing (x :: text) rest
    else finish q (.digits (more - 1) code) text rest
  | .gap ended, text, c :: rest =>
    if c == ' ' || c == '\t' then finish q (.gap ended) text rest
    else if c == '\n' then finish q (.gap true) text rest
    else if c == '\r' && rest.head? == some '\n' then finish q (.gap ended) text rest
    else if !ended then none
    else if c == q.quote then
      match closing? q.quote rest with
      | some (n, more) => some (List.replicate n q.quote ++ text, more)
      | none => finish q .nothing (c :: text) rest
    else if c == '\\' then finish q .backslash text rest
    else if isLineChar c then finish q .nothing (c :: text) rest
    else none
  | .nothing, text, c :: rest =>
    if c == q.quote then
      if q.long then
        match closing? q.quote rest with
        | some (n, more) => some (List.replicate n q.quote ++ text, more)
        | none => finish q .nothing (c :: text) rest
      else some (text, rest)
    else if q.escapes && c == '\\' then finish q .backslash text rest
    else if isLineChar c then finish q .nothing (c :: text) rest
    else if q.long && c == '\n' then finish q .nothing (c :: text) rest
    else if q.long && c == '\r' && rest.head? == some '\n' then finish q .nothing text rest
    else none

def read (q : Quoting) (cs : List Char) : Option (String × List Char) :=
  (finish q .nothing [] cs).map fun (text, rest) => (String.ofList text.reverse, rest)

end Quoting

/-- A line break at the front of a long string is no part of it. -/
def dropBreak : List Char → List Char
  | '\n' :: rest => rest
  | '\r' :: '\n' :: rest => rest
  | cs => cs

def shortString? : List Char → Option (String × List Char)
  | '"' :: rest => Quoting.read ⟨'"', true, false⟩ rest
  | '\'' :: rest => Quoting.read ⟨'\'', false, false⟩ rest
  | _ => none

def string? : List Char → Option (String × List Char)
  | '"' :: '"' :: '"' :: rest => Quoting.read ⟨'"', true, true⟩ (dropBreak rest)
  | '\'' :: '\'' :: '\'' :: rest => Quoting.read ⟨'\'', false, true⟩ (dropBreak rest)
  | cs => shortString? cs

end ServerUi.Toml
