import ServerUi.Toml.Scalar
import ServerUi.Toml.Text
import ServerUi.Toml.Tree

/-! # Reading TOML

A text is a list of statements: a key with a value, the header of a table, the header of an
element of an array of tables.  Each takes a line of its own.  Reading takes at least one
character at a time, so the length of the text bounds it; `maxDepth` bounds how deep values may
nest.
-/

namespace ServerUi.Toml

open ServerUi.Json (Document)

inductive Statement where
  | assign (key : List String) (value : Document)
  | table (key : List String)
  | element (key : List String)

/-! ## Between the parts -/

def skipBlanks (cs : List Char) : List Char := cs.dropWhile fun c => c == ' ' || c == '\t'

/-- What follows blanks, line breaks and comments. -/
def skipLines : Bool → List Char → List Char
  | _, [] => []
  | inComment, c :: rest =>
    if c == '\n' then skipLines false rest
    else if c == '\r' then
      if rest.head? == some '\n' then skipLines false rest else c :: rest
    else if inComment then
      if isLineChar c then skipLines true rest else c :: rest
    else if c == ' ' || c == '\t' then skipLines false rest
    else if c == '#' then skipLines true rest
    else c :: rest

/-- What follows the end of a line, with blanks and a comment before it. -/
def endLine? (cs : List Char) : Option (List Char) :=
  let rest := match skipBlanks cs with
    | '#' :: more => more.dropWhile isLineChar
    | more => more
  match rest with
  | [] => some []
  | '\n' :: more => some more
  | '\r' :: '\n' :: more => some more
  | _ => none

/-! ## Keys -/

def isKeyChar (c : Char) : Bool := c.isAlphanum || c == '_' || c == '-'

def keyPart? (cs : List Char) : Option (String × List Char) :=
  match cs with
  | '"' :: _ => shortString? cs
  | '\'' :: _ => shortString? cs
  | _ =>
    let name := cs.takeWhile isKeyChar
    if name.isEmpty then none else some (String.ofList name, cs.dropWhile isKeyChar)

/-- The parts of a key, with dots between them. -/
def key? : Nat → List Char → Option (List String × List Char)
  | 0, _ => none
  | fuel + 1, cs => do
    let (part, rest) ← keyPart? cs
    match skipBlanks rest with
    | '.' :: more =>
      let (parts, rest) ← key? fuel (skipBlanks more)
      pure (part :: parts, rest)
    | rest => pure ([part], rest)

/-! ## Values -/

/-- One more than the greatest number of values that may stand inside each other. -/
def maxDepth : Nat := 80

/-- The table that the assignments of an inline table make. -/
def inlineTable (ps : List (List String × Document)) : Option Document :=
  (ps.foldlM (fun es p => Tree.put p.1 p.2 es) []).map fun es => .object (Tree.toEntries es)

mutual
def value? : Nat → Nat → List Char → Option (Document × List Char)
  | 0, _, _ => none
  | fuel + 1, depth, cs =>
    match cs with
    | '"' :: _ => (string? cs).map fun (s, rest) => (.string s, rest)
    | '\'' :: _ => (string? cs).map fun (s, rest) => (.string s, rest)
    | '[' :: rest =>
      if maxDepth ≤ depth + 1 then none
      else (items? fuel (depth + 1) rest).map fun (ds, rest) => (.array ds, rest)
    | '\x7b' :: rest =>
      if maxDepth ≤ depth + 1 then none
      else do
        let (ps, rest) ← pairs? fuel (depth + 1) rest
        let d ← inlineTable ps
        pure (d, rest)
    | _ =>
      let (word, rest) := splitWord cs
      (word? word).map (·, rest)
def items? : Nat → Nat → List Char → Option (List Document × List Char)
  | 0, _, _ => none
  | fuel + 1, depth, cs =>
    match skipLines false cs with
    | ']' :: rest => some ([], rest)
    | cs => do
      let (d, rest) ← value? fuel depth cs
      match skipLines false rest with
      | ',' :: rest =>
        let (ds, rest) ← items? fuel depth rest
        pure (d :: ds, rest)
      | ']' :: rest => pure ([d], rest)
      | _ => none
def pairs? : Nat → Nat → List Char → Option (List (List String × Document) × List Char)
  | 0, _, _ => none
  | fuel + 1, depth, cs =>
    match skipLines false cs with
    | '\x7d' :: rest => some ([], rest)
    | cs => do
      let (key, rest) ← key? fuel cs
      let rest ← after? '=' rest
      let (d, rest) ← value? fuel depth (skipBlanks rest)
      match skipLines false rest with
      | ',' :: rest =>
        let (ps, rest) ← pairs? fuel depth rest
        pure ((key, d) :: ps, rest)
      | '\x7d' :: rest => pure ([(key, d)], rest)
      | _ => none
end

/-! ## Statements -/

/-- A bound on the number of steps that a text can take. -/
def fuelFor (cs : List Char) : Nat := 2 * cs.length + 2

def statement? (cs : List Char) : Option (Statement × List Char) :=
  match cs with
  | '[' :: '[' :: rest => do
    let (key, rest) ← key? (fuelFor rest) (skipBlanks rest)
    let rest ← (after? ']' rest).bind (after? ']')
    pure (.element key, rest)
  | '[' :: rest => do
    let (key, rest) ← key? (fuelFor rest) (skipBlanks rest)
    let rest ← after? ']' rest
    pure (.table key, rest)
  | _ => do
    let (key, rest) ← key? (fuelFor cs) cs
    let rest ← after? '=' rest
    let (d, rest) ← value? (fuelFor rest) 0 (skipBlanks rest)
    pure (.assign key d, rest)

def statements? : Nat → List Char → Option (List Statement)
  | 0, _ => none
  | fuel + 1, cs =>
    match skipLines false cs with
    | [] => some []
    | cs => do
      let (s, rest) ← statement? cs
      let rest ← endLine? rest
      let more ← statements? fuel rest
      pure (s :: more)

/-- The tables built so far, and the way to the one that is open. -/
structure Draft where
  root : Tree.Branch
  current : List String

/-- Changes the branch that the last part of a key goes into. -/
def Draft.openAt (f : String → Tree.Branch → Option Tree.Branch) (key : List String) (t : Draft) :
    Option Draft := do
  let last ← key.getLast?
  let root ← Tree.descend (f last) key.dropLast t.root
  pure ⟨root, key⟩

def Draft.take (t : Draft) : Statement → Option Draft
  | .assign key d => (Tree.descend (Tree.put key d) t.current t.root).map (⟨·, t.current⟩)
  | .table key => t.openAt Tree.openTable key
  | .element key => t.openAt Tree.openElement key

def read (text : String) : Option Document := do
  let cs := match text.toList with
    | '\ufeff' :: rest => rest
    | cs => cs
  let ss ← statements? (cs.length + 1) cs
  let t ← ss.foldlM Draft.take ⟨[], []⟩
  pure (.object (Tree.toEntries t.root))

end ServerUi.Toml
