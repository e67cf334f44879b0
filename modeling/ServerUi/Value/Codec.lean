import ServerUi.Json.Reader
import ServerUi.Json.Record
import ServerUi.Json.Tree
import ServerUi.Value.Basic

/-! # Values, documents and trees

Reading a value from a document turns every whole number that fits 64 bits into an integer,
however it was written, and keeps the last of entries with one key.  Writing fails on a float that
is not finite.  A value can also be made from a tree and become one; a float that is not finite
becomes null there, so `compact`, which writes the tree, never fails.

As plain text a text is shown as it is, null as nothing, a number without a point if it is whole,
and a list or an object as the compact text of its tree.
-/

namespace ServerUi.Value

open ServerUi.Json (Document Tree)

mutual
/-- The value that a document holds; nothing if a part of it is malformed. -/
def ofDocument : Document → Option Value
  | .null => some .null
  | .bool b => some (.bool b)
  | .integer n => some (match int64? n with
    | some i => .int i
    | none => .float (Float.ofInt n))
  | .real x => some (ofFloat x)
  | .string s => some (.string s)
  | .array items => (ofItems items).map .array
  | .object entries => (ofEntries entries []).map .object
  | .malformed => none
def ofItems : List Document → Option (List Value)
  | [] => some []
  | d :: rest => do
    let v ← ofDocument d
    let more ← ofItems rest
    pure (v :: more)
/-- Puts the entries of an object into those read before. -/
def ofEntries : List (String × Document) → Entries Value → Option (Entries Value)
  | [], acc => some acc
  | (k, d) :: rest, acc => do
    let v ← ofDocument d
    ofEntries rest (acc.insert k v)
end

def tableOfDocument (d : Document) : Option (Table Value) := d.table? ofDocument

mutual
def toDocument : Value → Document
  | .null => .null
  | .bool b => .bool b
  | .int i => .integer i.toInt
  | .float x => .real x
  | .string s => .string s
  | .array items => .array (toItems items)
  | .object entries => .object (toEntries entries)
def toItems : List Value → List Document
  | [] => []
  | v :: rest => toDocument v :: toItems rest
def toEntries : List (String × Value) → List (String × Document)
  | [] => []
  | (k, v) :: rest => (k, toDocument v) :: toEntries rest
end

def decode (text : String) : Option Value := (Document.read text).bind ofDocument

def decodeBytes (bytes : List UInt8) : Option Value := (Document.readBytes bytes).bind ofDocument

mutual
def ofTree : Tree → Value
  | .null => .null
  | .bool b => .bool b
  | .number n =>
    match n.int64? with
    | some i => .int i
    | none => ofFloat n.toFloat
  | .string s => .string s
  | .array items => .array (ofTrees items)
  | .object entries => .object (ofTreesUnder entries)
def ofTrees : List Tree → List Value
  | [] => []
  | t :: rest => ofTree t :: ofTrees rest
def ofTreesUnder : List (String × Tree) → List (String × Value)
  | [] => []
  | (k, t) :: rest => (k, ofTree t) :: ofTreesUnder rest
end

mutual
/-- The tree of a value, with null for a float that is not finite. -/
def toTree : Value → Tree
  | .null => .null
  | .bool b => .bool b
  | .int i => .number (.ofInt i.toInt)
  | .float x => .ofFloat x
  | .string s => .string s
  | .array items => .array (toTrees items)
  | .object entries => .object (toTreesUnder entries)
def toTrees : List Value → List Tree
  | [] => []
  | v :: rest => toTree v :: toTrees rest
def toTreesUnder : List (String × Value) → List (String × Tree)
  | [] => []
  | (k, v) :: rest => (k, toTree v) :: toTreesUnder rest
end

def compact (v : Value) : String := v.toTree.compact

/-- The compact text of a value, or the float that has none. -/
def encode (v : Value) : Except Float String := v.toDocument.encode

end ServerUi.Value

/-! ## Plain text -/

namespace ServerUi

/-- Numbers are shown positionally with the fewest digits that read back, of two equally near
ones the greater, and without a point if they are whole. -/
def displayLayout : Decimal.Layout where
  positional _ := true
  pointZero := false
  tie := .upward

def floatText (x : Float) : String := String.ofList (displayLayout.chars x)

def intText (i : Int64) : String := String.ofList (Decimal.signedDigits i.toInt)

namespace Value

def display : Value → String
  | .null => ""
  | .bool b => if b then "true" else "false"
  | .int i => intText i
  | .float x => floatText x
  | .string s => s
  | v => v.compact

def encodingMessage (x : Float) : String :=
  "Failed to encode dynamic value: non-finite number " ++ floatText x

end Value

end ServerUi
