import ServerUi.Json.Reader
import ServerUi.Json.Writer
import ServerUi.Table

/-! # Trees

A tree is what a document amounts to once all of it has been read: its numbers are words or floats,
its keys ascend, the last of entries with one key has won, and no part is malformed.
-/

namespace ServerUi.Json

/-- A number as a tree holds it. -/
inductive Number where
  /-- A word without a sign. -/
  | natural (n : UInt64)
  /-- A word with a sign, for numbers below zero. -/
  | negative (i : Int64)
  | real (x : Float)

namespace Number

/-- A whole number as a word; it must fit one of the two. -/
def ofInt (n : Int) : Number :=
  if 0 ≤ n then .natural (UInt64.ofNat n.toNat) else .negative (Int64.ofInt n)

/-- The number as a word with a sign, if it is whole by its form and fits. -/
def int64? : Number → Option Int64
  | .natural n => ServerUi.int64? n.toNat
  | .negative i => some i
  | .real _ => none

def toFloat : Number → Float
  | .natural n => Float.ofNat n.toNat
  | .negative i => Float.ofInt i.toInt
  | .real x => x

def toDocument : Number → Document
  | .natural n => .integer n.toNat
  | .negative i => .integer i.toInt
  | .real x => .real x

end Number

inductive Tree where
  | null
  | bool (b : Bool)
  | number (n : Number)
  | string (s : String)
  | array (items : List Tree)
  | object (entries : List (String × Tree))
deriving Inhabited

namespace Tree

/-- The number of a float; one that is not finite has none and is null. -/
def ofFloat (x : Float) : Tree := if x.isFinite then .number (.real x) else .null

mutual
/-- The tree that a document amounts to; nothing if a part of it is malformed. -/
def ofDocument : Document → Option Tree
  | .null => some .null
  | .bool b => some (.bool b)
  | .integer n => some (.number (.ofInt n))
  | .real x => some (ofFloat x)
  | .string s => some (.string s)
  | .array items => (ofItems items).map .array
  | .object entries => (ofEntries entries []).map .object
  | .malformed => none
def ofItems : List Document → Option (List Tree)
  | [] => some []
  | d :: rest => do
    let t ← ofDocument d
    let more ← ofItems rest
    pure (t :: more)
/-- Puts the entries of an object into those read before. -/
def ofEntries : List (String × Document) → Entries Tree → Option (Entries Tree)
  | [], acc => some acc
  | (k, d) :: rest, acc => do
    let t ← ofDocument d
    ofEntries rest (acc.insert k t)
end

def readBytes (bytes : List UInt8) : Option Tree := (Document.readBytes bytes).bind ofDocument

mutual
def toDocument : Tree → Document
  | .null => .null
  | .bool b => .bool b
  | .number n => n.toDocument
  | .string s => .string s
  | .array items => .array (toItems items)
  | .object entries => .object (toEntries entries)
def toItems : List Tree → List Document
  | [] => []
  | t :: rest => toDocument t :: toItems rest
def toEntries : List (String × Tree) → List (String × Document)
  | [] => []
  | (k, t) :: rest => (k, toDocument t) :: toEntries rest
end

def compact (t : Tree) : String := t.toDocument.compact

end Tree

end ServerUi.Json
