import ServerUi.Decimal.Binary

/-! # Documents

A JSON document as a tree.  Entries of an object keep the order and the repetitions of the text.
A part of the text that is well delimited and has no meaning is `malformed`: a string with a
broken encoding, a number beyond the floats, a container inside too many others.  Such a part is
an error only to a reader that needs it, so fields that a reader does not know may hold one.
-/

namespace ServerUi.Json

inductive Document where
  | null
  | bool (b : Bool)
  /-- A whole number that fits 64 bits, with a sign or without. -/
  | integer (n : Int)
  | real (x : Float)
  | string (s : String)
  | array (items : List Document)
  | object (entries : List (String × Document))
  | malformed
deriving Inhabited

namespace Document

/-- The greatest number of containers that may be open at once. -/
def maxDepth : Nat := 127

def string? : Document → Option String
  | .string s => some s
  | _ => none

def bool? : Document → Option Bool
  | .bool b => some b
  | _ => none

/-- A natural number at most `bound`; a number with a fraction or exponent is none. -/
def natural? (bound : Nat) : Document → Option Nat
  | .integer n => if 0 ≤ n && n ≤ bound then some n.toNat else none
  | _ => none

def int64? : Document → Option Int64
  | .integer n => ServerUi.int64? n
  | _ => none

/-- A name out of a fixed set, as a string or as an object with that key alone and null. -/
def name? : Document → Option String
  | .string s => some s
  | .object [(s, .null)] => some s
  | _ => none

/-- An entry for a value that is left out when it is absent. -/
def whenSome {α : Type} (name : String) (write : α → Document) :
    Option α → List (String × Document)
  | none => []
  | some a => [(name, write a)]

/-! ## Reals that are not finite -/

mutual
/-- The first real, in the order of writing, that is not finite. -/
def nonFinite? : Document → Option Float
  | .real x => if x.isFinite then none else some x
  | .array items => nonFiniteAmong? items
  | .object entries => nonFiniteUnder? entries
  | _ => none
def nonFiniteAmong? : List Document → Option Float
  | [] => none
  | d :: rest => (nonFinite? d).or (nonFiniteAmong? rest)
def nonFiniteUnder? : List (String × Document) → Option Float
  | [] => none
  | (_, d) :: rest => (nonFinite? d).or (nonFiniteUnder? rest)
end

end Document

end ServerUi.Json
