import ServerUi.Decimal.Binary
import ServerUi.Table

/-! # Dynamic values

A dynamic value is what a property, a state binding or an action payload holds: null, a boolean,
an integer of 64 bits, a float, a text, a list, or an object with ascending keys.  Integers and
floats are different values; `looseEq` compares them as numbers, `strictEq` tells them apart.
-/

namespace ServerUi

inductive Value where
  | null
  | bool (b : Bool)
  | int (i : Int64)
  | float (x : Float)
  | string (s : String)
  | array (items : List Value)
  | object (entries : List (String × Value))
deriving Inhabited

/-- The float nearest to an integer. -/
def floatOfInt (i : Int64) : Float := Float.ofInt i.toInt

namespace Value

def kindName : Value → String
  | .null => "null"
  | .bool _ => "boolean"
  | .int _ => "integer"
  | .float _ => "float"
  | .string _ => "string"
  | .array _ => "array"
  | .object _ => "object"

def isNull : Value → Bool
  | .null => true
  | _ => false

def isNumber : Value → Bool
  | .int _ | .float _ => true
  | _ => false

def string? : Value → Option String
  | .string s => some s
  | _ => none

theorem string?_eq_some_iff {v : Value} {s : String} : v.string? = some s ↔ v = .string s := by
  cases v <;> simp [string?]

def bool? : Value → Option Bool
  | .bool b => some b
  | _ => none

def int? : Value → Option Int64
  | .int i => some i
  | _ => none

theorem int?_eq_some_iff {v : Value} {i : Int64} : v.int? = some i ↔ v = .int i := by
  cases v <;> simp [int?]

def float? : Value → Option Float
  | .int i => some (floatOfInt i)
  | .float x => some x
  | _ => none

def array? : Value → Option (List Value)
  | .array items => some items
  | _ => none

def object? : Value → Option (Entries Value)
  | .object entries => some entries
  | _ => none

def get? (v : Value) (key : String) : Option Value := v.object?.bind (Entries.find? · key)

/-- Null, false, zero, NaN and whatever is empty count as false, all else as true. -/
def isTruthy : Value → Bool
  | .null => false
  | .bool b => b
  | .int i => i != 0
  | .float x => x != 0 && !x.isNaN
  | .string s => !s.isEmpty
  | .array items => !items.isEmpty
  | .object entries => !entries.isEmpty

/-- The value of a table: an object with the same entries. -/
def ofTable (t : Table Value) : Value := .object t.entries

/-- The number equal to a float: an integer if the float is whole and fits, else the float. -/
def ofFloat (x : Float) : Value :=
  match (Decimal.whole? x).bind int64? with
  | some i => .int i
  | none => .float x

/-! ## Order of keys -/

mutual
/-- Do the keys of every object ascend, at every depth? -/
def Ordered : Value → Prop
  | .array items => OrderedItems items
  | .object entries => Entries.Ascending entries ∧ OrderedEntries entries
  | _ => True
def OrderedItems : List Value → Prop
  | [] => True
  | v :: rest => Ordered v ∧ OrderedItems rest
def OrderedEntries : List (String × Value) → Prop
  | [] => True
  | (_, v) :: rest => Ordered v ∧ OrderedEntries rest
end

/-! ## Equality -/

mutual
/-- Equality in which an integer equals a float of the same size, at every depth. -/
def looseEq : Value → Value → Bool
  | .null, .null => true
  | .bool a, .bool b => a == b
  | .int a, .int b => a == b
  | .float a, .float b => a == b
  | .int a, .float b => floatOfInt a == b
  | .float a, .int b => floatOfInt b == a
  | .string a, .string b => a == b
  | .array a, .array b => looseEqItems a b
  | .object a, .object b => looseEqEntries a b
  | _, _ => false
def looseEqItems : List Value → List Value → Bool
  | [], [] => true
  | a :: as, b :: bs => looseEq a b && looseEqItems as bs
  | _, _ => false
def looseEqEntries : List (String × Value) → List (String × Value) → Bool
  | [], [] => true
  | (k, a) :: as, (l, b) :: bs => k == l && looseEq a b && looseEqEntries as bs
  | _, _ => false
end

mutual
/-- Equality that tells integers from floats; a NaN equals nothing. -/
def strictEq : Value → Value → Bool
  | .null, .null => true
  | .bool a, .bool b => a == b
  | .int a, .int b => a == b
  | .float a, .float b => a == b
  | .string a, .string b => a == b
  | .array a, .array b => strictEqItems a b
  | .object a, .object b => strictEqEntries a b
  | _, _ => false
def strictEqItems : List Value → List Value → Bool
  | [], [] => true
  | a :: as, b :: bs => strictEq a b && strictEqItems as bs
  | _, _ => false
def strictEqEntries : List (String × Value) → List (String × Value) → Bool
  | [], [] => true
  | (k, a) :: as, (l, b) :: bs => k == l && strictEq a b && strictEqEntries as bs
  | _, _ => false
end

end Value

end ServerUi
