import ServerUi.Value.Basic

/-! # Formulas

A formula computes the value of a binding from the values of others.  It is a literal, a name, an
operator applied to formulas, or a choice between two formulas.
-/

namespace ServerUi

inductive UnaryOp where
  | not
  | neg
deriving DecidableEq, Repr

inductive BinaryOp where
  | or
  | and
  | eq
  | ne
  | lt
  | le
  | gt
  | ge
  | add
  | sub
  | mul
  | div
  | rem
deriving DecidableEq, Repr

namespace BinaryOp

def symbol : BinaryOp → String
  | .or => "||"
  | .and => "&&"
  | .eq => "=="
  | .ne => "!="
  | .lt => "<"
  | .le => "<="
  | .gt => ">"
  | .ge => ">="
  | .add => "+"
  | .sub => "-"
  | .mul => "*"
  | .div => "/"
  | .rem => "%"

/-- How tightly the operator binds; all operators of one strength group to the left. -/
def strength : BinaryOp → Nat
  | .or => 1
  | .and => 2
  | .eq | .ne => 3
  | .lt | .le | .gt | .ge => 4
  | .add | .sub => 5
  | .mul | .div | .rem => 6

end BinaryOp

inductive Expr where
  | literal (value : Value)
  | name (key : String)
  | unary (op : UnaryOp) (operand : Expr)
  | binary (op : BinaryOp) (left right : Expr)
  | choice (test yes no : Expr)
deriving Inhabited

namespace Expr

/-- The names a formula reads, in order of writing, with repetitions. -/
def names : Expr → List String
  | .literal _ => []
  | .name k => [k]
  | .unary _ e => e.names
  | .binary _ l r => l.names ++ r.names
  | .choice t y n => t.names ++ y.names ++ n.names

/-- The names a formula reads, ascending and once each. -/
def reads (e : Expr) : List String := (Table.ofPairs (e.names.map (·, ()))).keys

end Expr

end ServerUi
