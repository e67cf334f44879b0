import ServerUi.Expr.Basic
import ServerUi.Value.Codec

/-! # Values of formulas

Arithmetic on integers is exact or fails; a float on either side makes it floating.  A sum with a
text on either side joins the plain texts.  A quotient of integers is an integer if it is exact.
`&&` and `||` look at the right operand only if the left one does not decide.
-/

namespace ServerUi

/-! ## Outcomes in sequence -/

section

variable {ε α β : Type} {x : Except ε α} {f : α → Except ε β}

theorem bind_eq_ok {b : β} (h : (x >>= f) = .ok b) : ∃ a, x = .ok a ∧ f a = .ok b := by
  cases x with
  | error e => cases h
  | ok a => exact ⟨a, rfl, h⟩

theorem bind_eq_error {e : ε} (h : (x >>= f) = .error e) :
    x = .error e ∨ ∃ a, x = .ok a ∧ f a = .error e := by
  cases x with
  | error e' =>
    cases h
    exact .inl rfl
  | ok a => exact .inr ⟨a, rfl, h⟩

end

/-! ## Evaluation -/

inductive EvalError where
  | unknownName (key : String)
  | mismatch (op : BinaryOp) (left right : String)
  | badOperand (operand : String)
  | divisionByZero
  | overflow (symbol : String)
deriving DecidableEq, Repr

def EvalError.message : EvalError → String
  | .unknownName k => s!"Unknown identifier '{k}'"
  | .mismatch op l r => s!"Cannot apply '{op.symbol}' to {l} and {r}"
  | .badOperand k => s!"Cannot apply '-' to {k}"
  | .divisionByZero => "Division by zero"
  | .overflow s => s!"Integer overflow in '{s}'"

namespace Expr

/-- The integer of 64 bits with this value, or an overflow of the operator. -/
def exact (symbol : String) (n : Int) : Except EvalError Value :=
  match int64? n with
  | some i => .ok (.int i)
  | none => .error (.overflow symbol)

def floating (op : BinaryOp) (f : Float → Float → Float) (l r : Value) : Except EvalError Value :=
  match l.float?, r.float? with
  | some x, some y => .ok (.float (f x y))
  | _, _ => .error (.mismatch op l.kindName r.kindName)

/-- The sum of numbers, or the plain texts joined. -/
def sum (l r : Value) : Except EvalError Value :=
  match l, r with
  | .int a, .int b => exact "+" (a.toInt + b.toInt)
  | .string _, _ | _, .string _ => .ok (.string (l.display ++ r.display))
  | _, _ => floating .add (· + ·) l r

def difference (l r : Value) : Except EvalError Value :=
  match l, r with
  | .int a, .int b => exact "-" (a.toInt - b.toInt)
  | _, _ => floating .sub (· - ·) l r

def product (l r : Value) : Except EvalError Value :=
  match l, r with
  | .int a, .int b => exact "*" (a.toInt * b.toInt)
  | _, _ => floating .mul (· * ·) l r

/-- Fails unless both values are numbers and the second is not zero. -/
def divisible (op : BinaryOp) (l r : Value) : Except EvalError Unit :=
  match l.float?, r.float? with
  | some _, some y => if y == 0 then .error .divisionByZero else .ok ()
  | _, _ => .error (.mismatch op l.kindName r.kindName)

/-- The quotient of numbers: an integer where it is exact and fits, else a float. -/
def quotient (l r : Value) : Except EvalError Value := do
  divisible .div l r
  match l, r with
  | .int a, .int b =>
    if a.toInt.tmod b.toInt = 0 then
      match int64? (a.toInt.tdiv b.toInt) with
      | some i => pure (.int i)
      | none => floating .div (· / ·) l r
    else floating .div (· / ·) l r
  | _, _ => floating .div (· / ·) l r

/-- The remainder of numbers, with the sign of the dividend.  The one pair of integers whose
quotient overflows has none. -/
def residue (l r : Value) : Except EvalError Value := do
  divisible .rem l r
  match l, r with
  | .int a, .int b =>
    if (int64? (a.toInt.tdiv b.toInt)).isSome then exact "%" (a.toInt.tmod b.toInt)
    else .error (.overflow "%")
  | _, _ => floating .rem Decimal.remainder l r

/-- Compares texts by code point and numbers as floats; NaN compares with nothing. -/
def order (op : BinaryOp) (l r : Value) : Except EvalError (Option Ordering) :=
  match l, r with
  | .string a, .string b => .ok (some (if a < b then .lt else if a = b then .eq else .gt))
  | _, _ =>
    match l.float?, r.float? with
    | some x, some y =>
      .ok (if x < y then some .lt else if x == y then some .eq
        else if y < x then some .gt else none)
    | _, _ => .error (.mismatch op l.kindName r.kindName)

def comparison (op : BinaryOp) (holds : Ordering → Bool) (l r : Value) :
    Except EvalError Value := do
  let o ← order op l r
  pure (.bool (o.elim false holds))

def apply (op : BinaryOp) (l r : Value) : Except EvalError Value :=
  match op with
  | .or => .ok (.bool (l.isTruthy || r.isTruthy))
  | .and => .ok (.bool (l.isTruthy && r.isTruthy))
  | .eq => .ok (.bool (l.looseEq r))
  | .ne => .ok (.bool (!l.looseEq r))
  | .lt => comparison .lt Ordering.isLT l r
  | .le => comparison .le Ordering.isLE l r
  | .gt => comparison .gt Ordering.isGT l r
  | .ge => comparison .ge Ordering.isGE l r
  | .add => sum l r
  | .sub => difference l r
  | .mul => product l r
  | .div => quotient l r
  | .rem => residue l r

def negate : Value → Except EvalError Value
  | .int i => exact "-" (-i.toInt)
  | .float x => .ok (.float (-x))
  | v => .error (.badOperand v.kindName)

def eval (values : Table Value) : Expr → Except EvalError Value
  | .literal v => .ok v
  | .name k =>
    match values.find? k with
    | some v => .ok v
    | none => .error (.unknownName k)
  | .unary .not e => do
    let v ← e.eval values
    pure (.bool (!v.isTruthy))
  | .unary .neg e => do
    let v ← e.eval values
    negate v
  | .binary .and l r => do
    let a ← l.eval values
    if a.isTruthy then
      let b ← r.eval values
      pure (.bool b.isTruthy)
    else pure (.bool false)
  | .binary .or l r => do
    let a ← l.eval values
    if a.isTruthy then pure (.bool true)
    else
      let b ← r.eval values
      pure (.bool b.isTruthy)
  | .binary op l r => do
    let a ← l.eval values
    let b ← r.eval values
    apply op a b
  | .choice t y n => do
    let v ← t.eval values
    if v.isTruthy then y.eval values else n.eval values

end Expr

end ServerUi
