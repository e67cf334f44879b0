import ServerUi.Expr.Token

/-! # Reading formulas

The grammar, from the loosest to the tightest form:

* a formula is a chain of operators, and may go on with `?`, a formula, `:` and a formula;
* the operators of a chain group by strength, and to the left where it is equal;
* an operand is an atom behind any number of `!` and `-`;
* an atom is a literal, a name, or a formula in parentheses.

Each function returns what it read and the tokens left.  The number that bounds the recursion is
computed from the tokens and always suffices.
-/

namespace ServerUi.Expr

mutual
def formula : Nat → List Token → Option (Expr × List Token)
  | 0, _ => none
  | n + 1, ts => do
    let (test, rest) ← chain n 1 ts
    match rest with
    | .question :: rest => do
      let (yes, rest) ← formula n rest
      match rest with
      | .colon :: rest => do
        let (no, rest) ← formula n rest
        pure (.choice test yes no, rest)
      | _ => none
    | _ => pure (test, rest)
/-- Reads a chain of the operators at least as strong as `s`. -/
def chain : Nat → Nat → List Token → Option (Expr × List Token)
  | 0, _, _ => none
  | n + 1, s, ts => do
    let (left, rest) ← operand n ts
    more n s left rest
/-- Reads on behind the left operand of a chain. -/
def more : Nat → Nat → Expr → List Token → Option (Expr × List Token)
  | 0, _, _, _ => none
  | n + 1, s, left, ts =>
    match ts with
    | .op o :: rest =>
      if s ≤ o.strength then do
        let (right, rest) ← chain n (o.strength + 1) rest
        more n s (.binary o left right) rest
      else some (left, ts)
    | _ => some (left, ts)
def operand : Nat → List Token → Option (Expr × List Token)
  | 0, _ => none
  | n + 1, ts =>
    match ts with
    | .literal v :: rest => some (.literal v, rest)
    | .name k :: rest => some (.name k, rest)
    | .bang :: rest => do
      let (e, rest) ← operand n rest
      pure (.unary .not e, rest)
    | .op .sub :: rest => do
      let (e, rest) ← operand n rest
      pure (.unary .neg e, rest)
    | .openParen :: rest => do
      let (e, rest) ← formula n rest
      match rest with
      | .closeParen :: rest => pure (e, rest)
      | _ => none
    | _ => none
end

def ofTokens? (ts : List Token) : Option Expr :=
  match formula (4 * ts.length + 4) ts with
  | some (e, []) => some e
  | _ => none

def parse? (source : String) : Option Expr := (tokens? source).bind ofTokens?

end ServerUi.Expr
