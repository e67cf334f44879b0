import Mathlib.Data.List.Chain
import ServerUi.Expr.Parser

/-! # The grammar of formulas

Which sources write which formulas, said as rules and without a reader.  A source is a row of
tokens with any blanks around each (`Writes`); how a token may be spelled is `Spells`, and which
rows of tokens form a formula is `Derives`:

    expr    := or ('?' expr ':' expr)?
    or      := and ('||' and)*
    and     := eq ('&&' eq)*
    eq      := cmp (('==' | '!=') cmp)*
    cmp     := sum (('<' | '<=' | '>' | '>=') sum)*
    sum     := product (('+' | '-') product)*
    product := unary (('*' | '/' | '%') unary)*
    unary   := ('!' | '-') unary | atom
    atom    := number | string | true | false | null | identifier | '(' expr ')'

The rules look for no longest token: `12` could as well be the two tokens `1` and `2`, and `<=`
the two tokens `<` and `=`.  That no formula can be read in two ways is a theorem
(`Proofs.Expr.Parsing`) and not part of the rules.
-/

namespace ServerUi.Expr

open ServerUi.Decimal

/-! ## Spelling -/

/-- At least one decimal digit, and nothing else. -/
def Digits (ds : List Char) : Prop := ds ≠ [] ∧ ∀ c ∈ ds, c.isDigit = true

/-- The digits of a whole number: a lone zero, or digits of which the first is not zero. -/
def Whole (ds : List Char) : Prop := ds = ['0'] ∨ Digits ds ∧ ds.head? ≠ some '0'

def Word : List Char → Prop
  | [] => False
  | c :: cs => startsWord c = true ∧ ∀ d ∈ cs, continuesWord d = true

/-- The words that are no names. -/
def keywords : List String := ["true", "false", "null"]

/-- How a token may be spelled. -/
inductive Spells : Token → List Char → Prop
  | integer {ds : List Char} {i : Int64} (whole : Whole ds) (fits : i.toInt = natOfDigits ds) :
    Spells (.literal (.int i)) ds
  | decimal {ws fs : List Char} (whole : Whole ws) (fraction : Digits fs) :
    Spells (.literal (.float (nearest (natOfDigits (ws ++ fs)) (-(fs.length : Int)))))
      (ws ++ '.' :: fs)
  | text {quote : Char} {cs : List Char} (mark : quote = '\'' ∨ quote = '"')
    (inside : quote ∉ cs) :
    Spells (.literal (.string (String.ofList cs))) (quote :: (cs ++ [quote]))
  | true : Spells (.literal (.bool true)) ['t', 'r', 'u', 'e']
  | false : Spells (.literal (.bool false)) ['f', 'a', 'l', 's', 'e']
  | null : Spells (.literal .null) ['n', 'u', 'l', 'l']
  | name {cs : List Char} (word : Word cs) (free : String.ofList cs ∉ keywords) :
    Spells (.name (String.ofList cs)) cs
  | openParen : Spells .openParen ['(']
  | closeParen : Spells .closeParen [')']
  | question : Spells .question ['?']
  | colon : Spells .colon [':']
  | bang : Spells .bang ['!']
  | op (o : BinaryOp) : Spells (.op o) o.symbol.toList

/-- White space only. -/
def Blank (cs : List Char) : Prop := ∀ c ∈ cs, Text.isBlank c = true

/-- The tokens one after the other, with any white space around each. -/
inductive Writes : List Token → List Char → Prop
  | nil {ws : List Char} (blank : Blank ws) : Writes [] ws
  | cons {t : Token} {ts : List Token} {ws w cs : List Char} (blank : Blank ws)
    (token : Spells t w) (rest : Writes ts cs) : Writes (t :: ts) (ws ++ (w ++ cs))

/-! ## Phrases -/

/-- The rules for operators between operands, from the loosest to the tightest. -/
inductive Tier where
  | or
  | and
  | eq
  | cmp
  | sum
  | product

/-- The rules of the grammar. -/
inductive Nonterminal where
  | expr
  | tier (k : Tier)
  | unary
  | atom

namespace Tier

def operators : Tier → List BinaryOp
  | .or => [.or]
  | .and => [.and]
  | .eq => [.eq, .ne]
  | .cmp => [.lt, .le, .gt, .ge]
  | .sum => [.add, .sub]
  | .product => [.mul, .div, .rem]

def operand : Tier → Nonterminal
  | .or => .tier .and
  | .and => .tier .eq
  | .eq => .tier .cmp
  | .cmp => .tier .sum
  | .sum => .tier .product
  | .product => .unary

end Tier

/-- The tokens that a rule derives, with the formula they form.  A chain of operators of one rule
groups to the left: what stands before its last operator is such a chain, and what stands behind
it is a single operand. -/
inductive Derives : Nonterminal → List Token → Expr → Prop
  | plain {ts : List Token} {e : Expr} (whole : Derives (.tier .or) ts e) : Derives .expr ts e
  | choice {ts ys ns : List Token} {t y n : Expr} (test : Derives (.tier .or) ts t)
    (yes : Derives .expr ys y) (no : Derives .expr ns n) :
    Derives .expr (ts ++ .question :: (ys ++ .colon :: ns)) (.choice t y n)
  | operand {k : Tier} {ts : List Token} {e : Expr} (single : Derives k.operand ts e) :
    Derives (.tier k) ts e
  | binary {k : Tier} {o : BinaryOp} {ls rs : List Token} {l r : Expr} (mem : o ∈ k.operators)
    (left : Derives (.tier k) ls l) (right : Derives k.operand rs r) :
    Derives (.tier k) (ls ++ .op o :: rs) (.binary o l r)
  | not {ts : List Token} {e : Expr} (operand : Derives .unary ts e) :
    Derives .unary (.bang :: ts) (.unary .not e)
  | neg {ts : List Token} {e : Expr} (operand : Derives .unary ts e) :
    Derives .unary (.op .sub :: ts) (.unary .neg e)
  | atom {ts : List Token} {e : Expr} (single : Derives .atom ts e) : Derives .unary ts e
  | literal (v : Value) : Derives .atom [.literal v] (.literal v)
  | name (k : String) : Derives .atom [.name k] (.name k)
  | parens {ts : List Token} {e : Expr} (inside : Derives .expr ts e) :
    Derives .atom (.openParen :: (ts ++ [.closeParen])) e

/-- The source writes the formula. -/
def Written (source : String) (e : Expr) : Prop :=
  ∃ ts, Writes ts source.toList ∧ Derives .expr ts e

/-! ## Neighbours

In what a rule derives, tokens that end an operand and tokens that start one alternate with the
tokens between operands.  Spellings of such neighbours never run together. -/

namespace Token

/-- May an operand start with the token? -/
def opens : Token → Bool
  | .literal _ | .name _ | .openParen | .bang | .op .sub => true
  | _ => false

/-- May an operand end with the token? -/
def closes : Token → Bool
  | .literal _ | .name _ | .closeParen => true
  | _ => false

/-- May the token stand behind an operand? -/
def joins : Token → Bool
  | .op _ | .question | .colon | .closeParen => true
  | _ => false

/-- May one token stand behind the other? -/
def Meets (t u : Token) : Prop := if t.closes then u.joins = true else u.opens = true

end Token

/-- Tokens that meet one another, from one that starts an operand to one that ends it. -/
structure Compound (ts : List Token) : Prop where
  nonempty : ts ≠ []
  first : ∀ t ∈ ts.head?, t.opens = true
  last : ∀ t ∈ ts.getLast?, t.closes = true
  meets : ts.IsChain Token.Meets

namespace Compound

theorem single {t : Token} (opens : t.opens = true) (closes : t.closes = true) : Compound [t] where
  nonempty := List.cons_ne_nil _ _
  first := by simpa using opens
  last := by simpa using closes
  meets := .singleton t

/-- A token before an operand, as a sign or an opening parenthesis. -/
theorem cons {t : Token} {ts : List Token} (opens : t.opens = true) (inner : t.closes = false)
    (h : Compound ts) : Compound (t :: ts) where
  nonempty := List.cons_ne_nil _ _
  first := by simpa using opens
  last := by
    intro u hu
    rw [List.getLast?_cons_of_ne_nil h.nonempty] at hu
    exact h.last u hu
  meets :=
    List.isChain_cons.mpr ⟨fun u hu => by simpa [Token.Meets, inner] using h.first u hu, h.meets⟩

/-- A token between two operands. -/
theorem join {t : Token} {ls rs : List Token} (left : Compound ls) (joins : t.joins = true)
    (inner : t.closes = false) (right : Compound rs) : Compound (ls ++ t :: rs) where
  nonempty := by simp
  first := by
    intro u hu
    rw [List.head?_append_of_ne_nil _ left.nonempty] at hu
    exact left.first u hu
  last := by
    intro u hu
    rw [List.getLast?_append_of_ne_nil _ (List.cons_ne_nil _ _),
      List.getLast?_cons_of_ne_nil right.nonempty] at hu
    exact right.last u hu
  meets := by
    have behind : ∀ u ∈ rs.head?, Token.Meets t u := fun u hu => by
      simpa [Token.Meets, inner] using right.first u hu
    refine List.isChain_append.mpr ⟨left.meets, List.isChain_cons.mpr ⟨behind, right.meets⟩, ?_⟩
    intro u hu v hv
    obtain rfl : t = v := by simpa using hv
    simpa [Token.Meets, left.last u hu] using joins

theorem parens {ts : List Token} (h : Compound ts) :
    Compound (.openParen :: (ts ++ [.closeParen])) where
  nonempty := List.cons_ne_nil _ _
  first := by simp [Token.opens]
  last := by
    intro u hu
    rw [← List.cons_append, List.getLast?_concat] at hu
    obtain rfl : Token.closeParen = u := by simpa using hu
    rfl
  meets := by
    refine List.isChain_cons.mpr
      ⟨fun u hu => ?_, List.isChain_append.mpr ⟨h.meets, .singleton _, ?_⟩⟩
    · rw [List.head?_append_of_ne_nil _ h.nonempty] at hu
      exact h.first u hu
    · intro u hu v hv
      obtain rfl : Token.closeParen = v := by simpa using hv
      simp [Token.Meets, h.last u hu, Token.joins]

end Compound

theorem Derives.compound {x : Nonterminal} {ts : List Token} {e : Expr} (h : Derives x ts e) :
    Compound ts := by
  induction h with
  | plain _ ih => exact ih
  | choice _ _ _ test yes no => exact test.join rfl rfl (yes.join rfl rfl no)
  | operand _ ih => exact ih
  | binary _ _ _ left right => exact left.join rfl rfl right
  | not _ ih => exact ih.cons rfl rfl
  | neg _ ih => exact ih.cons rfl rfl
  | atom _ ih => exact ih
  | literal v => exact .single rfl rfl
  | name k => exact .single rfl rfl
  | parens _ ih => exact ih.parens

end ServerUi.Expr
