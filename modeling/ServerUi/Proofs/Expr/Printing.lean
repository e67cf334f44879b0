import ServerUi.Proofs.Decimal.Digits
import ServerUi.Proofs.Expr.Parsing

/-! # Writing formulas

A formula is written with parentheses only around an operand that binds less tightly than its place
asks for (`printed`).  No row of tokens that derives the formula is shorter (`length_printed_le`),
so no pair of parentheses could be left out.  With any white space around the tokens, what is
written is read back as the same formula (`parse?_print`).
-/

namespace ServerUi.Expr

/-! ## Tokens of a formula -/

/-- How tightly the outermost form of a formula binds. -/
def tightness : Expr → Nat
  | .choice .. => 0
  | .binary o _ _ => o.strength
  | .unary .. => 7
  | .literal _ | .name _ => 8

/-- The tokens of a formula at a place that asks for some tightness. -/
def enclosed (asked : Nat) (e : Expr) (ts : List Token) : List Token :=
  if e.tightness < asked then .openParen :: (ts ++ [.closeParen]) else ts

/-- The tokens of a formula, with parentheses where they are needed.  What stands between `?` and
`:` and what stands behind them may be any formula, since nothing stronger looks for an operand
there. -/
def printed : Expr → List Token
  | .literal v => [.literal v]
  | .name k => [.name k]
  | .unary .not e => .bang :: enclosed 7 e e.printed
  | .unary .neg e => .op .sub :: enclosed 7 e e.printed
  | .binary o l r =>
    enclosed o.strength l l.printed ++ .op o :: enclosed (o.strength + 1) r r.printed
  | .choice t y n =>
    enclosed 1 t t.printed ++ .question :: (y.printed ++ .colon :: n.printed)

/-- The rule of a place that asks for some tightness. -/
def place : Nat → Nonterminal
  | 0 => .expr
  | s + 1 => rule (s + 1)

theorem derives_place_of_le {s k : Nat} (le : s ≤ k) {ts : List Token} {e : Expr}
    (h : Derives (place k) ts e) : Derives (place s) ts e :=
  match s, k, h with
  | 0, 0, h => h
  | 0, _ + 1, h => .plain (derives_of_le (Nat.le_add_left 1 _) h)
  | _ + 1, _ + 1, h => derives_of_le le h

/-- A formula that is derived as tightly as it binds is derived at any place, in parentheses if need
be. -/
theorem derives_enclosed (asked : Nat) (asked_le : asked ≤ 7) {e : Expr} {ts : List Token}
    (h : Derives (place e.tightness) ts e) : Derives (place asked) (enclosed asked e ts) e := by
  unfold enclosed
  split
  · have atom : Derives (place 7) (.openParen :: (ts ++ [.closeParen])) e :=
      .atom (.parens (derives_place_of_le (Nat.zero_le _) h))
    exact derives_place_of_le asked_le atom
  · exact derives_place_of_le (Nat.le_of_not_lt ‹_›) h

theorem place_strength (o : BinaryOp) : place o.strength = rule o.strength := by
  cases o <;> rfl

/-- By induction on the formula: each operand is derived at the place that it stands in. -/
theorem derives_printed (e : Expr) : Derives (place e.tightness) e.printed e := by
  induction e with
  | literal v => exact .atom (.literal v)
  | name k => exact .atom (.name k)
  | unary op e ih =>
    have operand : Derives .unary (enclosed 7 e e.printed) e :=
      derives_enclosed 7 (Nat.le_refl 7) ih
    cases op with
    | not => exact .not operand
    | neg => exact .neg operand
  | binary o l r left right =>
    have strong := strength_le o
    have left := derives_enclosed o.strength (by omega) left
    have right := derives_enclosed (o.strength + 1) (by omega) right
    rw [tightness, place_strength] at *
    exact derives_binary left right
  | choice t y n test yes no =>
    -- the question mark ends the test and the colon the first branch, so only the test is enclosed
    exact .choice (derives_enclosed 1 (by decide) test)
      (derives_place_of_le (Nat.zero_le _) yes) (derives_place_of_le (Nat.zero_le _) no)

/-! ## No parentheses to spare -/

/-- The tightness that a rule asks for. -/
def Nonterminal.asks : Nonterminal → Nat
  | .expr => 0
  | .tier k => k.strength
  | .unary => 7
  | .atom => 8

theorem length_enclosed_le_of_le {s k : Nat} (le : s ≤ k) (e : Expr) (ts : List Token) :
    (enclosed s e ts).length ≤ (enclosed k e ts).length := by
  unfold enclosed
  split <;> split <;> simp <;> omega

theorem enclosed_of_le {s : Nat} {e : Expr} (le : s ≤ e.tightness) (ts : List Token) :
    enclosed s e ts = ts :=
  if_neg (Nat.not_lt_of_le le)

theorem enclosed_expr (e : Expr) (ts : List Token) : enclosed Nonterminal.expr.asks e ts = ts :=
  enclosed_of_le (Nat.zero_le _) ts

/-- By induction on the derivation: where a rule passes to a tighter one without parentheses, the
tightness that is asked for only grows. -/
theorem length_enclosed_le {x : Nonterminal} {ts : List Token} {e : Expr} (h : Derives x ts e) :
    (enclosed x.asks e e.printed).length ≤ ts.length := by
  induction h with
  | plain _ ih => exact (length_enclosed_le_of_le (Nat.zero_le _) _ _).trans ih
  | choice _ _ _ test yes no =>
    rw [enclosed_expr] at yes no ⊢
    have test : (enclosed 1 _ _).length ≤ _ := test
    simp only [printed, List.length_append, List.length_cons]
    omega
  | @operand k ts e _ ih =>
    have tighter : k.strength ≤ k.operand.asks := by cases k <;> decide
    exact (length_enclosed_le_of_le tighter _ _).trans ih
  | @binary k o ls rs l r mem _ _ left right =>
    -- a tier groups to the left: its right operand is asked to bind more tightly
    have strength := strength_of_mem mem
    have operand : k.operand.asks = k.strength + 1 := by cases k <;> rfl
    rw [operand, ← strength] at right
    have left : (enclosed k.strength l l.printed).length ≤ _ := left
    rw [← strength] at left
    have same : enclosed (Nonterminal.tier k).asks (.binary o l r) (printed (.binary o l r)) =
        printed (.binary o l r) := enclosed_of_le (Nat.le_of_eq strength.symm) _
    rw [same]
    simp only [printed, List.length_append, List.length_cons]
    omega
  | not _ ih => exact Nat.succ_le_succ ih
  | neg _ ih => exact Nat.succ_le_succ ih
  | atom _ ih => exact (length_enclosed_le_of_le (by decide) _ _).trans ih
  | literal v => exact Nat.le_refl _
  | name k => exact Nat.le_refl _
  | @parens ts e _ ih =>
    rw [enclosed_expr] at ih
    unfold enclosed
    split <;> simp <;> omega

/-- No row of tokens that writes the formula is shorter than the printed one. -/
theorem length_printed_le {ts : List Token} {e : Expr} (h : Derives .expr ts e) :
    e.printed.length ≤ ts.length := by
  have least := length_enclosed_le h
  rwa [enclosed_expr] at least

/-! ## Spelling -/

/-- A literal that has a spelling and is not a decimal: null, a truth value, an integer without a
sign, or a text without one of the two quotes. -/
def Spellable : Value → Prop
  | .null | .bool _ => True
  | .int i => 0 ≤ i.toInt
  | .string s => '\'' ∉ s.toList ∨ '"' ∉ s.toList
  | _ => False

/-- A formula of such literals and of names that are words and no keywords. -/
def Printable : Expr → Prop
  | .literal v => Spellable v
  | .name k => Word k.toList ∧ k ∉ keywords
  | .unary _ e => e.Printable
  | .binary _ l r => l.Printable ∧ r.Printable
  | .choice t y n => t.Printable ∧ y.Printable ∧ n.Printable

def quoteOf (s : String) : Char := if '\'' ∈ s.toList then '"' else '\''

def literalChars : Value → List Char
  | .null => ['n', 'u', 'l', 'l']
  | .bool true => ['t', 'r', 'u', 'e']
  | .bool false => ['f', 'a', 'l', 's', 'e']
  | .int i => Decimal.digits i.toInt.toNat
  | .string s => quoteOf s :: (s.toList ++ [quoteOf s])
  | _ => []

namespace Token

def chars : Token → List Char
  | .literal v => literalChars v
  | .name k => k.toList
  | .openParen => ['(']
  | .closeParen => [')']
  | .question => ['?']
  | .colon => [':']
  | .bang => ['!']
  | .op o => o.symbol.toList

/-- May the token be in a printable formula? -/
def Printable : Token → Prop
  | .literal v => Spellable v
  | .name k => Word k.toList ∧ k ∉ keywords
  | _ => True

end Token

theorem whole_digits (n : Nat) : Whole (Decimal.digits n) ∧
    Decimal.natOfDigits (Decimal.digits n) = n := by
  refine ⟨?_, Decimal.natOfDigits_digits n⟩
  rcases Nat.eq_zero_or_pos n with rfl | positive
  · exact .inl rfl
  · obtain ⟨c, ds, e, nonzero, digit, -⟩ := Decimal.exists_digits positive
    rw [e]
    refine .inr ⟨⟨List.cons_ne_nil c ds, digit⟩, ?_⟩
    simpa using nonzero

theorem spells_literal {v : Value} (h : Spellable v) : Spells (.literal v) (literalChars v) := by
  cases v with
  | null => exact .null
  | bool b => cases b <;> constructor
  | int i =>
    obtain ⟨whole, value⟩ := whole_digits i.toInt.toNat
    have fits : i.toInt = Decimal.natOfDigits (Decimal.digits i.toInt.toNat) := by
      rw [value, Int.toNat_of_nonneg h]
    exact .integer whole fits
  | string s =>
    have mark : quoteOf s = '\'' ∨ quoteOf s = '"' := by
      unfold quoteOf
      split <;> simp
    -- a text with one of the two quotes stands between the other ones
    have inside : quoteOf s ∉ s.toList := by
      unfold quoteOf
      split
      · exact h.resolve_left (not_not.mpr ‹_›)
      · assumption
    simpa [literalChars] using Spells.text mark inside
  | float x => cases h
  | array items => cases h
  | object entries => cases h

theorem spells_chars {t : Token} (h : t.Printable) : Spells t t.chars := by
  cases t with
  | literal v => exact spells_literal h
  | name k => simpa [Token.chars] using Spells.name h.1 (by simpa using h.2)
  | op o => exact .op o
  | _ => constructor

theorem printable_enclosed {asked : Nat} {e : Expr} {ts : List Token}
    (h : ∀ t ∈ ts, t.Printable) : ∀ t ∈ enclosed asked e ts, t.Printable := by
  unfold enclosed
  split
  · intro t ht
    rw [List.mem_cons, List.mem_append, List.mem_singleton] at ht
    rcases ht with rfl | ht | rfl
    · trivial
    · exact h t ht
    · trivial
  · exact h

theorem printable_join {u : Token} {ls rs : List Token} (left : ∀ t ∈ ls, t.Printable)
    (inner : u.Printable) (right : ∀ t ∈ rs, t.Printable) :
    ∀ t ∈ ls ++ u :: rs, t.Printable := by
  intro t ht
  rw [List.mem_append, List.mem_cons] at ht
  rcases ht with ht | rfl | ht
  · exact left t ht
  · exact inner
  · exact right t ht

theorem printable_printed {e : Expr} (h : e.Printable) : ∀ t ∈ e.printed, t.Printable := by
  induction e with
  | literal v =>
    intro t ht
    cases List.mem_singleton.mp ht
    exact h
  | name k =>
    intro t ht
    cases List.mem_singleton.mp ht
    exact h
  | unary op e ih =>
    have operand : ∀ t ∈ enclosed 7 e e.printed, t.Printable := printable_enclosed (ih h)
    have none : ∀ t ∈ ([] : List Token), t.Printable := nofun
    cases op with
    | not => exact printable_join none trivial operand
    | neg => exact printable_join none trivial operand
  | binary o l r left right =>
    exact printable_join (printable_enclosed (left h.1)) trivial (printable_enclosed (right h.2))
  | choice t y n test yes no =>
    exact printable_join (printable_enclosed (test h.1)) trivial
      (printable_join (yes h.2.1) trivial (no h.2.2))

/-! ## Layout -/

/-- The tokens with a gap before each and one at the end. -/
def spaced (gap : Nat → List Char) : List Token → List Char
  | [] => gap 0
  | t :: ts => gap 0 ++ (t.chars ++ spaced (fun i => gap (i + 1)) ts)

/-- The source of a formula, with these gaps. -/
def print (gap : Nat → List Char) (e : Expr) : String := String.ofList (spaced gap e.printed)

theorem writes_spaced {gap : Nat → List Char} (blank : ∀ i, Blank (gap i)) {ts : List Token}
    (h : ∀ t ∈ ts, t.Printable) : Writes ts (spaced gap ts) := by
  induction ts generalizing gap with
  | nil => exact .nil (blank 0)
  | cons t ts ih =>
    exact .cons (blank 0) (spells_chars (h t List.mem_cons_self))
      (ih (fun i => blank (i + 1)) fun u hu => h u (List.mem_cons_of_mem t hu))

theorem derives_expr_printed (e : Expr) : Derives .expr e.printed e :=
  derives_place_of_le (Nat.zero_le _) (derives_printed e)

/-- **What is written is read back.**  A formula of names, texts with one kind of quote at most, and
integers without sign, truth values and null is written with parentheses only where they are needed:
no row of tokens that writes the formula is shorter.  However the tokens are spelled, and with any
white space around them or none, the source is read as that formula; so it is with the spelling of
`print` and any gaps. -/
theorem parse?_print {e : Expr} (printable : e.Printable) {gap : Nat → List Char}
    (blank : ∀ i, Blank (gap i)) :
    parse? (e.print gap) = some e ∧
    (∀ source : String, Writes e.printed source.toList → parse? source = some e) ∧
    ∀ ts, Derives .expr ts e → e.printed.length ≤ ts.length := by
  have reads : ∀ source : String, Writes e.printed source.toList → parse? source = some e :=
    fun source writes => parse?_of_written ⟨e.printed, writes, derives_expr_printed e⟩
  refine ⟨reads _ ?_, reads, fun ts => length_printed_le⟩
  rw [print, String.toList_ofList]
  exact writes_spaced blank (printable_printed printable)

/-- A difference under a sign, a product of it, and a choice as the test of a choice. -/
def nestedFormula : Expr :=
  .choice
    (.choice (.name "a") (.name "b") (.binary .eq (.name "c") (.literal (.string "it's"))))
    (.binary .mul (.unary .neg (.binary .sub (.name "x") (.literal (.int 12)))) (.name "y"))
    (.binary .sub (.name "x") (.binary .sub (.name "y") (.unary .not (.unary .not (.name "z")))))

/-- The parentheses stand around the first choice, around the difference under the sign and around
the difference on the right. -/
theorem nestedFormula_printed :
    nestedFormula.print (fun _ => []) = "(a?b:c==\"it's\")?-(x-12)*y:x-(y-!!z)" ∧
      parse? "(a?b:c==\"it's\")?-(x-12)*y:x-(y-!!z)" = some nestedFormula := by
  have printable : nestedFormula.Printable := by
    simp [nestedFormula, Printable, Spellable, Word, keywords, startsWord]
  have text : nestedFormula.print (fun _ => []) = "(a?b:c==\"it's\")?-(x-12)*y:x-(y-!!z)" := by
    decide +kernel
  have read : parse? (nestedFormula.print fun _ => []) = some nestedFormula :=
    (parse?_print printable fun _ => blank_nil).1
  rw [text] at read
  exact ⟨text, read⟩

end ServerUi.Expr
