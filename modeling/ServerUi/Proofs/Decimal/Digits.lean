import ServerUi.Decimal.Layout
import ServerUi.Decimal.Reading

/-! # The digits of numbers

An integer is written with its decimal digits, of which the first is not zero, and is read back from
them (`integerOf?_signedDigits`).  A float is written with digits and a few other characters
(`isFigure_of_mem_chars`).
-/

namespace ServerUi.Decimal

theorem digits_ne_nil (n : Nat) : digits n ≠ [] := Nat.toDigits_ne_nil

theorem all_isDigit_digits (n : Nat) : ∀ c ∈ digits n, c.isDigit = true :=
  fun _ hc => Nat.isDigit_of_mem_toDigits (by decide) (by decide) hc

theorem natOfDigits_digits (n : Nat) : natOfDigits (digits n) = n :=
  Nat.ofDigitChars_ten_toDigits

theorem digits_cons {n : Nat} (h : 0 < n) : ∃ c ds, digits n = c :: ds ∧ c ≠ '0' := by
  induction n using Nat.strongRecOn with
  | ind n ih =>
    by_cases small : n < 10
    · have nonzero : ∀ n < 10, 0 < n → Nat.digitChar n ≠ '0' := by decide
      exact ⟨Nat.digitChar n, [], Nat.toDigits_of_lt_base small, nonzero n small h⟩
    · obtain ⟨c, ds, e, hc⟩ := ih (n / 10) (by omega) (by omega)
      refine ⟨c, ds ++ [Nat.digitChar (n % 10)], ?_, hc⟩
      rw [digits, Nat.toDigits_of_base_le (by decide) (by omega), ← digits, e, List.cons_append]

/-- The digits of a positive number start with one that is not zero. -/
theorem exists_digits {n : Nat} (h : 0 < n) :
    ∃ c ds, digits n = c :: ds ∧ c ≠ '0' ∧ (∀ d ∈ c :: ds, d.isDigit = true) ∧
      natOfDigits (c :: ds) = n := by
  obtain ⟨c, ds, e, hc⟩ := digits_cons h
  exact ⟨c, ds, e, hc, e ▸ all_isDigit_digits n, e ▸ natOfDigits_digits n⟩

/-- Digits without a sign are a number as they are. -/
theorem splitSign_digits {ds : List Char} (digits : ∀ c ∈ ds, c.isDigit = true) :
    splitSign ds = (false, ds) := by
  unfold splitSign
  split
  · cases digits _ List.mem_cons_self
  · cases digits _ List.mem_cons_self
  · rfl

/-- **Integers come back from their digits.** -/
theorem integerOf?_signedDigits (n : Int) : integerOf? (signedDigits n) = some n := by
  have number : ((digits n.natAbs).isEmpty || !(digits n.natAbs).all Char.isDigit) = false := by
    rw [Bool.or_eq_false_iff, List.isEmpty_eq_false_iff, Bool.not_eq_false', List.all_eq_true]
    exact ⟨digits_ne_nil _, all_isDigit_digits _⟩
  unfold signedDigits
  split
  case isTrue negative =>
    simp only [integerOf?, splitSign, number, natOfDigits_digits]
    show some (-(n.natAbs : Int)) = some n
    rw [Int.ofNat_natAbs_of_nonpos (by omega), Int.neg_neg]
  case isFalse positive =>
    simp only [integerOf?, splitSign_digits (all_isDigit_digits _), number, natOfDigits_digits]
    show some (n.natAbs : Int) = some n
    rw [Int.natAbs_of_nonneg (by omega)]

/-! ## Floats -/

/-- The characters that floats are written with. -/
def IsFigure (c : Char) : Prop :=
  c.isDigit = true ∨ c ∈ ['+', '-', '.', 'e', 'N', 'a', 'i', 'n', 'f']

variable {pointZero : Bool} {ds : List Char} {exponent : Int} {c : Char}

theorem isFigure_of_mem_digits {n : Nat} (h : c ∈ digits n) : IsFigure c :=
  .inl (all_isDigit_digits n c h)

theorem isFigure_of_mem_positionalChars (figures : ∀ c ∈ ds, IsFigure c)
    (h : c ∈ positionalChars pointZero ds exponent) : IsFigure c := by
  have point : IsFigure '.' := .inr (by decide)
  have zero : IsFigure '0' := .inl rfl
  revert h
  unfold positionalChars
  dsimp only
  split
  · split <;> grind
  · split <;> grind

theorem isFigure_of_mem_scientificChars (figures : ∀ c ∈ ds, IsFigure c)
    (h : c ∈ scientificChars ds exponent) : IsFigure c := by
  have power (n : Nat) : ∀ c ∈ digits n, IsFigure c := fun _ => isFigure_of_mem_digits
  have point : IsFigure '.' := .inr (by decide)
  have mark : IsFigure 'e' := .inr (by decide)
  have plus : IsFigure '+' := .inr (by decide)
  have minus : IsFigure '-' := .inr (by decide)
  revert h
  unfold scientificChars
  dsimp only
  split
  all_goals split <;> grind

/-- A float is written with digits, and with the letters and marks of a few words. -/
theorem isFigure_of_mem_chars {l : Layout} {x : Float} (h : c ∈ l.chars x) : IsFigure c := by
  have words : (["NaN", "-inf", "inf"].all fun w =>
      w.toList.all ['+', '-', '.', 'e', 'N', 'a', 'i', 'n', 'f'].contains) = true := by rfl
  simp only [List.all_eq_true, List.contains_iff_mem] at words
  have minus : IsFigure '-' := .inr (by decide)
  have finite : c ∈ l.finiteChars x → IsFigure c := by
    unfold Layout.finiteChars
    dsimp only
    split <;> split <;>
      grind [isFigure_of_mem_digits, isFigure_of_mem_positionalChars,
        isFigure_of_mem_scientificChars]
  revert h
  unfold Layout.chars
  split
  · exact fun mem => .inr (words _ (by simp) c mem)
  · split
    · split
      · exact fun mem => .inr (words _ (by simp) c mem)
      · exact fun mem => .inr (words _ (by simp) c mem)
    · exact finite

end ServerUi.Decimal
