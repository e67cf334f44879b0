import ServerUi.Json.Reader
import ServerUi.Json.Writer
import ServerUi.Proofs.Decimal.Digits

/-! # Written leaves are single tokens

The automaton of the tokens, run over what the writer writes for a text or a number.  A text that
is complete by itself may be followed by a comma or a closing bracket without any change to its
tokens (`run_append_boundary`), so leaves are looked at one by one.
-/

namespace ServerUi.Json

open ServerUi.Text (Symbol)
open ServerUi.Decimal

namespace Scan

/-- The run over some symbols without an end: where the automaton stands then, and the tokens
completed. -/
def advance : Scan → List Symbol → Option (Scan × List Token)
  | s, [] => some (s, [])
  | s, x :: rest => do
    let (next, ts) ← s.step x
    let (last, more) ← next.advance rest
    pure (last, ts ++ more)

theorem advance_cons {s next : Scan} {x : Symbol} {ts : List Token} (h : s.step x = some (next, ts))
    (rest : List Symbol) :
    s.advance (x :: rest) = (next.advance rest).map fun r => (r.1, ts ++ r.2) := by
  simp only [advance, h, Option.bind_eq_bind, Option.bind_some, Option.pure_def]
  cases next.advance rest <;> rfl

theorem advance_append {s next : Scan} {xs : List Symbol} {ts : List Token}
    (h : s.advance xs = some (next, ts)) (ys : List Symbol) :
    s.advance (xs ++ ys) = (next.advance ys).map fun r => (r.1, ts ++ r.2) := by
  induction xs generalizing s ts with
  | nil =>
    cases h
    show next.advance ys = _
    cases next.advance ys <;> rfl
  | cons x xs ih =>
    cases hs : s.step x with
    | none => simp [advance, hs] at h
    | some r =>
      obtain ⟨middle, first⟩ := r
      rw [advance_cons hs, Option.map_eq_some_iff] at h
      obtain ⟨⟨last, more⟩, hm, e⟩ := h
      cases e
      rw [List.cons_append, advance_cons hs, ih hm]
      cases last.advance ys <;> simp

theorem run_append (s : Scan) (xs ys : List Symbol) :
    s.run (xs ++ ys) = (s.advance xs).bind fun r => (r.1.run ys).map (r.2 ++ ·) := by
  induction xs generalizing s with
  | nil =>
    show s.run ys = (s.run ys).map ([] ++ ·)
    cases s.run ys <;> rfl
  | cons x xs ih =>
    cases hs : s.step x with
    | none => simp [run, advance, hs]
    | some r =>
      obtain ⟨next, ts⟩ := r
      rw [List.cons_append, advance_cons hs]
      simp only [run, hs, Option.bind_eq_bind, Option.bind_some, Option.pure_def, ih]
      cases next.advance xs with
      | none => rfl
      | some r =>
        obtain ⟨last, more⟩ := r
        simp only [Option.bind_some, Option.map_some]
        cases last.run ys <;> simp

theorem run_of_advance {xs : List Symbol} {s next : Scan} {ts : List Token}
    (h : s.advance xs = some (next, ts)) (ys : List Symbol) :
    s.run (xs ++ ys) = (next.run ys).map (ts ++ ·) := by
  rw [run_append, h]
  rfl

/-! ## What may follow a value -/

/-- Nothing, or a comma or a closing bracket first. -/
def Boundary : List Symbol → Prop
  | [] => True
  | x :: _ => x = .char ',' ∨ x = .char ']' ∨ x = .char '}'

/-- A number that is complete ends before a boundary, as between tokens there is nothing to
end. -/
theorem run_boundary {s : Scan} {ts : List Token} (h : s.finish = some ts) {rest : List Symbol}
    (hb : Boundary rest) : s.run rest = (between.run rest).map (ts ++ ·) := by
  cases s with
  | between =>
    cases h
    cases between.run rest <;> rfl
  | number part l =>
    have complete : part.isComplete = true := by
      cases hc : part.isComplete with
      | true => rfl
      | false => simp [finish, hc] at h
    simp only [finish, complete, if_true, Option.some.injEq] at h
    subst h
    cases rest with
    | nil => simp [run, finish, complete]
    | cons x rest =>
      -- no part of a number goes on with such a character, so the number ends and the character
      -- starts a token of its own
      have ends : ∀ c : Char, c = ',' ∨ c = ']' ∨ c = '}' →
          part.extend? l c = none ∧ c.isDigit = false := by
        intro c hc
        rcases hc with rfl | rfl | rfl <;> cases part <;> exact ⟨rfl, rfl⟩
      have next : ∀ c : Char, c = ',' ∨ c = ']' ∨ c = '}' →
          (number part l).run (.char c :: rest) =
            (between.run (.char c :: rest)).map ([.atom l.reversed.toDocument] ++ ·) := by
        intro c hc
        obtain ⟨stop, digit⟩ := ends c hc
        simp only [run, step, stop, complete, digit, Bool.not_false, Bool.and_self, if_true]
        cases start c with
        | none => rfl
        | some r =>
          obtain ⟨s, ts⟩ := r
          simp only [Option.map_some, Option.bind_eq_bind, Option.bind_some, Option.pure_def]
          cases s.run rest <;> rfl
      rcases hb with rfl | rfl | rfl
      · exact next _ (.inl rfl)
      · exact next _ (.inr (.inl rfl))
      · exact next _ (.inr (.inr rfl))
  | word rest value => simp [finish] at h
  | string t => simp [finish] at h
  | escape t => simp [finish] at h
  | unit more code t => simp [finish] at h

/-- What is a complete text by itself has the same tokens before a boundary. -/
theorem run_append_boundary {xs : List Symbol} {ts : List Token} (h : between.run xs = some ts)
    {rest : List Symbol} (hb : Boundary rest) :
    between.run (xs ++ rest) = (between.run rest).map (ts ++ ·) := by
  have alone := run_append between xs []
  rw [List.append_nil, h] at alone
  obtain ⟨⟨last, more⟩, hl, hf⟩ := Option.bind_eq_some_iff.mp alone.symm
  obtain ⟨final, hf, e⟩ := Option.map_eq_some_iff.mp hf
  rw [run_of_advance hl, run_boundary hf hb, ← e]
  cases between.run rest <;> simp

/-! ## Texts -/

/-- A sound draft of some characters, with no surrogate that waits. -/
def draft (cs : List Char) : TextDraft := ⟨cs.reverse, true, none⟩

theorem push_draft (cs : List Char) (c : Char) : (draft cs).push c = draft (cs ++ [c]) := by
  simp [draft, TextDraft.push]

theorem finish_draft (cs : List Char) : (draft cs).finish = some (String.ofList cs) := by
  simp [draft, TextDraft.finish]

theorem unescape?_escapeLetter? {c l : Char} (h : escapeLetter? c = some l) :
    unescape? l = some c ∧ l ≠ 'u' := by
  unfold escapeLetter? at h
  split at h
  all_goals cases h
  all_goals exact ⟨rfl, by decide⟩

theorem hexValue?_digitChar {d : Nat} (h : d < 16) : Text.hexValue? (Nat.digitChar d) = some d := by
  have all : ∀ d < 16, Text.hexValue? (Nat.digitChar d) = some d := by decide
  exact all d h

/-- A control character is written as a code unit, whose four digits are read one by one. -/
theorem advance_hexPair (cs : List Char) {c : Char} (h : c < ' ') :
    (string (draft cs)).advance (('\\' :: 'u' :: '0' :: '0' :: hexPair c.toNat).map .char) =
      some (string (draft (cs ++ [c])), []) := by
  have small : c.toNat < 32 := h
  have high := hexValue?_digitChar (show c.toNat / 16 < 16 by omega)
  have low := hexValue?_digitChar (show c.toNat % 16 < 16 by omega)
  have zero : Text.hexValue? '0' = some 0 := rfl
  have unit : (draft cs).pushUnit c.toNat = draft (cs ++ [c]) := by
    have notHigh : ¬ 0xD800 ≤ c.toNat := by omega
    have notLow : ¬ 0xDC00 ≤ c.toNat := by omega
    rw [← push_draft]
    simp [TextDraft.pushUnit, draft, notHigh, notLow]
  simp [advance, step, hexPair, zero, high, low, Nat.div_add_mod, unit]

/-- Reading what is written for one character adds it to the draft. -/
theorem advance_escapeChar (cs : List Char) (c : Char) :
    (string (draft cs)).advance ((escapeChar c).map .char) =
      some (string (draft (cs ++ [c])), []) := by
  rw [escapeChar]
  cases hl : escapeLetter? c with
  | some l =>
    obtain ⟨back, notUnit⟩ := unescape?_escapeLetter? hl
    simp [advance, step, back, notUnit, push_draft]
  | none =>
    by_cases control : c < ' '
    · simp only [if_pos control]
      exact advance_hexPair cs control
    · -- what is written as it is neither ends the text nor starts an escape
      have notQuote : c ≠ '"' := by
        rintro rfl
        cases hl
      have notSlash : c ≠ '\\' := by
        rintro rfl
        cases hl
      simp [advance, step, control, notQuote, notSlash, push_draft]

theorem advance_escaped (before cs : List Char) :
    (string (draft before)).advance ((cs.flatMap escapeChar).map .char) =
      some (string (draft (before ++ cs)), []) := by
  induction cs generalizing before with
  | nil => simp [advance]
  | cons c rest ih =>
    rw [List.flatMap_cons, List.map_append, advance_append (advance_escapeChar before c), ih]
    simp

/-- **A written text is read back as one token.**  Whatever characters it has, the quotes that end
it are the ones behind its last character. -/
theorem advance_stringChars (s : String) :
    between.advance ((stringChars s).map .char) = some (between, [.text (some s)]) := by
  have opened : between.step (.char '"') = some (string (draft []), []) := rfl
  have closed : (string (draft s.toList)).advance [.char '"'] =
      some (between, [.text (some s)]) := by
    simp [advance, step, finish_draft]
  rw [stringChars, List.map_cons, advance_cons opened, List.map_append,
    advance_append (advance_escaped [] s.toList)]
  simp [closed]

/-! ## Whole numbers -/

theorem start_digit {c : Char} (h : c.isDigit = true) (hc : c ≠ '0') :
    start c = some (.number .whole ⟨false, [c], none, none⟩, []) := by
  have notSpace : isSpace c = false := by
    cases hs : isSpace c with
    | false => rfl
    | true =>
      simp only [isSpace, Bool.or_eq_true, beq_iff_eq] at hs
      rcases hs with ((rfl | rfl) | rfl) | rfl <;> cases h
  simp only [start, notSpace, Bool.false_eq_true, if_false]
  -- the characters listed before the digits are none but zero
  split
  case h_12 => exact absurd rfl hc
  case h_13 => simp only [h, if_true]
  all_goals cases h

theorem advance_digits (l : Literal) {ds : List Char} (h : ∀ c ∈ ds, c.isDigit = true) :
    (number .whole l).advance (ds.map .char) =
      some (number .whole { l with whole := ds.reverse ++ l.whole }, []) := by
  induction ds generalizing l with
  | nil => rfl
  | cons c rest ih =>
    have digit := h c List.mem_cons_self
    have taken : (number .whole l).step (.char c) =
        some (number .whole { l with whole := c :: l.whole }, []) := by
      simp [step, NumberPart.extend?, digit]
    rw [List.map_cons, advance_cons taken, ih _ fun d hd => h d (List.mem_cons_of_mem _ hd)]
    simp

theorem toDocument_natural {ds : List Char} (h : fitsUnsigned (natOfDigits ds) = true) :
    (⟨false, ds, none, none⟩ : Literal).toDocument = .integer (natOfDigits ds) := by
  simp [Literal.toDocument, h]

theorem toDocument_negative {ds : List Char} (positive : 0 < natOfDigits ds)
    (h : fitsSigned (-natOfDigits ds) = true) :
    (⟨true, ds, none, none⟩ : Literal).toDocument = .integer (-natOfDigits ds) := by
  simp [Literal.toDocument, positive, h]

/-- Behind the sign and the first digit the automaton only collects digits. -/
theorem run_digits (minus : Bool) {c : Char} {ds : List Char}
    (h : ∀ d ∈ c :: ds, d.isDigit = true) :
    (number .whole ⟨minus, [c], none, none⟩).run (ds.map .char) =
      some [.atom (⟨minus, c :: ds, none, none⟩ : Literal).toDocument] := by
  have others := advance_digits ⟨minus, [c], none, none⟩ fun d hd =>
    h d (List.mem_cons_of_mem _ hd)
  rw [← List.append_nil (ds.map _), run_of_advance others]
  simp [run, finish, NumberPart.isComplete, Literal.reversed]

theorem run_zero : between.run ((digits 0).map .char) = some [.atom (.integer 0)] := by
  have opened : between.step (.char '0') = some (number .zero ⟨false, ['0'], none, none⟩, []) :=
    rfl
  have literal : (⟨false, ['0'], none, none⟩ : Literal).toDocument = .integer 0 :=
    toDocument_natural (by decide)
  simp [digits, run, opened, finish, NumberPart.isComplete, Literal.reversed, literal]

theorem run_positive {n : Nat} (h : 0 < n) (fits : fitsUnsigned n = true) :
    between.run ((digits n).map .char) = some [.atom (.integer n)] := by
  obtain ⟨c, ds, e, hc, digit, value⟩ := exists_digits h
  have opened : between.step (.char c) = some (number .whole ⟨false, [c], none, none⟩, []) :=
    start_digit (digit c List.mem_cons_self) hc
  have literal : (⟨false, c :: ds, none, none⟩ : Literal).toDocument = .integer n := by
    rw [toDocument_natural (by rw [value]; exact fits), value]
  simp [e, run, opened, run_digits false digit, literal]

theorem run_negative {n : Nat} (h : 0 < n) (fits : fitsSigned (-n) = true) :
    between.run (('-' :: digits n).map .char) = some [.atom (.integer (-n))] := by
  obtain ⟨c, ds, e, hc, digit, value⟩ := exists_digits h
  have sign : between.step (.char '-') = some (number .sign ⟨true, [], none, none⟩, []) := rfl
  have opened : (number .sign ⟨true, [], none, none⟩).step (.char c) =
      some (number .whole ⟨true, [c], none, none⟩, []) := by
    simp [step, NumberPart.extend?, hc, digit c List.mem_cons_self]
  have literal : (⟨true, c :: ds, none, none⟩ : Literal).toDocument = .integer (-n) := by
    rw [toDocument_negative (by omega) (by rw [value]; exact fits), value]
  simp [e, run, sign, opened, run_digits true digit, literal]

/-- **A written integer is read back as one token**, provided that it fits a word with a sign or
one without. -/
theorem run_signedDigits {n : Int} (fits : fitsSigned n = true ∨ fitsUnsigned n = true) :
    between.run ((signedDigits n).map .char) = some [.atom (.integer n)] := by
  simp only [fitsSigned, fitsUnsigned, Bool.and_eq_true, decide_eq_true_eq] at fits
  rw [signedDigits]
  rcases Int.lt_trichotomy n 0 with negative | rfl | positive
  · have size : -(n.natAbs : Int) = n := by omega
    have signed : fitsSigned n = true := by
      simp only [fitsSigned, Bool.and_eq_true, decide_eq_true_eq]
      omega
    rw [if_pos negative, run_negative (by omega) (by rw [size]; exact signed), size]
  · exact run_zero
  · have size : (n.natAbs : Int) = n := by omega
    have unsigned : fitsUnsigned n = true := by
      -- what fits a word with a sign and is no negative number fits one without
      have top : Int64.maxValue.toInt < UInt64.size := by decide
      simp only [fitsUnsigned, Bool.and_eq_true, decide_eq_true_eq]
      omega
    rw [if_neg (by omega), run_positive (by omega) (by rw [size]; exact unsigned), size]

end Scan

end ServerUi.Json
