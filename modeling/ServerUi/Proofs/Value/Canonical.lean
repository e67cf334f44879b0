import ServerUi.Proofs.Value.Rewriting

/-! # What reading yields has one text

Bytes may write a number in many ways: with a sign or without one, beyond the integers of 64 bits,
as minus zero, with a fraction or with an exponent.  Reading brings all of them into one form, in
which no float is a whole number that an integer could hold.  So whatever was read can be written,
and from then on neither the value nor its text changes any more (`decodeBytes_canonical`).
-/

namespace ServerUi.Value

open ServerUi.Json

/-- **What reading yields is canonical.**  In a value that was read from bytes every float is finite
and is no whole number that fits a word with a sign, and at most 127 containers are inside one
another.  The value has a text.  If the texts of its floats are read back, then its text is read
back as the same value, and that value is written as the same text again. -/
theorem decodeBytes_canonical {bytes : List UInt8} {v : Value}
    (decoded : decodeBytes bytes = some v) :
    (∀ x ∈ v.floats, x.isFinite = true ∧ ¬ IsWhole x) ∧ v.depth ≤ 127 ∧
    ∃ text, v.encode = .ok text ∧
      ((∀ x ∈ v.floats, Document.read (String.ofList (realChars x)) = some (.real x)) →
        decodeBytes (Text.bytesOf text) = some v ∧
        (decodeBytes (Text.bytesOf text)).map encode = some (.ok text)) := by
  obtain ⟨d, read, held⟩ := Option.bind_eq_some_iff.mp decoded
  have sound := Document.held_readBytes read
  obtain ⟨settled, shallow⟩ := settled_of_ofDocument sound.sound held
  have depth : v.depth ≤ 127 := shallow.trans sound.shallow
  have written : v.toDocument.Whole := whole_toDocument settled.finite
  have encoded : v.encode = .ok v.toDocument.compact := written.encode_eq
  refine ⟨fun x hx => ⟨settled.finite x hx, settled.fractional x hx⟩, depth, _, encoded, ?_⟩
  intro printed
  -- the document is read back as it is, and a settled value is what it was written from
  have back := written.comes_back (fun x hx _ => printed x (mem_floats_of_leaf hx))
    (by rw [depth_toDocument]; exact depth)
  have again : decodeBytes (Text.bytesOf v.toDocument.compact) = some v := by
    rw [decodeBytes, back.2, Option.bind_some, ofDocument_toDocument settled]
  refine ⟨again, ?_⟩
  rw [again, Option.map_some, encoded]

/-- Numbers at the end of the integers and beyond it, minus zero, and floats with and without a
fraction. -/
def numbersDocument : Document :=
  .array [.integer 9223372036854775807, .integer 9223372036854775808, .real (-0), .real 1000,
    .real 1e19, .real 2.5]

def numbersValue : Value :=
  .array [.int Int64.maxValue, .float (Float.ofInt 9223372036854775808), .int 0, .int 1000,
    .float 1e19, .float 2.5]

theorem numbers_settle :
    decodeBytes (Text.bytesOf numbersDocument.compact) = some numbersValue ∧
      ∃ text, numbersValue.encode = .ok text ∧
        decodeBytes (Text.bytesOf text) = some numbersValue := by
  have printed : ∀ x ∈ [-0, 1000, 1e19, 2.5, Float.ofInt 9223372036854775808],
      Document.read (String.ofList (realChars x)) = some (.real x) := by
    have read : ∀ x ∈ [-0, 1000, 1e19, 2.5, Float.ofInt 9223372036854775808],
        (Document.read (String.ofList (realChars x))).bind Document.real? = some x := by
      decide +kernel
    exact fun x hx => Document.eq_real_of_real? (read x hx)
  have leaves : numbersDocument.leaves = [.integer 9223372036854775807,
      .integer 9223372036854775808, .real (-0), .real 1000, .real 1e19, .real 2.5] := rfl
  have written : numbersDocument.Whole := by
    have integers : fitsSigned 9223372036854775807 = true ∧
        fitsUnsigned 9223372036854775808 = true := by decide
    have reals : ∀ x ∈ [(-0 : Float), 1000, 1e19, 2.5], x.isFinite = true := by decide +kernel
    simpa [Document.Whole, leaves, Document.Sound, integers] using reals
  have read : Document.readBytes (Text.bytesOf numbersDocument.compact) = some numbersDocument := by
    refine (written.comes_back (fun x hx _ => ?_) (by decide)).2
    obtain rfl | rfl | rfl | rfl : x = -0 ∨ x = 1000 ∨ x = 1e19 ∨ x = 2.5 := by
      simpa [leaves] using hx
    all_goals exact printed _ (by simp)
  have held : ofDocument numbersDocument = some numbersValue := by
    have limits : int64? 9223372036854775807 = some Int64.maxValue ∧
        int64? 9223372036854775808 = none := by decide
    have whole : IsWhole (-0) ∧ Int64.ofInt (Decimal.exact (-0)).num = 0 ∧
        IsWhole 1000 ∧ Int64.ofInt (Decimal.exact 1000).num = 1000 ∧
        ¬ IsWhole 1e19 ∧ ¬ IsWhole 2.5 := by decide +kernel
    simp [numbersDocument, numbersValue, ofDocument, ofItems, ofFloat_eq, limits, whole]
  have decoded : decodeBytes (Text.bytesOf numbersDocument.compact) = some numbersValue := by
    rw [decodeBytes, read, Option.bind_some, held]
  obtain ⟨-, -, text, encoded, again⟩ := decodeBytes_canonical decoded
  refine ⟨decoded, text, encoded, (again fun x hx => ?_).1⟩
  obtain rfl | rfl | rfl : x = Float.ofInt 9223372036854775808 ∨ x = 1e19 ∨ x = 2.5 := by
    simpa [numbersValue, floats, floatsAmong] using hx
  all_goals exact printed _ (by simp)

end ServerUi.Value
