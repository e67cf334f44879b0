import ServerUi.Decimal.Binary
import ServerUi.Proofs.Decimal.Exact
import ServerUi.Proofs.Json.Reading
import ServerUi.Value.Codec

/-! # Values through their text

Writing a value and reading its text gives the value back, with whole floats as integers.  Writing
fails exactly if a float is not finite (`nonFinite?_toDocument`), and reading fails exactly if more
containers are inside one another than a reader takes (`ofDocument_capped`).

Of the texts of floats it is assumed only that those in the value are read back; everything else
about the text is proved for the writer and the reader as they are.
-/

namespace ServerUi

namespace Value

open ServerUi.Json
open ServerUi.Json.Document (maxDepth)

/-! ## Floats, depth and normal form -/

mutual
/-- The floats anywhere in a value, in the order of writing. -/
def floats : Value → List Float
  | .float x => [x]
  | .array items => floatsAmong items
  | .object entries => floatsUnder entries
  | _ => []
def floatsAmong : List Value → List Float
  | [] => []
  | v :: rest => floats v ++ floatsAmong rest
def floatsUnder : List (String × Value) → List Float
  | [] => []
  | (_, v) :: rest => floats v ++ floatsUnder rest
end

mutual
/-- How many containers are inside one another. -/
def depth : Value → Nat
  | .array items => depthAmong items + 1
  | .object entries => depthUnder entries + 1
  | _ => 0
def depthAmong : List Value → Nat
  | [] => 0
  | v :: rest => max (depth v) (depthAmong rest)
def depthUnder : List (String × Value) → Nat
  | [] => 0
  | (_, v) :: rest => max (depth v) (depthUnder rest)
end

/-- Is the float a whole number that fits a word with a sign? -/
def IsWhole (x : Float) : Prop :=
  x.isFinite = true ∧ (Decimal.exact x).isInt = true ∧
    -2 ^ 63 ≤ Decimal.exact x ∧ Decimal.exact x < 2 ^ 63

instance (x : Float) : Decidable (IsWhole x) := inferInstanceAs (Decidable (_ ∧ _))

mutual
/-- The value with the integer for every float that is whole and fits. -/
def normalise : Value → Value
  | .float x => if IsWhole x then .int (Int64.ofInt (Decimal.exact x).num) else .float x
  | .array items => .array (normaliseItems items)
  | .object entries => .object (normaliseEntries entries)
  | v => v
def normaliseItems : List Value → List Value
  | [] => []
  | v :: rest => normalise v :: normaliseItems rest
def normaliseEntries : List (String × Value) → List (String × Value)
  | [] => []
  | (k, v) :: rest => (k, normalise v) :: normaliseEntries rest
end

theorem ofFloat_eq (x : Float) :
    ofFloat x = if IsWhole x then .int (Int64.ofInt (Decimal.exact x).num) else .float x := by
  unfold ofFloat
  by_cases h : IsWhole x
  · rw [if_pos h]
    obtain ⟨finite, isInt, low, high⟩ := h
    have value : Decimal.exact x = (Decimal.exact x).num := (Rat.eq_num_of_isInt isInt)
    have fits : fitsSigned (Decimal.exact x).num = true := by
      rw [value] at low high
      exact fitsSigned_iff.mpr ⟨by exact_mod_cast low, by exact_mod_cast high⟩
    rw [Decimal.whole?_eq_some_iff.mpr ⟨finite, value⟩, Option.bind_some, int64?, if_pos fits]
  · rw [if_neg h]
    cases hw : Decimal.whole? x with
    | none => rfl
    | some n =>
      obtain ⟨finite, value⟩ := Decimal.whole?_eq_some_iff.mp hw
      -- the value is whole, so it must be too large
      have overflow : ¬ fitsSigned n = true := by
        intro fits
        obtain ⟨low, high⟩ := fitsSigned_iff.mp fits
        refine h ⟨finite, ?_, ?_, ?_⟩
        · rw [value]
          rfl
        · rw [value]
          exact_mod_cast low
        · rw [value]
          exact_mod_cast high
      rw [Option.bind_some, int64?, if_neg overflow]

/-! ## Writing -/

mutual
/-- The real that stops the writing is the first float that is not finite. -/
theorem nonFinite?_toDocument : ∀ v : Value,
    v.toDocument.nonFinite? = v.floats.find? fun x => !x.isFinite
  | .null => rfl
  | .bool _ => rfl
  | .int _ => rfl
  | .string _ => rfl
  | .float x => by
    rw [toDocument, Document.nonFinite?, floats]
    cases h : x.isFinite <;> simp [h]
  | .array items => by
    rw [toDocument, Document.nonFinite?, floats]
    exact nonFiniteAmong?_toItems items
  | .object entries => by
    rw [toDocument, Document.nonFinite?, floats]
    exact nonFiniteUnder?_toEntries entries
theorem nonFiniteAmong?_toItems : ∀ items : List Value,
    Document.nonFiniteAmong? (toItems items) = (floatsAmong items).find? fun x => !x.isFinite
  | [] => rfl
  | v :: rest => by
    rw [toItems, Document.nonFiniteAmong?, floatsAmong, List.find?_append,
      nonFinite?_toDocument v, nonFiniteAmong?_toItems rest]
theorem nonFiniteUnder?_toEntries : ∀ entries : List (String × Value),
    Document.nonFiniteUnder? (toEntries entries) = (floatsUnder entries).find? fun x => !x.isFinite
  | [] => rfl
  | (k, v) :: rest => by
    rw [toEntries, Document.nonFiniteUnder?, floatsUnder, List.find?_append,
      nonFinite?_toDocument v, nonFiniteUnder?_toEntries rest]
end

theorem encode_eq (v : Value) :
    v.encode = (v.floats.find? fun x => !x.isFinite).elim (.ok v.toDocument.compact) .error := by
  rw [encode, Document.encode, nonFinite?_toDocument]
  cases v.floats.find? fun x => !x.isFinite <;> rfl

/-- Writing fails exactly if a float anywhere in the value is not finite. -/
theorem encode_error_iff (v : Value) :
    (∃ x, v.encode = .error x) ↔ ∃ x ∈ v.floats, x.isFinite = false := by
  rw [encode_eq]
  cases h : v.floats.find? fun x => !x.isFinite with
  | some x =>
    have unfit := List.find?_some h
    exact iff_of_true ⟨x, rfl⟩ ⟨x, List.mem_of_find?_eq_some h, by simpa using unfit⟩
  | none =>
    have finite := List.find?_eq_none.mp h
    refine iff_of_false (by rintro ⟨x, e⟩; cases e) ?_
    rintro ⟨x, hx, unfit⟩
    exact finite x hx (by simp [unfit])

theorem encode_ok {v : Value} {text : String} (h : v.encode = .ok text) :
    (∀ x ∈ v.floats, x.isFinite = true) ∧ text = v.toDocument.compact := by
  rw [encode_eq] at h
  cases hf : v.floats.find? fun x => !x.isFinite with
  | some x =>
    rw [hf] at h
    cases h
  | none =>
    rw [hf] at h
    cases h
    have finite := List.find?_eq_none.mp hf
    exact ⟨fun x hx => by simpa using finite x hx, rfl⟩

/-! ## Reading -/

mutual
/-- A value whose floats have texts that are read back has a legible document. -/
theorem legible_toDocument : ∀ {v : Value},
    (∀ x ∈ v.floats, Document.Legible (.real x)) → v.toDocument.Legible
  | .null, _ => trivial
  | .bool _, _ => trivial
  | .int i, _ => .inl (fitsSigned_toInt i)
  | .string _, _ => trivial
  | .float x, h => h x (List.mem_singleton_self x)
  | .array items, h => @legible_toItems items h
  | .object entries, h => @legible_toEntries entries h
theorem legible_toItems : ∀ {items : List Value},
    (∀ x ∈ floatsAmong items, Document.Legible (.real x)) → Document.LegibleItems (toItems items)
  | [], _ => trivial
  | _ :: _, h =>
    ⟨legible_toDocument fun x hx => h x (List.mem_append_left _ hx),
      legible_toItems fun x hx => h x (List.mem_append_right _ hx)⟩
theorem legible_toEntries : ∀ {entries : List (String × Value)},
    (∀ x ∈ floatsUnder entries, Document.Legible (.real x)) →
      Document.LegibleEntries (toEntries entries)
  | [], _ => trivial
  | _ :: _, h =>
    ⟨legible_toDocument fun x hx => h x (List.mem_append_left _ hx),
      legible_toEntries fun x hx => h x (List.mem_append_right _ hx)⟩
end

theorem ofDocument_close (k : Nat) (d : Document) :
    ofDocument (Machine.close k (some d)) = if k < maxDepth then ofDocument d else none := by
  unfold Machine.close
  split <;> rfl

/-- One container more, around parts whose depth is `n`. -/
theorem map_container {α : Type} {parts : Option α} {a : α} {k n : Nat} (wrap : α → Value)
    (h : k < maxDepth → parts = if k + 1 + n ≤ maxDepth then some a else none) :
    (if k < maxDepth then parts.map wrap else none) =
      if k + (n + 1) ≤ maxDepth then some (wrap a) else none := by
  have count : k + 1 + n = k + (n + 1) := by omega
  rw [count] at h
  by_cases inner : k < maxDepth
  · rw [if_pos inner, h inner]
    split <;> rfl
  · rw [if_neg inner, if_neg (by omega)]

theorem fits_max_iff {k m n : Nat} :
    k + max m n ≤ maxDepth ↔ k + m ≤ maxDepth ∧ k + n ≤ maxDepth := by
  omega

mutual
/-- **What a reader makes of the document of a value.**  Inside `k` containers that it takes, it
reads the normal form if the depth of the value still fits, and nothing else. -/
theorem ofDocument_capped : ∀ {v : Value} {k : Nat}, v.Ordered → k ≤ maxDepth →
    ofDocument (v.toDocument.capped k) =
      if k + v.depth ≤ maxDepth then some v.normalise else none
  | .null, k, _, hk => (if_pos hk).symm
  | .bool _, k, _, hk => (if_pos hk).symm
  | .string _, k, _, hk => (if_pos hk).symm
  | .int i, k, _, hk => by
    have whole : ofDocument (.integer i.toInt) = some (.int i) := by
      rw [ofDocument, int64?_toInt]
    exact whole.trans (if_pos hk).symm
  | .float x, k, _, hk => by
    have real := congrArg some (ofFloat_eq x)
    exact real.trans (if_pos hk).symm
  | .array items, k, ho, hk => by
    rw [toDocument, Document.capped, ofDocument_close, ofDocument, depth, normalise]
    exact map_container .array fun inner => ofItems_capped ho inner
  | .object entries, k, ho, hk => by
    rw [toDocument, Document.capped, ofDocument_close, ofDocument, depth, normalise]
    exact map_container .object fun inner =>
      (ofEntries_capped ho.1 ho.2 (fun _ h => nomatch h) inner)
theorem ofItems_capped : ∀ {items : List Value} {k : Nat}, OrderedItems items → k ≤ maxDepth →
    ofItems (Document.cappedItems k (toItems items)) =
      if k + depthAmong items ≤ maxDepth then some (normaliseItems items) else none
  | [], k, _, hk => (if_pos hk).symm
  | v :: rest, k, ho, hk => by
    rw [toItems, Document.cappedItems, ofItems, ofDocument_capped ho.1 hk, ofItems_capped ho.2 hk,
      depthAmong, normaliseItems]
    by_cases first : k + v.depth ≤ maxDepth
    · by_cases others : k + depthAmong rest ≤ maxDepth <;> simp [fits_max_iff, first, others]
    · simp [fits_max_iff, first]
/-- The entries read before stand in front, for their keys are smaller. -/
theorem ofEntries_capped : ∀ {entries : List (String × Value)} {k : Nat} {read : Entries Value},
    Entries.Ascending entries → OrderedEntries entries →
      (∀ e ∈ read, ∀ f ∈ entries, e.1 < f.1) → k ≤ maxDepth →
    ofEntries (Document.cappedEntries k (toEntries entries)) read =
      if k + depthUnder entries ≤ maxDepth then some (read ++ normaliseEntries entries) else none
  | [], k, read, _, _, _, hk => by
    rw [normaliseEntries, List.append_nil]
    exact (if_pos hk).symm
  | (key, v) :: rest, k, read, ha, ho, hr, hk => by
    obtain ⟨smallest, ascending⟩ := List.pairwise_cons.mp ha
    rw [toEntries, Document.cappedEntries, ofEntries, ofDocument_capped ho.1 hk, depthUnder,
      normaliseEntries]
    by_cases first : k + v.depth ≤ maxDepth
    · have before : ∀ e ∈ read ++ [(key, v.normalise)], ∀ f ∈ rest, e.1 < f.1 := by
        intro e he f hf
        rcases List.mem_append.mp he with he | he
        · exact hr e he f (List.mem_cons_of_mem _ hf)
        · obtain rfl := List.mem_singleton.mp he
          exact smallest f hf
      -- every key read before is smaller, so the entry goes behind all of them
      have last : read.insert key v.normalise = read ++ [(key, v.normalise)] :=
        Entries.insert_of_forall_lt (fun e he => hr e he _ List.mem_cons_self) _
      rw [if_pos first, Option.bind_eq_bind, Option.bind_some, last,
        ofEntries_capped ascending ho.2 before hk]
      simp [fits_max_iff, first]
    · simp [fits_max_iff, first]
end

mutual
theorem normalise_eq_self : ∀ {v : Value}, (∀ x ∈ v.floats, ¬ IsWhole x) → v.normalise = v
  | .null, _ => rfl
  | .bool _, _ => rfl
  | .int _, _ => rfl
  | .string _, _ => rfl
  | .float x, h => if_neg (h x (List.mem_singleton_self x))
  | .array items, h => congrArg Value.array (@normaliseItems_eq_self items h)
  | .object entries, h => congrArg Value.object (@normaliseEntries_eq_self entries h)
theorem normaliseItems_eq_self : ∀ {items : List Value}, (∀ x ∈ floatsAmong items, ¬ IsWhole x) →
    normaliseItems items = items
  | [], _ => rfl
  | v :: rest, h => by
    rw [normaliseItems, normalise_eq_self fun x hx => h x (List.mem_append_left _ hx),
      normaliseItems_eq_self fun x hx => h x (List.mem_append_right _ hx)]
theorem normaliseEntries_eq_self : ∀ {entries : List (String × Value)},
    (∀ x ∈ floatsUnder entries, ¬ IsWhole x) → normaliseEntries entries = entries
  | [], _ => rfl
  | (k, v) :: rest, h => by
    rw [normaliseEntries, normalise_eq_self fun x hx => h x (List.mem_append_left _ hx),
      normaliseEntries_eq_self fun x hx => h x (List.mem_append_right _ hx)]
end

/-- **Values come back from their text.**  Writing fails exactly if a float is not finite.  The
bytes of a text that was written are read as the normal form of the value, as long as no more than
127 containers are inside one another, and are an error else.  The normal form is the value itself
unless a float is whole and fits a word.

That a float comes back from its text is a matter of the digits, and is asked of the finite floats
in the value. -/
theorem decode_encode (v : Value) (ordered : v.Ordered)
    (printed : ∀ x ∈ v.floats, x.isFinite = true →
      Document.read (String.ofList (realChars x)) = some (.real x)) :
    ((∃ x, v.encode = .error x) ↔ ∃ x ∈ v.floats, x.isFinite = false) ∧
    (∀ text, v.encode = .ok text →
      decodeBytes (Text.bytesOf text) = if v.depth ≤ 127 then some v.normalise else none) ∧
    ((∀ x ∈ v.floats, ¬ IsWhole x) → v.normalise = v) := by
  refine ⟨encode_error_iff v, ?_, normalise_eq_self⟩
  intro text h
  obtain ⟨finite, rfl⟩ := encode_ok h
  have legible : v.toDocument.Legible := legible_toDocument fun x hx => printed x hx (finite x hx)
  have capped := ofDocument_capped ordered (Nat.zero_le maxDepth)
  rw [Nat.zero_add] at capped
  rw [decodeBytes, Document.readBytes_compact legible]
  exact capped

/-- A value with everything that needs care: quotes, a control character and a character beyond
sixteen bits in keys, the least integer, and floats with and without a fraction. -/
def mixedValue : Value :=
  .object [("a\"\n\u001f", .array [.int Int64.minValue, .float 0.5, .null]), ("𝄞", .float 2)]

theorem mixedValue_comes_back :
    ∃ text, mixedValue.encode = .ok text ∧ decodeBytes (Text.bytesOf text) = some (.object
      [("a\"\n\u001f", .array [.int Int64.minValue, .float 0.5, .null]), ("𝄞", .int 2)]) := by
  have ordered : mixedValue.Ordered := by
    have keys : "a\"\n\u001f" < "𝄞" := by decide
    refine ⟨List.pairwise_pair.mpr keys, ?_⟩
    simp [OrderedEntries, OrderedItems, Ordered]
  have printed : ∀ x ∈ mixedValue.floats, x.isFinite = true →
      Document.read (String.ofList (realChars x)) = some (.real x) := by
    intro x hx _
    obtain rfl | rfl : x = 0.5 ∨ x = 2 := by
      simpa [mixedValue, floats, floatsAmong, floatsUnder] using hx
    · with_unfolding_all rfl
    · with_unfolding_all rfl
  have finite : mixedValue.toDocument.nonFinite? = none := by decide +kernel
  have encoded : mixedValue.encode = .ok mixedValue.toDocument.compact := by
    rw [encode, Document.encode, finite]
  have half : ¬ IsWhole 0.5 := by decide +kernel
  have two : IsWhole 2 ∧ Int64.ofInt (Decimal.exact 2).num = 2 := by decide +kernel
  have normal : mixedValue.normalise = .object
      [("a\"\n\u001f", .array [.int Int64.minValue, .float 0.5, .null]), ("𝄞", .int 2)] := by
    simp [mixedValue, normalise, normaliseItems, normaliseEntries, half, two]
  refine ⟨_, encoded, ?_⟩
  rw [(decode_encode mixedValue ordered printed).2.1 _ encoded, if_pos (by decide), normal]

end Value

end ServerUi
