import ServerUi.Proofs.Value.Image
import ServerUi.Value.Codec

/-! # Values through trees

A value is read from bytes and written as a text either directly or through a tree, which holds its
numbers in words and floats and has null where a float is not finite.  The two ways agree
(`routes_agree`): the same bytes are read, and as the same value; and the text of the tree is the
text of the value with null for every float that has none.

Where a document forgets nothing, a tree forgets which whole number was written as a float.  So the
value of the tree of a value is its normal form.
-/

namespace ServerUi

theorem Entries.mapValues_insert {α β : Type} (f : α → β) (es : Entries α) (k : String) (v : α) :
    (es.insert k v).mapValues f = (es.mapValues f).insert k (f v) := by
  induction es with
  | nil => rfl
  | cons e rest ih =>
    obtain ⟨l, w⟩ := e
    simp only [insert, mapValues]
    split
    · rfl
    · split
      · rfl
      · rw [mapValues, ih]

/-! ## Numbers -/

namespace Json.Number

/-- The word that holds a number keeps it. -/
theorem ofInt_cases {n : Int} (fits : fitsSigned n = true ∨ fitsUnsigned n = true) :
    (∃ m : UInt64, ofInt n = .natural m ∧ (m.toNat : Int) = n) ∨
      ∃ i : Int64, ofInt n = .negative i ∧ i.toInt = n := by
  unfold ofInt
  by_cases sign : 0 ≤ n
  · -- without its sign, a number that fits either word fits the one without a sign
    have small : n.toNat < 2 ^ 64 := by
      rcases fits with fits | fits
      · have := (fitsSigned_iff.mp fits).2
        omega
      · rw [fitsUnsigned, Bool.and_eq_true, decide_eq_true_eq, decide_eq_true_eq] at fits
        have size : (UInt64.size : Int) = 2 ^ 64 := rfl
        omega
    refine .inl ⟨_, if_pos sign, ?_⟩
    rw [UInt64.toNat_ofNat_of_lt' small, Int.toNat_of_nonneg sign]
  · have signed : fitsSigned n = true := by
      refine fits.resolve_right fun unsigned => sign ?_
      rw [fitsUnsigned, Bool.and_eq_true, decide_eq_true_eq] at unsigned
      exact unsigned.1
    exact .inr ⟨_, if_neg sign, toInt_of_int64? (if_pos signed)⟩

variable {n : Int}

theorem int64?_ofInt (fits : fitsSigned n = true ∨ fitsUnsigned n = true) :
    (ofInt n).int64? = ServerUi.int64? n := by
  rcases ofInt_cases fits with ⟨m, e, rfl⟩ | ⟨i, e, rfl⟩
  · rw [e]
    rfl
  · rw [e, int64?_toInt]
    rfl

theorem toFloat_ofInt (fits : fitsSigned n = true ∨ fitsUnsigned n = true) :
    (ofInt n).toFloat = Float.ofInt n := by
  rcases ofInt_cases fits with ⟨m, e, rfl⟩ | ⟨i, e, rfl⟩
  · rw [e]
    rfl
  · rw [e]
    rfl

theorem toDocument_ofInt (fits : fitsSigned n = true ∨ fitsUnsigned n = true) :
    (ofInt n).toDocument = .integer n := by
  rcases ofInt_cases fits with ⟨m, e, rfl⟩ | ⟨i, e, rfl⟩
  · rw [e]
    rfl
  · rw [e]
    rfl

end Json.Number

namespace Value

open ServerUi.Json

/-! ## Reading -/

/-- A whole number is the same value in a document and in a tree: an integer if it fits, else the
float nearest to it, which is beyond the integers. -/
theorem ofDocument_integer {n : Int} (fits : fitsSigned n = true ∨ fitsUnsigned n = true) :
    ofDocument (.integer n) = some (ofTree (.number (.ofInt n))) := by
  rw [ofDocument, ofTree, Number.int64?_ofInt fits, Number.toFloat_ofInt fits]
  cases large : int64? n with
  | some i => rfl
  | none =>
    have unsigned : fitsUnsigned n = true := fits.resolve_left (int64?_eq_none_iff.mp large)
    have beyond := (settled_integer large unsigned).fractional _ (List.mem_singleton_self _)
    rw [ofFloat_eq, if_neg beyond]

theorem ofTree_ofFloat {x : Float} (finite : x.isFinite = true) :
    ofTree (Tree.ofFloat x) = ofFloat x := by
  rw [Tree.ofFloat, if_pos finite]
  rfl

theorem ofTreesUnder_eq (entries : Entries Tree) :
    ofTreesUnder entries = entries.mapValues ofTree := by
  induction entries with
  | nil => rfl
  | cons e rest ih => rw [ofTreesUnder, Entries.mapValues, ih]

mutual
/-- **What a document holds.**  The value of a document whose numbers could be written is the value
of its tree. -/
theorem ofDocument_eq_ofTree : ∀ {d : Document}, (∀ l ∈ d.leaves, l.Sound) →
    ofDocument d = (Tree.ofDocument d).map ofTree
  | .null, _ => rfl
  | .bool _, _ => rfl
  | .string _, _ => rfl
  | .malformed, _ => rfl
  | .integer _, h => ofDocument_integer (h _ (List.mem_singleton_self _))
  | .real _, h => congrArg some (ofTree_ofFloat (h _ (List.mem_singleton_self _))).symm
  | .array items, h => by
    rw [ofDocument, ofItems_eq_ofTrees h, Tree.ofDocument, Option.map_map, Option.map_map]
    rfl
  | .object entries, h => by
    -- the statement about entries carries those read before, and none are at the start
    have read := @ofEntries_eq_ofTrees entries [] h
    rw [Entries.mapValues] at read
    rw [ofDocument, read, Tree.ofDocument, Option.map_map, Option.map_map]
    refine Option.map_congr fun es _ => ?_
    exact congrArg Value.object (ofTreesUnder_eq es).symm
theorem ofItems_eq_ofTrees : ∀ {items : List Document},
    (∀ l ∈ Document.leavesAmong items, l.Sound) →
      ofItems items = (Tree.ofItems items).map ofTrees
  | [], _ => rfl
  | d :: rest, h => by
    rw [ofItems, Tree.ofItems,
      ofDocument_eq_ofTree fun l hl => h l (List.mem_append_left _ hl),
      ofItems_eq_ofTrees fun l hl => h l (List.mem_append_right _ hl)]
    cases Tree.ofDocument d with
    | none => rfl
    | some t => cases Tree.ofItems rest <;> rfl
/-- Entries go into values as they go into trees, so the last one of a key wins in both. -/
theorem ofEntries_eq_ofTrees : ∀ {entries : List (String × Document)} {acc : Entries Tree},
    (∀ l ∈ Document.leavesUnder entries, l.Sound) →
      ofEntries entries (acc.mapValues ofTree) =
        (Tree.ofEntries entries acc).map (Entries.mapValues ofTree)
  | [], _, _ => rfl
  | (k, d) :: rest, acc, h => by
    rw [ofEntries, Tree.ofEntries, ofDocument_eq_ofTree fun l hl => h l (List.mem_append_left _ hl)]
    cases Tree.ofDocument d with
    | none => rfl
    | some t =>
      -- the entry goes into the values before the rest is read, as it does into the trees
      show ofEntries rest ((acc.mapValues ofTree).insert k (ofTree t)) = _
      rw [← Entries.mapValues_insert,
        ofEntries_eq_ofTrees fun l hl => h l (List.mem_append_right _ hl)]
      rfl
end

/-- The bytes that are read as a value are those that are read as a tree. -/
theorem decodeBytes_eq_ofTree (bytes : List UInt8) :
    decodeBytes bytes = (Tree.readBytes bytes).map ofTree := by
  unfold decodeBytes Tree.readBytes
  cases read : Document.readBytes bytes with
  | none => rfl
  | some d => exact ofDocument_eq_ofTree (Document.held_readBytes read).sound

/-! ## Writing -/

mutual
/-- The value with null for every float that is not finite. -/
def finite : Value → Value
  | .float x => if x.isFinite then .float x else .null
  | .array items => .array (finiteItems items)
  | .object entries => .object (finiteEntries entries)
  | v => v
/-- Every item with null for floats that are not finite. -/
def finiteItems : List Value → List Value
  | [] => []
  | v :: rest => finite v :: finiteItems rest
/-- Every value under a key with null for floats that are not finite. -/
def finiteEntries : List (String × Value) → List (String × Value)
  | [] => []
  | (k, v) :: rest => (k, finite v) :: finiteEntries rest
end

mutual
theorem isFinite_of_mem_finite : ∀ {v : Value} {x : Float}, x ∈ v.finite.floats →
    x.isFinite = true
  | .float y, x, h => by
    rw [finite] at h
    split at h
    · exact List.mem_singleton.mp h ▸ ‹_›
    · cases h
  | .array items, _, h => @isFinite_of_mem_finiteItems items _ h
  | .object entries, _, h => @isFinite_of_mem_finiteEntries entries _ h
theorem isFinite_of_mem_finiteItems : ∀ {items : List Value} {x : Float},
    x ∈ floatsAmong (finiteItems items) → x.isFinite = true
  | _ :: _, _, h => (List.mem_append.mp h).elim isFinite_of_mem_finite isFinite_of_mem_finiteItems
theorem isFinite_of_mem_finiteEntries : ∀ {entries : List (String × Value)} {x : Float},
    x ∈ floatsUnder (finiteEntries entries) → x.isFinite = true
  | _ :: _, _, h =>
    (List.mem_append.mp h).elim isFinite_of_mem_finite isFinite_of_mem_finiteEntries
end

mutual
theorem finite_eq_self : ∀ {v : Value}, (∀ x ∈ v.floats, x.isFinite = true) → v.finite = v
  | .null, _ => rfl
  | .bool _, _ => rfl
  | .int _, _ => rfl
  | .string _, _ => rfl
  | .float x, h => if_pos (h x (List.mem_singleton_self x))
  | .array items, h => congrArg Value.array (@finiteItems_eq_self items h)
  | .object entries, h => congrArg Value.object (@finiteEntries_eq_self entries h)
theorem finiteItems_eq_self : ∀ {items : List Value},
    (∀ x ∈ floatsAmong items, x.isFinite = true) → finiteItems items = items
  | [], _ => rfl
  | v :: rest, h => by
    rw [finiteItems, finite_eq_self fun x hx => h x (List.mem_append_left _ hx),
      finiteItems_eq_self fun x hx => h x (List.mem_append_right _ hx)]
theorem finiteEntries_eq_self : ∀ {entries : List (String × Value)},
    (∀ x ∈ floatsUnder entries, x.isFinite = true) → finiteEntries entries = entries
  | [], _ => rfl
  | (k, v) :: rest, h => by
    rw [finiteEntries, finite_eq_self fun x hx => h x (List.mem_append_left _ hx),
      finiteEntries_eq_self fun x hx => h x (List.mem_append_right _ hx)]
end

mutual
theorem toDocument_toTree : ∀ v : Value, v.toTree.toDocument = v.finite.toDocument
  | .null => rfl
  | .bool _ => rfl
  | .string _ => rfl
  | .int i => Number.toDocument_ofInt (.inl (fitsSigned_toInt i))
  | .float x => by
    rw [toTree, Tree.ofFloat, finite]
    split <;> rfl
  | .array items => congrArg Document.array (toItems_toTrees items)
  | .object entries => congrArg Document.object (toEntries_toTreesUnder entries)
theorem toItems_toTrees : ∀ items : List Value,
    Tree.toItems (toTrees items) = toItems (finiteItems items)
  | [] => rfl
  | v :: rest => congrArg₂ List.cons (toDocument_toTree v) (toItems_toTrees rest)
theorem toEntries_toTreesUnder : ∀ entries : List (String × Value),
    Tree.toEntries (toTreesUnder entries) = toEntries (finiteEntries entries)
  | [] => rfl
  | (k, v) :: rest =>
    congrArg₂ List.cons (congrArg (Prod.mk k) (toDocument_toTree v)) (toEntries_toTreesUnder rest)
end

theorem encode_finite (v : Value) : v.finite.encode = .ok v.toTree.compact := by
  have fit : (v.finite.floats.find? fun x => !x.isFinite) = none := by
    refine List.find?_eq_none.mpr fun x hx => ?_
    simp [isFinite_of_mem_finite hx]
  rw [encode_eq, fit, Tree.compact, toDocument_toTree]
  rfl

/-- A list or an object is shown as the text of its tree. -/
theorem display_of_container {v : Value} (container : v.array?.isSome ∨ v.object?.isSome) :
    v.display = v.toTree.compact := by
  cases v with
  | array items => rfl
  | object entries => rfl
  | _ => exact absurd container (by simp [array?, object?])

/-! ## There and back -/

mutual
theorem ofTree_toTree : ∀ v : Value, ofTree v.toTree = v.finite.normalise
  | .null => rfl
  | .bool _ => rfl
  | .string _ => rfl
  | .int i => by
    rw [toTree, ofTree, Number.int64?_ofInt (.inl (fitsSigned_toInt i)), int64?_toInt]
    rfl
  | .float x => by
    rw [toTree, finite]
    by_cases fit : x.isFinite = true
    · rw [ofTree_ofFloat fit, ofFloat_eq, if_pos fit, normalise]
    · rw [Tree.ofFloat, if_neg fit, if_neg fit]
      rfl
  | .array items => congrArg Value.array (ofTrees_toTrees items)
  | .object entries => congrArg Value.object (ofTreesUnder_toTreesUnder entries)
theorem ofTrees_toTrees : ∀ items : List Value,
    ofTrees (toTrees items) = normaliseItems (finiteItems items)
  | [] => rfl
  | v :: rest => congrArg₂ List.cons (ofTree_toTree v) (ofTrees_toTrees rest)
theorem ofTreesUnder_toTreesUnder : ∀ entries : List (String × Value),
    ofTreesUnder (toTreesUnder entries) = normaliseEntries (finiteEntries entries)
  | [] => rfl
  | (k, v) :: rest =>
    congrArg₂ List.cons (congrArg (Prod.mk k) (ofTree_toTree v)) (ofTreesUnder_toTreesUnder rest)
end

/-- **Both ways agree.**  Bytes are read as a value exactly if they are read as a tree, and it is
the value of that tree.  The text of the tree of a value is the text of the value with null for
every float that is not finite; so a list or an object of finite floats is shown as it is written.
The value of the tree of a value is the value with null for every float that is not finite, and with
the equal integer for every float that is whole and fits, at every depth. -/
theorem routes_agree (bytes : List UInt8) (v : Value) :
    decodeBytes bytes = (Tree.readBytes bytes).map ofTree ∧
    v.finite.encode = .ok v.toTree.compact ∧
    ((v.array?.isSome ∨ v.object?.isSome) → (∀ x ∈ v.floats, x.isFinite = true) →
      v.encode = .ok v.display) ∧
    ofTree v.toTree = v.finite.normalise := by
  refine ⟨decodeBytes_eq_ofTree bytes, encode_finite v, ?_, ofTree_toTree v⟩
  intro container fit
  have written := encode_finite v
  rw [finite_eq_self fit] at written
  rw [written, display_of_container container]

/-- Readings of gauges, the last of which has failed. -/
def gauges : Value := .object [("gauges", .array [.float 2, .float 0.5, .float (0 / 0)])]

/-- The text of a repeated key is read alike on both ways; a list of floats that are all finite is
shown as it is written; and one that failed is lost on the way through a tree. -/
theorem gauges_through_trees :
    (∃ t, Tree.readBytes (Text.bytesOf "\x7b\"a\":1,\"a\":2.5\x7d") = some t ∧
      t.compact = "\x7b\"a\":2.5\x7d" ∧
      decodeBytes (Text.bytesOf "\x7b\"a\":1,\"a\":2.5\x7d") = some (ofTree t)) ∧
    (Value.array [.float 2, .float 0.5]).encode =
      .ok (Value.array [.float 2, .float 0.5]).display ∧
    ofTree gauges.toTree = .object [("gauges", .array [.int 2, .float 0.5, .null])] := by
  refine ⟨?_, ?_, ?_⟩
  · have parsed : (Tree.readBytes (Text.bytesOf "\x7b\"a\":1,\"a\":2.5\x7d")).map Tree.compact =
        some "\x7b\"a\":2.5\x7d" := by
      decide +kernel
    obtain ⟨t, read, text⟩ := Option.map_eq_some_iff.mp parsed
    have agree := (routes_agree (Text.bytesOf "\x7b\"a\":1,\"a\":2.5\x7d") .null).1
    rw [read, Option.map_some] at agree
    exact ⟨t, read, text, agree⟩
  · have fit : ∀ x ∈ [(2 : Float), 0.5], x.isFinite = true := by decide +kernel
    exact (routes_agree [] (.array [.float 2, .float 0.5])).2.2.1 (.inl rfl) fit
  · have two : IsWhole 2 ∧ Int64.ofInt (Decimal.exact 2).num = 2 := by decide +kernel
    have fit : Float.isFinite 2 = true ∧ Float.isFinite 0.5 = true ∧
        Float.isFinite (0 / 0) = false ∧ ¬ IsWhole 0.5 := by decide +kernel
    rw [(routes_agree [] gauges).2.2.2]
    simp [gauges, finite, finiteItems, finiteEntries, normalise, normaliseItems, normaliseEntries,
      two, fit]

end Value

end ServerUi
