import ServerUi.Proofs.Node.Record
import ServerUi.Proofs.Value.Rewriting

/-! # Two ways to a tree

A reply holds its tree as a value, which is written as text and read again; a file is read as it
is.  Both ways lead to the same tree, or both to none, because a node and each of its parts are read
alike from a document and from the one written again from its value (`ofDocument_rewritten`).
-/

namespace ServerUi.Node

open ServerUi.Json ServerUi.Value

/-- A node is read alike from a document and from the document of its value. -/
theorem ofDocument_rewritten {d e : Document} (h : Rewritten d e) :
    ofDocument d = ofDocument e := by
  -- children stand two layers down, so the lists of nodes are part of the induction
  suffices both : ofDocument d = ofDocument e ∧ d.list? ofDocument = e.list? ofDocument from both.1
  induction d using Document.parts_induction generalizing e with
  | whole d ih =>
    have null {p q : Document} (inside : Inside d p q) : p.isNull = q.isNull :=
      inside.2.alike.isNull_eq
    constructor
    · rw [ofDocument_eq, ofDocument_eq]
      refine Record.bind_eq_of_rel (h.alike.record fields) fun r s related => ?_
      rw [ofRecord, related.defaulted (fun inside => inside.2.alike.string?_eq),
        related.required (fun inside => inside.2.alike.string?_eq),
        related.defaulted (fun inside => inside.2.table_eq),
        related.optional (fun inside => NodeStyle.ofDocument_rewritten inside.2) null,
        related.optional (fun inside => ActionSpec.ofDocument_rewritten inside.2) null,
        related.optional (fun inside => StateBlock.ofDocument_rewritten inside.2) null,
        related.optional (fun inside => (ih _ inside.1 inside.2).2) null]
      rfl
    · exact h.alike.list?_eq fun inside => (ih _ inside.1 inside.2).1

/-- **Through a value or directly, the tree is the same.**  Bytes that hold a value and repeat no
key in an object hold a tree if and only if the value does, and it is the same tree; the text
between value and tree always exists.  That a finite float comes back from its text is asked of the
floats in the value. -/
theorem ofValue_eq_decodeBytes {bytes : List UInt8} {v : Value}
    (decoded : Value.decodeBytes bytes = some v)
    (distinct : ∀ d, Document.readBytes bytes = some d → d.DistinctKeys)
    (printed : ∀ x ∈ v.floats, x.isFinite = true →
      Document.read (String.ofList (realChars x)) = some (.real x)) :
    ofValue v = .ok (decodeBytes bytes) := by
  obtain ⟨d, read, held⟩ := Option.bind_eq_some_iff.mp decoded
  have sound := Document.held_readBytes read
  obtain ⟨settled, shallow⟩ := settled_of_ofDocument sound.sound held
  have written : v.toDocument.Whole := whole_toDocument settled.finite
  have back := written.comes_back (fun x hx => printed x (mem_floats_of_leaf hx))
    (by have := sound.shallow; rw [depth_toDocument]; omega)
  rw [ofValue, Value.encode, written.encode_eq, decodeBytes, read]
  show Except.ok (decode v.toDocument.compact) = .ok (ofDocument d)
  rw [decode, back.1, Option.bind_some,
    ofDocument_rewritten ⟨distinct d read, sound.sound, v, held, rfl⟩]

/-- A column with keys out of order, a whole float, a null for no style, a field that is not known
and a child written as an array. -/
def columnDocument : Document :=
  .object [("props", .object [("size", .real 2), ("at", .array [.real 0.5])]), ("style", .null),
    ("note", .integer 7), ("type", .string "SduiVStack"),
    ("children", .array [.array [.string "c", .string "SduiText"]])]

/-- The value of the column: keys ascend, and the whole float is an integer. -/
def columnValue : Value :=
  .object [("children", .array [.array [.string "c", .string "SduiText"]]), ("note", .int 7),
    ("props", .object [("at", .array [.float 0.5]), ("size", .int 2)]), ("style", .null),
    ("type", .string "SduiVStack")]

theorem column_decodes_alike :
    Value.decodeBytes (Text.bytesOf columnDocument.compact) = some columnValue ∧
      ofValue columnValue = .ok (decodeBytes (Text.bytesOf columnDocument.compact)) ∧
      (decodeBytes (Text.bytesOf columnDocument.compact)).map count = some 2 := by
  have leaves : columnDocument.leaves = [.real 2, .real 0.5, .null, .integer 7,
      .string "SduiVStack", .string "c", .string "SduiText"] := rfl
  have two : Float.isFinite 2 = true := by decide +kernel
  have half : Float.isFinite 0.5 = true := by decide +kernel
  have seven : fitsSigned 7 = true := by decide
  have written : columnDocument.Whole := by
    simp [Document.Whole, leaves, Document.Sound, two, half, seven]
  have printed : ∀ x, .real x ∈ columnDocument.leaves → x.isFinite = true →
      Document.read (String.ofList (realChars x)) = some (.real x) := by
    intro x hx _
    obtain rfl | rfl : x = 2 ∨ x = 0.5 := by simpa [leaves] using hx
    · with_unfolding_all rfl
    · with_unfolding_all rfl
  have read := (written.comes_back printed (by decide)).2
  have held : Value.ofDocument columnDocument = some columnValue := by with_unfolding_all rfl
  have decoded : Value.decodeBytes (Text.bytesOf columnDocument.compact) = some columnValue := by
    rw [Value.decodeBytes, read, Option.bind_some, held]
  refine ⟨decoded, ofValue_eq_decodeBytes decoded ?_ ?_, ?_⟩
  · intro d hd
    rw [read] at hd
    cases hd
    simp [columnDocument, Document.DistinctKeys, Document.DistinctAmong, Document.DistinctUnder,
      Entries.keys]
  · intro x hx
    obtain rfl : x = 0.5 := by simpa [columnValue, floats, floatsAmong, floatsUnder] using hx
    exact printed _ (by simp [leaves])
  · rw [decodeBytes, read, Option.bind_some]
    decide +kernel

end ServerUi.Node
