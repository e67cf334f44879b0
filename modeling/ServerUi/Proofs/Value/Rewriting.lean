import ServerUi.Node
import ServerUi.Proofs.Json.Alike
import ServerUi.Proofs.Json.Writing
import ServerUi.Proofs.Value.Image

/-! # Documents written again from their values

A value forgets how its document was written: the order of keys, the difference between `2.0` and
`2`, and integers that do not fit a word.  The document that is written again from the value differs
from the first in nothing else (`Value.Rewritten.alike`), so that the parts of a component tree are
read alike from both.
-/

namespace ServerUi.Value

open ServerUi.Json

/-! ## The document of a value -/

mutual
theorem leaf_toDocument : ∀ {v : Value} {l : Document}, l ∈ v.toDocument.leaves →
    (∃ x ∈ v.floats, l = .real x) ∨ l ≠ .malformed ∧ l.Sound ∧ ∀ x, l ≠ .real x
  | .null, _, h => .inr (List.mem_singleton.mp h ▸ ⟨nofun, trivial, nofun⟩)
  | .bool _, _, h => .inr (List.mem_singleton.mp h ▸ ⟨nofun, trivial, nofun⟩)
  | .int i, _, h => .inr (List.mem_singleton.mp h ▸ ⟨nofun, .inl (fitsSigned_toInt i), nofun⟩)
  | .string _, _, h => .inr (List.mem_singleton.mp h ▸ ⟨nofun, trivial, nofun⟩)
  | .float x, _, h => .inl ⟨x, List.mem_singleton_self x, List.mem_singleton.mp h⟩
  | .array items, _, h => @leaf_toItems items _ h
  | .object entries, _, h => @leaf_toEntries entries _ h
theorem leaf_toItems : ∀ {items : List Value} {l : Document},
    l ∈ Document.leavesAmong (toItems items) →
      (∃ x ∈ floatsAmong items, l = .real x) ∨ l ≠ .malformed ∧ l.Sound ∧ ∀ x, l ≠ .real x
  | _ :: _, _, h => by
    rcases List.mem_append.mp h with h | h
    · exact (leaf_toDocument h).imp_left fun ⟨x, hx, e⟩ => ⟨x, List.mem_append_left _ hx, e⟩
    · exact (leaf_toItems h).imp_left fun ⟨x, hx, e⟩ => ⟨x, List.mem_append_right _ hx, e⟩
theorem leaf_toEntries : ∀ {entries : List (String × Value)} {l : Document},
    l ∈ Document.leavesUnder (toEntries entries) →
      (∃ x ∈ floatsUnder entries, l = .real x) ∨ l ≠ .malformed ∧ l.Sound ∧ ∀ x, l ≠ .real x
  | _ :: _, _, h => by
    rcases List.mem_append.mp h with h | h
    · exact (leaf_toDocument h).imp_left fun ⟨x, hx, e⟩ => ⟨x, List.mem_append_left _ hx, e⟩
    · exact (leaf_toEntries h).imp_left fun ⟨x, hx, e⟩ => ⟨x, List.mem_append_right _ hx, e⟩
end

theorem mem_floats_of_leaf {v : Value} {x : Float} (h : .real x ∈ v.toDocument.leaves) :
    x ∈ v.floats := by
  rcases leaf_toDocument h with ⟨y, hy, e⟩ | ⟨-, -, other⟩
  · exact Document.real.inj e ▸ hy
  · exact absurd rfl (other x)

/-- A value of finite floats has a whole document. -/
theorem whole_toDocument {v : Value} (finite : ∀ x ∈ v.floats, x.isFinite = true) :
    v.toDocument.Whole := by
  intro l hl
  rcases leaf_toDocument hl with ⟨x, hx, rfl⟩ | ⟨fit, sound, -⟩
  · exact ⟨nofun, finite x hx⟩
  · exact ⟨fit, sound⟩

mutual
theorem depth_toDocument : ∀ v : Value, v.toDocument.depth = v.depth
  | .null => rfl
  | .bool _ => rfl
  | .int _ => rfl
  | .string _ => rfl
  | .float _ => rfl
  | .array items => congrArg (· + 1) (depth_toItems items)
  | .object entries => congrArg (· + 1) (depth_toEntries entries)
theorem depth_toItems : ∀ items : List Value,
    Document.depthAmong (toItems items) = depthAmong items
  | [] => rfl
  | v :: rest => congrArg₂ max (depth_toDocument v) (depth_toItems rest)
theorem depth_toEntries : ∀ entries : List (String × Value),
    Document.depthUnder (toEntries entries) = depthUnder entries
  | [] => rfl
  | (_, v) :: rest => congrArg₂ max (depth_toDocument v) (depth_toEntries rest)
end

/-! ## Writing again -/

/-- A document without repeated keys whose numbers could be written, and the value it holds written
again. -/
structure Rewritten (d e : Document) : Prop where
  distinct : d.DistinctKeys
  sound : ∀ l ∈ d.leaves, l.Sound
  value : ∃ v, ofDocument d = some v ∧ e = v.toDocument

/-- The documents are directly inside one that is written again. -/
def Inside (d p q : Document) : Prop := p ∈ d.parts ∧ Rewritten p q

variable {d e : Document}

theorem Rewritten.inside (h : Rewritten d e) {p : Document} (hp : p ∈ d.parts) {v : Value}
    (held : ofDocument p = some v) : Inside d p v.toDocument :=
  ⟨hp, h.distinct.part hp, fun _ hl => h.sound _ (Document.leaves_part hp hl), v, held, rfl⟩

theorem forall₂_toDocument {R : Document → Document → Prop} {items : List Document}
    {vs : List Value} (read : items.map ofDocument = vs.map some)
    (related : ∀ p ∈ items, ∀ v, ofDocument p = some v → R p v.toDocument) :
    List.Forall₂ R items (vs.map toDocument) := by
  induction items generalizing vs with
  | nil =>
    cases vs with
    | nil => exact .nil
    | cons v vs => cases read
  | cons d rest ih =>
    cases vs with
    | nil => cases read
    | cons v vs =>
      obtain ⟨first, others⟩ := List.cons.inj read
      exact .cons (related d List.mem_cons_self v first)
        (ih others fun p hp => related p (List.mem_cons_of_mem _ hp))

/-- Values written again are alike, layer by layer. -/
theorem Rewritten.alike (h : Rewritten d e) : d.Alike (Inside d) e := by
  obtain ⟨v, held, rfl⟩ := h.value
  cases d with
  | null =>
    cases held
    exact .null
  | bool b =>
    cases held
    exact .bool b
  | string s =>
    cases held
    exact .string s
  | malformed => cases held
  | integer n =>
    cases held
    refine .number (.integer n) ?_
    split
    · exact .integer _
    · exact .real _
  | real x =>
    cases held
    refine .number (.real x) ?_
    rw [ofFloat_eq]
    split
    · exact .integer _
    · exact .real _
  | array items =>
    rw [ofDocument_array, Option.map_eq_some_iff] at held
    obtain ⟨vs, hvs, rfl⟩ := held
    rw [toDocument, toItems_eq]
    exact .array (forall₂_toDocument (mapM_eq_some_iff.mp hvs) fun p hp v hv => h.inside hp hv)
  | object entries =>
    rw [ofDocument_object, Option.map_eq_some_iff] at held
    obtain ⟨t, ht, rfl⟩ := held
    have distinct : (Entries.keys (toEntries t.entries)).Nodup := by
      rw [toEntries_eq, keys_written]
      exact Entries.nodup_keys t.ascending
    refine .object h.distinct.1 distinct fun k => ?_
    have found := (table?_eq_some_iff h.distinct.1).mp ht k
    rw [toEntries_eq, find?_written]
    rw [Table.find?] at found
    cases hp : Entries.find? entries k with
    | none =>
      rw [hp] at found
      rw [Option.map_eq_none_iff.mp found.symm]
      exact .none
    | some p =>
      rw [hp] at found
      obtain ⟨v, hv, read⟩ := Option.map_eq_some_iff.mp found.symm
      have part : p ∈ (Document.object entries).parts :=
        List.mem_map_of_mem (f := (·.2)) (Entries.mem_of_find? hp)
      rw [hv]
      exact .some (h.inside part read.symm)

theorem Rewritten.ofDocument_eq (h : Rewritten d e) : ofDocument d = ofDocument e := by
  obtain ⟨v, held, rfl⟩ := h.value
  rw [held, ofDocument_toDocument (settled_of_ofDocument h.sound held).1]

theorem Rewritten.table_eq (h : Rewritten d e) : tableOfDocument d = tableOfDocument e :=
  h.alike.table?_eq fun inside => inside.2.ofDocument_eq

end ServerUi.Value

/-! ## The parts of a component tree -/

namespace ServerUi

open ServerUi.Json ServerUi.Value

variable {d e : Document}

theorem ActionSpec.ofDocument_rewritten (h : Rewritten d e) : ofDocument d = ofDocument e := by
  refine Record.bind_eq_of_rel (h.alike.record fields) fun r s related => ?_
  rw [related.defaulted (fun inside => inside.2.alike.string?_eq),
    related.required (fun inside => inside.2.alike.string?_eq),
    related.defaulted (fun inside => inside.2.table_eq)]

theorem NodeStyle.ofDocument_rewritten (h : Rewritten d e) : ofDocument d = ofDocument e := by
  refine Record.bind_eq_of_rel (h.alike.record _) fun r s related => ?_
  have null {p q : Document} (inside : Inside d p q) : p.isNull = q.isNull :=
    inside.2.alike.isNull_eq
  rw [related.optional (fun inside => inside.2.alike.string?_eq) null,
    related.optional (fun inside => inside.2.alike.string?_eq) null,
    related.optional (fun inside => inside.2.table_eq) null]

theorem BindingKind.ofDocument_rewritten (h : Rewritten d e) : ofDocument d = ofDocument e := by
  rw [ofDocument, ofDocument, h.alike.name?_eq fun inside => inside.2.alike.isNull_eq]

theorem Binding.ofDocument_rewritten (h : Rewritten d e) : ofDocument d = ofDocument e := by
  refine Record.bind_eq_of_rel (h.alike.record fields) fun r s related => ?_
  have null {p q : Document} (inside : Inside d p q) : p.isNull = q.isNull :=
    inside.2.alike.isNull_eq
  rw [related.defaulted (fun inside => inside.2.alike.string?_eq),
    related.required (fun inside => BindingKind.ofDocument_rewritten inside.2),
    related.optional (fun inside => inside.2.ofDocument_eq) null,
    related.optional (fun inside => inside.2.alike.bool?_eq) null,
    related.optional (fun inside => inside.2.alike.string?_eq) null]

theorem Watcher.ofDocument_rewritten (h : Rewritten d e) : ofDocument d = ofDocument e := by
  refine Record.bind_eq_of_rel (h.alike.record _) fun r s related => ?_
  rw [related.required (fun inside => inside.2.alike.string?_eq),
    related.required (fun inside => ActionSpec.ofDocument_rewritten inside.2)]

theorem StateBlock.ofDocument_rewritten (h : Rewritten d e) : ofDocument d = ofDocument e := by
  refine Record.bind_eq_of_rel (h.alike.record _) fun r s related => ?_
  have bindings {p q : Document} (inside : Inside d p q) :
      p.table? Binding.ofDocument = q.table? Binding.ofDocument :=
    inside.2.alike.table?_eq fun inner => Binding.ofDocument_rewritten inner.2
  have watchers {p q : Document} (inside : Inside d p q) :
      p.list? Watcher.ofDocument = q.list? Watcher.ofDocument :=
    inside.2.alike.list?_eq fun inner => Watcher.ofDocument_rewritten inner.2
  rw [related.defaulted bindings, related.defaulted watchers]

end ServerUi
