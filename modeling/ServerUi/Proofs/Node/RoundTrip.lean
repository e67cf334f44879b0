import ServerUi.Proofs.Json.Keeping
import ServerUi.Proofs.Node.Record
import ServerUi.Proofs.Value.Rewriting

/-! # Trees come back from their text

Each kind of record in a tree is read again from what is written of it: tags are kept, what is left
out is taken for missing, and what is written is not null (`Node.faithful`).  So a tree that was
read has a text, and is read back from it.
-/

namespace ServerUi

open ServerUi.Json

variable {d : Document}

/-- The numbers of a part are numbers of the whole. -/
theorem sound_part (sound : ∀ l ∈ d.leaves, l.Sound) {p : Document} (hp : p ∈ d.parts) :
    ∀ l ∈ p.leaves, l.Sound :=
  fun _ hl => sound _ (Document.leaves_part hp hl)

/-! ## Values -/

theorem Value.isNull_toDocument {v : Value} (h : ofDocument d = some v) :
    v.toDocument.isNull = d.isNull := by
  cases d with
  | null =>
    cases h
    rfl
  | bool b =>
    cases h
    rfl
  | string s =>
    cases h
    rfl
  | malformed => cases h
  | integer n =>
    cases h
    cases int64? n <;> rfl
  | real x =>
    cases h
    rw [ofFloat_eq]
    split <;> rfl
  | array items =>
    obtain ⟨vs, -, rfl⟩ := Option.map_eq_some_iff.mp h
    rfl
  | object entries =>
    obtain ⟨es, -, rfl⟩ := Option.map_eq_some_iff.mp h
    rfl

theorem Value.faithful (sound : ∀ l ∈ d.leaves, l.Sound) : Faithful ofDocument toDocument d := by
  intro v h
  have settled := (settled_of_ofDocument sound h).1
  exact ⟨⟨ofDocument_toDocument settled, whole_toDocument settled.finite⟩, isNull_toDocument h⟩

def Value.tableDocument (t : Table Value) : Document := (ofTable t).toDocument

theorem Value.tableDocument_eq (t : Table Value) :
    tableDocument t = .object (t.entries.map fun e => (e.1, toDocument e.2)) := by
  rw [tableDocument, ofTable, toDocument, toEntries_eq]

theorem Value.faithful_table (sound : ∀ l ∈ d.leaves, l.Sound) :
    Faithful tableOfDocument tableDocument d := by
  rw [funext tableDocument_eq]
  exact Json.faithful_table fun p hp => faithful (sound_part sound hp)

theorem Value.kept_empty : Kept tableOfDocument tableDocument ∅ := by
  rw [funext tableDocument_eq]
  exact Json.kept_empty

/-! ## Actions and styles -/

theorem ActionKind.tag_ofTag (t : String) : (ofTag t).tag = t := by
  unfold ofTag
  split_ifs with call navigation script share update
  · exact call.symm
  · exact navigation.symm
  · exact script.symm
  · exact share.symm
  · exact update.symm
  · rfl

theorem ActionSpec.faithful (sound : ∀ l ∈ d.leaves, l.Sound) :
    Faithful ofDocument toDocument d := by
  intro a h
  obtain ⟨r, hr, h⟩ := Option.bind_eq_some_iff.mp h
  obtain ⟨trigger, -, h⟩ := Option.bind_eq_some_iff.mp h
  obtain ⟨tag, -, h⟩ := Option.bind_eq_some_iff.mp h
  obtain ⟨payload, hp, h⟩ := Option.bind_eq_some_iff.mp h
  cases h
  have kept := Record.kept_defaulted hr (fun p hp => Value.faithful_table (sound_part sound hp))
    Value.kept_empty hp
  refine ⟨⟨?_, ?_⟩, (Record.isNull_eq_false hr).symm⟩
  · rw [ofDocument, toDocument, ActionKind.tag_ofTag,
      Record.ofDocument_written (by decide) (.refl _)]
    simp only [Option.bind_eq_bind, Option.bind_some]
    rw [Record.defaulted_written (kept_string trigger) rfl,
      Record.required_written (kept_string tag) rfl, Record.defaulted_written kept rfl]
    rfl
  · have payload : (Value.ofTable payload).toDocument.Whole := kept.whole
    refine Document.whole_object_iff.mpr ?_
    simp [Document.whole_string, payload]

theorem NodeStyle.faithful (sound : ∀ l ∈ d.leaves, l.Sound) :
    Faithful ofDocument toDocument d := by
  intro a h
  obtain ⟨r, hr, h⟩ := Option.bind_eq_some_iff.mp h
  obtain ⟨variant, hv, h⟩ := Option.bind_eq_some_iff.mp h
  obtain ⟨color, hc, h⟩ := Option.bind_eq_some_iff.mp h
  obtain ⟨custom, ht, h⟩ := Option.bind_eq_some_iff.mp h
  cases h
  have variant_kept := Record.kept_optional hr (fun p _ => faithful_string p) hv
  have color_kept := Record.kept_optional hr (fun p _ => faithful_string p) hc
  have custom_kept := Record.kept_optional hr
    (fun p hp => Value.faithful_table (sound_part sound hp)) ht
  refine ⟨⟨?_, ?_⟩, (Record.isNull_eq_false hr).symm⟩
  · rw [ofDocument, toDocument, Record.ofDocument_written (by decide)]
    · simp only [Option.bind_eq_bind, Option.bind_some]
      rw [Record.optional_written variant_kept (by simp),
        Record.optional_written color_kept (by simp),
        Record.optional_written custom_kept (by simp; rfl)]
      rfl
    · simp only [Entries.keys_append]
      exact ((keys_whenSome _ _).append (keys_whenSome _ _)).append (keys_whenSome _ _)
  · refine Document.whole_object_iff.mpr ?_
    simp only [List.forall_mem_append]
    exact ⟨⟨whole_whenSome variant_kept, whole_whenSome color_kept⟩, whole_whenSome custom_kept⟩

/-! ## State blocks -/

theorem BindingKind.ofDocument_name (k : BindingKind) : ofDocument (.string k.name) = some k := by
  cases k <;> rfl

theorem Binding.faithful (sound : ∀ l ∈ d.leaves, l.Sound) :
    Faithful ofDocument toDocument d := by
  intro b h
  obtain ⟨r, hr, h⟩ := Option.bind_eq_some_iff.mp h
  obtain ⟨key, -, h⟩ := Option.bind_eq_some_iff.mp h
  obtain ⟨kind, -, h⟩ := Option.bind_eq_some_iff.mp h
  obtain ⟨default, hd, h⟩ := Option.bind_eq_some_iff.mp h
  obtain ⟨computed, hc, h⟩ := Option.bind_eq_some_iff.mp h
  obtain ⟨formula, hf, h⟩ := Option.bind_eq_some_iff.mp h
  cases h
  have default_kept := Record.kept_optional hr
    (fun p hp => Value.faithful (sound_part sound hp)) hd
  have computed_kept := Record.kept_optional hr (fun p _ => faithful_bool p) hc
  have formula_kept := Record.kept_optional hr (fun p _ => faithful_string p) hf
  have kind_kept : Kept BindingKind.ofDocument (fun k => .string k.name) kind :=
    ⟨kind.ofDocument_name, Document.whole_string _⟩
  refine ⟨⟨?_, ?_⟩, (Record.isNull_eq_false hr).symm⟩
  · rw [ofDocument, toDocument, Record.ofDocument_written (by decide)]
    · simp only [Option.bind_eq_bind, Option.bind_some]
      rw [Record.defaulted_written (kept_string key) rfl, Record.required_written kind_kept rfl,
        Record.optional_written default_kept (by simp [Entries.find?]),
        Record.optional_written computed_kept (by simp [Entries.find?]),
        Record.optional_written formula_kept (by simp [Entries.find?])]
      rfl
    · simp only [Entries.keys_append]
      exact (((List.Sublist.refl ["key", "type"]).append (keys_whenSome _ _)).append
        (keys_whenSome _ _)).append (keys_whenSome _ _)
  · refine Document.whole_object_iff.mpr ?_
    simp only [List.forall_mem_append, List.forall_mem_cons]
    exact ⟨⟨⟨⟨Document.whole_string _, Document.whole_string _, List.forall_mem_nil _⟩,
      whole_whenSome default_kept⟩, whole_whenSome computed_kept⟩, whole_whenSome formula_kept⟩

theorem Watcher.faithful (sound : ∀ l ∈ d.leaves, l.Sound) :
    Faithful ofDocument toDocument d := by
  intro w h
  obtain ⟨r, hr, h⟩ := Option.bind_eq_some_iff.mp h
  obtain ⟨key, -, h⟩ := Option.bind_eq_some_iff.mp h
  obtain ⟨action, ha, h⟩ := Option.bind_eq_some_iff.mp h
  cases h
  have kept := Record.kept_required hr
    (fun p hp => ActionSpec.faithful (sound_part sound hp)) ha
  refine ⟨⟨?_, ?_⟩, (Record.isNull_eq_false hr).symm⟩
  · rw [ofDocument, toDocument, Record.ofDocument_written (by decide) (.refl _)]
    simp only [Option.bind_eq_bind, Option.bind_some]
    rw [Record.required_written (kept_string key) rfl, Record.required_written kept rfl]
    rfl
  · refine Document.whole_object_iff.mpr ?_
    simp only [List.forall_mem_cons]
    exact ⟨Document.whole_string _, kept.whole, List.forall_mem_nil _⟩

theorem StateBlock.faithful (sound : ∀ l ∈ d.leaves, l.Sound) :
    Faithful ofDocument toDocument d := by
  intro s h
  obtain ⟨r, hr, h⟩ := Option.bind_eq_some_iff.mp h
  obtain ⟨bindings, hb, h⟩ := Option.bind_eq_some_iff.mp h
  obtain ⟨watchers, hw, h⟩ := Option.bind_eq_some_iff.mp h
  cases h
  have bindings_kept := Record.kept_defaulted hr
    (fun p hp => faithful_table fun q hq => Binding.faithful (sound_part (sound_part sound hp) hq))
    kept_empty hb
  have watchers_kept := Record.kept_defaulted hr
    (fun p hp => faithful_list fun q hq => Watcher.faithful (sound_part (sound_part sound hp) hq))
    kept_nil hw
  refine ⟨⟨?_, ?_⟩, (Record.isNull_eq_false hr).symm⟩
  · rw [ofDocument, toDocument, Record.ofDocument_written (by decide) (.refl _)]
    simp only [Option.bind_eq_bind, Option.bind_some]
    rw [Record.defaulted_written bindings_kept rfl, Record.defaulted_written watchers_kept rfl]
    rfl
  · refine Document.whole_object_iff.mpr ?_
    simp only [List.forall_mem_cons]
    exact ⟨bindings_kept.whole, watchers_kept.whole, List.forall_mem_nil _⟩

/-! ## Nodes -/

theorem NodeKind.tag_ofTag (t : String) : (ofTag t).tag = t := by
  rw [ofTag]
  cases found : all.find? (·.tag == t) with
  | none => rfl
  | some k =>
    have same := List.find?_some found
    exact eq_of_beq same

namespace Node

theorem toDocuments_eq (ns : List Node) : toDocuments ns = ns.map toDocument := by
  induction ns with
  | nil => rfl
  | cons n rest ih => rw [toDocuments, List.map_cons, ih]

def listDocument (ns : List Node) : Document := .array (ns.map toDocument)

theorem childrenEntry_eq (children : Option (List Node)) :
    childrenEntry children = Document.whenSome "children" listDocument children := by
  cases children with
  | none => rfl
  | some ns => rw [childrenEntry, toDocuments_eq]; rfl

/-- **What is read as a node is kept**, and so are lists of nodes. -/
theorem faithful (sound : ∀ l ∈ d.leaves, l.Sound) : Faithful ofDocument toDocument d := by
  -- children stand two layers down, so the lists of nodes are part of the induction
  suffices both : Faithful ofDocument toDocument d ∧ Faithful (·.list? ofDocument) listDocument d
    from both.1
  induction d using Document.parts_induction with
  | whole d ih =>
    have inner {p : Document} (hp : p ∈ d.parts) := ih p hp (sound_part sound hp)
    refine ⟨?_, faithful_list fun p hp => (inner hp).1⟩
    intro n h
    rw [ofDocument_eq] at h
    obtain ⟨r, hr, h⟩ := Option.bind_eq_some_iff.mp h
    obtain ⟨id, -, h⟩ := Option.bind_eq_some_iff.mp h
    obtain ⟨tag, -, h⟩ := Option.bind_eq_some_iff.mp h
    obtain ⟨props, hp, h⟩ := Option.bind_eq_some_iff.mp h
    obtain ⟨style, hs, h⟩ := Option.bind_eq_some_iff.mp h
    obtain ⟨action, ha, h⟩ := Option.bind_eq_some_iff.mp h
    obtain ⟨state, ht, h⟩ := Option.bind_eq_some_iff.mp h
    obtain ⟨children, hc, h⟩ := Option.bind_eq_some_iff.mp h
    cases h
    have props_kept := Record.kept_defaulted hr
      (fun p hp => Value.faithful_table (sound_part sound hp)) Value.kept_empty hp
    have style_kept := Record.kept_optional hr
      (fun p hp => NodeStyle.faithful (sound_part sound hp)) hs
    have action_kept := Record.kept_optional hr
      (fun p hp => ActionSpec.faithful (sound_part sound hp)) ha
    have state_kept := Record.kept_optional hr
      (fun p hp => StateBlock.faithful (sound_part sound hp)) ht
    have children_kept := Record.kept_optional hr (fun p hp => (inner hp).2) hc
    refine ⟨⟨?_, ?_⟩, (Record.isNull_eq_false hr).symm⟩
    · rw [ofDocument_eq, toDocument, childrenEntry_eq, NodeKind.tag_ofTag,
        Record.ofDocument_written (by decide)]
      · simp only [Option.bind_some, ofRecord, Option.bind_eq_bind]
        rw [Record.defaulted_written (kept_string id) rfl,
          Record.required_written (kept_string tag) rfl,
          Record.defaulted_written props_kept rfl,
          Record.optional_written style_kept (by simp [Entries.find?]),
          Record.optional_written action_kept (by simp [Entries.find?]),
          Record.optional_written state_kept (by simp [Entries.find?]),
          Record.optional_written children_kept (by simp [Entries.find?])]
        rfl
      · simp only [Entries.keys_append]
        exact ((((List.Sublist.refl ["id", "type", "props"]).append (keys_whenSome _ _)).append
          (keys_whenSome _ _)).append (keys_whenSome _ _)).append (keys_whenSome _ _)
    · rw [toDocument, childrenEntry_eq]
      refine Document.whole_object_iff.mpr ?_
      simp only [List.forall_mem_append, List.forall_mem_cons]
      exact ⟨⟨⟨⟨⟨Document.whole_string _, Document.whole_string _, props_kept.whole,
        List.forall_mem_nil _⟩, whole_whenSome style_kept⟩, whole_whenSome action_kept⟩,
        whole_whenSome state_kept⟩, whole_whenSome children_kept⟩

/-- **A tree that was read comes back from its text.**  The text of a tree always exists if the tree
was read from bytes, and its bytes hold the same tree, as long as no more than 127 containers are
inside one another.  That a finite float comes back from its text is asked of the floats in the
tree. -/
theorem decodeBytes_encode {bytes : List UInt8} {n : Node} (decoded : decodeBytes bytes = some n)
    (printed : ∀ x, .real x ∈ n.toDocument.leaves → x.isFinite = true →
      Document.read (String.ofList (realChars x)) = some (.real x)) :
    ∃ text, n.encode = .ok text ∧
      (n.toDocument.depth ≤ 127 → decodeBytes (Text.bytesOf text) = some n) := by
  obtain ⟨d, read, held⟩ := Option.bind_eq_some_iff.mp decoded
  obtain ⟨kept, -⟩ := faithful (Document.held_readBytes read).sound n held
  refine ⟨_, kept.whole.encode_eq, fun shallow => ?_⟩
  rw [decodeBytes, (kept.whole.comes_back printed shallow).2, Option.bind_some, kept.back]

/-- A tree with a kind and an action that are not known, a style and children that are empty, and
bindings with a default and with a formula. -/
def counterDocument : Document :=
  .object [("type", .string "Counter"), ("children", .array []), ("style", .object []),
    ("action", .object [("type", .string "RING")]), ("props", .object [("step", .real 0.5)]),
    ("state", .object [
      ("bindings", .object [
        ("twice", .object [("type", .string "number"), ("defaultValue", .null),
          ("computed", .bool true), ("expression", .string "n * 2")]),
        ("n", .object [("type", .string "number"), ("defaultValue", .real 2)])]),
      ("watchers", .array [.object [("key", .string "n"),
        ("action", .object [("type", .string "SHARE")])]])])]

def counter : Node :=
  .mk "" (.unknown "Counter") (Table.ofPairs [("step", .float 0.5)]) (some ⟨none, none, none⟩)
    (some ⟨"", .unknown "RING", ∅⟩)
    (some ⟨Table.ofPairs [("n", ⟨"", .number, some (.int 2), none, none⟩),
      ("twice", ⟨"", .number, none, some true, some "n * 2"⟩)], [⟨"n", ⟨"", .share, ∅⟩⟩]⟩)
    (some [])

theorem counter_comes_back :
    decodeBytes (Text.bytesOf counterDocument.compact) = some counter ∧
      ∃ text, counter.encode = .ok text ∧ decodeBytes (Text.bytesOf text) = some counter := by
  have half : Float.isFinite 0.5 = true := by decide +kernel
  have two : Float.isFinite 2 = true := by decide +kernel
  have printed (x : Float) (h : x = 0.5 ∨ x = 2) :
      Document.read (String.ofList (realChars x)) = some (.real x) := by
    obtain rfl | rfl := h
    · with_unfolding_all rfl
    · with_unfolding_all rfl
  have leaves : counterDocument.leaves = [.string "Counter", .string "RING", .real 0.5,
      .string "number", .null, .bool true, .string "n * 2", .string "number", .real 2, .string "n",
      .string "SHARE"] := rfl
  have written : counterDocument.Whole := by
    simp [Document.Whole, leaves, Document.Sound, two, half]
  have read := (written.comes_back (fun x hx _ => printed x (by simpa [leaves] using hx))
    (by decide)).2
  have held : ofDocument counterDocument = some counter := by
    rw [ofDocument_eq]
    with_unfolding_all rfl
  have decoded : decodeBytes (Text.bytesOf counterDocument.compact) = some counter := by
    rw [decodeBytes, read, Option.bind_some, held]
  have leaves : counter.toDocument.leaves = [.string "", .string "Counter", .real 0.5,
      .string "", .string "RING", .string "", .string "number", .integer 2, .string "",
      .string "number", .bool true, .string "n * 2", .string "n", .string "", .string "SHARE"] := by
    with_unfolding_all rfl
  obtain ⟨text, encoded, back⟩ := decodeBytes_encode decoded
    fun x hx _ => printed x (.inl (by simpa [leaves] using hx))
  exact ⟨decoded, text, encoded, back (by decide +kernel)⟩

end Node

end ServerUi
