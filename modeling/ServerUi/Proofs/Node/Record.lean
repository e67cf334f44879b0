import ServerUi.Node
import ServerUi.Proofs.Json.Records

/-! # Nodes as records

Unlike the other records, a node is read into a draft, one entry or item after the other.  The
result is what comes of collecting the known fields first and building the node from the record
that they make (`ofDocument_eq`).  The proof follows the reader and joins a draft with the entries
still to come (`Draft.join`); what carries it is that an entry may be put into the draft or left
among the others (`Draft.join_put`).
-/

namespace ServerUi.Node

open ServerUi.Json

def fields : List Field :=
  [.defaulted "id", .required "type", .defaulted "props", .defaulted "style", .defaulted "action",
    .defaulted "state", .defaulted "children"]

def ofRecord (r : Record) : Option Node := do
  let id ← r.defaulted "id" "" (·.string?)
  let kind ← r.required "type" (·.string?)
  let props ← r.defaulted "props" ∅ Value.tableOfDocument
  let style ← r.optional "style" NodeStyle.ofDocument
  let action ← r.optional "action" ActionSpec.ofDocument
  let state ← r.optional "state" StateBlock.ofDocument
  let children ← r.optional "children" (·.list? ofDocument)
  pure (mk id (.ofTag kind) props style action state children)

theorem ofDocuments_eq (items : List Document) : ofDocuments items = items.mapM ofDocument := by
  induction items with
  | nil => rw [ofDocuments]; rfl
  | cons d rest ih => rw [ofDocuments, List.mapM_cons, ih]

theorem childrenOf_eq (d : Document) :
    childrenOf d = Record.nullable (·.list? ofDocument) d := by
  cases d with
  | array items =>
    rw [childrenOf, ofDocuments_eq]
    rfl
  | null => rw [childrenOf]; rfl
  | bool b => simp [childrenOf, Record.nullable, Document.isNull, Document.list?]
  | integer n => simp [childrenOf, Record.nullable, Document.isNull, Document.list?]
  | real x => simp [childrenOf, Record.nullable, Document.isNull, Document.list?]
  | string s => simp [childrenOf, Record.nullable, Document.isNull, Document.list?]
  | object entries => simp [childrenOf, Record.nullable, Document.isNull, Document.list?]
  | malformed => simp [childrenOf, Record.nullable, Document.isNull, Document.list?]

namespace Draft

theorem nullable_eq {α : Type} (read : Document → Option α) (d : Document) :
    nullable read d = Record.nullable read d := by
  cases d <;> rfl

/-- Fills any slot, the children included. -/
def put (draft : Draft) (slot : Slot) (d : Document) : Option Draft :=
  if slot = .children then
    (childrenOf d).map fun cs => { draft with filled := slot :: draft.filled, children := cs }
  else draft.fill slot d

/-- The node of a draft with the fields still to be read; they count before the draft. -/
def complete (draft : Draft) (r : Record) : Option Node := do
  let id ← r.defaulted "id" draft.id (·.string?)
  let kind ← r.defaulted "type" draft.kind fun d => d.string?.map .ofTag
  let props ← r.defaulted "props" draft.props Value.tableOfDocument
  let style ← r.defaulted "style" draft.style (Record.nullable NodeStyle.ofDocument)
  let action ← r.defaulted "action" draft.action (Record.nullable ActionSpec.ofDocument)
  let state ← r.defaulted "state" draft.state (Record.nullable StateBlock.ofDocument)
  let children ← r.defaulted "children" draft.children (Record.nullable (·.list? ofDocument))
  pure (Node.mk id kind props style action state children)

theorem filled_of_put {draft next : Draft} {slot : Slot} {d : Document}
    (h : draft.put slot d = some next) : next.filled = slot :: draft.filled := by
  cases slot <;> obtain ⟨a, -, rfl⟩ := Option.map_eq_some_iff.mp h <;> rfl

/-- A slot may be filled before or after the others. -/
theorem complete_put (draft : Draft) (slot : Slot) (d : Document) {more : Entries Document}
    (fresh : more.find? slot.name = none) :
    ((draft.put slot d).bind fun next => next.complete ⟨more⟩) =
      draft.complete ⟨(slot.name, d) :: more⟩ := by
  have later {α : Type} (default : α) (read : Document → Option α) :
      Record.defaulted ⟨more⟩ slot.name default read = some default :=
    Record.defaulted_of_missing fresh default read
  cases slot with
  | id =>
    simp only [Slot.name] at later
    cases read : d.string? <;>
      simp [put, fill, complete, Record.defaulted_cons, Slot.name, later, read]
  | kind =>
    simp only [Slot.name] at later
    cases read : d.string? <;>
      simp [put, fill, complete, Record.defaulted_cons, Slot.name, later, read]
  | props =>
    simp only [Slot.name] at later
    cases read : Value.tableOfDocument d <;>
      simp [put, fill, complete, Record.defaulted_cons, Slot.name, later, read]
  | style =>
    simp only [Slot.name] at later
    cases read : Record.nullable NodeStyle.ofDocument d <;>
      simp [put, fill, nullable_eq, complete, Record.defaulted_cons, Slot.name, later, read]
  | action =>
    simp only [Slot.name] at later
    cases read : Record.nullable ActionSpec.ofDocument d <;>
      simp [put, fill, nullable_eq, complete, Record.defaulted_cons, Slot.name, later, read]
  | state =>
    simp only [Slot.name] at later
    cases read : Record.nullable StateBlock.ofDocument d <;>
      simp [put, fill, nullable_eq, complete, Record.defaulted_cons, Slot.name, later, read]
  | children =>
    simp only [Slot.name] at later
    rw [put, if_pos rfl, childrenOf_eq]
    cases read : Record.nullable (·.list? ofDocument) d <;>
      simp [complete, Record.defaulted_cons, Slot.name, later, read]

end Draft

/-! ## Entries -/

theorem Slot.find?_name (slot : Slot) : Slot.all.find? (·.name == slot.name) = some slot := by
  cases slot <;> rfl

theorem Slot.find?_eq_some {k : String} {slot : Slot}
    (h : Slot.all.find? (·.name == k) = some slot) : slot.name = k := by
  simpa using List.find?_some h

theorem Slot.name_injective {s t : Slot} (h : s.name = t.name) : s = t := by
  have found := s.find?_name
  rw [h, t.find?_name] at found
  exact (Option.some.inj found).symm

def names : List String := fields.map (·.name)

theorem names_contains (k : String) :
    names.contains k = (Slot.all.find? (·.name == k)).isSome := by
  have same : names = Slot.all.map Slot.name := rfl
  rw [List.isSome_find?, same, List.contains_eq_any_beq, List.any_map]
  simp only [Function.comp_def, Bool.beq_comm]

/-- Is a field still to be read for a slot that is filled? -/
def Draft.repeats (draft : Draft) (fs : Entries Document) : Bool :=
  draft.filled.any fun slot => (fs.find? slot.name).isSome

/-- Is there a kind, or one still to be read? -/
def Draft.hasKind (draft : Draft) (fs : Entries Document) : Bool :=
  draft.filled.contains .kind || (fs.find? "type").isSome

namespace Draft

/-- The node of a draft with the known entries still to be read: none may be for a slot that is
filled, and the kind must not be missing. -/
def join (draft : Draft) (fs : Entries Document) : Option Node :=
  if draft.repeats fs then none
  else if draft.hasKind fs then draft.complete ⟨fs⟩ else none

theorem join_nil (draft : Draft) : draft.join [] = draft.finish := by
  have nothing : draft.repeats [] = false := by simp [repeats, Entries.find?]
  have kind : draft.hasKind [] = draft.filled.contains .kind := by simp [hasKind, Entries.find?]
  rw [join, nothing, kind]
  rfl

variable {draft next : Draft} {slot : Slot} {d : Document} {more : Entries Document}

/-- What one more slot changes: it must not be read again, and it may be the kind. -/
theorem repeats_put (h : draft.put slot d = some next) :
    next.repeats more = ((more.find? slot.name).isSome || draft.repeats more) := by
  rw [repeats, filled_of_put h]
  rfl

theorem hasKind_put (h : draft.put slot d = some next) :
    next.hasKind more = (slot == .kind || draft.hasKind more) := by
  rw [hasKind, filled_of_put h, hasKind, List.contains_cons, Bool.or_assoc]
  cases slot <;> rfl

theorem repeats_cons (fresh : slot ∉ draft.filled) :
    draft.repeats ((slot.name, d) :: more) = draft.repeats more := by
  have others : ∀ t ∈ draft.filled, slot.name ≠ t.name := by
    intro t ht same
    obtain rfl := Slot.name_injective same
    exact fresh ht
  rw [Bool.eq_iff_iff, repeats, repeats, List.any_eq_true, List.any_eq_true]
  refine exists_congr fun t => and_congr_right fun ht => ?_
  rw [Entries.find?, if_neg (others t ht)]

theorem hasKind_cons :
    draft.hasKind ((slot.name, d) :: more) = (slot == .kind || draft.hasKind more) := by
  cases slot <;> simp [hasKind, Entries.find?, Slot.name]

theorem join_taken (taken : slot ∈ draft.filled) : draft.join ((slot.name, d) :: more) = none := by
  have again : draft.repeats ((slot.name, d) :: more) = true := by
    refine List.any_eq_true.mpr ⟨slot, taken, ?_⟩
    rw [Entries.find?, if_pos rfl]
    rfl
  rw [join, if_pos again]

/-- An entry for a slot that is not filled may be read now or later, if there is no other. -/
theorem join_put (fresh : slot ∉ draft.filled) :
    ((draft.put slot d).bind fun next => next.join more) =
      if (more.find? slot.name).isSome then none else draft.join ((slot.name, d) :: more) := by
  have filled (next : Draft) (h : draft.put slot d = some next) : next.join more =
      if (more.find? slot.name).isSome || draft.repeats more then none
      else if slot == .kind || draft.hasKind more then next.complete ⟨more⟩ else none := by
    rw [join, repeats_put h, hasKind_put h]
  rw [Option.bind_congr filled]
  cases again : more.find? slot.name with
  | some _ => exact Option.bind_fun_none _
  | none =>
    rw [join, repeats_cons fresh, hasKind_cons, ← complete_put draft slot d again]
    simp only [Option.isSome_none, Bool.false_or, Bool.false_eq_true, if_false]
    split
    · exact Option.bind_fun_none _
    · split
      · rfl
      · exact Option.bind_fun_none _

end Draft

theorem ofEntries_cons (k : String) (d : Document) (rest : List (String × Document))
    (draft : Draft) :
    ofEntries ((k, d) :: rest) draft =
      match Slot.all.find? (·.name == k) with
      | none => ofEntries rest draft
      | some slot =>
        if draft.filled.contains slot then none
        else (draft.put slot d).bind (ofEntries rest) := by
  rw [ofEntries]
  cases Slot.all.find? (·.name == k) with
  | none => rfl
  | some slot =>
    simp only [Draft.put]
    split
    · rfl
    · split
      · cases childrenOf d <;> rfl
      · rfl

/-- **Entries fill a draft as they fill a record**: the order does not matter, and a slot that comes
twice spoils both. -/
theorem ofEntries_eq (entries : List (String × Document)) (draft : Draft) :
    (ofEntries entries draft).bind Draft.finish =
      (Record.known names entries).bind draft.join := by
  induction entries generalizing draft with
  | nil =>
    rw [ofEntries, Record.known, Option.bind_some, Option.bind_some, draft.join_nil]
  | cons e rest ih =>
    obtain ⟨k, d⟩ := e
    rw [ofEntries_cons, Record.known, names_contains]
    cases found : Slot.all.find? (·.name == k) with
    | none =>
      show (ofEntries rest draft).bind Draft.finish = _
      rw [ih]
      cases Record.known names rest <;> rfl
    | some slot =>
      obtain rfl := Slot.find?_eq_some found
      simp only [Option.isSome_some, if_true, List.contains_iff_mem]
      by_cases taken : slot ∈ draft.filled
      · rw [if_pos taken]
        cases Record.known names rest with
        | none => rfl
        | some more =>
          simp only [Option.bind_eq_bind, Option.bind_some]
          split
          · rfl
          · exact (Draft.join_taken taken).symm
      · rw [if_neg taken, Option.bind_assoc]
        simp only [ih]
        cases Record.known names rest with
        | none => exact Option.bind_fun_none _
        | some more =>
          simp only [Option.bind_eq_bind, Option.bind_some]
          rw [Draft.join_put taken]
          split <;> rfl

/-! ## Items -/

/-- The field of a slot: only the kind must be in an array. -/
def Slot.field (slot : Slot) : Field := ⟨slot.name, slot != .kind⟩

theorem fields_eq : fields = Slot.all.map Slot.field := rfl

theorem positional_nil (slots : List Slot) :
    Record.positional (slots.map Slot.field) [] = if .kind ∈ slots then none else some [] := by
  induction slots with
  | nil => rfl
  | cons slot slots ih =>
    rw [List.map_cons, Record.positional, ih]
    cases slot <;> simp [Slot.field]

/-- Only slots are read by position. -/
theorem find?_positional {slots : List Slot} {items : List Document} {fs : Entries Document}
    (h : Record.positional (slots.map Slot.field) items = some fs) {slot : Slot}
    (other : slot ∉ slots) : fs.find? slot.name = none := by
  induction slots generalizing items fs with
  | nil =>
    cases items with
    | nil =>
      cases h
      rfl
    | cons d rest => cases h
  | cons first slots ih =>
    obtain ⟨ne, other⟩ := not_or.mp (mt List.mem_cons.mpr other)
    cases items with
    | nil =>
      rw [List.map_cons, Record.positional, Option.ite_none_right_eq_some] at h
      exact ih h.2 other
    | cons d rest =>
      obtain ⟨more, hm, rfl⟩ := Option.map_eq_some_iff.mp h
      have names : first.field.name ≠ slot.name := fun e => ne (Slot.name_injective e.symm)
      rw [Entries.find?, if_neg names, ih hm other]

theorem ofItems_cons (d : Document) (rest : List Document) (slot : Slot) (slots : List Slot)
    (draft : Draft) :
    ofItems (d :: rest) (slot :: slots) draft = (draft.put slot d).bind (ofItems rest slots) := by
  rw [ofItems, Draft.put]
  split
  · cases childrenOf d <;> rfl
  · rfl

/-- **Items fill a draft as they fill a record** whose slots are still to come. -/
theorem ofItems_eq (items : List Document) {slots : List Slot} {draft : Draft}
    (distinct : slots.Nodup) (fresh : ∀ slot ∈ slots, slot ∉ draft.filled) :
    (ofItems items slots draft).bind Draft.finish =
      (Record.positional (slots.map Slot.field) items).bind draft.join := by
  induction items generalizing slots draft with
  | nil =>
    rw [ofItems, positional_nil, Option.bind_some]
    split
    case isTrue later =>
      have missing : ¬ draft.filled.contains .kind = true :=
        mt List.contains_iff_mem.mp (fresh _ later)
      rw [Draft.finish, if_neg missing, Option.bind_none]
    case isFalse => rw [Option.bind_some, draft.join_nil]
  | cons d rest ih =>
    cases slots with
    | nil =>
      rw [ofItems]
      rfl
    | cons slot slots =>
      obtain ⟨once, distinct⟩ := List.nodup_cons.mp distinct
      have next (next : Draft) (h : draft.put slot d = some next) :
          (ofItems rest slots next).bind Draft.finish =
            (Record.positional (slots.map Slot.field) rest).bind next.join := by
        refine ih distinct fun t ht => ?_
        rw [Draft.filled_of_put h, List.mem_cons, not_or]
        exact ⟨fun e => once (e ▸ ht), fresh t (List.mem_cons_of_mem _ ht)⟩
      rw [ofItems_cons, Option.bind_assoc, Option.bind_congr next, List.map_cons,
        Record.positional]
      cases read : Record.positional (slots.map Slot.field) rest with
      | none => exact Option.bind_fun_none _
      | some more =>
        have single := find?_positional read once
        simp only [Option.bind_some, Option.map_some]
        rw [Draft.join_put (fresh slot List.mem_cons_self), single]
        rfl

/-! ## Nodes -/

theorem ofRecord_eq (r : Record) : ofRecord r = Draft.empty.join r.fields := by
  have kind : Draft.empty.hasKind r.fields = (r.fields.find? "type").isSome := rfl
  have once : Draft.empty.repeats r.fields = false := rfl
  rw [Draft.join, once, kind, ofRecord, Draft.complete]
  simp only [Record.optional_eq]
  cases found : r.fields.find? "type" with
  | none =>
    have missing : r.required "type" (·.string?) = none := by
      rw [Record.required, found, Option.bind_none]
    rw [missing]
    exact Option.bind_fun_none _
  | some d =>
    have required : r.required "type" (·.string?) = d.string? := by
      rw [Record.required, found, Option.bind_some]
    have defaulted : r.defaulted "type" Draft.empty.kind (fun d => d.string?.map .ofTag) =
        d.string?.map .ofTag := by
      rw [Record.defaulted, found]
    rw [required, defaulted]
    simp only [Option.isSome_some, Bool.false_eq_true, if_true, if_false, Option.bind_eq_bind,
      Option.bind_map]
    rfl

/-- **A node is read as a record**: an object in any order, or an array. -/
theorem ofDocument_eq (d : Document) :
    ofDocument d = (Record.ofDocument fields d).bind ofRecord := by
  rw [funext ofRecord_eq]
  cases d with
  | object entries =>
    rw [ofDocument, ofEntries_eq, Record.ofDocument, Option.bind_map]
    rfl
  | array items =>
    rw [ofDocument, ofItems_eq items (by decide) (fun _ _ => List.not_mem_nil), ← fields_eq,
      Record.ofDocument, Option.bind_map]
    rfl
  | null => simp [ofDocument, Record.ofDocument]
  | bool b => simp [ofDocument, Record.ofDocument]
  | integer n => simp [ofDocument, Record.ofDocument]
  | real x => simp [ofDocument, Record.ofDocument]
  | string s => simp [ofDocument, Record.ofDocument]
  | malformed => simp [ofDocument, Record.ofDocument]

end ServerUi.Node
