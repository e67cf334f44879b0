import ServerUi.Proofs.Json.Records
import ServerUi.Proofs.Json.Writing

/-! # What comes back after it is written

A reader and a writer belong together if whatever is read from a document is read again from its own
document, which is whole (`Faithful`).  That holds of lists, tables and records if it holds of the
readers of their parts.  The one thing to watch are fields that are left out when they hold nothing:
null stands for nothing there, so nothing else may be written as null.
-/

namespace ServerUi

variable {α : Type}

namespace Entries

@[simp]
theorem find?_append (es fs : Entries α) (k : String) :
    find? (es ++ fs) k = (es.find? k).or (fs.find? k) := by
  induction es with
  | nil => rfl
  | cons e rest ih =>
    obtain ⟨l, v⟩ := e
    by_cases same : l = k
    · simp [find?, same]
    · simp [find?, same, ih]

@[simp]
theorem keys_append (es fs : Entries α) : keys (es ++ fs) = es.keys ++ fs.keys := List.map_append

end Entries

namespace Json

open Document

variable {read : Document → Option α} {write : α → Document} {d : Document}

/-- What is written is read back, and its document is whole. -/
structure Kept (read : Document → Option α) (write : α → Document) (a : α) : Prop where
  back : read (write a) = some a
  whole : (write a).Whole

/-- Whatever is read from the document is kept, and is written as null from null only. -/
def Faithful (read : Document → Option α) (write : α → Document) (d : Document) : Prop :=
  ∀ a, read d = some a → Kept read write a ∧ (write a).isNull = d.isNull

theorem kept_string (s : String) : Kept (·.string?) .string s := ⟨rfl, whole_string s⟩

theorem faithful_string (d : Document) : Faithful (·.string?) .string d := by
  intro s h
  refine ⟨kept_string s, ?_⟩
  cases d with
  | string _ => rfl
  | _ => cases h

theorem faithful_bool (d : Document) : Faithful (·.bool?) .bool d := by
  intro b h
  refine ⟨⟨rfl, .leaf rfl nofun trivial⟩, ?_⟩
  cases d with
  | bool _ => rfl
  | _ => cases h

/-! ## Lists and tables -/

theorem kept_list {xs : List α} (h : ∀ a ∈ xs, Kept read write a) :
    Kept (·.list? read) (fun xs => .array (xs.map write)) xs := by
  constructor
  · refine mapM_eq_some_iff.mpr ?_
    rw [List.map_map]
    exact List.map_congr_left fun a ha => (h a ha).back
  · refine whole_array_iff.mpr fun p hp => ?_
    obtain ⟨a, ha, rfl⟩ := List.mem_map.mp hp
    exact (h a ha).whole

theorem kept_nil : Kept (·.list? read) (fun xs => .array (xs.map write)) [] := kept_list nofun

theorem faithful_list (parts : ∀ p ∈ d.parts, Faithful read write p) :
    Faithful (·.list? read) (fun xs => .array (xs.map write)) d := by
  intro xs h
  cases d with
  | array items =>
    refine ⟨kept_list fun a ha => ?_, rfl⟩
    have held : some a ∈ items.map read := by
      rw [mapM_eq_some_iff.mp h]
      exact List.mem_map_of_mem ha
    obtain ⟨p, hp, hr⟩ := List.mem_map.mp held
    exact (parts p hp a hr).1
  | _ => cases h

theorem kept_table {t : Table α} (h : ∀ e ∈ t.entries, Kept read write e.2) :
    Kept (·.table? read) (fun t => .object (t.entries.map fun e => (e.1, write e.2))) t := by
  constructor
  · refine table?_written fun e he => (h e he).back
  · refine whole_object_iff.mpr fun e he => ?_
    obtain ⟨f, hf, rfl⟩ := List.mem_map.mp he
    exact (h f hf).whole

theorem kept_empty :
    Kept (·.table? read) (fun t => .object (t.entries.map fun e => (e.1, write e.2))) ∅ :=
  kept_table nofun

theorem faithful_table (parts : ∀ p ∈ d.parts, Faithful read write p) :
    Faithful (·.table? read) (fun t => .object (t.entries.map fun e => (e.1, write e.2))) d := by
  intro t h
  cases d with
  | object entries =>
    refine ⟨kept_table fun e he => ?_, rfl⟩
    obtain ⟨p, hp, hr⟩ := mem_table? h he
    exact (parts p (List.mem_map_of_mem (f := (·.2)) hp) e.2 hr).1
  | _ => cases h

/-! ## Fields that are left out -/

@[simp]
theorem find?_whenSome (name k : String) (o : Option α) :
    Entries.find? (whenSome name write o) k = if name = k then o.map write else none := by
  cases o with
  | none => exact (ite_self _).symm
  | some a => rfl

theorem keys_whenSome (name : String) (o : Option α) :
    (Entries.keys (whenSome name write o)).Sublist [name] := by
  cases o with
  | none => exact List.nil_sublist _
  | some a => exact List.Sublist.refl _

theorem whole_whenSome {name : String} {o : Option α}
    (kept : ∀ a ∈ o, Kept read write a ∧ (write a).isNull = false) :
    ∀ e ∈ whenSome name write o, e.2.Whole := by
  cases o with
  | none => exact nofun
  | some a => exact List.forall_mem_singleton.mpr (kept a rfl).1.whole

/-! ## Records -/

namespace Record

variable {fields : List Field} {r : Record} {name : String} {a default : α} {o : Option α}

theorem isNull_eq_false (h : ofDocument fields d = some r) : d.isNull = false := by
  cases d with
  | null => cases h
  | _ => rfl

theorem kept_required (hr : ofDocument fields d = some r)
    (parts : ∀ p ∈ d.parts, Faithful read write p) (h : r.required name read = some a) :
    Kept read write a := by
  obtain ⟨p, found, h⟩ := Option.bind_eq_some_iff.mp h
  exact (parts p (mem_parts hr found) a h).1

theorem kept_defaulted (hr : ofDocument fields d = some r)
    (parts : ∀ p ∈ d.parts, Faithful read write p) (missing : Kept read write default)
    (h : r.defaulted name default read = some a) : Kept read write a := by
  rw [defaulted] at h
  cases found : r.fields.find? name with
  | none =>
    rw [found] at h
    cases h
    exact missing
  | some p =>
    rw [found] at h
    exact (parts p (mem_parts hr found) a h).1

/-- What stands in a field that may be null is kept, and is not written as null. -/
theorem kept_optional (hr : ofDocument fields d = some r)
    (parts : ∀ p ∈ d.parts, Faithful read write p) (h : r.optional name read = some o) :
    ∀ a ∈ o, Kept read write a ∧ (write a).isNull = false := by
  intro a ha
  obtain rfl := Option.mem_def.mp ha
  rw [optional_eq, defaulted] at h
  cases found : r.fields.find? name with
  | none =>
    rw [found] at h
    cases h
  | some p =>
    rw [found] at h
    cases null : p.isNull with
    | true => simp [nullable, null] at h
    | false =>
      have hp : read p = some a := by simpa [nullable, null] using h
      exact null ▸ parts p (mem_parts hr found) a hp

/-! ### Records of written fields -/

/-- An object whose keys are fields in their order writes the record of its entries. -/
theorem ofDocument_written {es : Entries Document} (distinct : (fields.map (·.name)).Nodup)
    (order : es.keys.Sublist (fields.map (·.name))) :
    ofDocument fields (.object es) = some ⟨es⟩ := by
  rw [ofDocument_object (order.nodup distinct)]
  congr 2
  refine List.filter_eq_self.mpr fun e he => List.contains_iff_mem.mpr ?_
  exact order.subset (List.mem_map_of_mem (f := (·.1)) he)

variable {es : Entries Document}

theorem required_written (kept : Kept read write a) (found : es.find? name = some (write a)) :
    required ⟨es⟩ name read = some a := by
  rw [required, found]
  exact kept.back

theorem defaulted_written (kept : Kept read write a) (found : es.find? name = some (write a)) :
    defaulted ⟨es⟩ name default read = some a := by
  rw [defaulted, found]
  exact kept.back

theorem optional_written (kept : ∀ a ∈ o, Kept read write a ∧ (write a).isNull = false)
    (found : es.find? name = o.map write) : optional ⟨es⟩ name read = some o := by
  rw [optional_eq, defaulted, found]
  cases o with
  | none => rfl
  | some a =>
    obtain ⟨⟨back, -⟩, present⟩ := kept a rfl
    simp [nullable, present, back]

end Record

end Json

end ServerUi
