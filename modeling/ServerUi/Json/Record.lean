import ServerUi.Json.Document
import ServerUi.Table

/-! # Records

A record is written as an object whose known fields appear at most once, or as an array of its
fields in their declared order.  Fields that are not known are passed over.  At the end of an
array only fields that may be left out may be missing.
-/

namespace ServerUi.Json

/-- A field of a record: its name, and whether an array may end before it. -/
structure Field where
  name : String
  mayEnd : Bool

/-- A field that an array must hold. -/
def Field.required (name : String) : Field := ⟨name, false⟩

/-- A field that an array may end before. -/
def Field.defaulted (name : String) : Field := ⟨name, true⟩

/-- The known fields of a record and the documents under them. -/
structure Record where
  fields : Entries Document

namespace Record

/-- The entries with a known name; nothing if one of them comes twice. -/
def known (names : List String) : Entries Document → Option (Entries Document)
  | [] => some []
  | (k, d) :: rest => do
    let more ← known names rest
    if names.contains k then
      if (more.find? k).isSome then none else pure ((k, d) :: more)
    else pure more

/-- Items under the names of the fields in their order. -/
def positional : List Field → List Document → Option (Entries Document)
  | [], [] => some []
  | [], _ :: _ => none
  | f :: fields, [] => if f.mayEnd then positional fields [] else none
  | f :: fields, d :: rest => (positional fields rest).map ((f.name, d) :: ·)

def ofDocument (fields : List Field) : Document → Option Record
  | .object entries => (known (fields.map (·.name)) entries).map (⟨·⟩)
  | .array items => (positional fields items).map (⟨·⟩)
  | _ => none

variable {α : Type}

def required (r : Record) (name : String) (read : Document → Option α) : Option α :=
  (r.fields.find? name).bind read

def defaulted (r : Record) (name : String) (default : α) (read : Document → Option α) : Option α :=
  match r.fields.find? name with
  | none => some default
  | some d => read d

/-- A field that may be missing or null. -/
def optional (r : Record) (name : String) (read : Document → Option α) : Option (Option α) :=
  match r.fields.find? name with
  | none | some .null => some none
  | some d => (read d).map some

end Record

namespace Document

variable {α : Type}

def list? (read : Document → Option α) : Document → Option (List α)
  | .array items => items.mapM read
  | _ => none

/-- Every entry of an object; the last entry of a key counts, and all must be read. -/
def table? (read : Document → Option α) : Document → Option (Table α)
  | .object entries =>
    (entries.mapM fun e => (read e.2).map (e.1, ·)).map Table.ofPairs
  | _ => none

end Document

end ServerUi.Json
