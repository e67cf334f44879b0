import ServerUi.Proofs.Json.Records

/-! # Documents that read alike

Two documents are alike over a relation if they are the same leaf, or two numbers, or containers
with related documents in the same places (`Document.Alike`).  Every reader of one layer finds the
same in documents that are alike, as long as the readers of the parts do.
-/

namespace ServerUi.Json

variable {α : Type} {R : Document → Document → Prop} {d e : Document}

/-- A document is a number. -/
inductive Document.IsNumber : Document → Prop
  | integer (n : Int) : IsNumber (.integer n)
  | real (x : Float) : IsNumber (.real x)

/-- The outermost layers of two documents are alike, and what is inside is related. -/
inductive Document.Alike (R : Document → Document → Prop) : Document → Document → Prop
  | null : Alike R .null .null
  | bool (b : Bool) : Alike R (.bool b) (.bool b)
  | string (s : String) : Alike R (.string s) (.string s)
  | number {d e : Document} (left : d.IsNumber) (right : e.IsNumber) : Alike R d e
  | array {xs ys : List Document} (items : List.Forall₂ R xs ys) : Alike R (.array xs) (.array ys)
  | object {es fs : Entries Document} (left : es.keys.Nodup) (right : fs.keys.Nodup)
    (entries : ∀ k, Option.Rel R (es.find? k) (fs.find? k)) : Alike R (.object es) (.object fs)

/-- What is read of related documents that may be missing is the same. -/
theorem map_eq_of_rel {read : Document → α} {a b : Option Document} (h : Option.Rel R a b)
    (same : ∀ {p q}, R p q → read p = read q) : a.map read = b.map read := by
  cases h with
  | none => rfl
  | some related => exact congrArg some (same related)

namespace Document.Alike

theorem isNull_eq (h : Alike R d e) : d.isNull = e.isNull := by
  cases h with
  | number left right => cases left <;> cases right <;> rfl
  | _ => rfl

theorem string?_eq (h : Alike R d e) : d.string? = e.string? := by
  cases h with
  | number left right => cases left <;> cases right <;> rfl
  | _ => rfl

theorem bool?_eq (h : Alike R d e) : d.bool? = e.bool? := by
  cases h with
  | number left right => cases left <;> cases right <;> rfl
  | _ => rfl

theorem list?_eq {read : Document → Option α} (h : Alike R d e)
    (same : ∀ {p q}, R p q → read p = read q) : d.list? read = e.list? read := by
  cases h with
  | number left right => cases left <;> cases right <;> rfl
  | array items =>
    refine mapM_eq_mapM ?_
    induction items with
    | nil => rfl
    | cons first _ ih => rw [List.map_cons, List.map_cons, same first, ih]
  | _ => rfl

theorem table?_eq {read : Document → Option α} (h : Alike R d e)
    (same : ∀ {p q}, R p q → read p = read q) : d.table? read = e.table? read := by
  cases h with
  | number left right => cases left <;> cases right <;> rfl
  | @object es fs left right entries =>
    have found (k : String) : (es.find? k).map read = (fs.find? k).map read :=
      map_eq_of_rel (entries k) same
    ext t
    simp only [table?_eq_some_iff left, table?_eq_some_iff right, found]
  | _ => rfl

/-- An object names a text if its one entry is null under that key. -/
theorem name?_eq_some_iff {es : Entries Document} (distinct : es.keys.Nodup) {s : String} :
    Document.name? (.object es) = some s ↔
      ∀ k, (es.find? k).map (·.isNull) = if s = k then some true else none := by
  cases es with
  | nil =>
    refine iff_of_false (Option.some_ne_none s).symm fun h => ?_
    have none := h s
    rw [if_pos rfl] at none
    cases none
  | cons e rest =>
    obtain ⟨k, d⟩ := e
    cases rest with
    | nil =>
      have name : Document.name? (.object [(k, d)]) = if d.isNull then some k else none := by
        cases d <;> rfl
      rw [name, Option.ite_none_right_eq_some, Option.some.injEq]
      constructor
      · rintro ⟨null, rfl⟩ l
        by_cases same : k = l <;> simp [Entries.find?, same, null]
      · intro h
        have found := h s
        rw [if_pos rfl, Entries.find?] at found
        split at found
        · exact ⟨Option.some.inj found, ‹_›⟩
        · cases found
    | cons f rest =>
      obtain ⟨l, e⟩ := f
      have other : k ≠ l := by
        rintro rfl
        exact (List.nodup_cons.mp distinct).1 List.mem_cons_self
      have name : Document.name? (.object ((k, d) :: (l, e) :: rest)) = none := by
        cases d <;> rfl
      rw [name]
      refine iff_of_false (Option.some_ne_none s).symm fun h => other ?_
      -- both keys hold something, so both are the one that the object names
      have first := h k
      have second := h l
      rw [Entries.find?, if_pos rfl] at first
      rw [Entries.find?, if_neg other, Entries.find?, if_pos rfl] at second
      split at first
      · split at second
        · exact ‹s = k›.symm.trans ‹s = l›
        · cases second
      · cases first

theorem name?_eq (h : Alike R d e) (same : ∀ {p q}, R p q → p.isNull = q.isNull) :
    d.name? = e.name? := by
  cases h with
  | number left right => cases left <;> cases right <;> rfl
  | @object es fs left right entries =>
    have found (k : String) : (es.find? k).map (·.isNull) = (fs.find? k).map (·.isNull) :=
      map_eq_of_rel (entries k) same
    ext s
    rw [name?_eq_some_iff left, name?_eq_some_iff right]
    simp only [found]
  | _ => rfl

/-- Documents that are alike write related records. -/
theorem record (h : Alike R d e) (fields : List Field) :
    Option.Rel (Record.Related R) (Record.ofDocument fields d) (Record.ofDocument fields e) := by
  cases h with
  | number left right => cases left <;> cases right <;> exact .none
  | array items => exact Record.related_array items fields
  | object left right entries => exact Record.related_object left right entries fields
  | _ => exact .none

end Document.Alike

end ServerUi.Json
