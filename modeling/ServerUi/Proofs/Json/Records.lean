import Mathlib.Data.List.Forall2
import Mathlib.Data.Option.Basic
import ServerUi.Json.Record
import ServerUi.Proofs.Json.Image

/-! # Tables, lists and records that are read

Readers of tables, lists and records look at the documents directly inside a document.  With
distinct keys a table holds under each key what is read there (`table?_eq_some_iff`), and whatever
is built from the fields of a record depends on these fields alone: documents that are related part
by part write related records (`Record.related_object`, `Record.related_array`), and these are read
alike if related documents are.
-/

namespace ServerUi

variable {α β : Type}

/-! ## Lists of options -/

theorem mapM_eq_some_iff {f : α → Option β} {xs : List α} {ys : List β} :
    xs.mapM f = some ys ↔ xs.map f = ys.map some := by
  induction xs generalizing ys with
  | nil => cases ys <;> simp
  | cons x rest ih =>
    rw [List.mapM_cons, List.map_cons]
    cases hx : f x with
    | none => cases ys <;> simp
    | some y =>
      cases ys with
      | nil => simp [Option.bind_eq_some_iff]
      | cons z zs => simp [Option.bind_eq_some_iff, ← ih, and_comm]

/-- Whether and how a list is read depends on what is read of its items. -/
theorem mapM_eq_mapM {γ : Type} {f : α → Option β} {g : γ → Option β} {xs : List α} {zs : List γ}
    (h : xs.map f = zs.map g) : xs.mapM f = zs.mapM g := by
  ext ys
  rw [mapM_eq_some_iff, mapM_eq_some_iff, h]

/-! ## Entries with distinct keys -/

namespace Entries

theorem find?_eq_none_iff {es : Entries α} {k : String} : es.find? k = none ↔ k ∉ es.keys := by
  induction es with
  | nil => simp [find?, keys]
  | cons e rest ih =>
    obtain ⟨l, v⟩ := e
    simp only [keys] at ih
    by_cases h : l = k
    · simp [find?, keys, h]
    · simp [find?, keys, h, ih, Ne.symm h]

theorem find?_eq_some_of_mem {es : Entries α} {k : String} {v : α} (distinct : es.keys.Nodup)
    (h : (k, v) ∈ es) : es.find? k = some v := by
  induction es with
  | nil => cases h
  | cons e rest ih =>
    obtain ⟨l, w⟩ := e
    obtain ⟨fresh, distinct⟩ := List.nodup_cons.mp distinct
    rw [find?]
    rcases List.mem_cons.mp h with h | h
    · cases h
      exact if_pos rfl
    · have other : l ≠ k := fun e => fresh (e ▸ List.mem_map_of_mem (f := (·.1)) h)
      rw [if_neg other, ih distinct h]

theorem find?_foldl_insert {ps : List (String × α)} (distinct : (keys ps).Nodup) (es : Entries α)
    (k : String) :
    (ps.foldl (fun es p => es.insert p.1 p.2) es).find? k = (find? ps k).or (es.find? k) := by
  induction ps generalizing es with
  | nil => rfl
  | cons p rest ih =>
    obtain ⟨l, v⟩ := p
    obtain ⟨fresh, distinct⟩ := List.nodup_cons.mp distinct
    rw [List.foldl_cons, ih distinct, find?]
    by_cases h : l = k
    · subst h
      rw [if_pos rfl, find?_insert_self, find?_eq_none_iff.mpr fresh]
      rfl
    · rw [if_neg h, find?_insert_of_ne _ _ (Ne.symm h)]

theorem find?_ofPairs {ps : List (String × α)} (distinct : (keys ps).Nodup) (k : String) :
    (ofPairs ps).find? k = find? ps k := by
  rw [ofPairs, find?_foldl_insert distinct]
  cases find? ps k <;> rfl

theorem mem_foldl_insert {ps : List (String × α)} {es : Entries α} {p : String × α}
    (h : p ∈ ps.foldl (fun es p => es.insert p.1 p.2) es) : p ∈ ps ∨ p ∈ es := by
  induction ps generalizing es with
  | nil => exact .inr h
  | cons q rest ih =>
    rcases ih h with h | h
    · exact .inl (List.mem_cons_of_mem _ h)
    · rcases mem_insert h with rfl | h
      · exact .inl List.mem_cons_self
      · exact .inr h

theorem mem_ofPairs {ps : List (String × α)} {p : String × α} (h : p ∈ ofPairs ps) : p ∈ ps :=
  (mem_foldl_insert h).resolve_right List.not_mem_nil

end Entries

namespace Json

open Document

/-! ## Tables -/

/-- The entries as they are read, in the order of writing. -/
def readAll (read : Document → Option α) (entries : Entries Document) : Option (Entries α) :=
  entries.mapM fun e => (read e.2).map (e.1, ·)

theorem table?_object (read : Document → Option α) (entries : Entries Document) :
    table? read (.object entries) = (readAll read entries).map Table.ofPairs := rfl

theorem readAll_cons (read : Document → Option α) (k : String) (d : Document)
    (rest : Entries Document) :
    readAll read ((k, d) :: rest) =
      (read d).bind fun a => (readAll read rest).map ((k, a) :: ·) := by
  rw [readAll, List.mapM_cons]
  cases read d with
  | none => rfl
  | some a =>
    show (readAll read rest).bind _ = _
    cases readAll read rest <;> rfl

theorem readAll_cons_eq_some {read : Document → Option α} {k : String} {d : Document}
    {rest : Entries Document} {es : Entries α} :
    readAll read ((k, d) :: rest) = some es ↔
      ∃ a more, read d = some a ∧ readAll read rest = some more ∧ es = (k, a) :: more := by
  simp [readAll_cons, Option.bind_eq_some_iff, @eq_comm _ es]

theorem exists_readAll {read : Document → Option α} {entries : Entries Document}
    (h : ∀ e ∈ entries, ∃ a, read e.2 = some a) : ∃ es, readAll read entries = some es := by
  induction entries with
  | nil => exact ⟨[], rfl⟩
  | cons e rest ih =>
    obtain ⟨a, ha⟩ := h e List.mem_cons_self
    obtain ⟨more, hm⟩ := ih fun f hf => h f (List.mem_cons_of_mem _ hf)
    exact ⟨_, readAll_cons_eq_some.mpr ⟨a, more, ha, hm, rfl⟩⟩

theorem keys_readAll {read : Document → Option α} {entries : Entries Document} {es : Entries α}
    (h : readAll read entries = some es) : es.keys = entries.keys := by
  induction entries generalizing es with
  | nil =>
    cases h
    rfl
  | cons e rest ih =>
    obtain ⟨a, more, -, hm, rfl⟩ := readAll_cons_eq_some.mp h
    exact congrArg (e.1 :: ·) (ih hm)

theorem find?_readAll {read : Document → Option α} {entries : Entries Document} {es : Entries α}
    (h : readAll read entries = some es) (k : String) :
    (entries.find? k).map read = (es.find? k).map some := by
  induction entries generalizing es with
  | nil =>
    cases h
    rfl
  | cons e rest ih =>
    obtain ⟨a, more, ha, hm, rfl⟩ := readAll_cons_eq_some.mp h
    by_cases same : e.1 = k
    · simp [Entries.find?, same, ha]
    · simp [Entries.find?, same, ih hm]

theorem mem_readAll {read : Document → Option α} {entries : Entries Document} {es : Entries α}
    (h : readAll read entries = some es) {e : String × α} (he : e ∈ es) :
    ∃ d, (e.1, d) ∈ entries ∧ read d = some e.2 := by
  induction entries generalizing es with
  | nil =>
    cases h
    cases he
  | cons f rest ih =>
    obtain ⟨a, more, ha, hm, rfl⟩ := readAll_cons_eq_some.mp h
    rcases List.mem_cons.mp he with rfl | he
    · exact ⟨f.2, List.mem_cons_self, ha⟩
    · obtain ⟨d, hd, hr⟩ := ih hm he
      exact ⟨d, List.mem_cons_of_mem _ hd, hr⟩

/-- Every entry of a table that was read comes from one that was written. -/
theorem mem_table? {read : Document → Option α} {entries : Entries Document} {t : Table α}
    (h : table? read (.object entries) = some t) {e : String × α} (he : e ∈ t.entries) :
    ∃ d, (e.1, d) ∈ entries ∧ read d = some e.2 := by
  rw [table?_object, Option.map_eq_some_iff] at h
  obtain ⟨es, hes, rfl⟩ := h
  exact mem_readAll hes (Entries.mem_ofPairs he)

/-- With distinct keys a table is read if every entry is read, and holds what is read of each. -/
theorem table?_eq_some_iff {read : Document → Option α} {entries : Entries Document} {t : Table α}
    (distinct : entries.keys.Nodup) :
    table? read (.object entries) = some t ↔
      ∀ k, (entries.find? k).map read = (t.find? k).map some := by
  rw [table?_object]
  constructor
  · intro h k
    obtain ⟨es, hes, rfl⟩ := Option.map_eq_some_iff.mp h
    have keys : (Entries.keys es).Nodup := keys_readAll hes ▸ distinct
    rw [find?_readAll hes k, Table.find?, Table.ofPairs, Entries.find?_ofPairs keys]
  · intro h
    have readable : ∀ e ∈ entries, ∃ a, read e.2 = some a := by
      intro e he
      have found := h e.1
      rw [Entries.find?_eq_some_of_mem distinct he, Option.map_some] at found
      obtain ⟨a, -, ha⟩ := Option.map_eq_some_iff.mp found.symm
      exact ⟨a, ha.symm⟩
    obtain ⟨es, hes⟩ := exists_readAll readable
    have keys : (Entries.keys es).Nodup := keys_readAll hes ▸ distinct
    rw [hes, Option.map_some]
    refine congrArg some (Table.ext_find? fun k => ?_)
    rw [Table.find?, Table.ofPairs, Entries.find?_ofPairs keys]
    have same := (find?_readAll hes k).symm.trans (h k)
    exact Option.map_injective (Option.some_injective α) same

theorem find?_written (es : Entries α) (write : α → Document) (k : String) :
    Entries.find? (es.map fun e => (e.1, write e.2)) k = (es.find? k).map write := by
  induction es with
  | nil => rfl
  | cons e rest ih =>
    obtain ⟨l, v⟩ := e
    by_cases same : l = k
    · simp [Entries.find?, same]
    · simp [Entries.find?, same, ih]

theorem keys_written (es : Entries α) (write : α → Document) :
    Entries.keys (es.map fun e => (e.1, write e.2)) = es.keys := by
  rw [Entries.keys, List.map_map]
  rfl

/-- A table is read back from its entries if each of them is. -/
theorem table?_written {read : Document → Option α} {write : α → Document} {t : Table α}
    (back : ∀ e ∈ t.entries, read (write e.2) = some e.2) :
    table? read (.object (t.entries.map fun e => (e.1, write e.2))) = some t := by
  have distinct : (Entries.keys (t.entries.map fun e => (e.1, write e.2))).Nodup := by
    rw [keys_written]
    exact Entries.nodup_keys t.ascending
  refine (table?_eq_some_iff distinct).mpr fun k => ?_
  rw [find?_written, Table.find?]
  cases found : t.entries.find? k with
  | none => rfl
  | some v => exact congrArg some (back _ (Entries.mem_of_find? found))

/-! ## Parts -/

namespace Document

/-- Is the document null? -/
def isNull : Document → Bool
  | .null => true
  | _ => false

def parts : Document → List Document
  | .array items => items
  | .object entries => entries.map (·.2)
  | _ => []

/-- What holds of a document if it holds of its parts, holds of every document. -/
@[elab_as_elim]
theorem parts_induction {motive : Document → Prop}
    (whole : ∀ d : Document, (∀ p ∈ d.parts, motive p) → motive d) (d : Document) : motive d := by
  induction d using Document.induction with
  | array items ih => exact whole _ ih
  | object entries ih =>
    refine whole _ fun p hp => ?_
    obtain ⟨e, he, rfl⟩ := List.mem_map.mp hp
    exact ih e he
  | null => exact whole _ nofun
  | bool b => exact whole _ nofun
  | integer n => exact whole _ nofun
  | real x => exact whole _ nofun
  | string s => exact whole _ nofun
  | malformed => exact whole _ nofun

mutual
/-- No object in the document repeats a key. -/
def DistinctKeys : Document → Prop
  | .array items => DistinctAmong items
  | .object entries => (Entries.keys entries).Nodup ∧ DistinctUnder entries
  | _ => True
def DistinctAmong : List Document → Prop
  | [] => True
  | d :: rest => DistinctKeys d ∧ DistinctAmong rest
def DistinctUnder : List (String × Document) → Prop
  | [] => True
  | (_, d) :: rest => DistinctKeys d ∧ DistinctUnder rest
end

theorem distinctAmong_iff {items : List Document} :
    DistinctAmong items ↔ ∀ d ∈ items, d.DistinctKeys := by
  induction items with
  | nil => simp [DistinctAmong]
  | cons d rest ih => simp [DistinctAmong, ih]

theorem distinctUnder_iff {entries : List (String × Document)} :
    DistinctUnder entries ↔ ∀ e ∈ entries, e.2.DistinctKeys := by
  induction entries with
  | nil => simp [DistinctUnder]
  | cons e rest ih => simp [DistinctUnder, ih]

theorem DistinctKeys.part {d p : Document} (h : d.DistinctKeys) (hp : p ∈ d.parts) :
    p.DistinctKeys := by
  cases d with
  | array items => exact distinctAmong_iff.mp h p hp
  | object entries =>
    obtain ⟨e, he, rfl⟩ := List.mem_map.mp hp
    exact distinctUnder_iff.mp h.2 e he
  | null => cases hp
  | bool b => cases hp
  | integer n => cases hp
  | real x => cases hp
  | string s => cases hp
  | malformed => cases hp

theorem leaves_part {d p l : Document} (hp : p ∈ d.parts) (hl : l ∈ p.leaves) : l ∈ d.leaves := by
  cases d with
  | array items => exact mem_leavesAmong.mpr ⟨p, hp, hl⟩
  | object entries =>
    obtain ⟨e, he, rfl⟩ := List.mem_map.mp hp
    exact mem_leavesUnder.mpr ⟨e, he, hl⟩
  | null => cases hp
  | bool b => cases hp
  | integer n => cases hp
  | real x => cases hp
  | string s => cases hp
  | malformed => cases hp

end Document

/-! ## Records -/

namespace Record

/-- Reads a document in which null stands for nothing. -/
def nullable (read : Document → Option α) (d : Document) : Option (Option α) :=
  if d.isNull then some none else (read d).map some

/-- What may be missing or null is nothing when it is missing. -/
theorem optional_eq (r : Record) (name : String) (read : Document → Option α) :
    r.optional name read = r.defaulted name none (nullable read) := by
  rw [optional, defaulted]
  cases r.fields.find? name with
  | none => rfl
  | some d => cases d <;> rfl

theorem defaulted_cons (k : String) (d : Document) (more : Entries Document) (name : String)
    (default : α) (read : Document → Option α) :
    defaulted ⟨(k, d) :: more⟩ name default read =
      if k = name then read d else defaulted ⟨more⟩ name default read := by
  rw [defaulted, Entries.find?]
  by_cases same : k = name
  · rw [if_pos same, if_pos same]
  · rw [if_neg same, if_neg same]
    rfl

theorem defaulted_of_missing {fs : Entries Document} {name : String}
    (h : fs.find? name = none) (default : α) (read : Document → Option α) :
    defaulted ⟨fs⟩ name default read = some default := by
  rw [defaulted, h]

/-- Two records have the same fields, with related documents in them. -/
def Related (R : Document → Document → Prop) (r s : Record) : Prop :=
  ∀ name, Option.Rel R (r.fields.find? name) (s.fields.find? name)

section
variable {R : Document → Document → Prop} {r s : Record} {read : Document → Option α}

theorem Related.required (h : Related R r s) (same : ∀ {d e}, R d e → read d = read e)
    (name : String) : r.required name read = s.required name read := by
  have found := h name
  unfold Record.required
  generalize r.fields.find? name = a, s.fields.find? name = b at found ⊢
  cases found with
  | none => rfl
  | some related => exact same related

theorem Related.defaulted (h : Related R r s) (same : ∀ {d e}, R d e → read d = read e)
    (name : String) (default : α) :
    r.defaulted name default read = s.defaulted name default read := by
  have found := h name
  unfold Record.defaulted
  generalize r.fields.find? name = a, s.fields.find? name = b at found ⊢
  cases found with
  | none => rfl
  | some related => exact same related

/-- A field that may be null is the same if null is related to null only. -/
theorem Related.optional (h : Related R r s) (same : ∀ {d e}, R d e → read d = read e)
    (null : ∀ {d e}, R d e → d.isNull = e.isNull) (name : String) :
    r.optional name read = s.optional name read := by
  rw [optional_eq, optional_eq]
  refine h.defaulted (fun {d e} related => ?_) name none
  rw [nullable, nullable, null related, same related]

end

/-! ### Which records documents write -/

theorem find?_filter (p : String → Bool) (es : Entries Document) (k : String) :
    Entries.find? (es.filter fun e => p e.1) k = if p k then es.find? k else none := by
  induction es with
  | nil => simp [Entries.find?]
  | cons e rest ih =>
    obtain ⟨l, d⟩ := e
    by_cases same : l = k
    · subst same
      cases hp : p l <;> simp [hp, Entries.find?, ih]
    · cases hp : p l <;> simp [hp, Entries.find?, same, ih]

/-- If no known name comes twice, the fields are the entries with a known name. -/
theorem known_eq {es : Entries Document} {names : List String}
    (once : (Entries.keys (es.filter fun e => names.contains e.1)).Nodup) :
    known names es = some (es.filter fun e => names.contains e.1) := by
  induction es with
  | nil => rfl
  | cons e rest ih =>
    obtain ⟨k, d⟩ := e
    rw [known]
    rw [List.filter_cons] at once ⊢
    cases hk : names.contains k with
    | true =>
      rw [hk, if_pos rfl] at once
      obtain ⟨fresh, once⟩ := List.nodup_cons.mp once
      have first : Entries.find? (rest.filter fun e => names.contains e.1) k = none :=
        Entries.find?_eq_none_iff.mpr fresh
      rw [ih once, Option.bind_eq_bind, Option.bind_some, first]
      rfl
    | false =>
      rw [hk, if_neg Bool.false_ne_true] at once
      rw [ih once]
      rfl

theorem ofDocument_known {es : Entries Document} (fields : List Field)
    (once : (Entries.keys (es.filter fun e => (fields.map (·.name)).contains e.1)).Nodup) :
    ofDocument fields (.object es) =
      some ⟨es.filter fun e => (fields.map (·.name)).contains e.1⟩ := by
  rw [ofDocument, known_eq once]
  rfl

theorem ofDocument_object {es : Entries Document} (distinct : es.keys.Nodup)
    (fields : List Field) :
    ofDocument fields (.object es) =
      some ⟨es.filter fun e => (fields.map (·.name)).contains e.1⟩ :=
  ofDocument_known fields (distinct.sublist (List.filter_sublist.map _))

variable {R : Document → Document → Prop}

theorem related_object {es fs : Entries Document} (left : es.keys.Nodup) (right : fs.keys.Nodup)
    (h : ∀ k, Option.Rel R (es.find? k) (fs.find? k)) (fields : List Field) :
    Option.Rel (Related R) (ofDocument fields (.object es)) (ofDocument fields (.object fs)) := by
  rw [ofDocument_object left, ofDocument_object right]
  refine .some fun name => ?_
  rw [find?_filter, find?_filter]
  split
  · exact h name
  · exact .none

theorem related_positional {xs ys : List Document} (h : List.Forall₂ R xs ys)
    (fields : List Field) :
    Option.Rel (fun es fs => ∀ k, Option.Rel R (Entries.find? es k) (Entries.find? fs k))
      (positional fields xs) (positional fields ys) := by
  induction fields generalizing xs ys with
  | nil =>
    cases h with
    | nil => exact .some fun _ => .none
    | cons _ _ => exact .none
  | cons f fields ih =>
    cases h with
    | nil =>
      simp only [positional]
      split
      · exact ih .nil
      · exact .none
    | @cons d e xs ys first rest =>
      have others := ih rest
      simp only [positional]
      generalize positional fields xs = a, positional fields ys = b at others ⊢
      cases others with
      | none => exact .none
      | some others =>
        refine .some fun k => ?_
        rw [Entries.find?, Entries.find?]
        split
        · exact .some first
        · exact others k

theorem related_array {xs ys : List Document} (h : List.Forall₂ R xs ys) (fields : List Field) :
    Option.Rel (Related R) (ofDocument fields (.array xs)) (ofDocument fields (.array ys)) := by
  have related := related_positional h fields
  rw [ofDocument, ofDocument]
  generalize positional fields xs = a, positional fields ys = b at related ⊢
  cases related with
  | none => exact .none
  | some related => exact .some related

/-- What is built from related records is the same. -/
theorem bind_eq_of_rel {a b : Option Record} {build : Record → Option α}
    (h : Option.Rel (Related R) a b) (same : ∀ r s, Related R r s → build r = build s) :
    a.bind build = b.bind build := by
  cases h with
  | none => rfl
  | some related => exact same _ _ related

theorem mem_of_known {names : List String} {es fs : Entries Document}
    (h : known names es = some fs) : ∀ e ∈ fs, e ∈ es := by
  induction es generalizing fs with
  | nil =>
    cases h
    exact fun e he => he
  | cons first rest ih =>
    obtain ⟨more, hm, h⟩ := Option.bind_eq_some_iff.mp h
    have others := ih hm
    intro e he
    split at h
    · split at h
      · cases h
      · cases h
        rcases List.mem_cons.mp he with rfl | he
        · exact List.mem_cons_self
        · exact List.mem_cons_of_mem _ (others e he)
    · cases h
      exact List.mem_cons_of_mem _ (others e he)

theorem mem_of_positional {fields : List Field} {items : List Document} {es : Entries Document}
    (h : positional fields items = some es) : ∀ e ∈ es, e.2 ∈ items := by
  induction fields generalizing items es with
  | nil =>
    cases items with
    | nil =>
      cases h
      nofun
    | cons d rest => cases h
  | cons f fields ih =>
    cases items with
    | nil =>
      rw [positional, Option.ite_none_right_eq_some] at h
      exact ih h.2
    | cons d rest =>
      obtain ⟨more, hm, rfl⟩ := Option.map_eq_some_iff.mp h
      intro e he
      rcases List.mem_cons.mp he with rfl | he
      · exact List.mem_cons_self
      · exact List.mem_cons_of_mem _ (ih hm e he)

/-- A field stands directly inside the document of its record. -/
theorem mem_parts {fields : List Field} {d p : Document} {r : Record} {name : String}
    (h : ofDocument fields d = some r) (hp : r.fields.find? name = some p) : p ∈ d.parts := by
  have held := Entries.mem_of_find? hp
  cases d with
  | object entries =>
    obtain ⟨es, hes, rfl⟩ := Option.map_eq_some_iff.mp h
    exact List.mem_map.mpr ⟨_, mem_of_known hes _ held, rfl⟩
  | array items =>
    obtain ⟨es, hes, rfl⟩ := Option.map_eq_some_iff.mp h
    exact mem_of_positional hes _ held
  | null => cases h
  | bool b => cases h
  | integer n => cases h
  | real x => cases h
  | string s => cases h
  | malformed => cases h

end Record

end Json

end ServerUi
