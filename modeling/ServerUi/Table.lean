/-! # Tables

A table holds values under text keys, in ascending order of the keys; the order is by code point,
which is also the byte order of the encoded keys.  `Entries` works on plain lists of pairs, as
they stand inside a dynamic value, and `Table` bundles such a list with the proof that its keys
ascend.  The main facts: `find?_insert_self`, `find?_insert_of_ne`, `keys_map` and `ext_find?`.
-/

namespace ServerUi

abbrev Entries (α : Type) := List (String × α)

namespace Entries

variable {α β : Type}

def Ascending (es : Entries α) : Prop := es.Pairwise (fun a b => a.1 < b.1)

def keys (es : Entries α) : List String := es.map (·.1)

def find? : Entries α → String → Option α
  | [], _ => none
  | (l, v) :: rest, k => if l = k then some v else find? rest k

/-- Puts a value under a key, in front of the first greater key or in place of the value there. -/
def insert : Entries α → String → α → Entries α
  | [], k, v => [(k, v)]
  | (l, w) :: rest, k, v =>
    if k < l then (k, v) :: (l, w) :: rest
    else if l = k then (k, v) :: rest
    else (l, w) :: insert rest k v

def mapValues (f : α → β) : Entries α → Entries β
  | [] => []
  | (k, v) :: rest => (k, f v) :: mapValues f rest

/-- Changes every value with a look at its key, and no key. -/
def mapKeyed (f : String → α → β) (es : Entries α) : Entries β := es.map fun e => (e.1, f e.1 e.2)

/-- The ascending entries of pairs in any order; the last pair of a key counts. -/
def ofPairs (ps : List (String × α)) : Entries α := ps.foldl (fun es p => insert es p.1 p.2) []

theorem lt_or_eq_or_gt (a b : String) : a < b ∨ a = b ∨ b < a := by
  rcases Decidable.em (a < b) with h | h
  · exact .inl h
  · rcases Decidable.em (a = b) with e | e
    · exact .inr (.inl e)
    · exact .inr (.inr (Std.lt_of_le_of_ne h (Ne.symm e)))

theorem mem_insert {es : Entries α} {k : String} {v : α} {p : String × α}
    (h : p ∈ insert es k v) : p = (k, v) ∨ p ∈ es := by
  induction es with
  | nil => simpa [insert] using h
  | cons e rest ih =>
    obtain ⟨l, w⟩ := e
    rw [insert] at h
    split at h
    · simpa using h
    · split at h
      · rcases List.mem_cons.mp h with h | h
        · exact .inl h
        · exact .inr (List.mem_cons_of_mem _ h)
      · rcases List.mem_cons.mp h with h | h
        · exact .inr (h ▸ List.mem_cons_self)
        · rcases ih h with h | h
          · exact .inl h
          · exact .inr (List.mem_cons_of_mem _ h)

theorem ascending_insert {es : Entries α} (h : es.Ascending) (k : String) (v : α) :
    (insert es k v).Ascending := by
  induction es with
  | nil => simp [insert, Ascending]
  | cons e rest ih =>
    obtain ⟨l, w⟩ := e
    have ⟨hl, hr⟩ := List.pairwise_cons.mp h
    rw [insert]
    split
    · rename_i hk
      refine List.pairwise_cons.mpr ⟨fun p hp => ?_, h⟩
      rcases List.mem_cons.mp hp with e | e
      · exact e ▸ hk
      · exact String.lt_trans hk (hl p e)
    · split
      · rename_i e
        exact List.pairwise_cons.mpr ⟨fun p hp => e ▸ hl p hp, hr⟩
      · rename_i h1 h2
        refine List.pairwise_cons.mpr ⟨fun p hp => ?_, ih hr⟩
        rcases mem_insert hp with e | e
        · subst e
          rcases lt_or_eq_or_gt l k with h | h | h
          · exact h
          · exact absurd h h2
          · exact absurd h h1
        · exact hl p e

theorem mem_keys_insert {es : Entries α} {k l : String} {v : α} :
    l ∈ (insert es k v).keys ↔ l = k ∨ l ∈ es.keys := by
  induction es with
  | nil => simp [insert, keys]
  | cons e rest ih =>
    obtain ⟨m, w⟩ := e
    rw [insert]
    split
    · simp [keys]
    · split
      · rename_i same
        simp [keys, same]
      · simp only [keys, List.map_cons, List.mem_cons] at ih ⊢
        rw [ih]
        exact or_left_comm

theorem ascending_ofPairs (ps : List (String × α)) : (ofPairs ps).Ascending := by
  suffices ∀ es : Entries α, es.Ascending →
      (ps.foldl (fun es p => insert es p.1 p.2) es).Ascending from this [] .nil
  induction ps with
  | nil => exact fun _ h => h
  | cons p rest ih => exact fun es h => ih _ (ascending_insert h p.1 p.2)

theorem mem_keys_ofPairs {ps : List (String × α)} {k : String} :
    k ∈ (ofPairs ps).keys ↔ k ∈ ps.map (·.1) := by
  suffices ∀ es : Entries α, k ∈ (ps.foldl (fun es p => insert es p.1 p.2) es).keys ↔
      k ∈ ps.map (·.1) ∨ k ∈ es.keys from (this []).trans (or_iff_left List.not_mem_nil)
  induction ps with
  | nil => exact fun es => (or_iff_right List.not_mem_nil).symm
  | cons p rest ih =>
    intro es
    rw [List.foldl_cons, ih, mem_keys_insert, List.map_cons, List.mem_cons, or_assoc,
      or_left_comm]

theorem keys_mapValues (f : α → β) (es : Entries α) : (mapValues f es).keys = es.keys := by
  induction es with
  | nil => rfl
  | cons e rest ih => simpa [mapValues, keys] using ih

theorem ascending_iff_keys (es : Entries α) : es.Ascending ↔ es.keys.Pairwise (· < ·) := by
  simp [Ascending, keys, List.pairwise_map]

theorem find?_insert_self (es : Entries α) (k : String) (v : α) :
    (insert es k v).find? k = some v := by
  induction es with
  | nil => simp [insert, find?]
  | cons e rest ih =>
    obtain ⟨l, w⟩ := e
    rw [insert]
    split
    · simp [find?]
    · split
      · simp [find?]
      · rename_i h
        simpa [find?, h] using ih

theorem find?_insert_of_ne (es : Entries α) {k l : String} (v : α) (h : l ≠ k) :
    (insert es k v).find? l = es.find? l := by
  induction es with
  | nil => simp [insert, find?, Ne.symm h]
  | cons e rest ih =>
    obtain ⟨m, w⟩ := e
    rw [insert]
    split
    · simp [find?, Ne.symm h]
    · split
      · rename_i e
        subst e
        simp [find?, Ne.symm h]
      · simp only [find?]
        split <;> simp_all

theorem insert_of_forall_lt {es : Entries α} {k : String} (h : ∀ e ∈ es, e.1 < k) (v : α) :
    es.insert k v = es ++ [(k, v)] := by
  induction es with
  | nil => rfl
  | cons e rest ih =>
    obtain ⟨l, w⟩ := e
    have before : l < k := h _ List.mem_cons_self
    have notLess : ¬ k < l := fun less => String.lt_irrefl k (String.lt_trans less before)
    have notEqual : l ≠ k := fun e => String.lt_irrefl k (e ▸ before)
    rw [insert, if_neg notLess, if_neg notEqual, ih fun e he => h e (List.mem_cons_of_mem _ he)]
    rfl

theorem find?_mapValues (f : α → β) (es : Entries α) (k : String) :
    (mapValues f es).find? k = (es.find? k).map f := by
  induction es with
  | nil => rfl
  | cons e rest ih =>
    obtain ⟨l, v⟩ := e
    simp only [mapValues, find?]
    split
    · rfl
    · exact ih

theorem find?_mapKeyed (f : String → α → β) (es : Entries α) (k : String) :
    (mapKeyed f es).find? k = (es.find? k).map (f k) := by
  induction es with
  | nil => rfl
  | cons e rest ih =>
    obtain ⟨l, v⟩ := e
    simp only [mapKeyed, List.map_cons, find?] at ih ⊢
    split
    · rename_i same
      rw [same]
      rfl
    · exact ih

theorem nodup_keys {es : Entries α} (h : es.Ascending) : es.keys.Nodup := by
  refine ((ascending_iff_keys es).mp h).imp ?_
  intro k l hlt e
  exact String.lt_irrefl l (e ▸ hlt)

theorem mem_of_find? {es : Entries α} {k : String} {v : α} (h : es.find? k = some v) :
    (k, v) ∈ es := by
  induction es with
  | nil => simp [find?] at h
  | cons e rest ih =>
    obtain ⟨l, w⟩ := e
    simp only [find?] at h
    split at h
    · rename_i hl
      subst hl
      cases h
      exact List.mem_cons_self
    · exact List.mem_cons_of_mem _ (ih h)

theorem find?_eq_some_iff {es : Entries α} (h : es.Ascending) {k : String} {v : α} :
    es.find? k = some v ↔ (k, v) ∈ es := by
  refine ⟨mem_of_find?, fun hm => ?_⟩
  induction es with
  | nil => simp at hm
  | cons e rest ih =>
    obtain ⟨l, w⟩ := e
    have ⟨hl, hr⟩ := List.pairwise_cons.mp h
    simp only [find?]
    rcases List.mem_cons.mp hm with e | hm
    · cases e
      simp
    · have hne : l ≠ k := fun e => String.lt_irrefl k (e ▸ hl _ hm)
      rw [if_neg hne]
      exact ih hr hm

theorem eq_of_mem_iff {es fs : Entries α} (hes : es.Ascending) (hfs : fs.Ascending)
    (h : ∀ e, e ∈ es ↔ e ∈ fs) : es = fs := by
  induction es generalizing fs with
  | nil =>
    cases fs with
    | nil => rfl
    | cons f _ => exact absurd ((h f).mpr List.mem_cons_self) List.not_mem_nil
  | cons e es ih =>
    cases fs with
    | nil => exact absurd ((h e).mp List.mem_cons_self) List.not_mem_nil
    | cons f fs =>
      obtain ⟨above, ascendingEs⟩ := List.pairwise_cons.mp hes
      obtain ⟨above', ascendingFs⟩ := List.pairwise_cons.mp hfs
      -- the least entry of one list is the least of the other, so the rests agree as well
      have least : e = f := by
        rcases List.mem_cons.mp ((h e).mp List.mem_cons_self) with same | lower
        · exact same
        · rcases List.mem_cons.mp ((h f).mpr List.mem_cons_self) with same | lower'
          · exact same.symm
          · exact absurd (String.lt_trans (above' e lower) (above f lower')) (String.lt_irrefl _)
      subst least
      refine congrArg (e :: ·) (ih ascendingEs ascendingFs fun g => ?_)
      have other : ∀ {gs : Entries α}, (∀ p ∈ gs, e.1 < p.1) → g ∈ gs → g ≠ e := by
        rintro gs above hg rfl
        exact String.lt_irrefl _ (above g hg)
      constructor
      · intro hg
        exact (List.mem_cons.mp ((h g).mp (List.mem_cons_of_mem _ hg))).resolve_left
          (other above hg)
      · intro hg
        exact (List.mem_cons.mp ((h g).mpr (List.mem_cons_of_mem _ hg))).resolve_left
          (other above' hg)

end Entries

structure Table (α : Type) where
  entries : Entries α
  ascending : entries.Ascending

namespace Table

variable {α β : Type}

def empty : Table α := ⟨[], .nil⟩

instance : EmptyCollection (Table α) := ⟨empty⟩
instance : Inhabited (Table α) := ⟨empty⟩

def ofPairs (ps : List (String × α)) : Table α := ⟨Entries.ofPairs ps, Entries.ascending_ofPairs ps⟩

def find? (t : Table α) (k : String) : Option α := t.entries.find? k

def contains (t : Table α) (k : String) : Bool := (t.find? k).isSome

def insert (t : Table α) (k : String) (v : α) : Table α :=
  ⟨t.entries.insert k v, Entries.ascending_insert t.ascending k v⟩

def keys (t : Table α) : List String := t.entries.keys

def map (f : α → β) (t : Table α) : Table β :=
  ⟨t.entries.mapValues f, by
    rw [Entries.ascending_iff_keys, Entries.keys_mapValues, ← Entries.ascending_iff_keys]
    exact t.ascending⟩

def mapKeyed (f : String → α → β) (t : Table α) : Table β :=
  ⟨t.entries.mapKeyed f, List.pairwise_map.mpr t.ascending⟩

theorem find?_insert_self (t : Table α) (k : String) (v : α) : (t.insert k v).find? k = some v :=
  Entries.find?_insert_self ..

theorem find?_insert_of_ne (t : Table α) {k l : String} (v : α) (h : l ≠ k) :
    (t.insert k v).find? l = t.find? l :=
  Entries.find?_insert_of_ne _ v h

theorem keys_map (f : α → β) (t : Table α) : (t.map f).keys = t.keys :=
  Entries.keys_mapValues ..

theorem find?_map (f : α → β) (t : Table α) (k : String) : (t.map f).find? k = (t.find? k).map f :=
  Entries.find?_mapValues ..

theorem find?_mapKeyed (f : String → α → β) (t : Table α) (k : String) :
    (t.mapKeyed f).find? k = (t.find? k).map (f k) :=
  Entries.find?_mapKeyed ..

theorem find?_eq_some_iff (t : Table α) {k : String} {v : α} :
    t.find? k = some v ↔ (k, v) ∈ t.entries :=
  Entries.find?_eq_some_iff t.ascending

/-- A table is what its keys lead to. -/
theorem ext_find? {t u : Table α} (h : ∀ k, t.find? k = u.find? k) : t = u := by
  have same : ∀ e, e ∈ t.entries ↔ e ∈ u.entries := by
    intro e
    rw [← t.find?_eq_some_iff, h, u.find?_eq_some_iff]
  obtain ⟨es, hes⟩ := t
  obtain ⟨fs, hfs⟩ := u
  obtain rfl : es = fs := Entries.eq_of_mem_iff hes hfs same
  rfl

/-- Putting a value where it already is changes nothing. -/
theorem insert_of_find? {t : Table α} {k : String} {v : α} (h : t.find? k = some v) :
    t.insert k v = t := by
  refine ext_find? fun l => ?_
  by_cases same : l = k
  · rw [same, find?_insert_self, h]
  · exact find?_insert_of_ne t v same

end Table

end ServerUi
