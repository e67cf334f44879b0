import ServerUi.Proofs.Json.Image
import ServerUi.Proofs.Json.Reading

/-! # Documents that come back from their text

A document is whole if each of its leaves is one that a reader hands over and none is malformed.
Its text then exists and is read back as it is, as long as the reader takes that many containers
inside one another (`Whole.comes_back`).
-/

namespace ServerUi.Json.Document

/-- No leaf is malformed, and every number could be written in a text. -/
def Whole (d : Document) : Prop := ∀ l ∈ d.leaves, l ≠ .malformed ∧ l.Sound

theorem Whole.leaf {d : Document} (leaf : d.leaves = [d]) (fit : d ≠ .malformed) (sound : d.Sound) :
    d.Whole := by
  intro l hl
  rw [leaf, List.mem_singleton] at hl
  exact hl ▸ ⟨fit, sound⟩

theorem whole_string (s : String) : (Document.string s).Whole := .leaf rfl nofun trivial

theorem whole_array_iff {items : List Document} :
    (Document.array items).Whole ↔ ∀ d ∈ items, d.Whole := by
  constructor
  · exact fun h d hd l hl => h l (mem_leavesAmong.mpr ⟨d, hd, hl⟩)
  · intro h l hl
    obtain ⟨d, hd, hl⟩ := mem_leavesAmong.mp hl
    exact h d hd l hl

theorem whole_object_iff {entries : List (String × Document)} :
    (Document.object entries).Whole ↔ ∀ e ∈ entries, e.2.Whole := by
  constructor
  · exact fun h e he l hl => h l (mem_leavesUnder.mpr ⟨e, he, hl⟩)
  · intro h l hl
    obtain ⟨e, he, hl⟩ := mem_leavesUnder.mp hl
    exact h e he l hl

theorem legibleItems_iff {items : List Document} :
    LegibleItems items ↔ ∀ d ∈ items, d.Legible := by
  induction items with
  | nil => simp [LegibleItems]
  | cons d rest ih => simp [LegibleItems, ih]

theorem legibleEntries_iff {entries : List (String × Document)} :
    LegibleEntries entries ↔ ∀ e ∈ entries, e.2.Legible := by
  induction entries with
  | nil => simp [LegibleEntries]
  | cons e rest ih => simp [LegibleEntries, ih]

theorem nonFiniteAmong?_eq_none_iff {items : List Document} :
    nonFiniteAmong? items = none ↔ ∀ d ∈ items, d.nonFinite? = none := by
  induction items with
  | nil => simp [nonFiniteAmong?]
  | cons d rest ih => simp [nonFiniteAmong?, ih]

theorem nonFiniteUnder?_eq_none_iff {entries : List (String × Document)} :
    nonFiniteUnder? entries = none ↔ ∀ e ∈ entries, e.2.nonFinite? = none := by
  induction entries with
  | nil => simp [nonFiniteUnder?]
  | cons e rest ih => simp [nonFiniteUnder?, ih]

theorem cappedItems_eq_self {k : Nat} {items : List Document} (h : ∀ d ∈ items, d.capped k = d) :
    cappedItems k items = items := by
  induction items with
  | nil => rfl
  | cons d rest ih =>
    rw [cappedItems, h d List.mem_cons_self, ih fun e he => h e (List.mem_cons_of_mem _ he)]

theorem cappedEntries_eq_self {k : Nat} {entries : List (String × Document)}
    (h : ∀ e ∈ entries, e.2.capped k = e.2) : cappedEntries k entries = entries := by
  induction entries with
  | nil => rfl
  | cons e rest ih =>
    rw [cappedEntries, h e List.mem_cons_self, ih fun f hf => h f (List.mem_cons_of_mem _ hf)]

/-- Nothing is cut off from a document that is shallow enough. -/
theorem capped_eq_self {d : Document} {k : Nat} (h : k + d.depth ≤ maxDepth) : d.capped k = d := by
  induction d using Document.induction generalizing k with
  | null => rfl
  | bool b => rfl
  | integer n => rfl
  | real x => rfl
  | string s => rfl
  | malformed => rfl
  | array items ih =>
    rw [depth] at h
    have inner : k < maxDepth := by omega
    have parts : depthAmong items ≤ maxDepth - (k + 1) := by omega
    rw [capped, cappedItems_eq_self fun d hd => ih d hd ?_, Machine.close, if_pos inner]
    · rfl
    · have := depthAmong_le_iff.mp parts d hd
      omega
  | object entries ih =>
    rw [depth] at h
    have inner : k < maxDepth := by omega
    have parts : depthUnder entries ≤ maxDepth - (k + 1) := by omega
    rw [capped, cappedEntries_eq_self fun e he => ih e he ?_, Machine.close, if_pos inner]
    · rfl
    · have := depthUnder_le_iff.mp parts e he
      omega

/-- A whole document is legible if the texts of its finite reals are read back. -/
theorem Whole.legible {d : Document} (h : d.Whole)
    (printed : ∀ x, .real x ∈ d.leaves → x.isFinite = true →
      read (String.ofList (realChars x)) = some (.real x)) : d.Legible := by
  induction d using Document.induction with
  | null => exact trivial
  | bool b => exact trivial
  | integer n => exact (h _ (List.mem_singleton_self _)).2
  | real x => exact printed x (List.mem_singleton_self _) (h _ (List.mem_singleton_self _)).2
  | string s => exact trivial
  | malformed => exact (h _ (List.mem_singleton_self _)).1 rfl
  | array items ih =>
    refine legibleItems_iff.mpr fun d hd => ih d hd (whole_array_iff.mp h d hd) fun x hx => ?_
    exact printed x (mem_leavesAmong.mpr ⟨d, hd, hx⟩)
  | object entries ih =>
    refine legibleEntries_iff.mpr fun e he => ih e he (whole_object_iff.mp h e he) fun x hx => ?_
    exact printed x (mem_leavesUnder.mpr ⟨e, he, hx⟩)

theorem Whole.nonFinite?_eq_none {d : Document} (h : d.Whole) : d.nonFinite? = none := by
  induction d using Document.induction with
  | null => rfl
  | bool b => rfl
  | integer n => rfl
  | real x => exact if_pos (h _ (List.mem_singleton_self _)).2
  | string s => rfl
  | malformed => rfl
  | array items ih =>
    exact nonFiniteAmong?_eq_none_iff.mpr fun d hd => ih d hd (whole_array_iff.mp h d hd)
  | object entries ih =>
    exact nonFiniteUnder?_eq_none_iff.mpr fun e he => ih e he (whole_object_iff.mp h e he)

theorem Whole.encode_eq {d : Document} (h : d.Whole) : d.encode = .ok d.compact := by
  rw [encode, h.nonFinite?_eq_none]

/-- **A whole document comes back from its text**, if it is shallow enough. -/
theorem Whole.comes_back {d : Document} (h : d.Whole)
    (printed : ∀ x, .real x ∈ d.leaves → x.isFinite = true →
      read (String.ofList (realChars x)) = some (.real x))
    (shallow : d.depth ≤ maxDepth) :
    read d.compact = some d ∧ readBytes (Text.bytesOf d.compact) = some d := by
  have uncut : d.capped 0 = d := capped_eq_self (by omega)
  rw [read_compact (h.legible printed), readBytes_compact (h.legible printed), uncut]
  exact ⟨rfl, rfl⟩

/-! ## Reals alone -/

/-- The number of a real. -/
def real? : Document → Option Float
  | .real x => some x
  | _ => none

theorem eq_real_of_real? {d : Option Document} {x : Float} (h : d.bind real? = some x) :
    d = some (.real x) := by
  obtain ⟨d, rfl, held⟩ := Option.bind_eq_some_iff.mp h
  cases d with
  | real y => rw [Option.some.inj held]
  | _ => cases held

end ServerUi.Json.Document
