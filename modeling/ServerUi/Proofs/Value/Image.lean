import ServerUi.Proofs.Json.Records
import ServerUi.Proofs.Value.RoundTrip

/-! # Values that come out of reading

Reading yields settled values only (`settled_of_ofDocument`): the keys of objects ascend, and a
float is finite and is no whole number that fits a word, for every such number has become an
integer.  A settled value is read back from its document as it is (`ofDocument_toDocument`).
-/

namespace ServerUi.Value

open ServerUi.Json

/-! ## Reading and writing part by part -/

theorem ofItems_eq (items : List Document) : ofItems items = items.mapM ofDocument := by
  induction items with
  | nil => rfl
  | cons d rest ih => rw [ofItems, List.mapM_cons, ih]

theorem toItems_eq (items : List Value) : toItems items = items.map toDocument := by
  induction items with
  | nil => rfl
  | cons v rest ih => rw [toItems, List.map_cons, ih]

theorem toEntries_eq (entries : Entries Value) :
    toEntries entries = entries.map fun e => (e.1, toDocument e.2) := by
  induction entries with
  | nil => rfl
  | cons e rest ih => rw [toEntries, List.map_cons, ih]

theorem ofEntries_eq (entries : Entries Document) (acc : Entries Value) :
    ofEntries entries acc =
      (readAll ofDocument entries).map (·.foldl (fun es p => es.insert p.1 p.2) acc) := by
  induction entries generalizing acc with
  | nil => rfl
  | cons e rest ih =>
    obtain ⟨k, d⟩ := e
    rw [ofEntries, readAll_cons]
    cases ofDocument d with
    | none => rfl
    | some v =>
      show ofEntries rest _ = ((readAll ofDocument rest).map _).map _
      rw [ih, Option.map_map]
      rfl

theorem ofDocument_array (items : List Document) :
    ofDocument (.array items) = (items.mapM ofDocument).map .array := by
  rw [ofDocument, ofItems_eq]

theorem ofDocument_object (entries : Entries Document) :
    ofDocument (.object entries) = (tableOfDocument (.object entries)).map ofTable := by
  rw [ofDocument, ofEntries_eq, tableOfDocument, table?_object, Option.map_map, Option.map_map]
  rfl

theorem mem_floatsAmong {items : List Value} {x : Float} :
    x ∈ floatsAmong items ↔ ∃ v ∈ items, x ∈ v.floats := by
  induction items with
  | nil => simp [floatsAmong]
  | cons v rest ih => simp [floatsAmong, ih]

theorem mem_floatsUnder {entries : Entries Value} {x : Float} :
    x ∈ floatsUnder entries ↔ ∃ e ∈ entries, x ∈ e.2.floats := by
  induction entries with
  | nil => simp [floatsUnder]
  | cons e rest ih => simp [floatsUnder, ih]

theorem depthAmong_le_iff {items : List Value} {n : Nat} :
    depthAmong items ≤ n ↔ ∀ v ∈ items, v.depth ≤ n := by
  induction items with
  | nil => simp [depthAmong]
  | cons v rest ih => simp [depthAmong, ih]

theorem depthUnder_le_iff {entries : Entries Value} {n : Nat} :
    depthUnder entries ≤ n ↔ ∀ e ∈ entries, e.2.depth ≤ n := by
  induction entries with
  | nil => simp [depthUnder]
  | cons e rest ih => simp [depthUnder, ih]

theorem orderedItems_iff {items : List Value} : OrderedItems items ↔ ∀ v ∈ items, v.Ordered := by
  induction items with
  | nil => simp [OrderedItems]
  | cons v rest ih => simp [OrderedItems, ih]

theorem orderedEntries_iff {entries : Entries Value} :
    OrderedEntries entries ↔ ∀ e ∈ entries, e.2.Ordered := by
  induction entries with
  | nil => simp [OrderedEntries]
  | cons e rest ih => simp [OrderedEntries, ih]

/-! ## Values that come out of reading -/

/-- A value that reading yields: keys ascend, and every float in it is finite and is no whole
number that fits a word. -/
structure Settled (v : Value) : Prop where
  ordered : v.Ordered
  finite : ∀ x ∈ v.floats, x.isFinite = true
  fractional : ∀ x ∈ v.floats, ¬ IsWhole x

theorem settled_array_iff {items : List Value} :
    (Value.array items).Settled ↔ ∀ v ∈ items, v.Settled := by
  constructor
  · intro h v hv
    exact ⟨orderedItems_iff.mp h.ordered v hv,
      fun x hx => h.finite x (mem_floatsAmong.mpr ⟨v, hv, hx⟩),
      fun x hx => h.fractional x (mem_floatsAmong.mpr ⟨v, hv, hx⟩)⟩
  · intro h
    refine ⟨orderedItems_iff.mpr fun v hv => (h v hv).ordered, fun x hx => ?_, fun x hx => ?_⟩
    · obtain ⟨v, hv, hx⟩ := mem_floatsAmong.mp hx
      exact (h v hv).finite x hx
    · obtain ⟨v, hv, hx⟩ := mem_floatsAmong.mp hx
      exact (h v hv).fractional x hx

theorem settled_object_iff {entries : Entries Value} :
    (Value.object entries).Settled ↔ entries.Ascending ∧ ∀ e ∈ entries, e.2.Settled := by
  constructor
  · intro h
    refine ⟨h.ordered.1, fun e he => ?_⟩
    exact ⟨orderedEntries_iff.mp h.ordered.2 e he,
      fun x hx => h.finite x (mem_floatsUnder.mpr ⟨e, he, hx⟩),
      fun x hx => h.fractional x (mem_floatsUnder.mpr ⟨e, he, hx⟩)⟩
  · rintro ⟨ascending, h⟩
    refine ⟨⟨ascending, orderedEntries_iff.mpr fun e he => (h e he).ordered⟩, fun x hx => ?_,
      fun x hx => ?_⟩
    · obtain ⟨e, he, hx⟩ := mem_floatsUnder.mp hx
      exact (h e he).finite x hx
    · obtain ⟨e, he, hx⟩ := mem_floatsUnder.mp hx
      exact (h e he).fractional x hx

theorem settled_of_no_floats {v : Value} (ordered : v.Ordered) (none : v.floats = []) :
    v.Settled := by
  refine ⟨ordered, ?_, ?_⟩
  · exact none ▸ List.forall_mem_nil _
  · exact none ▸ List.forall_mem_nil _

theorem settled_float {x : Float} (finite : x.isFinite = true) (fractional : ¬ IsWhole x) :
    (Value.float x).Settled := by
  refine ⟨trivial, fun y hy => ?_, fun y hy => ?_⟩
  · exact List.mem_singleton.mp hy ▸ finite
  · exact List.mem_singleton.mp hy ▸ fractional

theorem settled_ofFloat {x : Float} (finite : x.isFinite = true) : (ofFloat x).Settled := by
  rw [ofFloat_eq]
  split
  · exact settled_of_no_floats trivial rfl
  · exact settled_float finite ‹_›

/-- A whole number beyond the words with a sign becomes a float beyond them. -/
theorem settled_integer {n : Int} (large : int64? n = none) (fits : fitsUnsigned n = true) :
    (Value.float (Float.ofInt n)).Settled := by
  rw [fitsUnsigned, Bool.and_eq_true, decide_eq_true_eq, decide_eq_true_eq] at fits
  have beyond : ¬ fitsSigned n = true := int64?_eq_none_iff.mp large
  obtain ⟨m, rfl⟩ := Int.eq_ofNat_of_zero_le fits.1
  have high : m < 2 ^ 64 := by exact_mod_cast fits.2
  have low : 2 ^ 63 ≤ m := by
    rw [fitsSigned_iff] at beyond
    omega
  show (Value.float (Float.ofNat m)).Settled
  refine settled_float (Decimal.below_ofNat high).isFinite fun whole => ?_
  exact absurd (Decimal.le_exact_ofNat low high) (not_le.mpr whole.2.2.2)

/-- **The image of reading.**  What is read from a document whose numbers could be written is
settled, and no deeper than the document. -/
theorem settled_of_ofDocument {d : Document} (sound : ∀ l ∈ d.leaves, l.Sound) {v : Value}
    (h : ofDocument d = some v) : v.Settled ∧ v.depth ≤ d.depth := by
  induction d using Document.induction generalizing v with
  | null =>
    cases h
    exact ⟨settled_of_no_floats trivial rfl, Nat.le_refl 0⟩
  | bool b =>
    cases h
    exact ⟨settled_of_no_floats trivial rfl, Nat.le_refl 0⟩
  | integer n =>
    cases h
    cases large : int64? n with
    | some i => exact ⟨settled_of_no_floats trivial rfl, Nat.le_refl 0⟩
    | none =>
      have unsigned : fitsUnsigned n = true :=
        (sound _ (List.mem_singleton_self _)).resolve_left (int64?_eq_none_iff.mp large)
      exact ⟨settled_integer large unsigned, Nat.le_refl 0⟩
  | real x =>
    cases h
    have finite : x.isFinite = true := sound _ (List.mem_singleton_self _)
    refine ⟨settled_ofFloat finite, ?_⟩
    rw [ofFloat_eq]
    split <;> exact Nat.le_refl 0
  | string s =>
    cases h
    exact ⟨settled_of_no_floats trivial rfl, Nat.le_refl 0⟩
  | malformed => cases h
  | array items ih =>
    rw [ofDocument_array, Option.map_eq_some_iff] at h
    obtain ⟨vs, hvs, rfl⟩ := h
    have image : ∀ v ∈ vs, ∃ d ∈ items, ofDocument d = some v := by
      intro v hv
      have mem : some v ∈ items.map ofDocument :=
        mapM_eq_some_iff.mp hvs ▸ List.mem_map_of_mem hv
      exact List.mem_map.mp mem
    have inner {d : Document} (hd : d ∈ items) : ∀ l ∈ d.leaves, l.Sound :=
      fun l hl => sound l (Document.mem_leavesAmong.mpr ⟨d, hd, hl⟩)
    constructor
    · refine settled_array_iff.mpr fun v hv => ?_
      obtain ⟨d, hd, hr⟩ := image v hv
      exact (ih d hd (inner hd) hr).1
    · refine Nat.succ_le_succ (depthAmong_le_iff.mpr fun v hv => ?_)
      obtain ⟨d, hd, hr⟩ := image v hv
      exact (ih d hd (inner hd) hr).2.trans (Document.depthAmong_le_iff.mp (Nat.le_refl _) d hd)
  | object entries ih =>
    rw [ofDocument_object, Option.map_eq_some_iff] at h
    obtain ⟨t, ht, rfl⟩ := h
    have inner {e : String × Document} (he : e ∈ entries) : ∀ l ∈ e.2.leaves, l.Sound :=
      fun l hl => sound l (Document.mem_leavesUnder.mpr ⟨e, he, hl⟩)
    constructor
    · refine settled_object_iff.mpr ⟨t.ascending, fun e he => ?_⟩
      obtain ⟨d, hd, hr⟩ := mem_table? ht he
      exact (ih _ hd (inner hd) hr).1
    · refine Nat.succ_le_succ (depthUnder_le_iff.mpr fun e he => ?_)
      obtain ⟨d, hd, hr⟩ := mem_table? ht he
      exact (ih _ hd (inner hd) hr).2.trans
        (Document.depthUnder_le_iff.mp (Nat.le_refl _) _ hd)

/-! ## Written values are read back -/

mutual
/-- **A settled value is read back from its document.** -/
theorem ofDocument_toDocument : ∀ {v : Value}, v.Settled → ofDocument v.toDocument = some v
  | .null, _ => rfl
  | .bool _, _ => rfl
  | .string _, _ => rfl
  | .int i, _ => by rw [toDocument, ofDocument, int64?_toInt]
  | .float x, h => by
    have fractional := h.fractional x (List.mem_singleton_self x)
    rw [toDocument, ofDocument, ofFloat_eq, if_neg fractional]
  | .array items, h => by
    have read := ofDocument_toItems (settled_array_iff.mp h)
    have all : (toItems items).mapM ofDocument = some items := by
      rw [mapM_eq_some_iff, toItems_eq, List.map_map]
      exact List.map_congr_left read
    rw [toDocument, ofDocument_array, all]
    rfl
  | .object entries, h => by
    obtain ⟨ascending, settled⟩ := settled_object_iff.mp h
    have read := ofDocument_toEntries settled
    have table := @table?_written _ ofDocument toDocument ⟨entries, ascending⟩ read
    rw [toDocument, toEntries_eq, ofDocument_object, tableOfDocument, table]
    rfl
theorem ofDocument_toItems : ∀ {items : List Value}, (∀ v ∈ items, v.Settled) →
    ∀ v ∈ items, ofDocument v.toDocument = some v
  | [], _ => nofun
  | _ :: _, h => List.forall_mem_cons.mpr
    ⟨ofDocument_toDocument (h _ List.mem_cons_self),
      ofDocument_toItems fun v hv => h v (List.mem_cons_of_mem _ hv)⟩
theorem ofDocument_toEntries : ∀ {entries : Entries Value}, (∀ e ∈ entries, e.2.Settled) →
    ∀ e ∈ entries, ofDocument e.2.toDocument = some e.2
  | [], _ => nofun
  | _ :: _, h => List.forall_mem_cons.mpr
    ⟨ofDocument_toDocument (h _ List.mem_cons_self),
      ofDocument_toEntries fun e he => h e (List.mem_cons_of_mem _ he)⟩
end

end ServerUi.Value
