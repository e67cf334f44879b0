import ServerUi.Proofs.Decimal.Comparing
import ServerUi.Proofs.Decimal.Integers
import ServerUi.Proofs.Value.RoundTrip
import ServerUi.State.Store

/-! # What values mean

A number means a rational number, or one of the two infinities.  An integer is compared with a float
through its own float, which stands for the integer itself only if its digits fit.  So loose
equality is symmetric, and reflexive but for NaN, and values that are loosely equal mean the same
once their integers are rounded; between values whose integers all are floats it is equality of
meaning, and with that transitive.

A float links the integers that share it, which are not loosely equal to one another.
-/

namespace ServerUi

/-! ## Values and themselves -/

namespace Value

mutual
/-- A value equals itself exactly if none of its floats is NaN. -/
theorem looseEq_self : ∀ v : Value, v.looseEq v = v.floats.all fun x => !x.isNaN
  | .null => rfl
  | .bool b => beq_self_eq_true b
  | .int i => beq_self_eq_true i
  | .string s => beq_self_eq_true s
  | .float x => by
    show (x == x) = (!x.isNaN && true)
    rw [Decimal.beq_self, Bool.and_true]
  | .array items => looseEqItems_self items
  | .object entries => looseEqEntries_self entries
theorem looseEqItems_self : ∀ items : List Value,
    looseEqItems items items = (floatsAmong items).all fun x => !x.isNaN
  | [] => rfl
  | v :: rest => by
    rw [looseEqItems, floatsAmong, List.all_append, looseEq_self v, looseEqItems_self rest]
theorem looseEqEntries_self : ∀ entries : List (String × Value),
    looseEqEntries entries entries = (floatsUnder entries).all fun x => !x.isNaN
  | [] => rfl
  | (k, v) :: rest => by
    rw [looseEqEntries, floatsUnder, List.all_append, looseEq_self v,
      looseEqEntries_self rest, beq_self_eq_true, Bool.true_and]
end

end Value

namespace Decimal

open Float.Model Float.Model.UnpackedFloat

/-! ## What numbers mean -/

/-- What a float stands for; NaN stands for nothing. -/
inductive Quantity where
  | rational (q : ℚ)
  | infinite (s : Sign)
  | nothing

def quantity (x : Float) : Quantity :=
  match x.toModel.unpack with
  | .infinity s => .infinite s
  | .notANumber => .nothing
  | u => .rational (number u)

theorem isNaN_eq_false_iff {x : Float} : x.isNaN = false ↔ quantity x ≠ .nothing := by
  show x.toModel.unpack.isNaN = false ↔ _
  unfold quantity
  cases x.toModel.unpack with
  | notANumber => exact iff_of_false nofun fun h => h rfl
  | _ => exact iff_of_true rfl nofun

/-- A float is finite, infinite or no number at all. -/
theorem quantity_cases (x : Float) :
    x.isFinite = true ∧ quantity x = .rational (exact x) ∨
      (∃ s, x.toModel.unpack = .infinity s ∧ quantity x = .infinite s) ∨
        x.toModel.unpack = .notANumber ∧ quantity x = .nothing := by
  cases unpacked : x.toModel.unpack with
  | infinity s => exact .inr (.inl ⟨s, rfl, by rw [quantity, unpacked]⟩)
  | notANumber => exact .inr (.inr ⟨rfl, by rw [quantity, unpacked]⟩)
  | _ =>
    have finite : x.isFinite = true := by
      show x.toModel.unpack.isFinite = true
      rw [unpacked]
      rfl
    exact .inl ⟨finite, by rw [exact_eq_number finite, quantity, unpacked]⟩

theorem compare_infinity_ne_eq {s : Sign} {u : UnpackedFloat} (finite : u.isFinite = true) :
    (UnpackedFloat.infinity s).compare u ≠ some .eq ∧
      u.compare (.infinity s) ≠ some .eq := by
  cases u with
  | infinity t => cases finite
  | notANumber => cases finite
  | zero t => cases s <;> exact ⟨nofun, nofun⟩
  | finite t m e pos => cases s <;> cases t <;> exact ⟨nofun, nofun⟩

theorem compare_notANumber (u : UnpackedFloat) :
    UnpackedFloat.notANumber.compare u = none ∧ u.compare .notANumber = none := by
  cases u with
  | infinity s => cases s <;> exact ⟨rfl, rfl⟩
  | finite s m e pos => cases s <;> exact ⟨rfl, rfl⟩
  | _ => exact ⟨rfl, rfl⟩

/-- Floats are equal if they mean the same and it is not nothing. -/
theorem beq_iff_quantity_eq {x y : Float} :
    (x == y) = true ↔ quantity x ≠ .nothing ∧ quantity x = quantity y := by
  have decided : (x == y) = true ↔ x.toModel.unpack.compare y.toModel.unpack = some .eq :=
    beq_iff_eq (a := x.toModel.unpack.compare y.toModel.unpack)
  rcases quantity_cases x with ⟨finite, hx⟩ | ⟨s, unpacked, hx⟩ | ⟨unpacked, hx⟩
  · rcases quantity_cases y with ⟨finite', hy⟩ | ⟨t, unpacked', hy⟩ | ⟨unpacked', hy⟩
    · simp [beq_iff_exact_eq finite finite', hx, hy]
    · simpa [decided, unpacked', hx, hy] using (compare_infinity_ne_eq finite).2
    · simp [decided, unpacked', hx, hy, (compare_notANumber _).2]
  · rcases quantity_cases y with ⟨finite', hy⟩ | ⟨t, unpacked', hy⟩ | ⟨unpacked', hy⟩
    · simpa [decided, unpacked, hx, hy] using (compare_infinity_ne_eq finite').1
    · rw [decided, unpacked, unpacked', hx, hy]
      cases s <;> cases t <;>
        first | exact iff_of_true rfl ⟨nofun, rfl⟩ | exact iff_of_false nofun fun h => nomatch h.2
    · simp [decided, unpacked', hx, hy, (compare_notANumber _).2]
  · simp [decided, unpacked, hx, (compare_notANumber _).1]

theorem beq_comm (x y : Float) : (x == y) = (y == x) := by
  have one {x y : Float} (equal : (x == y) = true) : (y == x) = true := by
    obtain ⟨something, same⟩ := beq_iff_quantity_eq.mp equal
    exact beq_iff_quantity_eq.mpr ⟨same ▸ something, same.symm⟩
  exact Bool.eq_iff_iff.mpr ⟨one, one⟩

/-- An integer equals a float if its nearest float is the float. -/
theorem floatOfInt_beq_iff_quantity {i : Int64} {x : Float} :
    (floatOfInt i == x) = true ↔ quantity x = .rational (rounded i.toInt) := by
  obtain ⟨finite, value⟩ := exact_floatOfInt i
  have known : quantity (floatOfInt i) = .rational (rounded i.toInt) := by
    change (floatOfInt i).toModel.unpack.isFinite = true at finite
    rcases quantity_cases (floatOfInt i) with ⟨-, hi⟩ | ⟨s, unpacked, -⟩ | ⟨unpacked, -⟩
    · rw [hi, value]
    · rw [unpacked] at finite
      cases finite
    · rw [unpacked] at finite
      cases finite
  rw [beq_iff_quantity_eq, known]
  exact ⟨fun h => h.2.symm, fun h => ⟨nofun, h.symm⟩⟩

end Decimal

namespace Value

open Decimal

/-! ## Integers in a value -/

mutual
def ints : Value → List Int64
  | .int i => [i]
  | .array items => intsAmong items
  | .object entries => intsUnder entries
  | _ => []
def intsAmong : List Value → List Int64
  | [] => []
  | v :: rest => ints v ++ intsAmong rest
def intsUnder : List (String × Value) → List Int64
  | [] => []
  | (_, v) :: rest => ints v ++ intsUnder rest
end

/-- Every integer in the value is a float. -/
def Exact (v : Value) : Prop := ∀ i ∈ v.ints, rounded i.toInt = i.toInt

/-- No float in the value is a NaN. -/
def NoNaN (v : Value) : Prop := ∀ x ∈ v.floats, x.isNaN = false

instance (v : Value) : Decidable v.Exact :=
  List.decidableBAll (fun i : Int64 => rounded i.toInt = i.toInt) v.ints

instance (v : Value) : Decidable v.NoNaN :=
  List.decidableBAll (fun x : Float => x.isNaN = false) v.floats

/-! ## Meaning -/

/-- What a value stands for: its numbers have lost their kind. -/
inductive Meaning where
  | null
  | bool (b : Bool)
  | number (q : Quantity)
  | string (s : String)
  | array (items : List Meaning)
  | object (entries : List (String × Meaning))

variable (size : Int64 → ℤ)

mutual
/-- What a value stands for, if its integers have these sizes. -/
def meaningWith : Value → Meaning
  | .null => .null
  | .bool b => .bool b
  | .int i => .number (.rational (size i))
  | .float x => .number (quantity x)
  | .string s => .string s
  | .array items => .array (meaningsWith items)
  | .object entries => .object (namedMeaningsWith entries)
def meaningsWith : List Value → List Meaning
  | [] => []
  | v :: rest => meaningWith v :: meaningsWith rest
def namedMeaningsWith : List (String × Value) → List (String × Meaning)
  | [] => []
  | (k, v) :: rest => (k, meaningWith v) :: namedMeaningsWith rest
end

/-- What a value stands for. -/
def meaning : Value → Meaning := meaningWith Int64.toInt

/-- What a value stands for after its integers are rounded to floats. -/
def roundedMeaning : Value → Meaning := meaningWith fun i => rounded i.toInt

mutual
theorem meaningWith_congr {f g : Int64 → ℤ} :
    ∀ v : Value, (∀ i ∈ v.ints, f i = g i) → v.meaningWith f = v.meaningWith g
  | .null, _ => rfl
  | .bool _, _ => rfl
  | .int i, same => by rw [meaningWith, meaningWith, same i List.mem_cons_self]
  | .float _, _ => rfl
  | .string _, _ => rfl
  | .array items, same => by rw [meaningWith, meaningWith, meaningsWith_congr items same]
  | .object entries, same => by
    rw [meaningWith, meaningWith, namedMeaningsWith_congr entries same]
theorem meaningsWith_congr {f g : Int64 → ℤ} :
    ∀ items : List Value, (∀ i ∈ intsAmong items, f i = g i) →
      meaningsWith f items = meaningsWith g items
  | [], _ => rfl
  | v :: rest, same => by
    rw [intsAmong, List.forall_mem_append] at same
    rw [meaningsWith, meaningsWith, meaningWith_congr v same.1, meaningsWith_congr rest same.2]
theorem namedMeaningsWith_congr {f g : Int64 → ℤ} :
    ∀ entries : List (String × Value), (∀ i ∈ intsUnder entries, f i = g i) →
      namedMeaningsWith f entries = namedMeaningsWith g entries
  | [], _ => rfl
  | (k, v) :: rest, same => by
    rw [intsUnder, List.forall_mem_append] at same
    rw [namedMeaningsWith, namedMeaningsWith, meaningWith_congr v same.1,
      namedMeaningsWith_congr rest same.2]
end

/-- Rounding keeps the meaning of a value whose integers are floats. -/
theorem Exact.roundedMeaning_eq {v : Value} (h : v.Exact) : v.roundedMeaning = v.meaning :=
  meaningWith_congr v h

/-! ## Loose equality and meaning -/

mutual
theorem looseEq_comm : ∀ a b : Value, a.looseEq b = b.looseEq a
  | .null, b => by cases b <;> rfl
  | .bool x, b => by
    cases b with
    | bool y => exact Bool.beq_comm
    | _ => rfl
  | .int x, b => by
    cases b with
    | int y => exact BEq.comm
    | _ => rfl
  | .float x, b => by
    cases b with
    | float y => exact Decimal.beq_comm x y
    | _ => rfl
  | .string x, b => by
    cases b with
    | string y => exact BEq.comm
    | _ => rfl
  | .array items, b => by
    cases b with
    | array others => exact looseEqItems_comm items others
    | _ => rfl
  | .object entries, b => by
    cases b with
    | object others => exact looseEqEntries_comm entries others
    | _ => rfl
theorem looseEqItems_comm : ∀ as bs : List Value, looseEqItems as bs = looseEqItems bs as
  | [], bs => by cases bs <;> rfl
  | a :: as, [] => rfl
  | a :: as, b :: bs => by
    rw [looseEqItems, looseEqItems, looseEq_comm a b, looseEqItems_comm as bs]
theorem looseEqEntries_comm :
    ∀ as bs : List (String × Value), looseEqEntries as bs = looseEqEntries bs as
  | [], bs => by cases bs <;> rfl
  | (k, a) :: as, [] => rfl
  | (k, a) :: as, (l, b) :: bs => by
    rw [looseEqEntries, looseEqEntries, looseEq_comm a b, looseEqEntries_comm as bs,
      BEq.comm (a := k)]
end

mutual
/-- Loosely equal values mean the same once their integers are rounded. -/
theorem roundedMeaning_eq_of_looseEq :
    ∀ a b : Value, a.looseEq b = true → a.roundedMeaning = b.roundedMeaning
  | .null, b, equal => by
    cases b with
    | null => rfl
    | _ => cases equal
  | .bool x, b, equal => by
    cases b with
    | bool y => rw [beq_iff_eq.mp equal]
    | _ => cases equal
  | .int i, b, equal => by
    cases b with
    | int j => rw [beq_iff_eq.mp equal]
    | float y =>
      exact congrArg Meaning.number (floatOfInt_beq_iff_quantity.mp equal).symm
    | _ => cases equal
  | .float x, b, equal => by
    cases b with
    | int j => exact congrArg Meaning.number (floatOfInt_beq_iff_quantity.mp equal)
    | float y => exact congrArg Meaning.number (beq_iff_quantity_eq.mp equal).2
    | _ => cases equal
  | .string s, b, equal => by
    cases b with
    | string t => rw [beq_iff_eq.mp equal]
    | _ => cases equal
  | .array items, b, equal => by
    cases b with
    | array others =>
      exact congrArg Meaning.array (roundedMeanings_eq_of_looseEq items others equal)
    | _ => cases equal
  | .object entries, b, equal => by
    cases b with
    | object others =>
      exact congrArg Meaning.object (roundedNamedMeanings_eq_of_looseEq entries others equal)
    | _ => cases equal
theorem roundedMeanings_eq_of_looseEq :
    ∀ as bs : List Value, looseEqItems as bs = true →
      meaningsWith (fun i => rounded i.toInt) as = meaningsWith (fun i => rounded i.toInt) bs
  | [], [], _ => rfl
  | [], _ :: _, equal => nomatch equal
  | _ :: _, [], equal => nomatch equal
  | a :: as, b :: bs, equal => by
    obtain ⟨first, rest⟩ := Bool.and_eq_true_iff.mp equal
    exact congrArg₂ List.cons (roundedMeaning_eq_of_looseEq a b first)
      (roundedMeanings_eq_of_looseEq as bs rest)
theorem roundedNamedMeanings_eq_of_looseEq :
    ∀ as bs : List (String × Value), looseEqEntries as bs = true →
      namedMeaningsWith (fun i => rounded i.toInt) as =
        namedMeaningsWith (fun i => rounded i.toInt) bs
  | [], [], _ => rfl
  | [], _ :: _, equal => nomatch equal
  | _ :: _, [], equal => nomatch equal
  | (k, a) :: as, (l, b) :: bs, equal => by
    obtain ⟨first, rest⟩ := Bool.and_eq_true_iff.mp equal
    obtain ⟨key, value⟩ := Bool.and_eq_true_iff.mp first
    exact congrArg₂ List.cons
      (congrArg₂ Prod.mk (beq_iff_eq.mp key) (roundedMeaning_eq_of_looseEq a b value))
      (roundedNamedMeanings_eq_of_looseEq as bs rest)
end

mutual
/-- Values that mean the same are loosely equal, if no integer is rounded. -/
theorem looseEq_of_meaning_eq :
    ∀ a b : Value, a.NoNaN → a.Exact → b.Exact → a.meaning = b.meaning → a.looseEq b = true
  | .null, b, _, _, _, same => by
    cases b with
    | null => rfl
    | _ => cases same
  | .bool x, b, _, _, _, same => by
    cases b with
    | bool y => exact beq_iff_eq.mpr (Meaning.bool.inj same)
    | _ => cases same
  | .int i, b, _, ha, _, same => by
    have fits : rounded i.toInt = i.toInt := ha i List.mem_cons_self
    cases b with
    | int j =>
      have equal := Quantity.rational.inj (Meaning.number.inj same)
      exact beq_iff_eq.mpr (Int64.toInt_inj.mp (Int.cast_inj.mp equal))
    | float y =>
      refine floatOfInt_beq_iff_quantity.mpr ?_
      rw [fits]
      exact (Meaning.number.inj same).symm
    | _ => cases same
  | .float x, b, number, _, hb, same => by
    cases b with
    | int j =>
      have fits : rounded j.toInt = j.toInt := hb j List.mem_cons_self
      refine floatOfInt_beq_iff_quantity.mpr ?_
      rw [fits]
      exact Meaning.number.inj same
    | float y =>
      exact beq_iff_quantity_eq.mpr
        ⟨isNaN_eq_false_iff.mp (number x List.mem_cons_self), Meaning.number.inj same⟩
    | _ => cases same
  | .string s, b, _, _, _, same => by
    cases b with
    | string t => exact beq_iff_eq.mpr (Meaning.string.inj same)
    | _ => cases same
  | .array items, b, number, ha, hb, same => by
    cases b with
    | array others =>
      exact looseEqItems_of_meanings_eq items others number ha hb (Meaning.array.inj same)
    | _ => cases same
  | .object entries, b, number, ha, hb, same => by
    cases b with
    | object others =>
      exact looseEqEntries_of_meanings_eq entries others number ha hb (Meaning.object.inj same)
    | _ => cases same
theorem looseEqItems_of_meanings_eq :
    ∀ as bs : List Value, (∀ x ∈ floatsAmong as, x.isNaN = false) →
      (∀ i ∈ intsAmong as, rounded i.toInt = i.toInt) →
      (∀ i ∈ intsAmong bs, rounded i.toInt = i.toInt) →
      meaningsWith Int64.toInt as = meaningsWith Int64.toInt bs → looseEqItems as bs = true
  | [], [], _, _, _, _ => rfl
  | [], _ :: _, _, _, _, same => nomatch same
  | _ :: _, [], _, _, _, same => nomatch same
  | a :: as, b :: bs, number, ha, hb, same => by
    rw [floatsAmong, List.forall_mem_append] at number
    rw [intsAmong, List.forall_mem_append] at ha hb
    obtain ⟨first, rest⟩ := List.cons.inj same
    exact Bool.and_eq_true_iff.mpr ⟨looseEq_of_meaning_eq a b number.1 ha.1 hb.1 first,
      looseEqItems_of_meanings_eq as bs number.2 ha.2 hb.2 rest⟩
theorem looseEqEntries_of_meanings_eq :
    ∀ as bs : List (String × Value), (∀ x ∈ floatsUnder as, x.isNaN = false) →
      (∀ i ∈ intsUnder as, rounded i.toInt = i.toInt) →
      (∀ i ∈ intsUnder bs, rounded i.toInt = i.toInt) →
      namedMeaningsWith Int64.toInt as = namedMeaningsWith Int64.toInt bs →
      looseEqEntries as bs = true
  | [], [], _, _, _, _ => rfl
  | [], _ :: _, _, _, _, same => nomatch same
  | _ :: _, [], _, _, _, same => nomatch same
  | (k, a) :: as, (l, b) :: bs, number, ha, hb, same => by
    rw [floatsUnder, List.forall_mem_append] at number
    rw [intsUnder, List.forall_mem_append] at ha hb
    obtain ⟨first, rest⟩ := List.cons.inj same
    obtain ⟨key, value⟩ := Prod.mk.inj first
    rw [looseEqEntries, beq_iff_eq.mpr key, looseEq_of_meaning_eq a b number.1 ha.1 hb.1 value,
      looseEqEntries_of_meanings_eq as bs number.2 ha.2 hb.2 rest]
    rfl
end

/-- Where no integer is rounded, loose equality is equality of meaning. -/
theorem looseEq_iff_meaning_eq {a b : Value} (number : a.NoNaN) (ha : a.Exact) (hb : b.Exact) :
    a.looseEq b = true ↔ a.meaning = b.meaning := by
  refine ⟨fun equal => ?_, looseEq_of_meaning_eq a b number ha hb⟩
  rw [← ha.roundedMeaning_eq, ← hb.roundedMeaning_eq]
  exact roundedMeaning_eq_of_looseEq a b equal

theorem NoNaN.looseEq_self {v : Value} (h : v.NoNaN) : v.looseEq v = true := by
  rw [Value.looseEq_self, List.all_eq_true]
  exact fun x hx => by rw [h x hx]; rfl

/-- The value in the middle may be any: rounding has brought it to what both others mean. -/
theorem looseEq_trans {a b c : Value} (number : a.NoNaN) (ha : a.Exact) (hc : c.Exact)
    (first : a.looseEq b = true) (second : b.looseEq c = true) : a.looseEq c = true := by
  rw [looseEq_iff_meaning_eq number ha hc]
  calc a.meaning = a.roundedMeaning := ha.roundedMeaning_eq.symm
    _ = b.roundedMeaning := roundedMeaning_eq_of_looseEq a b first
    _ = c.roundedMeaning := roundedMeaning_eq_of_looseEq b c second
    _ = c.meaning := hc.roundedMeaning_eq

/-- An integer and a float that are loosely equal mean the same just if the integer is a float. -/
theorem int_meaning_eq_float_iff {i : Int64} {x : Float}
    (equal : (Value.int i).looseEq (.float x) = true) :
    (Value.int i).meaning = (Value.float x).meaning ↔ rounded i.toInt = i.toInt := by
  have size : quantity x = .rational (rounded i.toInt) := floatOfInt_beq_iff_quantity.mp equal
  show Meaning.number (.rational i.toInt) = .number (quantity x) ↔ _
  rw [size, Meaning.number.injEq, Quantity.rational.injEq, Int.cast_inj, eq_comm]

/-- **Loose equality compares numbers after rounding integers to floats.**  It is symmetric, and
reflexive without NaN.  An integer equals a float that stands for the nearest number with 53 digits,
which is the same number just if the integer is a float.  Between values whose integers all are
floats it is transitive and equality of meaning; so a write that changes nothing by its outcome has
kept what the rounded value means, and the meaning itself if the integers in both values are
floats. -/
theorem looseEq_equivalence (a b c : Value) :
    (a.NoNaN → a.looseEq a = true) ∧
    a.looseEq b = b.looseEq a ∧
    (a.NoNaN → a.Exact → c.Exact →
      a.looseEq b = true → b.looseEq c = true → a.looseEq c = true) ∧
    (∀ (i : Int64) (x : Float),
      ((Value.int i).looseEq (.float x) = true ↔ quantity x = .rational (rounded i.toInt)) ∧
      ((Value.int i).looseEq (.float x) = true →
        ((Value.int i).meaning = (Value.float x).meaning ↔ rounded i.toInt = i.toInt))) ∧
    (a.looseEq b = true → a.roundedMeaning = b.roundedMeaning) ∧
    (a.NoNaN → a.Exact → b.Exact → (a.looseEq b = true ↔ a.meaning = b.meaning)) ∧
    (∀ (s : Store) (key : String) (v : Value) (events : List WatchEvent),
      (s.write key v).2 = .applied a b events →
        ((s.write key v).2.changed = false → a.roundedMeaning = b.roundedMeaning) ∧
        (a.NoNaN → a.Exact → b.Exact →
          ((s.write key v).2.changed = false ↔ a.meaning = b.meaning))) := by
  refine ⟨NoNaN.looseEq_self, looseEq_comm a b, looseEq_trans,
    fun i x => ⟨floatOfInt_beq_iff_quantity, int_meaning_eq_float_iff⟩,
    roundedMeaning_eq_of_looseEq a b, looseEq_iff_meaning_eq, ?_⟩
  intro s key v events outcome
  have unchanged : (s.write key v).2.changed = false ↔ a.looseEq b = true := by
    rw [outcome, WriteOutcome.changed, Bool.not_eq_false']
  rw [unchanged]
  exact ⟨roundedMeaning_eq_of_looseEq a b, looseEq_iff_meaning_eq⟩

/-- A list and an object in it with a number of any kind each. -/
def numbersOf (one two : Value) : Value :=
  .array [one, .object [("half", .float 0.5), ("two", two)]]

/-- Kinds of numbers may be mixed at every depth. -/
theorem mixed_kinds_equal :
    (numbersOf (.int 1) (.float 2)).looseEq (numbersOf (.float 1) (.int 2)) = true ∧
    (numbersOf (.float 1) (.int 2)).looseEq (numbersOf (.int 1) (.int 2)) = true ∧
    (numbersOf (.int 1) (.float 2)).looseEq (numbersOf (.int 1) (.int 2)) = true := by
  have first : (numbersOf (.int 1) (.float 2)).looseEq (numbersOf (.float 1) (.int 2)) = true := by
    decide +kernel
  have second : (numbersOf (.float 1) (.int 2)).looseEq (numbersOf (.int 1) (.int 2)) = true := by
    decide +kernel
  have transitive := (looseEq_equivalence (numbersOf (.int 1) (.float 2))
    (numbersOf (.float 1) (.int 2)) (numbersOf (.int 1) (.int 2))).2.2.1
  exact ⟨first, second,
    transitive (by decide +kernel) (by decide +kernel) (by decide +kernel) first second⟩

/-- The float `2 ^ 53` links that number with the next one. -/
theorem linked_by_a_float :
    (Value.int 9007199254740992).NoNaN ∧ (Value.float 9007199254740992).NoNaN ∧
    (Value.int 9007199254740993).NoNaN ∧
    (Value.int 9007199254740992).looseEq (.float 9007199254740992) = true ∧
    (Value.float 9007199254740992).looseEq (.int 9007199254740993) = true ∧
    (Value.int 9007199254740992).looseEq (.int 9007199254740993) = false ∧
    (Value.float 9007199254740992).meaning ≠ (Value.int 9007199254740993).meaning := by
  have equal : (floatOfInt 9007199254740992 == (9007199254740992 : Float)) = true := by
    decide +kernel
  refine ⟨nofun, by decide +kernel, nofun, equal, by decide +kernel, by decide +kernel, ?_⟩
  intro same
  have size := floatOfInt_beq_iff_quantity.mp equal
  rw [show rounded (Int64.toInt 9007199254740992) = 9007199254740992 by decide +kernel] at size
  have other : quantity 9007199254740992 = .rational (Int64.toInt 9007199254740993) :=
    Meaning.number.inj same
  rw [size, Quantity.rational.injEq, Int.cast_inj] at other
  exact absurd other (by decide +kernel)

end Value

end ServerUi
