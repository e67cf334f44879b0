/-! # Characters

Classes of characters, the blanks that may stand around every token of a formula and around the
digits of a number that a user typed, and the digits of numbers in a base up to sixteen.
-/

namespace ServerUi.Text

/-! ## Classes -/

/-- Is each range non-empty, and does it start beyond the end of the range before it? -/
def areAscending : List (Nat × Nat) → Bool
  | [] => true
  | [(low, high)] => low ≤ high
  | (low, high) :: (low', high') :: rest =>
    low ≤ high && high < low' && areAscending ((low', high') :: rest)

/-- A class of characters, as closed ranges of code points. -/
structure Ranges where
  pairs : List (Nat × Nat)
  ascending : areAscending pairs = true

/-- Is the code point in one of the ranges, of which none is looked at beyond the first that starts
beyond it? -/
def isWithin : List (Nat × Nat) → Nat → Bool
  | [], _ => false
  | (low, high) :: rest, n =>
    if n < low then false else if n ≤ high then true else isWithin rest n

def Ranges.contains (r : Ranges) (n : Nat) : Bool := isWithin r.pairs n

theorem areAscending_cons {p : Nat × Nat} {rest : List (Nat × Nat)}
    (h : areAscending (p :: rest) = true) :
    p.1 ≤ p.2 ∧ (∀ q ∈ rest, p.2 < q.1) ∧ areAscending rest = true := by
  induction rest generalizing p with
  | nil => exact ⟨of_decide_eq_true h, nofun, rfl⟩
  | cons q rest ih =>
    simp only [areAscending, Bool.and_eq_true, decide_eq_true_eq] at h
    obtain ⟨⟨size, apart⟩, later⟩ := h
    obtain ⟨sizeNext, above, -⟩ := ih later
    refine ⟨size, fun r hr => ?_, later⟩
    rcases List.mem_cons.mp hr with rfl | hr
    · exact apart
    · have := above r hr
      omega

theorem isWithin_iff {pairs : List (Nat × Nat)} (h : areAscending pairs = true) {n : Nat} :
    isWithin pairs n = true ↔ ∃ p ∈ pairs, p.1 ≤ n ∧ n ≤ p.2 := by
  induction pairs with
  | nil => exact ⟨nofun, fun ⟨_, hp, _⟩ => nomatch hp⟩
  | cons p rest ih =>
    obtain ⟨low, high⟩ := p
    obtain ⟨size, above, later⟩ := areAscending_cons h
    simp only [isWithin, List.mem_cons, exists_eq_or_imp, ← ih later]
    by_cases below : n < low
    · -- a range of the rest starts later still
      have passed : ¬ isWithin rest n = true := by
        rw [ih later]
        rintro ⟨q, hq, start, -⟩
        have := above q hq
        omega
      rw [if_pos below]
      constructor
      · exact nofun
      · rintro (⟨start, -⟩ | inside)
        · exact absurd start (by omega)
        · exact absurd inside passed
    · rw [if_neg below]
      by_cases inside : n ≤ high
      · rw [if_pos inside]
        exact ⟨fun _ => .inl ⟨by omega, inside⟩, fun _ => rfl⟩
      · rw [if_neg inside]
        exact ⟨.inr, fun h => h.resolve_left fun ⟨_, h⟩ => inside h⟩

/-- Since the ranges ascend, none that holds the code point is passed over. -/
theorem Ranges.contains_iff (r : Ranges) {n : Nat} :
    r.contains n = true ↔ ∃ p ∈ r.pairs, p.1 ≤ n ∧ n ≤ p.2 :=
  isWithin_iff r.ascending

/-! ## Blanks -/

/-- The characters with the property White_Space. -/
def blankRanges : Ranges where
  pairs := [(0x9, 0xD), (0x20, 0x20), (0x85, 0x85), (0xA0, 0xA0), (0x1680, 0x1680),
    (0x2000, 0x200A), (0x2028, 0x2029), (0x202F, 0x202F), (0x205F, 0x205F), (0x3000, 0x3000)]
  ascending := by decide

def isBlank (c : Char) : Bool := blankRanges.contains c.toNat

theorem isBlank_eq_false {c : Char} (low : 0x20 < c.toNat) (high : c.toNat < 0x85) :
    isBlank c = false := by
  rw [isBlank, Bool.eq_false_iff, ne_eq, Ranges.contains_iff]
  simp only [blankRanges, List.mem_cons, List.not_mem_nil, or_false, exists_eq_or_imp,
    exists_eq_left]
  omega

def trimBlank (cs : List Char) : List Char :=
  ((cs.dropWhile isBlank).reverse.dropWhile isBlank).reverse

theorem trimBlank_eq_self {cs : List Char} (h : ∀ c ∈ cs, isBlank c = false) :
    trimBlank cs = cs := by
  have kept {cs : List Char} (h : ∀ c ∈ cs, isBlank c = false) : cs.dropWhile isBlank = cs := by
    cases cs with
    | nil => rfl
    | cons c rest => rw [List.dropWhile_cons_of_neg (by rw [h c List.mem_cons_self]; decide)]
  rw [trimBlank, kept h, kept fun c hc => h c (List.mem_reverse.mp hc), List.reverse_reverse]

def trim (s : String) : String := String.ofList (trimBlank s.toList)

/-! ## Digits -/

/-- The value of a digit of base sixteen, in either case. -/
def hexValue? (c : Char) : Option Nat :=
  if '0' ≤ c && c ≤ '9' then some (c.toNat - '0'.toNat)
  else if 'a' ≤ c && c ≤ 'f' then some (c.toNat - 'a'.toNat + 10)
  else if 'A' ≤ c && c ≤ 'F' then some (c.toNat - 'A'.toNat + 10)
  else none

def digitValue? (base : Nat) (c : Char) : Option Nat :=
  (hexValue? c).bind fun d => if d < base then some d else none

/-- The number that digits write behind a number read before. -/
def natFrom? (base : Nat) : Nat → List Char → Option Nat
  | n, [] => some n
  | n, c :: rest => do
    let d ← digitValue? base c
    natFrom? base (base * n + d) rest

/-- The number that digits write; none for no digits. -/
def natOf? (base : Nat) (ds : List Char) : Option Nat :=
  if ds.isEmpty then none else natFrom? base 0 ds

end ServerUi.Text
