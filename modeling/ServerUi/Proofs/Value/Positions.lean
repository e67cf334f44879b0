import ServerUi.Value.Basic

/-! # Positions in a value

A position is the way from the top of a value to one of its parts: at each level the index of an
item, or of an entry among the entries of an object, whose order is that of their keys.  Parts may
be equal, but each has a position of its own, and what stands at a longer position stands inside
what stands at a shorter one (`part?_append`).
-/

namespace ServerUi.Value

def parts : Value → List Value
  | .array items => items
  | .object entries => entries.map (·.2)
  | _ => []

/-- Is the value neither a list nor an object? -/
def isLeaf : Value → Bool
  | .array _ | .object _ => false
  | _ => true

/-- The part of a value at a position. -/
def part? (v : Value) : List Nat → Option Value
  | [] => some v
  | i :: rest => v.parts[i]?.bind (·.part? rest)

theorem parts_of_isLeaf {v : Value} (leaf : v.isLeaf = true) : v.parts = [] := by
  cases v with
  | array items => cases leaf
  | object entries => cases leaf
  | _ => rfl

theorem part?_cons {v c : Value} {i : Nat} (inside : v.parts[i]? = some c) (rest : List Nat) :
    v.part? (i :: rest) = c.part? rest := by
  rw [part?, inside, Option.bind_some]

theorem part?_cons_eq_some {v x : Value} {i : Nat} {rest : List Nat} :
    v.part? (i :: rest) = some x ↔ ∃ c, v.parts[i]? = some c ∧ c.part? rest = some x :=
  Option.bind_eq_some_iff

theorem part?_append (v : Value) (p q : List Nat) :
    v.part? (p ++ q) = (v.part? p).bind (·.part? q) := by
  induction p generalizing v with
  | nil => rfl
  | cons i rest ih =>
    rw [List.cons_append, part?, part?]
    cases v.parts[i]? with
    | none => rfl
    | some c => exact ih c

mutual
/-- What holds of a value if it holds of its parts, holds of every value. -/
theorem parts_induction {motive : Value → Prop}
    (whole : ∀ v : Value, (∀ c ∈ v.parts, motive c) → motive v) : ∀ v : Value, motive v
  | .array items => whole _ (parts_induction_items whole items)
  | .object entries => whole _ (parts_induction_entries whole entries)
  | .null | .bool _ | .int _ | .float _ | .string _ => whole _ nofun
theorem parts_induction_items {motive : Value → Prop}
    (whole : ∀ v : Value, (∀ c ∈ v.parts, motive c) → motive v) :
    ∀ items : List Value, ∀ c ∈ items, motive c
  | [] => nofun
  | v :: rest => List.forall_mem_cons.mpr
      ⟨parts_induction whole v, parts_induction_items whole rest⟩
theorem parts_induction_entries {motive : Value → Prop}
    (whole : ∀ v : Value, (∀ c ∈ v.parts, motive c) → motive v) :
    ∀ entries : List (String × Value), ∀ c ∈ entries.map (·.2), motive c
  | [] => nofun
  | (_, v) :: rest => List.forall_mem_cons.mpr
      ⟨parts_induction whole v, parts_induction_entries whole rest⟩
end

end ServerUi.Value
