import Mathlib.Data.List.Nodup
import ServerUi.Proofs.Node.Identities

/-! # Positions in a tree

A position is the way from the root of a tree to one of its nodes, as the indices of children.
Nodes may be equal and share an identity, but each has a position of its own.  What a search finds
stands at a position (`get?_of_find?`), and it is the node that is meant if no other position has
the identity (`find?_of_alone`).  A symmetric relation holds between the identities of a tree, two
by two, exactly if it holds between those at different positions (`pairwise_ids_iff`).
-/

namespace ServerUi.Node

/-- The node at a position: each index is that of a child of the node before. -/
def get? (n : Node) : List Nat → Option Node
  | [] => some n
  | i :: rest => n.children[i]?.bind (·.get? rest)

theorem get?_cons_eq_some {n m : Node} {i : Nat} {rest : List Nat} :
    n.get? (i :: rest) = some m ↔ ∃ c, n.children[i]? = some c ∧ c.get? rest = some m :=
  Option.bind_eq_some_iff

/-! ## Children -/

mutual
/-- What holds of a node if it holds of its children, holds of every node. -/
theorem children_induction {motive : Node → Prop}
    (node : ∀ n : Node, (∀ c ∈ n.children, motive c) → motive n) : ∀ n : Node, motive n
  | mk _ _ _ _ _ _ none => node _ fun _ absent => absurd absent List.not_mem_nil
  | mk _ _ _ _ _ _ (some cs) => node _ (children_induction_in node cs)
theorem children_induction_in {motive : Node → Prop}
    (node : ∀ n : Node, (∀ c ∈ n.children, motive c) → motive n) :
    ∀ cs : List Node, ∀ c ∈ cs, motive c
  | [] => fun _ absent => absurd absent List.not_mem_nil
  | n :: rest => List.forall_mem_cons.mpr
      ⟨children_induction node n, children_induction_in node rest⟩
end

theorem ids_eq (n : Node) : n.ids = n.id :: n.children.flatMap ids := by
  obtain ⟨id, kind, props, style, action, state, children⟩ := n
  cases children with
  | none => rfl
  | some cs => exact congrArg (id :: ·) (idsIn_eq cs)

/-- What is found among children is found in one of them. -/
theorem exists_mem_of_findIn {cs : List Node} {wanted : String} {m : Node}
    (found : findIn wanted cs = some m) : ∃ c ∈ cs, c.find? wanted = some m := by
  induction cs with
  | nil => cases found
  | cons n rest ih =>
    rw [findIn, Option.or_eq_some_iff] at found
    rcases found with found | ⟨-, found⟩
    · exact ⟨n, List.mem_cons_self, found⟩
    · obtain ⟨c, mem, found⟩ := ih found
      exact ⟨c, List.mem_cons_of_mem n mem, found⟩

/-! ## Searching -/

theorem mem_ids_of_get? {n m : Node} {position : List Nat} (there : n.get? position = some m) :
    m.id ∈ n.ids := by
  induction position generalizing n with
  | nil =>
    cases there
    rw [ids_eq]
    exact List.mem_cons_self
  | cons i rest ih =>
    obtain ⟨c, child, there⟩ := get?_cons_eq_some.mp there
    rw [ids_eq, List.mem_cons, List.mem_flatMap]
    exact .inr ⟨c, List.mem_of_getElem? child, ih there⟩

/-- What is found has the identity that is looked for, and stands somewhere in the tree. -/
theorem get?_of_find? {n m : Node} {wanted : String} (found : n.find? wanted = some m) :
    m.id = wanted ∧ ∃ position, n.get? position = some m := by
  induction n using children_induction with
  | node n ih =>
    rw [find?_eq] at found
    split at found
    · rename_i own
      cases found
      exact ⟨own, [], rfl⟩
    · cases given : n.children? with
      | none =>
        rw [given] at found
        cases found
      | some cs =>
        rw [given] at found
        obtain ⟨c, mem, found⟩ := exists_mem_of_findIn found
        have child : c ∈ n.children := by
          rw [children, given]
          exact mem
        obtain ⟨same, rest, there⟩ := ih c child found
        obtain ⟨i, index⟩ := List.getElem?_of_mem child
        exact ⟨same, i :: rest, get?_cons_eq_some.mpr ⟨c, index, there⟩⟩

theorem exists_get?_of_mem_ids {n : Node} {wanted : String} (mem : wanted ∈ n.ids) :
    ∃ position m, n.get? position = some m ∧ m.id = wanted := by
  obtain ⟨m, found⟩ := Option.isSome_iff_exists.mp ((isSome_find?_iff wanted n).mpr mem)
  obtain ⟨same, position, there⟩ := get?_of_find? found
  exact ⟨position, m, there, same⟩

/-- A node is found if its identity stands nowhere else. -/
theorem find?_of_alone {n m : Node} {position : List Nat} (there : n.get? position = some m)
    (alone : ∀ p m', n.get? p = some m' → m'.id = m.id → p = position) :
    n.find? m.id = some m := by
  have hit := (isSome_find?_iff m.id n).mpr (mem_ids_of_get? there)
  obtain ⟨m', found⟩ := Option.isSome_iff_exists.mp hit
  obtain ⟨same, p, there'⟩ := get?_of_find? found
  obtain rfl := alone p m' there' same
  rw [found, ← there', there]

/-! ## Identities two by two -/

/-- **Two identities stand at two positions.**  By induction on the tree: of two positions one is
that of the root, or both lead into one child, or they lead into two of them. -/
theorem pairwise_ids_iff {R : String → String → Prop} (symm : ∀ a b, R a b → R b a) (n : Node) :
    n.ids.Pairwise R ↔
      ∀ p q m m', n.get? p = some m → n.get? q = some m' → p ≠ q → R m.id m'.id := by
  induction n using children_induction with
  | node n ih =>
    rw [ids_eq, List.pairwise_cons, List.pairwise_flatMap]
    constructor
    · rintro ⟨own, within, between⟩ p q m m' hp hq differ
      have below {j : Nat} {q : List Nat} {m' : Node} (hq : n.get? (j :: q) = some m') :
          R n.id m'.id := by
        obtain ⟨d, hd, hq⟩ := get?_cons_eq_some.mp hq
        exact own _ (List.mem_flatMap.mpr ⟨d, List.mem_of_getElem? hd, mem_ids_of_get? hq⟩)
      have across {i j : Nat} {p q : List Nat} {m m' : Node} (hp : n.get? (i :: p) = some m)
          (hq : n.get? (j :: q) = some m') (lt : i < j) : R m.id m'.id := by
        obtain ⟨c, hc, hp⟩ := get?_cons_eq_some.mp hp
        obtain ⟨d, hd, hq⟩ := get?_cons_eq_some.mp hq
        obtain ⟨hi, rfl⟩ := List.getElem?_eq_some_iff.mp hc
        obtain ⟨hj, rfl⟩ := List.getElem?_eq_some_iff.mp hd
        exact List.pairwise_iff_getElem.mp between i j hi hj lt _ (mem_ids_of_get? hp) _
          (mem_ids_of_get? hq)
      match p, q with
      | [], [] => exact absurd rfl differ
      | [], j :: q =>
        cases hp
        exact below hq
      | i :: p, [] =>
        cases hq
        exact symm _ _ (below hp)
      | i :: p, j :: q =>
        rcases Nat.lt_trichotomy i j with lt | rfl | lt
        · exact across hp hq lt
        · obtain ⟨c, hc, hp⟩ := get?_cons_eq_some.mp hp
          obtain ⟨d, hd, hq⟩ := get?_cons_eq_some.mp hq
          obtain rfl := Option.some.inj (hc.symm.trans hd)
          have child := List.mem_of_getElem? hc
          exact (ih c child).mp (within c child) p q m m' hp hq fun same => differ (same ▸ rfl)
        · exact symm _ _ (across hq hp lt)
    · intro apart
      -- the root and a node below it, two nodes below one child, two below different children
      refine ⟨?_, ?_, ?_⟩
      · intro b hb
        obtain ⟨c, hc, hb⟩ := List.mem_flatMap.mp hb
        obtain ⟨i, hi⟩ := List.getElem?_of_mem hc
        obtain ⟨q, m, hq, rfl⟩ := exists_get?_of_mem_ids hb
        exact apart [] (i :: q) n m rfl (get?_cons_eq_some.mpr ⟨c, hi, hq⟩) nofun
      · intro c hc
        obtain ⟨i, hi⟩ := List.getElem?_of_mem hc
        refine (ih c hc).mpr fun p q m m' hp hq differ => ?_
        exact apart (i :: p) (i :: q) m m' (get?_cons_eq_some.mpr ⟨c, hi, hp⟩)
          (get?_cons_eq_some.mpr ⟨c, hi, hq⟩) fun same => differ (List.cons.inj same).2
      · refine List.pairwise_iff_getElem.mpr fun i j hi hj lt a ha b hb => ?_
        obtain ⟨p, m, hp, rfl⟩ := exists_get?_of_mem_ids ha
        obtain ⟨q, m', hq, rfl⟩ := exists_get?_of_mem_ids hb
        refine apart (i :: p) (j :: q) m m'
          (get?_cons_eq_some.mpr ⟨_, List.getElem?_eq_getElem hi, hp⟩)
          (get?_cons_eq_some.mpr ⟨_, List.getElem?_eq_getElem hj, hq⟩) fun same => ?_
        exact Nat.ne_of_lt lt (List.cons.inj same).1

/-- If no identity is repeated, every node is found under its own. -/
theorem find?_of_nodup {n m : Node} (distinct : n.ids.Nodup) {position : List Nat}
    (there : n.get? position = some m) : n.find? m.id = some m := by
  refine find?_of_alone there fun p m' there' same => ?_
  by_contra differ
  exact (pairwise_ids_iff (fun _ _ => Ne.symm) n).mp distinct p position m' m there' there differ
    same

end ServerUi.Node
