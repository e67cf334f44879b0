import ServerUi.Node

/-! # Identities in a tree

The identities of a tree in the order in which it is searched.  A search succeeds for exactly these
(`isSome_find?_iff`), and where they differ, what is found in a child is found among the children
(`findIn_of_mem`).  A tree that was given path identities has no empty one (`given_withPathIds`).
-/

namespace ServerUi.Node

mutual
/-- The identities of all nodes, the node itself before its children. -/
def ids : Node → List String
  | mk id _ _ _ _ _ children => id :: idsAmong children
def idsAmong : Option (List Node) → List String
  | none => []
  | some cs => idsIn cs
def idsIn : List Node → List String
  | [] => []
  | n :: rest => ids n ++ idsIn rest
end

mutual
theorem isSome_find?_iff (wanted : String) :
    ∀ n : Node, (n.find? wanted).isSome = true ↔ wanted ∈ n.ids
  | mk id _ _ _ _ _ children => by
    rw [find?, ids]
    by_cases h : id = wanted
    · simp [h]
    · rw [if_neg h, List.mem_cons, isSome_findAmong_iff wanted children]
      simp [Ne.symm h]
theorem isSome_findAmong_iff (wanted : String) :
    ∀ children : Option (List Node),
      (findAmong wanted children).isSome = true ↔ wanted ∈ idsAmong children
  | none => by simp [findAmong, idsAmong]
  | some cs => by
    rw [findAmong, idsAmong]
    exact isSome_findIn_iff wanted cs
theorem isSome_findIn_iff (wanted : String) :
    ∀ cs : List Node, (findIn wanted cs).isSome = true ↔ wanted ∈ idsIn cs
  | [] => by simp [findIn, idsIn]
  | n :: rest => by
    rw [findIn, idsIn, Option.isSome_or, Bool.or_eq_true, List.mem_append,
      isSome_find?_iff wanted n, isSome_findIn_iff wanted rest]
end

theorem find?_eq_none {n : Node} {wanted : String} (h : wanted ∉ n.ids) :
    n.find? wanted = none := by
  rw [← Option.not_isSome_iff_eq_none, isSome_find?_iff]
  exact h

/-! ## Searching among children -/

theorem idsIn_eq (cs : List Node) : idsIn cs = cs.flatMap ids := by
  induction cs with
  | nil => rfl
  | cons n rest ih => rw [idsIn, List.flatMap_cons, ih]

theorem find?_eq (n : Node) (wanted : String) :
    n.find? wanted = if n.id = wanted then some n else findAmong wanted n.children? := by
  cases n
  rfl

/-- A node with a child has its children given, and its identities are its own and theirs. -/
theorem ids_of_mem {n child : Node} (mem : child ∈ n.children) :
    ∃ cs, n.children? = some cs ∧ child ∈ cs ∧ n.ids = n.id :: idsIn cs := by
  obtain ⟨id, kind, props, style, action, state, children⟩ := n
  cases children with
  | none => cases mem
  | some cs => exact ⟨cs, rfl, mem, rfl⟩

theorem findIn_of_mem {cs : List Node} {child m : Node} {wanted : String}
    (distinct : (idsIn cs).Nodup) (mem : child ∈ cs) (found : child.find? wanted = some m) :
    findIn wanted cs = some m := by
  induction cs with
  | nil => cases mem
  | cons n rest ih =>
    rw [idsIn, List.nodup_append] at distinct
    obtain ⟨-, others, apart⟩ := distinct
    rw [findIn]
    rcases List.mem_cons.mp mem with rfl | mem
    · rw [found]
      rfl
    · have behind := ih others mem
      have later : wanted ∈ idsIn rest := by
        rw [← isSome_findIn_iff, behind]
        rfl
      rw [find?_eq_none fun h => apart wanted h wanted later rfl, behind]
      rfl

/-! ## Path identities -/

theorem childPath_ne_empty {path : String} (given : path ≠ "") (index : Nat) :
    childPath path index ≠ "" := by
  intro empty
  rw [childPath, String.append_eq_empty_iff, String.append_eq_empty_iff] at empty
  exact given empty.1.1

mutual
theorem given_withPathIdsAt {path : String} (given : path ≠ "") :
    ∀ n : Node, "" ∉ (withPathIdsAt path n).ids
  | mk id _ _ _ _ _ children => by
    rw [withPathIdsAt, ids, List.mem_cons, not_or]
    refine ⟨?_, given_pathIdsAmong given children⟩
    split
    · exact Ne.symm given
    · rename_i own
      exact Ne.symm own
theorem given_pathIdsAmong {path : String} (given : path ≠ "") :
    ∀ children : Option (List Node), "" ∉ idsAmong (pathIdsAmong path children)
  | none => List.not_mem_nil
  | some cs => given_pathIdsIn given 0 cs
theorem given_pathIdsIn {path : String} (given : path ≠ "") (index : Nat) :
    ∀ cs : List Node, "" ∉ idsIn (pathIdsIn path index cs)
  | [] => List.not_mem_nil
  | n :: rest => by
    rw [pathIdsIn, idsIn, List.mem_append, not_or]
    exact ⟨given_withPathIdsAt (childPath_ne_empty given index) n,
      given_pathIdsIn given (index + 1) rest⟩
end

/-- No identity is empty in a tree with path identities. -/
theorem given_withPathIds (n : Node) : "" ∉ n.withPathIds.ids :=
  given_withPathIdsAt (by decide) n

end ServerUi.Node
