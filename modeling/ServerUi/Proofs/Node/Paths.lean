import Mathlib.Data.List.TakeDrop
import ServerUi.Proofs.Node.Positions

/-! # Paths as identities

A node that came without an identity gets the path of its position.  Different positions have
different paths (`pathOf_injective`), so a path finds the node at its position, provided that no
identity that was written looks like a path (`path_finds_position`).  In general the identities
differ exactly if those that were written do and none of them is the path of a node without one
(`nodup_withPathIds_iff`).
-/

namespace ServerUi.Node

/-! ## Paths -/

/-- The path of a position below a path: behind the path the indices, each after a point. -/
def pathFrom (path : String) (position : List Nat) : String :=
  path ++ String.join (position.map fun i => "." ++ toString i)

/-- The path of a position from the root. -/
def pathOf (position : List Nat) : String := pathFrom "root" position

/-- The characters of the indices, each after a point. -/
def pathChars (position : List Nat) : List Char :=
  position.flatMap fun i => '.' :: Nat.toDigits 10 i

theorem toList_pathFrom (path : String) (position : List Nat) :
    (pathFrom path position).toList = path.toList ++ pathChars position := by
  rw [pathFrom, String.toList_append, String.toList_join, List.flatMap_map, pathChars]
  congr 2
  funext i
  rw [String.toList_append, Nat.toString_eq_repr, Nat.toList_repr]
  rfl

theorem pathFrom_nil (path : String) : pathFrom path [] = path := by
  rw [← String.toList_inj, toList_pathFrom]
  exact List.append_nil _

theorem pathFrom_append (path : String) (position below : List Nat) :
    pathFrom (pathFrom path position) below = pathFrom path (position ++ below) := by
  rw [← String.toList_inj, toList_pathFrom, toList_pathFrom, toList_pathFrom, pathChars, pathChars,
    pathChars, List.flatMap_append, List.append_assoc]

theorem childPath_eq (path : String) (index : Nat) :
    childPath path index = pathFrom path [index] := by
  have chars : (childPath path index).toList = path.toList ++ '.' :: Nat.toDigits 10 index := by
    simp [childPath, Decimal.digits]
  rw [← String.toList_inj, chars, toList_pathFrom, pathChars, List.flatMap_singleton]

/-- The digits of an index end where the next point stands. -/
theorem span_digits (i : Nat) (rest : List Nat) :
    (Nat.toDigits 10 i ++ pathChars rest).span (· != '.') =
      (Nat.toDigits 10 i, pathChars rest) := by
  have digits : ∀ c ∈ Nat.toDigits 10 i, (c != '.') = true := by
    intro c mem
    rw [bne_iff_ne]
    rintro rfl
    cases Nat.isDigit_of_mem_toDigits (by decide) (by decide) mem
  rw [List.span_eq_takeWhile_dropWhile, List.takeWhile_append_of_pos digits,
    List.dropWhile_append_of_pos digits]
  -- behind the digits stands nothing, or the point of the next index
  cases rest with
  | nil => simp [pathChars]
  | cons j rest => simp [pathChars]

theorem toDigits_injective : Function.Injective (Nat.toDigits 10) := by
  intro m n same
  have read := congrArg (Nat.ofDigitChars 10 · 0) same
  simpa only [Nat.ofDigitChars_ten_toDigits] using read

theorem pathChars_injective : Function.Injective pathChars := by
  intro p q same
  induction p generalizing q with
  | nil =>
    cases q with
    | nil => rfl
    | cons j q => cases same
  | cons i p ih =>
    cases q with
    | nil => cases same
    | cons j q =>
      have behind : Nat.toDigits 10 i ++ pathChars p = Nat.toDigits 10 j ++ pathChars q :=
        (List.cons.inj same).2
      have parts := congrArg (List.span (· != '.')) behind
      rw [span_digits, span_digits, Prod.mk.injEq] at parts
      obtain ⟨first, others⟩ := parts
      rw [toDigits_injective first, ih others]

theorem toList_pathOf (position : List Nat) :
    (pathOf position).toList = "root".toList ++ pathChars position :=
  toList_pathFrom "root" position

/-- Different positions have different paths. -/
theorem pathOf_injective : Function.Injective pathOf := by
  intro p q same
  have chars := congrArg String.toList same
  rw [toList_pathOf, toList_pathOf] at chars
  exact pathChars_injective (List.append_cancel_left chars)

example : pathOf [1, 0] = "root.1.0" ∧ pathOf [10] = "root.10" := by decide

/-- The text is `root`, or it starts with `root` and a point. -/
def LikePath (id : String) : Prop := id = "root" ∨ "root.".toList <+: id.toList

instance (id : String) : Decidable (LikePath id) := inferInstanceAs (Decidable (_ ∨ _))

theorem likePath_pathOf (position : List Nat) : LikePath (pathOf position) := by
  cases position with
  | nil => exact .inl rfl
  | cons i rest =>
    refine .inr ⟨Nat.toDigits 10 i ++ pathChars rest, ?_⟩
    rw [toList_pathOf]
    rfl

theorem pathOf_ne_empty (position : List Nat) : pathOf position ≠ "" := by
  intro empty
  have chars := congrArg String.toList empty
  rw [toList_pathOf] at chars
  cases chars

/-! ## Filled trees -/

/-- One node is the other with its empty identity filled, and it has as many children. -/
structure Filled (path : String) (m m' : Node) : Prop where
  id : m'.id = if m.id = "" then path else m.id
  kind : m'.kind = m.kind
  props : m'.props = m.props
  style : m'.style = m.style
  action : m'.action = m.action
  state : m'.state = m.state
  children : m'.children?.map List.length = m.children?.map List.length

/-- Two trees have the same positions, and at each of them one holds the node of the other with its
empty identity filled.  The first stands at a position of a whole tree. -/
def FilledAt (position : List Nat) (m m' : Node) : Prop :=
  ∀ below, Option.Rel (Filled (pathOf (position ++ below))) (m.get? below) (m'.get? below)

theorem getElem?_pathIdsIn (path : String) (index : Nat) (cs : List Node) (i : Nat) :
    (pathIdsIn path index cs)[i]? = cs[i]?.map (withPathIdsAt (childPath path (index + i))) := by
  induction cs generalizing index i with
  | nil => rfl
  | cons n rest ih =>
    cases i with
    | zero => rfl
    | succ i =>
      show (pathIdsIn path (index + 1) rest)[i]? = rest[i]?.map _
      rw [ih, Nat.add_right_comm, Nat.add_assoc]

theorem length_pathIdsIn (path : String) (index : Nat) (cs : List Node) :
    (pathIdsIn path index cs).length = cs.length := by
  induction cs generalizing index with
  | nil => rfl
  | cons n rest ih => exact congrArg (· + 1) (ih (index + 1))

theorem getElem?_children_withPathIdsAt (path : String) (n : Node) (i : Nat) :
    (withPathIdsAt path n).children[i]? =
      n.children[i]?.map (withPathIdsAt (childPath path i)) := by
  obtain ⟨id, kind, props, style, action, state, children⟩ := n
  cases children with
  | none => rfl
  | some cs =>
    show (pathIdsIn path 0 cs)[i]? = _
    rw [getElem?_pathIdsIn, Nat.zero_add]
    rfl

theorem filled_withPathIdsAt (path : String) (n : Node) : Filled path n (withPathIdsAt path n) := by
  obtain ⟨id, kind, props, style, action, state, children⟩ := n
  refine ⟨rfl, rfl, rfl, rfl, rfl, rfl, ?_⟩
  cases children with
  | none => rfl
  | some cs => exact congrArg some (length_pathIdsIn path 0 cs)

theorem get?_withPathIdsAt (path : String) (n : Node) (position : List Nat) :
    (withPathIdsAt path n).get? position =
      (n.get? position).map (withPathIdsAt (pathFrom path position)) := by
  induction position generalizing path n with
  | nil =>
    rw [pathFrom_nil]
    rfl
  | cons i rest ih =>
    have path' : pathFrom (childPath path i) rest = pathFrom path (i :: rest) := by
      rw [childPath_eq, pathFrom_append, List.singleton_append]
    rw [get?, getElem?_children_withPathIdsAt, get?, ← path']
    cases n.children[i]? with
    | none => rfl
    | some c => exact ih (childPath path i) c

theorem filledAt_withPathIdsAt (position : List Nat) (n : Node) :
    FilledAt position n (withPathIdsAt (pathOf position) n) := by
  intro below
  have path : pathFrom (pathOf position) below = pathOf (position ++ below) :=
    pathFrom_append "root" position below
  rw [get?_withPathIdsAt, path]
  cases n.get? below with
  | none => exact .none
  | some m => exact .some (filled_withPathIdsAt _ m)

variable {n : Node}

theorem get?_withPathIds {position : List Nat} {m' : Node} :
    n.withPathIds.get? position = some m' ↔
      ∃ m, n.get? position = some m ∧ withPathIdsAt (pathOf position) m = m' := by
  rw [withPathIds, get?_withPathIdsAt, Option.map_eq_some_iff]
  rfl

/-! ## Paths and positions -/

/-- A path is the identity of no node but an unnamed one at its position, if no identity that was
written looks like it. -/
theorem eq_of_id_eq_pathOf (unlike : ∀ id ∈ n.ids, ¬ LikePath id) {p position : List Nat}
    {m' : Node} (there : n.withPathIds.get? p = some m') (same : m'.id = pathOf position) :
    p = position ∧ ∃ m, n.get? position = some m ∧ m.id = "" := by
  obtain ⟨m, held, rfl⟩ := get?_withPathIds.mp there
  rw [(filled_withPathIdsAt _ m).id] at same
  split at same
  · rename_i unnamed
    obtain rfl := pathOf_injective same
    exact ⟨rfl, m, held, unnamed⟩
  · have written := unlike m.id (mem_ids_of_get? held)
    rw [same] at written
    exact absurd (likePath_pathOf position) written

/-- **A path finds its position.**  Let no identity that was written in a tree be `root` or start
with `root` and a point.  Where there is a node without an identity, the path of its position finds
it, with all that it had, the same children in the same order, and identities filled in below it.
The path of any other position finds nothing.  Filling alters no identity that was written, and
nothing else in the tree. -/
theorem path_finds_position (unlike : ∀ id ∈ n.ids, ¬ LikePath id) (position : List Nat) :
    (∀ m, n.get? position = some m → m.id = "" →
      ∃ m', n.withPathIds.find? (pathOf position) = some m' ∧
        n.withPathIds.get? position = some m' ∧ FilledAt position m m') ∧
    ((∀ m, n.get? position = some m → m.id ≠ "") →
      n.withPathIds.find? (pathOf position) = none) ∧
    FilledAt [] n n.withPathIds := by
  refine ⟨fun m there unnamed => ?_, fun otherwise => ?_, filledAt_withPathIdsAt [] n⟩
  · have filled := get?_withPathIds.mpr ⟨m, there, rfl⟩
    have path : (withPathIdsAt (pathOf position) m).id = pathOf position := by
      rw [(filled_withPathIdsAt _ m).id, if_pos unnamed]
    have found := find?_of_alone filled fun p m' there' same =>
      (eq_of_id_eq_pathOf unlike there' (same.trans path)).1
    rw [path] at found
    exact ⟨_, found, filled, filledAt_withPathIdsAt position m⟩
  · cases found : n.withPathIds.find? (pathOf position) with
    | none => rfl
    | some m' =>
      obtain ⟨same, p, there⟩ := get?_of_find? found
      obtain ⟨-, m, there, unnamed⟩ := eq_of_id_eq_pathOf unlike there same
      exact absurd unnamed (otherwise m there)

/-- A named text, and a row without a name with a spacer in it. -/
def rowTree : Node :=
  ((bare "" .vStack).withChild (bare "named" .text)).withChild
    ((bare "" .hStack).withChild (bare "" .spacer))

/-- The row is found under its path.  The text is not, and there is no third child. -/
theorem row_found :
    (∃ row, rowTree.withPathIds.find? "root.1" = some row ∧
      FilledAt [1] ((bare "" .hStack).withChild (bare "" .spacer)) row) ∧
    rowTree.withPathIds.find? "root.0" = none ∧ rowTree.withPathIds.find? "root.2" = none := by
  have unlike : ∀ id ∈ rowTree.ids, ¬ LikePath id := by decide
  obtain ⟨row, -, -⟩ := path_finds_position unlike [1]
  obtain ⟨-, text, -⟩ := path_finds_position unlike [0]
  obtain ⟨-, missing, -⟩ := path_finds_position unlike [2]
  obtain ⟨found, under, -, filled⟩ := row _ rfl rfl
  refine ⟨⟨found, under, filled⟩, text fun m there => ?_, missing fun m there => nomatch there⟩
  cases there
  decide

/-! ## Repeated identities -/

/-- An identity that was written is also the path of a node without one. -/
def Clashes (n : Node) : Prop :=
  ∃ position m, n.get? position = some m ∧ m.id = "" ∧ pathOf position ∈ n.ids

/-- **Paths repeat an identity only in a clash.**  Where the identities that were written differ,
all identities differ once the empty ones are filled, unless a path was written. -/
theorem nodup_withPathIds_iff (distinct : (n.ids.filter (· ≠ "")).Nodup) :
    n.withPathIds.ids.Nodup ↔ ¬ n.Clashes := by
  have differ {p q : List Nat} {m m' : Node} (hp : n.get? p = some m) (hq : n.get? q = some m')
      (apart : p ≠ q) (written : m.id ≠ "") (written' : m'.id ≠ "") : m.id ≠ m'.id := by
    rw [List.Nodup, List.pairwise_filter, pairwise_ids_iff fun a b h hb ha => (h ha hb).symm]
      at distinct
    exact distinct p q m m' hp hq apart (decide_eq_true written) (decide_eq_true written')
  rw [List.Nodup, pairwise_ids_iff fun _ _ => Ne.symm]
  constructor
  · rintro apart ⟨p, m, hp, unnamed, written⟩
    obtain ⟨q, m', hq, same⟩ := exists_get?_of_mem_ids written
    have named : m'.id ≠ "" := same ▸ pathOf_ne_empty p
    have elsewhere : p ≠ q := by
      rintro rfl
      cases hp.symm.trans hq
      exact named unnamed
    refine apart p q _ _ (get?_withPathIds.mpr ⟨m, hp, rfl⟩)
      (get?_withPathIds.mpr ⟨m', hq, rfl⟩) elsewhere ?_
    rw [(filled_withPathIdsAt _ m).id, (filled_withPathIdsAt _ m').id, if_pos unnamed,
      if_neg named, same]
  · intro free p q _ _ filled filled' apart same
    obtain ⟨m, hp, rfl⟩ := get?_withPathIds.mp filled
    obtain ⟨m', hq, rfl⟩ := get?_withPathIds.mp filled'
    rw [(filled_withPathIdsAt _ m).id, (filled_withPathIdsAt _ m').id] at same
    -- each of the two identities is a path, or it was written
    by_cases first : m.id = "" <;> by_cases second : m'.id = ""
    · rw [if_pos first, if_pos second] at same
      exact apart (pathOf_injective same)
    · rw [if_pos first, if_neg second] at same
      exact free ⟨p, m, hp, first, same ▸ mem_ids_of_get? hq⟩
    · rw [if_neg first, if_pos second] at same
      exact free ⟨q, m', hq, second, same ▸ mem_ids_of_get? hp⟩
    · rw [if_neg first, if_neg second] at same
      exact differ hp hq apart first second same

end ServerUi.Node
