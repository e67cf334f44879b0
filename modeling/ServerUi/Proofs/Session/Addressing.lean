import ServerUi.Proofs.Node.Paths
import ServerUi.Proofs.Session.Acting

/-! # Addressing nodes

A session displays a tree in which every empty identity is filled with a path, so that events can
name every node.  They do, if the identities that were written differ and none of them is itself
the path of a node without one (`every_node_addressed`).  A path that was written is taken by the
node at its position (`path_taken`).
-/

namespace ServerUi.Session

/-- An event for an identity is taken by this node. -/
def Addresses (s : Session) (id : String) (m : Node) : Prop :=
  ∀ e : UiEvent, e.target = id →
    s.handle e = (s.after (s.react m e), (s.react m e).outcome, (s.react m e).calls)

theorem addresses_of_find? {s : Session} {id : String} {m : Node}
    (found : s.tree.find? id = some m) : s.Addresses id m := by
  rintro e rfl
  exact handle_eq found

/-- **Every node can be addressed.**  Let the identities that were written in a tree differ.  Once
the empty ones are filled, all identities differ exactly if none that was written is the path of a
node without one.  Then every node, wherever it stands, is found under its identity, and an event
for this identity is taken by the node, in every session that displays the tree. -/
theorem every_node_addressed (n : Node) (distinct : (n.ids.filter (· ≠ "")).Nodup) :
    (n.withPathIds.ids.Nodup ↔ ¬ n.Clashes) ∧
    (¬ n.Clashes → ∀ position m, n.withPathIds.get? position = some m →
      n.withPathIds.find? m.id = some m ∧
      ∀ s : Session, s.tree = n.withPathIds → s.Addresses m.id m) := by
  have unique := Node.nodup_withPathIds_iff distinct
  refine ⟨unique, fun free position m there => ?_⟩
  have found := Node.find?_of_nodup (unique.mpr free) there
  exact ⟨found, fun s displayed => addresses_of_find? (displayed ▸ found)⟩

/-- A text with a name, and a row without one that holds a field. -/
def tabTree : Node :=
  ((Node.bare "" .vStack).withChild (.bare "title" .text)).withChild
    ((Node.bare "" .hStack).withChild (.bare "" .textField))

/-- The field is found under its path, and takes its events. -/
theorem tab_addressed :
    (tabTree.ids.filter (· ≠ "")).Nodup ∧ ¬ tabTree.Clashes ∧
      tabTree.withPathIds.find? "root.1.0" = some (.bare "root.1.0" .textField) ∧
      ∀ d, (start tabTree d).Addresses "root.1.0" (.bare "root.1.0" .textField) := by
  have distinct : (tabTree.ids.filter (· ≠ "")).Nodup := by decide
  obtain ⟨unique, addressed⟩ := every_node_addressed tabTree distinct
  have free : ¬ tabTree.Clashes := unique.mp (by decide)
  have field : tabTree.withPathIds.get? [1, 0] = some (.bare "root.1.0" .textField) := by cbv
  obtain ⟨found, taken⟩ := addressed free [1, 0] _ field
  exact ⟨distinct, free, found, fun d => taken (start tabTree d) rfl⟩

/-- A spacer without a name, and behind it a button that is named like the spacer's path. -/
def rivalTree : Node :=
  ((Node.bare "" .text).withChild (.bare "" .spacer)).withChild
    ((Node.bare "root.0" .button).withAction
      ((ActionSpec.ofKind "onClick" .share).withValue "text" (.string "named")))

/-- The spacer takes the identity of the button, which no event reaches: a tap shares nothing. -/
theorem path_taken :
    let d : Dispatcher := ⟨⟨true, true, none, none⟩, 8, 0⟩
    (rivalTree.ids.filter (· ≠ "")).Nodup ∧ ¬ rivalTree.withPathIds.ids.Nodup ∧
      (rivalTree.withPathIds.get? [1]).map Node.id = some "root.0" ∧
      (rivalTree.withPathIds.get? [1]).map Node.kind = some .button ∧
      (rivalTree.withPathIds.find? "root.0").map Node.kind = some .spacer ∧
      ((start rivalTree d).handle (.tap "root.0")).2.1.effects.length = 0 := by
  decide +kernel

end ServerUi.Session
