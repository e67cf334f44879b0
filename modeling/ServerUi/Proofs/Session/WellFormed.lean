import ServerUi.Proofs.Node.Identities
import ServerUi.Proofs.Session.Typing

/-! # Sessions stay well-formed

A session has a tree, a store, a dispatcher, a generation and a revision, and they belong together:
the dispatcher stamps with the generation of the session, every node of the tree can be named, and
the store is that of the tree (`WellFormed`).  A use moves the generation only by displaying another
tree, hands requests over with the generation that it finds, and never takes the revision back
(`Orderly`).
-/

namespace ServerUi

/-- The store declares what the block declares: it binds the keys of the block, holds a value for
each of them, and computes those that are marked as computed and have an expression. -/
structure Store.Serves (block : StateBlock) (store : Store) : Prop where
  bindings : store.schema.bindings = block.bindings
  keys : store.values.keys = block.bindings.keys
  computed : ∀ key, store.schema.isComputed key = true ↔
    ∃ b, block.bindings.find? key = some b ∧ b.computed = some true ∧ b.formula.isSome = true

theorem Store.Typed.serves {block : StateBlock} {store : Store} (h : store.Typed block) :
    store.Serves block where
  bindings := by
    rw [h.schema]
    rfl
  keys := h.shaped.keys
  computed := by
    intro key
    rw [h.schema, Schema.isComputed_iff]
    simp only [Binding.isSome_source?_iff]

namespace Session

open Dispatcher

/-- The parts of a session belong together. -/
structure WellFormed (s : Session) : Prop where
  stamp : s.dispatcher.generation = s.generation
  named : "" ∉ s.tree.ids
  /-- There is a store exactly if the root declares a block, and it serves that block. -/
  served : Option.Rel Store.Serves s.tree.state s.store

theorem Housed.served {s : Session} (h : s.Housed) :
    Option.Rel Store.Serves s.tree.state s.store := by
  unfold Housed at h
  generalize s.tree.state = block?, s.store = store? at h
  cases h with
  | none => exact .none
  | some typed => exact .some typed.serves

def Use.replaces : Use → Bool
  | .replaceTree _ => true
  | _ => false

namespace View

/-- The calls that a use makes; only events and replies go to the dispatcher. -/
def calls (v : View) : Use → List Call
  | .handle e => (v.session.handle e).2.2
  | .pump => v.session.pump.calls
  | .receive _ | .replaceTree _ | .render => []

/-- What one use does to the counters of a session, and with which generation it hands requests
over. -/
structure Orderly (v : View) (u : Use) : Prop where
  generation : (v.step u).session.generation = v.session.generation + u.replaces.toNat
  stamped : Stamped v.session.generation (v.calls u)
  revision : v.session.revision + u.replaces.toNat ≤ (v.step u).session.revision

/-- The session and its dispatcher are at this generation, and the tree has path identities. -/
structure Numbered (v : View) (n : Nat) : Prop where
  dispatcher : v.session.dispatcher.generation = n
  session : v.session.generation = n
  named : "" ∉ v.session.tree.ids

variable {v : View} {n : Nat}

theorem Numbered.kept (h : v.Numbered n) {s : Session} {calls : List Call} {shown : Option Element}
    (keeps : Keeps v.session s calls) : Numbered ⟨s, shown⟩ n where
  dispatcher := (congrArg Dispatcher.generation keeps.dispatcher).trans h.dispatcher
  session := keeps.generation.trans h.session
  named := by
    show "" ∉ s.tree.ids
    rw [keeps.tree]
    exact h.named

theorem Numbered.step (h : v.Numbered n) (u : Use) :
    (v.step u).Numbered (n + u.replaces.toNat) := by
  cases u with
  | handle e => exact h.kept (tracks_keeps.handle v.session e)
  | receive r => exact ⟨h.dispatcher, h.session, h.named⟩
  | pump =>
    have emptied : Numbered ⟨{ v.session with inbox := [] }, v.shown⟩ n :=
      ⟨h.dispatcher, h.session, h.named⟩
    exact emptied.kept (tracks_keeps.pump v.session)
  | replaceTree tree =>
    have next : v.session.generation + 1 = n + 1 := congrArg (· + 1) h.session
    exact ⟨next, next, Node.given_withPathIds tree⟩
  | render => exact ⟨h.dispatcher, h.session, h.named⟩

theorem numbered_after (tree : Node) (d : Dispatcher) (uses : List Use) :
    ((start tree d).after uses).Numbered (1 + uses.countP Use.replaces) := by
  have new : (start tree d).Numbered 1 := ⟨rfl, rfl, Node.given_withPathIds tree⟩
  -- by induction on the uses, from any view at any generation
  generalize start tree d = v, 1 = n at new
  induction uses generalizing v n with
  | nil => exact new
  | cons u rest ih =>
    have counted : n + (u :: rest).countP Use.replaces =
        n + u.replaces.toNat + rest.countP Use.replaces := by
      rw [List.countP_cons]
      cases u.replaces with
      | true =>
        show n + (rest.countP Use.replaces + 1) = n + 1 + rest.countP Use.replaces
        omega
      | false => rfl
    rw [counted]
    exact ih _ _ (new.step u)

theorem Numbered.orderly (h : v.Numbered n) (u : Use) : v.Orderly u where
  generation := (h.step u).session.trans (congrArg (· + _) h.session.symm)
  stamped := by
    have stamp : v.session.dispatcher.generation = v.session.generation :=
      h.dispatcher.trans h.session.symm
    cases u with
    | handle e => exact stamp ▸ (tracks_keeps.handle v.session e).stamped
    | pump => exact stamp ▸ (tracks_keeps.pump v.session).stamped
    | receive r => exact fun _ none => absurd none List.not_mem_nil
    | replaceTree tree => exact fun _ none => absurd none List.not_mem_nil
    | render => exact fun _ none => absurd none List.not_mem_nil
  revision := by
    cases u with
    | handle e => exact (tracks_advances.handle v.session e).revision
    | pump => exact (advances_pump v.session).revision
    | receive r => exact Nat.le_refl _
    | replaceTree tree => exact Nat.le_refl _
    | render => exact Nat.le_refl _

/-- **Sessions stay well-formed.**  After any uses of a session, for any tree and dispatcher: the
dispatcher and the session are at the same generation, which is one and then one more for each
further tree; no identity in the tree is empty; there is a store exactly if the root of the tree
declares a block, and it binds and computes the keys that this block says.  And whatever is done
next moves the generation only by displaying another tree, hands every request over with the
generation of the session, and does not take the revision back; another tree lets it grow. -/
theorem wellFormed_throughout (tree : Node) (d : Dispatcher) (uses : List Use) :
    let v := (start tree d).after uses
    v.session.WellFormed ∧
      v.session.generation = 1 + uses.countP Use.replaces ∧
      ∀ u, v.Orderly u := by
  intro v
  have numbered := numbered_after tree d uses
  have housed := housed_after tree d uses
  exact ⟨⟨numbered.dispatcher.trans numbered.session.symm, numbered.named, housed.served⟩,
    numbered.session, numbered.orderly⟩

def askTree : Node :=
  ((Node.bare "page" .vStack).withState ((∅ : StateBlock).bind (.plain "price" .number))).withChild
    ((Node.bare "" .button).withAction
      ((ActionSpec.ofKind "onClick" .apiCall).withValue "url" (.string "/price")))

def bareTree : Node := .bare "" .text

/-- A button without an identity asks for a value.  It is pressed under its path, two other trees
follow, and it is pressed again: the session is at its third generation, and the second request says
so. -/
theorem asked_in_third_generation :
    let v := (start askTree ⟨⟨true, false, none, none⟩, 8, 0⟩).after
      [.handle (.tap "root.0"), .replaceTree bareTree, .replaceTree askTree, .render]
    v.session.WellFormed ∧ v.session.generation = 3 ∧
      (v.calls (.handle (.tap "root.0"))).length = 1 ∧
      Stamped 3 (v.calls (.handle (.tap "root.0"))) ∧
      v.session.revision < (v.step (.replaceTree bareTree)).session.revision := by
  intro v
  obtain ⟨wellFormed, generation, orderly⟩ := wellFormed_throughout askTree
    ⟨⟨true, false, none, none⟩, 8, 0⟩
    [.handle (.tap "root.0"), .replaceTree bareTree, .replaceTree askTree, .render]
  have third : v.session.generation = 3 := generation
  have asked : (v.calls (.handle (.tap "root.0"))).length = 1 := by decide +kernel
  exact ⟨wellFormed, third, asked, third ▸ (orderly (.handle (.tap "root.0"))).stamped,
    (orderly (.replaceTree bareTree)).revision⟩

end View

end Session

end ServerUi
