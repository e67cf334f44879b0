import ServerUi.Proofs.Dispatch.Typing
import ServerUi.Proofs.Session.Revision

/-! # The store of a session fits its tree

A session has a store exactly if its tree declares a state block, and then it is a store of that
block, whatever was done to the session: events, replies and cascades only write to the store, and a
new tree comes with a store of its own.
-/

namespace ServerUi.Session

/-- There is a store if the tree declares a block, and only then, and it keeps to the types of the
block. -/
def Housed (s : Session) : Prop := Option.Rel Store.Typed s.tree.state s.store

variable {s : Session}

theorem housed_of_new (new : s.store = s.tree.state.map Store.ofBlock) : s.Housed := by
  unfold Housed
  rw [new]
  cases s.tree.state with
  | none => exact .none
  | some block => exact .some (Store.typed_ofBlock block)

theorem tracks_housed : Tracks fun s s' _ => s.Housed → s'.Housed where
  refl := fun _ housed => housed
  trans := fun first second housed => second (first housed)
  after := fun steps housed => steps.belongs housed

namespace View

theorem housed_step {v : View} (h : v.session.Housed) (u : Use) : (v.step u).session.Housed := by
  cases u with
  | handle e => exact tracks_housed.handle v.session e h
  | receive r => exact h
  | pump => exact tracks_housed.pump v.session h
  | replaceTree tree => exact housed_of_new rfl
  | render => exact h

/-- **Sessions stay housed.** After any uses of a session, it has a store exactly if its tree
declares a block, and that is a store of the block. -/
theorem housed_after (tree : Node) (d : Dispatcher) (uses : List Use) :
    ((start tree d).after uses).session.Housed := by
  have new : (start tree d).session.Housed := housed_of_new rfl
  -- by induction on the uses, from any view of a session that is housed
  generalize start tree d = v at new
  induction uses generalizing v with
  | nil => exact new
  | cons u rest ih => exact ih _ (housed_step new u)

/-- A block that the tree declares has a store. -/
theorem furnished_after (tree : Node) (d : Dispatcher) (uses : List Use) (block : StateBlock)
    (declared : ((start tree d).after uses).session.tree.state = some block) :
    ∃ store, ((start tree d).after uses).session.store = some store ∧ store.Typed block := by
  have housed := housed_after tree d uses
  unfold Housed at housed
  rw [declared] at housed
  generalize ((start tree d).after uses).session.store = store? at housed
  cases housed with
  | some typed => exact ⟨_, rfl, typed⟩

end View

end ServerUi.Session
