import ServerUi.Proofs.Dispatch.Steps
import ServerUi.Proofs.Node.Identities
import ServerUi.Session

/-! # What is shown is what acts

A session looks at nodes and a user at elements.  In a tree without repeated identities the element
that a user finds is that of the node that the session finds (`find?_element`), although elements
lack the children of nodes that are no stacks.  So what an event does can be read off the element:
its action, whether it can be pressed, and the key that its edits go to.
-/

namespace ServerUi

/-! ## Elements and their nodes -/

theorem Element.find?_eq (e : Element) (wanted : String) :
    e.find? wanted = if e.id = wanted then some e else findIn wanted e.children := by
  cases e <;> rfl

namespace Render

variable {store : Option Store}

theorem id_element (n : Node) : (element store n).id = n.id := by
  obtain ⟨id, kind, props, style, action, state, children⟩ := n
  rw [element]
  split <;> rfl

/-- Only stacks show their children. -/
theorem children_element (n : Node) :
    (element store n).children =
      if (axis? n.kind).isSome then elementsAmong store n.children? else [] := by
  obtain ⟨id, kind, props, style, action, state, children⟩ := n
  rw [element, Node.kind, Node.children?]
  cases axis? kind <;> rfl

mutual
/-- **The element found is that of the node found.** -/
theorem find?_element : ∀ {n : Node} {wanted : String} {e : Element}, n.ids.Nodup →
    (element store n).find? wanted = some e →
      ∃ m, n.find? wanted = some m ∧ e = element store m
  | .mk id kind props style action state children, wanted, e, distinct, found => by
    rw [Element.find?_eq, id_element, children_element] at found
    rw [Node.find?]
    by_cases same : id = wanted
    · rw [Node.id, if_pos same] at found
      cases found
      exact ⟨_, if_pos same, rfl⟩
    · rw [Node.id, if_neg same] at found
      rw [if_neg same]
      split at found
      · exact find?_elementsAmong (List.nodup_cons.mp distinct).2 found
      · cases found
theorem find?_elementsAmong : ∀ {children : Option (List Node)} {wanted : String} {e : Element},
    (Node.idsAmong children).Nodup →
    Element.findIn wanted (elementsAmong store children) = some e →
      ∃ m, Node.findAmong wanted children = some m ∧ e = element store m
  | none, _, _, _, found => by cases found
  | some cs, wanted, e, distinct, found => by
    rw [Node.findAmong]
    exact @find?_elements cs wanted e distinct found
theorem find?_elements : ∀ {cs : List Node} {wanted : String} {e : Element},
    (Node.idsIn cs).Nodup → Element.findIn wanted (elements store cs) = some e →
      ∃ m, Node.findIn wanted cs = some m ∧ e = element store m
  | [], _, _, _, found => by cases found
  | n :: rest, wanted, e, distinct, found => by
    rw [Node.idsIn, List.nodup_append] at distinct
    obtain ⟨first, others, apart⟩ := distinct
    rw [elements, Element.findIn, Option.or_eq_some_iff] at found
    rw [Node.findIn]
    rcases found with found | ⟨-, found⟩
    · obtain ⟨m, hm, rfl⟩ := find?_element first found
      exact ⟨m, by rw [hm]; rfl, rfl⟩
    · obtain ⟨m, hm, rfl⟩ := find?_elements others found
      -- the first tree may hide nodes that have no element, but not one of this identity
      have later : wanted ∈ Node.idsIn rest := by
        rw [← Node.isSome_findIn_iff, hm]
        rfl
      have hidden : n.find? wanted = none :=
        Node.find?_eq_none fun h => apart wanted h wanted later rfl
      exact ⟨m, by rw [hidden, hm]; rfl, rfl⟩
end

/-- Null counts as absent for a display, and as no truth value for a session; both fall back to the
default. -/
theorem truth?_eq (props : Table Value) (key : String) :
    truth? store props key = ((props.find? key).map (·.resolve store)).bind (·.bool?) := by
  unfold truth? prop?
  cases (props.find? key).map (·.resolve store) with
  | none => rfl
  | some v => cases v <;> rfl

end Render

namespace Session

/-! ## What an element promises -/

/-- The session with an action dispatched, if there is one, and as it is otherwise. -/
def acting (s : Session) : Option ActionSpec → Session × Outcome × List Call
  | some a =>
    let t := s.dispatcher.dispatch a s.store
    (s.after t, t.outcome, t.calls)
  | none => (s, .empty, [])

/-- A value is written to a key, if there are a key and a store. -/
def entering (s : Session) (binding : Option String) (v : Value) : Trace :=
  match binding, s.store with
  | some key, some store => s.dispatcher.write store key v
  | _, _ => .start s.store

/-- The session with a value written to a key, and behind that an action dispatched. -/
def editing (s : Session) (binding : Option String) (v : Value) (action : Option ActionSpec) :
    Session × Outcome × List Call :=
  let first := s.entering binding v
  let second := action.elim (.start first.store) (s.dispatcher.dispatch · first.store)
  let t := Dispatcher.followedBy first second
  (s.after t, t.outcome, t.calls)

/-- The events for an identity do what the element found under it shows, for the node found. -/
def Honours (s : Session) (id : String) (n : Node) : Element → Prop
  | .leaf _ (.button b) =>
    s.handle (.tap id) = s.acting (if b.enabled ∧ ¬ b.loading then b.action else none)
  | .leaf _ (.textField f) =>
    ∀ text, s.handle (.textChanged id text) = s.editing f.binding (.string text) n.action?
  | .leaf _ (.picker p) =>
    ∀ value, s.handle (.pickerSelected id value) = s.editing p.binding (.string value) n.action?
  | .leaf _ (.imageUploader u) =>
    ∀ url, s.handle (.imagePicked id url) = s.editing u.binding (.string url) n.action?
  | _ => True

theorem isActive_eq (s : Session) (n : Node) :
    s.isActive n = (Render.isEnabled s.store n.props && !Render.isLoading s.store n.props) := by
  simp only [isActive, flag, Render.isEnabled, Render.isLoading, Render.truth?_eq]

theorem raise_eq (s : Session) (n : Node) (store : Option Store) :
    s.raise n store = n.action?.elim (.start store) (s.dispatcher.dispatch · store) := by
  unfold raise
  cases n.action? <;> rfl

theorem handle_eq {s : Session} {n : Node} {event : UiEvent}
    (found : s.tree.find? event.target = some n) :
    s.handle event =
      (s.after (s.react n event), (s.react n event).outcome, (s.react n event).calls) := by
  rw [handle, found]

/-- An edit goes to the key that the property refers to. -/
theorem handle_edit {s : Session} {n : Node} {event : UiEvent} {key : String} {v : Value}
    (found : s.tree.find? event.target = some n) (edits : s.react n event = s.edit n key v) :
    s.handle event = s.editing (Render.binding? n.props key) v n.action? := by
  rw [handle_eq found, edits]
  simp only [edit, editing, raise_eq]
  rfl

/-- A button acts if it is shown as enabled and not as loading. -/
theorem handle_tap {s : Session} {n : Node} {id : String} (found : s.tree.find? id = some n)
    (button : n.kind = .button) :
    s.handle (.tap id) = s.acting (if Render.isEnabled s.store n.props = true ∧
      ¬ Render.isLoading s.store n.props = true then n.action? else none) := by
  have target : s.tree.find? (UiEvent.tap id).target = some n := found
  have shown : s.isActive n = true ↔
      Render.isEnabled s.store n.props = true ∧ ¬ Render.isLoading s.store n.props = true := by
    rw [isActive_eq, Bool.and_eq_true, Bool.not_eq_true, Bool.not_eq_true']
  rw [handle_eq target]
  by_cases active : s.isActive n = true
  · have pressed : s.react n (.tap id) = s.raise n s.store := by
      rw [react, if_neg fun h => h.2 active]
    rw [if_pos (shown.mp active), pressed, raise_eq]
    cases n.action? <;> rfl
  · have ignored : s.react n (.tap id) = .start s.store := by
      rw [react, if_pos ⟨button, active⟩]
    rw [if_neg (mt shown.mpr active), ignored]
    rfl

/-- What is done to a node that is found is what its element shows. -/
theorem honours_element {s : Session} {id : String} {n : Node}
    (found : s.tree.find? id = some n) : s.Honours id n (Render.element s.store n) := by
  obtain ⟨own, kind, props, style, action, state, children⟩ := n
  rw [Render.element]
  cases kind with
  | vStack => trivial
  | hStack => trivial
  | text => trivial
  | image => trivial
  | icon => trivial
  | spacer => trivial
  | unknown tag => trivial
  | button => exact handle_tap found rfl
  | textField =>
    intro text
    have target : s.tree.find? (UiEvent.textChanged id text).target = some _ := found
    exact handle_edit target rfl
  | picker =>
    intro value
    have target : s.tree.find? (UiEvent.pickerSelected id value).target = some _ := found
    exact handle_edit target rfl
  | imageUploader =>
    intro url
    have target : s.tree.find? (UiEvent.imagePicked id url).target = some _ := found
    exact handle_edit target rfl

/-- **What is shown is what acts.**  Let the identities in the tree of a session differ, and let an
element be found under one of them in what the session displays.  Then the session finds a node
under the same identity, and the element is that node as displayed with the present store.  A tap on
a button that is enabled and not loading dispatches the action of the element, if it has one, and
every other tap on it leaves the session alone.  An edit of a field is written to the key to which
the element is bound, if there are a key and a store, and to no other; then the action of the node
is dispatched. -/
theorem shown_is_what_acts (s : Session) (distinct : s.tree.ids.Nodup) {id : String} {e : Element}
    (shown : s.render.2.find? id = some e) :
    ∃ n, s.tree.find? id = some n ∧ e = Render.element s.store n ∧ s.Honours id n e := by
  obtain ⟨n, found, rfl⟩ := Render.find?_element distinct shown
  exact ⟨n, found, rfl, honours_element found⟩

/-- A field that is bound to `name` and raises an action. -/
def formField : Node :=
  ((Node.bare "name" .textField).withProp "text" (.string "@state:name")).withAction
    (.stateUpdate "busy" (.bool true))

/-- A form with a field, and with a node that is hidden because texts do not show children. -/
def formTree : Node :=
  (((Node.bare "form" .vStack).withState
    (((∅ : StateBlock).bind (.plain "name" .string)).bind (.plain "busy" .boolean))).withChild
      ((Node.bare "hint" .text).withChild (Node.bare "inner" .spacer))).withChild formField

/-- The form on display, with nobody to call. -/
def formSession : Session := start formTree ⟨.none, 8, 0⟩

theorem form_acts : formSession.tree.ids.Nodup ∧
    formSession.render.2.find? "name" = some (Render.element formSession.store formField) ∧
    ∀ text, formSession.handle (.textChanged "name" text) =
      formSession.editing (some "name") (.string text)
        (some (.stateUpdate "busy" (.bool true))) := by
  have distinct : formSession.tree.ids.Nodup := by decide +kernel
  have tree : formSession.tree = formTree := rfl
  have shown : formSession.render.2.find? "name" =
      some (Render.element formSession.store formField) := by
    show (Render.element formSession.store formSession.tree).find? "name" = _
    rw [tree, formTree]
    generalize formSession.store = store
    cbv
  obtain ⟨n, found, -, honoured⟩ := @shown_is_what_acts formSession distinct "name" _ shown
  have node : formTree.find? "name" = some formField := by cbv
  rw [tree, node] at found
  cases found
  exact ⟨distinct, shown, honoured⟩

end Session

end ServerUi
