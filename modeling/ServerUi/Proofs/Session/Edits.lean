import ServerUi.Proofs.Dispatch.Copying
import ServerUi.Proofs.Session.Acting
import ServerUi.Proofs.Session.Typing

/-! # Edits are shown back

An input that is bound to a key of the state shows the value of that key, and what a user enters is
written there.  So what is entered is what is shown next (`edit_shown_back`), as far as the kind of
the binding admits it.  That holds for every text, since the text is written as it is, and a display
resolves the reference of the input and nothing behind it: a text that reads as a reference stays
that text.
-/

namespace ServerUi

/-! ## Nodes on display -/

namespace Node

/-- The node has an element in the display of the tree: there is a way to it through stacks. -/
inductive Shows : Node → Node → Prop where
  | self (n : Node) : Shows n n
  | under {stack child n : Node} (shows : (Render.axis? stack.kind).isSome = true)
      (mem : child ∈ stack.children) (rest : Shows child n) : Shows stack n

theorem Shows.mem_ids {n m : Node} (h : n.Shows m) : m.id ∈ n.ids := by
  induction h with
  | self n =>
    cases n
    exact List.mem_cons_self
  | under _ mem _ ih =>
    obtain ⟨cs, -, mem, ids⟩ := ids_of_mem mem
    rw [ids, idsIn_eq]
    exact List.mem_cons_of_mem _ (List.mem_flatMap.mpr ⟨_, mem, ih⟩)

/-- In a tree without repeated identities, a way through stacks goes to a node with an identity of
its own, in a subtree without repeated identities. -/
theorem Shows.apart {stack child n : Node} (distinct : stack.ids.Nodup)
    (mem : child ∈ stack.children) (rest : child.Shows n) :
    ∃ cs, stack.children? = some cs ∧ child ∈ cs ∧ (idsIn cs).Nodup ∧ child.ids.Nodup ∧
      stack.id ≠ n.id := by
  obtain ⟨cs, children, mem, ids⟩ := ids_of_mem mem
  rw [ids, List.nodup_cons] at distinct
  obtain ⟨fresh, distinct⟩ := distinct
  refine ⟨cs, children, mem, distinct, ?_, ?_⟩
  · rw [idsIn_eq] at distinct
    exact (List.nodup_flatMap.mp distinct).1 child mem
  · intro same
    rw [idsIn_eq] at fresh
    exact fresh (List.mem_flatMap.mpr ⟨child, mem, same ▸ rest.mem_ids⟩)

theorem Shows.find? {n m : Node} (h : n.Shows m) (distinct : n.ids.Nodup) :
    n.find? m.id = some m := by
  induction h with
  | self n => rw [find?_eq, if_pos rfl]
  | under _ mem rest ih =>
    obtain ⟨cs, children, mem, among, inner, other⟩ := Shows.apart distinct mem rest
    rw [find?_eq, if_neg other, children, findAmong]
    exact findIn_of_mem among mem (ih inner)

end Node

namespace Render

variable {store : Option Store}

/-- An element under an identity would stand for a node under it. -/
theorem find?_element_eq_none {n : Node} {wanted : String} (distinct : n.ids.Nodup)
    (absent : wanted ∉ n.ids) : (element store n).find? wanted = none := by
  refine Option.eq_none_iff_forall_ne_some.mpr fun e found => absent ?_
  obtain ⟨m, hm, -⟩ := find?_element distinct found
  rw [← Node.isSome_find?_iff, hm]
  rfl

theorem findIn_elements_of_mem {cs : List Node} {child : Node} {wanted : String} {e : Element}
    (distinct : (Node.idsIn cs).Nodup) (mem : child ∈ cs)
    (found : (element store child).find? wanted = some e) :
    Element.findIn wanted (elements store cs) = some e := by
  induction cs with
  | nil => cases mem
  | cons n rest ih =>
    rw [Node.idsIn, List.nodup_append] at distinct
    obtain ⟨first, others, apart⟩ := distinct
    rw [elements, Element.findIn]
    rcases List.mem_cons.mp mem with rfl | mem
    · rw [found]
      rfl
    · have behind := ih others mem
      obtain ⟨m, hm, -⟩ := find?_elements others behind
      have later : wanted ∈ Node.idsIn rest := by
        rw [← Node.isSome_findIn_iff, hm]
        rfl
      rw [find?_element_eq_none first fun h => apart wanted h wanted later rfl, behind]
      rfl

/-- **Nodes behind stacks are displayed.** In a tree without repeated identities, a node that is
reached through stacks is found in the display by its own element. -/
theorem find?_of_shows {n m : Node} (h : n.Shows m) (distinct : n.ids.Nodup) :
    (element store n).find? m.id = some (element store m) := by
  induction h with
  | self n => rw [Element.find?_eq, id_element, if_pos rfl]
  | under shows mem rest ih =>
    obtain ⟨cs, children, mem, among, inner, other⟩ := Node.Shows.apart distinct mem rest
    rw [Element.find?_eq, id_element, if_neg other, children_element, if_pos shows, children,
      elementsAmong]
    exact findIn_elements_of_mem among mem (ih inner)

/-- A property that refers to a key is shown as the value of the key. -/
theorem text?_of_refers {props : Table Value} {property key : String} {store : Store} {v : Value}
    (refers : props.find? property = some (.string (stateMark ++ key)))
    (held : store.get? key = some v) (solid : v.isNull = false) :
    text? (some store) props property = some v.display := by
  have resolved : (Value.string (stateMark ++ key)).resolve (some store) = v := by
    rw [Value.resolve, Value.stateKey?_mark]
    show (store.get? key).getD _ = v
    rw [held]
    rfl
  rw [text?, prop?, refers, Option.map_some, resolved, Option.filter_some, solid]
  rfl

end Render

/-! ## Inputs -/

/-- The kinds of node that a user edits. -/
inductive Input where
  | textField
  | picker
  | imageUploader

namespace Input

def kind : Input → NodeKind
  | textField => .textField
  | picker => .picker
  | imageUploader => .imageUploader

def property : Input → String
  | textField => "text"
  | picker => "selectedValue"
  | imageUploader => "imageUrl"

def event (id text : String) : Input → UiEvent
  | textField => .textChanged id text
  | picker => .pickerSelected id text
  | imageUploader => .imagePicked id text

/-- What an element of this kind shows of what is edited. -/
def shown? : Input → Element → Option String
  | textField, .leaf _ (.textField f) => some f.text
  | picker, .leaf _ (.picker p) => some p.selectedValue
  | imageUploader, .leaf _ (.imageUploader u) => u.imageUrl
  | _, _ => none

/-- The node is an input on display in the tree.  It shows a plain key of the state that nobody
watches, and it raises no action. -/
structure ShowsKey (i : Input) (tree n : Node) (key : String) (b : Binding) : Prop where
  shows : tree.Shows n
  kind : n.kind = i.kind
  refers : n.props.find? i.property = some (.string (stateMark ++ key))
  silent : n.action? = none
  declared : ∃ block, tree.state = some block ∧ block.bindings.find? key = some b ∧
    block.watchers.filter (·.key == key) = []
  plain : b.source? = none

theorem target_event (i : Input) (id text : String) : (i.event id text).target = id := by
  cases i <;> rfl

theorem react_event (s : Session) (n : Node) (i : Input) (id text : String) :
    s.react n (i.event id text) = s.edit n i.property (.string text) := by
  cases i <;> rfl

theorem shown?_element {store : Option Store} {n : Node} {i : Input} {text : String}
    (kind : n.kind = i.kind) (shows : Render.text? store n.props i.property = some text) :
    i.shown? (Render.element store n) = some text := by
  obtain ⟨id, nodeKind, props, style, action, state, children⟩ := n
  obtain rfl : nodeKind = i.kind := kind
  cases i with
  | textField => exact congrArg (fun t => some (t.getD "")) shows
  | picker => exact congrArg (fun t => some (t.getD "")) shows
  | imageUploader => exact shows

end Input

namespace Session

/-- An edit of an input leaves the tree as it is, and writes the text to the key of the input. -/
theorem handle_of_showsKey {s : Session} {store : Store} {block : StateBlock} {i : Input} {n : Node}
    {key : String} {b : Binding} (distinct : s.tree.ids.Nodup) (held : s.store = some store)
    (typed : store.Typed block) (declared : s.tree.state = some block)
    (h : i.ShowsKey s.tree n key b) (text : String) :
    (s.handle (i.event n.id text)).1.tree = s.tree ∧
      (s.handle (i.event n.id text)).1.store = some (store.write key (.string text)).1 := by
  obtain ⟨block', declared', bound, unwatched⟩ := h.declared
  obtain rfl : block' = block := Option.some.inj (declared'.symm.trans declared)
  have target : s.tree.find? (i.event n.id text).target = some n := by
    rw [i.target_event]
    exact h.shows.find? distinct
  have binding : Render.binding? n.props i.property = some key := by
    rw [Render.binding?, h.refers]
    exact Value.stateKey?_mark key
  have written :=
    s.dispatcher.write_of_unwatched typed.schema bound h.plain unwatched (.string text)
  have entered : s.entering (some key) (.string text) =
      s.dispatcher.write store key (.string text) := by
    unfold entering
    rw [held]
  rw [handle_edit target (i.react_event s n n.id text), binding, h.silent, editing, entered,
    written]
  exact ⟨rfl, rfl⟩

/-- **Edits are shown back.** Take a session after any uses, in whose tree the identities differ,
and an input on display that shows a plain key which nobody watches, and raises no action.  After an
edit, whatever the text, the element under the identity of the input shows the text as the kind of
the binding takes it; and a binding of texts takes every text as it is. -/
theorem edit_shown_back (tree : Node) (d : Dispatcher) (uses : List Use) {i : Input} {n : Node}
    {key : String} {b : Binding} :
    let s := ((View.start tree d).after uses).session
    s.tree.ids.Nodup → i.ShowsKey s.tree n key b → ∀ text,
      ((s.handle (i.event n.id text)).1.render.2.find? n.id).bind i.shown? =
          some (b.kind.coerce (.string text)).display ∧
        (b.kind = .string → (b.kind.coerce (.string text)).display = text) := by
  intro s distinct h text
  obtain ⟨block, declared, bound, -⟩ := h.declared
  obtain ⟨store, held, typed⟩ := View.furnished_after tree d uses block declared
  obtain ⟨sameTree, written⟩ := handle_of_showsKey distinct held typed declared h text
  obtain ⟨-, stored⟩ := Store.write_plain typed.schema bound h.plain (.string text)
  have solid := BindingKind.isNull_of_admits (b.kind.admits_coerce (.string text))
  constructor
  · -- the same tree is displayed with the store after the write, and the node is still on display
    show ((Render.element _ _).find? n.id).bind i.shown? = _
    rw [sameTree, written, Render.find?_of_shows h.shows distinct, Option.bind_some]
    exact Input.shown?_element h.kind (Render.text?_of_refers h.refers stored solid)
  · intro texts
    rw [texts]
    rfl

def nameField : Node := (Node.bare "name" .textField).withProp "text" (.string "@state:name")

def agePicker : Node := (Node.bare "age" .picker).withProp "selectedValue" (.string "@state:age")

/-- A survey with a field in a row of its own and a choice. -/
def survey : Node :=
  (((Node.bare "survey" .vStack).withState
    (((∅ : StateBlock).bind (.plain "name" .string)).bind (.plain "age" .number))).withChild
      ((Node.bare "row" .hStack).withChild nameField)).withChild agePicker

/-- A name that reads as a reference is shown as it was entered, and an age as a number. -/
theorem survey_shows_edits :
    let s := ((View.start survey ⟨.none, 8, 0⟩).after
      [.render, .handle (.pickerSelected "age" "41")]).session
    ((s.handle (.textChanged "name" "@state:age")).1.render.2.find? "name").bind
        Input.textField.shown? = some "@state:age" ∧
      ((s.handle (.pickerSelected "age" " 07 ")).1.render.2.find? "age").bind
        Input.picker.shown? = some "7" := by
  intro s
  have tree : s.tree = survey := rfl
  have distinct : s.tree.ids.Nodup := by
    rw [tree]
    decide +kernel
  have block : survey.state = some
      (((∅ : StateBlock).bind (.plain "name" .string)).bind (.plain "age" .number)) := rfl
  have name : Input.textField.ShowsKey s.tree nameField "name" (.plain "name" .string) := by
    rw [tree]
    refine ⟨?_, rfl, rfl, rfl, ⟨_, block, rfl, rfl⟩, rfl⟩
    have row : ((Node.bare "row" .hStack).withChild nameField).Shows nameField :=
      .under rfl List.mem_cons_self (.self _)
    exact .under rfl List.mem_cons_self row
  have age : Input.picker.ShowsKey s.tree agePicker "age" (.plain "age" .number) := by
    rw [tree]
    refine ⟨?_, rfl, rfl, rfl, ⟨_, block, rfl, rfl⟩, rfl⟩
    exact .under rfl (List.mem_cons_of_mem _ List.mem_cons_self) (.self _)
  have shown := edit_shown_back survey ⟨.none, 8, 0⟩ [.render, .handle (.pickerSelected "age" "41")]
    distinct name "@state:age"
  have chosen := edit_shown_back survey ⟨.none, 8, 0⟩
    [.render, .handle (.pickerSelected "age" "41")] distinct age " 07 "
  have seven : (BindingKind.number.coerce (.string " 07 ")).display = "7" := by decide +kernel
  exact ⟨shown.1.trans (congrArg some (shown.2 rfl)), chosen.1.trans (congrArg some seven)⟩

end Session

end ServerUi
