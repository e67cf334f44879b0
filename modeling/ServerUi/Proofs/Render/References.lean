import Mathlib.Data.List.Basic
import Mathlib.Data.Option.Basic
import ServerUi.Proofs.Node.Positions
import ServerUi.Proofs.State.References
import ServerUi.Render

/-! # What a tree shows depends on

A tree refers to the keys that stand behind the mark of a reference in the properties of its nodes.
Rendering looks at a store through properties only, and resolves a property as it stands and not
inside.  So stores that agree on the keys referred to show the same, whatever else they hold, and a
tree without references shows the same with any store and with none.
-/

namespace ServerUi

namespace Node

/-! ## The keys that a tree refers to -/

/-- Some node of the tree has a property that refers to the key. -/
def RefersTo (n : Node) (k : String) : Prop :=
  ∃ position m key, n.get? position = some m ∧
    m.props.find? key = some (.string (stateMark ++ k))

mutual
/-- The keys that the properties in a tree refer to, in order and with repetitions. -/
def references : Node → List String
  | mk _ _ props _ _ _ children =>
    props.entries.filterMap (·.2.stateKey?) ++ referencesAmong children
def referencesAmong : Option (List Node) → List String
  | none => []
  | some cs => referencesIn cs
def referencesIn : List Node → List String
  | [] => []
  | n :: rest => references n ++ referencesIn rest
end

theorem referencesIn_eq (cs : List Node) : referencesIn cs = cs.flatMap references := by
  induction cs with
  | nil => rfl
  | cons n rest ih => rw [referencesIn, ih, List.flatMap_cons]

theorem references_eq (n : Node) : n.references =
    n.props.entries.filterMap (·.2.stateKey?) ++ n.children.flatMap references := by
  obtain ⟨id, kind, props, style, action, state, children⟩ := n
  cases children with
  | none => rfl
  | some cs => exact congrArg (_ ++ ·) (referencesIn_eq cs)

theorem RefersTo.child {n c : Node} {k : String} (h : c.RefersTo k) (child : c ∈ n.children) :
    n.RefersTo k := by
  obtain ⟨position, m, key, there, held⟩ := h
  obtain ⟨i, index⟩ := List.getElem?_of_mem child
  exact ⟨i :: position, m, key, get?_cons_eq_some.mpr ⟨c, index, there⟩, held⟩

theorem mem_references_iff {n : Node} {k : String} : k ∈ n.references ↔ n.RefersTo k := by
  induction n using children_induction with
  | node n ih =>
    rw [references_eq, List.mem_append, List.mem_filterMap, List.mem_flatMap]
    constructor
    · rintro (⟨⟨key, v⟩, entry, named⟩ | ⟨c, child, below⟩)
      · refine ⟨[], n, key, rfl, ?_⟩
        rw [(Table.find?_eq_some_iff _).mpr entry]
        cases v with
        | string s => rw [Value.stateKey?_eq_some_iff.mp named]
        | _ => cases named
      · exact ((ih c child).mp below).child child
    · rintro ⟨position, m, key, there, held⟩
      cases position with
      | nil =>
        cases there
        exact .inl ⟨_, (Table.find?_eq_some_iff _).mp held, Value.stateKey?_mark k⟩
      | cons i rest =>
        obtain ⟨c, index, there⟩ := get?_cons_eq_some.mp there
        have child := List.mem_of_getElem? index
        exact .inr ⟨c, child, (ih c child).mpr ⟨rest, m, key, there, held⟩⟩

end Node

namespace Render

/-- The value of a key, if there is a store and it holds the key. -/
def held? (store : Option Store) (k : String) : Option Value := store.bind (·.get? k)

variable {σ τ : Option Store}

/-! ## Readers of properties -/

theorem resolve_congr {v : Value} (agree : ∀ k, v.stateKey? = some k → held? σ k = held? τ k) :
    v.resolve σ = v.resolve τ := by
  unfold Value.resolve
  cases named : v.stateKey? with
  | none => rfl
  | some k => exact congrArg (·.getD v) (agree k named)

/-- Every reader of a property goes through the resolved value. -/
theorem leaf_congr {props : Table Value} (same : prop? σ props = prop? τ props) (kind : NodeKind)
    (action : Option ActionSpec) : leaf σ props kind action = leaf τ props kind action := by
  have text : text? σ props = text? τ props := by
    funext key
    rw [text?, text?, same]
  have number : number? σ props = number? τ props := by
    funext key
    rw [number?, number?, same]
  have truth : truth? σ props = truth? τ props := by
    funext key
    rw [truth?, truth?, same]
  cases kind with
  | button => simp only [leaf, button, isEnabled, isLoading, text, truth]
  | textField => simp only [leaf, textField, text, truth]
  | icon => simp only [leaf, text, number]
  | picker => simp only [leaf, picker, text, same]
  | imageUploader => simp only [leaf, imageUploader, text, same]
  | spacer => simp only [leaf, number]
  | text | image => simp only [leaf, text]
  | vStack | hStack | unknown tag => rfl

theorem elements_congr {cs : List Node} (same : ∀ c ∈ cs, element σ c = element τ c) :
    elements σ cs = elements τ cs := by
  induction cs with
  | nil => rfl
  | cons n rest ih =>
    obtain ⟨first, others⟩ := List.forall_mem_cons.mp same
    rw [elements, elements, first, ih others]

/-! ## Trees -/

/-- By induction on the tree: the properties of the root resolve alike, and the children refer to
no other keys. -/
theorem element_congr {n : Node} (agree : ∀ k, n.RefersTo k → held? σ k = held? τ k) :
    element σ n = element τ n := by
  induction n using Node.children_induction with
  | node n ih =>
    have below : ∀ c ∈ n.children, element σ c = element τ c :=
      fun c child => ih c child fun k refers => agree k (refers.child child)
    have same : prop? σ n.props = prop? τ n.props := by
      funext key
      unfold prop?
      cases found : n.props.find? key with
      | none => rfl
      | some v =>
        have resolved : v.resolve σ = v.resolve τ := by
          refine resolve_congr fun k named => agree k ⟨[], n, key, rfl, ?_⟩
          cases v with
          | string s => rw [found, Value.stateKey?_eq_some_iff.mp named]
          | _ => cases named
        rw [Option.map_some, Option.map_some, resolved]
    obtain ⟨id, kind, props, style, action, state, children⟩ := n
    rw [element, element]
    cases axis? kind with
    | none => exact congrArg (Element.leaf id) (leaf_congr same kind _)
    | some axis =>
      have spacing : number? σ props "spacing" = number? τ props "spacing" := by
        rw [number?, number?]
        exact congrArg (fun p => (p "spacing").bind (·.float?)) same
      cases children with
      | none => simp only [spacing, elementsAmong]
      | some cs =>
        have shown : elements σ cs = elements τ cs := elements_congr below
        simp only [spacing, elementsAmong, shown]

/-- **A tree shows what it refers to.**  Any two stores, or no store, that hold the same under every
key to which a property of a node in the tree refers, show the same elements.  A tree without such
a property shows the same elements with any store as with none. -/
theorem shown_by_references (n : Node) :
    (∀ σ τ : Option Store, (∀ k, n.RefersTo k → held? σ k = held? τ k) →
      element σ n = element τ n) ∧
    ((∀ k, ¬ n.RefersTo k) → ∀ store : Option Store, element store n = element none n) :=
  ⟨fun _ _ => element_congr, fun none _ => element_congr fun k refers => absurd refers (none k)⟩

/-- A picture whose style names a key of the state, which is not resolved there. -/
def portrait : Node :=
  (Node.bare "portrait" .image).withProp "style"
    (.object [("backgroundColor", .string "@state:color")])

/-- A field for the name, and the picture. -/
def profile : Node :=
  ((Node.bare "profile" .vStack).withChild
    ((Node.bare "name" .textField).withProp "text" (.string "@state:name"))).withChild portrait

/-- A name that is given, and a color. -/
def givenProfile : StateBlock :=
  ((∅ : StateBlock).bind ((Binding.plain "name" .string).withDefault (.string "Ada"))).bind
    ((Binding.plain "color" .string).withDefault (.string "red"))

/-- A name that is computed, and nothing else. -/
def computedProfile : StateBlock := (∅ : StateBlock).bind (.computedBy "name" .string "'Ada'")

/-- The profile shows the same with both names, for only one of the stores has a color and no
property is one; and the picture alone needs no store. -/
theorem profile_shown :
    element (some (.ofBlock givenProfile)) profile =
        element (some (.ofBlock computedProfile)) profile ∧
      element (some (.ofBlock givenProfile)) portrait = element none portrait := by
  have keys : profile.references = ["name"] ∧ portrait.references = [] := ⟨rfl, rfl⟩
  refine ⟨(shown_by_references profile).1 _ _ fun k refers => ?_,
    (shown_by_references portrait).2 (fun k refers => ?_) _⟩
  · have named := Node.mem_references_iff.mpr refers
    rw [keys.1, List.mem_singleton] at named
    subst named
    rfl
  · have named := Node.mem_references_iff.mpr refers
    rw [keys.2] at named
    cases named

end Render

end ServerUi
