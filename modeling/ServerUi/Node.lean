import ServerUi.State.Binding
import ServerUi.Style

/-! # Component trees

A component tree is what a server sends to be displayed.  A node has an identity, a kind, properties
and, as it needs them, a style, an action, a state block and children.  Trees are read from
documents and written back; a kind that is not known keeps its tag.
-/

namespace ServerUi

open ServerUi.Json (Document)

inductive NodeKind where
  | vStack
  | hStack
  | text
  | image
  | button
  | textField
  | icon
  | picker
  | imageUploader
  | spacer
  | unknown (tag : String)
deriving DecidableEq, Repr

namespace NodeKind

def all : List NodeKind :=
  [.vStack, .hStack, .text, .image, .button, .textField, .icon, .picker, .imageUploader, .spacer]

def tag : NodeKind → String
  | .vStack => "SduiVStack"
  | .hStack => "SduiHStack"
  | .text => "SduiText"
  | .image => "SduiImage"
  | .button => "SduiButton"
  | .textField => "SduiTextField"
  | .icon => "SduiIcon"
  | .picker => "SduiPicker"
  | .imageUploader => "SduiImageUploader"
  | .spacer => "SduiSpacer"
  | .unknown t => t

def ofTag (t : String) : NodeKind := (all.find? (·.tag == t)).getD (.unknown t)

def isUnknown : NodeKind → Bool
  | .unknown _ => true
  | _ => false

end NodeKind

/-- A node of a component tree.  Children that are absent and no children are different. -/
inductive Node where
  | mk (id : String) (kind : NodeKind) (props : Table Value) (style : Option NodeStyle)
      (action : Option ActionSpec) (state : Option StateBlock) (children : Option (List Node))

namespace Node

/-- The identity of a node; it may be empty. -/
def id : Node → String
  | mk id _ _ _ _ _ _ => id

def kind : Node → NodeKind
  | mk _ kind _ _ _ _ _ => kind

def props : Node → Table Value
  | mk _ _ props _ _ _ _ => props

def style : Node → Option NodeStyle
  | mk _ _ _ style _ _ _ => style

def action : Node → Option ActionSpec
  | mk _ _ _ _ action _ _ => action

def state : Node → Option StateBlock
  | mk _ _ _ _ _ state _ => state

def children? : Node → Option (List Node)
  | mk _ _ _ _ _ _ children => children

def children (n : Node) : List Node := n.children?.getD []

instance : Inhabited Node := ⟨mk "" (.unknown "") ∅ none none none none⟩

/-! ## Building -/

def bare (id : String) (kind : NodeKind) : Node := mk id kind ∅ none none none none

def withProp (n : Node) (key : String) (v : Value) : Node :=
  mk n.id n.kind (n.props.insert key v) n.style n.action n.state n.children?

def withChild (n child : Node) : Node :=
  mk n.id n.kind n.props n.style n.action n.state (some (n.children ++ [child]))

def withAction (n : Node) (a : ActionSpec) : Node :=
  mk n.id n.kind n.props n.style (some a) n.state n.children?

def withState (n : Node) (s : StateBlock) : Node :=
  mk n.id n.kind n.props n.style n.action (some s) n.children?

/-- The tree that shows a message when there is no other tree. -/
def fallback (message : String) : Node :=
  let titleStyle : Value := .object [("fontSize", .int 20), ("fontWeight", .string "bold")]
  (((bare "fallback_response" .vStack).withProp "spacing" (.int 16)).withChild
    (((bare "response_title" .text).withProp "text" (.string "Chat Response")).withProp "style"
      titleStyle)).withChild
    ((bare "response_content" .text).withProp "text" (.string message))

/-! ## Reading -/

/-- The fields of a written node, in their order. -/
inductive Slot where
  | id
  | kind
  | props
  | style
  | action
  | state
  | children
deriving DecidableEq, Repr

def Slot.all : List Slot := [.id, .kind, .props, .style, .action, .state, .children]

def Slot.name : Slot → String
  | .id => "id"
  | .kind => "type"
  | .props => "props"
  | .style => "style"
  | .action => "action"
  | .state => "state"
  | .children => "children"

/-- A node in the making: the slots that have been read. -/
structure Draft where
  filled : List Slot
  id : String
  kind : NodeKind
  props : Table Value
  style : Option NodeStyle
  action : Option ActionSpec
  state : Option StateBlock
  children : Option (List Node)

namespace Draft

def empty : Draft := ⟨[], "", .unknown "", ∅, none, none, none, none⟩

/-- The finished node; only the kind must have been read. -/
def finish (d : Draft) : Option Node :=
  if d.filled.contains .kind then
    some (Node.mk d.id d.kind d.props d.style d.action d.state d.children)
  else none

/-- Reads a document that may be null for absent. -/
def nullable {α : Type} (read : Document → Option α) : Document → Option (Option α)
  | .null => some none
  | d => (read d).map some

/-- Fills a slot other than the children. -/
def fill (draft : Draft) (slot : Slot) (d : Document) : Option Draft :=
  let draft := { draft with filled := slot :: draft.filled }
  match slot with
  | .id => d.string?.map fun s => { draft with id := s }
  | .kind => d.string?.map fun s => { draft with kind := .ofTag s }
  | .props => (Value.tableOfDocument d).map fun t => { draft with props := t }
  | .style => (nullable NodeStyle.ofDocument d).map fun s => { draft with style := s }
  | .action => (nullable ActionSpec.ofDocument d).map fun a => { draft with action := a }
  | .state => (nullable StateBlock.ofDocument d).map fun s => { draft with state := s }
  | .children => none

end Draft

mutual
def ofDocument : Document → Option Node
  | .object entries => (ofEntries entries .empty).bind Draft.finish
  | .array items => (ofItems items Slot.all .empty).bind Draft.finish
  | _ => none
/-- Fills slots by name; a name that is not known is passed over, and none may come twice. -/
def ofEntries : List (String × Document) → Draft → Option Draft
  | [], draft => some draft
  | (k, d) :: rest, draft =>
    match Slot.all.find? (·.name == k) with
    | none => ofEntries rest draft
    | some slot =>
      if draft.filled.contains slot then none
      else if slot = .children then do
        let cs ← childrenOf d
        ofEntries rest { draft with filled := slot :: draft.filled, children := cs }
      else do
        let draft ← draft.fill slot d
        ofEntries rest draft
/-- Fills slots by position. -/
def ofItems : List Document → List Slot → Draft → Option Draft
  | [], _, draft => some draft
  | _ :: _, [], _ => none
  | d :: rest, slot :: slots, draft =>
    if slot = .children then do
      let cs ← childrenOf d
      ofItems rest slots { draft with filled := slot :: draft.filled, children := cs }
    else do
      let draft ← draft.fill slot d
      ofItems rest slots draft
/-- The children that a document holds; null stands for none given. -/
def childrenOf : Document → Option (Option (List Node))
  | .null => some none
  | .array items => (ofDocuments items).map some
  | _ => none
def ofDocuments : List Document → Option (List Node)
  | [] => some []
  | d :: rest => do
    let n ← ofDocument d
    let more ← ofDocuments rest
    pure (n :: more)
end

/-! ## Writing -/

mutual
/-- The document of a node; what is absent is left out. -/
def toDocument : Node → Document
  | mk id kind props style action state children =>
    .object ([("id", .string id), ("type", .string kind.tag),
        ("props", (Value.ofTable props).toDocument)]
      ++ Document.whenSome "style" NodeStyle.toDocument style
      ++ Document.whenSome "action" ActionSpec.toDocument action
      ++ Document.whenSome "state" StateBlock.toDocument state
      ++ childrenEntry children)
/-- The entry for children, if they are given. -/
def childrenEntry : Option (List Node) → List (String × Document)
  | none => []
  | some cs => [("children", .array (toDocuments cs))]
def toDocuments : List Node → List Document
  | [] => []
  | n :: rest => toDocument n :: toDocuments rest
end

def decode (text : String) : Option Node := (Document.read text).bind ofDocument

def decodeBytes (bytes : List UInt8) : Option Node := (Document.readBytes bytes).bind ofDocument

/-- The compact text of a tree, or the float that has none. -/
def encode (n : Node) : Except Float String := n.toDocument.encode

/-- The tree that a value holds, through the text of the value; the error is a float without
text. -/
def ofValue (v : Value) : Except Float (Option Node) := v.encode.map decode

/-! ## Identities -/

mutual
/-- The first node with an identity, the node itself before its children. -/
def find? (wanted : String) : Node → Option Node
  | mk id kind props style action state children =>
    if id = wanted then some (mk id kind props style action state children)
    else findAmong wanted children
def findAmong (wanted : String) : Option (List Node) → Option Node
  | none => none
  | some cs => findIn wanted cs
def findIn (wanted : String) : List Node → Option Node
  | [] => none
  | n :: rest => (find? wanted n).or (findIn wanted rest)
end

mutual
def count : Node → Nat
  | mk _ _ _ _ _ _ children => 1 + countAmong children
def countAmong : Option (List Node) → Nat
  | none => 0
  | some cs => countIn cs
def countIn : List Node → Nat
  | [] => 0
  | n :: rest => count n + countIn rest
end

def childPath (path : String) (index : Nat) : String :=
  path ++ "." ++ String.ofList (Decimal.digits index)

mutual
/-- The tree at a path, with the path of a node for every empty identity. -/
def withPathIdsAt (path : String) : Node → Node
  | mk id kind props style action state children =>
    mk (if id = "" then path else id) kind props style action state (pathIdsAmong path children)
def pathIdsAmong (path : String) : Option (List Node) → Option (List Node)
  | none => none
  | some cs => some (pathIdsIn path 0 cs)
def pathIdsIn (path : String) (index : Nat) : List Node → List Node
  | [] => []
  | n :: rest => withPathIdsAt (childPath path index) n :: pathIdsIn path (index + 1) rest
end

/-- The tree in which every empty identity is the path of its node from the root. -/
def withPathIds (n : Node) : Node := withPathIdsAt "root" n

/-! ## Actions -/

/-- The action of a node: its own, or else the one in its `action` property.  A property that holds
no action is none. -/
def action? (n : Node) : Option ActionSpec :=
  match n.action with
  | some a => some a
  | none => (n.props.find? "action").bind fun v => ActionSpec.ofDocument v.toTree.toDocument

end Node

end ServerUi
