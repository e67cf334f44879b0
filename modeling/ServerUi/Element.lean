import ServerUi.Action.Spec
import ServerUi.Style
import ServerUi.Text.Quoted
import ServerUi.Value.Codec

/-! # Elements

What a host displays: a tree of elements with every reference to the state resolved.  Elements have
a document, and an outline with one line per element, indented by depth.
-/

namespace ServerUi

open ServerUi.Json (Document)

inductive IconPosition where
  | left
  | right
deriving DecidableEq, Repr

def IconPosition.name : IconPosition → String
  | .left => "left"
  | .right => "right"

def IconPosition.ofName? (s : String) : Option IconPosition := [.left, .right].find? (·.name == s)

inductive ButtonSize where
  | small
  | medium
  | large
deriving DecidableEq, Repr

def ButtonSize.name : ButtonSize → String
  | .small => "small"
  | .medium => "medium"
  | .large => "large"

def ButtonSize.ofName? (s : String) : Option ButtonSize :=
  [.small, .medium, .large].find? (·.name == s)

inductive ButtonVariant where
  | default
  | bordered
  | primary
  | danger
deriving DecidableEq, Repr

def ButtonVariant.name : ButtonVariant → String
  | .default => "default"
  | .bordered => "bordered"
  | .primary => "primary"
  | .danger => "danger"

def ButtonVariant.ofName? (s : String) : Option ButtonVariant :=
  [.default, .bordered, .primary, .danger].find? (·.name == s)

structure PickerOption where
  label : String
  value : String
deriving DecidableEq, Repr

structure Button where
  title : String
  enabled : Bool
  loading : Bool
  icon : Option String
  iconPosition : IconPosition
  accessibilityLabel : Option String
  tooltip : Option String
  size : ButtonSize
  variant : ButtonVariant
  color : Option String
  action : Option ActionSpec

structure TextField where
  text : String
  placeholder : String
  isSecure : Bool
  isDisabled : Bool
  keyboardType : String
  /-- The key of the state that edits are written to. -/
  binding : Option String
  style : ElementStyle

structure Picker where
  selectedValue : String
  options : List PickerOption
  placeholder : Option String
  binding : Option String

structure ImageUploader where
  imageUrl : Option String
  placeholder : String
  maxSize : Option Int64
  allowedTypes : List String
  binding : Option String

/-- The directions in which a stack lays out its children. -/
inductive Axis where
  | vertical
  | horizontal
deriving DecidableEq, Repr

/-- An element without children. -/
inductive Leaf where
  | text (text : String) (style : ElementStyle)
  | image (url : String) (style : ElementStyle)
  | button (b : Button)
  | textField (f : TextField)
  | icon (name : String) (size : Float) (color : Option String)
  | picker (p : Picker)
  | imageUploader (u : ImageUploader)
  | spacer (minLength : Option Float)
  /-- What stands for a component of a kind that is not known. -/
  | empty (kind : String)

inductive Element where
  | stack (axis : Axis) (id : String) (spacing : Float) (children : List Element)
  | leaf (id : String) (leaf : Leaf)

namespace Element

def id : Element → String
  | stack _ id _ _ => id
  | leaf id _ => id

def children : Element → List Element
  | stack _ _ _ cs => cs
  | leaf _ _ => []

mutual
/-- The first element with an identity, the element itself before its children. -/
def find? (wanted : String) : Element → Option Element
  | stack axis id spacing cs =>
    if id = wanted then some (stack axis id spacing cs) else findIn wanted cs
  | leaf id l => if id = wanted then some (leaf id l) else none
def findIn (wanted : String) : List Element → Option Element
  | [] => none
  | e :: rest => (find? wanted e).or (findIn wanted rest)
end

/-! ## Documents -/

/-- The entry of style values, left out if there are none. -/
def styleEntries (s : ElementStyle) : List (String × Document) :=
  if s.isEmpty then [] else [("style", s.toDocument)]

def optionDocument (o : PickerOption) : Document :=
  .object [("label", .string o.label), ("value", .string o.value)]

def leafEntries : Leaf → String × List (String × Document)
  | .text t s => ("text", ("text", .string t) :: styleEntries s)
  | .image u s => ("image", ("url", .string u) :: styleEntries s)
  | .button b => ("button",
      [("title", .string b.title), ("enabled", .bool b.enabled), ("loading", .bool b.loading)]
        ++ Document.whenSome "icon" .string b.icon
        ++ [("icon_position", .string b.iconPosition.name)]
        ++ Document.whenSome "accessibility_label" .string b.accessibilityLabel
        ++ Document.whenSome "tooltip" .string b.tooltip
        ++ [("size", .string b.size.name), ("variant", .string b.variant.name)]
        ++ Document.whenSome "color" .string b.color
        ++ Document.whenSome "action" ActionSpec.toDocument b.action)
  | .textField f => ("text_field",
      [("text", .string f.text), ("placeholder", .string f.placeholder),
          ("is_secure", .bool f.isSecure), ("is_disabled", .bool f.isDisabled),
          ("keyboard_type", .string f.keyboardType)]
        ++ Document.whenSome "binding" .string f.binding
        ++ styleEntries f.style)
  | .icon name size color => ("icon",
      [("name", .string name), ("size", .real size)] ++ Document.whenSome "color" .string color)
  | .picker p => ("picker",
      [("selected_value", .string p.selectedValue),
          ("options", .array (p.options.map optionDocument))]
        ++ Document.whenSome "placeholder" .string p.placeholder
        ++ Document.whenSome "binding" .string p.binding)
  | .imageUploader u => ("image_uploader",
      Document.whenSome "image_url" .string u.imageUrl
        ++ [("placeholder", .string u.placeholder)]
        ++ Document.whenSome "max_size" (fun i => .integer i.toInt) u.maxSize
        ++ [("allowed_types", .array (u.allowedTypes.map .string))]
        ++ Document.whenSome "binding" .string u.binding)
  | .spacer m => ("spacer", Document.whenSome "min_length" .real m)
  | .empty kind => ("empty", [("kind", .string kind)])

def axisName : Axis → String
  | .vertical => "v_stack"
  | .horizontal => "h_stack"

mutual
def toDocument : Element → Document
  | stack axis id spacing cs =>
    .object [("element", .string (axisName axis)), ("id", .string id), ("spacing", .real spacing),
      ("children", .array (toDocuments cs))]
  | leaf id l =>
    let (name, entries) := leafEntries l
    .object (("element", .string name) :: ("id", .string id) :: entries)
def toDocuments : List Element → List Document
  | [] => []
  | e :: rest => toDocument e :: toDocuments rest
end

/-! ## Outlines -/

/-- The line of an element without children: its kind, its identity and what it shows. -/
def leafLine (id : String) : Leaf → String
  | .text t _ => s!"Text #{id} {Text.quoted t}"
  | .image u _ => s!"Image #{id} {u}"
  | .button b =>
    s!"Button #{id} {Text.quoted b.title}" ++ (if b.enabled then "" else " [disabled]")
      ++ (if b.loading then " [loading]" else "")
  | .textField f =>
    s!"TextField #{id} {Text.quoted f.text}" ++
      (match f.binding with
      | some key => s!" <-> @{key}"
      | none => "")
  | .icon name size _ => s!"Icon #{id} {name} size={floatText size}"
  | .picker p =>
    s!"Picker #{id} {Text.quoted p.selectedValue} of {p.options.length} options"
  | .imageUploader u =>
    match u.imageUrl with
    | some url => s!"ImageUploader #{id} {url}"
    | none => s!"ImageUploader #{id} (empty)"
  | .spacer _ => s!"Spacer #{id}"
  | .empty kind => s!"Empty #{id} ({kind})"

def line : Element → String
  | stack .vertical id spacing _ => s!"VStack #{id} spacing={floatText spacing}"
  | stack .horizontal id spacing _ => s!"HStack #{id} spacing={floatText spacing}"
  | leaf id l => leafLine id l

def indented (depth : Nat) (s : String) : String :=
  String.ofList (List.replicate (2 * depth) ' ') ++ s

mutual
/-- The lines of an element at a depth and of all below it. -/
def lines (depth : Nat) : Element → List String
  | stack axis id spacing cs =>
    indented depth (line (stack axis id spacing cs)) :: linesIn (depth + 1) cs
  | leaf id l => [indented depth (leafLine id l)]
def linesIn (depth : Nat) : List Element → List String
  | [] => []
  | e :: rest => lines depth e ++ linesIn depth rest
end

/-- The outline of an element: each line with a line feed behind it. -/
def outline (e : Element) : String := String.join ((e.lines 0).map (· ++ "\n"))

/-! ## Printing -/

inductive Format where
  | outline
  /-- The document of the element, indented. -/
  | document
deriving DecidableEq, Repr

def print (e : Element) : Format → String
  | .outline => e.outline
  | .document => e.toDocument.pretty

end Element

end ServerUi
