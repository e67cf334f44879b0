import ServerUi.Element
import ServerUi.Node
import ServerUi.State.Reference

/-! # Rendering

A node becomes an element by its kind.  Properties are resolved against the store; a property that
is null counts as absent, and one of the wrong kind gives way to the default.  Only stacks have
children.
-/

namespace ServerUi.Render

/-- The space between the children of a stack that names none. -/
def defaultSpacing : Float := 8

def defaultIconSize : Float := 16

def defaultUploaderPlaceholder : String := "Tap to upload image"

/-- The types of image that are allowed when none are named. -/
def defaultAllowedTypes : List String := ["jpg", "png"]

variable (store : Option Store) (props : Table Value)

/-- A property, resolved; null counts as absent. -/
def prop? (key : String) : Option Value :=
  ((props.find? key).map (·.resolve store)).filter fun v => !v.isNull

def text? (key : String) : Option String := (prop? store props key).map (·.display)

def number? (key : String) : Option Float := (prop? store props key).bind (·.float?)

def truth? (key : String) : Option Bool := (prop? store props key).bind (·.bool?)

def binding? (key : String) : Option String := (props.find? key).bind (·.stateKey?)

/-- The style values of a node; references in them are not resolved. -/
def style : ElementStyle := .ofValue (props.find? "style")

/-- The choices in a list; an item that is no choice is passed over. -/
def pickerOptions : Option Value → List PickerOption
  | some (.array items) => items.filterMap fun item => do
    let label ← (← item.get? "label").string?
    let value ← (← item.get? "value").string?
    pure ⟨label, value⟩
  | _ => []

/-- The texts in a list, or the types allowed by default. -/
def allowedTypes : Option Value → List String
  | some (.array items) => items.filterMap (·.string?)
  | _ => defaultAllowedTypes

def isEnabled : Bool := (truth? store props "enabled").getD true

def isLoading : Bool := (truth? store props "loading").getD false

def button (action : Option ActionSpec) : Button where
  title := (text? store props "title").getD ""
  enabled := isEnabled store props
  loading := isLoading store props
  icon := text? store props "icon"
  iconPosition := ((text? store props "iconPosition").bind IconPosition.ofName?).getD .left
  accessibilityLabel := text? store props "accessibilityLabel"
  tooltip := text? store props "tooltip"
  size := ((text? store props "size").bind ButtonSize.ofName?).getD .medium
  variant := ((text? store props "variant").bind ButtonVariant.ofName?).getD .default
  color := text? store props "color"
  action := action

def textField : TextField where
  text := (text? store props "text").getD ""
  placeholder := (text? store props "placeholder").getD ""
  isSecure := (truth? store props "isSecure").getD false
  isDisabled := (truth? store props "isDisabled").getD false
  keyboardType := (text? store props "keyboardType").getD "default"
  binding := binding? props "text"
  style := style props

def picker : Picker where
  selectedValue := (text? store props "selectedValue").getD ""
  options := pickerOptions (prop? store props "options")
  placeholder := text? store props "placeholder"
  binding := binding? props "selectedValue"

def imageUploader : ImageUploader where
  imageUrl := text? store props "imageUrl"
  placeholder := (text? store props "placeholder").getD defaultUploaderPlaceholder
  maxSize := (prop? store props "maxSize").bind (·.int?)
  allowedTypes := allowedTypes (prop? store props "allowedTypes")
  binding := binding? props "imageUrl"

def axis? : NodeKind → Option Axis
  | .vStack => some .vertical
  | .hStack => some .horizontal
  | _ => none

def leaf (kind : NodeKind) (action : Option ActionSpec) : Leaf :=
  match kind with
  | .vStack | .hStack => .empty kind.tag
  | .text => .text ((text? store props "text").getD "") (style props)
  | .image => .image ((text? store props "url").getD "") (style props)
  | .button => .button (button store props action)
  | .textField => .textField (textField store props)
  | .icon =>
    .icon ((text? store props "name").getD "") ((number? store props "size").getD defaultIconSize)
      (text? store props "color")
  | .picker => .picker (picker store props)
  | .imageUploader => .imageUploader (imageUploader store props)
  | .spacer => .spacer (number? store props "minLength")
  | .unknown tag => .empty tag

mutual
def element (store : Option Store) : Node → Element
  | .mk id kind props style action state children =>
    match axis? kind with
    | some axis =>
      .stack axis id ((number? store props "spacing").getD defaultSpacing)
        (elementsAmong store children)
    | none =>
      .leaf id (leaf store props kind (Node.mk id kind props style action state none).action?)
def elementsAmong (store : Option Store) : Option (List Node) → List Element
  | none => []
  | some cs => elements store cs
def elements (store : Option Store) : List Node → List Element
  | [] => []
  | n :: rest => element store n :: elements store rest
end

end ServerUi.Render
