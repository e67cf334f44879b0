import ServerUi.Value.Codec

/-! # Styles

A node may carry a style, which goes to the host as plain data.  Some elements also take style
values out of a property.
-/

namespace ServerUi

open ServerUi.Json (Document Record)

structure NodeStyle where
  variant : Option String
  color : Option String
  custom : Option (Table Value)

namespace NodeStyle

def ofDocument (d : Document) : Option NodeStyle := do
  let r ← Record.ofDocument [.defaulted "variant", .defaulted "color", .defaulted "custom"] d
  let variant ← r.optional "variant" (·.string?)
  let color ← r.optional "color" (·.string?)
  let custom ← r.optional "custom" Value.tableOfDocument
  pure ⟨variant, color, custom⟩

def toDocument (s : NodeStyle) : Document :=
  .object (Document.whenSome "variant" .string s.variant
    ++ Document.whenSome "color" .string s.color
    ++ Document.whenSome "custom" (fun t => (Value.ofTable t).toDocument) s.custom)

end NodeStyle

structure ElementStyle where
  foregroundColor : Option String
  backgroundColor : Option String
  fontSize : Option Float
  fontWeight : Option String
  padding : Option Float
  cornerRadius : Option Float

namespace ElementStyle

def empty : ElementStyle := ⟨none, none, none, none, none, none⟩

/-- The style values in an object; a value of the wrong kind is passed over. -/
def ofValue (v : Option Value) : ElementStyle :=
  let text (key : String) := (v.bind (·.get? key)).bind (·.string?)
  let number (key : String) := (v.bind (·.get? key)).bind (·.float?)
  ⟨text "foregroundColor", text "backgroundColor", number "fontSize", text "fontWeight",
    number "padding", number "cornerRadius"⟩

def entries (s : ElementStyle) : List (String × Document) :=
  Document.whenSome "foreground_color" .string s.foregroundColor
    ++ Document.whenSome "background_color" .string s.backgroundColor
    ++ Document.whenSome "font_size" .real s.fontSize
    ++ Document.whenSome "font_weight" .string s.fontWeight
    ++ Document.whenSome "padding" .real s.padding
    ++ Document.whenSome "corner_radius" .real s.cornerRadius

def isEmpty (s : ElementStyle) : Bool := s.entries.isEmpty

def toDocument (s : ElementStyle) : Document := .object s.entries

end ElementStyle

end ServerUi
