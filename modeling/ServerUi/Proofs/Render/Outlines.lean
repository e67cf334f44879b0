import Mathlib.Algebra.Order.BigOperators.Group.List
import Mathlib.Data.Nat.SuccPred
import ServerUi.Element
import ServerUi.Proofs.Decimal.Digits

/-! # Outlines

An outline shows the elements of a tree one after another, each before those below it.  It shows
texts between quotes, and identities, addresses, names, keys and kinds as they are.  A line feed in
one of those ends a line before the element is through, so an outline has a line for every element
and one more for each of these line feeds.  Where there are none, the lines are those of the
elements, and the shape of the tree comes back from the outline (`outline_lines`).
-/

namespace ServerUi

/-! ## Line feeds -/

/-- How many line feeds there are in a text. -/
def feeds (s : String) : Nat := s.toList.count '\n'

theorem feeds_append (a b : String) : feeds (a ++ b) = feeds a + feeds b := by
  rw [feeds, String.toList_append, List.count_append, feeds, feeds]

theorem feeds_eq_zero {cs : List Char} (h : '\n' ∉ cs) : feeds (String.ofList cs) = 0 := by
  rw [feeds, String.toList_ofList]
  exact List.count_eq_zero_of_not_mem h

theorem feeds_repr (n : Nat) : feeds n.repr = 0 :=
  feeds_eq_zero fun mem => absurd (Decimal.all_isDigit_digits n _ mem) (by decide)

theorem feeds_floatText (x : Float) : feeds (floatText x) = 0 :=
  feeds_eq_zero fun mem => by
    rcases Decimal.isFigure_of_mem_chars mem with digit | mark
    · exact absurd digit (by decide)
    · exact absurd mark (by decide)

namespace Text

theorem not_mem_hexDigits (n : Nat) : '\n' ∉ hexDigits n := by
  have digit : ∀ d < 16, '\n' ≠ Nat.digitChar d := by decide
  induction n using Nat.strongRecOn with
  | ind n ih =>
    by_cases small : n < 16
    · rw [hexDigits, Nat.toDigits_of_lt_base small, List.mem_singleton]
      exact digit n small
    · rw [hexDigits, Nat.toDigits_of_base_le (by decide) (by omega), List.mem_append,
        List.mem_singleton]
      rintro (above | last)
      · exact ih (n / 16) (by omega) above
      · exact digit (n % 16) (by omega) last

theorem not_mem_quoteChar (c : Char) : '\n' ∉ quoteChar c := by
  unfold quoteChar
  split
  · rename_i l letter
    have plain : '\n' ≠ l := by
      rintro rfl
      revert letter
      unfold quoteLetter?
      split <;> decide
    simp [plain]
  · rename_i unlettered
    split
    · rintro mem
      obtain rfl := List.mem_singleton.mp mem
      cases unlettered
    · simp [not_mem_hexDigits]

/-- Between quotes a text has no line feed. -/
theorem feeds_quoted (s : String) : feeds (quoted s) = 0 :=
  feeds_eq_zero <| by simp [quoteChars, not_mem_quoteChar]

/-! ## Lines -/

/-- The lines of a text; each line feed ends one, and so does the end of a text. -/
def lines (text : String) : List (List Char) :=
  let pieces := text.toList.splitOn '\n'
  if pieces.getLast? = some [] then pieces.dropLast else pieces

theorem length_splitOn (s : String) : (s.toList.splitOn '\n').length = feeds s + 1 := by
  rw [feeds]
  induction s.toList with
  | nil => rfl
  | cons c cs ih =>
    rw [List.splitOn, List.splitOnP_cons_eq_if_modifyHead, List.count_cons]
    rw [List.splitOn] at ih
    split
    · rw [List.length_cons, ih]
    · rw [List.length_modifyHead, ih]

theorem splitOn_of_feeds {s : String} (h : feeds s = 0) : s.toList.splitOn '\n' = [s.toList] := by
  refine List.splitOnP_eq_singleton fun c mem => ?_
  rw [beq_eq_false_iff_ne]
  rintro rfl
  exact List.count_eq_zero.mp h mem

theorem splitOn_join (texts : List String) :
    (String.join (texts.map (· ++ "\n"))).toList.splitOn '\n' =
      texts.flatMap (·.toList.splitOn '\n') ++ [[]] := by
  induction texts with
  | nil => rfl
  | cons s rest ih =>
    have joined : (String.join ((s :: rest).map (· ++ "\n"))).toList =
        s.toList ++ '\n' :: (String.join (rest.map (· ++ "\n"))).toList := by
      rw [List.map_cons, String.join_cons, String.toList_append, String.toList_append,
        List.append_assoc]
      rfl
    rw [List.splitOn] at ih
    rw [joined, List.splitOn, List.splitOnP_append_cons _ _ (by rfl), ih, List.flatMap_cons,
      List.append_assoc]
    rfl

/-- Texts with a line feed behind each are cut at these and at their own. -/
theorem lines_join (texts : List String) :
    lines (String.join (texts.map (· ++ "\n"))) = texts.flatMap (·.toList.splitOn '\n') := by
  rw [lines, splitOn_join, List.getLast?_concat, if_pos rfl, List.dropLast_concat]

end Text

/-! ## One element -/

namespace Leaf

/-- The name of the kind of an element without children. -/
def kindName : Leaf → String
  | text .. => "Text"
  | image .. => "Image"
  | button _ => "Button"
  | textField _ => "TextField"
  | icon .. => "Icon"
  | picker _ => "Picker"
  | imageUploader _ => "ImageUploader"
  | spacer _ => "Spacer"
  | empty _ => "Empty"

/-- What the line of an element without children shows behind its identity. -/
def rest : Leaf → String
  | text t _ => " " ++ Text.quoted t
  | image url _ => " " ++ url
  | button b =>
    " " ++ Text.quoted b.title ++ (if b.enabled then "" else " [disabled]")
      ++ (if b.loading then " [loading]" else "")
  | textField f =>
    " " ++ Text.quoted f.text ++
      (match f.binding with
      | some key => " <-> @" ++ key
      | none => "")
  | icon name size _ => " " ++ name ++ " size=" ++ floatText size
  | picker p => " " ++ Text.quoted p.selectedValue ++ " of " ++ p.options.length.repr ++ " options"
  | imageUploader u =>
    match u.imageUrl with
    | some url => " " ++ url
    | none => " (empty)"
  | spacer _ => ""
  | empty kind => " (" ++ kind ++ ")"

/-- The texts that are shown there as they are. -/
def bare : Leaf → List String
  | image url _ => [url]
  | textField f => f.binding.toList
  | icon name _ _ => [name]
  | imageUploader u => u.imageUrl.toList
  | empty kind => [kind]
  | _ => []

theorem leafLine_eq (id : String) (l : Leaf) :
    Element.leafLine id l = l.kindName ++ " #" ++ id ++ l.rest := by
  cases l with
  | textField f =>
    obtain ⟨text, placeholder, isSecure, isDisabled, keyboardType, binding, style⟩ := f
    cases binding <;> simp only [Element.leafLine, kindName, rest, ← String.append_assoc] <;> rfl
  | imageUploader u =>
    obtain ⟨imageUrl, placeholder, maxSize, allowedTypes, binding⟩ := u
    cases imageUrl <;> simp only [Element.leafLine, kindName, rest, ← String.append_assoc] <;> rfl
  | spacer => exact String.append_empty.symm
  | _ => simp only [Element.leafLine, kindName, rest, ← String.append_assoc]; rfl

theorem feeds_rest (l : Leaf) : feeds l.rest = (l.bare.map feeds).sum := by
  have words : feeds " " = 0 ∧ feeds " [disabled]" = 0 ∧ feeds " [loading]" = 0 ∧
      feeds " <-> @" = 0 ∧ feeds " size=" = 0 ∧ feeds " of " = 0 ∧ feeds " options" = 0 ∧
      feeds " (empty)" = 0 ∧ feeds " (" = 0 ∧ feeds ")" = 0 ∧ feeds "" = 0 := by decide
  cases l with
  | button b =>
    cases enabled : b.enabled <;> cases loading : b.loading <;>
      simp [rest, bare, enabled, loading, feeds_append, Text.feeds_quoted, words]
  | textField f =>
    cases bound : f.binding <;>
      simp [rest, bare, bound, feeds_append, Text.feeds_quoted, words]
  | imageUploader u =>
    cases url : u.imageUrl <;> simp [rest, bare, url, feeds_append, words]
  | _ =>
    simp [rest, bare, feeds_append, Text.feeds_quoted, feeds_floatText, feeds_repr, words]

end Leaf

namespace Element

def kindName : Element → String
  | stack .vertical _ _ _ => "VStack"
  | stack .horizontal _ _ _ => "HStack"
  | leaf _ l => l.kindName

/-- What the line of an element shows behind its identity. -/
def rest : Element → String
  | stack _ _ spacing _ => " spacing=" ++ floatText spacing
  | leaf _ l => l.rest

/-- The texts that the line of an element shows as they are. -/
def bare : Element → List String
  | stack _ id _ _ => [id]
  | leaf id l => id :: l.bare

theorem line_eq (e : Element) : e.line = e.kindName ++ " #" ++ e.id ++ e.rest := by
  cases e with
  | stack axis id spacing cs =>
    cases axis <;> simp only [line, kindName, rest, ← String.append_assoc] <;> rfl
  | leaf id l => exact l.leafLine_eq id

theorem kindName_plain (e : Element) :
    e.kindName ≠ "" ∧ ∀ c ∈ e.kindName.toList, c ≠ ' ' ∧ c ≠ '\n' := by
  cases e with
  | stack axis => cases axis <;> simp [kindName]
  | leaf id l => cases l <;> simp [kindName, Leaf.kindName]

theorem feeds_line (e : Element) : feeds e.line = (e.bare.map feeds).sum := by
  have kind : feeds e.kindName = 0 :=
    List.count_eq_zero.mpr fun mem => (e.kindName_plain.2 _ mem).2 rfl
  have mark : feeds " #" = 0 := rfl
  rw [line_eq, feeds_append, feeds_append, feeds_append, kind, mark]
  cases e with
  | stack axis id spacing cs =>
    have spaced : feeds " spacing=" = 0 := rfl
    rw [rest, feeds_append, feeds_floatText, spaced]
    simp [bare, Element.id]
  | leaf id l =>
    rw [rest, Leaf.feeds_rest]
    simp [bare, Element.id]

theorem feeds_indented (depth : Nat) (s : String) : feeds (indented depth s) = feeds s := by
  rw [indented, feeds_append, feeds_eq_zero (by simp), Nat.zero_add]

/-! ## The elements of a tree -/

mutual
/-- The elements of a tree at a depth, each with its own depth, and before those below it. -/
def placed (depth : Nat) : Element → List (Nat × Element)
  | stack axis id spacing cs => (depth, stack axis id spacing cs) :: placedIn (depth + 1) cs
  | leaf id l => [(depth, leaf id l)]
def placedIn (depth : Nat) : List Element → List (Nat × Element)
  | [] => []
  | e :: rest => placed depth e ++ placedIn depth rest
end

def lineAt (p : Nat × Element) : String := indented p.1 p.2.line

mutual
theorem lines_eq (depth : Nat) : ∀ e : Element, lines depth e = (placed depth e).map lineAt
  | stack _ _ _ cs => congrArg (_ :: ·) (linesIn_eq (depth + 1) cs)
  | leaf _ _ => rfl
theorem linesIn_eq (depth : Nat) :
    ∀ cs : List Element, linesIn depth cs = (placedIn depth cs).map lineAt
  | [] => rfl
  | e :: rest => by
    rw [linesIn, placedIn, List.map_append, lines_eq depth e, linesIn_eq depth rest]
end

/-- How many line feeds the outline shows as they are. -/
def bareFeeds (e : Element) : Nat := ((e.placed 0).map fun p => (p.2.bare.map feeds).sum).sum

/-- No line feed is shown as it is. -/
def KeepsLines (e : Element) : Prop := ∀ p ∈ e.placed 0, ∀ s ∈ p.2.bare, feeds s = 0

theorem bareFeeds_eq_zero_iff {e : Element} : e.bareFeeds = 0 ↔ e.KeepsLines := by
  simp only [bareFeeds, KeepsLines, List.sum_eq_zero_iff, List.forall_mem_map]

/-- The lines of an outline are those of the elements in turn, each cut at its own line feeds. -/
theorem lines_outline (e : Element) :
    Text.lines e.outline = (e.placed 0).flatMap fun p => (lineAt p).toList.splitOn '\n' := by
  rw [outline, Text.lines_join, lines_eq, List.flatMap_map]

theorem length_splitOn_lineAt (p : Nat × Element) :
    ((lineAt p).toList.splitOn '\n').length = (p.2.bare.map feeds).sum + 1 := by
  rw [Text.length_splitOn, lineAt, feeds_indented, feeds_line]

theorem length_lines_outline (e : Element) :
    (Text.lines e.outline).length = (e.placed 0).length + e.bareFeeds := by
  rw [lines_outline, bareFeeds]
  induction e.placed 0 with
  | nil => rfl
  | cons p ps ih =>
    rw [List.flatMap_cons, List.length_append, ih, length_splitOn_lineAt, List.map_cons,
      List.sum_cons, List.length_cons]
    omega

theorem KeepsLines.lines_outline {e : Element} (h : e.KeepsLines) :
    Text.lines e.outline = (e.placed 0).map fun p => (lineAt p).toList := by
  have whole : ∀ p ∈ e.placed 0, (lineAt p).toList.splitOn '\n' = [(lineAt p).toList] := by
    intro p mem
    refine Text.splitOn_of_feeds ?_
    rw [lineAt, feeds_indented, feeds_line, List.sum_eq_zero_iff]
    simpa using h p mem
  rw [e.lines_outline, List.flatMap_congr whole]
  exact List.map_eq_flatMap.symm

end Element

/-! ## Shapes -/

/-- The shape of a tree: the kinds of its elements and how they are nested. -/
inductive Shape where
  | node (kind : String) (children : List Shape)

namespace Shape

/-- The depth and the kind with which a line starts. -/
def start (line : List Char) : Nat × String :=
  ((line.takeWhile (· = ' ')).length / 2,
    String.ofList ((line.dropWhile (· = ' ')).takeWhile (· ≠ ' ')))

/-- Shapes below a line wait for the element above them, each at its depth.  The line takes those
that are deeper, up to the first that is not. -/
def grow (line : Nat × String) (waiting : List (Nat × Shape)) : List (Nat × Shape) :=
  (line.1, .node line.2 ((waiting.takeWhile (line.1 < ·.1)).map (·.2))) ::
    waiting.dropWhile (line.1 < ·.1)

def read (text : String) : List Shape :=
  (((Text.lines text).map start).foldr grow []).map (·.2)

/-- Nothing that waits first stands deeper than this. -/
def Shallow (depth : Nat) (waiting : List (Nat × Shape)) : Prop :=
  ∀ p ∈ waiting.head?, p.1 ≤ depth

theorem Shallow.succ {depth : Nat} {waiting : List (Nat × Shape)} (h : Shallow depth waiting) :
    Shallow (depth + 1) waiting :=
  fun p mem => (h p mem).trans (Nat.le_succ depth)

theorem shallow_nil (depth : Nat) : Shallow depth [] := by
  rintro p ⟨⟩

/-- A line takes the shapes that are one level deeper. -/
theorem grow_deeper {depth : Nat} {waiting : List (Nat × Shape)} (h : Shallow depth waiting)
    (kind : String) (shapes : List Shape) :
    grow (depth, kind) (shapes.map (depth + 1, ·) ++ waiting) =
      (depth, node kind shapes) :: waiting := by
  have deeper : ∀ p ∈ shapes.map (depth + 1, ·), decide (depth < p.1) = true := by simp
  have shallow : waiting.takeWhile (depth < ·.1) = [] ∧
      waiting.dropWhile (depth < ·.1) = waiting := by
    cases waiting with
    | nil => exact ⟨rfl, rfl⟩
    | cons p rest =>
      have up : ¬depth < p.1 := Nat.not_lt.mpr (h p rfl)
      simp [up]
  rw [grow, List.takeWhile_append_of_pos deeper, List.dropWhile_append_of_pos deeper, shallow.1,
    shallow.2, List.append_nil, List.map_map]
  simp

end Shape

namespace Element

mutual
def shape : Element → Shape
  | stack axis id spacing cs => .node (stack axis id spacing cs).kindName (shapes cs)
  | leaf _ l => .node l.kindName []
def shapes : List Element → List Shape
  | [] => []
  | e :: rest => shape e :: shapes rest
end

/-- A line shows an element at a depth: it starts with just two spaces for each level, and its kind
and its identity come next. -/
structure Shows (line : List Char) (depth : Nat) (e : Element) : Prop where
  indentation : (line.takeWhile (· = ' ')).length = 2 * depth
  text : ∃ rest, line =
    List.replicate (2 * depth) ' ' ++ e.kindName.toList ++ [' ', '#'] ++ e.id.toList ++ rest

theorem lineAt_toList (p : Nat × Element) :
    (lineAt p).toList = List.replicate (2 * p.1) ' ' ++
      (p.2.kindName.toList ++ ([' ', '#'] ++ (p.2.id.toList ++ p.2.rest.toList))) := by
  simp only [lineAt, indented, line_eq, String.toList_append, String.toList_ofList,
    List.append_assoc]
  rfl

/-- The kind ends the spaces before it. -/
theorem indentation (depth : Nat) (e : Element) (cs : List Char) :
    let line := List.replicate (2 * depth) ' ' ++ (e.kindName.toList ++ cs)
    line.takeWhile (· = ' ') = List.replicate (2 * depth) ' ' ∧
      line.dropWhile (· = ' ') = e.kindName.toList ++ cs := by
  obtain ⟨nonempty, plain⟩ := e.kindName_plain
  obtain ⟨c, kind, named⟩ : ∃ c kind, e.kindName.toList = c :: kind := by
    rw [← List.ne_nil_iff_exists_cons]
    simpa using nonempty
  have first : c ≠ ' ' := (plain c (by rw [named]; exact List.mem_cons_self)).1
  have blank : ∀ s ∈ List.replicate (2 * depth) ' ', decide (s = ' ') = true := by simp
  dsimp only
  rw [List.takeWhile_append_of_pos blank, List.dropWhile_append_of_pos blank, named]
  simp [first]

theorem shows_lineAt (p : Nat × Element) : Shows (lineAt p).toList p.1 p.2 := by
  rw [lineAt_toList]
  refine ⟨?_, p.2.rest.toList, by simp only [List.append_assoc]⟩
  rw [(indentation p.1 p.2 _).1, List.length_replicate]

theorem start_lineAt (p : Nat × Element) :
    Shape.start (lineAt p).toList = (p.1, p.2.kindName) := by
  obtain ⟨spaces, kind⟩ :=
    indentation p.1 p.2 ([' ', '#'] ++ (p.2.id.toList ++ p.2.rest.toList))
  have dark : ∀ c ∈ p.2.kindName.toList, decide (c ≠ ' ') = true := by
    simpa using fun c mem => (p.2.kindName_plain.2 c mem).1
  rw [Shape.start, lineAt_toList, spaces, kind, List.takeWhile_append_of_pos dark]
  simp

mutual
theorem foldr_placed {depth : Nat} {waiting : List (Nat × Shape)}
    (h : Shape.Shallow depth waiting) : ∀ e : Element,
    ((placed depth e).map fun p => (p.1, p.2.kindName)).foldr Shape.grow waiting =
      (depth, e.shape) :: waiting
  | stack axis id spacing cs => by
    rw [placed, List.map_cons, List.foldr_cons, foldr_placedIn h.succ cs, Shape.grow_deeper h,
      shape]
  | leaf id l => Shape.grow_deeper h l.kindName []
theorem foldr_placedIn {depth : Nat} {waiting : List (Nat × Shape)}
    (h : Shape.Shallow depth waiting) : ∀ cs : List Element,
    ((placedIn depth cs).map fun p => (p.1, p.2.kindName)).foldr Shape.grow waiting =
      (shapes cs).map (depth, ·) ++ waiting
  | [] => rfl
  | e :: rest => by
    have next : Shape.Shallow depth ((shapes rest).map (depth, ·) ++ waiting) := by
      cases rest with
      | nil => exact h
      | cons e' rest =>
        rintro p ⟨⟩
        exact Nat.le_refl depth
    rw [placedIn, List.map_append, List.foldr_append, foldr_placedIn h rest, foldr_placed next e]
    rfl
end

theorem KeepsLines.read_outline {e : Element} (h : e.KeepsLines) :
    Shape.read e.outline = [e.shape] := by
  have starts : (Text.lines e.outline).map Shape.start =
      (e.placed 0).map fun p => (p.1, p.2.kindName) := by
    rw [h.lines_outline, List.map_map]
    exact List.map_congr_left fun p _ => start_lineAt p
  rw [Shape.read, starts, foldr_placed (Shape.shallow_nil 0)]
  rfl

/-- **Outlines have a line for each element, but for line feeds shown as they are.**  An outline has
as many lines as the tree has elements, and one more for each line feed in an identity, an address,
a name, a key or a kind; texts, titles and selected values add none.  So there is one line for each
element just if there is no such line feed.  Then the lines are those of the elements in turn, each
before those below it, with two spaces for each level, its kind and its identity; and the shape of
the tree is read back from the outline. -/
theorem outline_lines (e : Element) :
    (Text.lines e.outline).length = (e.placed 0).length + e.bareFeeds ∧
      (e.KeepsLines ↔ (Text.lines e.outline).length = (e.placed 0).length) ∧
      (e.KeepsLines →
        List.Forall₂ (fun p line => Shows line p.1 p.2) (e.placed 0) (Text.lines e.outline) ∧
        Shape.read e.outline = [e.shape]) := by
  refine ⟨e.length_lines_outline, ?_, fun keeps => ⟨?_, keeps.read_outline⟩⟩
  · rw [e.length_lines_outline, Nat.add_eq_left, bareFeeds_eq_zero_iff]
  · rw [keeps.lines_outline, List.forall₂_map_right_iff, List.forall₂_same]
    exact fun p _ => shows_lineAt p

/-- A column of a text with a line feed of its own and a row. -/
def form : Element :=
  .stack .vertical "form" 8 [.leaf "greeting" (.text "Hello\nthere" .empty),
    .stack .horizontal "row" 4 [.leaf "gap" (.spacer none)]]

theorem form_read_back :
    form.KeepsLines ∧ (Text.lines form.outline).length = 4 ∧
      Shape.read form.outline =
        [.node "VStack" [.node "Text" [], .node "HStack" [.node "Spacer" []]]] := by
  have keeps : form.KeepsLines := by
    rw [← bareFeeds_eq_zero_iff]
    decide
  obtain ⟨-, counted, read⟩ := outline_lines form
  exact ⟨keeps, counted.mp keeps, (read keeps).2⟩

/-- A column of one image, whose address has a line feed. -/
def oneImage : Element :=
  .stack .vertical "form" 8 [.leaf "pic" (.image "u\n  Spacer #gap" .empty)]

def imageAndSpacer : Element :=
  .stack .vertical "form" 8 [.leaf "pic" (.image "u" .empty), .leaf "gap" (.spacer none)]

/-- The two have the same outline, of one line more than the first has elements. -/
theorem address_ends_line :
    oneImage.outline = imageAndSpacer.outline ∧ (oneImage.placed 0).length = 2 ∧
      (Text.lines oneImage.outline).length = 3 ∧ oneImage.shape ≠ imageAndSpacer.shape := by
  refine ⟨?_, rfl, ?_, nofun⟩
  · have below : String.join ((linesIn 1 oneImage.children).map (· ++ "\n")) =
        String.join ((linesIn 1 imageAndSpacer.children).map (· ++ "\n")) := by decide
    rw [outline, outline, oneImage, imageAndSpacer, lines, lines, List.map_cons, List.map_cons,
      String.join_cons, String.join_cons]
    exact congrArg _ below
  · rw [length_lines_outline]
    decide

end Element

end ServerUi
