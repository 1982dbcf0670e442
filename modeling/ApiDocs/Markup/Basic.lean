import ApiDocs.Text.Basic
/-!
# Markup

Pages are trees of elements.  Text and the values of attributes are escaped when a tree is
written, and only what is marked as raw reaches the page as it is.

Main definitions:

- `escape`: the four characters with a meaning of their own as entities.
- `Markup`, `Markup.render`: elements and their text.
-/

namespace ApiDocs

/-- A character as it stands in escaped text. -/
def escapeMark (c : Char) : Text :=
  if c = '&' then "&amp;".toList
  else if c = '<' then "&lt;".toList
  else if c = '>' then "&gt;".toList
  else if c = '"' then "&quot;".toList
  else [c]

/-- Escaped text. -/
def escape (t : Text) : Text :=
  t.flatMap escapeMark

/-- A piece of a page. -/
inductive Markup
  /-- Text that is escaped. -/
  | text (t : Text)
  /-- Text that is markup already. -/
  | raw (t : Text)
  /-- An element with its attributes and what it holds. -/
  | element (tag : Text) (attributes : List (Text × Text)) (body : List Markup)
  deriving Repr

namespace Markup

/-- An attribute with a blank before it. -/
def renderAttribute (a : Text × Text) : Text :=
  ' ' :: a.1 ++ "=\"".toList ++ escape a.2 ++ ['"']

mutual

/-- The text of a piece of a page. -/
def render : Markup → Text
  | text t => escape t
  | raw t => t
  | element tag attributes body =>
    '<' :: tag ++ attributes.flatMap renderAttribute ++ '>' :: renderAll body
      ++ '<' :: '/' :: tag ++ ['>']

/-- The text of pieces one after the other. -/
def renderAll : List Markup → Text
  | [] => []
  | piece :: pieces => render piece ++ renderAll pieces

end

/-- The text of pieces in a row is the texts of the pieces in a row. -/
theorem renderAll_append (pieces more : List Markup) :
    renderAll (pieces ++ more) = renderAll pieces ++ renderAll more := by
  induction pieces with
  | nil => rfl
  | cons piece pieces ih =>
    rw [List.cons_append, renderAll, renderAll, ih, List.append_assoc]

/-- A line break. -/
def newline : Markup :=
  raw ['\n']

/-- Fixed text without characters that need escaping. -/
def fixed (s : String) : Markup :=
  text s.toList

/-- An element without attributes. -/
def plain (tag : String) (body : List Markup) : Markup :=
  element tag.toList [] body

/-- An element with a class attribute. -/
def styled (tag style : String) (body : List Markup) : Markup :=
  element tag.toList [("class".toList, style.toList)] body

/-- Pieces with a separator between them. -/
def separated (separator : Markup) (pieces : List Markup) : List Markup :=
  pieces.intersperse separator

end Markup

end ApiDocs
