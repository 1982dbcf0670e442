import ApiDocs.Text.Basic
/-!
# JSON values

The values that pages and the navigation are written as, and their text.  One printer writes
all layouts: a layout says what stands after the colon of a field and before each entry.

Main definitions:

- `Json`: the values.
- `Json.Layout`: `compact` without any blanks, `indented` with two spaces for each level.
- `Json.quote`: a text between quotes.
- `Json.write`: the text of a value.
-/

namespace ApiDocs

/-- A JSON value.  The fields of an object keep their order. -/
inductive Json
  | bool (b : Bool)
  | str (t : Text)
  | arr (items : List Json)
  | obj (fields : List (Text × Json))
  deriving Repr, BEq

namespace Json

/-- The field of an optional value; no field when there is none. -/
def field? (name : Text) (value : Option Json) : List (Text × Json) :=
  (value.map fun v => (name, v)).toList

/-- The field of a list; no field when it is empty. -/
def fieldUnlessEmpty (name : Text) (items : List Json) : List (Text × Json) :=
  if items.isEmpty then [] else [(name, .arr items)]

/-! ### Texts -/

/-- A number below sixteen as a hexadecimal digit. -/
def hexDigit (n : Nat) : Char :=
  (Nat.toDigits 16 n).headD '0'

/-- A character inside quotes: quotes, backslashes and control characters are escaped, all
others stand for themselves. -/
def escapeChar (c : Char) : Text :=
  if c = '"' then ['\\', '"']
  else if c = '\\' then ['\\', '\\']
  else if c = '\x08' then ['\\', 'b']
  else if c = '\t' then ['\\', 't']
  else if c = '\n' then ['\\', 'n']
  else if c = '\x0c' then ['\\', 'f']
  else if c = '\r' then ['\\', 'r']
  else if c.toNat < 0x20 then
    ['\\', 'u', '0', '0', hexDigit (c.toNat / 16), hexDigit (c.toNat % 16)]
  else [c]

/-- A text between quotes. -/
def quote (t : Text) : Text :=
  '"' :: t.flatMap escapeChar ++ ['"']

/-! ### Values -/

/-- What stands after the colon of a field, and before an entry at a given depth. -/
structure Layout where
  afterColon : Text
  before : Nat → Text

/-- The layout without blanks. -/
def Layout.compact : Layout where
  afterColon := []
  before _ := []

/-- The layout with each entry on a line of its own, two spaces for each level. -/
def Layout.indented : Layout where
  afterColon := [' ']
  before depth := '\n' :: List.replicate (2 * depth) ' '

mutual

/-- The text of a value inside `depth` others, in front of `rest`. -/
def writeAt (l : Layout) (depth : Nat) (rest : Text) : Json → Text
  | .bool b => (if b then "true".toList else "false".toList) ++ rest
  | .str t => quote t ++ rest
  | .arr [] => '[' :: ']' :: rest
  | .arr (item :: items) =>
    let close := l.before depth ++ ']' :: rest
    let later := writeItems l (depth + 1) close items
    '[' :: (l.before (depth + 1) ++ writeAt l (depth + 1) later item)
  | .obj [] => '\x7b' :: '\x7d' :: rest
  | .obj (field :: fields) =>
    let close := l.before depth ++ '\x7d' :: rest
    let later := writeFields l (depth + 1) close fields
    '\x7b' :: (l.before (depth + 1) ++ writeField l (depth + 1) later field)

/-- The items of a list after its first one, in front of `rest`. -/
def writeItems (l : Layout) (depth : Nat) (rest : Text) : List Json → Text
  | [] => rest
  | item :: items =>
    ',' :: (l.before depth ++ writeAt l depth (writeItems l depth rest items) item)

/-- The name and the value of a field, in front of `rest`. -/
def writeField (l : Layout) (depth : Nat) (rest : Text) : Text × Json → Text
  | (name, value) => quote name ++ ':' :: (l.afterColon ++ writeAt l depth rest value)

/-- The fields of an object after its first one, in front of `rest`. -/
def writeFields (l : Layout) (depth : Nat) (rest : Text) : List (Text × Json) → Text
  | [] => rest
  | field :: fields =>
    ',' :: (l.before depth ++ writeField l depth (writeFields l depth rest fields) field)

end

/-- The text of a value. -/
def write (l : Layout) (j : Json) : Text :=
  writeAt l 0 [] j

end Json

end ApiDocs
