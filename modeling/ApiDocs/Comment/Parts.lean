import ApiDocs.Doc.Report
import ApiDocs.Text.Blank
import ApiDocs.Text.Word
/-!
# Parts of a section

The text of a section may start with a type in braces and a name, and goes on with a body.
Which of them are read depends on the tag.  Braces nest, so a type ends where they balance;
a parameter may put its name into brackets, with a default after an equals sign, to say that
it is optional.  A bracket that is never closed leaves the whole text body.

Main definitions:

- `readBraces`, `TypeReading.read`: the type at the start of a text.
- `isName`: the names that tags accept.
- `SectionParts`, `SectionParts.read`: type, name and body of a section.
-/

namespace ApiDocs

/-- What stands before the brace that closes an open one, and what follows it.  `depth`
further braces are open inside. -/
def readBraces (depth : Nat) : Text → Option (Text × Text)
  | [] => none
  | c :: s =>
    if c = '{' then (readBraces (depth + 1) s).map fun (inner, rest) => (c :: inner, rest)
    else if c = '}' then
      match depth with
      | 0 => some ([], s)
      | depth + 1 => (readBraces depth s).map fun (inner, rest) => (c :: inner, rest)
    else (readBraces depth s).map fun (inner, rest) => (c :: inner, rest)

/-- What a text has for a type at its start. -/
inductive TypeReading
  | absent
  | found (type rest : Text)
  | unclosed
  deriving DecidableEq, Repr

/-- Reads the type at the start of a text. -/
def TypeReading.read : Text → TypeReading
  | '{' :: s =>
    match readBraces 0 s with
    | some (inner, rest) => .found (Text.trim inner) rest
    | none => .unclosed
  | _ => .absent

/-- The names that tags accept: an ASCII letter, an underscore or a dollar sign, then
identifier characters and dots. -/
def isName : Text → Bool
  | [] => false
  | c :: s =>
    (c.isAlpha || c == '_' || c == '$') && s.all fun c => isNameChar c || c == '.'

/-- How a tag writes its name. -/
inductive NameForm
  /-- The tag has no name. -/
  | none
  /-- The name is the first word. -/
  | plain
  /-- The name is the first word, or stands in brackets when it is optional. -/
  | bracketed
  deriving DecidableEq, Repr

/-- Type, name and body of a section, and what is wrong with their form. -/
structure SectionParts where
  type : Option Text := none
  name : Option Text := none
  isOptional : Bool := false
  body : Text := []
  defect : Option Malformation := none
  deriving DecidableEq, Repr

/-- A name that is the first word of a text; without one, all of it is body. -/
def readPlainName (s : Text) : SectionParts :=
  let word := s.takeWhile (! isBlank ·)
  if isName word then { name := some word, body := Text.trim (s.drop word.length) }
  else { body := Text.trim s }

/-- A name in brackets, after the opening one: it ends at the first closing bracket, and an
equals sign starts a default.  What is no name is dropped with its brackets. -/
def readBracketedName (s : Text) : Option SectionParts :=
  (Text.breakOn? "]".toList s).map fun (inner, rest) =>
    let word := Text.trim (inner.takeWhile (· ≠ '='))
    if isName word then { name := some word, isOptional := true, body := Text.trim rest }
    else { body := Text.trim rest }

/-- Name and body of a text without blanks at its start; `none` if a bracket is never
closed. -/
def readName (form : NameForm) (s : Text) : Option SectionParts :=
  match form, s with
  | .none, s => some { body := Text.trim s }
  | .bracketed, '[' :: s => readBracketedName s
  | _, s => some (readPlainName s)

/-- Reads the parts of the text of a section.  After a defect the whole text is body. -/
def SectionParts.read (hasType : Bool) (form : NameForm) (s : Text) : SectionParts :=
  let s := Text.trimStart s
  let broken (reason : Malformation) : SectionParts :=
    { body := Text.trim s, defect := some reason }
  let named (type : Option Text) (rest : Text) : SectionParts :=
    match readName form (Text.trimStart rest) with
    | some parts => { parts with type := type }
    | none => broken .unclosedName
  match if hasType then TypeReading.read s else .absent with
  | .absent => named none s
  | .found type rest => named (some type) rest
  | .unclosed => broken .unclosedType

end ApiDocs
