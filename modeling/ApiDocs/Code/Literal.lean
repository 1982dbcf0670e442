import ApiDocs.Text.Blank
import ApiDocs.Text.Word
/-!
# Types of literals

The start of a value shows its type when it is a literal.

Main definitions:

- `dropWord?`: what follows a word that stands alone at the start of a text.
- `typeOfLiteral?`: the type of a literal.
-/

namespace ApiDocs

/-- What follows `word` at the start of a text, if no word character does. -/
def dropWord? (word s : Text) : Option Text :=
  (Text.dropStart? word s).bind fun rest =>
    if (rest.head?.map isWordChar).getD false then none else some rest

/-- Whether a text starts with a number: a digit, or a point before one, with a minus sign
in front of it or none. -/
def startsNumber (s : Text) : Bool :=
  match if s.head? = some '-' then s.tail else s with
  | '.' :: c :: _ => isDigit c
  | c :: _ => isDigit c
  | [] => false

/-- The type of a value that starts with a literal. -/
def typeOfLiteral? (value : Text) : Option Text :=
  let value := Text.trimStart value
  match value.head? with
  | none => none
  | some c =>
    if c = '"' ∨ c = '\'' ∨ c = '`' then some "String".toList
    else if c = '[' then some "Array".toList
    else if c = '{' then some "Object".toList
    else if c = '/' then some "RegExp".toList
    else if startsNumber value then some "Number".toList
    else if (dropWord? "true".toList value).isSome ∨ (dropWord? "false".toList value).isSome then
      some "Boolean".toList
    else if "function".toList.isPrefixOf value then some "Function".toList
    else none

end ApiDocs
