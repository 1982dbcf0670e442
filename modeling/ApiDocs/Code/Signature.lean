import ApiDocs.Code.Literal
import ApiDocs.Code.Trivia
/-!
# Signatures

The code after a doc comment often shows the name, the type and the parameters of what is
documented.  Five forms are known: a declared function, a function or another value that is
assigned to a name, and a function or another value that is a property of an object.  They
are tried in that order, functions first.

Main definitions:

- `Signature`: what code shows.
- `functionDeclaration?`, `assignedFunction?`, `functionProperty?`, `assignedValue?`,
  `valueProperty?`: the five forms.
- `Signature.ofCode`: the signature of some code.
-/

namespace ApiDocs

/-- What code shows of the thing that it defines. -/
@[ext]
structure Signature where
  name : Option Text := none
  type : Option Text := none
  params : List Text := []
  deriving DecidableEq, Repr

/-! ### Names -/

/-- The identifier at the start of a text and what follows it. -/
def readIdentifier? (s : Text) : Option (Text × Text) :=
  let name := s.takeWhile isNameChar
  if name.isEmpty then none else some (name, s.drop name.length)

/-- The rest of a dotted name after one of its identifiers: as many further ones as a dot
precedes. -/
def readDotted : Text → Text × Text
  | '.' :: s =>
    match s.takeWhile isNameChar with
    | [] => ([], '.' :: s)
    | c :: cs =>
      let later := readDotted (s.drop (cs.length + 1))
      ('.' :: c :: cs ++ later.1, later.2)
  | s => ([], s)
termination_by s => s.length
decreasing_by
  simp only [List.length_drop, List.length_cons]
  omega

/-- The dotted name at the start of a text and what follows it. -/
def readDottedName? (s : Text) : Option (Text × Text) :=
  (readIdentifier? s).map fun (first, rest) =>
    let later := readDotted rest
    (first ++ later.1, later.2)

/-- The key of a property at the start of a text and what follows it: an identifier, or a
text between two quotes of one sort. -/
def readKey? : Text → Option (Text × Text)
  | '"' :: s => quoted '"' s
  | '\'' :: s => quoted '\'' s
  | s => readIdentifier? s
where
  /-- The key that ends at the next quote. -/
  quoted (quote : Char) (s : Text) : Option (Text × Text) :=
    (Text.breakOn? [quote] s).map fun (key, rest) => (quote :: key ++ [quote], rest)

/-- A name without the quotes at its ends. -/
def dropQuotes (name : Text) : Text :=
  let isQuote (c : Char) : Bool := c == '"' || c == '\''
  ((name.dropWhile isQuote).reverse.dropWhile isQuote).reverse

/-! ### Parameters -/

/-- A text without the three dots of a rest parameter at its start. -/
def dropDots : Text → Text
  | '.' :: '.' :: '.' :: s => dropDots s
  | s => s

/-- The parameters between the parentheses, without defaults and dots. -/
def paramNames (list : Text) : List Text :=
  let name (p : Text) : Text := dropDots (Text.trim (p.takeWhile (· ≠ '=')))
  ((Text.fields ',' list).map name).filter (! ·.isEmpty)

/-- The text between the parentheses that come next, if nothing precedes them. -/
def readParens? : Text → Option Text
  | '(' :: s => (Text.breakOn? ")".toList s).map Prod.fst
  | _ => none

/-- The text between the first parentheses after the word that starts a function. -/
def readFunction? (s : Text) : Option Text :=
  (dropWord? "function".toList s).bind fun rest => readParens? (rest.dropWhile (· ≠ '('))

/-! ### The five forms -/

/-- What follows a word and at least one blank. -/
def dropWordAndBlanks? (word s : Text) : Option Text :=
  (Text.dropStart? word s).bind fun rest =>
    if (rest.head?.map isBlank).getD false then some (Text.trimStart rest) else none

/-- What follows a character, with blanks before and after it. -/
def dropMark? (mark : Char) (s : Text) : Option Text :=
  match Text.trimStart s with
  | [] => none
  | c :: s => if c = mark then some (Text.trimStart s) else none

/-- A name and what follows its equals sign. -/
def readAssignment? (s : Text) : Option (Text × Text) :=
  (readDottedName? s).bind fun (name, rest) =>
    (dropMark? '=' rest).map fun value => (name, value)

/-- A key and what follows its colon. -/
def readProperty? (s : Text) : Option (Text × Text) :=
  (readKey? s).bind fun (key, rest) => (dropMark? ':' rest).map fun value => (key, value)

/-- What follows the word that declares a variable. -/
def dropDeclarator? (s : Text) : Option Text :=
  ["var".toList, "let".toList, "const".toList].findSome? (dropWordAndBlanks? · s)

/-- Tries a form behind the word that declares a variable, and then on the whole text. -/
def declared? {α : Type} (form : Text → Option α) (s : Text) : Option α :=
  ((dropDeclarator? s).bind form) <|> form s

/-- The rest of a line. -/
def restOfLine (s : Text) : Text :=
  s.takeWhile (· ≠ '\n')

/-- A declared function: its name and its parameters. -/
def functionDeclaration? (s : Text) : Option (Text × Text) :=
  (dropWordAndBlanks? "function".toList s).bind fun rest =>
    (readIdentifier? rest).bind fun (name, rest) =>
      (readParens? (Text.trimStart rest)).map fun params => (name, params)

/-- A function assigned to a name: the name and the parameters. -/
def assignedFunction? (s : Text) : Option (Text × Text) :=
  declared? (fun s => (readAssignment? s).bind fun (name, value) =>
    (readFunction? value).map fun params => (name, params)) s

/-- A function as a property: its key and its parameters. -/
def functionProperty? (s : Text) : Option (Text × Text) :=
  (readProperty? s).bind fun (key, value) =>
    (readFunction? value).map fun params => (key, params)

/-- A value assigned to a name: the name, and the value to the end of its line.  A second
equals sign makes it a comparison. -/
def assignedValue? (s : Text) : Option (Text × Text) :=
  declared? (fun s => (readAssignment? s).bind fun (name, value) =>
    if value.isEmpty ∨ value.head? = some '=' then none else some (name, restOfLine value)) s

/-- A value as a property: its key, and the value to the end of its line. -/
def valueProperty? (s : Text) : Option (Text × Text) :=
  (readProperty? s).map fun (key, value) => (key, restOfLine value)

namespace Signature

/-- The signature of a function with this name and list of parameters. -/
def ofFunction (found : Text × Text) : Signature where
  name := some (dropQuotes found.1)
  type := some "Function".toList
  params := paramNames found.2

/-- The signature of a name with this value. -/
def ofValue (found : Text × Text) : Signature where
  name := some (dropQuotes found.1)
  type := typeOfLiteral? found.2

/-- The signature of code without blanks and comments at its start. -/
def read? (code : Text) : Option Signature :=
  ((functionDeclaration? code <|> assignedFunction? code <|> functionProperty? code).map
      ofFunction) <|>
    ((assignedValue? code <|> valueProperty? code).map ofValue)

/-- The signature of the code after a doc comment; it may show nothing. -/
def ofCode (code : Text) : Signature :=
  (read? (dropTrivia code)).getD {}

end Signature

end ApiDocs
