import ApiDocs.Cut
import ApiDocs.Doc.Report
import ApiDocs.Source.Lexeme
/-!
# Doc blocks of a source text

A source is read as a sequence of doc blocks: doc comments, each with the code up to the
next one.  What stands before the first doc comment documents nothing and is dropped.  A doc
comment that is never closed is a fault; an ordinary comment that is never closed runs to the
end of the code.

Main definitions:

- `DocBlock`: a doc comment, the code after it, and the line on which it opens.
- `docBlocks`: the doc blocks of a source.
-/

namespace ApiDocs

/-- A doc comment and the code after it.  The line counts from one. -/
@[ext]
structure DocBlock where
  comment : Text
  code : Text
  line : Nat
  deriving DecidableEq, Repr

/-- A doc comment as it stands in a source. -/
inductive DocMark
  | closed (body : Text)
  | unclosed (body : Text)
  deriving DecidableEq, Repr

/-- The doc comment that a lexeme is. -/
def Lexeme.docMark? : Lexeme → Option DocMark
  | .doc body => some (.closed body)
  | .openDoc body => some (.unclosed body)
  | _ => none

/-- The lexeme that a doc comment is. -/
def DocMark.lexeme : DocMark → Lexeme
  | .closed body => .doc body
  | .unclosed body => .openDoc body

/-- The text that a list of lexemes spells. -/
def spell (lexemes : List Lexeme) : Text :=
  lexemes.flatMap Lexeme.text

/-- Doc blocks from doc comments with the lexemes after each, the first of them on `line`. -/
def placeBlocks (line : Nat) : List (DocMark × List Lexeme) → Except Fault (List DocBlock)
  | [] => .ok []
  | (.unclosed _, _) :: _ => .error (.unclosedComment line)
  | (.closed body, code) :: rest =>
    let next := line + Text.lineBreaks body + Text.lineBreaks (spell code)
    (placeBlocks next rest).map fun later => ⟨body, spell code, line⟩ :: later

/-- The doc blocks of a source, or the line of the doc comment that is never closed. -/
def docBlocks (source : Text) : Except Fault (List DocBlock) :=
  let parts := cut Lexeme.docMark? (scan source)
  placeBlocks (1 + Text.lineBreaks (spell parts.1)) parts.2

end ApiDocs
