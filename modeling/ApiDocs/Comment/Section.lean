import ApiDocs.Comment.Tag
import ApiDocs.Cut
import ApiDocs.Doc.Report
import ApiDocs.Text.Blank
/-!
# Sections of a comment

The lines of a comment, freed from the asterisks that decorate them, form a description and
then one section for each tag line: its tag, and all text up to the next tag line.

Main definitions:

- `undecorate`: a line without its decoration.
- `CommentLine`: a line with its number.
- `Section`: a tag and its text.
- `Comment.read`: the description, the sections, and the words that are no tags.
-/

namespace ApiDocs

/-- A line of a comment without the blanks at its start, one asterisk, and one space after
that. -/
def undecorate (line : Text) : Text :=
  match Text.trimStart line with
  | '*' :: ' ' :: rest => rest
  | '*' :: rest => rest
  | rest => rest

/-- An undecorated line of a comment with its number in the source. -/
structure CommentLine where
  number : Nat
  content : Text
  deriving DecidableEq, Repr

/-- The undecorated lines of a comment that opens on the given line of its source. -/
def commentLines (line : Nat) (text : Text) : List CommentLine :=
  (Text.lines text).zipIdx line |>.map fun (raw, number) => ⟨number, undecorate raw⟩

/-- A tag line: the tag, its word as written, and the text after it. -/
structure Opening where
  tag : Tag
  spelling : Text
  rest : Text
  line : Nat
  deriving DecidableEq, Repr

namespace CommentLine

/-- The word that a line has after `@`, and what follows it. -/
def tagWord? (l : CommentLine) : Option (Text × Text) :=
  readTagLine? (Text.trim l.content)

/-- The tag line that a line is. -/
def opening? (l : CommentLine) : Option Opening :=
  l.tagWord?.bind fun (word, rest) =>
    (Tag.ofWord? word).map fun tag => ⟨tag, word, rest, l.number⟩

/-- The report on a line whose word is no tag. -/
def unknownTag? (l : CommentLine) : Option Report :=
  l.tagWord?.bind fun (word, _) =>
    if (Tag.ofWord? word).isNone then some (.unknownTag word l.number) else none

end CommentLine

/-- A tag with all text up to the next one. -/
structure Section where
  tag : Tag
  spelling : Text
  text : Text
  line : Nat
  deriving DecidableEq, Repr

/-- The section of a tag line and the lines that follow it: each goes on a line of its own,
with its blanks. -/
def Section.ofLines (opening : Opening) (rest : List CommentLine) : Section where
  tag := opening.tag
  spelling := opening.spelling
  text := Text.trimStart opening.rest ++ rest.flatMap fun l => '\n' :: l.content
  line := opening.line

/-- A comment taken apart.  `unknown` reports the words that are no tags. -/
structure Comment where
  description : Text
  sections : List Section
  unknown : List Report
  deriving DecidableEq, Repr

/-- Takes apart the text of a comment that opens on the given line. -/
def Comment.read (line : Nat) (text : Text) : Comment :=
  let all := commentLines line text
  let parts := cut CommentLine.opening? all
  { description := Text.trim (Text.joinWith "\n".toList (parts.1.map CommentLine.content))
    sections := parts.2.map fun (opening, rest) => Section.ofLines opening rest
    unknown := all.filterMap CommentLine.unknownTag? }

end ApiDocs
