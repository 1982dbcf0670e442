import ApiDocs.Comment.Parts
import ApiDocs.Comment.Section
/-!
# Nodes of comments

Each section of a comment states a fact about what the comment documents and may leave some
prose for its description.  The first tag that can decide what is documented claims the
comment; a later one of that sort is text.  A comment with a constructor tag and no other
deciding tag before it documents the method `constructor`.

Main definitions:

- `kindOf`: what a comment documents.
- `Fact`, `DocNode.learn`: a fact, and a node completed by it.
- `Section.read`: the fact, the prose and the defect of a section.
- `DocNode.ofComment`: the node of a comment, with the reports on it.
-/

namespace ApiDocs

/-- What a comment with these sections documents: the subject of its first deciding tag,
else a method when it has a constructor tag, else a class. -/
def kindOf (sections : List Section) : Kind :=
  match sections.findSome? (·.tag.subject?) with
  | some kind => kind
  | none => if sections.any (·.tag = .constructor) then .member .method else .cls

/-- A statement about what a comment documents. -/
inductive Fact
  /-- The deciding tag gives type and name, or clears them. -/
  | subject (type name : Option Text)
  /-- The thing is a constructor. -/
  | constructor
  /-- It has this type unless it has one already. -/
  | type (type : Option Text)
  | param (node : DocNode)
  | returns (returns : Returns)
  | parent (name : Option Text)
  | mixins (names : List Text)
  | singleton
  | hidden
  /-- The section states nothing. -/
  | nothing

/-- The node that a fact completes. -/
def DocNode.learn (node : DocNode) : Fact → DocNode
  | .subject type name => { node with type := type, name := name }
  | .constructor => { node with name := some "constructor".toList }
  | .type type => { node with type := node.type <|> type }
  | .param p => { node with params := node.params ++ [p] }
  | .returns r => { node with returns := some r }
  | .parent name => { node with parent := name }
  | .mixins names => { node with mixins := node.mixins.insertAll names }
  | .singleton => { node with isSingleton := true }
  | .hidden => { node with isPrivate := true }
  | .nothing => node

/-- What a section says: its fact, its prose, and what is wrong with it. -/
structure Reading where
  fact : Fact
  prose : Text := []
  defect : Option Malformation := none

namespace Section

/-- Whether the section decides, in a comment on this kind of thing that no section has
claimed before, what the comment is about. -/
def claims (kind : Kind) (s : Section) : Bool :=
  s.tag.subject?.isSome || (s.tag = .constructor && kind = .member .method)

/-- The reading of a deciding tag.  Only configuration options and properties have a type
there, and a tag in a comment that is claimed is text. -/
def readSubject (subject : Kind) (claimed : Bool) (s : Section) : Reading :=
  if claimed then
    { fact := .nothing
      prose := '@' :: s.spelling ++ ' ' :: s.text
      defect := some .conflictingKind }
  else
    let hasType := subject = .member .cfg || subject = .member .property
    let parts := SectionParts.read hasType .plain s.text
    { fact := .subject parts.type parts.name, prose := parts.body, defect := parts.defect }

/-- The parameter that a section describes. -/
def readParam (s : Section) : Reading :=
  let parts := SectionParts.read true .bracketed s.text
  { fact := .param
      { kind := .param, name := parts.name, type := parts.type,
        description := parts.body, isOptional := parts.isOptional, line := s.line }
    defect := parts.defect }

/-- The reading of a type tag: the type in braces, else the first word. -/
def readTypeTag (s : Section) : Reading :=
  let parts := SectionParts.read true .none s.text
  { fact := .type (parts.type <|> (Text.words parts.body).head?), defect := parts.defect }

/-- The reading of a section in a comment on the given kind of thing, which an earlier
section may have claimed. -/
def read (kind : Kind) (claimed : Bool) (s : Section) : Reading :=
  match s.tag with
  | .cls => s.readSubject .cls claimed
  | .member k => s.readSubject (.member k) claimed
  | .constructor =>
    { fact := if claimed = false ∧ kind = .member .method then .constructor else .nothing
      prose := s.text }
  | .type => s.readTypeTag
  | .param => s.readParam
  | .returns =>
    let parts := SectionParts.read true .none s.text
    { fact := .returns ⟨parts.type, parts.body⟩, defect := parts.defect }
  | .parent =>
    let parts := SectionParts.read false .plain s.text
    { fact := .parent parts.name, prose := parts.body }
  | .mixins =>
    { fact := .mixins (Text.words (s.text.takeWhile (· ≠ '\n')))
      prose := s.text.dropWhile (· ≠ '\n') }
  | .singleton => { fact := .singleton, prose := s.text }
  | .hidden => { fact := .hidden, prose := s.text }

/-- The report on what is wrong with a section. -/
def report (s : Section) (reading : Reading) : Option Report :=
  reading.defect.map fun reason => .malformedTag s.spelling s.line reason

end Section

/-- The sections of a comment with their readings, `claimed` if one before them claims it. -/
def readSections (kind : Kind) (claimed : Bool) : List Section → List (Section × Reading)
  | [] => []
  | s :: rest => (s, s.read kind claimed) :: readSections kind (claimed || s.claims kind) rest

/-- The pieces of a description, each trimmed and on lines of its own. -/
def describe (pieces : List Text) : Text :=
  Text.joinWith "\n".toList ((pieces.map Text.trim).filter (! ·.isEmpty))

/-- The node of a comment that opens on the given line, with the reports on it: first the
words that are no tags, then the sections with a defect. -/
def DocNode.ofComment (line : Nat) (text : Text) : DocNode × List Report :=
  let comment := Comment.read line text
  let kind := kindOf comment.sections
  let readings := readSections kind false comment.sections
  let node := (readings.map (·.2.fact)).foldl DocNode.learn { kind := kind, line := line }
  ({ node with description := describe (comment.description :: readings.map (·.2.prose)) },
    comment.unknown ++ readings.filterMap fun (s, reading) => s.report reading)

end ApiDocs
