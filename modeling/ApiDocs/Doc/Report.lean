import ApiDocs.Doc.Node
/-!
# Reports and faults

A report states a defect that was recovered from: the comment is kept as far as it can
be read, and the work goes on.  A fault ends the work on a unit or a page.

Main definitions:

- `Malformation`: what is wrong with the form of a tag.
- `Report`, `Fault`: what was recovered from, and what was not.
- `Report.message`, `Fault.message`: their wording.
-/

namespace ApiDocs

/-- What is wrong with the form of a tag. -/
inductive Malformation
  | conflictingKind
  | unclosedType
  | unclosedName
  deriving DecidableEq, Repr

/-- The wording of a malformation. -/
def Malformation.message : Malformation → Text
  | .conflictingKind => "conflicting tag kind, kept as text".toList
  | .unclosedType => "type bracket never closed".toList
  | .unclosedName => "optional name bracket never closed".toList

/-- A defect that was recovered from. -/
inductive Report
  /-- A tag whose form is broken; `tag` is its word as written. -/
  | malformedTag (tag : Text) (line : Nat) (reason : Malformation)
  /-- A tag that is not known and therefore text. -/
  | unknownTag (tag : Text) (line : Nat)
  /-- A node that belongs to no class. -/
  | orphan (kind : Kind) (name : Option Text)
  /-- A class that extends one without documentation. -/
  | missingParent (cls parent : Text)
  deriving DecidableEq, Repr

/-- The wording of a report. -/
def Report.message : Report → Text
  | .malformedTag tag line reason =>
    "Malformed @".toList ++ tag ++ " at comment line ".toList ++ Text.ofNat line ++ ": ".toList
      ++ reason.message
  | .unknownTag tag line =>
    "Unknown tag @".toList ++ tag ++ " at comment line ".toList ++ Text.ofNat line
  | .orphan kind name =>
    "Ignoring ".toList ++ kind.name ++ ": ".toList ++ name.getD placeholder
  | .missingParent cls parent =>
    "Class ".toList ++ cls ++ " extends unknown class ".toList ++ parent

/-- A reason to give up a unit or a page. -/
inductive Fault
  /-- A doc comment that is not closed, with the line on which it opens. -/
  | unclosedComment (line : Nat)
  /-- The names met on the way up, the last of which occurs before. -/
  | cycle (chain : List Text)
  /-- A name without a class. -/
  | noSuchClass (name : Text)
  deriving DecidableEq, Repr

/-- The wording of a fault. -/
def Fault.message : Fault → Text
  | .unclosedComment line =>
    "unterminated doc comment starting at line ".toList ++ Text.ofNat line
  | .cycle chain =>
    "inheritance cycle: ".toList ++ Text.joinWith " -> ".toList chain
  | .noSuchClass name => "unknown class: ".toList ++ name

end ApiDocs
