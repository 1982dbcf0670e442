import ApiDocs.Code.Signature
import ApiDocs.Doc.Node
/-!
# Nodes completed by code

What the tags of a comment leave open is taken from the code after it; what they say stays.
A class has no type of its own, so that a function assigned to its name is its constructor,
and only methods and events have parameters that code can show.

Main definitions:

- `DocNode.fill`: a node completed by a signature.
- `DocNode.fillFromCode`: a node completed by the code after its comment.
-/

namespace ApiDocs

namespace DocNode

/-- The name that a node of this kind takes from code: a class the whole of it, anything
else what follows the last dot. -/
def nameFromCode (kind : Kind) (name : Text) : Text :=
  if kind = .cls then name else Text.lastField '.' name

/-- A node completed by a signature. -/
def fill (node : DocNode) (sig : Signature) : DocNode :=
  { node with
    name := node.name <|> sig.name.map (nameFromCode node.kind)
    type := if node.kind = .cls then node.type else node.type <|> sig.type
    params :=
      if node.kind.isCalled ∧ node.params.isEmpty then
        sig.params.map fun p => { kind := .param, name := some p, line := node.line }
      else node.params }

/-- A node completed by the code after its comment. -/
def fillFromCode (node : DocNode) (code : Text) : DocNode :=
  node.fill (Signature.ofCode code)

end DocNode

end ApiDocs
