import ApiDocs.Doc.Kind
import ApiDocs.Sorted
/-!
# Documentation nodes

A node holds what one doc comment, completed by the code after it, says about a class, a
member or a parameter.  Parameters are nodes inside the node that they belong to.

Main definitions:

- `Returns`: what a method gives back.
- `DocNode`: one documented thing.
- `DocNode.label`: its name as shown to readers.
-/

namespace ApiDocs

/-- What a method gives back. -/
structure Returns where
  type : Option Text := none
  description : Text := []
  deriving DecidableEq, Repr

/-- One documented thing.  `parent` is the class that a class extends, `line` the line of
the source on which the documentation starts, and `optional` belongs to parameters. -/
@[ext]
structure DocNode where
  kind : Kind
  name : Option Text := none
  type : Option Text := none
  description : Text := []
  params : List DocNode := []
  returns : Option Returns := none
  parent : Option Text := none
  mixins : NameSet := ∅
  isSingleton : Bool := false
  isPrivate : Bool := false
  isOptional : Bool := false
  line : Nat := 0

instance : Inhabited DocNode := ⟨{ kind := .cls }⟩

/-- What stands for a missing name. -/
def placeholder : Text := "?".toList

namespace DocNode

/-- The name of a node, or the placeholder. -/
def label (node : DocNode) : Text :=
  node.name.getD placeholder

end DocNode

end ApiDocs
