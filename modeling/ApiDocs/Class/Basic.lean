import ApiDocs.Doc.Node
/-!
# Documented classes

A documented class has a name, the node of its own comment, and its members, one list for
each kind.  A table of classes is sorted by name and holds at most one class for a name.

Main definitions:

- `ClassDoc`: a class with its members.
- `ClassTable`: classes by name.
- `pageRef`: how references spell the page of a class.
-/

namespace ApiDocs

/-- A class with its documented members. -/
@[ext]
structure ClassDoc where
  name : Text
  doc : DocNode
  members : Members DocNode := {}

instance : Inhabited ClassDoc := ⟨⟨[], default, {}⟩⟩

/-- Classes in increasing order of their names. -/
abbrev ClassTable := SortedBy ClassDoc.name

/-- The name of the page file of a class, as references spell it. -/
def pageRef (name : Text) : Text :=
  name ++ ".html".toList

namespace ClassDoc

/-- The name of the class that a class extends. -/
def parent? (cls : ClassDoc) : Option Text :=
  cls.doc.parent

/-- The first kind, in page order, of which a class declares a member with this name. -/
def declares? (cls : ClassDoc) (member : Text) : Option MemberKind :=
  MemberKind.all.find? fun k => (cls.members.ofKind k).any (·.name = some member)

end ClassDoc

end ApiDocs
