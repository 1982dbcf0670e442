import ApiDocs.Class.Basic
import ApiDocs.Cut
import ApiDocs.Doc.Report
/-!
# The catalog of classes

In each unit the named members after the comment of a class, up to the next one, belong to
that class.  A node that belongs to no class is an orphan: a class or a member without a
name, a parameter, and a member that no named class precedes in its unit.  When a class is
documented twice, the later documentation replaces the earlier one with all its members.

Main definitions:

- `DocNode.filedUnder?`: the list of a class in which a node belongs.
- `UnitClasses`: what one unit contributes.
- `Catalog`, `Catalog.ofUnits`: classes and orphans of a list of units.
-/

namespace ApiDocs

/-- A node that belongs to no class. -/
structure Orphan where
  kind : Kind
  name : Option Text
  line : Nat
  deriving DecidableEq, Repr

/-- The report on an orphan. -/
def Orphan.report (o : Orphan) : Report :=
  .orphan o.kind o.name

namespace DocNode

/-- A node as an orphan. -/
def orphan (node : DocNode) : Orphan :=
  ⟨node.kind, node.name, node.line⟩

/-- The list of a class in which a node belongs: that of its kind, when it is a member and
has a name. -/
def filedUnder? (node : DocNode) : Option MemberKind :=
  match node.kind, node.name with
  | .member k, some _ => some k
  | _, _ => none

/-- The node itself when it documents a class. -/
def classNode? (node : DocNode) : Option DocNode :=
  if node.kind = .cls then some node else none

end DocNode

/-- The class with this name and comment, and those of the nodes after it that it files. -/
def ClassDoc.ofNodes (name : Text) (doc : DocNode) (nodes : List DocNode) : ClassDoc where
  name := name
  doc := doc
  members := .ofFn fun k => nodes.filter (·.filedUnder? = some k)

/-! ### One unit -/

/-- What one unit contributes: its classes and its orphans in source order. -/
structure UnitClasses where
  classes : List ClassDoc
  orphans : List Orphan

/-- The class that a class node starts, if it has a name. -/
def startedClass? (doc : DocNode) (nodes : List DocNode) : Option ClassDoc :=
  doc.name.map fun name => .ofNodes name doc nodes

/-- The orphans among a class node and the nodes after it: without a name for the class, all
of them. -/
def orphansAfter (doc : DocNode) (nodes : List DocNode) : List Orphan :=
  match doc.name with
  | some _ => (nodes.filter (·.filedUnder?.isNone)).map DocNode.orphan
  | none => (doc :: nodes).map DocNode.orphan

/-- The classes and the orphans of the nodes of a unit. -/
def UnitClasses.ofNodes (nodes : List DocNode) : UnitClasses :=
  let parts := cut DocNode.classNode? nodes
  { classes := parts.2.filterMap fun (doc, rest) => startedClass? doc rest
    orphans := parts.1.map DocNode.orphan ++
      parts.2.flatMap fun (doc, rest) => orphansAfter doc rest }

/-! ### All units -/

/-- The classes of all units, their orphans in input order, and the name of each class that
was documented before, once for each later documentation. -/
structure Catalog where
  classes : ClassTable
  orphans : List Orphan
  redefined : List Text

/-- The names that occur before in a list, or among those already seen. -/
def repeatedNames (seen : List Text) : List Text → List Text
  | [] => []
  | name :: rest =>
    if name ∈ seen then name :: repeatedNames seen rest
    else repeatedNames (name :: seen) rest

/-- The catalog of the nodes of each unit. -/
def Catalog.ofUnits (units : List (List DocNode)) : Catalog :=
  let parts := units.map UnitClasses.ofNodes
  let classes := parts.flatMap UnitClasses.classes
  { classes := .ofList classes
    orphans := parts.flatMap UnitClasses.orphans
    redefined := repeatedNames [] (classes.map ClassDoc.name) }

end ApiDocs
