import ApiDocs.Code.Fill
import ApiDocs.Comment.Node
import ApiDocs.Source.DocBlock
/-!
# Units

A unit is the text of one source file.  Each of its doc comments gives a node, completed by
the code after it.

Main definitions:

- `UnitDocs`: the nodes of a unit with the reports on its comments.
- `UnitDocs.read`: the documentation of a unit.
-/

namespace ApiDocs

/-- The nodes of a unit in source order, and the reports on its comments. -/
structure UnitDocs where
  nodes : List DocNode
  reports : List Report

/-- The node of a doc block, with the reports on its comment. -/
def DocBlock.read (b : DocBlock) : DocNode × List Report :=
  let found := DocNode.ofComment b.line b.comment
  (found.1.fillFromCode b.code, found.2)

/-- The documentation of the doc blocks of a unit. -/
def UnitDocs.ofBlocks (blocks : List DocBlock) : UnitDocs where
  nodes := blocks.map fun b => b.read.1
  reports := blocks.flatMap fun b => b.read.2

/-- The documentation of a unit, or the doc comment that is never closed. -/
def UnitDocs.read (source : Text) : Except Fault UnitDocs :=
  (docBlocks source).map UnitDocs.ofBlocks

end ApiDocs
