import ApiDocs.Json.Basic
import ApiDocs.Page.Basic
/-!
# Pages as JSON

A page is written as one object: the class with its own members, the hierarchy, and the
members that the page shows, each with the class that declares it.  Fields without content
are left out; the line of a node is not part of a page.

Main definitions:

- `DocNode.jsonFields`: the fields of a node.
- `Page.toJson`, `Page.renderJson`: a page as a value and as text.
-/

namespace ApiDocs

/-- What a method gives back, as a value. -/
def Returns.toJson (r : Returns) : Json :=
  .obj (Json.field? "type".toList (r.type.map .str)
    ++ [("description".toList, .str r.description)])

namespace DocNode

mutual

/-- The fields of a node. -/
def jsonFields : DocNode → List (Text × Json)
  | ⟨kind, name, type, description, params, returns, parent, mixins, isSingleton, isPrivate,
      isOptional, _⟩ =>
    [("kind".toList, .str kind.name)]
      ++ Json.field? "name".toList (name.map .str)
      ++ Json.field? "type".toList (type.map .str)
      ++ [("description".toList, .str description)]
      ++ Json.fieldUnlessEmpty "params".toList (jsonList params)
      ++ Json.field? "returns".toList (returns.map Returns.toJson)
      ++ Json.field? "extends".toList (parent.map .str)
      ++ Json.fieldUnlessEmpty "mixins".toList (mixins.entries.map .str)
      ++ [("singleton".toList, .bool isSingleton), ("private".toList, .bool isPrivate),
        ("optional".toList, .bool isOptional)]

/-- The nodes of a list as values. -/
def jsonList : List DocNode → List Json
  | [] => []
  | node :: nodes => .obj (jsonFields node) :: jsonList nodes

end

end DocNode

/-- A member with its owner as a value. -/
def OwnedMember.toJson (r : OwnedMember) : Json :=
  .obj (r.node.jsonFields ++ [("origin".toList, .str r.owner)])

/-- The fields of the four lists of members. -/
def Members.jsonFields {α : Type} (toJson : List α → List Json) (ms : Members α) :
    List (Text × Json) :=
  [("cfgs".toList, .arr (toJson ms.cfgs)), ("properties".toList, .arr (toJson ms.properties)),
    ("methods".toList, .arr (toJson ms.methods)), ("events".toList, .arr (toJson ms.events))]

/-- A class with its own members as a value. -/
def ClassDoc.toJson (cls : ClassDoc) : Json :=
  .obj ([("name".toList, .str cls.name), ("doc".toList, .obj cls.doc.jsonFields)]
    ++ cls.members.jsonFields DocNode.jsonList)

namespace Page

/-- A page as a value. -/
def toJson (page : Page) : Json :=
  .obj ([("class".toList, page.subject.toJson),
      ("hierarchy".toList, .arr (page.hierarchy.map .str))]
    ++ page.members.jsonFields (List.map OwnedMember.toJson))

/-- A page as JSON text, with a line break at its end. -/
def renderJson (page : Page) : Text :=
  page.toJson.write .indented ++ ['\n']

end Page

end ApiDocs
