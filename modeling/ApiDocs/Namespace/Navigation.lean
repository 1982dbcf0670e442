import ApiDocs.Json.Basic
import ApiDocs.Namespace.Basic
/-!
# Navigation

The page viewer shows the tree of namespaces: a package for each node that holds others, a
leaf for each class.  A node that is both is shown as both.  Under one parent the packages
come before the leaves.

Main definitions:

- `NavItem`: a package or a leaf.
- `navItems`: the items for the nodes under one parent.
- `navigation`: the script that hands the items to the viewer.
-/

namespace ApiDocs

/-- An entry of the navigation. -/
inductive NavItem
  /-- A node that holds others; `path` are the segments that lead to it, joined by dots. -/
  | package (path segment : Text) (items : List NavItem)
  /-- A class with the last segment of its name. -/
  | leaf (name segment : Text) (isSingleton : Bool)

/-- The path to a node below `path`. -/
def joinPath (path segment : Text) : Text :=
  if path.isEmpty then segment else path ++ '.' :: segment

/-- The packages and the leaves for the nodes under the parent at `path`. -/
def navParts (path : Text) : Namespace → List NavItem × List NavItem
  | .none => ([], [])
  | .node segment cls below beside =>
    let own := joinPath path segment
    let inner := navParts own below
    let later := navParts path beside
    let package :=
      match below with
      | .none => []
      | .node .. => [NavItem.package own segment (inner.1 ++ inner.2)]
    let leaf :=
      match cls with
      | none => []
      | some c => [NavItem.leaf c.name segment c.doc.isSingleton]
    (package ++ later.1, leaf ++ later.2)

/-- The items for a tree: packages first, then leaves. -/
def navItems (tree : Namespace) : List NavItem :=
  let parts := navParts [] tree
  parts.1 ++ parts.2

namespace NavItem

/-- The mark of an item for the viewer. -/
def id : NavItem → Text
  | package path _ _ => "pkg-".toList ++ path
  | leaf name _ _ => name

/-- What the viewer shows for an item. -/
def label : NavItem → Text
  | package _ segment _ => segment
  | leaf _ segment _ => segment

mutual

/-- An item as the viewer reads it. -/
def toJson : NavItem → Json
  | package path segment items =>
    .obj ([("id".toList, .str (id (package path segment items))), ("text".toList, .str segment),
        ("iconCls".toList, .str "icon-pkg".toList), ("cls".toList, .str "package".toList),
        ("singleClickExpand".toList, .bool true)]
      ++ Json.fieldUnlessEmpty "children".toList (listToJson items))
  | leaf name segment isSingleton =>
    let icon := if isSingleton then "icon-singleton".toList else "icon-cls".toList
    .obj [("id".toList, .str name), ("text".toList, .str segment),
      ("iconCls".toList, .str icon), ("cls".toList, .str "cls".toList),
      ("href".toList, .str (pageRef name)), ("isClass".toList, .bool true),
      ("leaf".toList, .bool true)]

/-- The items of a list as the viewer reads them. -/
def listToJson : List NavItem → List Json
  | [] => []
  | item :: items => toJson item :: listToJson items

end

end NavItem

/-- The mark of the root of the navigation. -/
def navRootId : Text :=
  "apidocs".toList

/-- The root of the navigation with the given items. -/
def navRoot (items : List NavItem) : Json :=
  .obj ([("id".toList, .str navRootId), ("text".toList, .str "API Documentation".toList),
      ("iconCls".toList, .str "icon-docs".toList), ("singleClickExpand".toList, .bool true)]
    ++ Json.fieldUnlessEmpty "children".toList (NavItem.listToJson items))

/-- The script that hands the navigation for a table of classes to the viewer. -/
def navigation (table : ClassTable) : Text :=
  "Docs.classData = ".toList ++ (navRoot (navItems (.ofTable table))).write .compact
    ++ ";Docs.icons = \x7b\x7d;".toList

end ApiDocs
