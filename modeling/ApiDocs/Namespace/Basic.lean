import ApiDocs.Class.Basic
/-!
# Namespaces

The dots of a class name divide it into segments, and the names of all classes form a tree
of segments.  A node of the tree may stand for a class, hold further segments, or both.

Main definitions:

- `Namespace`: the nodes under one parent, each with the nodes below it.
- `Namespace.insert`, `Namespace.ofTable`: the tree of the classes of a table.
- `Namespace.find?`: the node at a path.
-/

namespace ApiDocs

/-- The segments of a dotted name. -/
def segmentsOf (name : Text) : List Text :=
  Text.fields '.' name

/-- The nodes under one parent in increasing order of their segments: the first node with
its class and the nodes below it, then the nodes beside it. -/
inductive Namespace
  | none
  | node (segment : Text) (cls : Option ClassDoc) (below beside : Namespace)

namespace Namespace

/-- What a node holds whose only class stands at the end of `path` below it. -/
def branch (cls : ClassDoc) : List Text → Option ClassDoc × Namespace
  | [] => (some cls, none)
  | segment :: path =>
    let inner := branch cls path
    (Option.none, node segment inner.1 inner.2 none)

/-- Puts a class at the end of the path `segment :: path`. -/
def insertAt (cls : ClassDoc) (segment : Text) (path : List Text) : Namespace → Namespace
  | none =>
    let inner := branch cls path
    node segment inner.1 inner.2 none
  | node s c below beside =>
    if segment < s then
      let inner := branch cls path
      node segment inner.1 inner.2 (node s c below beside)
    else if segment = s then
      match path with
      | [] => node s (some cls) below beside
      | next :: path => node s c (insertAt cls next path below) beside
    else node s c below (insertAt cls segment path beside)

/-- Puts a class where its name leads. -/
def insert (tree : Namespace) (cls : ClassDoc) : Namespace :=
  match segmentsOf cls.name with
  | [] => tree
  | segment :: path => insertAt cls segment path tree

/-- The tree of the classes of a table. -/
def ofTable (table : ClassTable) : Namespace :=
  table.entries.foldl insert none

/-- The class of the node with a segment, and the nodes below it. -/
def child? (segment : Text) : Namespace → Option (Option ClassDoc × Namespace)
  | none => Option.none
  | node s c below beside => if segment = s then some (c, below) else child? segment beside

/-- The class and the nodes below that a path leads to from a node with these. -/
def follow? (found : Option ClassDoc × Namespace) :
    List Text → Option (Option ClassDoc × Namespace)
  | [] => some found
  | segment :: path => (found.2.child? segment).bind fun next => follow? next path

/-- The class of the node that a dotted name leads to, and the nodes below it. -/
def find? (tree : Namespace) (name : Text) : Option (Option ClassDoc × Namespace) :=
  follow? (Option.none, tree) (segmentsOf name)

/-- The segments of the nodes under one parent. -/
def heads : Namespace → List Text
  | none => []
  | node s _ _ beside => s :: heads beside

/-- All nodes, each before those below it, with their depth from `depth` on. -/
def preorder (depth : Nat) : Namespace → List (Nat × Text × Option ClassDoc)
  | none => []
  | node s c below beside =>
    (depth, s, c) :: preorder (depth + 1) below ++ preorder depth beside

end Namespace

end ApiDocs
