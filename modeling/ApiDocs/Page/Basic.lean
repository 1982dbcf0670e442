import ApiDocs.Class.Lineage
import ApiDocs.Cut
/-!
# Pages

The page of a class shows its members and those it inherits.  A member hides the farther
ones of its kind and name, and it does so also when it is private and left out itself.

Main definitions:

- `Page`, `Page.ofClass`: what the page of a class shows.
- `memberMark`: the mark of a member on its page.
- `markOf?`: where a reference to a member leads.
-/

namespace ApiDocs

/-- What the page of a class shows.  The hierarchy leads from the topmost ancestor to the
class; `table` are the classes that references can lead to. -/
structure Page where
  table : ClassTable
  subject : ClassDoc
  hierarchy : List Text
  members : Members OwnedMember

/-- What a member must share with another one to hide it: kind and name. -/
def OwnedMember.slot (r : OwnedMember) : Kind × Text :=
  (r.node.kind, r.node.name.getD [])

/-- The members that a page shows, of the members along a chain: the nearest of each kind
and name, without the private ones unless they are asked for. -/
def shownMembers (showPrivate : Bool) (all : List OwnedMember) : List OwnedMember :=
  (firstBy OwnedMember.slot all).filter fun r => showPrivate || !r.node.isPrivate

/-- The page of a class with the reports on its ancestors. -/
def Page.ofClass (table : ClassTable) (name : Text) (showPrivate : Bool) :
    Except Fault (Page × List Report) :=
  (Ancestry.of table name).map fun found =>
    let shown := shownMembers showPrivate (ownedAlong found.chain)
    ({ table := table
       subject := found.subject
       hierarchy := found.chain.reverse.map ClassDoc.name
       members := .ofFn fun k => shown.filter (·.node.kind = .member k) },
      found.reports)

/-- The mark of a member on its page. -/
def memberMark (kind : Kind) (name : Text) : Text :=
  kind.name ++ '-' :: name

/-- The mark of a member on the page of a class.  The class and then its ancestors are
searched, each kind in page order. -/
def markOf? (table : ClassTable) (cls member : Text) : Option Text :=
  (lineage? table cls).bind fun way =>
    (way.chain.findSome? (·.declares? member)).map fun k => memberMark (.member k) member

end ApiDocs
