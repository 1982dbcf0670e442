import ApiDocs.Page.Basic
import Mathlib.Data.List.Basic
/-!
# Tables without private content

A table is redacted by taking the content of its private members away: their types, their
prose, their parameters, what they return and their lines.  What they are called, of which kind
they are and that they are private stays.  Two tables with one redaction differ in private
content only, so what is computed alike from a table and its redaction does not depend on it.

Main definitions:

- `DocNode.redacted`, `ClassDoc.redacted`, `ClassTable.redacted`: the redaction of a member, of
  a class and of a table.

Main results:

- `climb_redacted`, `of_redacted`: redaction does not touch the way up.
- `markOf?_redacted`: references lead to the same places.
- `shownMembers_redacted`: what is shown without the private members is not redacted at all.
-/

namespace ApiDocs

/-! ### Redaction -/

/-- A node; if it is private, without its content. -/
def DocNode.redacted (node : DocNode) : DocNode :=
  if node.isPrivate then
    { node with type := none, description := [], params := [], returns := none, line := 0 }
  else node

/-- A class whose private members have no content. -/
def ClassDoc.redacted (cls : ClassDoc) : ClassDoc :=
  { cls with members := cls.members.map DocNode.redacted }

/-- A table whose classes have private members without content only. -/
def ClassTable.redacted (table : ClassTable) : ClassTable where
  entries := table.entries.map ClassDoc.redacted
  increasing := List.pairwise_map.2 table.increasing

/-- A member with its owner; if it is private, without its content. -/
def OwnedMember.redacted (r : OwnedMember) : OwnedMember :=
  { r with node := r.node.redacted }

/-- What is found for a class, redacted. -/
def Ancestry.redacted (found : Ancestry) : Ancestry where
  subject := found.subject.redacted
  chain := found.chain.map ClassDoc.redacted
  reports := found.reports

variable {table : ClassTable}

/-! ### What redaction leaves -/

namespace DocNode

variable (node : DocNode)

/-- A redacted node is of the same kind. -/
@[simp]
theorem kind_redacted : node.redacted.kind = node.kind := by
  unfold redacted
  split <;> rfl

/-- A redacted node has the same name. -/
@[simp]
theorem name_redacted : node.redacted.name = node.name := by
  unfold redacted
  split <;> rfl

/-- A redacted node is as private as before. -/
@[simp]
theorem isPrivate_redacted : node.redacted.isPrivate = node.isPrivate := by
  unfold redacted
  split <;> rfl

/-- Only private nodes are changed. -/
theorem redacted_of_public {node : DocNode} (h : node.isPrivate = false) :
    node.redacted = node := by
  simp [redacted, h]

end DocNode

@[simp]
theorem ClassDoc.name_redacted (cls : ClassDoc) : cls.redacted.name = cls.name := rfl

@[simp]
theorem ClassDoc.doc_redacted (cls : ClassDoc) : cls.redacted.doc = cls.doc := rfl

@[simp]
theorem ClassDoc.parent?_redacted (cls : ClassDoc) : cls.redacted.parent? = cls.parent? := rfl

/-- A redacted member stands in the same slot. -/
@[simp]
theorem OwnedMember.slot_redacted (r : OwnedMember) : r.redacted.slot = r.slot := by
  simp [slot, redacted]

/-- A redacted class declares the same members. -/
theorem ClassDoc.declares?_redacted (cls : ClassDoc) (member : Text) :
    cls.redacted.declares? member = cls.declares? member := by
  unfold declares?
  congr 1
  funext k
  rw [redacted, Members.ofKind_map, List.any_map]
  congr 1
  funext node
  simp

/-- Looking a class up and redacting it may change places. -/
theorem ClassTable.get?_redacted (name : Text) :
    (ClassTable.redacted table).get? name = (table.get? name).map ClassDoc.redacted := by
  unfold ClassTable.redacted SortedBy.get?
  rw [List.find?_map]
  rfl

/-- The redacted table has the same classes. -/
theorem ClassTable.keys_redacted : (ClassTable.redacted table).keys = table.keys := by
  simp [SortedBy.keys, ClassTable.redacted]

/-! ### The way up -/

/-- The way up from a class passes the same classes, redacted, and ends alike. -/
theorem climb_redacted (fresh : List Text) (cls : ClassDoc) :
    climb (ClassTable.redacted table) fresh cls.redacted
      = ⟨(climb table fresh cls).chain.map ClassDoc.redacted,
          (climb table fresh cls).ending⟩ := by
  fun_induction climb table fresh cls with
  | case1 fresh cls hfresh hparent =>
    rw [climb, dif_pos (show cls.redacted.name ∈ fresh from hfresh)]
    simp [hparent]
  | case2 fresh cls hfresh parent hparent hget =>
    rw [climb, dif_pos (show cls.redacted.name ∈ fresh from hfresh)]
    simp [hparent, ClassTable.get?_redacted, hget]
  | case3 fresh cls hfresh parent hparent next hget above ih =>
    rw [climb, dif_pos (show cls.redacted.name ∈ fresh from hfresh)]
    simp only [ClassDoc.parent?_redacted, hparent, ClassTable.get?_redacted, hget, Option.map_some]
    rw [ClassDoc.name_redacted, ih]
    rfl
  | case4 fresh cls hfresh =>
    rw [climb, dif_neg (show cls.redacted.name ∉ fresh from hfresh)]
    rfl

/-- Redaction does not touch the way up from a class, nor how it ends. -/
theorem of_redacted (name : Text) :
    Ancestry.of (ClassTable.redacted table) name
      = (Ancestry.of table name).map Ancestry.redacted := by
  rw [Ancestry.of_eq_climb, Ancestry.of_eq_climb, ClassTable.get?_redacted,
    ClassTable.keys_redacted]
  cases table.get? name with
  | none => rfl
  | some subject =>
    dsimp only [Option.map_some]
    rw [climb_redacted]
    dsimp only
    cases (climb table table.keys subject).ending with
    | top => rfl
    | missing child parent => rfl
    | cycle other => simp [Except.map, Function.comp_def]

/-- References lead to the same members. -/
theorem markOf?_redacted (cls member : Text) :
    markOf? (ClassTable.redacted table) cls member = markOf? table cls member := by
  unfold markOf?
  rw [lineage?_eq_map_climb, lineage?_eq_map_climb, ClassTable.get?_redacted,
    ClassTable.keys_redacted]
  cases table.get? cls with
  | none => rfl
  | some start =>
    simp only [Option.map_some, Option.bind_some]
    rw [climb_redacted]
    simp only [List.findSome?_map, Function.comp_def, ClassDoc.declares?_redacted]

/-! ### Members -/

/-- The members along a chain are those of the redacted chain before it was redacted. -/
theorem ownedAlong_redacted (chain : List ClassDoc) :
    ownedAlong (chain.map ClassDoc.redacted) = (ownedAlong chain).map OwnedMember.redacted := by
  unfold ownedAlong
  rw [List.flatMap_map, List.map_flatMap]
  congr 1
  funext cls
  simp only [ClassDoc.owned, Members.all, ClassDoc.redacted, Members.ofKind_map,
    List.map_flatMap, List.map_map]
  rfl

/-- Redaction keeps the first members of each kind and name. -/
theorem firstBy_slot_redacted (l : List OwnedMember) :
    firstBy OwnedMember.slot (l.map OwnedMember.redacted)
      = (firstBy OwnedMember.slot l).map OwnedMember.redacted := by
  induction l with
  | nil => rfl
  | cons r l ih =>
    rw [List.map_cons, firstBy, firstBy, ih, List.map_cons, List.filter_map]
    congr 2
    apply List.filter_congr
    intro x _
    simp

/-- What is shown without the private members is not redacted. -/
theorem shownMembers_redacted (l : List OwnedMember) :
    shownMembers false (l.map OwnedMember.redacted) = shownMembers false l := by
  unfold shownMembers
  rw [firstBy_slot_redacted, List.filter_map]
  have hsame : (fun r : OwnedMember => false || !r.node.isPrivate) ∘ OwnedMember.redacted
      = fun r => false || !r.node.isPrivate := by
    funext r
    simp [OwnedMember.redacted]
  rw [hsame]
  refine (List.map_congr_left ?_).trans (List.map_id _)
  intro r hr
  have hpublic : r.node.isPrivate = false := by simpa using (List.mem_filter.1 hr).2
  rw [OwnedMember.redacted, DocNode.redacted_of_public hpublic]
  rfl

end ApiDocs
