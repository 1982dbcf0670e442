import ApiDocs.Page.Json
import ApiDocs.Proofs.Json.Fields
import ApiDocs.Proofs.Json.Unambiguous
import Mathlib.Data.List.Basic
/-!
# What the JSON text of a page tells

The JSON text of a page tells all that the page shows: its class with the own members, the
hierarchy, and the members of each kind with their owners.  Only the lines of nodes are left out
of it, those of parameters among them.  What a node does not have leaves no field, so the names
of the fields tell it from an empty text or list.

Main definitions:

- `DocNode.unlined`, `OwnedMember.unlined`, `ClassDoc.unlined`: the content without lines.
- `DocNode.slots`: all fields that a node can have.

Main results:

- `DocNode.jsonFields_eq_iff`: the fields of a node tell its content.
- `Page.renderJson_eq_iff`: the text of a page tells what it shows.
-/

namespace ApiDocs

/-! ### Content without lines -/

namespace DocNode

mutual

/-- A node without its line and without those of its parameters. -/
def unlined : DocNode → DocNode
  | ⟨kind, name, type, description, params, returns, parent, mixins, isSingleton, isPrivate,
      isOptional, _⟩ =>
    ⟨kind, name, type, description, unlinedList params, returns, parent, mixins, isSingleton,
      isPrivate, isOptional, 0⟩

/-- The nodes of a list without their lines. -/
def unlinedList : List DocNode → List DocNode
  | [] => []
  | node :: nodes => unlined node :: unlinedList nodes

end

/-- The lines of a list are taken away node by node. -/
theorem unlinedList_eq_map (nodes : List DocNode) : unlinedList nodes = nodes.map unlined := by
  induction nodes with
  | nil => rfl
  | cons node nodes ih => rw [unlinedList, ih, List.map_cons]

end DocNode

/-- A member without lines. -/
def OwnedMember.unlined (r : OwnedMember) : OwnedMember where
  node := r.node.unlined
  owner := r.owner

/-- A class without the lines of its nodes. -/
def ClassDoc.unlined (cls : ClassDoc) : ClassDoc where
  name := cls.name
  doc := cls.doc.unlined
  members := cls.members.map DocNode.unlined

/-! ### Values of fields -/

/-- Two texts give two values. -/
theorem Json.str_injective : Function.Injective Json.str := fun _ _ h => Json.str.inj h

/-- The value of a list that is left out when it is empty. -/
def Json.nonempty? (items : List Json) : Option Json :=
  if items.isEmpty then none else some (.arr items)

/-- A list that is left out when it is empty is an optional value. -/
theorem Json.fieldUnlessEmpty_eq (name : Text) (items : List Json) :
    Json.fieldUnlessEmpty name items = Json.field? name (Json.nonempty? items) := by
  cases items <;> rfl

/-- A list that is left out is told from one that is not. -/
theorem Json.nonempty?_injective : Function.Injective Json.nonempty? := by
  intro items items' h
  cases items with
  | nil =>
    cases items' with
    | nil => rfl
    | cons => cases h
  | cons item items =>
    cases items' with
    | nil => cases h
    | cons => exact Json.arr.inj (Option.some.inj h)

/-- All fields of what a method gives back. -/
def Returns.slots (r : Returns) : List (Text × Option Json) :=
  [("type".toList, r.type.map .str), ("description".toList, some (.str r.description))]

/-- The value of a result tells its type and its description. -/
theorem Returns.toJson_injective : Function.Injective Returns.toJson := by
  rintro ⟨type, description⟩ ⟨type', description'⟩ h
  have hnodup : ["type".toList, "description".toList].Nodup := by decide
  have hslots : slots ⟨type, description⟩ = slots ⟨type', description'⟩ :=
    Json.present_inj rfl hnodup (Json.obj.inj h)
  simp only [slots, List.cons.injEq, Prod.mk.injEq, true_and, and_true, Option.some.injEq,
    Json.str.injEq] at hslots
  rw [Option.map_injective Json.str_injective hslots.1, hslots.2]

/-! ### Nodes -/

namespace DocNode

/-- All fields of a node, those that are left out among them. -/
def slots (node : DocNode) : List (Text × Option Json) :=
  [("kind".toList, some (.str node.kind.name)), ("name".toList, node.name.map .str),
    ("type".toList, node.type.map .str), ("description".toList, some (.str node.description)),
    ("params".toList, Json.nonempty? (jsonList node.params)),
    ("returns".toList, node.returns.map Returns.toJson),
    ("extends".toList, node.parent.map .str),
    ("mixins".toList, Json.nonempty? (node.mixins.entries.map .str)),
    ("singleton".toList, some (.bool node.isSingleton)),
    ("private".toList, some (.bool node.isPrivate)),
    ("optional".toList, some (.bool node.isOptional))]

/-- The fields of a node are those of its slots that are filled. -/
theorem jsonFields_eq_present (node : DocNode) : node.jsonFields = Json.present node.slots := by
  cases node with
  | mk =>
    simp only [jsonFields, slots, Json.present, Json.fieldUnlessEmpty_eq, List.flatMap_cons,
      List.flatMap_nil, List.append_assoc, List.append_nil]
    rfl

/-- The fields of a node tell the values of all fields that it can have. -/
theorem slots_eq_of_jsonFields_eq {node other : DocNode}
    (h : node.jsonFields = other.jsonFields) : node.slots = other.slots := by
  rw [jsonFields_eq_present, jsonFields_eq_present] at h
  have hnames : node.slots.map Prod.fst = other.slots.map Prod.fst := rfl
  -- the names are the same for all nodes
  have hnodup : ((default : DocNode).slots.map Prod.fst).Nodup := by decide
  exact Json.present_inj hnames hnodup h

mutual

/-- The fields of a node leave nothing out but lines. -/
theorem unlined_eq_of_jsonFields_eq {node other : DocNode}
    (h : node.jsonFields = other.jsonFields) : node.unlined = other.unlined := by
  have hslots := slots_eq_of_jsonFields_eq h
  cases node with
  | mk kind name type description params returns parent mixins =>
    cases other with
    | mk kind' name' type' description' params' returns' parent' mixins' =>
      simp only [slots, List.cons.injEq, Prod.mk.injEq, true_and, and_true, Option.some.injEq,
        Json.str.injEq, Json.bool.injEq] at hslots
      obtain ⟨hkind, hname, htype, rfl, hparams, hreturns, hparent, hmixins, rfl, rfl, rfl⟩ :=
        hslots
      have hlists := unlinedList_eq_of_jsonList_eq (Json.nonempty?_injective hparams)
      have hset : mixins = mixins' := by
        apply SortedBy.ext
        exact List.map_injective_iff.2 Json.str_injective (Json.nonempty?_injective hmixins)
      rw [unlined, unlined, Kind.eq_of_name_eq hkind,
        Option.map_injective Json.str_injective hname,
        Option.map_injective Json.str_injective htype, hlists,
        Option.map_injective Returns.toJson_injective hreturns,
        Option.map_injective Json.str_injective hparent, hset]

/-- Nodes with the same values have the same content, one by one. -/
theorem unlinedList_eq_of_jsonList_eq {nodes others : List DocNode}
    (h : jsonList nodes = jsonList others) : unlinedList nodes = unlinedList others := by
  cases nodes with
  | nil =>
    cases others with
    | nil => rfl
    | cons other others => cases h
  | cons node nodes =>
    cases others with
    | nil => cases h
    | cons other others =>
      obtain ⟨hfirst, hlater⟩ := List.cons.inj h
      rw [unlinedList, unlinedList, unlined_eq_of_jsonFields_eq (Json.obj.inj hfirst),
        unlinedList_eq_of_jsonList_eq hlater]

end

mutual

/-- Lines make no difference to the fields of a node. -/
theorem jsonFields_unlined (node : DocNode) : node.unlined.jsonFields = node.jsonFields := by
  cases node with
  | mk kind name type description params =>
    rw [unlined, jsonFields, jsonFields, jsonList_unlinedList params]

/-- The lines of nodes are in none of their values. -/
theorem jsonList_unlinedList (nodes : List DocNode) :
    jsonList (unlinedList nodes) = jsonList nodes := by
  cases nodes with
  | nil => rfl
  | cons node nodes =>
    rw [unlinedList, jsonList, jsonList, jsonFields_unlined node, jsonList_unlinedList nodes]

end

/-- The fields of a node tell its content, and nothing else. -/
theorem jsonFields_eq_iff {node other : DocNode} :
    node.jsonFields = other.jsonFields ↔ node.unlined = other.unlined := by
  constructor
  · exact unlined_eq_of_jsonFields_eq
  · intro h
    rw [← jsonFields_unlined node, h, jsonFields_unlined]

/-- The values of nodes tell their content. -/
theorem jsonList_eq_iff {nodes others : List DocNode} :
    jsonList nodes = jsonList others ↔ nodes.map unlined = others.map unlined := by
  rw [← unlinedList_eq_map, ← unlinedList_eq_map]
  constructor
  · exact unlinedList_eq_of_jsonList_eq
  · intro h
    rw [← jsonList_unlinedList nodes, h, jsonList_unlinedList]

end DocNode

/-! ### Members and classes -/

/-- The value of a member tells its content and its owner. -/
theorem OwnedMember.toJson_eq_iff {r s : OwnedMember} :
    r.toJson = s.toJson ↔ r.unlined = s.unlined := by
  constructor
  · intro h
    -- the owner is the last field, and the fields of the node are all others
    obtain ⟨hfields, horigin⟩ := List.append_inj' (Json.obj.inj h) rfl
    have howner : r.owner = s.owner := Json.str.inj (Prod.mk.inj (List.cons.inj horigin).1).2
    rw [unlined, unlined, DocNode.jsonFields_eq_iff.1 hfields, howner]
  · intro h
    obtain ⟨hnode, howner⟩ := OwnedMember.mk.inj h
    rw [toJson, toJson, DocNode.jsonFields_eq_iff.2 hnode, show r.owner = s.owner from howner]

/-- The values of members tell their content and their owners. -/
theorem OwnedMember.map_toJson_eq_iff {rs ss : List OwnedMember} :
    rs.map toJson = ss.map toJson ↔ rs.map unlined = ss.map unlined := by
  induction rs generalizing ss with
  | nil => rw [List.map_nil, List.map_nil, List.nil_eq, List.nil_eq, List.map_eq_nil_iff,
      List.map_eq_nil_iff]
  | cons r rs ih =>
    cases ss with
    | nil => simp
    | cons s ss =>
      rw [List.map_cons, List.map_cons, List.map_cons, List.map_cons, List.cons.injEq,
        List.cons.injEq, toJson_eq_iff, ih]

/-- The four lists of members are told from their values when the lists of one kind are. -/
theorem Members.jsonFields_eq_iff {α : Type} {toJson : List α → List Json} {content : α → α}
    (h : ∀ {as bs : List α}, toJson as = toJson bs ↔ as.map content = bs.map content)
    {ms ns : Members α} :
    ms.jsonFields toJson = ns.jsonFields toJson ↔ ms.map content = ns.map content := by
  simp only [jsonFields, map, ofFn, ofKind, List.cons.injEq, Prod.mk.injEq, true_and, and_true,
    Json.arr.injEq, Members.mk.injEq, h]

/-- The value of a class tells its name, its content and its members. -/
theorem ClassDoc.toJson_eq_iff {cls other : ClassDoc} :
    cls.toJson = other.toJson ↔ cls.unlined = other.unlined := by
  simp only [toJson, unlined, Json.obj.injEq, List.cons_append, List.nil_append, List.cons.injEq,
    Prod.mk.injEq, true_and, Json.str.injEq, ClassDoc.mk.injEq, DocNode.jsonFields_eq_iff,
    Members.jsonFields_eq_iff DocNode.jsonList_eq_iff]

/-! ### Pages -/

/-- Two pages are written as the same JSON text exactly when they have the same hierarchy, the same
class and the same members with the same owners in each of the four lists, apart from lines. -/
theorem Page.renderJson_eq_iff (p q : Page) :
    p.renderJson = q.renderJson ↔
      p.hierarchy = q.hierarchy ∧ p.subject.unlined = q.subject.unlined ∧
        p.members.map OwnedMember.unlined = q.members.map OwnedMember.unlined := by
  have hvalue : p.renderJson = q.renderJson ↔ p.toJson = q.toJson := by
    rw [renderJson, renderJson, List.append_left_inj]
    exact (Json.write_injective Json.Layout.blank_indented).eq_iff
  have hhierarchy : p.hierarchy.map Json.str = q.hierarchy.map Json.str ↔
      p.hierarchy = q.hierarchy :=
    (List.map_injective_iff.2 Json.str_injective).eq_iff
  rw [hvalue]
  simp only [toJson, Json.obj.injEq, List.cons_append, List.nil_append, List.cons.injEq,
    Prod.mk.injEq, true_and, Json.arr.injEq, ClassDoc.toJson_eq_iff, hhierarchy,
    Members.jsonFields_eq_iff OwnedMember.map_toJson_eq_iff]
  exact and_left_comm

end ApiDocs
