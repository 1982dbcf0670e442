import ApiDocs.Class.Catalog
import ApiDocs.Proofs.Selection
/-!
# Places of nodes in a unit

Where a node stands in its unit decides where it is filed: behind a named class node it belongs
to that class, up to the next class node, and elsewhere it is an orphan.  The cut of a unit at
its class nodes says the same in terms of these places.

Main definitions:

- `enclosing?`, `isStray`: the class node that a node stands behind, and whether the node
  belongs to no class.
- `placesOf`, `lastPlace?`: the nodes that document a class, and the last of them.
- `ClassDoc.ofPlace`: the class that is documented at a place.

Main results:

- `filter_classes_ofNodes`: the classes of a unit with one name are those of its places.
- `orphans_ofNodes`: the orphans of a unit are its stray nodes.
- `classes_append_cons`, `classes_concat_of_closed`, `classes_concat_of_open`: how the classes
  grow with one more node.
-/

namespace ApiDocs

/-! ### Places of nodes -/

/-- The nearest class node among the nodes of a unit before a place. -/
def enclosing? (before : List DocNode) : Option DocNode :=
  before.reverse.find? (·.kind = .cls)

/-- Whether a node belongs to no class, given the nodes of its unit before it. -/
def isStray (before : List DocNode) (node : DocNode) : Bool :=
  match node.kind with
  | .cls => node.name.isNone
  | .member _ => node.name.isNone || ((enclosing? before).bind DocNode.name).isNone
  | .param => true

/-- The nodes of a unit that document the class with a name, each with the nodes after it. -/
def placesOf (name : Text) : List DocNode → List (DocNode × List DocNode)
  | [] => []
  | node :: rest =>
    if node.kind = .cls ∧ node.name = some name then (node, rest) :: placesOf name rest
    else placesOf name rest

/-- The last node of all units that documents the class with a name, with the nodes after it
in its unit. -/
def lastPlace? (name : Text) (units : List (List DocNode)) : Option (DocNode × List DocNode) :=
  (units.flatMap (placesOf name)).getLast?

/-- The class that a node documents, with the members among the nodes after it up to the next
class node. -/
def ClassDoc.ofPlace (name : Text) (place : DocNode × List DocNode) : ClassDoc where
  name := name
  doc := place.1
  members := .ofFn fun k =>
    (place.2.takeWhile (·.kind ≠ .cls)).filter fun m => m.kind = .member k ∧ m.name.isSome

/-- A class has a place where a class node has its name. -/
theorem placesOf_ne_nil_iff {name : Text} {nodes : List DocNode} :
    placesOf name nodes ≠ [] ↔ ∃ node ∈ nodes, node.kind = .cls ∧ node.name = some name := by
  induction nodes with
  | nil => simp [placesOf]
  | cons node rest ih =>
    rw [placesOf]
    by_cases h : node.kind = .cls ∧ node.name = some name
    · simp [h]
    · rw [if_neg h, ih]
      simp [h]

/-- A class node opens a class, and other nodes leave the open one. -/
theorem enclosing?_concat (before : List DocNode) (node : DocNode) :
    enclosing? (before ++ [node])
      = if node.kind = .cls then some node else enclosing? before := by
  unfold enclosing?
  rw [List.reverse_append, List.reverse_singleton, List.singleton_append, List.find?_cons]
  by_cases h : node.kind = .cls
  · simp [h]
  · simp [h]

/-- A node that stands behind a class node stands behind it and no later one. -/
theorem eq_append_of_enclosing? {before : List DocNode} {doc : DocNode}
    (h : enclosing? before = some doc) :
    doc.kind = .cls ∧ ∃ earlier inside, before = earlier ++ doc :: inside ∧
      ∀ node ∈ inside, node.kind ≠ .cls := by
  obtain ⟨hkind, later, earlier, hrev, hlater⟩ := List.find?_eq_some_iff_append.1 h
  refine ⟨by simpa using hkind, earlier.reverse, later.reverse, ?_, ?_⟩
  · have hbefore := congrArg List.reverse hrev
    simpa using hbefore
  · intro node hnode
    simpa using hlater node (List.mem_reverse.1 hnode)

/-- Where no class is open, no class node stands before. -/
theorem not_mem_of_enclosing?_eq_none {before : List DocNode} (h : enclosing? before = none) :
    ∀ node ∈ before, node.kind ≠ .cls := by
  intro node hnode
  simpa using List.find?_eq_none.1 h node (List.mem_reverse.2 hnode)

theorem classNode?_eq_none {node : DocNode} (h : node.kind ≠ .cls) : node.classNode? = none :=
  if_neg h

theorem classNode?_eq_some {node : DocNode} (h : node.kind = .cls) :
    node.classNode? = some node :=
  if_pos h

/-- A node is filed under a kind when it has that kind and a name. -/
theorem filedUnder?_eq_some_iff {node : DocNode} {k : MemberKind} :
    node.filedUnder? = some k ↔ node.kind = .member k ∧ node.name.isSome := by
  unfold DocNode.filedUnder?
  split
  · next hkind hname => simp [hkind, hname]
  · next hnone =>
    simp only [reduceCtorEq, false_iff, not_and]
    intro hkind hname
    obtain ⟨name, hname⟩ := Option.isSome_iff_exists.1 hname
    exact hnone _ _ hkind hname

/-! ### One unit -/

/-- The nodes before the first class node are those of other kinds. -/
theorem takeWhile_classNode? (nodes : List DocNode) :
    nodes.takeWhile (fun node => node.classNode?.isNone)
      = nodes.takeWhile (·.kind ≠ .cls) := by
  congr 1
  funext node
  unfold DocNode.classNode?
  by_cases h : node.kind = .cls
  · simp [h]
  · simp [h]

/-- The class of a node and the nodes up to the next class node. -/
theorem ofPlace_eq_ofNodes (name : Text) (doc : DocNode) (rest : List DocNode) :
    ClassDoc.ofPlace name (doc, rest)
      = .ofNodes name doc (cut DocNode.classNode? rest).1 := by
  rw [fst_cut, takeWhile_classNode?, ClassDoc.ofPlace, ClassDoc.ofNodes]
  congr 2
  funext k
  apply List.filter_congr
  intro node _
  exact decide_eq_decide.2 filedUnder?_eq_some_iff.symm

/-- The classes of a unit with one name are those of its places. -/
theorem filter_classes_ofNodes (name : Text) (nodes : List DocNode) :
    (UnitClasses.ofNodes nodes).classes.filter (·.name = name)
      = (placesOf name nodes).map (ClassDoc.ofPlace name) := by
  induction nodes with
  | nil => rfl
  | cons node rest ih =>
    by_cases hkind : node.kind = .cls
    · have hclasses : (UnitClasses.ofNodes (node :: rest)).classes
          = (startedClass? node (cut DocNode.classNode? rest).1).toList
            ++ (UnitClasses.ofNodes rest).classes := by
        simp only [UnitClasses.ofNodes, cut, classNode?_eq_some hkind, List.filterMap_cons]
        cases startedClass? node (cut DocNode.classNode? rest).1 with
        | none => rfl
        | some cls => rfl
      rw [hclasses, List.filter_append, ih, placesOf]
      cases hname : node.name with
      | none => simp [startedClass?, hname]
      | some other =>
        by_cases heq : other = name
        · subst heq
          simp [startedClass?, hname, hkind, ofPlace_eq_ofNodes, ClassDoc.ofNodes]
        · simp [startedClass?, hname, heq, ClassDoc.ofNodes]
    · have hclasses : (UnitClasses.ofNodes (node :: rest)).classes
          = (UnitClasses.ofNodes rest).classes := by
        simp only [UnitClasses.ofNodes, cut, classNode?_eq_none hkind]
      rw [hclasses, ih, placesOf, if_neg fun h => hkind h.1]

/-- Behind the nodes `before`, the nodes other than class nodes are orphans when they cannot be
filed or nothing is open. -/
theorem isStray_of_kind_ne {before : List DocNode} {node : DocNode} (h : node.kind ≠ .cls) :
    isStray before node
      = (node.filedUnder?.isNone || ((enclosing? before).bind DocNode.name).isNone) := by
  unfold isStray DocNode.filedUnder?
  cases hkind : node.kind with
  | cls => exact absurd hkind h
  | member k =>
    cases node.name with
    | none => rfl
    | some name => rfl
  | param => rfl

/-- A class node without a name is an orphan, and what stands behind it is judged with it. -/
theorem orphansAfter_eq (doc : DocNode) (nodes : List DocNode) :
    orphansAfter doc nodes
      = (if doc.name.isNone then [doc.orphan] else []) ++
        (nodes.filter fun node => node.filedUnder?.isNone || doc.name.isNone).map
          DocNode.orphan := by
  unfold orphansAfter
  cases doc.name with
  | none =>
    have hall : nodes.filter (fun node => node.filedUnder?.isNone || true) = nodes :=
      List.filter_eq_self.2 fun node _ => Bool.or_true _
    rw [Option.isNone_none, hall]
    rfl
  | some name => simp

/-- The orphans of a unit are the nodes that belong to no class, in source order. -/
theorem orphans_eq_filterBehind (before nodes : List DocNode) :
    ((cut DocNode.classNode? nodes).1.filter fun node =>
        node.filedUnder?.isNone || ((enclosing? before).bind DocNode.name).isNone).map
          DocNode.orphan
      ++ (cut DocNode.classNode? nodes).2.flatMap (fun part => orphansAfter part.1 part.2)
      = (filterBehind isStray before nodes).map DocNode.orphan := by
  induction nodes generalizing before with
  | nil => rfl
  | cons node rest ih =>
    have hrest := ih (before ++ [node])
    rw [enclosing?_concat] at hrest
    by_cases hkind : node.kind = .cls
    · rw [if_pos hkind, Option.bind_some] at hrest
      have hstray : isStray before node = node.name.isNone := by
        unfold isStray
        rw [hkind]
      simp only [cut, classNode?_eq_some hkind, List.flatMap_cons]
      rw [List.filter_nil, List.map_nil, List.nil_append, orphansAfter_eq node, List.append_assoc,
        hrest, filterBehind, hstray]
      by_cases hname : node.name.isNone = true
      · simp [hname]
      · simp [hname]
    · rw [if_neg hkind] at hrest
      simp only [cut, classNode?_eq_none hkind, List.filter_cons]
      rw [filterBehind, ← isStray_of_kind_ne hkind]
      by_cases hstray : isStray before node = true
      · rw [if_pos hstray, if_pos hstray, List.map_cons, List.map_cons, List.cons_append, hrest]
      · rw [if_neg hstray, if_neg hstray, hrest]

/-- The orphans of a unit are its strays, in order. -/
theorem orphans_ofNodes (nodes : List DocNode) :
    (UnitClasses.ofNodes nodes).orphans
      = (filterBehind isStray [] nodes).map DocNode.orphan := by
  have hall : ∀ node : DocNode,
      (node.filedUnder?.isNone || ((enclosing? []).bind DocNode.name).isNone) = true :=
    fun node => Bool.or_true _
  have h := orphans_eq_filterBehind [] nodes
  rw [List.filter_eq_self.2 fun node _ => hall node] at h
  exact h

/-! ### The end of a unit -/

/-- One more node is an orphan if it is a stray behind those before. -/
theorem orphans_concat (before : List DocNode) (node : DocNode) :
    (UnitClasses.ofNodes (before ++ [node])).orphans
      = (UnitClasses.ofNodes before).orphans
        ++ if isStray before node then [node.orphan] else [] := by
  rw [orphans_ofNodes, orphans_ofNodes, filterBehind_append, List.map_append,
    List.nil_append, filterBehind, filterBehind]
  by_cases h : isStray before node = true
  · simp [h]
  · simp [h]

/-- Nodes without a class node among them are not cut. -/
theorem cut_classNode?_of_kind_ne {nodes : List DocNode}
    (h : ∀ node ∈ nodes, node.kind ≠ .cls) : cut DocNode.classNode? nodes = (nodes, []) := by
  have hcut := cut_append_of_forall_none [] fun node hnode => classNode?_eq_none (h node hnode)
  simpa [cut] using hcut

/-- A class node starts its class with the nodes after it, as long as no class node follows. -/
theorem classes_append_cons {earlier inside : List DocNode} {doc : DocNode}
    (hdoc : doc.kind = .cls) (hinside : ∀ node ∈ inside, node.kind ≠ .cls) :
    (UnitClasses.ofNodes (earlier ++ doc :: inside)).classes
      = (UnitClasses.ofNodes earlier).classes ++ (startedClass? doc inside).toList := by
  simp only [UnitClasses.ofNodes, cut_append_cons _ _ (classNode?_eq_some hdoc),
    List.filterMap_append, cut_classNode?_of_kind_ne hinside]
  cases h : startedClass? doc inside with
  | none => simp [h]
  | some cls => simp [h]

/-- Without class nodes, a unit has no classes. -/
theorem classes_eq_nil {nodes : List DocNode} (h : ∀ node ∈ nodes, node.kind ≠ .cls) :
    (UnitClasses.ofNodes nodes).classes = [] := by
  rw [UnitClasses.ofNodes, cut_classNode?_of_kind_ne h]
  rfl

/-- While no class is open, further nodes change no class. -/
theorem classes_concat_of_closed {before : List DocNode} {node : DocNode}
    (hkind : node.kind ≠ .cls) (hopen : (enclosing? before).bind DocNode.name = none) :
    (UnitClasses.ofNodes (before ++ [node])).classes = (UnitClasses.ofNodes before).classes := by
  cases henc : enclosing? before with
  | none =>
    have hbefore := not_mem_of_enclosing?_eq_none henc
    rw [classes_eq_nil hbefore, classes_eq_nil]
    exact List.forall_mem_append.2 ⟨hbefore, List.forall_mem_singleton.2 hkind⟩
  | some doc =>
    rw [henc, Option.bind_some] at hopen
    obtain ⟨hdoc, earlier, inside, rfl, hinside⟩ := eq_append_of_enclosing? henc
    have hstart : ∀ nodes, startedClass? doc nodes = none := by
      intro nodes
      rw [startedClass?, hopen]
      rfl
    have hmore : ∀ other ∈ inside ++ [node], other.kind ≠ .cls :=
      List.forall_mem_append.2 ⟨hinside, List.forall_mem_singleton.2 hkind⟩
    rw [List.append_assoc, List.cons_append, classes_append_cons hdoc hmore,
      classes_append_cons hdoc hinside, hstart, hstart]

/-- While a class is open, a further node is one more of the nodes after its class node. -/
theorem classes_concat_of_open {before : List DocNode} {node : DocNode} {name : Text}
    (hkind : node.kind ≠ .cls) (hopen : (enclosing? before).bind DocNode.name = some name) :
    ∃ closed doc inside,
      (UnitClasses.ofNodes before).classes = closed ++ [.ofNodes name doc inside] ∧
      (UnitClasses.ofNodes (before ++ [node])).classes
        = closed ++ [.ofNodes name doc (inside ++ [node])] := by
  obtain ⟨doc, henc, hname⟩ := Option.bind_eq_some_iff.1 hopen
  obtain ⟨hdoc, earlier, inside, rfl, hinside⟩ := eq_append_of_enclosing? henc
  have hstart : ∀ nodes, startedClass? doc nodes = some (.ofNodes name doc nodes) := by
    intro nodes
    rw [startedClass?, hname]
    rfl
  have hmore : ∀ other ∈ inside ++ [node], other.kind ≠ .cls :=
    List.forall_mem_append.2 ⟨hinside, List.forall_mem_singleton.2 hkind⟩
  refine ⟨(UnitClasses.ofNodes earlier).classes, doc, inside, ?_, ?_⟩
  · rw [classes_append_cons hdoc hinside, hstart]
    rfl
  · rw [List.append_assoc, List.cons_append, classes_append_cons hdoc hmore, hstart]
    rfl

end ApiDocs
