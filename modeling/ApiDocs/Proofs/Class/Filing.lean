import ApiDocs.Proofs.Class.Places
/-!
# Filing nodes under their classes

The catalog of a list of units is what comes out when the nodes are filed one after the other:
a class node opens its class, in place of an earlier one of its name, and a member goes to the
class that its unit has open.  So each class shows the last node that documents it, with the
members between that node and the next class node of the unit, and the orphans are the nodes
that no open class takes.

Main definitions:

- `Filing`, `Filing.step`, `Filing.run`: filing node by node.

Main results:

- `Filing.step_keeps`: a step keeps the agreement with the cut of the unit at its classes.
- `Filing.run_eq`: filing node by node gives the catalog.
- `ofUnits_files`: the catalog in terms of the places of nodes.
-/

namespace ApiDocs

/-! ### Filing node by node -/

/-- What has been filed so far: the classes, the orphans in order, and the name of the class
that takes the next members. -/
structure Filing where
  classes : ClassTable
  orphans : List Orphan
  current : Option Text

/-- A class with one more member of a kind. -/
def ClassDoc.addMember (cls : ClassDoc) (k : MemberKind) (node : DocNode) : ClassDoc :=
  { cls with
    members := .ofFn fun j =>
      if j = k then cls.members.ofKind j ++ [node] else cls.members.ofKind j }

namespace Filing

/-- Files a node as an orphan. -/
def orphan (s : Filing) (node : DocNode) : Filing :=
  { s with orphans := s.orphans ++ [node.orphan] }

/-- Files one node.  A class node with a name opens its class anew and drops what was filed
under that name before; one without a name opens nothing. -/
def step (s : Filing) (node : DocNode) : Filing :=
  match node.kind, node.name with
  | .cls, some name =>
    { s with classes := s.classes.insert ⟨name, node, {}⟩, current := some name }
  | .cls, none => { s.orphan node with current := none }
  | .member k, some _ =>
    match s.current.bind s.classes.get? with
    | some cls => { s with classes := s.classes.insert (cls.addMember k node) }
    | none => s.orphan node
  | _, _ => s.orphan node

/-- Files the nodes of a unit, at whose start no class is open. -/
def unit (s : Filing) (nodes : List DocNode) : Filing :=
  nodes.foldl step { s with current := none }

/-- Files the nodes of all units. -/
def run (units : List (List DocNode)) : Filing :=
  units.foldl unit ⟨∅, [], none⟩

end Filing

/-- A member is added to a class behind those inside it. -/
theorem addMember_ofNodes {node : DocNode} {k : MemberKind} (h : node.filedUnder? = some k)
    (name : Text) (doc : DocNode) (inside : List DocNode) :
    (ClassDoc.ofNodes name doc inside).addMember k node
      = .ofNodes name doc (inside ++ [node]) := by
  unfold ClassDoc.addMember ClassDoc.ofNodes
  congr 2
  funext j
  rw [Members.ofKind_ofFn, List.filter_append]
  by_cases hj : j = k
  · subst hj
    simp [h]
  · have hk : k ≠ j := Ne.symm hj
    simp [h, hj, hk]

/-- A node that no list takes leaves the class as it is. -/
theorem ofNodes_concat_of_unfiled {node : DocNode} (h : node.filedUnder? = none) (name : Text)
    (doc : DocNode) (inside : List DocNode) :
    ClassDoc.ofNodes name doc (inside ++ [node]) = .ofNodes name doc inside := by
  unfold ClassDoc.ofNodes
  congr 2
  funext j
  rw [List.filter_append]
  simp [h]

/-- Behind the nodes `before` of a unit that was begun at `start`: the classes and the orphans
of these nodes have been added, and the class of the nearest class node is open. -/
structure Filing.Agrees (start : Filing) (before : List DocNode) (s : Filing) : Prop where
  classes : s.classes = start.classes.insertAll (UnitClasses.ofNodes before).classes
  orphans : s.orphans = start.orphans ++ (UnitClasses.ofNodes before).orphans
  current : s.current = (enclosing? before).bind DocNode.name

namespace Filing

variable {start s : Filing} {before : List DocNode} {node : DocNode}

/-- A node that documents no class is filed under its kind in the open class, or becomes an
orphan. -/
theorem step_of_kind_ne (h : node.kind ≠ .cls) :
    s.step node =
      match node.filedUnder?, s.current.bind s.classes.get? with
      | some k, some cls => { s with classes := s.classes.insert (cls.addMember k node) }
      | _, _ => s.orphan node := by
  unfold step DocNode.filedUnder?
  cases hkind : node.kind with
  | cls => exact absurd hkind h
  | member k =>
    cases node.name with
    | none => rfl
    | some name =>
      cases s.current.bind s.classes.get? with
      | none => rfl
      | some cls => rfl
  | param => rfl

/-- A class node opens its class, and the cut of the unit has one more part. -/
theorem Agrees.step_cls (h : Agrees start before s) (hkind : node.kind = .cls) :
    Agrees start (before ++ [node]) (s.step node) := by
  have hclasses : (UnitClasses.ofNodes (before ++ [node])).classes
      = (UnitClasses.ofNodes before).classes ++ (startedClass? node []).toList :=
    classes_append_cons hkind (by simp)
  have hopen : (enclosing? (before ++ [node])).bind DocNode.name = node.name := by
    rw [enclosing?_concat, if_pos hkind, Option.bind_some]
  have hstray : isStray before node = node.name.isNone := by
    unfold isStray
    rw [hkind]
  cases hname : node.name with
  | none =>
    have hstep : s.step node = { s.orphan node with current := none } := by
      unfold step
      rw [hkind, hname]
    rw [hstep]
    refine ⟨?_, ?_, ?_⟩
    · rw [hclasses, startedClass?, hname]
      simpa [orphan] using h.classes
    · rw [orphans_concat, hstray, hname, ← List.append_assoc, ← h.orphans]
      rfl
    · rw [hopen, hname]
  | some name =>
    have hstep : s.step node
        = { s with classes := s.classes.insert ⟨name, node, {}⟩, current := some name } := by
      unfold step
      rw [hkind, hname]
    rw [hstep]
    refine ⟨?_, ?_, ?_⟩
    · rw [hclasses, startedClass?, hname, SortedBy.insertAll_append, ← h.classes]
      rfl
    · rw [orphans_concat, hstray, hname, ← List.append_assoc, ← h.orphans]
      simp
    · rw [hopen, hname]

/-- A stray node becomes an orphan and changes no class. -/
theorem Agrees.orphan (h : Agrees start before s) (hkind : node.kind ≠ .cls)
    (hstray : isStray before node = true) :
    Agrees start (before ++ [node]) (s.orphan node) := by
  refine ⟨?_, ?_, ?_⟩
  · cases hopen : (enclosing? before).bind DocNode.name with
    | none =>
      rw [classes_concat_of_closed hkind hopen]
      exact h.classes
    | some name =>
      obtain ⟨closed, doc, inside, hbefore, hafter⟩ := classes_concat_of_open hkind hopen
      have hunfiled : node.filedUnder? = none := by
        rw [isStray_of_kind_ne hkind, hopen] at hstray
        simpa using hstray
      rw [hafter, ofNodes_concat_of_unfiled hunfiled, ← hbefore]
      exact h.classes
  · rw [orphans_concat, if_pos hstray, ← List.append_assoc, ← h.orphans]
    rfl
  · rw [enclosing?_concat, if_neg hkind]
    exact h.current

/-- A member behind a named class node goes to the list of its kind in that class. -/
theorem Agrees.step_member (h : Agrees start before s) (hkind : node.kind ≠ .cls)
    {k : MemberKind} (hfiled : node.filedUnder? = some k) {name : Text}
    (hopen : (enclosing? before).bind DocNode.name = some name) :
    Agrees start (before ++ [node]) (s.step node) := by
  obtain ⟨closed, doc, inside, hbefore, hafter⟩ := classes_concat_of_open hkind hopen
  have hclasses : s.classes
      = (start.classes.insertAll closed).insert (.ofNodes name doc inside) := by
    rw [h.classes, hbefore, SortedBy.insertAll_append]
    rfl
  have hget : s.current.bind s.classes.get? = some (.ofNodes name doc inside) := by
    rw [h.current, hopen, Option.bind_some, hclasses]
    exact SortedBy.get?_insert_self _ _
  have hstep : s.step node
      = { s with classes := s.classes.insert (.ofNodes name doc (inside ++ [node])) } := by
    rw [step_of_kind_ne hkind, hfiled, hget, ← addMember_ofNodes hfiled]
  rw [hstep]
  refine ⟨?_, ?_, ?_⟩
  · have hsame : ClassDoc.name (.ofNodes name doc inside)
        = ClassDoc.name (.ofNodes name doc (inside ++ [node])) := rfl
    rw [hafter, SortedBy.insertAll_append, hclasses]
    exact SortedBy.insert_insert hsame _
  · have hstray : isStray before node = false := by
      rw [isStray_of_kind_ne hkind, hfiled, hopen]
      rfl
    rw [orphans_concat, hstray]
    simpa using h.orphans
  · rw [enclosing?_concat, if_neg hkind]
    exact h.current

/-- A step keeps the agreement, whatever node is filed. -/
theorem step_keeps (h : Agrees start before s) (node : DocNode) :
    Agrees start (before ++ [node]) (s.step node) := by
  by_cases hkind : node.kind = .cls
  · exact h.step_cls hkind
  · cases hfiled : node.filedUnder? with
    | none =>
      rw [step_of_kind_ne hkind, hfiled]
      refine h.orphan hkind ?_
      rw [isStray_of_kind_ne hkind, hfiled]
      rfl
    | some k =>
      cases hopen : (enclosing? before).bind DocNode.name with
      | none =>
        have hclosed : s.current.bind s.classes.get? = none := by
          rw [h.current, hopen]
          rfl
        rw [step_of_kind_ne hkind, hfiled, hclosed]
        refine h.orphan hkind ?_
        rw [isStray_of_kind_ne hkind, hopen]
        exact Bool.or_true _
      | some name => exact h.step_member hkind hfiled hopen

/-- Filing on keeps the agreement with the cut. -/
theorem foldl_step_keeps (h : Agrees start before s) (rest : List DocNode) :
    Agrees start (before ++ rest) (rest.foldl step s) := by
  induction rest generalizing before s with
  | nil => rwa [List.append_nil]
  | cons node rest ih =>
    have hnext := ih (step_keeps h node)
    rwa [List.append_assoc, List.singleton_append] at hnext

/-- Filing a unit agrees with its cut. -/
theorem unit_agrees (start : Filing) (nodes : List DocNode) :
    Agrees start nodes (start.unit nodes) := by
  have hstart : Agrees start [] { start with current := none } :=
    ⟨rfl, (List.append_nil _).symm, rfl⟩
  exact foldl_step_keeps hstart nodes

/-- Filing units adds the classes and the orphans of each of them. -/
theorem foldl_unit (units : List (List DocNode)) (s : Filing) :
    (units.foldl unit s).classes
        = s.classes.insertAll (units.flatMap fun nodes => (UnitClasses.ofNodes nodes).classes) ∧
      (units.foldl unit s).orphans
        = s.orphans ++ units.flatMap fun nodes => (UnitClasses.ofNodes nodes).orphans := by
  induction units generalizing s with
  | nil => exact ⟨rfl, (List.append_nil _).symm⟩
  | cons nodes units ih =>
    have hunit := unit_agrees s nodes
    obtain ⟨hclasses, horphans⟩ := ih (s.unit nodes)
    constructor
    · rw [List.foldl_cons, hclasses, hunit.classes, List.flatMap_cons,
        SortedBy.insertAll_append]
    · rw [List.foldl_cons, horphans, hunit.orphans, List.flatMap_cons, List.append_assoc]

end Filing

/-! ### The catalog -/

/-- The classes of a catalog are those of its units, the last of each name. -/
theorem classes_ofUnits (units : List (List DocNode)) :
    (Catalog.ofUnits units).classes
      = .ofList (units.flatMap fun nodes => (UnitClasses.ofNodes nodes).classes) := by
  rw [← List.flatMap_map]
  rfl

/-- The orphans of a catalog are those of its units, in order. -/
theorem orphans_ofUnits (units : List (List DocNode)) :
    (Catalog.ofUnits units).orphans
      = units.flatMap fun nodes => (UnitClasses.ofNodes nodes).orphans := by
  rw [← List.flatMap_map]
  rfl

/-- Filing node by node gives the classes and the orphans of the catalog. -/
theorem Filing.run_eq (units : List (List DocNode)) :
    (run units).classes = (Catalog.ofUnits units).classes ∧
      (run units).orphans = (Catalog.ofUnits units).orphans := by
  obtain ⟨hclasses, horphans⟩ := foldl_unit units ⟨∅, [], none⟩
  constructor
  · rw [run, hclasses, classes_ofUnits]
    rfl
  · rw [run, horphans, orphans_ofUnits, List.nil_append]

/-- A class of the catalog is the one of the last node that documents it. -/
theorem get?_ofUnits (units : List (List DocNode)) (name : Text) :
    (Catalog.ofUnits units).classes.get? name
      = (lastPlace? name units).map (ClassDoc.ofPlace name) := by
  have hplaces : (units.flatMap fun nodes => (UnitClasses.ofNodes nodes).classes).filter
        (·.name = name)
      = (units.flatMap (placesOf name)).map (ClassDoc.ofPlace name) := by
    rw [List.filter_flatMap, List.map_flatMap]
    congr 1
    funext nodes
    exact filter_classes_ofNodes name nodes
  rw [classes_ofUnits, SortedBy.get?_ofList, hplaces, List.getLast?_map]
  rfl

/-- The catalog files every node by its place, as filing node by node does.  Its classes are
those with a named class node; each is that of the last such node, with the members that
follow it up to the next class node of the unit; and its orphans are the nodes that stand
behind no named class node or cannot be filed. -/
theorem ofUnits_files (units : List (List DocNode)) :
    (∀ name, name ∈ (Catalog.ofUnits units).classes.keys ↔
        ∃ nodes ∈ units, ∃ node ∈ nodes, node.kind = .cls ∧ node.name = some name) ∧
      (∀ name, (Catalog.ofUnits units).classes.get? name
        = (lastPlace? name units).map (ClassDoc.ofPlace name)) ∧
      (Catalog.ofUnits units).orphans
        = units.flatMap (fun nodes => (filterBehind isStray [] nodes).map DocNode.orphan) ∧
      (Filing.run units).classes = (Catalog.ofUnits units).classes ∧
      (Filing.run units).orphans = (Catalog.ofUnits units).orphans := by
  refine ⟨?_, get?_ofUnits units, ?_, Filing.run_eq units⟩
  · intro name
    have hlast : (∃ cls, (Catalog.ofUnits units).classes.get? name = some cls) ↔
        units.flatMap (placesOf name) ≠ [] := by
      rw [get?_ofUnits, ← Option.isSome_iff_exists, Option.isSome_map, lastPlace?,
        List.getLast?_isSome]
    rw [SortedBy.mem_keys_iff, hlast, ne_eq, List.flatMap_eq_nil_iff]
    constructor
    · intro h
      obtain ⟨nodes, hnodes⟩ := Classical.not_forall.1 h
      obtain ⟨hmem, hne⟩ := Classical.not_imp.1 hnodes
      exact ⟨nodes, hmem, placesOf_ne_nil_iff.1 hne⟩
    · rintro ⟨nodes, hnodes, hnode⟩ h
      exact placesOf_ne_nil_iff.2 hnode (h nodes hnodes)
  · rw [orphans_ofUnits]
    congr 1
    funext nodes
    exact orphans_ofNodes nodes

end ApiDocs
