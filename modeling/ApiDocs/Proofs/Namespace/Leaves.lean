import ApiDocs.Namespace.Navigation
import Mathlib.Data.List.Basic
/-!
# The leaves of the navigation

The tree of namespaces holds each class of its table at the end of the segments of its name, as
putting a class into the tree changes what stands at its own segments and nothing else.  So the
navigation has a leaf for each class, and what its leaves refer to are the pages of the classes.

Main definitions:

- `Namespace.placed`: the classes of a tree with the segments that lead to them.
- `NavItem.leaves`, `NavItem.leafPlaces`: the leaves of the navigation, also with the labels of
  the packages that lead to them.
- `Json.hrefs`: what the fields named `href` of a value refer to.

Main results:

- `Namespace.perm_placed_insert`: what a class does to a tree into which it is put.
- `Namespace.perm_placed_ofTable`: the classes of a table in their tree.
- `perm_leafPlaces_itemsAt`, `perm_leaves_navItems`: the leaves are those of the classes.
- `mem_hrefs_navigation`: the references of the navigation.
-/

namespace ApiDocs

namespace Namespace

variable {cls : ClassDoc} {tree : Namespace}

/-- The classes of a tree below `path`, each with the segments that lead to it. -/
def placed (path : List Text) : Namespace → List (List Text × ClassDoc)
  | none => []
  | node s c below beside =>
    c.toList.map (path ++ [s], ·) ++ placed (path ++ [s]) below ++ placed path beside

/-- A new branch places its class at the end of the path, and no other class. -/
theorem placed_branch (cls : ClassDoc) (start : List Text) (segment : Text) (path : List Text) :
    placed start (node segment (branch cls path).1 (branch cls path).2 none)
      = [(start ++ segment :: path, cls)] := by
  induction path generalizing start segment with
  | nil => rfl
  | cons next path ih =>
    have hbelow := ih (start ++ [segment]) next
    rw [List.append_assoc] at hbelow
    simpa [placed, branch] using hbelow

/-- Putting a class into a tree replaces what stands at the end of its path, and keeps the rest. -/
theorem placed_insertAt (tree : Namespace) (cls : ClassDoc) (start : List Text) (segment : Text)
    (path : List Text) :
    ∃ front replaced back,
      placed start tree = front ++ replaced ++ back ∧
        (∀ entry ∈ replaced, entry.1 = start ++ segment :: path) ∧
        placed start (insertAt cls segment path tree)
          = front ++ (start ++ segment :: path, cls) :: back := by
  induction tree generalizing start segment path with
  | none => exact ⟨[], [], [], rfl, by simp, by rw [insertAt, placed_branch]; rfl⟩
  | node s c below beside ihbelow ihbeside =>
    unfold insertAt
    split
    · -- the class goes in front of all nodes
      refine ⟨[], [], placed start (node s c below beside), rfl, by simp, ?_⟩
      have hbranch := placed_branch cls start segment path
      simp only [placed, List.append_nil] at hbranch
      rw [placed, hbranch]
      rfl
    · split
      · next heq =>
        subst heq
        cases path with
        | nil =>
          refine ⟨[], c.toList.map (start ++ [segment], ·),
            placed (start ++ [segment]) below ++ placed start beside, ?_, ?_, ?_⟩
          · simp [placed]
          · simp
          · simp [placed]
        | cons next rest =>
          obtain ⟨front, replaced, back, hbefore, hat, hafter⟩ :=
            ihbelow (start ++ [segment]) next rest
          rw [List.append_assoc] at hat hafter
          refine ⟨c.toList.map (start ++ [segment], ·) ++ front, replaced,
            back ++ placed start beside, ?_, hat, ?_⟩
          · simp [placed, hbefore]
          · simp [placed, hafter]
      · obtain ⟨front, replaced, back, hbefore, hat, hafter⟩ := ihbeside start segment path
        refine ⟨c.toList.map (start ++ [s], ·) ++ placed (start ++ [s]) below ++ front, replaced,
          back, ?_, hat, ?_⟩
        · simp [placed, hbefore]
        · simp [placed, hafter]

/-- A class whose segments lead to no class so far is one more class of the tree, at its segments;
the classes before stay where they are. -/
theorem perm_placed_insert (tree : Namespace) (cls : ClassDoc)
    (h : ∀ other, (segmentsOf cls.name, other) ∉ placed [] tree) :
    (placed [] (insert tree cls)).Perm ((segmentsOf cls.name, cls) :: placed [] tree) := by
  unfold insert
  cases hsegments : segmentsOf cls.name with
  | nil => exact absurd hsegments (List.splitOn_ne_nil '.' cls.name)
  | cons segment path =>
    obtain ⟨front, replaced, back, hbefore, hat, hafter⟩ :=
      placed_insertAt tree cls [] segment path
    have hnone : replaced = [] := by
      rw [List.eq_nil_iff_forall_not_mem]
      rintro ⟨found, other⟩ hmem
      have hsame : found = segment :: path := hat _ hmem
      subst hsame
      apply h other
      rw [hsegments, hbefore]
      exact List.mem_append_left _ (List.mem_append_right _ hmem)
    subst hnone
    dsimp only
    rw [hafter, hbefore, List.append_nil]
    exact List.perm_middle

/-- Different names have different segments. -/
theorem segmentsOf_injective : Function.Injective segmentsOf := fun a b h => by
  have hjoin : ∀ name, ['.'].intercalate (segmentsOf name) = name :=
    fun _ => List.intercalate_splitOn '.'
  rw [← hjoin a, h, hjoin b]

/-- Classes with different names go into a tree without any of these names side by side. -/
theorem perm_placed_foldl_insert {classes : List ClassDoc}
    (hnames : (classes.map ClassDoc.name).Nodup)
    (h : ∀ cls ∈ classes, ∀ other, (segmentsOf cls.name, other) ∉ placed [] tree) :
    (placed [] (classes.foldl insert tree)).Perm
      ((classes.map fun cls => (segmentsOf cls.name, cls)) ++ placed [] tree) := by
  induction classes generalizing tree with
  | nil => exact .refl _
  | cons cls classes ih =>
    rw [List.map_cons, List.nodup_cons] at hnames
    obtain ⟨hcls, hclasses⟩ := List.forall_mem_cons.1 h
    have hinsert := perm_placed_insert tree cls hcls
    have hlater : ∀ later ∈ classes, ∀ other,
        (segmentsOf later.name, other) ∉ placed [] (insert tree cls) := by
      intro later hlater other hmem
      rcases List.mem_cons.1 (hinsert.mem_iff.1 hmem) with heq | hmem
      · have hname := segmentsOf_injective (congrArg Prod.fst heq)
        exact hnames.1 (List.mem_map.2 ⟨later, hlater, hname⟩)
      · exact hclasses later hlater other hmem
    have hrest := (ih hnames.2 hlater).trans (hinsert.append_left _)
    exact hrest.trans List.perm_middle

/-- The tree of a table holds each class of the table once, at its segments, and nothing else. -/
theorem perm_placed_ofTable (table : ClassTable) :
    (placed [] (ofTable table)).Perm
      (table.entries.map fun cls => (segmentsOf cls.name, cls)) := by
  have hempty : ∀ cls ∈ table.entries, ∀ other,
      (segmentsOf cls.name, other) ∉ placed [] none := by simp [placed]
  have hplaced := perm_placed_foldl_insert table.nodup_keys hempty
  rwa [placed, List.append_nil] at hplaced

end Namespace

namespace Json

mutual

/-- What the fields named `href` of a value refer to. -/
def hrefs : Json → List Text
  | .bool _ => []
  | .str _ => []
  | .arr items => hrefsOfItems items
  | .obj fields => hrefsOfFields fields

/-- The references in the items of a list. -/
def hrefsOfItems : List Json → List Text
  | [] => []
  | item :: items => hrefs item ++ hrefsOfItems items

/-- The references in the fields of an object. -/
def hrefsOfFields : List (Text × Json) → List Text
  | [] => []
  | field :: fields => hrefsOfField field ++ hrefsOfFields fields

/-- The references in a field: its own one, or those in its value. -/
def hrefsOfField : Text × Json → List Text
  | (name, .str t) => if name = "href".toList then [t] else []
  | (_, value) => hrefs value

end

@[simp]
theorem hrefsOfFields_append (fields more : List (Text × Json)) :
    hrefsOfFields (fields ++ more) = hrefsOfFields fields ++ hrefsOfFields more := by
  induction fields with
  | nil => rfl
  | cons field fields ih => simp [hrefsOfFields, ih]

/-- Texts under other names are no references. -/
theorem hrefsOfField_of_ne {name : Text} (h : name ≠ "href".toList) (t : Text) :
    hrefsOfField (name, .str t) = [] :=
  if_neg h

/-- A field named for a reference refers to its text. -/
theorem hrefsOfField_of_eq {name : Text} (h : name = "href".toList) (t : Text) :
    hrefsOfField (name, .str t) = [t] :=
  if_pos h

/-- A flag refers to nothing. -/
theorem hrefsOfField_bool (name : Text) (b : Bool) : hrefsOfField (name, .bool b) = [] :=
  rfl

/-- The field of a list refers to what its items refer to. -/
theorem hrefsOfFields_fieldUnlessEmpty {name : Text} (items : List Json) :
    hrefsOfFields (fieldUnlessEmpty name items) = hrefsOfItems items := by
  cases items with
  | nil => rfl
  | cons item items => simp [fieldUnlessEmpty, hrefsOfFields, hrefsOfField, hrefs]

end Json

namespace NavItem

mutual

/-- The names of the classes whose leaves an item is or holds. -/
def leaves : NavItem → List Text
  | package _ _ items => leavesOfItems items
  | leaf name _ _ => [name]

/-- The names of the classes whose leaves the items are or hold. -/
def leavesOfItems : List NavItem → List Text
  | [] => []
  | item :: items => leaves item ++ leavesOfItems items

end

mutual

/-- The leaves that an item is or holds, each with the labels of the packages that lead to it,
from those `above` the item on. -/
def leafPlaces (above : List Text) : NavItem → List (List Text × NavItem)
  | package _ segment items => leafPlacesOfItems (above ++ [segment]) items
  | leaf name segment isSingleton => [(above, leaf name segment isSingleton)]

/-- The leaves that the items are or hold, with the labels of the packages that lead to them. -/
def leafPlacesOfItems (above : List Text) : List NavItem → List (List Text × NavItem)
  | [] => []
  | item :: items => leafPlaces above item ++ leafPlacesOfItems above items

end

@[simp]
theorem leafPlacesOfItems_append (above : List Text) (items more : List NavItem) :
    leafPlacesOfItems above (items ++ more)
      = leafPlacesOfItems above items ++ leafPlacesOfItems above more := by
  induction items with
  | nil => rfl
  | cons item items ih => simp [leafPlacesOfItems, ih]

mutual

/-- The leaves are the same from wherever they are reached. -/
theorem leaves_eq_map (above : List Text) (item : NavItem) :
    item.leaves = (item.leafPlaces above).map fun place => place.2.id := by
  cases item with
  | package path segment items => exact leavesOfItems_eq_map (above ++ [segment]) items
  | leaf name segment isSingleton => rfl

/-- The leaves of items are those of their places, wherever the items stand. -/
theorem leavesOfItems_eq_map (above : List Text) (items : List NavItem) :
    leavesOfItems items = (leafPlacesOfItems above items).map fun place => place.2.id := by
  cases items with
  | nil => rfl
  | cons item items =>
    rw [leavesOfItems, leafPlacesOfItems, List.map_append, ← leaves_eq_map above item,
      ← leavesOfItems_eq_map above items]

end

private theorem hid : "id".toList ≠ "href".toList := by decide

private theorem htext : "text".toList ≠ "href".toList := by decide

private theorem hicon : "iconCls".toList ≠ "href".toList := by decide

private theorem hcls : "cls".toList ≠ "href".toList := by decide

mutual

/-- Each leaf refers to the page of its class. -/
theorem hrefs_toJson (item : NavItem) : (toJson item).hrefs = item.leaves.map pageRef := by
  cases item with
  | package path segment items =>
    have hitems := hrefsOfItems_listToJson items
    simp only [toJson, Json.hrefs, Json.hrefsOfFields_append, Json.hrefsOfFields,
      Json.hrefsOfField_of_ne hid, Json.hrefsOfField_of_ne htext, Json.hrefsOfField_of_ne hicon,
      Json.hrefsOfField_of_ne hcls, Json.hrefsOfField_bool, Json.hrefsOfFields_fieldUnlessEmpty,
      leaves, hitems, List.nil_append]
  | leaf name segment isSingleton =>
    simp only [toJson, Json.hrefs, Json.hrefsOfFields,
      Json.hrefsOfField_of_ne hid, Json.hrefsOfField_of_ne htext, Json.hrefsOfField_of_ne hicon,
      Json.hrefsOfField_of_ne hcls, Json.hrefsOfField_bool, Json.hrefsOfField_of_eq rfl, leaves,
      List.nil_append, List.append_nil, List.map_cons, List.map_nil]

/-- Items refer to the pages of the classes of their leaves. -/
theorem hrefsOfItems_listToJson (items : List NavItem) :
    Json.hrefsOfItems (listToJson items) = (leavesOfItems items).map pageRef := by
  cases items with
  | nil => rfl
  | cons item items =>
    rw [listToJson, Json.hrefsOfItems, leavesOfItems, List.map_append, hrefs_toJson item,
      hrefsOfItems_listToJson items]

end

end NavItem

/-! ### The items for a tree -/

/-- The items for the nodes under the parent at `path`: the packages, then the leaves. -/
def itemsAt (path : Text) (tree : Namespace) : List NavItem :=
  (navParts path tree).1 ++ (navParts path tree).2

/-- The package of the node at `own`; only a node that holds others is one. -/
def packageOf (own segment : Text) : Namespace → List NavItem
  | .none => []
  | .node s c below beside => [.package own segment (itemsAt own (.node s c below beside))]

/-- The leaf of a node; only a node that stands for a class has one. -/
def leafOf (segment : Text) (cls : Option ClassDoc) : List NavItem :=
  (cls.map fun cls => .leaf cls.name segment cls.doc.isSingleton).toList

/-- A node adds its package to the packages of its siblings, and its leaf to their leaves. -/
theorem navParts_node (path s : Text) (c : Option ClassDoc) (below beside : Namespace) :
    navParts path (.node s c below beside)
      = (packageOf (joinPath path s) s below ++ (navParts path beside).1,
        leafOf s c ++ (navParts path beside).2) := by
  cases below with
  | none => cases c <;> rfl
  | node => cases c <;> rfl

/-- Where the leaf of a class stands whose segments lead to it: below packages for all of them but
the last, which is its label. -/
def leafPlace (entry : List Text × ClassDoc) : List Text × NavItem :=
  (entry.1.dropLast, .leaf entry.2.name (entry.1.getLastD []) entry.2.doc.isSingleton)

/-- The leaf of a node stands at its place, if the node stands for a class. -/
theorem leafPlacesOfItems_leafOf (above : List Text) (segment : Text) (c : Option ClassDoc) :
    NavItem.leafPlacesOfItems above (leafOf segment c)
      = (c.toList.map (above ++ [segment], ·)).map leafPlace := by
  cases c with
  | none => rfl
  | some cls =>
    have hplace : leafPlace (above ++ [segment], cls)
        = (above, .leaf cls.name segment cls.doc.isSingleton) := by
      rw [leafPlace, List.dropLast_concat, List.getLastD_concat]
    exact congrArg ([·]) hplace.symm

/-- What a package holds is reached through its label. -/
theorem leafPlacesOfItems_packageOf (above : List Text) (own segment : Text) (below : Namespace) :
    NavItem.leafPlacesOfItems above (packageOf own segment below)
      = NavItem.leafPlacesOfItems (above ++ [segment]) (itemsAt own below) := by
  cases below with
  | none => rfl
  | node =>
    rw [packageOf, NavItem.leafPlacesOfItems, NavItem.leafPlacesOfItems, List.append_nil,
      NavItem.leafPlaces]

/-- The items for a tree have one leaf for each class in it, below the packages of its segments. -/
theorem perm_leafPlaces_itemsAt (path : Text) (start : List Text) (tree : Namespace) :
    (NavItem.leafPlacesOfItems start (itemsAt path tree)).Perm
      ((tree.placed start).map leafPlace) := by
  induction tree generalizing path start with
  | none => exact .refl _
  | node s c below beside ihbelow ihbeside =>
    have hbelow := ihbelow (joinPath path s) (start ++ [s])
    have hbeside := ihbeside path start
    rw [itemsAt, NavItem.leafPlacesOfItems_append] at hbeside
    rw [itemsAt, navParts_node, Namespace.placed, List.map_append, List.map_append,
      NavItem.leafPlacesOfItems_append, NavItem.leafPlacesOfItems_append,
      NavItem.leafPlacesOfItems_append, leafPlacesOfItems_packageOf, leafPlacesOfItems_leafOf,
      List.append_assoc (List.map leafPlace _)]
    -- the leaf of the node stands behind the packages of its siblings
    refine (List.perm_append_comm_assoc _ _ _).trans (.append_left _ ?_)
    rw [List.append_assoc]
    exact hbelow.append hbeside

/-- The leaves of the navigation are those of the classes of its table, one for each. -/
theorem perm_leaves_navItems (table : ClassTable) :
    (NavItem.leavesOfItems (navItems (.ofTable table))).Perm table.keys := by
  have hplaces := (perm_leafPlaces_itemsAt [] [] (.ofTable table)).map fun place => place.2.id
  have hplaced := ((Namespace.perm_placed_ofTable table).map leafPlace).map fun place => place.2.id
  have hkeys : ((table.entries.map fun cls => (segmentsOf cls.name, cls)).map leafPlace).map
      (fun place => place.2.id) = table.keys := by
    rw [List.map_map, List.map_map]
    rfl
  rw [← NavItem.leavesOfItems_eq_map] at hplaces
  rw [hkeys] at hplaced
  exact hplaces.trans hplaced

/-- The references of the navigation are the pages of the classes of its table. -/
theorem mem_hrefs_navigation {table : ClassTable} {file : Text} :
    file ∈ (navRoot (navItems (.ofTable table))).hrefs ↔ file ∈ table.keys.map pageRef := by
  have hroot : ∀ items, (navRoot items).hrefs = (NavItem.leavesOfItems items).map pageRef := by
    intro items
    have hitems := NavItem.hrefsOfItems_listToJson items
    simp only [navRoot, Json.hrefs, Json.hrefsOfFields_append, Json.hrefsOfFields,
      Json.hrefsOfField_of_ne NavItem.hid, Json.hrefsOfField_of_ne NavItem.htext,
      Json.hrefsOfField_of_ne NavItem.hicon, Json.hrefsOfField_bool,
      Json.hrefsOfFields_fieldUnlessEmpty, hitems, List.nil_append]
  rw [hroot]
  exact ((perm_leaves_navItems table).map pageRef).mem_iff

end ApiDocs
