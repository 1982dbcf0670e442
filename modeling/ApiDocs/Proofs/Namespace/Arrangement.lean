import ApiDocs.Proofs.Json.Fields
import ApiDocs.Proofs.Namespace.Prefixes
import ApiDocs.Proofs.Text.Bytes
/-!
# The arrangement of the navigation

The navigation shows each class of its table once, as a leaf below the packages that the segments
of its name lead through.  The tree of namespaces gives it this shape: putting a class into the
tree keeps the siblings in order, and makes no node that neither stands for a class nor holds
others.  So a package always holds something, and below it stands a class.

Main definitions:

- `Namespace.Populated`: trees each of whose nodes stands for a class or holds others.
- `NavItem.allItems`, `NavItem.items`: the items of a navigation, and those right under one.
- `ShowsClass`, `Arranged`, `ShowsTable`: what the leaf of a class shows, the order of the items
  under one parent, and the navigation for a table.

Main results:

- `Namespace.populated_insertAt`: putting a class into a tree leaves no empty node.
- `exists_below_of_mem_allItems`: what stands under a package are the items for a part of the tree.
- `navItems_shows_table`: the navigation for a table.
-/

namespace ApiDocs

/-! ### Trees without empty nodes -/

namespace Namespace

variable {cls : ClassDoc} {tree : Namespace} {segment : Text} {path : List Text}

/-- Every node stands for a class or holds others. -/
def Populated : Namespace → Prop
  | none => True
  | node _ c below beside =>
    (c = Option.none → below ≠ none) ∧ below.Populated ∧ beside.Populated

/-- Putting a class into a tree leaves a node. -/
theorem insertAt_ne_none (tree : Namespace) (cls : ClassDoc) (segment : Text) (path : List Text) :
    insertAt cls segment path tree ≠ none := by
  cases tree with
  | none => simp [insertAt]
  | node s c below beside =>
    unfold insertAt
    by_cases hlt : segment < s
    · simp [hlt]
    · by_cases heq : segment = s
      · rw [if_neg hlt, if_pos heq]
        cases path <;> simp
      · simp [hlt, heq]

/-- The nodes of a new branch lead to its class, the last of them stands for it. -/
theorem populated_branch (cls : ClassDoc) (path : List Text) :
    ((branch cls path).1 = Option.none → (branch cls path).2 ≠ none) ∧
      (branch cls path).2.Populated := by
  induction path with
  | nil => exact ⟨fun hnone => absurd hnone (Option.some_ne_none cls), trivial⟩
  | cons segment path ih =>
    refine ⟨?_, ih.1, ih.2, trivial⟩
    intro _ hnone
    cases hnone

/-- Putting a class into a tree leaves no empty node. -/
theorem populated_insertAt (h : tree.Populated) : (insertAt cls segment path tree).Populated := by
  induction tree generalizing segment path with
  | none =>
    obtain ⟨hhead, hbelow⟩ := populated_branch cls path
    exact ⟨hhead, hbelow, trivial⟩
  | node s c below beside ihbelow ihbeside =>
    obtain ⟨hnode, hbelow, hbeside⟩ := h
    unfold insertAt
    by_cases hlt : segment < s
    · rw [if_pos hlt]
      obtain ⟨hhead, hbranch⟩ := populated_branch cls path
      exact ⟨hhead, hbranch, hnode, hbelow, hbeside⟩
    · rw [if_neg hlt]
      by_cases heq : segment = s
      · rw [if_pos heq]
        cases path with
        | nil => exact ⟨fun hnone => absurd hnone (Option.some_ne_none cls), hbelow, hbeside⟩
        | cons next path =>
          exact ⟨fun _ => insertAt_ne_none below cls next path, ihbelow hbelow, hbeside⟩
      · rw [if_neg heq]
        exact ⟨hnode, hbelow, ihbeside hbeside⟩

/-- Putting a class in by its name leaves no empty node. -/
theorem populated_insert (h : tree.Populated) (cls : ClassDoc) : (insert tree cls).Populated := by
  unfold insert
  split
  · exact h
  · exact populated_insertAt h

/-- The tree of a table has no empty node. -/
theorem populated_ofTable (table : ClassTable) : (ofTable table).Populated := by
  have hfold : ∀ (classes : List ClassDoc) (tree : Namespace), tree.Populated →
      (classes.foldl insert tree).Populated := by
    intro classes
    induction classes with
    | nil => exact fun _ h => h
    | cons cls classes ih => exact fun tree h => ih _ (populated_insert h cls)
  exact hfold table.entries none trivial

/-- The siblings in the tree of a table are in order. -/
theorem ordered_ofTable (table : ClassTable) : (ofTable table).Ordered :=
  ordered_foldl_insert ordered_none table.entries

/-- A class stands in every tree that has a node. -/
theorem placed_ne_nil (h : tree.Populated) (hne : tree ≠ none) (start : List Text) :
    tree.placed start ≠ [] := by
  induction tree generalizing start with
  | none => exact absurd rfl hne
  | node s c below beside ihbelow _ =>
    obtain ⟨hnode, hbelow, -⟩ := h
    rw [placed]
    cases c with
    | some cls => simp
    | none =>
      have hinside := ihbelow hbelow (hnode rfl) (start ++ [s])
      simp [hinside]

end Namespace

/-! ### The items of a navigation -/

namespace NavItem

/-- Whether an item is a package. -/
def isPackage : NavItem → Bool
  | package .. => true
  | leaf .. => false

/-- The items right under an item. -/
def items : NavItem → List NavItem
  | package _ _ items => items
  | leaf .. => []

mutual

/-- An item and all items below it. -/
def subItems : NavItem → List NavItem
  | package path segment items => package path segment items :: allItems items
  | leaf name segment isSingleton => [leaf name segment isSingleton]

/-- The items of a list and all items below them. -/
def allItems : List NavItem → List NavItem
  | [] => []
  | item :: items => subItems item ++ allItems items

end

@[simp]
theorem allItems_append (items more : List NavItem) :
    allItems (items ++ more) = allItems items ++ allItems more := by
  induction items with
  | nil => rfl
  | cons item items ih => simp [allItems, ih]

end NavItem

/-- Under one parent the packages come before the leaves, each sort in the strictly increasing
order of the bytes of its labels, and no two packages have one label. -/
structure Arranged (items : List NavItem) : Prop where
  packagesFirst : items = items.filter (·.isPackage) ++ items.filter (! ·.isPackage)
  packages : (items.filter (·.isPackage)).Pairwise fun a b => a.label.utf8 < b.label.utf8
  leaves : (items.filter (! ·.isPackage)).Pairwise fun a b => a.label.utf8 < b.label.utf8
  distinct : ((items.filter (·.isPackage)).map NavItem.label).Nodup

/-- What the leaf of a class shows, and the path to it: the labels of the packages above and its
own, joined by dots, are the name of the class. -/
structure ShowsClass (cls : ClassDoc) (place : List Text × NavItem) : Prop where
  key : place.2.id = cls.name
  id : place.2.toJson.get? "id".toList = some (.str cls.name)
  href : place.2.toJson.get? "href".toList = some (.str (cls.name ++ ".html".toList))
  icon : place.2.toJson.get? "iconCls".toList
    = some (.str (if cls.doc.isSingleton then "icon-singleton".toList else "icon-cls".toList))
  text : place.2.toJson.get? "text".toList = some (.str place.2.label)
  label : (segmentsOf cls.name).getLast? = some place.2.label
  path : Text.joinWith ".".toList (place.1 ++ [place.2.label]) = cls.name

/-- The items are the navigation for a table.  They have one leaf for each class, which shows it;
a package holds items, a leaf among them or below them; and under each parent the items are
arranged.  The viewer reads the label of an item as its text, and what stands right under the root
or a package as its children. -/
structure ShowsTable (table : ClassTable) (items : List NavItem) : Prop where
  leaves : ((NavItem.leafPlacesOfItems [] items).map fun place => place.2.id).Perm table.keys
  classes : ∀ place ∈ NavItem.leafPlacesOfItems [] items, ∃ cls ∈ table.entries,
    ShowsClass cls place
  packages : ∀ item ∈ NavItem.allItems items, item.isPackage = true →
    item.items ≠ [] ∧ NavItem.leafPlacesOfItems [] item.items ≠ []
  arranged : Arranged items
  arrangedBelow : ∀ item ∈ NavItem.allItems items, Arranged item.items
  texts : ∀ item ∈ NavItem.allItems items,
    item.toJson.get? "text".toList = some (.str item.label)
  children : ∀ item ∈ NavItem.allItems items, item.isPackage = true →
    item.toJson.get? "children".toList = some (.arr (item.items.map NavItem.toJson))
  root : items ≠ [] →
    (navRoot items).get? "children".toList = some (.arr (items.map NavItem.toJson))

/-! ### The order under one parent -/

/-- A package stands for a node that others are below. -/
theorem isPackage_of_mem_packageOf {own segment : Text} {below : Namespace} {item : NavItem}
    (h : item ∈ packageOf own segment below) :
    item = .package own segment (itemsAt own below) ∧ below ≠ .none := by
  cases below with
  | none => cases h
  | node s c inner beside =>
    refine ⟨List.mem_singleton.1 h, ?_⟩
    intro hnone
    cases hnone

/-- A leaf is no package. -/
theorem isPackage_of_mem_leafOf {segment : Text} {c : Option ClassDoc} {item : NavItem}
    (h : item ∈ leafOf segment c) : item.isPackage = false := by
  cases c with
  | none => cases h
  | some cls =>
    rw [List.mem_singleton.1 h]
    rfl

/-- The first part are packages, the second one leaves. -/
theorem isPackage_navParts (path : Text) (tree : Namespace) :
    (∀ item ∈ (navParts path tree).1, item.isPackage = true) ∧
      ∀ item ∈ (navParts path tree).2, item.isPackage = false := by
  induction tree with
  | none => simp [navParts]
  | node s c below beside _ ihbeside =>
    rw [navParts_node]
    constructor
    · intro item hitem
      rcases List.mem_append.1 hitem with hown | hlater
      · rw [(isPackage_of_mem_packageOf hown).1]
        rfl
      · exact ihbeside.1 item hlater
    · intro item hitem
      rcases List.mem_append.1 hitem with hown | hlater
      · exact isPackage_of_mem_leafOf hown
      · exact ihbeside.2 item hlater

/-- The labels of each part are segments of the nodes, in their order. -/
theorem sublist_heads_navParts (path : Text) (tree : Namespace) :
    ((navParts path tree).1.map NavItem.label).Sublist tree.heads ∧
      ((navParts path tree).2.map NavItem.label).Sublist tree.heads := by
  induction tree with
  | none => simp [navParts]
  | node s c below beside _ ihbeside =>
    rw [navParts_node, Namespace.heads, List.map_append, List.map_append]
    constructor
    · cases below with
      | none => exact ihbeside.1.cons s
      | node => exact ihbeside.1.cons_cons s
    · cases c with
      | none => exact ihbeside.2.cons s
      | some cls => exact ihbeside.2.cons_cons s

/-- Packages in order before leaves in order are arranged. -/
theorem arranged_append {packages leaves : List NavItem}
    (hpackages : ∀ item ∈ packages, item.isPackage = true)
    (hleaves : ∀ item ∈ leaves, item.isPackage = false)
    (hfirst : (packages.map NavItem.label).Pairwise (· < ·))
    (hsecond : (leaves.map NavItem.label).Pairwise (· < ·)) : Arranged (packages ++ leaves) := by
  have hinFront : (packages ++ leaves).filter (·.isPackage) = packages := by
    rw [List.filter_append, List.filter_eq_self.2 hpackages, List.filter_eq_nil_iff.2,
      List.append_nil]
    intro item hitem
    simp [hleaves item hitem]
  have hinBack : (packages ++ leaves).filter (! ·.isPackage) = leaves := by
    rw [List.filter_append, List.filter_eq_nil_iff.2, List.filter_eq_self.2, List.nil_append]
    · intro item hitem
      simp [hleaves item hitem]
    · intro item hitem
      simp [hpackages item hitem]
  refine ⟨?_, ?_, ?_, ?_⟩
  · rw [hinFront, hinBack]
  · rw [hinFront]
    exact (List.pairwise_map.1 hfirst).imp Text.utf8_lt_utf8
  · rw [hinBack]
    exact (List.pairwise_map.1 hsecond).imp Text.utf8_lt_utf8
  · rw [hinFront]
    exact hfirst.imp Text.ne_of_lt

/-- The items for siblings in order are arranged. -/
theorem arranged_itemsAt {tree : Namespace} (h : tree.Ordered) (path : Text) :
    Arranged (itemsAt path tree) := by
  obtain ⟨hpackages, hleaves⟩ := isPackage_navParts path tree
  obtain ⟨hfirst, hsecond⟩ := sublist_heads_navParts path tree
  have hheads := Namespace.pairwise_heads h
  exact arranged_append hpackages hleaves (hheads.sublist hfirst) (hheads.sublist hsecond)

/-! ### What packages hold -/

/-- A package holds the items for the nodes below some node of the tree, of which there are
some. -/
theorem exists_below_of_mem_allItems {tree : Namespace} {path : Text} {item : NavItem}
    (hordered : tree.Ordered) (hpopulated : tree.Populated)
    (hitem : item ∈ NavItem.allItems (itemsAt path tree)) (hpackage : item.isPackage = true) :
    ∃ own below, item.items = itemsAt own below ∧ below ≠ .none ∧ below.Ordered ∧
      below.Populated := by
  induction tree generalizing path with
  | none => simp [itemsAt, navParts, NavItem.allItems] at hitem
  | node s c below beside ihbelow ihbeside =>
    obtain ⟨-, hbelow, hbeside⟩ := hordered
    obtain ⟨-, hbelow', hbeside'⟩ := hpopulated
    have hlater := @ihbeside path hbeside hbeside'
    rw [itemsAt, NavItem.allItems_append, List.mem_append] at hlater
    rw [itemsAt, navParts_node] at hitem
    simp only [NavItem.allItems_append, List.mem_append] at hitem
    rcases hitem with (hown | hfirst) | hleaf | hsecond
    · cases below with
      | none => simp [packageOf, NavItem.allItems] at hown
      | node s' c' inner beside' =>
        rw [packageOf, NavItem.allItems, NavItem.subItems, NavItem.allItems, List.append_nil,
          List.mem_cons] at hown
        rcases hown with hself | hinside
        · subst hself
          refine ⟨_, _, rfl, ?_, hbelow, hbelow'⟩
          intro hnone
          cases hnone
        · exact ihbelow hbelow hbelow' hinside
    · exact hlater (.inl hfirst)
    · cases c with
      | none => simp [leafOf, NavItem.allItems] at hleaf
      | some cls =>
        simp only [leafOf, Option.map_some, Option.toList_some, NavItem.allItems,
          NavItem.subItems, List.append_nil, List.mem_singleton] at hleaf
        rw [hleaf] at hpackage
        cases hpackage
    · exact hlater (.inr hsecond)

/-- The items for some nodes include the leaf of a class. -/
theorem leafPlacesOfItems_itemsAt_ne_nil {tree : Namespace} (h : tree.Populated)
    (hne : tree ≠ .none) (path : Text) (above : List Text) :
    NavItem.leafPlacesOfItems above (itemsAt path tree) ≠ [] := by
  intro hnil
  have hperm := perm_leafPlaces_itemsAt path above tree
  rw [hnil, List.nil_perm, List.map_eq_nil_iff] at hperm
  exact Namespace.placed_ne_nil h hne above hperm

/-! ### What the viewer reads -/

namespace NavItem

theorem listToJson_eq_map (items : List NavItem) : listToJson items = items.map toJson := by
  induction items with
  | nil => rfl
  | cons item items ih => rw [listToJson, ih, List.map_cons]

/-- An item shows its label. -/
theorem get?_text_toJson (item : NavItem) :
    item.toJson.get? "text".toList = some (.str item.label) := by
  cases item <;> rfl

/-- An item with others under it lists them. -/
theorem get?_children_toJson {item : NavItem} (h : item.items ≠ []) :
    item.toJson.get? "children".toList = some (.arr (item.items.map toJson)) := by
  cases item with
  | leaf => exact absurd rfl h
  | package path segment items =>
    cases items with
    | nil => exact absurd rfl h
    | cons first items =>
      rw [← listToJson_eq_map]
      rfl

/-- The root lists the items of the navigation. -/
theorem get?_children_navRoot {items : List NavItem} (h : items ≠ []) :
    (navRoot items).get? "children".toList = some (.arr (items.map toJson)) := by
  cases items with
  | nil => exact absurd rfl h
  | cons first items =>
    rw [← listToJson_eq_map]
    rfl

end NavItem

/-- The leaf at the segments of a class shows the class. -/
theorem showsClass_leafPlace (cls : ClassDoc) :
    ShowsClass cls (leafPlace (segmentsOf cls.name, cls)) := by
  have hne : segmentsOf cls.name ≠ [] := List.splitOn_ne_nil '.' cls.name
  have hlast : (segmentsOf cls.name).getLastD [] = (segmentsOf cls.name).getLast hne :=
    List.getLastD_eq_getLast? .. |>.trans (by rw [List.getLast?_eq_some_getLast hne]; rfl)
  refine ⟨rfl, rfl, rfl, rfl, NavItem.get?_text_toJson _, ?_, ?_⟩
  · rw [List.getLast?_eq_some_getLast hne, ← hlast]
    rfl
  · have hsegments : (segmentsOf cls.name).dropLast ++ [(segmentsOf cls.name).getLastD []]
        = segmentsOf cls.name := by
      rw [hlast, List.dropLast_concat_getLast]
    calc
      _ = Text.joinWith ".".toList (segmentsOf cls.name) := congrArg _ hsegments
      _ = cls.name := List.intercalate_splitOn '.'

/-- The navigation shows the classes of its table, each once and in its place. -/
theorem navItems_shows_table (table : ClassTable) :
    ShowsTable table (navItems (.ofTable table)) := by
  have hordered := Namespace.ordered_ofTable table
  have hpopulated := Namespace.populated_ofTable table
  have hplaces := (perm_leafPlaces_itemsAt [] [] (.ofTable table)).trans
    ((Namespace.perm_placed_ofTable table).map leafPlace)
  have hpackage : ∀ item ∈ NavItem.allItems (navItems (.ofTable table)),
      item.isPackage = true → ∃ own below, item.items = itemsAt own below ∧ below ≠ .none ∧
        below.Ordered ∧ below.Populated :=
    fun item hitem => exists_below_of_mem_allItems hordered hpopulated hitem
  have hholds : ∀ item ∈ NavItem.allItems (navItems (.ofTable table)),
      item.isPackage = true →
        item.items ≠ [] ∧ NavItem.leafPlacesOfItems [] item.items ≠ [] := by
    intro item hitem hkind
    obtain ⟨own, below, hitems, hne, -, hbelow⟩ := hpackage item hitem hkind
    have hleaves := leafPlacesOfItems_itemsAt_ne_nil hbelow hne own []
    rw [hitems]
    refine ⟨?_, hleaves⟩
    intro hnil
    rw [hnil] at hleaves
    exact hleaves rfl
  refine ⟨?_, ?_, hholds, arranged_itemsAt hordered [], ?_, ?_, ?_, NavItem.get?_children_navRoot⟩
  · rw [← NavItem.leavesOfItems_eq_map]
    exact perm_leaves_navItems table
  · intro place hplace
    have hmem := hplaces.mem_iff.1 hplace
    rw [List.map_map] at hmem
    obtain ⟨cls, hcls, rfl⟩ := List.mem_map.1 hmem
    exact ⟨cls, hcls, showsClass_leafPlace cls⟩
  · intro item hitem
    cases hkind : item.isPackage with
    | true =>
      obtain ⟨own, below, hitems, -, hbelow, -⟩ := hpackage item hitem hkind
      rw [hitems]
      exact arranged_itemsAt hbelow own
    | false =>
      cases item with
      | package => cases hkind
      | leaf => exact arranged_itemsAt Namespace.ordered_none []
  · intro item _
    exact NavItem.get?_text_toJson item
  · intro item hitem hkind
    exact NavItem.get?_children_toJson (hholds item hitem hkind).1

/-- A class that is a namespace as well is shown as a package and, behind it, as a leaf. -/
example :
    let named (name : String) : ClassDoc := { name := name.toList, doc := { kind := .cls } }
    (navItems (.ofTable (.ofList [named "A.B", named "A.B.C"]))).map
        (fun item => (item.id, item.items.map NavItem.id))
      = [("pkg-A".toList, ["pkg-A.B".toList, "A.B".toList])] := by
  decide

end ApiDocs
