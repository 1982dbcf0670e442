import ApiDocs.Class.Catalog
import ApiDocs.Proofs.Namespace.Arrangement
import ApiDocs.Proofs.Text.Lines
import ApiDocs.Proofs.Text.Trimming
import ApiDocs.Source.Unit
import Mathlib
/-!
# The ids of the navigation

The viewer finds the root, the packages and the leaves of the navigation by their ids.  A package
has its path behind a fixed start, a leaf the name of its class, and the root a fixed word.  The
nodes that hold others are different starts of the segments of class names, so two packages never
share an id, and neither do two leaves.  But nothing keeps the three sorts of ids apart: a class
may have the id of the root or of a package as its name.

Main definitions:

- `Namespace.holders`: the paths of the nodes that hold others.
- `pathTo`: the path of a package from the segments that lead to it.
- `navIds`, `packageIds`: the ids of all nodes of the navigation, and of its packages.

Main results:

- `Namespace.mem_holders_ofTable`: which paths lead to a node that holds others.
- `perm_ids_itemsAt`: the ids of the items for a tree.
- `nodup_navIds_iff`: when all ids differ.
-/

namespace ApiDocs

/-! ### Starts of a dotted name -/

/-- A dot in a name divides its segments. -/
theorem segmentsOf_append (before after : Text) :
    segmentsOf (before ++ '.' :: after) = segmentsOf before ++ segmentsOf after :=
  List.splitOn_append_cons_self before after

/-- Where the segments of a name are divided, a dot divides the name. -/
theorem exists_dot_of_segmentsOf_eq {name : Text} {front back : List Text} (hfront : front ≠ [])
    (hback : back ≠ []) (h : segmentsOf name = front ++ back) :
    ∃ path rest, name = path ++ '.' :: rest ∧ front = segmentsOf path := by
  have hplain : ∀ s ∈ front ++ back, '.' ∉ s := by
    intro s hs
    rw [← h] at hs
    exact Text.not_mem_of_mem_fields hs
  have hpath : segmentsOf (['.'].intercalate front) = front :=
    List.splitOn_intercalate '.' (fun s hs => hplain s (List.mem_append_left _ hs)) hfront
  have hrest : segmentsOf (['.'].intercalate back) = back :=
    List.splitOn_intercalate '.' (fun s hs => hplain s (List.mem_append_right _ hs)) hback
  refine ⟨['.'].intercalate front, ['.'].intercalate back, ?_, hpath.symm⟩
  apply Namespace.segmentsOf_injective
  rw [segmentsOf_append, hpath, hrest, h]

/-! ### Nodes that hold others -/

namespace Namespace

variable {tree : Namespace} {start path : List Text}

/-- The path of a node, if it holds others. -/
def holderAt (path : List Text) : Namespace → List (List Text)
  | none => []
  | node .. => [path]

/-- The paths of the nodes of a tree below `start` that hold others. -/
def holders (start : List Text) : Namespace → List (List Text)
  | none => []
  | node s _ below beside =>
    holderAt (start ++ [s]) below ++ holders (start ++ [s]) below ++ holders start beside

/-- A node holds others at its own path. -/
theorem mem_holderAt_iff {path' : List Text} :
    path' ∈ holderAt path tree ↔ path' = path ∧ tree ≠ none := by
  cases tree with
  | none => simp [holderAt]
  | node => simp [holderAt]

theorem nodup_holderAt (path : List Text) (tree : Namespace) : (holderAt path tree).Nodup := by
  cases tree with
  | none => exact List.nodup_nil
  | node => exact List.nodup_singleton path

/-- A class stands below one of the first nodes of its tree. -/
theorem exists_head_of_mem_placed {entry : List Text × ClassDoc} (h : entry ∈ tree.placed start) :
    ∃ s ∈ tree.heads, ∃ rest, entry.1 = start ++ s :: rest := by
  induction tree generalizing start with
  | none => cases h
  | node s c below beside ihbelow ihbeside =>
    rw [placed, List.mem_append, List.mem_append, List.mem_map] at h
    rcases h with (⟨cls, -, rfl⟩ | hbelow) | hbeside
    · exact ⟨s, List.mem_cons_self, [], rfl⟩
    · obtain ⟨s', -, rest, heq⟩ := ihbelow hbelow
      exact ⟨s, List.mem_cons_self, s' :: rest, by rw [heq, List.append_assoc]; rfl⟩
    · obtain ⟨s', hs', rest, heq⟩ := ihbeside hbeside
      exact ⟨s', List.mem_cons_of_mem _ hs', rest, heq⟩

/-- So does a node that holds others, unless it is one of them. -/
theorem exists_head_of_mem_holders (h : path ∈ tree.holders start) :
    ∃ s ∈ tree.heads, ∃ rest, path = start ++ s :: rest := by
  induction tree generalizing start with
  | none => cases h
  | node s c below beside ihbelow ihbeside =>
    rw [holders, List.mem_append, List.mem_append] at h
    rcases h with (hown | hbelow) | hbeside
    · exact ⟨s, List.mem_cons_self, [], (mem_holderAt_iff.1 hown).1⟩
    · obtain ⟨s', -, rest, heq⟩ := ihbelow hbelow
      exact ⟨s, List.mem_cons_self, s' :: rest, by rw [heq, List.append_assoc]; rfl⟩
    · obtain ⟨s', hs', rest, heq⟩ := ihbeside hbeside
      exact ⟨s', List.mem_cons_of_mem _ hs', rest, heq⟩

/-- No path is listed twice, as siblings have different segments. -/
theorem nodup_holders (h : tree.Ordered) (start : List Text) : (tree.holders start).Nodup := by
  induction tree generalizing start with
  | none => exact List.nodup_nil
  | node s c below beside ihbelow ihbeside =>
    obtain ⟨hfirst, hbelow, hbeside⟩ := h
    rw [holders, List.nodup_append, List.nodup_append]
    refine ⟨⟨nodup_holderAt _ _, ihbelow hbelow _, ?_⟩, ihbeside hbeside _, ?_⟩
    · intro path hpath path' hpath' heq
      obtain ⟨s', -, rest, hlong⟩ := exists_head_of_mem_holders hpath'
      rw [← heq, (mem_holderAt_iff.1 hpath).1] at hlong
      simp at hlong
    · intro path hpath path' hpath' heq
      obtain ⟨s', hs', rest, hlater⟩ := exists_head_of_mem_holders hpath'
      have hhere : ∃ rest, path = start ++ s :: rest := by
        rcases List.mem_append.1 hpath with hpath | hpath
        · exact ⟨[], (mem_holderAt_iff.1 hpath).1⟩
        · obtain ⟨s', -, rest, hlong⟩ := exists_head_of_mem_holders hpath
          exact ⟨s' :: rest, by rw [hlong, List.append_assoc]; rfl⟩
      obtain ⟨rest', hhere⟩ := hhere
      rw [← heq, hhere, List.append_cancel_left_eq, List.cons.injEq] at hlater
      have hlt := hfirst s' hs'
      rw [hlater.1] at hlt
      exact Text.ne_of_lt hlt rfl

/-- In a tree without empty nodes, the paths that lead to a node that holds others are the proper
starts of those that lead to classes. -/
theorem mem_holders_iff (h : tree.Populated) :
    path ∈ tree.holders start ↔
      ∃ entry ∈ tree.placed start, ∃ s rest next more,
        path = start ++ s :: rest ∧ entry.1 = path ++ next :: more := by
  induction tree generalizing start with
  | none => simp [holders, placed]
  | node s c below beside ihbelow ihbeside =>
    obtain ⟨-, hbelow, hbeside⟩ := h
    rw [holders, placed, List.mem_append, List.mem_append, ihbelow hbelow, ihbeside hbeside]
    constructor
    · rintro ((hown | ⟨entry, hentry, s', rest, next, more, rfl, hmore⟩) |
        ⟨entry, hentry, hpath⟩)
      · obtain ⟨rfl, hne⟩ := mem_holderAt_iff.1 hown
        have hsome := placed_ne_nil hbelow hne (start ++ [s])
        obtain ⟨entry, hentry⟩ := List.exists_mem_of_ne_nil _ hsome
        obtain ⟨s', -, rest, heq⟩ := exists_head_of_mem_placed hentry
        exact ⟨entry, List.mem_append_left _ (List.mem_append_right _ hentry), s, [], s', rest,
          rfl, heq⟩
      · refine ⟨entry, List.mem_append_left _ (List.mem_append_right _ hentry), s, s' :: rest,
          next, more, ?_, hmore⟩
        rw [List.append_assoc]
        rfl
      · exact ⟨entry, List.mem_append_right _ hentry, hpath⟩
    · rintro ⟨entry, hentry, s', rest, next, more, rfl, hmore⟩
      rw [List.mem_append, List.mem_append, List.mem_map] at hentry
      rcases hentry with (⟨cls, -, rfl⟩ | hentry) | hentry
      · simp at hmore
      · obtain ⟨s'', -, rest', heq⟩ := exists_head_of_mem_placed hentry
        rw [heq] at hmore
        simp only [List.append_assoc, List.append_cancel_left_eq, List.cons_append,
          List.nil_append, List.cons.injEq] at hmore
        obtain ⟨rfl, hmore⟩ := hmore
        refine .inl ?_
        cases rest with
        | nil =>
          refine .inl (mem_holderAt_iff.2 ⟨rfl, ?_⟩)
          rintro rfl
          cases hentry
        | cons first rest =>
          refine .inr ⟨entry, hentry, first, rest, next, more, ?_, ?_⟩
          · rw [List.append_assoc]
            rfl
          · rw [heq, hmore]
            simp
      · exact .inr ⟨entry, hentry, s', rest, next, more, rfl, hmore⟩

/-- The nodes of the tree of a table that hold others are those whose paths, with a dot behind
them, start the name of a class. -/
theorem mem_holders_ofTable {table : ClassTable} {segments : List Text} :
    segments ∈ (ofTable table).holders [] ↔
      ∃ path rest, path ++ '.' :: rest ∈ table.keys ∧ segments = segmentsOf path := by
  have hplaced : ∀ entry, entry ∈ (ofTable table).placed [] ↔
      ∃ cls ∈ table.entries, (segmentsOf cls.name, cls) = entry := by
    intro entry
    rw [(perm_placed_ofTable table).mem_iff, List.mem_map]
  rw [mem_holders_iff (populated_ofTable table)]
  constructor
  · rintro ⟨entry, hentry, s, rest, next, more, rfl, hmore⟩
    obtain ⟨cls, hcls, rfl⟩ := (hplaced entry).1 hentry
    obtain ⟨path, rest', hname, hpath⟩ :=
      exists_dot_of_segmentsOf_eq (List.cons_ne_nil s rest) (List.cons_ne_nil next more) hmore
    exact ⟨path, rest', List.mem_map.2 ⟨cls, hcls, hname⟩, hpath⟩
  · rintro ⟨path, rest, hkey, rfl⟩
    obtain ⟨cls, hcls, hname⟩ := List.mem_map.1 hkey
    obtain ⟨s, front, hfront⟩ := List.exists_cons_of_ne_nil (List.splitOn_ne_nil '.' path)
    obtain ⟨next, more, hback⟩ := List.exists_cons_of_ne_nil (List.splitOn_ne_nil '.' rest)
    refine ⟨_, (hplaced _).2 ⟨cls, hcls, rfl⟩, s, front, next, more, hfront, ?_⟩
    rw [← hback]
    exact (congrArg segmentsOf hname).trans (segmentsOf_append path rest)

end Namespace

/-! ### Paths -/

/-- The path of the package to which segments lead. -/
def pathTo (segments : List Text) : Text :=
  segments.foldl joinPath []

/-- The path to a package under another one is joined by a dot. -/
theorem pathTo_concat (start : List Text) (s : Text) :
    pathTo (start ++ [s]) = joinPath (pathTo start) s := by
  rw [pathTo, List.foldl_append]
  rfl

/-- Behind a first segment that is not empty, the further ones follow with dots. -/
theorem foldl_joinPath {path : Text} (h : path ≠ []) (segments : List Text) :
    segments.foldl joinPath path = path ++ segments.flatMap ('.' :: ·) := by
  induction segments generalizing path with
  | nil => exact (List.append_nil path).symm
  | cons s segments ih =>
    have hjoin : joinPath path s = path ++ '.' :: s := by
      rw [joinPath, if_neg (by simpa using h)]
    rw [List.foldl_cons, hjoin, ih (by simp), List.flatMap_cons, List.append_assoc]

/-- The segments of a name lead to the name, unless it starts with a dot. -/
theorem pathTo_segmentsOf {path : Text} (h : path.head? ≠ some '.') :
    pathTo (segmentsOf path) = path := by
  obtain ⟨s, segments, hsegments⟩ := List.exists_cons_of_ne_nil (List.splitOn_ne_nil '.' path)
  have hjoin : Text.joinWith ['.'] (segmentsOf path) = path := List.intercalate_splitOn '.'
  change segmentsOf path = s :: segments at hsegments
  rw [hsegments, Text.joinWith_cons] at hjoin
  rw [hsegments, pathTo, List.foldl_cons, joinPath, if_pos List.isEmpty_nil]
  cases s with
  | cons c s => rw [foldl_joinPath (List.cons_ne_nil c s), hjoin]
  | nil =>
    cases segments with
    | nil => exact hjoin
    | cons next segments =>
      rw [← hjoin] at h
      exact absurd rfl h

/-! ### Ids -/

/-- The ids of all nodes of the navigation for a table: of its root and of the packages and leaves
below the root. -/
def navIds (table : ClassTable) : List Text :=
  navRootId :: (NavItem.allItems (navItems (.ofTable table))).map NavItem.id

/-- The id of the package at a path. -/
def packageId (path : Text) : Text :=
  "pkg-".toList ++ path

/-- The id of a package tells its path. -/
theorem packageId_inj {path path' : Text} : packageId path = packageId path' ↔ path = path' :=
  List.append_right_inj _

/-- No package has the id of the root. -/
theorem packageId_ne_navRootId (path : Text) : packageId path ≠ navRootId := by
  intro heq
  have hfirst : some 'p' = navRootId.head? := congrArg List.head? heq
  exact absurd hfirst (by decide)

/-- The ids of the packages of a table. -/
def packageIds (table : ClassTable) : List Text :=
  ((Namespace.ofTable table).holders []).map fun path => packageId (pathTo path)

/-- The ids of the items for a tree are those of its nodes that hold others, and the names of its
classes. -/
theorem perm_ids_itemsAt (start : List Text) (tree : Namespace) :
    ((NavItem.allItems (itemsAt (pathTo start) tree)).map NavItem.id).Perm
      ((tree.holders start).map (fun path => packageId (pathTo path))
        ++ (tree.placed start).map fun entry => entry.2.name) := by
  induction tree generalizing start with
  | none => exact .refl _
  | node s c below beside ihbelow ihbeside =>
    have hbelow := ihbelow (start ++ [s])
    have hbeside := ihbeside start
    rw [pathTo_concat] at hbelow
    rw [itemsAt, NavItem.allItems_append] at hbeside
    have hpackage : (NavItem.allItems (packageOf (joinPath (pathTo start) s) s below)).map
          NavItem.id
        = (Namespace.holderAt (start ++ [s]) below).map (fun path => packageId (pathTo path))
          ++ (NavItem.allItems (itemsAt (joinPath (pathTo start) s) below)).map NavItem.id := by
      cases below with
      | none => rfl
      | node =>
        rw [packageOf, NavItem.allItems, NavItem.subItems, NavItem.allItems, List.append_nil,
          List.map_cons, Namespace.holderAt, List.map_singleton, pathTo_concat]
        rfl
    have hleaf : (NavItem.allItems (leafOf s c)).map NavItem.id
        = (c.toList.map (start ++ [s], ·)).map fun entry => entry.2.name := by
      cases c with
      | none => rfl
      | some cls => rfl
    rw [itemsAt, navParts_node, Namespace.holders, Namespace.placed]
    simp only [NavItem.allItems_append, List.map_append, hpackage, hleaf]
    rw [List.perm_iff_count] at hbelow hbeside ⊢
    intro a
    have hbelow := hbelow a
    have hbeside := hbeside a
    simp only [List.map_append, List.count_append] at hbelow hbeside ⊢
    omega

/-- The ids of the navigation are that of its root, those of the packages, and the names of the
classes. -/
theorem perm_navIds (table : ClassTable) :
    (navIds table).Perm (navRootId :: (packageIds table ++ table.keys)) := by
  have hnames : (((Namespace.ofTable table).placed []).map fun entry => entry.2.name).Perm
      table.keys := by
    have hplaced := (Namespace.perm_placed_ofTable table).map fun entry => entry.2.name
    rwa [List.map_map] at hplaced
  exact ((perm_ids_itemsAt [] (.ofTable table)).trans (hnames.append_left _)).cons _

section Packages

variable {table : ClassTable} (h : ∀ name ∈ table.keys, name.head? = some '.' → '.' ∉ name.tail)
include h

/-- The segments of the path of a package lead to the package. -/
theorem pathTo_package {path rest : Text} (hkey : path ++ '.' :: rest ∈ table.keys) :
    pathTo (segmentsOf path) = path := by
  apply pathTo_segmentsOf
  intro hhead
  obtain ⟨more, rfl⟩ := List.head?_eq_some_iff.1 hhead
  exact h _ hkey rfl (by simp)

/-- The packages are the paths that start the name of a class up to a dot. -/
theorem mem_packageIds_iff {id : Text} :
    id ∈ packageIds table ↔ ∃ path rest, path ++ '.' :: rest ∈ table.keys ∧ packageId path = id := by
  rw [packageIds, List.mem_map]
  constructor
  · rintro ⟨segments, hsegments, rfl⟩
    obtain ⟨path, rest, hkey, rfl⟩ := Namespace.mem_holders_ofTable.1 hsegments
    exact ⟨path, rest, hkey, by rw [pathTo_package h hkey]⟩
  · rintro ⟨path, rest, hkey, rfl⟩
    exact ⟨segmentsOf path, Namespace.mem_holders_ofTable.2 ⟨path, rest, hkey, rfl⟩,
      by rw [pathTo_package h hkey]⟩

/-- No two packages have one id. -/
theorem nodup_packageIds : (packageIds table).Nodup := by
  refine List.Nodup.map_on ?_ (Namespace.nodup_holders (Namespace.ordered_ofTable table) [])
  intro segments hsegments segments' hsegments' heq
  obtain ⟨path, rest, hkey, rfl⟩ := Namespace.mem_holders_ofTable.1 hsegments
  obtain ⟨path', rest', hkey', rfl⟩ := Namespace.mem_holders_ofTable.1 hsegments'
  rw [packageId_inj, pathTo_package h hkey, pathTo_package h hkey'] at heq
  rw [heq]

end Packages

/-- The ids of the navigation differ from each other exactly when no class has the id of the root
as its name, or that of a package.  The packages are the paths that start the name of a class up
to a dot; among the class names there is none that starts with a dot and has a further one. -/
theorem nodup_navIds_iff {table : ClassTable}
    (h : ∀ name ∈ table.keys, name.head? = some '.' → '.' ∉ name.tail) :
    (navIds table).Nodup ↔
      navRootId ∉ table.keys ∧
        ∀ path rest, path ++ '.' :: rest ∈ table.keys → packageId path ∉ table.keys := by
  rw [(perm_navIds table).nodup_iff, List.nodup_cons, List.mem_append, not_or, List.nodup_append]
  constructor
  · rintro ⟨⟨-, hclass⟩, -, -, hdisjoint⟩
    refine ⟨hclass, ?_⟩
    intro path rest hkey hmem
    exact hdisjoint _ ((mem_packageIds_iff h).2 ⟨path, rest, hkey, rfl⟩) _ hmem rfl
  · rintro ⟨hclass, hfree⟩
    refine ⟨⟨?_, hclass⟩, nodup_packageIds h, table.nodup_keys, ?_⟩
    · intro hmem
      obtain ⟨path, -, -, heq⟩ := (mem_packageIds_iff h).1 hmem
      exact packageId_ne_navRootId path heq
    · rintro id hid name hname rfl
      obtain ⟨path, rest, hkey, rfl⟩ := (mem_packageIds_iff h).1 hid
      exact hfree path rest hkey hname

/-- Classes that are packages, too, one with the start of the ids of packages in its name, and one
below a segment without characters. -/
def overlappingNames : ClassTable :=
  .ofList (["A.B".toList, "A.B.C".toList, "pkg-B".toList, ".x".toList].map fun name =>
    { name := name, doc := { kind := .cls } })

/-- Names that start with a dot, or that are packages of others, still have ids of their own. -/
theorem nodup_navIds_iff_of_overlappingNames :
    (∀ name ∈ overlappingNames.keys, name.head? = some '.' → '.' ∉ name.tail) ∧
      navIds overlappingNames
        = ["apidocs".toList, "pkg-".toList, ".x".toList, "pkg-A".toList, "pkg-A.B".toList,
          "A.B.C".toList, "A.B".toList, "pkg-B".toList] ∧
      (navIds overlappingNames).Nodup ∧
      ∀ path rest, path ++ '.' :: rest ∈ overlappingNames.keys →
        packageId path ∉ overlappingNames.keys := by
  have hids : (navIds overlappingNames).Nodup := by decide +kernel
  have hdots : ∀ name ∈ overlappingNames.keys, name.head? = some '.' → '.' ∉ name.tail := by
    decide +kernel
  exact ⟨hdots, by decide +kernel, hids, ((nodup_navIds_iff hdots).1 hids).2⟩

/-- A class with the id of the root as its name, and one with that of a package. -/
theorem class_named_like_other_node :
    ∃ first second, UnitDocs.read "/** @class apidocs */".toList = .ok first ∧
      UnitDocs.read "/** @class A.B */ /***/ 'pkg-A': 1".toList = .ok second ∧
      navIds (Catalog.ofUnits [first.nodes]).classes = ["apidocs".toList, "apidocs".toList] ∧
      navIds (Catalog.ofUnits [second.nodes]).classes
        = ["apidocs".toList, "pkg-A".toList, "A.B".toList, "pkg-A".toList] ∧
      ¬ (navIds (Catalog.ofUnits [first.nodes]).classes).Nodup ∧
      ¬ (navIds (Catalog.ofUnits [second.nodes]).classes).Nodup := by
  have hfirst : docBlocks "/** @class apidocs */".toList
      = .ok [⟨" @class apidocs ".toList, [], 1⟩] := by
    cbv
  have hsecond : docBlocks "/** @class A.B */ /***/ 'pkg-A': 1".toList
      = .ok [⟨" @class A.B ".toList, " ".toList, 1⟩, ⟨[], " 'pkg-A': 1".toList, 1⟩] := by
    cbv
  exact ⟨_, _, congrArg (Except.map UnitDocs.ofBlocks) hfirst,
    congrArg (Except.map UnitDocs.ofBlocks) hsecond, by decide +kernel, by decide +kernel,
    by decide +kernel, by decide +kernel⟩

end ApiDocs
