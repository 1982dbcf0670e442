import ApiDocs.Proofs.Class.Filing
import Mathlib.Data.List.Pairwise
/-!
# Composing catalogs

Nothing but the classes and the orphans found so far passes from one unit to the next: at the start
of a unit no class is open.  So the catalog of two lists of units is put together from their two
catalogs, a class of the second taking the place of one of the first as a whole.  When no class is
documented in two units, it does not matter in which order the units come.

Main definitions:

- `SortedBy.union`: two collections as one, the second before the first.
- `classNamesOf`, `SharesNoClass`: the class names of a unit, and units without a common one.

Main results:

- `SortedBy.ext_get?`: a collection is known by what it has for each key.
- `SortedBy.get?_union`: what the union of two collections has for a key.
- `flatMap_eq_of_perm`: order does not matter where at most one list of many is not empty.
- `ofUnits_composes`: the catalog of more units, and of units in another order.
-/

namespace ApiDocs

/-! ### Unions -/

namespace SortedBy

variable {α : Type} {key : α → Text}

/-- A collection is known by what it has for each key. -/
theorem ext_get? {s t : SortedBy key} (h : ∀ k, s.get? k = t.get? k) : s = t := by
  have hnodup : ∀ u : SortedBy key, u.entries.Nodup := by
    intro u
    exact u.increasing.imp fun hlt heq => Text.ne_of_lt hlt (congrArg key heq)
  have hmem : ∀ a, a ∈ s.entries ↔ a ∈ t.entries := by
    intro a
    have hs := get?_eq_some_iff (s := s) (k := key a) (a := a)
    have ht := get?_eq_some_iff (s := t) (k := key a) (a := a)
    rw [h] at hs
    simpa using hs.symm.trans ht
  have hperm := (List.perm_ext_iff_of_nodup (hnodup s) (hnodup t)).2 hmem
  apply SortedBy.ext
  apply hperm.eq_of_pairwise _ s.increasing t.increasing
  intro a b _ _ hab hba
  exact absurd (List.lt_trans hab hba) (List.lt_irrefl (key a))

/-- Of the entries of a collection, the last one with a key is the only one. -/
theorem getLast?_filter_entries (s : SortedBy key) (k : Text) :
    (s.entries.filter (key · = k)).getLast? = s.get? k := by
  cases hlast : (s.entries.filter (key · = k)).getLast? with
  | none =>
    rw [List.getLast?_eq_none_iff, List.filter_eq_nil_iff] at hlast
    exact (List.find?_eq_none.2 hlast).symm
  | some a =>
    have hmem := List.mem_filter.1 (List.mem_of_getLast? hlast)
    exact (get?_eq_some_iff.2 ⟨hmem.1, of_decide_eq_true hmem.2⟩).symm

/-- The entries of two collections; of two entries with one key, that of the second. -/
def union (s t : SortedBy key) : SortedBy key :=
  s.insertAll t.entries

/-- In a union, entries of the second collection replace those of the first. -/
theorem get?_union (s t : SortedBy key) (k : Text) :
    (s.union t).get? k = (t.get? k).or (s.get? k) := by
  rw [union, get?_insertAll, getLast?_filter_entries]

/-- Entries are added one after the other, or together. -/
theorem union_ofList (s : SortedBy key) (l : List α) : s.union (ofList l) = s.insertAll l := by
  apply ext_get?
  intro k
  rw [get?_union, get?_ofList, get?_insertAll]

end SortedBy

/-! ### Order of units -/

/-- Where at most one of many lists is not empty, their order does not matter. -/
theorem flatMap_eq_of_perm {α β : Type} {f : α → List β} {l m : List α} (hperm : l.Perm m)
    (h : l.Pairwise fun a b => f a = [] ∨ f b = []) : l.flatMap f = m.flatMap f := by
  induction hperm with
  | nil => rfl
  | cons a _ ih =>
    rw [List.flatMap_cons, List.flatMap_cons, ih (List.pairwise_cons.1 h).2]
  | swap a b rest =>
    have hab : f b = [] ∨ f a = [] := (List.pairwise_cons.1 h).1 a List.mem_cons_self
    simp only [List.flatMap_cons]
    rcases hab with hnil | hnil
    · rw [hnil, List.nil_append, List.nil_append]
    · rw [hnil, List.nil_append, List.nil_append]
  | trans hfirst _ ihfirst ihsecond =>
    have hmiddle := (hfirst.pairwise_iff fun hab => hab.symm).1 h
    exact (ihfirst h).trans (ihsecond hmiddle)

/-- The names of the class nodes of a unit. -/
def classNamesOf (nodes : List DocNode) : List Text :=
  (nodes.filterMap DocNode.classNode?).filterMap DocNode.name

/-- The classes of a unit are named by its class nodes. -/
theorem mem_classNamesOf_iff {nodes : List DocNode} {name : Text} :
    name ∈ classNamesOf nodes ↔ ∃ node ∈ nodes, node.kind = .cls ∧ node.name = some name := by
  simp only [classNamesOf, List.mem_filterMap, DocNode.classNode?]
  constructor
  · rintro ⟨doc, ⟨node, hnode, hdoc⟩, hname⟩
    by_cases hkind : node.kind = .cls
    · rw [if_pos hkind, Option.some.injEq] at hdoc
      exact ⟨node, hnode, hkind, hdoc ▸ hname⟩
    · rw [if_neg hkind] at hdoc
      cases hdoc
  · rintro ⟨node, hnode, hkind, hname⟩
    exact ⟨node, ⟨node, hnode, if_pos hkind⟩, hname⟩

/-- No class name occurs in two of the units. -/
def SharesNoClass (units : List (List DocNode)) : Prop :=
  units.Pairwise fun first second => ∀ name ∈ classNamesOf first, name ∉ classNamesOf second

/-- A class that a unit does not name has no place in it. -/
theorem placesOf_eq_nil {nodes : List DocNode} {name : Text} (h : name ∉ classNamesOf nodes) :
    placesOf name nodes = [] := by
  by_contra hne
  exact h (mem_classNamesOf_iff.2 (placesOf_ne_nil_iff.1 hne))

/-- A class stands in one unit only, so its last place is the same in every order of the units. -/
theorem lastPlace?_of_perm {units others : List (List DocNode)} (hperm : units.Perm others)
    (h : SharesNoClass units) (name : Text) : lastPlace? name others = lastPlace? name units := by
  have hplaces : units.flatMap (placesOf name) = others.flatMap (placesOf name) := by
    apply flatMap_eq_of_perm hperm
    apply h.imp
    intro first second hshares
    by_cases hfirst : name ∈ classNamesOf first
    · exact .inr (placesOf_eq_nil (hshares name hfirst))
    · exact .inl (placesOf_eq_nil hfirst)
  rw [lastPlace?, lastPlace?, hplaces]

/-! ### The catalog of more units -/

/-- Filing units adds their own catalog to what has been filed, whatever class was open. -/
theorem Filing.foldl_unit_eq_union (units : List (List DocNode)) (s : Filing) :
    (units.foldl unit s).classes = s.classes.union (Catalog.ofUnits units).classes ∧
      (units.foldl unit s).orphans = s.orphans ++ (Catalog.ofUnits units).orphans := by
  obtain ⟨hclasses, horphans⟩ := foldl_unit units s
  constructor
  · rw [hclasses, classes_ofUnits, SortedBy.union_ofList]
  · rw [horphans, orphans_ofUnits]

/-- The catalog of units that follow others adds its classes and its orphans to those of the others,
also when the nodes are filed one after the other behind anything filed before.  For each name the
class of the later units is taken as a whole, that of the earlier ones where they have none.  When
no class name occurs in two units, every order of the units gives the same classes. -/
theorem ofUnits_composes (us vs : List (List DocNode)) :
    (Catalog.ofUnits (us ++ vs)).classes
        = (Catalog.ofUnits us).classes.union (Catalog.ofUnits vs).classes ∧
      (∀ name, (Catalog.ofUnits (us ++ vs)).classes.get? name
        = ((Catalog.ofUnits vs).classes.get? name).or
            ((Catalog.ofUnits us).classes.get? name)) ∧
      (Catalog.ofUnits (us ++ vs)).orphans
        = (Catalog.ofUnits us).orphans ++ (Catalog.ofUnits vs).orphans ∧
      (∀ s : Filing,
        (vs.foldl Filing.unit s).classes = s.classes.union (Catalog.ofUnits vs).classes ∧
          (vs.foldl Filing.unit s).orphans = s.orphans ++ (Catalog.ofUnits vs).orphans) ∧
      ∀ others, us.Perm others → SharesNoClass us →
        (Catalog.ofUnits others).classes = (Catalog.ofUnits us).classes := by
  have hclasses : (Catalog.ofUnits (us ++ vs)).classes
      = (Catalog.ofUnits us).classes.union (Catalog.ofUnits vs).classes := by
    rw [classes_ofUnits, classes_ofUnits vs, SortedBy.union_ofList, List.flatMap_append,
      SortedBy.ofList, SortedBy.insertAll_append, classes_ofUnits us, SortedBy.ofList]
  refine ⟨hclasses, ?_, ?_, Filing.foldl_unit_eq_union vs, ?_⟩
  · intro name
    rw [hclasses, SortedBy.get?_union]
  · rw [orphans_ofUnits, List.flatMap_append, orphans_ofUnits, orphans_ofUnits]
  · intro others hperm hshares
    apply SortedBy.ext_get?
    intro name
    rw [get?_ofUnits, get?_ofUnits, lastPlace?_of_perm hperm hshares]

/-- A unit that documents `A` with an option. -/
def unitOfA : List DocNode :=
  [{ kind := .cls, name := some "A".toList },
    { kind := .member .cfg, name := some "x".toList }]

/-- A unit that documents `B` twice, behind a member that belongs to no class. -/
def unitOfB : List DocNode :=
  [{ kind := .member .cfg, name := some "y".toList }, { kind := .cls, name := some "B".toList },
    { kind := .cls, name := some "B".toList, description := "Again.".toList }]

/-- Two units that share no class give the same classes in both orders. -/
theorem ofUnits_composes_of_two_orders :
    [unitOfA, unitOfB].Perm [unitOfB, unitOfA] ∧ SharesNoClass [unitOfA, unitOfB] ∧
      (Catalog.ofUnits [unitOfB, unitOfA]).classes.keys = ["A".toList, "B".toList] ∧
      (Catalog.ofUnits [unitOfB, unitOfA]).classes = (Catalog.ofUnits [unitOfA, unitOfB]).classes := by
  have hperm : [unitOfA, unitOfB].Perm [unitOfB, unitOfA] := .swap unitOfB unitOfA []
  have hshares : SharesNoClass [unitOfA, unitOfB] := by
    unfold SharesNoClass
    decide
  obtain ⟨-, -, -, -, horders⟩ := ofUnits_composes [unitOfA, unitOfB] []
  exact ⟨hperm, hshares, by decide, horders [unitOfB, unitOfA] hperm hshares⟩

end ApiDocs
