import ApiDocs.Proofs.Command.Output
import ApiDocs.Proofs.Selection
/-!
# Reports on missing parents

A class that extends a name without a class ends the way up of every class below it, so its report
is made once more for each of their pages, and the first time perhaps for another page than its
own.  A run gathers the reports of all pages in the order of the names of classes and keeps of
equal ones the first.  What is left is one report for each such class.

Main definitions:

- `gatherWalks?`: the reports of walks from several classes, one after the other.
- `ReportsMissing`: the reports of a run on missing parents, in terms of those gathered.

Main results:

- `pageReports_of_missing`: the page of a class with a missing parent reports it.
- `exists_missing_of_mem_pageReports`: a page reports nothing else.
- `gatherWalks?_eq`: the walks gather what the pages report.
- `makePages_reports_missing`: the reports of a run on the classes of a table.
-/

namespace ApiDocs

variable {table : ClassTable} {req : Request} {name parent : Text} {r : Report}

/-- Walks up from the classes with some names, one after the other.  Each walk adds its reports to
those of the walks before it. -/
def gatherWalks? (table : ClassTable) (names : List Text) (before : List Report) :
    Option (List Report) :=
  names.foldlM (fun gathered name =>
    (walkMembers? table name gathered (table.entries.length + 1)).map Prod.snd) before

/-- The reports of a run on the classes of a table, of which all pages together gave those
gathered: no report twice, one for each class that extends a name without a class, and of two
reports first the one that was gathered first. -/
structure ReportsMissing (table : ClassTable) (gathered reports : List Report) : Prop where
  distinct : reports.Nodup
  missing : ∀ r, r ∈ reports ↔ ∃ cls ∈ table.entries, ∃ parent, cls.parent? = some parent ∧
    parent ∉ table.keys ∧ r = .missingParent cls.name parent
  kept : ∀ r, r ∈ reports ↔ r ∈ gathered
  order : reports.Pairwise fun a b => gathered.idxOf a < gathered.idxOf b

/-! ### The reports of one page -/

/-- A page reports what the way up from its class does. -/
theorem pageReports_of_membersOf {all : List OwnedMember} {reports : List Report}
    (h : membersOf table name = .ok (all, reports)) : pageReports req table name = reports := by
  obtain ⟨found, hfound, heq⟩ := map_eq_ok_iff.1 h
  cases heq
  rw [pageReports, Page.ofClass, hfound]
  rfl

/-- On the page of a class whose parent is missing, the way up ends at the class itself. -/
theorem pageReports_of_missing {cls : ClassDoc} (hcls : cls ∈ table.entries)
    (hparent : cls.parent? = some parent) (hmissing : parent ∉ table.keys) :
    pageReports req table cls.name = [.missingParent cls.name parent] := by
  have hget : table.get? cls.name = some cls := SortedBy.get?_eq_some_iff.2 ⟨hcls, rfl⟩
  have hnone : table.get? parent = none := SortedBy.get?_eq_none_iff.2 hmissing
  have hclimb : climb table table.keys cls = ⟨[cls], .missing cls.name parent⟩ := by
    rw [climb, dif_pos (SortedBy.mem_keys_iff.2 ⟨cls, hget⟩), hparent]
    dsimp only
    rw [hnone]
  have hmembers : membersOf table cls.name
      = .ok (ownedAlong [cls], [.missingParent cls.name parent]) := by
    rw [membersOf, Ancestry.of_eq_climb, hget]
    dsimp only
    rw [hclimb]
    rfl
  exact pageReports_of_membersOf hmembers

/-- A page reports the class at which the way up ends, and only when its parent is missing. -/
theorem exists_missing_of_mem_pageReports {all : List OwnedMember} {reports : List Report}
    (h : membersOf table name = .ok (all, reports)) (hr : r ∈ pageReports req table name) :
    ∃ cls ∈ table.entries, ∃ parent, cls.parent? = some parent ∧ parent ∉ table.keys ∧
      r = .missingParent cls.name parent := by
  rw [pageReports_of_membersOf h] at hr
  obtain ⟨found, hfound, heq⟩ := map_eq_ok_iff.1 h
  cases heq
  have hway := wayUp_of_ancestry hfound
  obtain ⟨last, hlast, hreported⟩ := hway.reported
  have hmem : last ∈ table.entries := by
    obtain ⟨i, hi⟩ := List.mem_iff_getElem?.1 (List.mem_of_getLast? hlast)
    rw [hway.places] at hi
    exact SortedBy.mem_entries_of_get? (get?_classAbove? hi)
  cases hparent : last.parent? with
  | none =>
    rw [hparent] at hreported
    rw [hreported] at hr
    cases hr
  | some parent =>
    rw [hparent] at hreported
    obtain ⟨hnone, hreports⟩ := hreported
    rw [hreports, List.mem_singleton] at hr
    exact ⟨last, hmem, parent, hparent, SortedBy.get?_eq_none_iff.1 hnone, hr⟩

/-! ### The reports of all pages -/

/-- Walks from classes whose ways up end gather what the pages of these classes report. -/
theorem gatherWalks?_eq {names : List Text}
    (h : ∀ name ∈ names, ∃ all reports, membersOf table name = .ok (all, reports))
    (before : List Report) :
    gatherWalks? table names before = some (before ++ names.flatMap (pageReports req table)) := by
  induction names generalizing before with
  | nil =>
    rw [List.flatMap_nil, List.append_nil]
    rfl
  | cons name names ih =>
    obtain ⟨⟨all, reports, hname⟩, hnames⟩ := List.forall_mem_cons.1 h
    have hlater := ih hnames (before ++ reports)
    rw [List.append_assoc] at hlater
    rw [List.flatMap_cons, pageReports_of_membersOf hname, ← hlater]
    unfold gatherWalks?
    rw [List.foldlM_cons, walkMembers?_eq, hname]
    rfl

/-- A class whose members are found is on no way that comes back to a class. -/
theorem not_revisits_of_membersOf {all : List OwnedMember} {reports : List Report}
    (h : membersOf table name = .ok (all, reports)) : ¬ Revisits table name := by
  obtain ⟨found, hfound, -⟩ := map_eq_ok_iff.1 h
  exact (wayUp_of_ancestry hfound).not_revisits

/-- Where the way up from each class of a table ends, the pages of all classes are made.  Their
reports, gathered class by class and taken once each, are those on the classes that extend a name
without a class. -/
theorem makePages_reports_missing
    (h : ∀ name ∈ table.keys, ∃ all reports, membersOf table name = .ok (all, reports))
    (req : Request) :
    ∃ gathered pages reports, gatherWalks? table table.keys [] = some gathered ∧
      makePages req table = .ok (pages, reports) ∧ ReportsMissing table gathered reports := by
  have hways : ∀ name ∈ table.keys, ¬ Revisits table name := by
    intro name hname
    obtain ⟨all, reports, hmembers⟩ := h name hname
    exact not_revisits_of_membersOf hmembers
  have hkept : ∀ r, r ∈ firstBy id (table.keys.flatMap (pageReports req table)) ↔
      r ∈ table.keys.flatMap (pageReports req table) := by
    intro r
    refine ⟨mem_firstBy_subset, fun hr => ?_⟩
    have hfirst : ∃ b ∈ firstBy id (table.keys.flatMap (pageReports req table)), id b = id r :=
      exists_mem_firstBy hr
    obtain ⟨first, hmem, rfl⟩ := hfirst
    exact hmem
  refine ⟨_, _, _, gatherWalks?_eq h [], makePages_eq_ok hways, ?_, ?_, hkept, ?_⟩
  · have hnodup := nodup_map_firstBy id (table.keys.flatMap (pageReports req table))
    rwa [List.map_id] at hnodup
  · intro r
    rw [hkept, List.mem_flatMap]
    constructor
    · rintro ⟨name, hname, hr⟩
      obtain ⟨all, reports, hmembers⟩ := h name hname
      exact exists_missing_of_mem_pageReports hmembers hr
    · rintro ⟨cls, hcls, parent, hparent, hmissing, rfl⟩
      refine ⟨cls.name, List.mem_map_of_mem hcls, ?_⟩
      rw [pageReports_of_missing hcls hparent hmissing]
      exact List.mem_singleton_self _
  · exact pairwise_idxOf_firstBy _

/-- A class with a missing parent, two classes below it of which one comes before it in the order
of names, and another class with a missing parent. -/
def sharedBase : List ClassDoc :=
  [("App", "Base"), ("Base", "Gone"), ("Tab", "App"), ("Zoom", "Lost")].map fun (name, parent) =>
    { name := name.toList
      doc := { kind := .cls, name := some name.toList, parent := some parent.toList } }

theorem makePages_reports_missing_of_sharedBase :
    (∀ name ∈ (SortedBy.ofList sharedBase : ClassTable).keys, ∃ all reports,
        membersOf (.ofList sharedBase) name = .ok (all, reports)) ∧
      gatherWalks? (.ofList sharedBase) (SortedBy.ofList sharedBase : ClassTable).keys []
        = some (List.replicate 3 (.missingParent "Base".toList "Gone".toList)
            ++ [.missingParent "Zoom".toList "Lost".toList]) ∧
      ∃ gathered pages reports,
        gatherWalks? (.ofList sharedBase) (SortedBy.ofList sharedBase : ClassTable).keys []
          = some gathered ∧
        makePages ⟨[], "out".toList, .html, true⟩ (.ofList sharedBase) = .ok (pages, reports) ∧
        ReportsMissing (.ofList sharedBase) gathered reports := by
  have hkeys : (SortedBy.ofList sharedBase : ClassTable).keys
      = ["App".toList, "Base".toList, "Tab".toList, "Zoom".toList] := by decide
  have hways : ∀ name ∈ (SortedBy.ofList sharedBase : ClassTable).keys, ∃ all reports,
      membersOf (.ofList sharedBase) name = .ok (all, reports) := by
    rw [hkeys]
    intro name hname
    simp only [List.mem_cons, List.not_mem_nil, or_false] at hname
    rcases hname with rfl | rfl | rfl | rfl
    all_goals exact ⟨_, _, rfl⟩
  exact ⟨hways, rfl, makePages_reports_missing hways _⟩

end ApiDocs
