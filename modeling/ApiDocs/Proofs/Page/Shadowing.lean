import ApiDocs.Page.Basic
import ApiDocs.Proofs.Class.Ancestors
import ApiDocs.Proofs.Selection
/-!
# Which members a page shows

Along a chain of ancestors, nearest class first, a member hides every farther one of its kind
and name.  It does so whether or not it is private itself, so that leaving out the private
members never brings an overridden one back.

Main definitions:

- `OwnedMember.hides`: whether a member hides another one that is farther away.
- `ListsNearest`: the lists of a page as a choice among the members along a chain.
- `ShowsChain`, `PagesShow`: what the page of a class shows of a chain of ancestors, and the
  pages with and without its private members.

Main results:

- `missing_name_hides_empty_name`: a member without a name counts as one with the empty name.
- `listsNearest_shownMembers`: a page lists the members that nothing before them hides.
- `page_shows_nearest`: the page of a class, with its private members and without.
-/

namespace ApiDocs

namespace OwnedMember

/-- Whether two members have one kind and one name, where a missing name is not the empty
one. -/
def sameName (e r : OwnedMember) : Bool :=
  decide (e.node.kind = r.node.kind) && decide (e.node.name = r.node.name)

/-- Whether a member hides a farther one: both have one kind and one name, where a missing name
counts as the empty one. -/
def hides (e r : OwnedMember) : Bool :=
  decide (e.node.kind = r.node.kind) && decide (e.node.name.getD [] = r.node.name.getD [])

/-- A member hides those in its slot. -/
theorem hides_iff_slot_eq {e r : OwnedMember} : e.hides r = true ↔ e.slot = r.slot := by
  simp [hides, slot]

theorem hides_comm (e r : OwnedMember) : e.hides r = r.hides e := by
  rw [Bool.eq_iff_iff, hides_iff_slot_eq, hides_iff_slot_eq, eq_comm]

end OwnedMember

/-- The lists of a page hold, in order, the members of their kind that no earlier one `covers`,
without the private ones unless they are asked for. -/
def ListsNearest (covers : OwnedMember → OwnedMember → Bool) (showPrivate : Bool)
    (all : List OwnedMember) (page : Page) : Prop :=
  ∀ k, page.members.ofKind k
    = filterBehind (fun earlier r => decide (r.node.kind = .member k) &&
        ! earlier.any (covers · r) && (showPrivate || ! r.node.isPrivate)) [] all

/-- What the page of the class with a name shows: of the members along a chain those that
nothing nearer hides, no two of one kind and name, nothing of what the nearest member of a kind
and name hides by being private, and the names of the chain from the topmost ancestor down. -/
structure ShowsChain (name : Text) (chain : List ClassDoc) (all : List OwnedMember)
    (showPrivate : Bool) (page : Page) : Prop where
  lists : ListsNearest OwnedMember.hides showPrivate all page
  distinct : ∀ k, (page.members.ofKind k).Pairwise fun a b => a.hides b = false
  private_hides : showPrivate = false → ∀ earlier r later, all = earlier ++ r :: later →
    r.node.isPrivate = true → (∀ e ∈ earlier, e.hides r = false) →
    ∀ k, ∀ x ∈ page.members.ofKind k, r.hides x = false
  hierarchy : page.hierarchy = (chain.map ClassDoc.name).reverse
  ends : page.hierarchy.getLast? = some name

/-- The page of the class with a name with the private members and the one without them: both
show one chain of ancestors that starts at the class, and the second one is the first with its
private members taken out. -/
structure PagesShow (table : ClassTable) (name : Text) (chain : List ClassDoc)
    (all : List OwnedMember) (reports : List Report) (page : Bool → Page) : Prop where
  ancestors : AncestorChain table chain
  starts : chain.head? = table.get? name
  built : ∀ showPrivate, Page.ofClass table name showPrivate = .ok (page showPrivate, reports)
  shows : ∀ showPrivate, ShowsChain name chain all showPrivate (page showPrivate)
  without_private : ∀ k, (page false).members.ofKind k
    = ((page true).members.ofKind k).filter (! ·.node.isPrivate)

/-- A class with a member that has no name and one that has the empty name. -/
def unnamedTwins : ClassDoc where
  name := "A".toList
  doc := { kind := .cls, name := some "A".toList }
  members := { cfgs := [{ kind := .member .cfg }, { kind := .member .cfg, name := some [] }] }

/-- A member without a name hides one with the empty name, though their names differ. -/
theorem missing_name_hides_empty_name :
    (∀ cls ∈ (SortedBy.ofList [unnamedTwins] : ClassTable).entries, ∀ k,
        ∀ m ∈ cls.members.ofKind k, m.kind = .member k) ∧
      ∃ all page, membersOf (.ofList [unnamedTwins]) "A".toList = .ok (all, []) ∧
        Page.ofClass (.ofList [unnamedTwins]) "A".toList true = .ok (page, []) ∧
        ¬ ListsNearest OwnedMember.sameName true all page := by
  constructor
  · intro cls hcls k m hm
    rw [List.mem_singleton.1 hcls] at hm
    cases k with
    | cfg =>
      rcases List.mem_cons.1 hm with rfl | hm
      · rfl
      · rw [List.mem_singleton.1 hm]
    | _ => cases hm
  · refine ⟨_, _, rfl, rfl, ?_⟩
    intro h
    have hlen := congrArg List.length (h .cfg)
    exact absurd hlen (by decide)

/-! ### The lists of a page -/

/-- The lists that are made of the shown members. -/
theorem listsNearest_shownMembers {showPrivate : Bool} {all : List OwnedMember} {page : Page}
    (h : page.members = .ofFn fun k =>
      (shownMembers showPrivate all).filter (·.node.kind = .member k)) :
    ListsNearest OwnedMember.hides showPrivate all page := by
  intro k
  rw [h, Members.ofKind_ofFn, shownMembers, firstBy_eq_filterBehind, filter_filterBehind,
    filter_filterBehind]
  congr 1
  funext earlier r
  have hfirst : earlier.all (·.slot ≠ r.slot) = ! earlier.any (·.hides r) := by
    rw [List.not_any_eq_all_not]
    congr 1
    funext e
    rw [Bool.eq_iff_iff, decide_eq_true_iff, Bool.not_eq_true', Bool.eq_false_iff, ne_eq, ne_eq,
      OwnedMember.hides_iff_slot_eq]
  rw [hfirst, Bool.and_comm, Bool.and_assoc]

/-- No two of the shown members have one kind and name. -/
theorem pairwise_shownMembers (showPrivate : Bool) (all : List OwnedMember) :
    (shownMembers showPrivate all).Pairwise fun a b => a.hides b = false := by
  have hnodup := nodup_map_firstBy OwnedMember.slot all
  rw [List.Nodup, List.pairwise_map] at hnodup
  refine (hnodup.sublist List.filter_sublist).imp ?_
  intro a b hne
  rw [Bool.eq_false_iff, ne_eq, OwnedMember.hides_iff_slot_eq]
  exact hne

/-- The nearest member of a kind and name hides the others also when it is private and not
shown itself. -/
theorem ListsNearest.not_hides_of_private {all : List OwnedMember} {page : Page}
    (h : ListsNearest OwnedMember.hides false all page) {earlier later : List OwnedMember}
    {r : OwnedMember} (hall : all = earlier ++ r :: later) (hr : r.node.isPrivate = true)
    (hnearest : ∀ e ∈ earlier, e.hides r = false) {k : MemberKind} {x : OwnedMember}
    (hx : x ∈ page.members.ofKind k) : r.hides x = false := by
  rw [h k, mem_filterBehind] at hx
  obtain ⟨before, after, hall', htest⟩ := hx
  simp only [List.nil_append, Bool.and_eq_true, Bool.not_eq_true', List.any_eq_false,
    Bool.false_or] at htest
  obtain ⟨⟨-, hfree⟩, hpublic⟩ := htest
  rw [hall] at hall'
  -- The two members stand at different places, since one is private and the other is not.
  rcases List.append_eq_append_iff.1 hall' with ⟨gap, hbefore, hgap⟩ | ⟨gap, hearlier, hgap⟩
  · cases gap with
    | nil =>
      rw [List.nil_append, List.cons.injEq] at hgap
      rw [hgap.1, hpublic] at hr
      cases hr
    | cons g gap =>
      rw [List.cons_append, List.cons.injEq] at hgap
      have hmem : r ∈ before := by
        rw [hbefore, hgap.1]
        exact List.mem_append_right _ List.mem_cons_self
      simpa using hfree r hmem
  · cases gap with
    | nil =>
      rw [List.nil_append, List.cons.injEq] at hgap
      rw [← hgap.1, hpublic] at hr
      cases hr
    | cons g gap =>
      rw [List.cons_append, List.cons.injEq] at hgap
      have hmem : x ∈ earlier := by
        rw [hearlier, hgap.1]
        exact List.mem_append_right _ List.mem_cons_self
      rw [OwnedMember.hides_comm]
      exact hnearest x hmem

/-- Without the private members, the shown ones are what remains of those shown with them. -/
theorem shownMembers_false (all : List OwnedMember) :
    shownMembers false all = (shownMembers true all).filter (! ·.node.isPrivate) := by
  unfold shownMembers
  rw [List.filter_filter]
  apply List.filter_congr
  intro r _
  simp

/-! ### The page of a class -/

/-- The page of what was found for a class. -/
def Ancestry.page (found : Ancestry) (table : ClassTable) (showPrivate : Bool) : Page where
  table := table
  subject := found.subject
  hierarchy := found.chain.reverse.map ClassDoc.name
  members := .ofFn fun k =>
    (shownMembers showPrivate (ownedAlong found.chain)).filter (·.node.kind = .member k)

/-- The page of a class is made of the way up from it. -/
theorem ofClass_of_ancestry {table : ClassTable} {name : Text} {found : Ancestry}
    (h : Ancestry.of table name = .ok found) (showPrivate : Bool) :
    Page.ofClass table name showPrivate = .ok (found.page table showPrivate, found.reports) := by
  rw [Page.ofClass, h]
  rfl

/-- What is found for a name has a page that shows its chain of ancestors. -/
theorem showsChain_page {table : ClassTable} {name : Text} {found : Ancestry}
    (h : Ancestry.of table name = .ok found) (showPrivate : Bool) :
    ShowsChain name found.chain (ownedAlong found.chain) showPrivate
      (found.page table showPrivate) := by
  obtain ⟨hget, -, above, habove⟩ := Ancestry.of_eq_ok h
  have hlists : ListsNearest OwnedMember.hides showPrivate (ownedAlong found.chain)
      (found.page table showPrivate) := listsNearest_shownMembers rfl
  have hhierarchy : (found.page table showPrivate).hierarchy
      = (found.chain.map ClassDoc.name).reverse := List.map_reverse
  refine ⟨hlists, ?_, ?_, hhierarchy, ?_⟩
  · intro k
    rw [Ancestry.page, Members.ofKind_ofFn]
    exact (pairwise_shownMembers showPrivate _).sublist List.filter_sublist
  · rintro rfl earlier r later hall hr hnearest k x hx
    exact hlists.not_hides_of_private hall hr hnearest hx
  · rw [hhierarchy, List.getLast?_reverse, habove, List.map_cons, List.head?_cons,
      SortedBy.key_of_get? hget]

/-- When the ancestors of a class are found, its pages show their chain. -/
theorem page_shows_nearest {table : ClassTable} {name : Text} {all : List OwnedMember}
    {reports : List Report} (h : membersOf table name = .ok (all, reports)) :
    ∃ chain page, PagesShow table name chain all reports page := by
  cases hfound : Ancestry.of table name with
  | error fault => simp [membersOf, hfound, Except.map] at h
  | ok found =>
    obtain ⟨hget, hchain, above, habove⟩ := Ancestry.of_eq_ok hfound
    simp only [membersOf, hfound, Except.map, Except.ok.injEq, Prod.mk.injEq] at h
    obtain ⟨rfl, rfl⟩ := h
    refine ⟨found.chain, found.page table, hchain, ?_, ofClass_of_ancestry hfound,
      showsChain_page hfound, ?_⟩
    · rw [habove, hget]
      rfl
    · intro k
      rw [Ancestry.page, Ancestry.page, Members.ofKind_ofFn, Members.ofKind_ofFn,
        shownMembers_false, List.filter_filter, List.filter_filter]
      apply List.filter_congr
      intro r _
      exact Bool.and_comm _ _

/-- A class with two public methods. -/
def publicBase : ClassDoc where
  name := "Base".toList
  doc := { kind := .cls, name := some "Base".toList }
  members :=
    { methods := [{ kind := .member .method, name := some "layout".toList },
        { kind := .member .method, name := some "show".toList }] }

/-- A class with a private method in place of an inherited one. -/
def privateChild : ClassDoc where
  name := "Child".toList
  doc := { kind := .cls, name := some "Child".toList, parent := some "Base".toList }
  members :=
    { methods := [{ kind := .member .method, name := some "layout".toList, isPrivate := true }] }

/-- A private member of a child hides the public one of its parent. -/
theorem page_shows_nearest_of_override :
    ∃ all, membersOf (.ofList [publicBase, privateChild]) "Child".toList = .ok (all, []) ∧
      ∃ chain page,
        PagesShow (.ofList [publicBase, privateChild]) "Child".toList chain all [] page :=
  ⟨_, rfl, page_shows_nearest rfl⟩

end ApiDocs
