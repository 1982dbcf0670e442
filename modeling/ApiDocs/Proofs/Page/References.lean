import ApiDocs.Proofs.Page.Attributes
import ApiDocs.Proofs.Page.Marks
import ApiDocs.Proofs.Page.Shadowing
import ApiDocs.Proofs.Text.Trimming
import Mathlib.Data.List.TakeWhile
/-!
# Rows that references lead to

The address of a reference names a class and, after a number sign, the mark of a member of this
class.  It is found in the table, while the rows of the page of that class are the members left
after shadowing and after taking out the private ones.  Both agree on which member a mark stands
for.  They do not agree on whether it is shown: a reference leads to the mark of a private
member also where the private members are left out.

Main definitions:

- `Reference.Plain`: references with a class and a member made of the characters of names.

Main results:

- `plain_of_mem_references`: the references in a description are plain.
- `address_eq_iff`: the class and the mark in the address of a reference.
- `rowId_mem_ids_iff`: the marks for which a page has a row.
- `references_lead_to_members`: the member and the row that a reference on a page leads to.
- `private_member_without_row`: a reference to a mark without a row.
-/

namespace ApiDocs

/-! ### What a reference is made of -/

/-- A reference made of the characters that the reader of references takes. -/
structure Reference.Plain (r : Reference) : Prop where
  cls : ∀ c ∈ r.cls, isClassChar c = true
  member : ∀ m, r.member = some m → m ≠ [] ∧ ∀ c ∈ m, isNameChar c = true

/-- A member that is read has a name, made of characters of names. -/
theorem readMember_plain {s m : Text} (h : (readMember s).1 = some m) :
    m ≠ [] ∧ ∀ c ∈ m, isNameChar c = true := by
  unfold readMember at h
  split at h
  next t =>
    dsimp only at h
    split at h
    next => cases h
    next hempty =>
      cases h
      constructor
      · intro hnil
        rw [hnil] at hempty
        exact hempty rfl
      · intro c hc
        exact List.mem_takeWhile_imp hc
  next => cases h

/-- A target that is read is plain. -/
theorem readTarget?_plain {s rest : Text} {r : Reference} (h : readTarget? s = some (r, rest)) :
    r.Plain := by
  have hcls : ∀ c ∈ s.takeWhile isClassChar, isClassChar c = true :=
    fun c hc => List.mem_takeWhile_imp hc
  have hmember : ∀ m, (readMember (s.drop (s.takeWhile isClassChar).length)).1 = some m →
      m ≠ [] ∧ ∀ c ∈ m, isNameChar c = true := fun m hm => readMember_plain hm
  simp only [readTarget?] at h
  split at h
  next => cases h
  next c after hafter =>
    split at h
    next =>
      cases h
      exact ⟨hcls, hmember⟩
    next =>
      split at h
      next =>
        obtain ⟨found, -, hfound⟩ := Option.map_eq_some_iff.1 h
        cases hfound
        exact ⟨hcls, hmember⟩
      next => cases h

theorem plain_label (label : Text) : Reference.Plain { label := label } :=
  ⟨fun c hc => (List.not_mem_nil hc).elim, fun m hm => by cases hm⟩

theorem readReference?_plain {s rest : Text} {r : Reference}
    (h : readReference? s = some (r, rest)) : r.Plain := by
  unfold readReference? at h
  split at h
  next c t =>
    split at h
    next =>
      rcases Option.or_eq_some_iff.1 h with htarget | ⟨-, hlabel⟩
      · exact readTarget?_plain htarget
      · split at hlabel
        next =>
          obtain ⟨found, -, hfound⟩ := Option.map_eq_some_iff.1 hlabel
          cases hfound
          exact plain_label found.1
        next => cases hlabel
    next => cases h
  next => cases h

/-- The references in a description are plain. -/
theorem plain_of_mem_references {description : Text} {r : Reference}
    (h : .reference r ∈ references description) : r.Plain := by
  fun_induction references description with
  | case1 => cases h
  | case2 c s found rest hfound ih =>
    rcases List.mem_cons.1 h with heq | hrest
    · cases heq
      obtain ⟨t, -, ht⟩ := Option.bind_eq_some_iff.1 hfound
      exact readReference?_plain ht
    · exact ih hrest
  | case3 c s hnone ih =>
    rcases List.mem_cons.1 h with heq | hrest
    · cases heq
    · exact ih hrest

/-! ### Marks -/

/-- The word for a kind has no hyphen and no number sign in it. -/
theorem kind_name_plain (k : Kind) : '-' ∉ k.name ∧ '#' ∉ k.name := by
  cases k with
  | cls => decide
  | param => decide
  | member k => cases k <;> decide

/-- The mark of a member tells the kind and the name: the first hyphen ends the word for the
kind. -/
theorem memberMark_inj {k l : Kind} {m n : Text} :
    memberMark k m = memberMark l n ↔ k = l ∧ m = n := by
  constructor
  · intro h
    have hbreak := congrArg (Text.breakOn? ['-']) h
    rw [memberMark, memberMark, Text.breakOn?_append_singleton m (kind_name_plain k).1,
      Text.breakOn?_append_singleton n (kind_name_plain l).1, Option.some.injEq,
      Prod.mk.injEq] at hbreak
    exact ⟨Kind.eq_of_name_eq hbreak.1, hbreak.2⟩
  · rintro ⟨rfl, rfl⟩
    rfl

/-- Without a number sign in its name, the mark of a member has none. -/
theorem not_mem_markOf? {table : ClassTable} {cls m a : Text} (hm : '#' ∉ m)
    (h : markOf? table cls m = some a) : '#' ∉ a := by
  obtain ⟨way, -, hmark⟩ := Option.bind_eq_some_iff.1 h
  obtain ⟨k, -, rfl⟩ := Option.map_eq_some_iff.1 hmark
  have hkind := (kind_name_plain (.member k)).2
  simp [memberMark, hkind, hm]

/-! ### Addresses -/

/-- What follows the name of a class in an address that goes on to a mark. -/
def markStart : Text :=
  ".html#".toList

/-- An address of a class that is the start of another one, before a number sign, stands in the
name of that class. -/
theorem infix_of_pageRef_append {C D rest : Text} (h : pageRef D = pageRef C ++ '#' :: rest) :
    markStart <:+: D := by
  have hsplit : D ++ ".html".toList = (C ++ markStart) ++ rest := by
    rw [← pageRef, h]
    simp [pageRef, markStart]
  rcases List.append_eq_append_iff.1 hsplit with ⟨gap, hgap, hending⟩ | ⟨gap, hgap, -⟩
  · -- the number sign cannot stand in the ending of the address of a class
    cases gap using List.reverseRecOn with
    | nil =>
      rw [List.append_nil] at hgap
      exact ⟨C, [], by rw [← hgap, List.append_nil]⟩
    | append_singleton gap c =>
      have hlast := congrArg List.getLast? hgap
      have hmem : c ∈ ".html".toList := by
        rw [hending]
        simp
      rw [← List.append_assoc, List.getLast?_concat] at hlast
      have hmark : (C ++ markStart).getLast? = some '#' := by
        rw [List.getLast?_append]
        rfl
      rw [hmark, Option.some.injEq] at hlast
      rw [← hlast] at hmem
      exact absurd hmem (by decide)
  · exact ⟨C, gap, hgap.symm⟩

/-- The address of a page tells its class. -/
theorem pageRef_inj {C D : Text} : pageRef C = pageRef D ↔ C = D :=
  List.append_left_inj _

/-- An address with a mark tells the class and the mark, unless the name of the class looks like
such an address itself. -/
theorem pageRef_append_inj {C D a b : Text} (hD : ¬ markStart <:+: D) (hb : '#' ∉ b) :
    pageRef D ++ '#' :: b = pageRef C ++ '#' :: a ↔ D = C ∧ b = a := by
  constructor
  · intro h
    rcases List.append_eq_append_iff.1 h with ⟨gap, hgap, hrest⟩ | ⟨gap, hgap, hrest⟩
    · cases gap with
      | nil =>
        rw [List.append_nil, pageRef_inj] at hgap
        rw [List.nil_append, List.cons.injEq] at hrest
        exact ⟨hgap.symm, hrest.2⟩
      | cons c gap =>
        rw [List.cons_append, List.cons.injEq] at hrest
        rw [hrest.2] at hb
        exact absurd (List.mem_append_right _ List.mem_cons_self) hb
    · cases gap with
      | nil =>
        rw [List.append_nil, pageRef_inj] at hgap
        rw [List.nil_append, List.cons.injEq] at hrest
        exact ⟨hgap, hrest.2.symm⟩
      | cons c gap =>
        rw [List.cons_append, List.cons.injEq] at hrest
        rw [← hrest.1] at hgap
        exact absurd (infix_of_pageRef_append hgap) hD
  · rintro ⟨rfl, rfl⟩
    rfl

/-- Neither a plain reference nor its context holds the mark of a row. -/
theorem not_infix_target {context : Text} {r : Reference} (hr : r.Plain)
    (hcontext : ¬ markStart <:+: context) : ¬ markStart <:+: r.target context := by
  unfold Reference.target
  split
  next => exact hcontext
  next =>
    intro hwithin
    have hchar := hr.cls '#' (hwithin.subset (by decide))
    revert hchar
    decide +kernel

/-- Where the name of a class does not look like an address with a mark, such an address tells
the class and the mark to which a reference leads. -/
theorem address_eq_iff {table : ClassTable} {context C a : Text} {r : Reference} (hr : r.Plain)
    (hcontext : ¬ markStart <:+: context) :
    r.address table context = pageRef C ++ '#' :: a ↔
      r.target context = C ∧ ∃ m, r.member = some m ∧ markOf? table C m = some a := by
  have htarget := not_infix_target hr hcontext
  unfold Reference.address
  dsimp only
  split
  next anchor hanchor =>
    obtain ⟨m, hm, hmark⟩ := Option.bind_eq_some_iff.1 hanchor
    have hplain : '#' ∉ m := not_mem_of_forall (hr.member m hm).2 (by decide +kernel)
    rw [pageRef_append_inj htarget (not_mem_markOf? hplain hmark)]
    constructor
    · rintro ⟨rfl, rfl⟩
      exact ⟨rfl, m, hm, hmark⟩
    · rintro ⟨rfl, other, hother, hmark'⟩
      rw [hm, Option.some.injEq] at hother
      rw [← hother, hmark, Option.some.injEq] at hmark'
      exact ⟨rfl, hmark'⟩
  next hnone =>
    constructor
    · intro heq
      exact absurd (infix_of_pageRef_append heq) htarget
    · rintro ⟨rfl, m, hm, hmark⟩
      rw [hm, Option.bind_some, hmark] at hnone
      cases hnone

/-! ### Rows -/

/-- A member has the mark of another one, which has a plain name, when they have one kind and
name. -/
theorem rowId_eq_iff {e r : OwnedMember} {m : Text} (hname : r.node.name = some m) (hnil : m ≠ [])
    (hm : ∀ c ∈ m, isNameChar c = true) : rowId e = rowId r ↔ e.slot = r.slot := by
  have hplaceholder : placeholder ≠ m := by
    intro heq
    have hmark : '?' ∉ m := not_mem_of_forall hm (by decide +kernel)
    rw [← heq] at hmark
    exact hmark List.mem_cons_self
  have hlabel : r.node.label = m := by
    rw [DocNode.label, hname, Option.getD_some]
  rw [rowId, rowId, hlabel, memberMark_inj, OwnedMember.slot, OwnedMember.slot, Prod.mk.injEq,
    hname, Option.getD_some]
  apply and_congr_right
  intro _
  rw [DocNode.label]
  cases e.node.name with
  | none => simp [hnil.symm, hplaceholder]
  | some n => exact Iff.rfl

/-- The members that a page lists are those shown that are members of a class. -/
theorem mem_all_page {found : Ancestry} {table : ClassTable} {showPrivate : Bool}
    {x : OwnedMember} :
    x ∈ (found.page table showPrivate).members.all ↔
      x ∈ shownMembers showPrivate (ownedAlong found.chain) ∧ ∃ k, x.node.kind = .member k := by
  rw [Members.all, List.mem_flatMap]
  constructor
  · rintro ⟨k, -, hx⟩
    rw [Ancestry.page, Members.ofKind_ofFn, List.mem_filter, decide_eq_true_iff] at hx
    exact ⟨hx.1, k, hx.2⟩
  · rintro ⟨hx, k, hk⟩
    refine ⟨k, MemberKind.mem_all k, ?_⟩
    rw [Ancestry.page, Members.ofKind_ofFn, List.mem_filter, decide_eq_true_iff]
    exact ⟨hx, hk⟩

/-- The first member with a plain name is the first one with its mark. -/
theorem find?_rowId {all : List OwnedMember} {r : OwnedMember} {m : Text} (hnil : m ≠ [])
    (hm : ∀ c ∈ m, isNameChar c = true) (h : all.find? (·.node.name = some m) = some r) :
    all.find? (rowId · = rowId r) = some r := by
  have hname : r.node.name = some m := by simpa using List.find?_some h
  rw [List.find?_eq_some_iff_append] at h ⊢
  obtain ⟨-, before, after, hall, hbefore⟩ := h
  refine ⟨decide_eq_true rfl, before, after, hall, ?_⟩
  intro e he
  have hother := hbefore e he
  rw [Bool.not_eq_true', decide_eq_false_iff_not] at hother ⊢
  intro hid
  have hslot := congrArg Prod.snd ((rowId_eq_iff hname hnil hm).1 hid)
  rw [OwnedMember.slot, OwnedMember.slot, hname, Option.getD_some] at hslot
  cases hn : e.node.name with
  | none =>
    rw [hn] at hslot
    exact hnil hslot.symm
  | some n =>
    rw [hn] at hother hslot
    exact hother (congrArg some hslot)

/-- The page of a class has the row of the first member with a mark, unless this member is
private and the private members are left out. -/
theorem rowId_mem_ids_iff {found : Ancestry} {table : ClassTable} {showPrivate : Bool}
    {r : OwnedMember} {m : Text} (hname : r.node.name = some m) (hnil : m ≠ [])
    (hm : ∀ c ∈ m, isNameChar c = true) (hkind : ∃ k, r.node.kind = .member k)
    (hfirst : (ownedAlong found.chain).find? (rowId · = rowId r) = some r) :
    rowId r ∈ (found.page table showPrivate).ids ↔
      showPrivate = true ∨ r.node.isPrivate = false := by
  have hslot : (ownedAlong found.chain).find? (·.slot = r.slot) = some r := by
    rw [← hfirst]
    congr 1
    funext e
    exact decide_eq_decide.2 (rowId_eq_iff hname hnil hm).symm
  have hshown : ∀ x, x ∈ shownMembers showPrivate (ownedAlong found.chain) ↔
      (ownedAlong found.chain).find? (·.slot = x.slot) = some x ∧
        (showPrivate = true ∨ x.node.isPrivate = false) := by
    intro x
    rw [shownMembers, List.mem_filter, mem_firstBy_iff, Bool.or_eq_true, Bool.not_eq_true']
  rw [Page.ids_eq, List.mem_map]
  constructor
  · rintro ⟨x, hx, hid⟩
    obtain ⟨hfind, hpublic⟩ := (hshown x).1 (mem_all_page.1 hx).1
    rw [rowId_eq_iff hname hnil hm] at hid
    rw [hid, hslot, Option.some.injEq] at hfind
    rw [hfind]
    exact hpublic
  · intro hpublic
    exact ⟨r, mem_all_page.2 ⟨(hshown r).2 ⟨hslot, hpublic⟩, hkind⟩, rfl⟩

/-! ### Pages -/

/-- A page that is made is that of the ancestors found for its class. -/
theorem exists_ancestry_of_ofClass {table : ClassTable} {name : Text} {showPrivate : Bool}
    {page : Page} {reports : List Report}
    (h : Page.ofClass table name showPrivate = .ok (page, reports)) :
    ∃ found, Ancestry.of table name = .ok found ∧ page = found.page table showPrivate ∧
      reports = found.reports := by
  obtain ⟨found, hfound, -⟩ := map_eq_ok_iff.1 h
  rw [ofClass_of_ancestry hfound] at h
  cases h
  exact ⟨found, hfound, rfl, rfl⟩

/-- The descriptions on a page belong to classes of the table. -/
theorem mem_keys_of_mem_descriptions {table : ClassTable} {name : Text} {found : Ancestry}
    (h : Ancestry.of table name = .ok found) {showPrivate : Bool} {place : Text × Text}
    (hplace : place ∈ (found.page table showPrivate).descriptions) : place.1 ∈ table.keys := by
  rcases List.mem_append.1 hplace with hsubject | hrow
  · obtain ⟨description, -, rfl⟩ := List.mem_map.1 hsubject
    have hget := (Ancestry.of_eq_ok h).1
    exact SortedBy.mem_keys_iff.2 ⟨found.subject, by
      rw [Ancestry.page, SortedBy.key_of_get? hget, hget]⟩
  · obtain ⟨r, hr, hdescription⟩ := List.mem_flatMap.1 hrow
    obtain ⟨description, -, rfl⟩ := List.mem_map.1 hdescription
    have howned : r ∈ ownedAlong found.chain :=
      mem_firstBy_subset (List.mem_filter.1 (mem_all_page.1 hr).1).1
    obtain ⟨cls, hcls, k, -, howner⟩ := mem_ownedAlong_iff.1 howned
    exact List.mem_map.2 ⟨cls, mem_entries_of_ancestry h hcls, howner.symm⟩

/-- The mark that is found for a plain name is that of a member, the first one with it. -/
theorem exists_nearest_of_markOf? {table : ClassTable}
    (hfiled : ∀ cls ∈ table.entries, cls.WellFiled) {C m a : Text} {found : Ancestry}
    (hfound : Ancestry.of table C = .ok found) (h : markOf? table C m = some a) :
    ∃ r, (ownedAlong found.chain).find? (·.node.name = some m) = some r ∧ rowId r = a ∧
      ∃ k, r.node.kind = .member k := by
  have hchain : ∀ cls ∈ found.chain, cls.WellFiled :=
    fun cls hcls => hfiled cls (mem_entries_of_ancestry hfound hcls)
  rw [markOf?_of_ancestry hfound, firstMark?_of_wellFiled hchain] at h
  obtain ⟨r, hfind, rfl⟩ := Option.map_eq_some_iff.1 h
  have hname : r.node.name = some m := by simpa using List.find?_some hfind
  obtain ⟨cls, hcls, k, hnode, -⟩ := mem_ownedAlong_iff.1 (List.mem_of_find?_eq_some hfind)
  refine ⟨r, hfind, ?_, k, hchain cls hcls k r.node hnode⟩
  rw [rowId, DocNode.label, hname, Option.getD_some]

/-- A reference on a page, in a table whose pages can all be made, leads to a member of the class
that its address names, the first one with the mark in the address.  The page of this class has
a row with this mark unless the member is private and the private members are left out. -/
theorem references_lead_to_members {table : ClassTable} {showPrivate : Bool}
    (hfiled : ∀ cls ∈ table.entries, cls.WellFiled)
    (hnames : ∀ name ∈ table.keys, ¬ markStart <:+: name)
    (hpages : ∀ name ∈ table.keys, ∃ page reports,
      Page.ofClass table name showPrivate = .ok (page, reports))
    {name : Text} {page : Page} {reports : List Report}
    (hpage : Page.ofClass table name showPrivate = .ok (page, reports))
    {context description : Text} (hplace : (context, description) ∈ page.descriptions)
    {r : Reference} (hr : .reference r ∈ references description) {C a : Text}
    (haddress : r.address table context = pageRef C ++ '#' :: a) :
    pageRef C ++ '#' :: a ∈ page.hrefs ∧
      ∃ target all others nearest,
        Page.ofClass table C showPrivate = .ok (target, others) ∧
        membersOf table C = .ok (all, others) ∧
        all.find? (rowId · = a) = some nearest ∧
        (a ∈ target.ids ↔ showPrivate = true ∨ nearest.node.isPrivate = false) := by
  obtain ⟨found, hfound, rfl, rfl⟩ := exists_ancestry_of_ofClass hpage
  have hplain := plain_of_mem_references hr
  have hcontext := hnames context (mem_keys_of_mem_descriptions hfound hplace)
  constructor
  · rw [Page.mem_hrefs_iff, ← haddress]
    exact .inr ⟨(context, description), hplace, List.mem_filterMap.2 ⟨_, hr, rfl⟩⟩
  · obtain ⟨-, m, hm, hmark⟩ := (address_eq_iff hplain hcontext).1 haddress
    obtain ⟨hnil, hchars⟩ := hplain.member m hm
    have hC : C ∈ table.keys := by
      by_contra hnot
      rw [markOf?_eq_none_of_unknown hnot] at hmark
      cases hmark
    obtain ⟨target, others, htarget⟩ := hpages C hC
    obtain ⟨above, habove, rfl, rfl⟩ := exists_ancestry_of_ofClass htarget
    obtain ⟨nearest, hfind, rfl, hkind⟩ := exists_nearest_of_markOf? hfiled habove hmark
    have hname : nearest.node.name = some m := by simpa using List.find?_some hfind
    have hfirst := find?_rowId hnil hchars hfind
    refine ⟨_, ownedAlong above.chain, above.reports, nearest, htarget, ?_, hfirst,
      rowId_mem_ids_iff hname hnil hchars hkind hfirst⟩
    rw [membersOf, habove]
    rfl

/-- A class that refers to its configuration option, which is private or not. -/
def keyOwner (hidden : Bool) : ClassDoc where
  name := "A".toList
  doc :=
    { kind := .cls, name := some "A".toList, description := "See \x7b@link #key\x7d.".toList }
  members :=
    { cfgs := [{ kind := .member .cfg, name := some "key".toList, isPrivate := hidden }] }

/-- A class that inherits it and refers to it, too. -/
def keyHeir : ClassDoc where
  name := "B".toList
  doc :=
    { kind := .cls, name := some "B".toList, parent := some "A".toList
      description := "\x7b@link #key the key\x7d".toList }

theorem wellFiled_keyOwner (hidden : Bool) : (keyOwner hidden).WellFiled := by
  intro k node hnode
  cases k with
  | cfg => rw [List.mem_singleton.1 hnode]
  | _ => cases hnode

theorem wellFiled_keyHeir : keyHeir.WellFiled := by
  intro k node hnode
  cases k <;> cases hnode

/-- In a table with the heir, the address that it refers to has its row. -/
theorem references_lead_to_members_of_heir :
    ∃ page target all nearest,
      Page.ofClass (.ofList [keyOwner false, keyHeir]) "B".toList false = .ok (page, []) ∧
        pageRef "B".toList ++ '#' :: "cfg-key".toList ∈ page.hrefs ∧
        Page.ofClass (.ofList [keyOwner false, keyHeir]) "B".toList false = .ok (target, []) ∧
        membersOf (.ofList [keyOwner false, keyHeir]) "B".toList = .ok (all, []) ∧
        all.find? (rowId · = "cfg-key".toList) = some nearest ∧
        ("cfg-key".toList ∈ target.ids ↔ false = true ∨ nearest.node.isPrivate = false) := by
  have hfiled : ∀ cls ∈ (SortedBy.ofList [keyOwner false, keyHeir] : ClassTable).entries,
      cls.WellFiled := by
    intro cls hcls
    rcases List.mem_cons.1 hcls with rfl | hcls
    · exact wellFiled_keyOwner false
    · rw [List.mem_singleton.1 hcls]
      exact wellFiled_keyHeir
  have hpages : ∀ name ∈ (SortedBy.ofList [keyOwner false, keyHeir] : ClassTable).keys,
      ∃ page reports, Page.ofClass (.ofList [keyOwner false, keyHeir]) name false
        = .ok (page, reports) := by
    intro name hname
    rcases List.mem_cons.1 hname with rfl | hname
    · exact ⟨_, _, rfl⟩
    · rw [List.mem_singleton.1 hname]
      exact ⟨_, _, rfl⟩
  have hpage : Page.ofClass (.ofList [keyOwner false, keyHeir]) "B".toList false
      = .ok (Ancestry.page ⟨keyHeir, [keyHeir, keyOwner false], []⟩
          (.ofList [keyOwner false, keyHeir]) false, []) := rfl
  have hreference : .reference { member := some "key".toList, label := "the key".toList } ∈
      references keyHeir.doc.description := by
    decide +kernel
  have haddress : Reference.address (.ofList [keyOwner false, keyHeir]) "B".toList
      { member := some "key".toList, label := "the key".toList }
        = pageRef "B".toList ++ '#' :: "cfg-key".toList := by
    decide +kernel
  obtain ⟨hhref, target, all, others, nearest, htarget, hall, hnearest, hrow⟩ :=
    references_lead_to_members hfiled (by decide) hpages hpage List.mem_cons_self hreference
      haddress
  cases htarget
  exact ⟨_, _, all, nearest, rfl, hhref, rfl, hall, hnearest, hrow⟩

/-- With the private members left out, a reference to one of them still leads to the mark of its
row, though the page has no such row. -/
theorem private_member_without_row :
    (∀ cls ∈ (SortedBy.ofList [keyOwner true] : ClassTable).entries, cls.WellFiled) ∧
      (∀ name ∈ (SortedBy.ofList [keyOwner true] : ClassTable).keys, ∃ page,
        Page.ofClass (.ofList [keyOwner true]) name false = .ok (page, [])) ∧
      ∃ page description r,
        Page.ofClass (.ofList [keyOwner true]) "A".toList false = .ok (page, []) ∧
          ("A".toList, description) ∈ page.descriptions ∧ .reference r ∈ references description ∧
          r.address (.ofList [keyOwner true]) "A".toList
            = pageRef "A".toList ++ '#' :: "cfg-key".toList ∧
          "cfg-key".toList ∉ page.ids := by
  refine ⟨?_, ?_, _, (keyOwner true).doc.description, { member := some "key".toList }, rfl,
    List.mem_cons_self, by decide +kernel, by decide +kernel, by decide +kernel⟩
  · intro cls hcls
    rw [List.mem_singleton.1 hcls]
    exact wellFiled_keyOwner true
  · intro name hname
    rw [List.mem_singleton.1 hname]
    exact ⟨_, rfl⟩

end ApiDocs
