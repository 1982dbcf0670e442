import ApiDocs.Proofs.Markup.Escaping
import ApiDocs.Proofs.Page.References
/-!
# The rows of a page

A page has one row for each member that it lists, and of all that stands on the page only the
rows bear marks.  Two rows never bear the same one: the classes of a catalog have named members
alone, the mark tells kind and name apart, shadowing leaves one member of each kind and name, and
escaping keeps different marks different.

Main definitions:

- `Markup.bearers`, `Markup.allBearers`: the elements with an attribute of a name.
- `Page.rows`: the elements on a page that bear a mark.
- `readRowId?`: the mark in the text of a row.
- `Page.IdentifiesMembers`: pages whose rows are told apart by their marks.

Main results:

- `Page.rows_eq`: the rows are those of the listed members.
- `named_of_mem_ofUnits`: the members of the classes of a catalog have names.
- `rows_identify_members`: the rows of every page of a catalog.
-/

namespace ApiDocs

open Markup (newline plain)

namespace Markup

/-! ### Elements with an attribute -/

mutual

/-- The elements with an attribute of a name, in the order in which they are opened. -/
def bearers (name : Text) : Markup → List Markup
  | text _ => []
  | raw _ => []
  | element tag attributes body =>
    (if ∃ a ∈ attributes, a.1 = name then [element tag attributes body] else [])
      ++ allBearers name body

/-- The elements with an attribute of a name in pieces one after the other. -/
def allBearers (name : Text) : List Markup → List Markup
  | [] => []
  | piece :: pieces => bearers name piece ++ allBearers name pieces

end

variable {name : Text}

mutual

/-- No element has an attribute of which there are no values. -/
theorem bearers_eq_nil (piece : Markup) (h : values name piece = []) : bearers name piece = [] :=
  match piece with
  | text t => by rw [bearers]
  | raw t => by rw [bearers]
  | element tag attributes body => by
    rw [values, List.append_eq_nil_iff, List.map_eq_nil_iff, List.filter_eq_nil_iff] at h
    have hnone : ¬ ∃ a ∈ attributes, a.1 = name := by
      rintro ⟨a, ha, hname⟩
      exact h.1 a ha (decide_eq_true hname)
    rw [bearers, if_neg hnone, allBearers_eq_nil body h.2]
    rfl

/-- No piece has an attribute of which there are no values. -/
theorem allBearers_eq_nil (pieces : List Markup) (h : allValues name pieces = []) :
    allBearers name pieces = [] :=
  match pieces with
  | [] => by rw [allBearers]
  | piece :: pieces => by
    rw [allValues_cons, List.append_eq_nil_iff] at h
    rw [allBearers, bearers_eq_nil piece h.1, allBearers_eq_nil pieces h.2]
    rfl

end

@[simp]
theorem allBearers_nil : allBearers name [] = [] := by
  rw [allBearers]

@[simp]
theorem allBearers_cons (piece : Markup) (pieces : List Markup) :
    allBearers name (piece :: pieces) = bearers name piece ++ allBearers name pieces := by
  rw [allBearers]

/-- The bearers in pieces are those of each of them. -/
theorem allBearers_eq_flatMap (pieces : List Markup) :
    allBearers name pieces = pieces.flatMap (bearers name) := by
  induction pieces with
  | nil => exact allBearers_nil
  | cons piece pieces ih => rw [allBearers_cons, ih, List.flatMap_cons]

@[simp]
theorem allBearers_append (pieces more : List Markup) :
    allBearers name (pieces ++ more) = allBearers name pieces ++ allBearers name more := by
  simp only [allBearers_eq_flatMap, List.flatMap_append]

@[simp]
theorem allBearers_flatMap {α : Type} (f : α → List Markup) (l : List α) :
    allBearers name (l.flatMap f) = l.flatMap fun a => allBearers name (f a) := by
  simp only [allBearers_eq_flatMap, List.flatMap_assoc]

@[simp]
theorem bearers_newline : bearers name newline = [] :=
  bearers_eq_nil _ values_newline

@[simp]
theorem bearers_fixed (s : String) : bearers name (fixed s) = [] :=
  bearers_eq_nil _ (values_fixed s)

@[simp]
theorem bearers_plain (tag : String) (body : List Markup) :
    bearers name (plain tag body) = allBearers name body := by
  rw [plain, bearers, if_neg (by simp)]
  rfl

/-- An element whose one value stands in its first attribute is the only one with it. -/
theorem bearers_of_first {tag v : Text} {attributes : List (Text × Text)} {body : List Markup}
    (h : values name (element tag ((name, v) :: attributes) body) = [v]) :
    bearers name (element tag ((name, v) :: attributes) body)
      = [element tag ((name, v) :: attributes) body] := by
  rw [values_element_cons, if_pos rfl, List.singleton_append, List.cons.injEq, values,
    List.append_eq_nil_iff] at h
  rw [bearers, if_pos ⟨_, List.mem_cons_self, rfl⟩, allBearers_eq_nil body h.2.2]
  rfl

/-! ### The text of pieces -/

/-- The text of a list of pieces is made entry by entry. -/
theorem renderAll_flatMap {α : Type} (f : α → List Markup) (l : List α) :
    renderAll (l.flatMap f) = l.flatMap fun a => renderAll (f a) := by
  induction l with
  | nil => rfl
  | cons a l ih => rw [List.flatMap_cons, renderAll_append, ih, List.flatMap_cons]

end Markup

/-! ### Rows -/

/-- The mark in the text of a row, as it is written there. -/
def readRowId? (row : Text) : Option Text :=
  (Text.dropStart? "<tr id=\"".toList row).map fun rest => rest.takeWhile (· ≠ '"')

/-- In the text of the row of a member its mark is read up to the quote that ends it. -/
theorem readRowId?_render (table : ClassTable) (subject : Text) (r : OwnedMember) :
    readRowId? (memberRow table subject r).render = some (escape (rowId r)) := by
  have hquote : ∀ c ∈ escape (rowId r), decide (c ≠ '"') = true := by
    intro c hc
    apply decide_eq_true
    rintro rfl
    exact not_mem_escape (.inr (.inr rfl)) _ hc
  have hstart : ∃ rest, (memberRow table subject r).render
      = "<tr id=\"".toList ++ (escape (rowId r) ++ '"' :: rest) := by
    unfold memberRow
    dsimp only
    rw [Markup.render, List.flatMap_cons, Markup.renderAttribute]
    simp only [List.append_assoc, List.cons_append, List.nil_append]
    exact ⟨_, rfl⟩
  obtain ⟨rest, hrest⟩ := hstart
  rw [readRowId?, hrest, Text.dropStart?_append, Option.map_some,
    List.takeWhile_append_of_pos hquote, List.takeWhile_cons_of_neg (by decide), List.append_nil]

namespace Page

/-- The elements on a page that bear a mark. -/
def rows (page : Page) : List Markup :=
  Markup.allBearers "id".toList page.toMarkup

/-- The row of a member bears a mark, and nothing inside it does. -/
theorem bearers_memberRow (table : ClassTable) (subject : Text) (r : OwnedMember) :
    Markup.bearers "id".toList (memberRow table subject r) = [memberRow table subject r] :=
  Markup.bearers_of_first (values_id_memberRow table subject r)

/-- The bearers in the table of a kind are the rows of that kind. -/
theorem allBearers_memberTable (page : Page) (k : MemberKind) :
    Markup.allBearers "id".toList (memberTable page k)
      = (page.members.ofKind k).map (memberRow page.table page.subject.name) := by
  unfold memberTable
  rw [List.map_eq_flatMap]
  cases page.members.ofKind k with
  | nil => rfl
  | cons r members =>
    rw [if_neg (by simp)]
    simp only [Markup.allBearers_cons, Markup.allBearers_nil, Markup.allBearers_append,
      Markup.allBearers_flatMap, Markup.bearers_plain, Markup.bearers_newline,
      Markup.bearers_fixed, bearers_memberRow, List.nil_append, List.append_nil]

/-- What a page shows above its tables. -/
def above (page : Page) : List Markup :=
  page.heading ++ page.hierarchyBlock ++ page.mixinsBlock ++ page.aboutBlock
    ++ page.constructorBlock

/-- Above the tables there are no marks. -/
theorem allBearers_above (page : Page) : Markup.allBearers "id".toList page.above = [] := by
  have h : "id".toList ≠ "class".toList := by decide
  apply Markup.allBearers_eq_nil
  rw [above, Markup.allValues_append, Markup.allValues_append, allValues_constructorBlock h,
    allValues_aboutBlock h, allValues_id_expandReferences, List.flatMap_eq_nil_iff.2 fun
    description _ => allValues_id_expandReferences _ _ description, List.append_nil,
    List.append_nil, List.append_assoc, Markup.allValues_append, Markup.allValues_append,
    allValues_heading h, allValues_relatives h, List.flatMap_eq_nil_iff.2 fun cls _ =>
    values_id_linkToClass cls]
  rfl

/-- The rows of a page are those of the members that it lists, in order. -/
theorem rows_eq (page : Page) :
    page.rows = page.members.all.map (memberRow page.table page.subject.name) := by
  have hhead : Markup.bearers "id".toList page.head = [] :=
    Markup.bearers_eq_nil _ (values_head page)
  have hbody : page.body
      = plain "body" (newline :: (page.above ++ MemberKind.all.flatMap (memberTable page))) := rfl
  have hraw : Markup.bearers "id".toList (.raw "<!DOCTYPE html>\n".toList) = [] :=
    Markup.bearers_eq_nil _ (Markup.values_raw _)
  rw [rows, toMarkup, hbody, Members.all, List.map_flatMap]
  simp only [Markup.allBearers_cons, Markup.allBearers_nil, Markup.allBearers_append,
    Markup.allBearers_flatMap, Markup.bearers_plain, Markup.bearers_newline, hhead, hraw,
    allBearers_above, allBearers_memberTable, List.nil_append, List.append_nil]

/-- A page ends with its tables. -/
theorem exists_renderHtml_eq (page : Page) :
    ∃ front, page.renderHtml
      = front ++ (MemberKind.all.flatMap fun k => Markup.renderAll (memberTable page k))
        ++ "</body>\n</html>\n".toList := by
  have hbody : page.body
      = plain "body" (newline :: (page.above ++ MemberKind.all.flatMap (memberTable page))) := rfl
  refine ⟨"<!DOCTYPE html>\n<html>\n".toList ++ page.head.render ++ "\n<body>\n".toList
    ++ Markup.renderAll page.above, ?_⟩
  rw [renderHtml, toMarkup, hbody]
  simp only [Markup.renderAll, Markup.render, plain, newline, Markup.renderAll_append,
    Markup.renderAll_flatMap, List.append_assoc, List.cons_append, List.nil_append]
  rfl

end Page

/-! ### Members with names -/

/-- The members of the classes of a catalog have names. -/
theorem named_of_mem_ofUnits {units : List (List DocNode)} {cls : ClassDoc}
    (h : cls ∈ (Catalog.ofUnits units).classes.entries) {k : MemberKind} {node : DocNode}
    (hnode : node ∈ cls.members.ofKind k) : ∃ n, node.name = some n := by
  have hget := SortedBy.get?_eq_some_iff.2 ⟨h, rfl⟩
  rw [get?_ofUnits] at hget
  obtain ⟨place, -, hplace⟩ := Option.map_eq_some_iff.1 hget
  rw [← hplace, ClassDoc.ofPlace, Members.ofKind_ofFn, List.mem_filter, decide_eq_true_iff]
    at hnode
  exact Option.isSome_iff_exists.1 hnode.2.2

/-- Members with names have the same mark only when one hides the other. -/
theorem hides_of_rowId_eq {a b : OwnedMember} {m n : Text} (ha : a.node.name = some m)
    (hb : b.node.name = some n) (h : rowId a = rowId b) : a.hides b = true := by
  rw [rowId, rowId, memberMark_inj, DocNode.label, DocNode.label, ha, hb, Option.getD_some,
    Option.getD_some] at h
  rw [OwnedMember.hides_iff_slot_eq, OwnedMember.slot, OwnedMember.slot, ha, hb, h.1, h.2]

/-- No two members on a page have one kind and name. -/
theorem pairwise_all_page (found : Ancestry) (table : ClassTable) (showPrivate : Bool) :
    (found.page table showPrivate).members.all.Pairwise fun a b => a.hides b = false := by
  rw [Members.all, List.pairwise_flatMap]
  constructor
  · intro k _
    rw [Ancestry.page, Members.ofKind_ofFn]
    exact (pairwise_shownMembers showPrivate _).sublist List.filter_sublist
  · have hkinds : MemberKind.all.Nodup := by decide
    refine hkinds.imp ?_
    intro k l hkl a ha b hb
    rw [Ancestry.page, Members.ofKind_ofFn, List.mem_filter, decide_eq_true_iff] at ha hb
    rw [Bool.eq_false_iff, ne_eq, OwnedMember.hides_iff_slot_eq]
    intro hslot
    have hkind : a.node.kind = b.node.kind := congrArg Prod.fst hslot
    rw [ha.2, hb.2] at hkind
    exact hkl (Kind.member.inj hkind)

/-! ### Pages -/

/-- The rows of a page tell its members apart.  The page lists its members kind by kind, has one
row for each of them at the place of the member, and nothing else on it bears a mark; the text of
the page ends with the tables that hold these rows; the text of a row gives the escaped mark of
its member; and no two of these texts give the same one. -/
structure Page.IdentifiesMembers (page : Page) : Prop where
  listed : page.members.all = page.members.cfgs ++ page.members.properties ++ page.members.methods
    ++ page.members.events
  rows : page.rows = page.members.all.map (memberRow page.table page.subject.name)
  text : ∃ front, page.renderHtml
    = front ++ (MemberKind.all.flatMap fun k => Markup.renderAll (memberTable page k))
      ++ "</body>\n</html>\n".toList
  marks : page.rows.map (fun row => readRowId? row.render)
    = page.members.all.map fun r => some (escape (rowId r))
  distinct : (page.rows.map fun row => readRowId? row.render).Nodup

/-- The rows of a page tell its members apart where these have names and none hides another. -/
theorem identifiesMembers_of_named {page : Page}
    (hnamed : ∀ r ∈ page.members.all, ∃ n, r.node.name = some n)
    (hpairwise : page.members.all.Pairwise fun a b => a.hides b = false) :
    page.IdentifiesMembers := by
  have hmarks : page.rows.map (fun row => readRowId? row.render)
      = page.members.all.map fun r => some (escape (rowId r)) := by
    rw [Page.rows_eq, List.map_map]
    exact List.map_congr_left fun r _ => readRowId?_render page.table page.subject.name r
  refine ⟨?_, Page.rows_eq page, Page.exists_renderHtml_eq page, hmarks, ?_⟩
  · simp [Members.all, MemberKind.all, Members.ofKind]
  · rw [hmarks, List.Nodup, List.pairwise_map]
    refine hpairwise.imp_of_mem ?_
    intro a b ha hb hfree heq
    obtain ⟨m, hm⟩ := hnamed a ha
    obtain ⟨n, hn⟩ := hnamed b hb
    rw [hides_of_rowId_eq hm hn (escape_injective (Option.some.inj heq))] at hfree
    cases hfree

/-- Every page that is made of a class of a catalog has rows that tell its members apart. -/
theorem rows_identify_members {units : List (List DocNode)} {name : Text}
    {all : List OwnedMember} {reports : List Report}
    (h : membersOf (Catalog.ofUnits units).classes name = .ok (all, reports))
    (showPrivate : Bool) :
    ∃ page, Page.ofClass (Catalog.ofUnits units).classes name showPrivate = .ok (page, reports) ∧
      page.IdentifiesMembers := by
  obtain ⟨found, hfound, heq⟩ := map_eq_ok_iff.1 h
  cases heq
  refine ⟨_, ofClass_of_ancestry hfound showPrivate, identifiesMembers_of_named ?_
    (pairwise_all_page found _ showPrivate)⟩
  intro r hr
  have howned : r ∈ ownedAlong found.chain :=
    mem_firstBy_subset (List.mem_filter.1 (mem_all_page.1 hr).1).1
  obtain ⟨cls, hcls, k, hnode, -⟩ := mem_ownedAlong_iff.1 howned
  exact named_of_mem_ofUnits (mem_entries_of_ancestry hfound hcls) hnode

/-- A quote and its entity as the names of members, one of them inherited, one overridden, and
one of two kinds. -/
def quotedNames : List DocNode :=
  [{ kind := .cls, name := some "Base".toList },
    { kind := .member .method, name := some "\"".toList },
    { kind := .member .method, name := some "&quot;".toList },
    { kind := .cls, name := some "Child".toList, parent := some "Base".toList },
    { kind := .member .cfg, name := some "\"".toList },
    { kind := .member .method, name := some "&quot;".toList }]

/-- Names with quotes, and with what quotes are written as, keep their rows apart. -/
theorem rows_identify_members_of_quotedNames :
    ∃ all page,
      membersOf (Catalog.ofUnits [quotedNames]).classes "Child".toList = .ok (all, []) ∧
        all.length = 4 ∧
        Page.ofClass (Catalog.ofUnits [quotedNames]).classes "Child".toList true
          = .ok (page, []) ∧
        page.IdentifiesMembers ∧
        page.rows.map (fun row => readRowId? row.render)
          = [some "cfg-&quot;".toList, some "method-&amp;quot;".toList,
            some "method-&quot;".toList] := by
  have hmembers : ∃ all, membersOf (Catalog.ofUnits [quotedNames]).classes "Child".toList
      = .ok (all, []) ∧ all.length = 4 := ⟨_, rfl, rfl⟩
  obtain ⟨all, hall, hlength⟩ := hmembers
  obtain ⟨page, hpage, hrows⟩ := rows_identify_members hall true
  refine ⟨all, page, hall, hlength, hpage, hrows, ?_⟩
  cases hpage
  rw [hrows.marks]
  decide +kernel

end ApiDocs
