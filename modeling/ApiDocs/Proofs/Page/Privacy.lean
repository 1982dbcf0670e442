import ApiDocs.Page.Format
import ApiDocs.Proofs.Class.Redaction
import Mathlib.Logic.Basic
/-!
# Private content on pages

A page that is made without the private members does not depend on what these members say, as
far as it shows members: its lists and its HTML text are those of the redacted table.  A page in
JSON also holds the class with its own members, private ones with all their content, so there
two tables alike in public give one text only when the class itself is alike.

Main definitions:

- `Page.redacted`: a page with the classes behind it redacted.
- `SameButOwnLists`: two pages that differ at most in the members that their class declares.

Main results:

- `toMarkup_redacted`: the markup of a page is that of the redacted page.
- `ofClass_redacted`: the page of the redacted table is the redacted page.
- `pages_hide_private_content`: what two tables with one redaction show of a class.
- `json_page_shows_private_content`: in JSON the content of a private member is shown.
-/

namespace ApiDocs

/-- A page whose class and table are redacted; what it shows stays. -/
def Page.redacted (page : Page) : Page :=
  { page with table := ClassTable.redacted page.table, subject := page.subject.redacted }

/-- Two pages with one text in HTML and with the same lists, which differ at most in the members
that the class of the page declares; where JSON has one value for the class, it has one text for
the page. -/
structure SameButOwnLists (p q : Page) : Prop where
  html : Format.html.render p = Format.html.render q
  name : p.subject.name = q.subject.name
  doc : p.subject.doc = q.subject.doc
  hierarchy : p.hierarchy = q.hierarchy
  members : p.members = q.members
  json : p.subject.toJson = q.subject.toJson → Format.json.render p = Format.json.render q

/-! ### What markup reads of the table -/

section References

variable {t u : ClassTable}

/-- A description reads the table for the places that its references lead to. -/
theorem expandReferences_congr (h : ∀ cls member, markOf? t cls member = markOf? u cls member) :
    expandReferences t = expandReferences u := by
  funext context description
  unfold expandReferences
  congr 1
  funext piece
  cases piece with
  | char c => rfl
  | reference r =>
    have haddress : r.address t context = r.address u context := by
      unfold Reference.address
      rw [funext (h (r.target context))]
    dsimp only
    rw [Reference.toMarkup, Reference.toMarkup, haddress]

variable (h : expandReferences t = expandReferences u)
include h

/-- The block of a description needs the table for its references alone. -/
theorem descriptionBlock_congr : descriptionBlock t = descriptionBlock u := by
  unfold descriptionBlock
  rw [h]

/-- The entries of parameters need the table for the references in them alone. -/
theorem paramEntries_congr : paramEntries t = paramEntries u := by
  have hentry : paramEntry t = paramEntry u := by
    unfold paramEntry
    rw [h]
  unfold paramEntries
  rw [hentry]

/-- The row of a member needs the table for the references in it alone. -/
theorem memberRow_congr : memberRow t = memberRow u := by
  have hreturns : returnsBlock t = returnsBlock u := by
    unfold returnsBlock
    rw [h]
  unfold memberRow
  rw [descriptionBlock_congr h, paramEntries_congr h, hreturns]

end References

/-- References are expanded alike in the redacted table, since the marks are the same. -/
theorem expandReferences_redacted (table : ClassTable) :
    expandReferences (ClassTable.redacted table) = expandReferences table :=
  expandReferences_congr markOf?_redacted

/-- The markup of a page does not show what redaction takes away from the classes behind it. -/
theorem toMarkup_redacted (page : Page) : page.redacted.toMarkup = page.toMarkup := by
  have h := expandReferences_redacted page.table
  have habout : page.redacted.aboutBlock = page.aboutBlock := by
    simp only [Page.aboutBlock, Page.redacted, ClassDoc.name_redacted, ClassDoc.doc_redacted,
      descriptionBlock_congr h]
  have hconstructor : page.redacted.constructorBlock = page.constructorBlock := by
    simp only [Page.constructorBlock, Page.redacted, ClassDoc.name_redacted,
      ClassDoc.doc_redacted, paramEntries_congr h]
  have htable : memberTable page.redacted = memberTable page := by
    funext k
    simp only [memberTable, Page.redacted, ClassDoc.name_redacted, memberRow_congr h]
  have hbody : page.redacted.body = page.body := by
    unfold Page.body
    rw [habout, hconstructor, htable]
    rfl
  unfold Page.toMarkup
  rw [hbody]
  rfl

/-! ### Pages of redacted tables -/

/-- The page of the redacted table is the redacted page, and the reports are the same. -/
theorem ofClass_redacted (table : ClassTable) (name : Text) :
    Page.ofClass (ClassTable.redacted table) name false
      = (Page.ofClass table name false).map fun (page, reports) => (page.redacted, reports) := by
  unfold Page.ofClass
  rw [of_redacted]
  cases Ancestry.of table name with
  | error fault => rfl
  | ok found =>
    simp only [Except.map, Ancestry.redacted, ownedAlong_redacted, shownMembers_redacted]
    simp [Page.redacted, Function.comp_def]

/-- Pages that are the same when redacted differ in the private members of the own class only. -/
theorem sameButOwnLists_of_redacted_eq {p q : Page} (h : p.redacted = q.redacted) :
    SameButOwnLists p q := by
  have hsubject : p.subject.redacted = q.subject.redacted := congrArg Page.subject h
  have hname : p.subject.name = q.subject.name := (congrArg ClassDoc.name hsubject :)
  have hdoc : p.subject.doc = q.subject.doc := (congrArg ClassDoc.doc hsubject :)
  have hhierarchy : p.hierarchy = q.hierarchy := (congrArg Page.hierarchy h :)
  have hmembers : p.members = q.members := (congrArg Page.members h :)
  refine ⟨?_, hname, hdoc, hhierarchy, hmembers, ?_⟩
  · change Markup.renderAll p.toMarkup = Markup.renderAll q.toMarkup
    rw [← toMarkup_redacted p, ← toMarkup_redacted q, h]
  · intro hcls
    change p.toJson.write .indented ++ ['\n'] = q.toJson.write .indented ++ ['\n']
    rw [Page.toJson, Page.toJson, hcls, hhierarchy, hmembers]

/-- From two tables that differ in the content of private members only, the page of a class
without the private members fails with one fault, or it is made twice with the same reports and
shows the same: its HTML text is the same, and what may differ in JSON are the private members
among those that the class itself declares, which the page holds beside what it shows. -/
theorem pages_hide_private_content {t u : ClassTable}
    (h : ClassTable.redacted t = ClassTable.redacted u) (name : Text) :
    (∃ fault, Page.ofClass t name false = .error fault ∧
        Page.ofClass u name false = .error fault) ∨
      ∃ p q reports, Page.ofClass t name false = .ok (p, reports) ∧
        Page.ofClass u name false = .ok (q, reports) ∧ SameButOwnLists p q := by
  have hpages := (ofClass_redacted t name).symm.trans
    ((congrArg (Page.ofClass · name false) h).trans (ofClass_redacted u name))
  cases ht : Page.ofClass t name false with
  | error fault =>
    cases hu : Page.ofClass u name false with
    | error other =>
      rw [ht, hu] at hpages
      cases hpages
      exact .inl ⟨fault, rfl, rfl⟩
    | ok found =>
      rw [ht, hu] at hpages
      cases hpages
  | ok found =>
    cases hu : Page.ofClass u name false with
    | error other =>
      rw [ht, hu] at hpages
      cases hpages
    | ok other =>
      rw [ht, hu] at hpages
      simp only [Except.map, Except.ok.injEq, Prod.mk.injEq] at hpages
      obtain ⟨hpage, hreports⟩ := hpages
      refine .inr ⟨found.1, other.1, found.2, rfl, ?_, sameButOwnLists_of_redacted_eq hpage⟩
      rw [hreports]

/-- A class with a private member that is described in these words. -/
def keepingSecret (words : String) : ClassDoc where
  name := "A".toList
  doc := { kind := .cls, name := some "A".toList }
  members :=
    { cfgs := [
        { kind := .member .cfg, name := some "key".toList, description := words.toList
          isPrivate := true }] }

/-- A class that extends it. -/
def secretHeir : ClassDoc where
  name := "B".toList
  doc := { kind := .cls, name := some "B".toList, parent := some "A".toList }

/-- Two tables that differ in the secret of a parent give pages of the heir that differ in its own
lists at most. -/
theorem pages_hide_private_content_of_heir :
    ClassTable.redacted (.ofList [keepingSecret "one", secretHeir])
        = ClassTable.redacted (.ofList [keepingSecret "two", secretHeir]) ∧
      ∃ p q, Page.ofClass (.ofList [keepingSecret "one", secretHeir]) "B".toList false
          = .ok (p, []) ∧
        Page.ofClass (.ofList [keepingSecret "two", secretHeir]) "B".toList false
          = .ok (q, []) ∧ SameButOwnLists p q := by
  have halike : ClassTable.redacted (.ofList [keepingSecret "one", secretHeir])
      = ClassTable.redacted (.ofList [keepingSecret "two", secretHeir]) := rfl
  refine ⟨halike, ?_⟩
  rcases pages_hide_private_content halike "B".toList with
    ⟨fault, hfault, -⟩ | ⟨p, q, reports, hp, hq, h⟩
  · cases hfault
  · cases hp
    exact ⟨_, q, rfl, hq, h⟩

/-- Two tables that differ in the description of a private member only, whose pages without the
private members differ in JSON. -/
theorem json_page_shows_private_content :
    ClassTable.redacted (.ofList [keepingSecret "one"])
        = ClassTable.redacted (.ofList [keepingSecret "two"]) ∧
      ∃ p q, Page.ofClass (.ofList [keepingSecret "one"]) "A".toList false = .ok (p, []) ∧
        Page.ofClass (.ofList [keepingSecret "two"]) "A".toList false = .ok (q, []) ∧
        Format.json.render p ≠ Format.json.render q :=
  ⟨rfl, _, _, rfl, rfl, by decide +kernel⟩

end ApiDocs
