import ApiDocs.Page.Html
/-!
# The attributes on a page

What a reader can click on a page, and where such a click can land, are values of attributes:
the addresses of the links and the marks of the rows.  The marks are those of the members that
the page lists.  The addresses are those of the references in the descriptions that the page
shows, besides the links that name a class.

Main definitions:

- `Markup.values`, `Markup.allValues`: the values of the attributes with a name.
- `Page.descriptions`: the descriptions on a page, each with the class that it belongs to.
- `Page.hrefs`, `Page.ids`: the addresses and the marks on a page.

Main results:

- `ids_eq`: the marks are those of the listed members.
- `mem_hrefs_iff`: the addresses are those of the references and of the named classes.
-/

namespace ApiDocs

open Markup (fixed newline plain styled separated)

namespace Markup

mutual

/-- The values of the attributes with a name, in the order in which they are written. -/
def values (name : Text) : Markup → List Text
  | text _ => []
  | raw _ => []
  | element _ attributes body =>
    (attributes.filter (·.1 = name)).map Prod.snd ++ allValues name body

/-- The values of the attributes with a name in pieces one after the other. -/
def allValues (name : Text) : List Markup → List Text
  | [] => []
  | piece :: pieces => values name piece ++ allValues name pieces

end

variable {name : Text}

@[simp]
theorem values_text (t : Text) : values name (text t) = [] := by
  rw [values]

@[simp]
theorem values_raw (t : Text) : values name (raw t) = [] := by
  rw [values]

@[simp]
theorem values_newline : values name newline = [] := values_raw _

@[simp]
theorem values_fixed (s : String) : values name (fixed s) = [] := values_text _

/-- An element without attributes has the values of its body. -/
theorem values_element_nil (tag : Text) (body : List Markup) :
    values name (element tag [] body) = allValues name body := by
  rw [values]
  rfl

/-- The values of an element are those of its attributes and of its body, in this order. -/
theorem values_element_cons (tag key v : Text) (attributes : List (Text × Text))
    (body : List Markup) :
    values name (element tag ((key, v) :: attributes) body)
      = (if key = name then [v] else []) ++ values name (element tag attributes body) := by
  rw [values, values]
  by_cases hkey : key = name
  · simp [hkey]
  · simp [hkey]

@[simp]
theorem values_plain (tag : String) (body : List Markup) :
    values name (plain tag body) = allValues name body := by
  exact values_element_nil _ body

/-- The style of an element is the value of a class attribute and of no other. -/
theorem values_styled (h : name ≠ "class".toList) (tag style : String) (body : List Markup) :
    values name (styled tag style body) = allValues name body := by
  rw [styled, values_element_cons, if_neg h.symm, values_element_nil]
  rfl

@[simp]
theorem allValues_nil : allValues name [] = [] := by
  rw [allValues]

@[simp]
theorem allValues_cons (piece : Markup) (pieces : List Markup) :
    allValues name (piece :: pieces) = values name piece ++ allValues name pieces := by
  rw [allValues]

/-- The values in some pieces are those in each of them. -/
theorem allValues_eq_flatMap (pieces : List Markup) :
    allValues name pieces = pieces.flatMap (values name) := by
  induction pieces with
  | nil => exact allValues_nil
  | cons piece pieces ih => rw [allValues_cons, ih, List.flatMap_cons]

/-- The values of pieces in a row are read in the order of the pieces. -/
@[simp]
theorem allValues_append (pieces more : List Markup) :
    allValues name (pieces ++ more) = allValues name pieces ++ allValues name more := by
  simp only [allValues_eq_flatMap, List.flatMap_append]

@[simp]
theorem allValues_flatMap {α : Type} (f : α → List Markup) (l : List α) :
    allValues name (l.flatMap f) = l.flatMap fun a => allValues name (f a) := by
  simp only [allValues_eq_flatMap, List.flatMap_assoc]

/-- A list of pieces has the values of each of them. -/
theorem allValues_map {α : Type} (f : α → Markup) (l : List α) :
    allValues name (l.map f) = l.flatMap fun a => values name (f a) := by
  rw [allValues_eq_flatMap, List.flatMap_map]

/-- A separator without values adds none. -/
theorem allValues_separated {separator : Markup} (h : values name separator = [])
    (pieces : List Markup) :
    allValues name (separated separator pieces) = allValues name pieces := by
  unfold separated
  induction pieces with
  | nil => rfl
  | cons piece pieces ih =>
    cases pieces with
    | nil => rfl
    | cons next pieces =>
      rw [List.intersperse_cons_cons, allValues_cons, allValues_cons, h, ih, allValues_cons]
      rfl

end Markup

open Markup (values allValues)

/-! ### Values in the parts of a page -/

section Parts

variable {name : Text} (table : ClassTable) (context : Text)

/-- Nothing comes of an empty description. -/
theorem expandReferences_nil : expandReferences table context [] = [] := by
  rw [expandReferences, references]
  rfl

/-- A badge has no attribute besides its style. -/
theorem allValues_badge (h : name ≠ "class".toList) (label : String) :
    allValues name (badge label) = [] := by
  rw [badge, Markup.allValues_cons, Markup.allValues_cons, Markup.values_styled h]
  simp

/-- The heading of a row is text alone. -/
theorem allValues_memberHeading (node : DocNode) : allValues name (memberHeading node) = [] := by
  unfold memberHeading paramsText
  split
  · simp
  · simp
  · split
    · simp
    · simp

/-- An empty description has no values, so it does not matter that it is left out. -/
theorem allValues_descriptionBlock (h : name ≠ "class".toList) (description : Text) :
    allValues name (descriptionBlock table context description)
      = allValues name (expandReferences table context description) := by
  unfold descriptionBlock
  cases description with
  | nil => rw [expandReferences_nil]; rfl
  | cons c description => simp [Markup.values_styled h]

/-- The entries of parameters have the values of their descriptions alone. -/
theorem allValues_paramEntries (h : name ≠ "class".toList) (params : List DocNode) :
    allValues name (paramEntries table context params)
      = (params.map DocNode.description).flatMap fun description =>
          allValues name (expandReferences table context description) := by
  have hentry : ∀ p, allValues name (paramEntry table context p)
      = allValues name (expandReferences table context p.description) := by
    intro p
    unfold paramEntry
    cases hdescription : p.description with
    | nil =>
      rw [expandReferences_nil]
      by_cases hoptional : p.isOptional
      · simp [hoptional]
      · simp [hoptional]
    | cons c description =>
      by_cases hoptional : p.isOptional
      · simp [hoptional]
      · simp [hoptional]
  unfold paramEntries
  cases params with
  | nil => rfl
  | cons p params => simp [Markup.values_styled h, hentry, List.flatMap_map]

/-- The block of a result has the values of its description alone. -/
theorem allValues_returnsBlock (h : name ≠ "class".toList) (node : DocNode) :
    allValues name (returnsBlock table context node)
      = (node.returns.map Returns.description).toList.flatMap fun description =>
          allValues name (expandReferences table context description) := by
  unfold returnsBlock
  cases node.returns with
  | none => rfl
  | some r => simp [Markup.values_styled h]

end Parts

/-! ### Descriptions -/

/-- The address that a piece of a description leads to. -/
def Piece.address? (table : ClassTable) (context : Text) : Piece → Option Text
  | .char _ => none
  | .reference r => some (r.address table context)

/-- The addresses that the references in a description of a class lead to. -/
def addresses (table : ClassTable) (context description : Text) : List Text :=
  (references description).filterMap (Piece.address? table context)

/-- The descriptions in the row of a member: of itself, of its parameters, and of what it gives
back. -/
def OwnedMember.descriptions (r : OwnedMember) : List Text :=
  r.node.description ::
    ((if r.node.kind.isCalled then r.node.params else []).map DocNode.description
      ++ (r.node.returns.map Returns.description).toList)

/-- The links in a description lead to the addresses of its references. -/
theorem allValues_href_expandReferences (table : ClassTable) (context description : Text) :
    allValues "href".toList (expandReferences table context description)
      = addresses table context description := by
  unfold expandReferences addresses
  rw [Markup.allValues_map]
  induction references description with
  | nil => rfl
  | cons piece pieces ih =>
    rw [List.flatMap_cons, ih]
    cases piece with
    | char c =>
      rw [List.filterMap_cons]
      simp [Piece.address?]
    | reference r =>
      rw [List.filterMap_cons]
      simp [Piece.address?, Reference.toMarkup, values]

/-- No link carries a mark. -/
theorem allValues_id_expandReferences (table : ClassTable) (context description : Text) :
    allValues "id".toList (expandReferences table context description) = [] := by
  unfold expandReferences
  rw [Markup.allValues_map, List.flatMap_eq_nil_iff]
  intro piece _
  cases piece with
  | char c => simp
  | reference r => simp [Reference.toMarkup, values]

/-- In a row stand the mark of its member, the values in its descriptions, and the link to the
class that declares it. -/
theorem values_memberRow {name : Text} (h : name ≠ "class".toList) (table : ClassTable)
    (subject : Text) (r : OwnedMember) :
    values name (memberRow table subject r)
      = (if "id".toList = name then [rowId r] else [])
        ++ (r.descriptions.flatMap fun description =>
          allValues name (expandReferences table r.owner description))
        ++ values name (linkToClass r.owner) := by
  have hprivate : allValues name (if r.node.isPrivate then badge "private" else []) = [] := by
    by_cases hprivate : r.node.isPrivate
    · rw [if_pos hprivate, allValues_badge h]
    · rw [if_neg hprivate, Markup.allValues_nil]
  have hstyle : ∀ body, values name (Markup.element "tr".toList
      (if r.owner = subject then [] else [("class".toList, "inherited".toList)]) body)
      = allValues name body := by
    intro body
    by_cases howner : r.owner = subject
    · rw [if_pos howner, Markup.values_element_nil]
    · rw [if_neg howner, Markup.values_element_cons, if_neg h.symm, Markup.values_element_nil]
      rfl
  unfold memberRow OwnedMember.descriptions
  dsimp only
  rw [Markup.values_element_cons, hstyle]
  simp only [Markup.allValues_cons, Markup.allValues_append, Markup.allValues_nil,
    Markup.values_newline, Markup.values_plain, allValues_memberHeading, hprivate,
    allValues_descriptionBlock _ _ h, allValues_paramEntries _ _ h, allValues_returnsBlock _ _ h,
    List.flatMap_cons, List.flatMap_append, List.nil_append, List.append_nil, List.append_assoc]

/-! ### Values on a page -/

namespace Page

/-- The descriptions that a page shows of its class: of itself, and of the parameters of its
constructor. -/
def ownDescriptions (page : Page) : List Text :=
  page.subject.doc.description :: page.subject.doc.params.map DocNode.description

/-- The descriptions on a page, each with the class that it belongs to. -/
def descriptions (page : Page) : List (Text × Text) :=
  page.ownDescriptions.map (page.subject.name, ·)
    ++ page.members.all.flatMap fun r => r.descriptions.map (r.owner, ·)

/-- The classes that the head of a page names with a link: its ancestors and its mixins. -/
def relatives (page : Page) : List Text :=
  (if page.hierarchy.length ≤ 1 then [] else page.hierarchy.filter (· ≠ page.subject.name))
    ++ page.subject.doc.mixins.entries

/-- The classes that a page names with a link: those in its head, and those that declare its
members. -/
def linkedClasses (page : Page) : List Text :=
  page.relatives ++ page.members.all.map OwnedMember.owner

/-- The addresses on a page, in the order of the links. -/
def hrefs (page : Page) : List Text :=
  allValues "href".toList page.toMarkup

/-- The marks on a page, in the order of the elements that bear them. -/
def ids (page : Page) : List Text :=
  allValues "id".toList page.toMarkup

variable {name : Text}

/-- The table of a kind has the values of the rows of that kind. -/
theorem allValues_memberTable (page : Page) (k : MemberKind) :
    allValues name (memberTable page k)
      = (page.members.ofKind k).flatMap fun r =>
          values name (memberRow page.table page.subject.name r) := by
  unfold memberTable
  cases page.members.ofKind k with
  | nil => rfl
  | cons r members => simp

/-- The block of the constructor has the values of the descriptions of its parameters. -/
theorem allValues_constructorBlock (h : name ≠ "class".toList) (page : Page) :
    allValues name page.constructorBlock
      = (page.subject.doc.params.map DocNode.description).flatMap fun description =>
          allValues name (expandReferences page.table page.subject.name description) := by
  unfold constructorBlock
  rw [← allValues_paramEntries _ _ h]
  cases page.subject.doc.params with
  | nil => rfl
  | cons p params => simp [paramsText]

/-- The text about a class has the values of its description. -/
theorem allValues_aboutBlock (h : name ≠ "class".toList) (page : Page) :
    allValues name page.aboutBlock
      = allValues name
          (expandReferences page.table page.subject.name page.subject.doc.description) := by
  rw [← allValues_descriptionBlock _ _ h]
  unfold aboutBlock
  split
  next hnone => rw [hnone]
  next => simp

/-- The heading of a page refers to nothing. -/
theorem allValues_heading (h : name ≠ "class".toList) (page : Page) :
    allValues name page.heading = [] := by
  unfold heading
  by_cases hsingleton : page.subject.doc.isSingleton
  · simp [hsingleton, allValues_badge h]
  · simp [hsingleton]

/-- Nothing in the head of a page can be clicked on. -/
theorem values_head (page : Page) : values name page.head = [] := by
  simp [head]

/-- The hierarchy and the mixins hold one link for each class that they name, but for the class of
the page itself. -/
theorem allValues_relatives (h : name ≠ "class".toList) (page : Page) :
    allValues name page.hierarchyBlock ++ allValues name page.mixinsBlock
      = page.relatives.flatMap fun cls => values name (linkToClass cls) := by
  have hhierarchy : allValues name page.hierarchyBlock
      = (if page.hierarchy.length ≤ 1 then []
          else page.hierarchy.filter (· ≠ page.subject.name)).flatMap fun cls =>
            values name (linkToClass cls) := by
    have hentries : ∀ names : List Text,
        (names.flatMap fun cls => values name
          (if cls = page.subject.name then plain "strong" [.text cls] else linkToClass cls))
          = (names.filter (· ≠ page.subject.name)).flatMap fun cls =>
              values name (linkToClass cls) := by
      intro names
      induction names with
      | nil => rfl
      | cons cls names ih =>
        by_cases hcls : cls = page.subject.name
        · simp [hcls, ih]
        · simp [hcls, ih]
    unfold hierarchyBlock
    by_cases hlength : page.hierarchy.length ≤ 1
    · rw [if_pos hlength, if_pos hlength]
      rfl
    · rw [if_neg hlength, if_neg hlength, ← hentries]
      simp [Markup.values_styled h, Markup.allValues_separated, Markup.allValues_map]
  have hmixins : allValues name page.mixinsBlock
      = page.subject.doc.mixins.entries.flatMap fun cls => values name (linkToClass cls) := by
    unfold mixinsBlock
    cases page.subject.doc.mixins.entries with
    | nil => rfl
    | cons mixin mixins =>
      simp [Markup.values_styled h, Markup.allValues_separated, Markup.allValues_map]
  rw [hhierarchy, hmixins, relatives, List.flatMap_append]

/-- The values on a page are those of the classes in its head, in its descriptions and in its
rows. -/
theorem allValues_toMarkup (h : name ≠ "class".toList) (page : Page) :
    allValues name page.toMarkup
      = (page.relatives.flatMap fun cls => values name (linkToClass cls))
        ++ (page.ownDescriptions.flatMap fun description =>
          allValues name (expandReferences page.table page.subject.name description))
        ++ page.members.all.flatMap fun r =>
          values name (memberRow page.table page.subject.name r) := by
  rw [← allValues_relatives h]
  simp only [toMarkup, body, ownDescriptions, Members.all, Markup.allValues_cons,
    Markup.allValues_append, Markup.allValues_nil, Markup.allValues_flatMap, Markup.values_raw,
    Markup.values_newline, Markup.values_plain, values_head, allValues_heading h,
    allValues_aboutBlock h, allValues_constructorBlock h, allValues_memberTable,
    List.flatMap_cons, List.flatMap_assoc, List.nil_append, List.append_nil, List.append_assoc]

/-- A link to a class carries no mark. -/
theorem values_id_linkToClass (cls : Text) : values "id".toList (linkToClass cls) = [] := by
  simp [linkToClass, values]

/-- A link to a class leads to its page. -/
theorem values_href_linkToClass (cls : Text) :
    values "href".toList (linkToClass cls) = [pageRef cls] := by
  simp [linkToClass, values]

/-- A row has one mark, that of its member. -/
theorem values_id_memberRow (table : ClassTable) (subject : Text) (r : OwnedMember) :
    values "id".toList (memberRow table subject r) = [rowId r] := by
  rw [values_memberRow (by decide), if_pos rfl, values_id_linkToClass,
    List.flatMap_eq_nil_iff.2 fun description _ => allValues_id_expandReferences _ _ description]
  rfl

/-- The marks on a page are those of the members that it lists. -/
theorem ids_eq (page : Page) : page.ids = page.members.all.map rowId := by
  rw [ids, allValues_toMarkup (by decide),
    List.flatMap_eq_nil_iff.2 fun cls _ => values_id_linkToClass cls,
    List.flatMap_eq_nil_iff.2 fun description _ => allValues_id_expandReferences _ _ description,
    List.map_eq_flatMap]
  simp only [values_id_memberRow, List.nil_append]

/-- An address on a page is that of a class that it names or of a reference in one of its
descriptions. -/
theorem mem_hrefs_iff {page : Page} {href : Text} :
    href ∈ page.hrefs ↔
      (∃ name ∈ page.linkedClasses, href = pageRef name) ∨
        ∃ place ∈ page.descriptions, href ∈ addresses page.table place.1 place.2 := by
  have h : "href".toList ≠ "class".toList := by decide
  have hid : "id".toList ≠ "href".toList := by decide
  rw [hrefs, allValues_toMarkup h]
  simp only [values_memberRow h, if_neg hid, values_href_linkToClass,
    allValues_href_expandReferences, linkedClasses, descriptions, List.mem_append,
    List.mem_flatMap, List.mem_map, List.mem_singleton, List.nil_append]
  constructor
  · rintro ((⟨cls, hcls, rfl⟩ | ⟨description, hdescription, hmem⟩) |
      ⟨r, hr, ⟨description, hdescription, hmem⟩ | rfl⟩)
    · exact .inl ⟨cls, .inl hcls, rfl⟩
    · exact .inr ⟨_, .inl ⟨description, hdescription, rfl⟩, hmem⟩
    · exact .inr ⟨_, .inr ⟨r, hr, description, hdescription, rfl⟩, hmem⟩
    · exact .inl ⟨_, .inr ⟨r, hr, rfl⟩, rfl⟩
  · rintro (⟨cls, hcls | ⟨r, hr, rfl⟩, rfl⟩ |
      ⟨place, ⟨description, hdescription, rfl⟩ | ⟨r, hr, description, hdescription, rfl⟩, hmem⟩)
    · exact .inl (.inl ⟨cls, hcls, rfl⟩)
    · exact .inr ⟨r, hr, .inr rfl⟩
    · exact .inl (.inr ⟨description, hdescription, hmem⟩)
    · exact .inr ⟨r, hr, .inl ⟨description, hdescription, hmem⟩⟩

end Page

end ApiDocs
