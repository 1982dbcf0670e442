import ApiDocs.Code.Fill
import ApiDocs.Comment.Node
import ApiDocs.Proofs.Markup.Escaping
import ApiDocs.Proofs.Page.Expansion
/-!
# The markup that links add

In a description without markup of its own, all markup comes from the links that the references
become.  A link has one tag in front and one behind, and the quotes around its address.  What it
shows is a label of the description, or the name that the reference spells, and adds nothing.  Only
a reference that names neither a class nor a member and has no label shows the class that the
description belongs to, and the name of that class is not escaped there.

Main definitions:

- `PlainText`: text without characters that need escaping.
- `replaced`: the references in a description.
- `Reference.namesNothing`: a reference without a class, a member and a label.

Main results:

- `subset_of_mem_references`: characters and labels are those of the description.
- `plainText_shown`: what a link shows.
- `count_markup_of_links`: the angle brackets and quotes in a description with links.
-/

namespace ApiDocs

/-- Text without the characters that are escaped. -/
def PlainText (t : Text) : Prop :=
  ∀ c ∈ t, c ∉ entities.map Prod.snd

instance (t : Text) : Decidable (PlainText t) :=
  decidable_of_iff (t.all (fun c => !(entities.map Prod.snd).contains c) = true)
    (by simp [PlainText])

/-- The reference that a piece of a description is. -/
def Piece.reference? : Piece → Option Reference
  | .char _ => none
  | .reference r => some r

/-- The references in a description, which links replace. -/
def replaced (description : Text) : List Reference :=
  (references description).filterMap Piece.reference?

/-- A reference with neither a class nor a member, and without a label. -/
def Reference.namesNothing (r : Reference) : Bool :=
  r.cls.isEmpty && r.member.isNone && r.label.isEmpty

/-! ### Where the text of a piece comes from -/

/-- The text that a piece takes over from the description. -/
def Piece.own : Piece → Text
  | .char c => [c]
  | .reference r => r.label

theorem readLabel?_subset {s label rest : Text} (h : readLabel? s = some (label, rest)) :
    label ⊆ s ∧ rest ⊆ s := by
  obtain ⟨⟨inner, behind⟩, hbreak, heq⟩ := Option.map_eq_some_iff.1 h
  cases heq
  rw [Text.eq_append_of_breakOn? hbreak, List.append_assoc]
  exact ⟨List.Subset.trans (Text.infix_trim inner).subset (List.subset_append_left _ _),
    List.Subset.trans (List.subset_append_right _ _) (List.subset_append_right _ _)⟩

theorem readMember_subset (s : Text) : (readMember s).2 ⊆ s := by
  unfold readMember
  split
  next t =>
    dsimp only
    split
    next => exact List.Subset.refl _
    next => exact List.Subset.trans (List.drop_subset _ t) (List.subset_cons_self _ t)
  next => exact List.Subset.refl _

/-- The label behind a target is made of characters of the text. -/
theorem readTarget?_subset {s rest : Text} {r : Reference} (h : readTarget? s = some (r, rest)) :
    r.label ⊆ s ∧ rest ⊆ s := by
  have hbehind : (readMember (s.drop (s.takeWhile isClassChar).length)).2 ⊆ s :=
    List.Subset.trans (readMember_subset _) (List.drop_subset _ s)
  simp only [readTarget?] at h
  split at h
  next => cases h
  next c after hafter =>
    rw [hafter] at hbehind h
    split at h
    next =>
      cases h
      exact ⟨List.nil_subset _, List.Subset.trans (List.subset_cons_self _ _) hbehind⟩
    next =>
      split at h
      next =>
        obtain ⟨⟨label, behind⟩, hlabel, heq⟩ := Option.map_eq_some_iff.1 h
        cases heq
        have hsubset := readLabel?_subset hlabel
        exact ⟨List.Subset.trans hsubset.1 hbehind, List.Subset.trans hsubset.2 hbehind⟩
      next => cases h

/-- The label of a reference is made of characters of the text. -/
theorem readReference?_subset {s rest : Text} {r : Reference}
    (h : readReference? s = some (r, rest)) : r.label ⊆ s ∧ rest ⊆ s := by
  unfold readReference? at h
  split at h
  next c t =>
    have hstart : Text.trimStart t ⊆ c :: t :=
      List.Subset.trans (Text.suffix_trimStart t).subset (List.subset_cons_self _ _)
    split at h
    next =>
      rcases Option.or_eq_some_iff.1 h with htarget | ⟨-, hlabel⟩
      · have hsubset := readTarget?_subset htarget
        exact ⟨List.Subset.trans hsubset.1 hstart, List.Subset.trans hsubset.2 hstart⟩
      · split at hlabel
        next =>
          obtain ⟨⟨label, behind⟩, hread, heq⟩ := Option.map_eq_some_iff.1 hlabel
          cases heq
          have hsubset := readLabel?_subset hread
          exact ⟨List.Subset.trans hsubset.1 hstart, List.Subset.trans hsubset.2 hstart⟩
        next => cases hlabel
    next => cases h
  next => cases h

/-- The characters and the labels in a description are taken from it. -/
theorem subset_of_mem_references {description : Text} {piece : Piece}
    (h : piece ∈ references description) : piece.own ⊆ description := by
  fun_induction references description with
  | case1 => cases h
  | case2 c s r rest hfound ih =>
    obtain ⟨t, hmark, hread⟩ := Option.bind_eq_some_iff.1 hfound
    have ht : t ⊆ c :: s := by
      rw [Text.eq_append_of_dropStart? hmark]
      exact List.subset_append_right _ _
    have hsubset := readReference?_subset hread
    rcases List.mem_cons.1 h with rfl | hrest
    · exact List.Subset.trans hsubset.1 ht
    · exact List.Subset.trans (ih hrest) (List.Subset.trans hsubset.2 ht)
  | case3 c s hnone ih =>
    rcases List.mem_cons.1 h with rfl | hrest
    · exact List.cons_subset_cons c (List.nil_subset s)
    · exact List.Subset.trans (ih hrest) (List.subset_cons_self c s)

/-! ### What links show -/

variable {table : ClassTable} {context description : Text} {r : Reference} {d : Char}

/-- The name of a class in a reference has no marks. -/
theorem plainText_of_isClassChar {t : Text} (h : ∀ c ∈ t, isClassChar c = true) : PlainText t := by
  intro c hc hmem
  have hall : (entities.map Prod.snd).all (fun c => !isClassChar c) = true := by decide +kernel
  have hnot := List.all_eq_true.1 hall c hmem
  rw [h c hc] at hnot
  cases hnot

/-- A text made of characters of a plain one is plain. -/
theorem PlainText.of_subset {s t : Text} (h : PlainText t) (hs : s ⊆ t) : PlainText s :=
  fun c hc => h c (hs hc)

/-- A reference shows its label or what it spells, unless it names nothing. -/
theorem plainText_shown (hr : r.Plain) (hlabel : PlainText r.label)
    (hnames : r.namesNothing = false) : PlainText (r.shown context) := by
  unfold Reference.shown
  by_cases hempty : r.label.isEmpty = true
  · rw [if_pos hempty, Reference.defaultLabel]
    cases hmember : r.member with
    | none =>
      have hcls : ¬ r.cls.isEmpty = true := by
        intro hcls
        simp [Reference.namesNothing, hcls, hmember, hempty] at hnames
      dsimp only
      rw [Reference.target, if_neg hcls]
      exact plainText_of_isClassChar hr.cls
    | some m =>
      have hm : ∀ c ∈ m, isClassChar c = true := fun c hc =>
        Bool.or_eq_true_iff.2 (.inl ((hr.member m hmember).2 c hc))
      dsimp only
      split
      next => exact plainText_of_isClassChar hm
      next =>
        refine plainText_of_isClassChar (List.forall_mem_append.2 ⟨hr.cls, ?_⟩)
        exact List.forall_mem_cons.2 ⟨by decide +kernel, hm⟩
  · rw [if_neg hempty]
    exact hlabel

/-- A reference that names nothing shows the class that the description belongs to. -/
theorem shown_of_namesNothing (h : r.namesNothing = true) : r.shown context = context := by
  simp only [Reference.namesNothing, Bool.and_eq_true, Option.isNone_iff_eq_none] at h
  obtain ⟨⟨hcls, hmember⟩, hlabel⟩ := h
  rw [Reference.shown, if_pos hlabel, Reference.defaultLabel, hmember]
  exact if_pos hcls

/-! ### Counting -/

/-- No mark stands in a plain text. -/
theorem PlainText.count_eq_zero {t : Text} (h : PlainText t)
    (hd : d = '<' ∨ d = '>' ∨ d = '"') : t.count d = 0 := by
  refine List.count_eq_zero.2 fun hmem => h d hmem ?_
  rcases hd with rfl | rfl | rfl
  all_goals decide

/-- A link has two of each mark, besides those that it shows. -/
theorem count_link (hd : d = '<' ∨ d = '>' ∨ d = '"') :
    (r.toMarkup table context).render.count d = 2 + (r.shown context).count d := by
  have haddress : (escape (r.address table context)).count d = 0 :=
    List.count_eq_zero.2 (not_mem_escape hd _)
  have hfixed : "<a href=\"".toList.count d + "\">".toList.count d + "</a>".toList.count d = 2 := by
    rcases hd with rfl | rfl | rfl
    all_goals decide
  rw [Reference.render_toMarkup]
  simp only [List.count_append, haddress]
  omega

/-- The marks in pieces are those of the links, and those in the name of the class where a
reference names nothing. -/
theorem count_pieces {pieces : List Piece} {f : Piece → Markup}
    (hd : d = '<' ∨ d = '>' ∨ d = '"') (hchar : ∀ c, f (.char c) = .raw [c])
    (hlink : ∀ r, f (.reference r) = r.toMarkup table context)
    (hplain : ∀ p ∈ pieces, PlainText p.own) (hspelled : ∀ r, .reference r ∈ pieces → r.Plain) :
    let found := pieces.filterMap Piece.reference?
    (Markup.renderAll (pieces.map f)).count d
      = 2 * found.length + (found.filter Reference.namesNothing).length * context.count d := by
  induction pieces with
  | nil => simp [Markup.renderAll]
  | cons piece pieces ih =>
    have hrest := ih (fun p hp => hplain p (List.mem_cons_of_mem _ hp))
      fun r hr => hspelled r (List.mem_cons_of_mem _ hr)
    dsimp only at hrest ⊢
    rw [List.map_cons, Markup.renderAll, List.count_append, hrest]
    cases piece with
    | char c =>
      have hc : [c].count d = 0 := (hplain _ List.mem_cons_self).count_eq_zero hd
      rw [hchar, Markup.render, hc, Nat.zero_add]
      rfl
    | reference r =>
      have hcount : (r.toMarkup table context).render.count d = _ := count_link hd
      have hfound : (Piece.reference r :: pieces).filterMap Piece.reference?
          = r :: pieces.filterMap Piece.reference? := rfl
      rw [hlink, hcount, hfound, List.length_cons]
      cases hnames : r.namesNothing with
      | true =>
        rw [shown_of_namesNothing hnames, List.filter_cons_of_pos hnames, List.length_cons,
          Nat.add_mul]
        omega
      | false =>
        have hshown : PlainText (r.shown context) := plainText_shown
          (hspelled r List.mem_cons_self) (hplain _ List.mem_cons_self) hnames
        rw [hshown.count_eq_zero hd, List.filter_cons_of_neg (by simp [hnames])]
        omega

/-- In a description without markup, each link has two of each mark, and there are no others but
those in the name of the class that is shown for a reference that names nothing.  So the names in
references and the labels add no markup, and the name of the class adds none in an address. -/
theorem count_markup_of_links (hplain : PlainText description)
    (hd : d = '<' ∨ d = '>' ∨ d = '"') :
    let out := Markup.renderAll (expandReferences table context description)
    let found := replaced description
    let unnamed := found.filter Reference.namesNothing
    out.count d = 2 * found.length + unnamed.length * context.count d ∧
      (out.count d = 2 * found.length ↔ unnamed = [] ∨ d ∉ context) ∧
      ∀ r ∈ found, ∃ shown,
        (r.toMarkup table context).render
          = "<a href=\"".toList ++ escape (r.address table context) ++ "\">".toList ++ shown
            ++ "</a>".toList ∧
        (r.namesNothing = false → PlainText shown) ∧ (r.namesNothing = true → shown = context) := by
  intro out found unnamed
  have hpieces : ∀ p ∈ references description, PlainText p.own := fun p hp =>
    hplain.of_subset (subset_of_mem_references hp)
  have hcount : out.count d = 2 * found.length + unnamed.length * context.count d :=
    count_pieces hd (fun _ => rfl) (fun _ => rfl) hpieces fun _ => plain_of_mem_references
  refine ⟨hcount, ?_, fun r hr => ?_⟩
  · rw [hcount, Nat.add_eq_left, Nat.mul_eq_zero, List.length_eq_zero_iff, List.count_eq_zero]
  · obtain ⟨piece, hpiece, hreference⟩ := List.mem_filterMap.1 hr
    cases piece with
    | char c => cases hreference
    | reference other =>
      cases hreference
      exact ⟨r.shown context, r.render_toMarkup table context,
        plainText_shown (plain_of_mem_references hpiece) (hpieces _ hpiece),
        shown_of_namesNothing⟩

/-- References by a member and by a label alone, in a class whose name is markup. -/
theorem count_markup_of_links_of_markup_name :
    let context := "<b>".toList
    let description := "\x7b@link #go\x7d, \x7b@link  (this)\x7d".toList
    let out := Markup.renderAll (expandReferences (.ofList []) context description)
    PlainText description ∧ ('<' = '<' ∨ '<' = '>' ∨ '<' = '"') ∧
      (replaced description).length = 2 ∧ '<' ∈ context ∧ out.count '<' = 4 := by
  intro context description out
  have hplain : PlainText description := by decide
  have hfound : replaced description
      = [⟨[], some "go".toList, []⟩, ⟨[], none, "(this)".toList⟩] := by decide +kernel
  obtain ⟨-, hexact, -⟩ :=
    @count_markup_of_links (.ofList []) context description '<' hplain (.inl rfl)
  rw [hfound] at hexact
  refine ⟨hplain, .inl rfl, by rw [hfound]; rfl, by decide, ?_⟩
  exact hexact.2 (.inl rfl)

/-- A class that the code has named with markup, and a description that refers to nothing. -/
def markupNamed : ClassDoc where
  name := "<b>".toList
  doc := { kind := .cls, name := some "<b>".toList, description := "\x7b@link \x7d".toList }

/-- A reference to nothing shows the name of the class, which code may give, without escaping it. -/
theorem unnamed_reference_shows_markup :
    let name := "<b>".toList
    let description := "\x7b@link \x7d".toList
    let links := expandReferences (.ofList [markupNamed]) name description
    ((DocNode.ofComment 1 description).1.fillFromCode "'<b>': 1".toList).name = some name ∧
      (∃ page, Page.ofClass (.ofList [markupNamed]) name false = .ok (page, []) ∧
        (name, description) ∈ page.descriptions) ∧
      PlainText description ∧ (replaced description).length = 1 ∧
      Markup.renderAll links = "<a href=\"&lt;b&gt;.html\"><b></a>".toList ∧
      (Markup.renderAll links).count '<' ≠ 2 * (replaced description).length := by
  intro name description links
  have hpage : Page.ofClass (.ofList [markupNamed]) name false
      = .ok (Ancestry.page ⟨markupNamed, [markupNamed], []⟩ (.ofList [markupNamed]) false, []) :=
    rfl
  exact ⟨by decide +kernel, ⟨_, hpage, List.mem_cons_self⟩, by decide, by decide +kernel,
    by decide +kernel, by decide +kernel⟩

end ApiDocs
