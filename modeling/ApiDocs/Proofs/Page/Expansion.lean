import ApiDocs.Proofs.Code.Readers
import ApiDocs.Proofs.Page.References
/-!
# The expansion of references

A description is text with references in it.  Each reference becomes a link, in its place and by
itself, and the text between them stays as it is, whatever braces it has.  A label ends at the first
closing brace, and may look like a reference up to there.

Main definitions:

- `ReferenceSpelling`: a reference as it is written.
- `ReferenceSpelling.anchor`: the link that it becomes.

Main results:

- `references_append_of_unmarked`: text without the mark of a reference is copied.
- `references_text`: a reference is read back from its spelling.
- `renderAll_expandReferences`: references between texts.
-/

namespace ApiDocs

/-! ### References as they are written -/

/-- A reference as it is written: blanks, a class, a member behind a number sign, and a label with
the blanks in front of it.  The class or the member may be missing, and the label as well. -/
structure ReferenceSpelling where
  gap : Text
  cls : Text := []
  member : Option Text := none
  label : Text := []
  gap_ne_nil : gap ≠ []
  gap_blank : Blanks gap
  cls_chars : ∀ c ∈ cls, isClassChar c = true
  member_name : ∀ m, member = some m → IsIdentifier m
  named : cls ≠ [] ∨ member ≠ none
  label_gap : ∀ c, label.head? = some c → isBlank c = true
  label_open : '}' ∉ label

namespace ReferenceSpelling

/-- The member with its number sign. -/
def memberText (w : ReferenceSpelling) : Text :=
  (w.member.map ('#' :: ·)).getD []

/-- What follows the blanks behind the mark, without the closing brace. -/
def inner (w : ReferenceSpelling) : Text :=
  w.cls ++ (w.memberText ++ w.label)

/-- The spelling of a reference. -/
def text (w : ReferenceSpelling) : Text :=
  referenceMark ++ (w.gap ++ (w.inner ++ ['}']))

/-- The class that the reference leads to, in a description of the class `context`. -/
def target (w : ReferenceSpelling) (context : Text) : Text :=
  if w.cls = [] then context else w.cls

/-- The address of the link: the page of the class, and the mark of the member if it has one. -/
def href (w : ReferenceSpelling) (table : ClassTable) (context : Text) : Text :=
  let mark := w.member.bind (markOf? table (w.target context))
  w.target context ++ ".html".toList ++ (mark.map ('#' :: ·)).getD []

/-- What the link shows: the label without blanks around it, and if that is empty what the reference
names. -/
def shown (w : ReferenceSpelling) (context : Text) : Text :=
  let label := Text.trim w.label
  if label ≠ [] then label
  else
    match w.cls, w.member with
    | [], some m => m
    | cls, some m => cls ++ '.' :: m
    | _, none => w.target context

/-- The link that the reference becomes. -/
def anchor (w : ReferenceSpelling) (table : ClassTable) (context : Text) : Text :=
  "<a href=\"".toList ++ escape (w.href table context) ++ "\">".toList ++ w.shown context
    ++ "</a>".toList

/-- The reference that is written. -/
def reference (w : ReferenceSpelling) : Reference where
  cls := w.cls
  member := w.member
  label := Text.trim w.label

end ReferenceSpelling

/-! ### Links -/

/-- The text of a link. -/
theorem Reference.render_toMarkup (r : Reference) (table : ClassTable) (context : Text) :
    (r.toMarkup table context).render
      = "<a href=\"".toList ++ escape (r.address table context) ++ "\">".toList ++ r.shown context
        ++ "</a>".toList := by
  have hopen : "<a href=\"".toList
      = '<' :: ("a".toList ++ (' ' :: ("href".toList ++ "=\"".toList))) := by decide
  have hclose : "</a>".toList = '<' :: '/' :: ("a".toList ++ ['>']) := by decide
  have hend : "\">".toList = ['"', '>'] := by decide
  rw [hopen, hclose, hend]
  simp only [Reference.toMarkup, Markup.render, Markup.renderAll, Markup.renderAttribute,
    List.flatMap_cons, List.flatMap_nil, List.append_nil, List.append_assoc, List.cons_append,
    List.nil_append]

namespace ReferenceSpelling

variable (w : ReferenceSpelling) (table : ClassTable) (context : Text)

/-- A reference leads to the class that is written, or to the own one. -/
theorem target_reference : w.reference.target context = w.target context := by
  unfold Reference.target target
  cases hcls : w.cls <;> simp [reference, hcls]

/-- The address of a reference is that of its spelling. -/
theorem address_reference : w.reference.address table context = w.href table context := by
  have hmember : w.reference.member = w.member := rfl
  unfold Reference.address href
  dsimp only
  rw [target_reference, hmember]
  cases w.member.bind (markOf? table (w.target context)) with
  | none => simp [pageRef]
  | some mark => simp [pageRef]

/-- A reference shows what its spelling says. -/
theorem shown_reference : w.reference.shown context = w.shown context := by
  unfold Reference.shown shown Reference.defaultLabel
  rw [target_reference]
  cases hlabel : Text.trim w.label <;> cases hcls : w.cls <;> cases hmember : w.member <;>
    simp [reference, hlabel, hcls, hmember]

/-- A reference that is read back becomes its link. -/
theorem render_reference :
    (w.reference.toMarkup table context).render = w.anchor table context := by
  have hlink := w.reference.render_toMarkup table context
  rw [address_reference, shown_reference] at hlink
  exact hlink

/-! ### Reading a reference back -/

/-- The name of a class ends before a number sign, a closing brace and a blank. -/
theorem isClassChar_stops {c : Char} (h : c = '#' ∨ c = '}' ∨ isBlank c = true) :
    isClassChar c = false := by
  rcases h with rfl | rfl | h
  · decide +kernel
  · decide +kernel
  · exact isDottedChar_of_isBlank h

/-- Behind the member stands a blank or the closing brace. -/
theorem label_or_close {s : Text} {c : Char} (hc : (w.label ++ '}' :: s).head? = some c) :
    c = '}' ∨ isBlank c = true := by
  cases hlabel : w.label with
  | nil =>
    rw [hlabel] at hc
    cases hc
    exact .inl rfl
  | cons d t =>
    rw [hlabel] at hc
    cases hc
    exact .inr (w.label_gap c (by rw [hlabel]; rfl))

/-- A member is read back from its spelling. -/
theorem readMember_memberText {s : Text} (hhash : s.head? ≠ some '#') (hname : Stops isNameChar s) :
    readMember (w.memberText ++ s) = (w.member, s) := by
  unfold memberText readMember
  cases hmember : w.member with
  | none =>
    simp only [Option.map_none, Option.getD_none, List.nil_append]
    split
    next => exact absurd rfl hhash
    next => rfl
  | some m =>
    have hm := w.member_name m hmember
    simp only [Option.map_some, Option.getD_some, List.cons_append,
      Text.takeWhile_run hm.nameChar hname]
    rw [if_neg (mt List.isEmpty_iff.1 hm.ne_nil), List.drop_left]

/-- A label is read up to the closing brace, and trimmed. -/
theorem readLabel?_label (s : Text) :
    readLabel? (w.label ++ '}' :: s) = some (Text.trim w.label, s) := by
  rw [readLabel?, Text.breakOn?_append_singleton s w.label_open]
  rfl

/-- Class, member and label are read one after the other. -/
theorem readTarget?_inner (s : Text) :
    readTarget? (w.inner ++ '}' :: s) = some (w.reference, s) := by
  have hname : Stops isNameChar (w.label ++ '}' :: s) := fun c hc =>
    (Bool.or_eq_false_iff.1 (isClassChar_stops (.inr (w.label_or_close hc)))).1
  have hhash : (w.label ++ '}' :: s).head? ≠ some '#' := fun hc => by
    rcases w.label_or_close hc with h | h <;> revert h <;> decide
  have hcls : Stops isClassChar (w.memberText ++ (w.label ++ '}' :: s)) := by
    unfold memberText
    cases w.member with
    | none => exact fun c hc => isClassChar_stops (.inr (w.label_or_close hc))
    | some m => exact stops_cons (isClassChar_stops (.inl rfl)) _
  have hinner : w.inner ++ '}' :: s = w.cls ++ (w.memberText ++ (w.label ++ '}' :: s)) := by
    rw [inner, List.append_assoc, List.append_assoc]
  unfold readTarget?
  rw [hinner, Text.takeWhile_run w.cls_chars hcls]
  dsimp only
  rw [List.drop_left, w.readMember_memberText hhash hname]
  dsimp only
  have hread := w.readLabel?_label s
  cases hlabel : w.label with
  | nil => simp [reference, hlabel]
  | cons c t =>
    have hc : isBlank c = true := w.label_gap c (by rw [hlabel]; rfl)
    have hbrace : c ≠ '}' := by
      rintro rfl
      revert hc
      decide
    rw [hlabel, List.cons_append] at hread
    simp only [List.cons_append, if_neg hbrace, if_pos hc]
    rw [hread, reference, hlabel]
    rfl

/-- A class or a number sign comes next behind the blanks. -/
theorem stops_inner (s : Text) : Stops isBlank (w.inner ++ s) := by
  unfold inner memberText
  cases hcls : w.cls with
  | cons c t =>
    have hc := w.cls_chars c (by simp [hcls])
    refine stops_cons (Bool.eq_false_iff.2 fun hblank => ?_) _
    rw [isClassChar_stops (.inr (.inr hblank))] at hc
    cases hc
  | nil =>
    obtain ⟨m, hm⟩ := Option.ne_none_iff_exists'.1 (w.named.resolve_left fun hne => hne hcls)
    rw [hm]
    exact stops_cons (by decide) _

/-- A reference is read back behind its mark. -/
theorem readReference?_text (s : Text) :
    readReference? (w.gap ++ (w.inner ++ '}' :: s)) = some (w.reference, s) := by
  obtain ⟨c, t, hgap⟩ := List.exists_cons_of_ne_nil w.gap_ne_nil
  have hblanks := w.gap_blank
  rw [hgap, Blanks, List.forall_mem_cons] at hblanks
  have htrim : Text.trimStart (t ++ (w.inner ++ '}' :: s)) = w.inner ++ '}' :: s :=
    trimStart_eq_iff.2 ⟨t, hblanks.2, rfl, w.stops_inner _⟩
  rw [hgap, List.cons_append, readReference?, if_pos hblanks.1, htrim, w.readTarget?_inner]
  rfl

end ReferenceSpelling

/-! ### The pieces of a description -/

/-- Where a reference is read, it is a piece of the description. -/
theorem references_of_some {c : Char} {s rest : Text} {r : Reference}
    (h : (Text.dropStart? referenceMark (c :: s)).bind readReference? = some (r, rest)) :
    references (c :: s) = .reference r :: references rest := by
  rw [references]
  split
  next found rest' hfound =>
    rw [h] at hfound
    cases hfound
    rfl
  next hnone =>
    rw [h] at hnone
    cases hnone

/-- Where none is read, one character is a piece of the description. -/
theorem references_of_none {c : Char} {s : Text}
    (h : (Text.dropStart? referenceMark (c :: s)).bind readReference? = none) :
    references (c :: s) = .char c :: references s := by
  rw [references]
  split
  next found rest hfound =>
    rw [h] at hfound
    cases hfound
  next => rfl

/-- A reference is read back from its spelling. -/
theorem references_text (w : ReferenceSpelling) (s : Text) :
    references (w.text ++ s) = .reference w.reference :: references s := by
  have htext : w.text ++ s = '{' :: ("@link".toList ++ (w.gap ++ (w.inner ++ '}' :: s))) := by
    rw [ReferenceSpelling.text, List.append_assoc, List.append_assoc, List.append_assoc]
    rfl
  have hmark : Text.dropStart? referenceMark
      ('{' :: ("@link".toList ++ (w.gap ++ (w.inner ++ '}' :: s))))
        = some (w.gap ++ (w.inner ++ '}' :: s)) := Text.dropStart?_append referenceMark _
  rw [htext]
  exact references_of_some (by rw [hmark, Option.bind_some, w.readReference?_text])

/-- The mark of a reference has a brace at its start alone, so it does not begin in a text and end
in the reference behind it. -/
theorem not_prefix_append {t s : Text} (ht : t ≠ []) (h : ¬ referenceMark <+: t)
    (hs : ∀ c, s.head? = some c → c = '{') : ¬ referenceMark <+: t ++ s := by
  rintro ⟨u, hu⟩
  rcases List.append_eq_append_iff.1 hu with ⟨v, htext, -⟩ | ⟨v, hmark, hrest⟩
  · exact h ⟨v, htext.symm⟩
  · cases v with
    | nil => exact h ⟨[], by rw [hmark, List.append_nil, List.append_nil]⟩
    | cons c v =>
      obtain rfl : c = '{' := hs c (by rw [hrest]; rfl)
      obtain ⟨d, t, rfl⟩ := List.exists_cons_of_ne_nil ht
      have htail : '{' ∈ referenceMark.tail := by
        rw [hmark]
        simp
      revert htail
      decide

/-- Text without the mark of a reference is copied. -/
theorem references_append_of_unmarked {t s : Text} (ht : ¬ referenceMark <:+: t)
    (hs : ∀ c, s.head? = some c → c = '{') :
    references (t ++ s) = t.map .char ++ references s := by
  induction t with
  | nil => rfl
  | cons c t ih =>
    rw [List.infix_cons_iff, not_or] at ht
    have hmark := not_prefix_append (List.cons_ne_nil c t) ht.1 hs
    have hnone : Text.dropStart? referenceMark (c :: (t ++ s)) = none := by
      rw [Text.dropStart?, if_neg]
      rwa [List.isPrefixOf_iff_prefix]
    rw [List.cons_append, references_of_none (by rw [hnone]; rfl), ih ht.2]
    rfl

/-! ### References between texts -/

variable {table : ClassTable} {context : Text}

/-- Characters that are not part of a reference are copied. -/
theorem renderAll_map_char {f : Piece → Markup} (hf : ∀ c, f (.char c) = .raw [c]) (t : Text) :
    Markup.renderAll ((t.map Piece.char).map f) = t := by
  induction t with
  | nil => rfl
  | cons c t ih =>
    rw [List.map_cons, List.map_cons, hf, Markup.renderAll, ih, Markup.render]
    rfl

/-- Text without a mark is copied in front of a reference or of a brace. -/
theorem renderAll_expandReferences_append {t s : Text} (ht : ¬ referenceMark <:+: t)
    (hs : ∀ c, s.head? = some c → c = '{') :
    Markup.renderAll (expandReferences table context (t ++ s))
      = t ++ Markup.renderAll (expandReferences table context s) := by
  unfold expandReferences
  rw [references_append_of_unmarked ht hs, List.map_append, Markup.renderAll_append,
    renderAll_map_char fun _ => rfl]

/-- A reference becomes its link, and the text behind it is expanded by itself. -/
theorem renderAll_expandReferences_text (w : ReferenceSpelling) (s : Text) :
    Markup.renderAll (expandReferences table context (w.text ++ s))
      = w.anchor table context ++ Markup.renderAll (expandReferences table context s) := by
  unfold expandReferences
  rw [references_text, List.map_cons, Markup.renderAll, w.render_reference]

/-- References between texts without their mark become links in their places, and the texts stay as
they are; so does a text alone. -/
theorem renderAll_expandReferences {first : Text} {rest : List (ReferenceSpelling × Text)}
    (hfirst : ¬ referenceMark <:+: first) (hrest : ∀ p ∈ rest, ¬ referenceMark <:+: p.2) :
    Markup.renderAll (expandReferences table context
        (first ++ rest.flatMap fun p => p.1.text ++ p.2))
      = first ++ rest.flatMap fun p => p.1.anchor table context ++ p.2 := by
  induction rest generalizing first with
  | nil =>
    rw [List.flatMap_nil, renderAll_expandReferences_append hfirst (by rintro c ⟨⟩),
      expandReferences_nil, List.flatMap_nil]
    rfl
  | cons p rest ih =>
    obtain ⟨hp, hrest⟩ := List.forall_mem_cons.1 hrest
    have hopen : ∀ c, (p.1.text ++ (p.2 ++ rest.flatMap fun p => p.1.text ++ p.2)).head? = some c →
        c = '{' := by
      rintro c ⟨⟩
      rfl
    rw [List.flatMap_cons, List.flatMap_cons, List.append_assoc,
      renderAll_expandReferences_append hfirst hopen, renderAll_expandReferences_text,
      ih hp hrest, List.append_assoc]

/-- A label that looks like a reference itself, stray braces, and a reference without a class. -/
theorem renderAll_expandReferences_of_braces :
    let first := "Use \x7b or ".toList
    let labelled : ReferenceSpelling :=
      { gap := [' '], cls := "A".toList, member := some "key".toList
        label := " the \x7b@link key".toList
        gap_ne_nil := by decide
        gap_blank := blanks_space
        cls_chars := List.all_eq_true.1 (by decide +kernel)
        member_name := fun m hm => by cases hm; decide +kernel
        named := by decide
        label_gap := fun c hc => by cases hc; decide
        label_open := by decide }
    let short : ReferenceSpelling :=
      { gap := [' '], member := some "key".toList
        gap_ne_nil := by decide
        gap_blank := blanks_space
        cls_chars := List.forall_mem_nil _
        member_name := fun m hm => by cases hm; decide +kernel
        named := by decide
        label_gap := fun c hc => by cases hc
        label_open := by decide }
    let rest := [(labelled, " \x7d, ".toList), (short, ".".toList)]
    ¬ referenceMark <:+: first ∧ (∀ p ∈ rest, ¬ referenceMark <:+: p.2) ∧
      Markup.renderAll (expandReferences (.ofList [keyOwner false, keyHeir]) "B".toList
          "Use \x7b or \x7b@link A#key the \x7b@link key\x7d \x7d, \x7b@link #key\x7d.".toList)
        = ("Use \x7b or <a href=\"A.html#cfg-key\">the \x7b@link key</a> \x7d, "
          ++ "<a href=\"B.html#cfg-key\">key</a>.").toList := by
  intro first labelled short rest
  have hfirst : ¬ referenceMark <:+: first := by decide
  have hrest : ∀ p ∈ rest, ¬ referenceMark <:+: p.2 := by
    intro p hp
    rcases List.mem_pair.1 hp with rfl | rfl
    · decide
    · decide
  have hout := @renderAll_expandReferences (.ofList [keyOwner false, keyHeir]) "B".toList first rest
    hfirst hrest
  refine ⟨hfirst, hrest, Eq.trans (Eq.trans (by rfl) hout) ?_⟩
  decide +kernel

end ApiDocs
