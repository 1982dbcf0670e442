import ApiDocs.Proofs.Comment.Heads
import ApiDocs.Proofs.Comment.Readings
import ApiDocs.Proofs.Comment.TagLine
import ApiDocs.Source.Unit
/-!
# Reports on a comment

The reports on a comment account for its defects and for nothing else: first each word that is no
tag, line by line, and then each section with a defect, in order.  The defects are described here
without the readers.  What a section is reported for depends on the sections before it only in that
one of them may have claimed the comment.

Main definitions:

- `WordAhead`, `TagLines`: the word that a line has after `@`, and the sections of the tag lines.
- `Documents`: what the sections of a comment document.
- `Section.HasDefect`: what is wrong with the form of a section behind others.
- `CommentReports`: the reports on a comment, line by line and section by section.

Main results:

- `tagLines_iff`, `documents_iff`: the sections of a comment and what they document.
- `defect_read_iff`: a section is read with a defect exactly when it has it.
- `reports_ofComment_iff`: the reports on a comment, in a unit with others.
-/

namespace ApiDocs

/-! ### Tag lines -/

/-- Behind blanks and `@`, the line starts with the word, and `rest` follows it.  The word is an
ASCII letter with all word characters behind it. -/
structure WordAhead (content word rest : Text) : Prop where
  start : Text.trim content = '@' :: (word ++ rest)
  letter : ∃ c s, word = c :: s ∧ c.isAlpha = true ∧ ∀ d ∈ s, isWordChar d = true
  ends : ∀ c, rest.head? = some c → isWordChar c = false

/-- The sections that the tag lines of a comment open: each with the lines below it up to the next
tag line. -/
inductive TagLines : List CommentLine → List Section → Prop
  | nil : TagLines [] []
  | tag {l : CommentLine} {lines : List CommentLine} {word rest : Text} {tag : Tag}
      {sections : List Section} (hword : WordAhead l.content word rest)
      (htag : Tag.ofWord? word = some tag) (later : TagLines lines sections) :
      TagLines (l :: lines)
        (.ofLines ⟨tag, word, rest, l.number⟩ (lines.takeWhile (·.opening?.isNone)) :: sections)
  | other {l : CommentLine} {lines : List CommentLine} {sections : List Section}
      (hword : ∀ word rest, WordAhead l.content word rest → Tag.ofWord? word = none)
      (later : TagLines lines sections) : TagLines (l :: lines) sections

/-- The reports on the lines of a comment: one for each word that is no tag. -/
inductive WordReports : List CommentLine → List Report → Prop
  | nil : WordReports [] []
  | unknown {l : CommentLine} {lines : List CommentLine} {word rest : Text}
      {reports : List Report} (hword : WordAhead l.content word rest)
      (htag : Tag.ofWord? word = none) (later : WordReports lines reports) :
      WordReports (l :: lines) (.unknownTag word l.number :: reports)
  | silent {l : CommentLine} {lines : List CommentLine} {reports : List Report}
      (hword : ∀ word rest, WordAhead l.content word rest → Tag.ofWord? word ≠ none)
      (later : WordReports lines reports) : WordReports (l :: lines) reports

/-! ### Sections -/

/-- What the sections of a comment document: what its first deciding tag says, else a method when
there is a constructor tag, else a class. -/
inductive Documents (sections : List Section) : Kind → Prop
  | deciding {before after : List Section} {s : Section} {kind : Kind}
      (hsections : sections = before ++ s :: after) (hbefore : ∀ t ∈ before, t.tag.subject? = none)
      (hdecides : s.tag.subject? = some kind) : Documents sections kind
  | constructor (hnone : ∀ s ∈ sections, s.tag.subject? = none)
      (hsome : ∃ s ∈ sections, s.tag = .constructor) : Documents sections (.member .method)
  | cls (hnone : ∀ s ∈ sections, s.tag.subject? = none)
      (hno : ∀ s ∈ sections, s.tag ≠ .constructor) : Documents sections .cls

/-- One of the sections has claimed the comment on this kind of thing: a deciding tag, or in a
comment on a method a constructor tag. -/
def Claimed (kind : Kind) (before : List Section) : Prop :=
  ∃ s ∈ before, s.tag.subject? ≠ none ∨ s.tag = .constructor ∧ kind = .member .method

/-- Behind its type, as far as there is one, the text starts with a bracket that nothing closes. -/
def UnclosedName (hasType : Bool) (s : Text) : Prop :=
  ∃ rest inner, AfterType hasType s rest ∧ Text.trimStart rest = '[' :: inner ∧ ']' ∉ inner

/-- What is wrong with the form of a section behind others, in a comment on this kind of thing. -/
inductive Section.HasDefect (kind : Kind) (before : List Section) (s : Section) :
    Malformation → Prop
  | conflictingKind (hsubject : s.tag.subject? ≠ none) (hclaimed : Claimed kind before) :
      HasDefect kind before s .conflictingKind
  | unclosedType (htag : s.tag = .type ∨ s.tag = .param ∨ s.tag = .returns ∨
        (s.tag = .member .cfg ∨ s.tag = .member .property) ∧ ¬ Claimed kind before)
      (htype : UnclosedType s.text) : HasDefect kind before s .unclosedType
  | unclosedName (htag : s.tag = .param) (hname : UnclosedName true s.text) :
      HasDefect kind before s .unclosedName

/-- The reports on the sections behind others: one for each that has a defect. -/
inductive DefectReports (kind : Kind) :
    List Section → List Section → List Report → Prop
  | nil {before : List Section} : DefectReports kind before [] []
  | defect {before after : List Section} {s : Section} {reason : Malformation}
      {reports : List Report} (h : s.HasDefect kind before reason)
      (later : DefectReports kind (before ++ [s]) after reports) :
      DefectReports kind before (s :: after) (.malformedTag s.spelling s.line reason :: reports)
  | sound {before after : List Section} {s : Section} {reports : List Report}
      (h : ∀ reason, ¬ s.HasDefect kind before reason)
      (later : DefectReports kind (before ++ [s]) after reports) :
      DefectReports kind before (s :: after) reports

/-- What a comment documents and the reports on it: those on its words, and then those on its
sections. -/
inductive CommentReports (lines : List CommentLine) : Kind → List Report → Prop
  | mk {sections : List Section} {kind : Kind} {words defects : List Report}
      (hsections : TagLines lines sections) (hkind : Documents sections kind)
      (hwords : WordReports lines words) (hdefects : DefectReports kind [] sections defects) :
      CommentReports lines kind (words ++ defects)

/-! ### Words after `@` -/

/-- The word of a line is read where one stands. -/
theorem tagWord?_eq_some_iff {l : CommentLine} {word rest : Text} :
    l.tagWord? = some (word, rest) ↔ WordAhead l.content word rest := by
  rw [CommentLine.tagWord?, readTagLine?_eq_some_iff]
  exact ⟨fun h => ⟨h.1, h.2.1, h.2.2⟩, fun h => ⟨h.start, h.letter, h.ends⟩⟩

section

variable {l : CommentLine} {lines : List CommentLine} {word rest : Text} {tag : Tag}

/-- A line that starts with the word of a tag opens a section. -/
theorem opening?_of_tag (h : WordAhead l.content word rest) (htag : Tag.ofWord? word = some tag) :
    l.opening? = some ⟨tag, word, rest, l.number⟩ := by
  simp [CommentLine.opening?, tagWord?_eq_some_iff.2 h, htag]

/-- A line that starts with another word is reported. -/
theorem unknownTag?_of_word (h : WordAhead l.content word rest) :
    l.unknownTag?
      = if (Tag.ofWord? word).isNone then some (.unknownTag word l.number) else none := by
  simp [CommentLine.unknownTag?, tagWord?_eq_some_iff.2 h]

/-- A line has a word after `@`, or none. -/
theorem wordAhead_or_not (l : CommentLine) :
    (∃ word rest, WordAhead l.content word rest) ∨
      l.tagWord? = none ∧ ∀ word rest, ¬ WordAhead l.content word rest := by
  cases hword : l.tagWord? with
  | some found => exact .inl ⟨found.1, found.2, tagWord?_eq_some_iff.1 hword⟩
  | none =>
    refine .inr ⟨rfl, fun word rest h => ?_⟩
    rw [tagWord?_eq_some_iff.2 h] at hword
    cases hword

/-- A line without a word, or with one that is no tag, opens nothing. -/
theorem opening?_eq_none_iff :
    l.opening? = none ↔ ∀ word rest, WordAhead l.content word rest → Tag.ofWord? word = none := by
  simp [CommentLine.opening?, ← tagWord?_eq_some_iff]

/-- A line without a word, or with that of a tag, is not reported. -/
theorem unknownTag?_eq_none_iff :
    l.unknownTag? = none ↔
      ∀ word rest, WordAhead l.content word rest → Tag.ofWord? word ≠ none := by
  simp [CommentLine.unknownTag?, ← tagWord?_eq_some_iff]

end

/-! ### What the lines and the sections give -/

/-- Cutting the lines at those that open a section gives the sections of the description. -/
theorem tagLines_iff {lines : List CommentLine} {sections : List Section} :
    TagLines lines sections ↔ sections =
      (cut CommentLine.opening? lines).2.map fun (opening, below) => .ofLines opening below := by
  constructor
  · intro h
    induction h with
    | nil => rfl
    | tag hword htag later ih => simp [cut, opening?_of_tag hword htag, fst_cut, ih]
    | other hword later ih => simp [cut, opening?_eq_none_iff.2 hword, ih]
  · rintro rfl
    induction lines with
    | nil => exact .nil
    | cons l lines ih =>
      cases hopening : l.opening? with
      | none =>
        simp only [cut, hopening]
        exact .other (opening?_eq_none_iff.1 hopening) ih
      | some opening =>
        obtain ⟨⟨word, rest⟩, hword, htagged⟩ := Option.bind_eq_some_iff.1 hopening
        obtain ⟨tag, htag, rfl⟩ := Option.map_eq_some_iff.1 htagged
        simp only [cut, hopening, List.map_cons, fst_cut]
        exact .tag (tagWord?_eq_some_iff.1 hword) htag ih

/-- Reporting line by line gives the reports of the description. -/
theorem wordReports_iff {lines : List CommentLine} {reports : List Report} :
    WordReports lines reports ↔ reports = lines.filterMap CommentLine.unknownTag? := by
  constructor
  · intro h
    induction h with
    | nil => rfl
    | unknown hword htag later ih => simp [unknownTag?_of_word hword, htag, ih]
    | silent hword later ih => simp [unknownTag?_eq_none_iff.2 hword, ih]
  · rintro rfl
    induction lines with
    | nil => exact .nil
    | cons l lines ih =>
      cases hunknown : l.unknownTag? with
      | none =>
        rw [List.filterMap_cons_none hunknown]
        exact .silent (unknownTag?_eq_none_iff.1 hunknown) ih
      | some report =>
        rw [List.filterMap_cons_some hunknown]
        rcases wordAhead_or_not l with ⟨word, rest, hword⟩ | ⟨hnone, -⟩
        · rw [unknownTag?_of_word hword] at hunknown
          cases htag : Tag.ofWord? word with
          | none =>
            simp only [htag, Option.isNone_none, if_true, Option.some.injEq] at hunknown
            rw [← hunknown]
            exact .unknown hword htag ih
          | some tag => simp [htag] at hunknown
        · simp [CommentLine.unknownTag?, hnone] at hunknown

/-- What a comment documents is decided by its sections. -/
theorem documents_kindOf (sections : List Section) : Documents sections (kindOf sections) := by
  unfold kindOf
  cases hfirst : sections.findSome? (·.tag.subject?) with
  | some kind =>
    obtain ⟨before, s, after, hsections, hdecides, hbefore⟩ :=
      List.findSome?_eq_some_iff.1 hfirst
    exact .deciding hsections hbefore hdecides
  | none =>
    have hnone := List.findSome?_eq_none_iff.1 hfirst
    dsimp only
    split
    next hsome => exact .constructor hnone (by simpa using hsome)
    next hno => exact .cls hnone (by simpa using hno)

/-- A comment documents the kind that is computed for it. -/
theorem documents_iff {sections : List Section} {kind : Kind} :
    Documents sections kind ↔ kind = kindOf sections := by
  refine ⟨fun h => ?_, fun h => h ▸ documents_kindOf sections⟩
  cases h with
  | deciding hsections hbefore hdecides =>
    rw [hsections, kindOf_append_cons hbefore hdecides]
  | constructor hnone hsome =>
    have hany : sections.any (·.tag = .constructor) = true := by simpa using hsome
    rw [kindOf, List.findSome?_eq_none_iff.2 hnone, hany]
    rfl
  | cls hnone hno =>
    have hany : sections.any (·.tag = .constructor) = false := by simpa using hno
    rw [kindOf, List.findSome?_eq_none_iff.2 hnone, hany]
    rfl

/-! ### Defects of one section -/

variable {kind : Kind} {before after : List Section} {s : Section} {reason : Malformation}

/-- A comment is claimed when one of the sections before claims it. -/
theorem claimed_iff : Claimed kind before ↔ before.any (·.claims kind) = true := by
  simp [Claimed, Section.claims, List.any_eq_true, Option.isSome_iff_ne_none]

theorem defect_readPlainName (s : Text) : (readPlainName s).defect = none := by
  unfold readPlainName
  dsimp only
  split <;> rfl

/-- A name that is read has no defect. -/
theorem defect_readName {form : NameForm} {s : Text} {parts : SectionParts}
    (h : readName form s = some parts) : parts.defect = none := by
  unfold readName at h
  split at h
  next =>
    cases h
    rfl
  next =>
    obtain ⟨⟨inner, rest⟩, -, rfl⟩ := Option.map_eq_some_iff.1 h
    dsimp only
    split <;> rfl
  next =>
    cases h
    exact defect_readPlainName _

/-- A name cannot be read exactly when it stands in a bracket that nothing closes. -/
theorem readName_eq_none_iff {form : NameForm} {s : Text} :
    readName form s = none ↔ form = .bracketed ∧ ∃ inner, s = '[' :: inner ∧ ']' ∉ inner := by
  unfold readName
  split
  next => simp
  next t => simp [readBracketedName, Text.breakOn?_eq_none_iff, List.singleton_infix_iff]
  next form s hform hbracket =>
    refine iff_of_false (Option.some_ne_none _) ?_
    rintro ⟨rfl, inner, rfl, -⟩
    exact hbracket inner rfl rfl

/-- What follows the type of a text is determined by the text, and there is no such thing behind a
brace that nothing closes. -/
theorem AfterType.unique {hasType : Bool} {s rest other : Text} (h : AfterType hasType s rest)
    (hother : AfterType hasType s other) : rest = other := by
  cases h with
  | absent hstart =>
    cases hother with
    | absent _ => rfl
    | found htag htype => exact absurd htype.head? (hstart htag)
  | found htag htype =>
    cases hother with
    | absent hstart => exact absurd htype.head? (hstart htag)
    | found _ htype' =>
      have hread := htype.read.symm.trans htype'.read
      exact (TypeReading.found.inj hread).2

/-- Where something follows the type, its brace is closed. -/
theorem AfterType.not_unclosedType {s rest : Text} (h : AfterType true s rest) :
    ¬ UnclosedType s := by
  intro hunclosed
  cases h with
  | absent hstart => exact hstart rfl hunclosed.start
  | found _ htype => exact hunclosed.never_closed _ _ htype

/-- Behind its type, a text that has a name has no defect. -/
theorem AfterType.defect_read_named {hasType : Bool} {form : NameForm} {s rest : Text}
    {parts : SectionParts} (h : AfterType hasType s rest)
    (hname : readName form (Text.trimStart rest) = some parts) :
    (SectionParts.read hasType form s).defect = none := by
  cases h with
  | absent hstart => rw [SectionParts.read_typeless hstart hname, ← defect_readName hname]
  | found htag htype =>
    subst htag
    rw [SectionParts.read_typed htype hname, ← defect_readName hname]

/-- A name that cannot be read behind the type is the defect. -/
theorem AfterType.defect_read_unnamed {hasType : Bool} {form : NameForm} {s rest : Text}
    (h : AfterType hasType s rest) (hname : readName form (Text.trimStart rest) = none) :
    (SectionParts.read hasType form s).defect = some .unclosedName := by
  cases h with
  | absent hstart =>
    cases hasType with
    | false => simp [SectionParts.read, hname]
    | true => simp [SectionParts.read, TypeReading.read_absent (hstart rfl), hname]
  | found htag htype =>
    subst htag
    simp [SectionParts.read, htype.read, hname]

/-- What is wrong with the head of a section: a brace that nothing closes, or behind the type a
bracket that nothing closes. -/
theorem defect_read_parts_iff {hasType : Bool} {form : NameForm} {s : Text} :
    (SectionParts.read hasType form s).defect = some reason ↔
      reason = .unclosedType ∧ hasType = true ∧ UnclosedType s ∨
      reason = .unclosedName ∧ form = .bracketed ∧ UnclosedName hasType s := by
  rcases exists_afterType_or_unclosedType hasType s with ⟨rest, hafter⟩ | ⟨rfl, hunclosed⟩
  · have htype : ¬ (hasType = true ∧ UnclosedType s) := by
      rintro ⟨rfl, hunclosed⟩
      exact hafter.not_unclosedType hunclosed
    cases hname : readName form (Text.trimStart rest) with
    | some parts =>
      rw [hafter.defect_read_named hname]
      refine iff_of_false (Option.some_ne_none _).symm ?_
      rintro (⟨-, h⟩ | ⟨-, hform, other, inner, hother, hopen, hnever⟩)
      · exact htype h
      · cases hafter.unique hother
        rw [readName_eq_none_iff.2 ⟨hform, inner, hopen, hnever⟩] at hname
        cases hname
    | none =>
      obtain ⟨hform, inner, hopen, hnever⟩ := readName_eq_none_iff.1 hname
      rw [hafter.defect_read_unnamed hname, Option.some.injEq]
      constructor
      · exact fun h => .inr ⟨h.symm, hform, rest, inner, hafter, hopen, hnever⟩
      · rintro (⟨-, h⟩ | ⟨h, -⟩)
        · exact absurd h htype
        · exact h.symm
  · rw [SectionParts.read_unclosed _ hunclosed, Option.some.injEq]
    constructor
    · exact fun h => .inl ⟨h.symm, rfl, hunclosed⟩
    · rintro (⟨h, -⟩ | ⟨-, -, rest, -, hafter, -⟩)
      · exact h.symm
      · exact absurd hunclosed hafter.not_unclosedType

/-- The tags that decide and have a type are those of options and properties. -/
theorem isTyped_iff {subject : Kind} (hsubject : s.tag.subject? = some subject) :
    subject.isTyped = true ↔ s.tag = .member .cfg ∨ s.tag = .member .property := by
  cases htag : s.tag with
  | cls =>
    rw [htag] at hsubject
    cases hsubject
    simp [Kind.isTyped]
  | member k =>
    rw [htag] at hsubject
    cases hsubject
    simp [Kind.isTyped]
  | _ => simp [htag, Tag.subject?] at hsubject

/-- A deciding tag has a defect where the comment is claimed, and else in its type. -/
theorem hasDefect_iff_of_subject {subject : Kind} (hsubject : s.tag.subject? = some subject) :
    s.HasDefect kind before reason ↔ reason = .conflictingKind ∧ Claimed kind before ∨
      reason = .unclosedType ∧ ¬ Claimed kind before ∧ subject.isTyped = true ∧
        UnclosedType s.text := by
  constructor
  · intro h
    cases h with
    | conflictingKind _ hclaimed => exact .inl ⟨rfl, hclaimed⟩
    | unclosedType htag htype =>
      rcases htag with htag | htag | htag | ⟨htag, hclaimed⟩
      · simp [htag, Tag.subject?] at hsubject
      · simp [htag, Tag.subject?] at hsubject
      · simp [htag, Tag.subject?] at hsubject
      · exact .inr ⟨rfl, hclaimed, (isTyped_iff hsubject).2 htag, htype⟩
    | unclosedName htag _ => simp [htag, Tag.subject?] at hsubject
  · rintro (⟨rfl, hclaimed⟩ | ⟨rfl, hclaimed, htyped, htype⟩)
    · exact .conflictingKind (by simp [hsubject]) hclaimed
    · exact .unclosedType (.inr (.inr (.inr ⟨(isTyped_iff hsubject).1 htyped, hclaimed⟩))) htype

/-- Any other tag has a defect in its type or, for a parameter, in its name. -/
theorem hasDefect_iff_of_plain (hsubject : s.tag.subject? = none) :
    s.HasDefect kind before reason ↔
      reason = .unclosedType ∧ (s.tag = .type ∨ s.tag = .param ∨ s.tag = .returns) ∧
        UnclosedType s.text ∨
      reason = .unclosedName ∧ s.tag = .param ∧ UnclosedName true s.text := by
  constructor
  · intro h
    cases h with
    | conflictingKind hdecides _ => exact absurd hsubject hdecides
    | unclosedType htag htype =>
      rcases htag with htag | htag | htag | ⟨htag | htag, -⟩
      · exact .inl ⟨rfl, .inl htag, htype⟩
      · exact .inl ⟨rfl, .inr (.inl htag), htype⟩
      · exact .inl ⟨rfl, .inr (.inr htag), htype⟩
      · simp [htag, Tag.subject?] at hsubject
      · simp [htag, Tag.subject?] at hsubject
    | unclosedName htag hname => exact .inr ⟨rfl, htag, hname⟩
  · rintro (⟨rfl, htag, htype⟩ | ⟨rfl, htag, hname⟩)
    · refine .unclosedType ?_ htype
      rcases htag with htag | htag | htag
      · exact .inl htag
      · exact .inr (.inl htag)
      · exact .inr (.inr (.inl htag))
    · exact .unclosedName htag hname

/-- A section is read with a defect exactly when it has that defect. -/
theorem defect_read_iff :
    (s.read kind (before.any (·.claims kind))).defect = some reason ↔
      s.HasDefect kind before reason := by
  cases hsubject : s.tag.subject? with
  | some subject =>
    rw [read_of_subject hsubject, hasDefect_iff_of_subject hsubject]
    by_cases hclaimed : Claimed kind before
    · rw [claimed_iff.1 hclaimed]
      simp only [Section.readSubject, if_true, Option.some.injEq, hclaimed, not_true_eq_false,
        and_true, false_and, and_false, or_false]
      exact eq_comm
    · rw [Bool.eq_false_iff.2 (mt claimed_iff.2 hclaimed), readSubject_unclaimed]
      simp [defect_read_parts_iff, hclaimed]
  | none =>
    rw [hasDefect_iff_of_plain hsubject]
    unfold Section.read
    cases htag : s.tag with
    | cls => simp [htag, Tag.subject?] at hsubject
    | member k => simp [htag, Tag.subject?] at hsubject
    | type => simp [Section.readTypeTag, defect_read_parts_iff]
    | param => simp [Section.readParam, defect_read_parts_iff]
    | returns => simp [defect_read_parts_iff]
    | _ => simp

/-! ### Reports -/

/-- Reading section by section gives the reports of the description. -/
theorem defectReports_iff {reports : List Report} :
    DefectReports kind before after reports ↔ reports =
      (readSections kind (before.any (·.claims kind)) after).filterMap
        fun found => found.1.report found.2 := by
  have hbehind : ∀ (before : List Section) (s : Section),
      (before ++ [s]).any (·.claims kind) = (before.any (·.claims kind) || s.claims kind) :=
    fun before s => by simp
  constructor
  · intro h
    induction h with
    | nil => rfl
    | @defect before after s reason reports h later ih =>
      simp [readSections, Section.report, defect_read_iff.2 h, ih, hbehind]
    | @sound before after s reports h later ih =>
      have hnone : (s.read kind (before.any (·.claims kind))).defect = none :=
        Option.eq_none_iff_forall_ne_some.2 fun reason hdefect =>
          h reason (defect_read_iff.1 hdefect)
      simp [readSections, Section.report, hnone, ih, hbehind]
  · rintro rfl
    induction after generalizing before with
    | nil => exact .nil
    | cons s after ih =>
      have hlater := @ih (before ++ [s])
      rw [hbehind] at hlater
      cases hdefect : (s.read kind (before.any (·.claims kind))).defect with
      | some reason =>
        simp only [readSections, List.filterMap_cons, Section.report, hdefect, Option.map_some]
        exact .defect (defect_read_iff.1 hdefect) hlater
      | none =>
        simp only [readSections, List.filterMap_cons, Section.report, hdefect, Option.map_none]
        refine .sound (fun reason h => ?_) hlater
        rw [defect_read_iff.2 h] at hdefect
        cases hdefect

/-- The reports on a comment are those on its words, line by line, and then those on its sections,
in order, and there are no others.  In a unit they stand between those on the comments before and
behind it. -/
theorem reports_ofComment_iff (line : Nat) (text : Text) :
    (∀ kind reports, CommentReports (commentLines line text) kind reports ↔
      kind = (DocNode.ofComment line text).1.kind ∧
        reports = (DocNode.ofComment line text).2) ∧
    ∀ earlier later code,
      (UnitDocs.ofBlocks (earlier ++ ⟨text, code, line⟩ :: later)).reports
        = (UnitDocs.ofBlocks earlier).reports ++ (DocNode.ofComment line text).2
          ++ (UnitDocs.ofBlocks later).reports := by
  refine ⟨fun kind reports => ?_, fun earlier later code => ?_⟩
  · have hkind : (DocNode.ofComment line text).1.kind = kindOf (Comment.read line text).sections :=
      kind_node (Comment.read line text) line
    rw [hkind]
    constructor
    · rintro ⟨hsections, hdocuments, hwords, hdefects⟩
      rw [tagLines_iff] at hsections
      rw [documents_iff] at hdocuments
      rw [wordReports_iff] at hwords
      rw [defectReports_iff] at hdefects
      subst hsections hdocuments hwords hdefects
      exact ⟨rfl, rfl⟩
    · rintro ⟨rfl, rfl⟩
      exact .mk (tagLines_iff.2 rfl) (documents_iff.2 rfl) (wordReports_iff.2 rfl)
        (defectReports_iff.2 rfl)
  · simp [UnitDocs.ofBlocks, DocBlock.read]

end ApiDocs
