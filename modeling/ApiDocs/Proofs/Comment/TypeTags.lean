import ApiDocs.Code.Fill
import ApiDocs.Proofs.Comment.Heads
import ApiDocs.Proofs.Comment.Readings
/-!
# Types from type tags

A deciding tag without a type leaves it to the type tags of the comment.  The first of them gives
the type, and the code after the comment does not change it.  A deciding tag clears the type that
the node has so far, so that only the type tags behind it last.  Where a constructor tag has claimed
the comment before, the deciding tag is text and all of them last.

Main definitions:

- `FirstType`: the first type tag among sections, and its type in braces.
- `FirstTypeWord`: the first type tag among sections, when it has a word in place of the braces.
- `lastingSections`: the sections whose type tags last.

Main results:

- `foldl_typeOver_readSections`: the first type that sections state is the one that is learned.
- `type_of_typeTags`: the first lasting type tag gives the type.
-/

namespace ApiDocs

/-- A type tag of the section, if it is one, has no text. -/
def Section.StatesNoType (s : Section) : Prop :=
  s.tag = .type → Text.trimStart s.text = []

/-- The first type tag with a text among sections writes this type in braces. -/
def FirstType (sections : List Section) (type : Text) : Prop :=
  ∃ front s back, sections = front ++ s :: back ∧ (∀ t ∈ front, t.StatesNoType) ∧ s.tag = .type ∧
    ∃ inner rest, TypeAhead s.text inner rest ∧ type = Text.trim inner

/-- The first type tag with a text among sections has no type in braces, and starts with this
word. -/
def FirstTypeWord (sections : List Section) (word : Text) : Prop :=
  ∃ front s back, sections = front ++ s :: back ∧ (∀ t ∈ front, t.StatesNoType) ∧ s.tag = .type ∧
    (∀ inner rest, ¬ TypeAhead s.text inner rest) ∧
    (Text.words (Text.trim s.text)).head? = some word

/-- The sections whose type tags last in a comment with one deciding tag between them: those behind
it, and all of them when one before it has claimed the comment. -/
def lastingSections (kind : Kind) (before after : List Section) : List Section :=
  if before.any (·.claims kind) then before ++ after else after

/-- The type that a section states for a thing that has none. -/
def Section.statedType? (s : Section) : Option Text :=
  if s.tag = .type then
    let parts := SectionParts.read true .none s.text
    parts.type <|> (Text.words parts.body).head?
  else none

variable {kind : Kind} {claimed : Bool} {s : Section} {sections before after : List Section}

/-! ### Types that sections state -/

/-- A section that does not decide keeps a type, and gives its own to a node without one. -/
theorem typeOver_read (type : Option Text) (h : claimed = true ∨ s.tag.subject? = none) :
    (s.read kind claimed).fact.typeOver type = (type <|> s.statedType?) := by
  have hsubject : ∀ subject, s.tag.subject? = some subject → claimed = true := fun subject hs =>
    h.resolve_right (by simp [hs])
  unfold Section.read Section.statedType?
  cases htag : s.tag with
  | cls => simp [Section.readSubject, hsubject .cls (by rw [htag]; rfl), Fact.typeOver]
  | member k =>
    simp [Section.readSubject, hsubject (.member k) (by rw [htag]; rfl), Fact.typeOver]
  | type => simp [Section.readTypeTag, Fact.typeOver]
  | constructor =>
    dsimp only
    split <;> simp [Fact.typeOver]
  | _ => simp [Section.readParam, Fact.typeOver]

/-- The first type that sections state is the one that is learned, when none of them decides. -/
theorem foldl_typeOver_readSections (type : Option Text)
    (h : claimed = true ∨ ∀ s ∈ sections, s.tag.subject? = none) :
    ((readSections kind claimed sections).map (·.2.fact)).foldl Fact.typeOver type
      = (type <|> sections.findSome? Section.statedType?) := by
  induction sections generalizing claimed type with
  | nil => simp [readSections]
  | cons s sections ih =>
    obtain ⟨hs, hrest⟩ := claimed_or_forall_cons kind h
    rw [readSections, List.map_cons, List.foldl_cons, typeOver_read type hs, ih _ hrest]
    cases type <;> cases hstated : s.statedType? <;> simp [hstated]

/-- A type tag without a text states no type. -/
theorem statedType?_eq_none (h : s.StatesNoType) : s.statedType? = none := by
  unfold Section.statedType?
  split
  next htag =>
    have hempty : SectionParts.read true .none s.text = {} := by
      rw [← SectionParts.read_trimStart, h htag]
      rfl
    rw [hempty]
    rfl
  next => rfl

/-- A type in braces is stated without the blanks at its ends. -/
theorem statedType?_of_typeAhead {inner rest : Text} (htag : s.tag = .type)
    (h : TypeAhead s.text inner rest) : s.statedType? = some (Text.trim inner) := by
  simp [Section.statedType?, htag, SectionParts.read_typed h (readName_none _)]

/-- Without a type in braces, a type tag states the first word of its text. -/
theorem statedType?_of_typeless (htag : s.tag = .type)
    (h : ∀ inner rest, ¬ TypeAhead s.text inner rest) :
    s.statedType? = (Text.words (Text.trim s.text)).head? := by
  unfold Section.statedType?
  rw [if_pos htag]
  rcases typeAhead_or_unclosedType_or_head? s.text with ⟨inner, rest, hahead⟩ | hunclosed | hstart
  · exact absurd hahead (h inner rest)
  · rw [SectionParts.read_unclosed _ hunclosed]
    rfl
  · rw [SectionParts.read_typeless (fun _ => hstart) (readName_none _), Text.trim_trimStart]
    rfl

/-- No type is stated when no type tag has a text. -/
theorem findSome?_statedType?_eq_none (h : ∀ s ∈ sections, s.StatesNoType) :
    sections.findSome? Section.statedType? = none :=
  List.findSome?_eq_none_iff.2 fun s hs => statedType?_eq_none (h s hs)

/-- Type tags without a text are passed over for the first section that states a type. -/
theorem findSome?_statedType?_of_first {front back : List Section} {type : Text}
    (hfront : ∀ t ∈ front, t.StatesNoType) (hs : s.statedType? = some type) :
    (front ++ s :: back).findSome? Section.statedType? = some type := by
  rw [List.findSome?_append, findSome?_statedType?_eq_none hfront, Option.none_or,
    List.findSome?_cons, hs]

/-- A type in braces is stated when it is the first one. -/
theorem findSome?_statedType?_of_firstType {type : Text} (h : FirstType sections type) :
    sections.findSome? Section.statedType? = some type := by
  obtain ⟨front, s, back, rfl, hfront, htag, inner, rest, hahead, rfl⟩ := h
  exact findSome?_statedType?_of_first hfront (statedType?_of_typeAhead htag hahead)

/-- A word is stated for the type when it is the first one. -/
theorem findSome?_statedType?_of_firstTypeWord {word : Text} (h : FirstTypeWord sections word) :
    sections.findSome? Section.statedType? = some word := by
  obtain ⟨front, s, back, rfl, hfront, htag, htypeless, hword⟩ := h
  exact findSome?_statedType?_of_first hfront
    ((statedType?_of_typeless htag htypeless).trans hword)

/-! ### The type of a comment -/

/-- A node takes its type from the lasting type tags when its deciding tag has none. -/
theorem type_ofComment {line : Nat} {text : Text}
    (hsections : (Comment.read line text).sections = before ++ s :: after)
    (hdecides : s.tag.subject? = some kind)
    (hsole : ∀ t ∈ before ++ after, t.tag.subject? = none)
    (htypeless : ∀ inner rest, ¬ TypeAhead s.text inner rest) :
    (DocNode.ofComment line text).1.type
      = (lastingSections kind before after).findSome? Section.statedType? := by
  obtain ⟨hbefore, hafter⟩ := List.forall_mem_append.1 hsole
  have hkind : kindOf (Comment.read line text).sections = kind := by
    rw [hsections, kindOf_append_cons hbefore hdecides]
  have hfold : (DocNode.ofComment line text).1.type
      = ((readSections kind false (before ++ s :: after)).map (·.2.fact)).foldl
          Fact.typeOver none := by
    rw [ofComment_eq_node, Comment.node, hkind, hsections]
    exact type_foldl_learn _ _
  rw [hfold, readSections_append, readSections, List.map_append, List.map_cons, List.foldl_append,
    List.foldl_cons, foldl_typeOver_readSections none (.inr hbefore),
    foldl_typeOver_readSections _ (.inr hafter), read_of_subject hdecides, lastingSections]
  cases hclaimed : before.any (·.claims kind) with
  | true =>
    -- the deciding tag is text, so the types before it stay
    simp [Section.readSubject, Fact.typeOver, List.findSome?_append]
  | false =>
    -- the deciding tag has no type and clears the one stated before it
    simp [Section.readSubject, Fact.typeOver, SectionParts.type_read_plain htypeless]

/-- In a comment with one deciding tag that has no type of its own, the first lasting type tag
gives the type, and no code changes it.  Without a lasting type tag there is no type. -/
theorem type_of_typeTags {line : Nat} {text : Text}
    (hsections : (Comment.read line text).sections = before ++ s :: after)
    (hdecides : s.tag.subject? = some kind)
    (hsole : ∀ t ∈ before ++ after, t.tag.subject? = none)
    (htypeless : ∀ inner rest, ¬ TypeAhead s.text inner rest) :
    (∀ type, FirstType (lastingSections kind before after) type →
        (DocNode.ofComment line text).1.type = some type ∧
          ∀ code, ((DocNode.ofComment line text).1.fillFromCode code).type = some type) ∧
      ((∀ t ∈ lastingSections kind before after, t.StatesNoType) →
        (DocNode.ofComment line text).1.type = none) := by
  have htype := type_ofComment hsections hdecides hsole htypeless
  constructor
  · intro type hfirst
    rw [findSome?_statedType?_of_firstType hfirst] at htype
    refine ⟨htype, fun code => ?_⟩
    simp [DocNode.fillFromCode, DocNode.fill, htype]
  · intro hnone
    rw [htype, findSome?_statedType?_eq_none hnone]

/-- Of two type tags behind a property tag the first gives the type, and a string in the code does
not change it. -/
theorem type_of_typeTags_of_nestedBraces :
    let text := "Inner width.\n@private\n@property width\n@type \x7bNumber/\x7bpx:Number\x7d\x7d\n@type String".toList
    let before : List Section := [⟨.hidden, "private".toList, [], 2⟩]
    let s : Section := ⟨.member .property, "property".toList, "width".toList, 3⟩
    let after : List Section :=
      [⟨.type, "type".toList, "\x7bNumber/\x7bpx:Number\x7d\x7d".toList, 4⟩,
        ⟨.type, "type".toList, "String".toList, 5⟩]
    (Comment.read 1 text).sections = before ++ s :: after ∧
      s.tag.subject? = some (.member .property) ∧
      (∀ t ∈ before ++ after, t.tag.subject? = none) ∧
      (∀ inner rest, ¬ TypeAhead s.text inner rest) ∧
      FirstType (lastingSections (.member .property) before after)
        "Number/\x7bpx:Number\x7d".toList ∧
      ((DocNode.ofComment 1 text).1.fillFromCode "width: 'auto'".toList).type
        = some "Number/\x7bpx:Number\x7d".toList := by
  intro text before s after
  have hsections : (Comment.read 1 text).sections = before ++ s :: after := by decide +kernel
  have hdecides : s.tag.subject? = some (.member .property) := rfl
  have hsole : ∀ t ∈ before ++ after, t.tag.subject? = none := by decide
  have htypeless : ∀ inner rest, ¬ TypeAhead s.text inner rest := fun _ _ h =>
    absurd h.head? (by decide)
  have hfirst : FirstType (lastingSections (.member .property) before after)
      "Number/\x7bpx:Number\x7d".toList :=
    ⟨[], _, _, rfl, by simp, rfl, "Number/\x7bpx:Number\x7d".toList, [],
      ⟨by decide, by decide⟩, by decide⟩
  exact ⟨hsections, hdecides, hsole, htypeless, hfirst,
    ((type_of_typeTags hsections hdecides hsole htypeless).1 _ hfirst).2 _⟩

/-- A type tag in front of the deciding tag is forgotten, and the code gives another type. -/
theorem leading_typeTag_is_lost :
    let text := "@type \x7bNumber\x7d\n@property size".toList
    let typeTag : Section := ⟨.type, "type".toList, "\x7bNumber\x7d".toList, 1⟩
    let s : Section := ⟨.member .property, "property".toList, "size".toList, 2⟩
    (Comment.read 1 text).sections = [typeTag, s] ∧
      FirstType [typeTag] "Number".toList ∧
      (∀ inner rest, ¬ TypeAhead s.text inner rest) ∧
      (DocNode.ofComment 1 text).1.type = none ∧
      ((DocNode.ofComment 1 text).1.fillFromCode "size: 'a'".toList).type
        = some "String".toList := by
  intro text typeTag s
  refine ⟨by decide +kernel, ?_, fun _ _ h => absurd h.head? (by decide), by decide +kernel,
    by decide +kernel⟩
  exact ⟨[], typeTag, [], rfl, by simp, rfl, "Number".toList, [], ⟨by decide, by decide⟩,
    by decide⟩

end ApiDocs
