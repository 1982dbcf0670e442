import ApiDocs.Proofs.Comment.Origins
import ApiDocs.Proofs.Comment.TypeTags
/-!
# Recovery from types that nothing closes

A brace that nothing closes keeps the parts of a section from being read.  The section is reported
once and its text is kept, in the description of the comment or of the parameter or result that it
is about, and the other sections are read as if it were not there.  A type tag is different: it
takes the first word of its text for the type, brace and all, and keeps no text.

Main definitions:

- `Section.ReadsType`: the sections that read a type.
- `Comment.besides`: what the other sections of a comment say.
- `Section.Recovered`: what a section with an open brace adds to that.

Main results:

- `nodeOf_insert`, `nodeOf_insert_param`: a node with one more section, or one for a parameter.
- `besides_eq_node`: the other sections are read as those of a comment without the section.
- `ofComment_of_unclosedType`: a comment with such a section against the one without.
-/

namespace ApiDocs

/-- The tag of a section behind others reads a type: it is a tag for a type, a parameter or a
result, or it decides on an option or a property. -/
def Section.ReadsType (before : List Section) (s : Section) : Prop :=
  s.tag = .type ∨ s.tag = .param ∨ s.tag = .returns ∨
    (s.tag = .member .cfg ∨ s.tag = .member .property) ∧ ∀ t ∈ before, t.tag.subject? = none

/-- What a comment says without one of its sections, on the same kind of thing and as little
claimed by the sections behind it as before. -/
def Comment.besides (comment : Comment) (line : Nat) (before : List Section) (s : Section)
    (after : List Section) : DocNode × List Report :=
  let kind := kindOf comment.sections
  comment.nodeOf kind line (readSections kind false before
    ++ readSections kind (before.any (·.claims kind) || s.claims kind) after)

/-- What a section with a type that nothing closes adds to the node of the others.  A parameter or a
result has the text for its description, unless another result replaces it.  A type tag changes the
type at most, to the first word of its text.  The deciding tag leaves the text to the description of
the node, names nothing, and takes away the types that are stated before it: the first type tag with
a text behind it states the type, in braces or as a word, and without one there is no type.  What is
added stands behind what the sections before have added. -/
inductive Section.Recovered (before : List Section) (s : Section) (after : List Section)
    (absent : DocNode) : DocNode → Prop
  | param {earlier later : List DocNode} (htag : s.tag = .param)
      (hparams : absent.params = earlier ++ later)
      (hplace : earlier.length = before.countP (·.tag = .param)) :
      Recovered before s after absent { absent with
        params := earlier
          ++ { kind := .param, description := Text.trim s.text, line := s.line } :: later }
  | result (htag : s.tag = .returns) (hlast : ∀ t ∈ after, t.tag ≠ .returns) :
      Recovered before s after absent { absent with returns := some ⟨none, Text.trim s.text⟩ }
  | replaced (htag : s.tag = .returns) (hlater : ∃ t ∈ after, t.tag = .returns) :
      Recovered before s after absent absent
  | type {type : Option Text} (htag : s.tag = .type)
      (htype : type = absent.type ∨ type = (Text.words (Text.trim s.text)).head?) :
      Recovered before s after absent { absent with type := type }
  | deciding {type : Option Text} {pieces others : List Text} (hsubject : s.tag.subject? ≠ none)
      (hname : absent.name = none) (hpieces : absent.description = describe (pieces ++ others))
      (hplace : pieces.length = before.length + 1)
      (hbefore : (∀ t ∈ before, t.StatesNoType) → type = absent.type)
      (hafter : ∀ stated, FirstType after stated → type = some stated)
      (hword : ∀ word, FirstTypeWord after word → type = some word)
      (hnone : (∀ t ∈ after, t.StatesNoType) → type = none) :
      Recovered before s after absent { absent with
        type := type
        description := describe (pieces ++ s.text :: others) }

variable {kind : Kind} {claimed : Bool} {line : Nat} {text : Text} {s : Section} {reading : Reading}
  {before after sections : List Section}

/-! ### Facts that change one field -/

/-- The parameter that a fact adds. -/
def Fact.param? : Fact → Option DocNode
  | .param p => some p
  | _ => none

/-- The result of a node that had the given one and has learned a fact. -/
def Fact.returnsOver (returns : Option Returns) : Fact → Option Returns
  | .returns r => some r
  | _ => returns

/-- The parameters that facts add stand in the order of the facts. -/
theorem foldl_append_param? (facts : List Fact) (params : List DocNode) :
    facts.foldl (fun params fact => params ++ fact.param?.toList) params
      = params ++ facts.filterMap Fact.param? := by
  induction facts generalizing params with
  | nil => simp
  | cons fact facts ih =>
    rw [List.foldl_cons, ih]
    cases hparam : fact.param? <;> simp [hparam]

/-- A node learns other facts without regard to the parameters that it has. -/
theorem foldl_learn_params (facts : List Fact) (params : List DocNode) (node : DocNode) :
    facts.foldl DocNode.learn { node with params := params }
      = { facts.foldl DocNode.learn node with
          params := params ++ facts.filterMap Fact.param? } := by
  rw [← foldl_append_param?]
  exact foldl_learn_set (fun params node => { node with params := params }) _
    (fun _ _ fact => by cases fact <;> simp [DocNode.learn, Fact.param?]) facts params node

/-- The parameters of a node are those that it had and those of the facts. -/
theorem params_foldl_learn (facts : List Fact) (node : DocNode) :
    (facts.foldl DocNode.learn node).params = node.params ++ facts.filterMap Fact.param? := by
  rw [← foldl_append_param?]
  exact (List.foldl_hom DocNode.params fun _ fact => by
    cases fact <;> simp [DocNode.learn, Fact.param?]).symm

/-- Each parameter tag adds a parameter, and no other tag does. -/
theorem isSome_param?_read :
    (s.read kind claimed).fact.param?.isSome = decide (s.tag = .param) := by
  by_cases htag : s.tag = .param
  · simp [Section.read, htag, Section.readParam, Fact.param?]
  · cases hfact : (s.read kind claimed).fact with
    | param p => exact absurd (tag_eq_param_of_read hfact).1 htag
    | _ => simp [Fact.param?, htag]

/-- Sections add as many parameters as they have parameter tags. -/
theorem length_params_readSections (kind : Kind) (claimed : Bool) (sections : List Section) :
    (((readSections kind claimed sections).map (·.2.fact)).filterMap Fact.param?).length
      = sections.countP (·.tag = .param) := by
  induction sections generalizing claimed with
  | nil => rfl
  | cons t sections ih =>
    have hcount : (t.read kind claimed).fact.param?.isSome = decide (t.tag = .param) :=
      isSome_param?_read
    rw [readSections, List.map_cons, List.filterMap_cons, List.countP_cons, ← hcount,
      ← ih (claimed || t.claims kind)]
    cases (t.read kind claimed).fact.param? <;> rfl

/-- A node learns other facts without regard to the result that it has. -/
theorem foldl_learn_returns (facts : List Fact) (returns : Option Returns) (node : DocNode) :
    facts.foldl DocNode.learn { node with returns := returns }
      = { facts.foldl DocNode.learn node with
          returns := facts.foldl Fact.returnsOver returns } :=
  foldl_learn_set (fun returns node => { node with returns := returns }) Fact.returnsOver
    (fun _ _ fact => by cases fact <;> rfl) facts returns node

/-- The result of a node is the one that the facts leave. -/
theorem returns_foldl_learn (facts : List Fact) (node : DocNode) :
    (facts.foldl DocNode.learn node).returns = facts.foldl Fact.returnsOver node.returns :=
  (List.foldl_hom DocNode.returns fun _ fact => by cases fact <;> rfl).symm

/-- A section with another tag leaves the result as it is. -/
theorem returnsOver_read_of_ne (returns : Option Returns) (h : s.tag ≠ .returns) :
    (s.read kind claimed).fact.returnsOver returns = returns := by
  cases hsubject : s.tag.subject? with
  | some subject =>
    rw [read_of_subject hsubject, Section.readSubject]
    split <;> rfl
  | none =>
    unfold Section.read
    cases htag : s.tag with
    | cls => simp [htag, Tag.subject?] at hsubject
    | member k => simp [htag, Tag.subject?] at hsubject
    | returns => exact absurd htag h
    | constructor =>
      dsimp only
      split <;> rfl
    | _ => rfl

/-- Sections without a result tag leave the result as it is. -/
theorem foldl_returnsOver_of_ne (returns : Option Returns) (h : ∀ t ∈ sections, t.tag ≠ .returns) :
    ((readSections kind claimed sections).map (·.2.fact)).foldl Fact.returnsOver returns
      = returns := by
  induction sections generalizing claimed with
  | nil => rfl
  | cons t sections ih =>
    obtain ⟨ht, hrest⟩ := List.forall_mem_cons.1 h
    rw [readSections, List.map_cons, List.foldl_cons, returnsOver_read_of_ne returns ht, ih hrest]

/-- A result tag replaces the result, whatever it was. -/
theorem foldl_returnsOver_of_mem (returns others : Option Returns)
    (h : ∃ t ∈ sections, t.tag = .returns) :
    ((readSections kind claimed sections).map (·.2.fact)).foldl Fact.returnsOver returns
      = ((readSections kind claimed sections).map (·.2.fact)).foldl Fact.returnsOver others := by
  induction sections generalizing claimed returns others with
  | nil => simp at h
  | cons t sections ih =>
    rw [readSections, List.map_cons, List.foldl_cons, List.foldl_cons]
    by_cases ht : t.tag = .returns
    · rw [Section.read, ht]
      rfl
    · refine ih _ _ ?_
      obtain ⟨u, hu, htag⟩ := h
      rcases List.mem_cons.1 hu with rfl | hu
      · exact absurd htag ht
      · exact ⟨u, hu, htag⟩

/-- A type that is stated stays until a deciding tag clears whatever was stated before it. -/
theorem foldl_typeOver_some (facts : List Fact) (type : Text) :
    facts.foldl Fact.typeOver (some type) = some type ∨
      ∀ other, facts.foldl Fact.typeOver other = facts.foldl Fact.typeOver (some type) := by
  induction facts with
  | nil => exact .inl rfl
  | cons fact facts ih =>
    cases fact with
    | subject stated name => exact .inr fun _ => rfl
    | type stated =>
      rcases ih with hstays | hcleared
      · exact .inl hstays
      · exact .inr fun other => (hcleared (other <|> stated)).trans (hcleared _).symm
    | _ => exact ih

/-- One more type that is stated is the type in the end or has no effect. -/
theorem foldl_typeOver_orElse (facts : List Fact) (own stated : Option Text) :
    facts.foldl Fact.typeOver (own <|> stated) = facts.foldl Fact.typeOver own ∨
      facts.foldl Fact.typeOver (own <|> stated) = stated := by
  cases own with
  | some type => exact .inl rfl
  | none =>
    cases stated with
    | none => exact .inl rfl
    | some type =>
      rcases foldl_typeOver_some facts type with hstays | hcleared
      · exact .inr hstays
      · exact .inl (hcleared none).symm

/-! ### A section between others -/

/-- A report on a section stands between those on the sections before and behind it. -/
theorem reports_insert (comment : Comment) (front back : List (Section × Reading))
    {reason : Malformation} (h : reading.defect = some reason) :
    ∃ earlier later, (comment.nodeOf kind line (front ++ back)).2 = earlier ++ later ∧
      (comment.nodeOf kind line (front ++ (s, reading) :: back)).2
        = earlier ++ .malformedTag s.spelling s.line reason :: later := by
  refine ⟨comment.unknown ++ front.filterMap fun found => found.1.report found.2,
    back.filterMap fun found => found.1.report found.2, ?_, ?_⟩
  · simp [Comment.nodeOf]
  · simp [Comment.nodeOf, Section.report, h]

/-- The node learns the fact of a section between those of the sections around it. -/
theorem nodeOf_insert (comment : Comment) (kind : Kind) (line : Nat) (s : Section)
    (reading : Reading) (front back : List (Section × Reading)) :
    let facts := back.map (·.2.fact)
    let node := (front.map (·.2.fact)).foldl DocNode.learn { kind := kind, line := line }
    let pieces := comment.description :: front.map (·.2.prose)
    let others := back.map (·.2.prose)
    (comment.nodeOf kind line (front ++ back)).1
        = { facts.foldl DocNode.learn node with description := describe (pieces ++ others) } ∧
      (comment.nodeOf kind line (front ++ (s, reading) :: back)).1
        = { facts.foldl DocNode.learn (node.learn reading.fact) with
            description := describe (pieces ++ reading.prose :: others) } := by
  simp [Comment.nodeOf]

/-- A section that states a parameter and leaves no prose adds the parameter behind those of the
sections before it, and nothing else. -/
theorem nodeOf_insert_param (comment : Comment) (kind : Kind) (line : Nat) (s : Section)
    {reading : Reading} {p : DocNode} (hfact : reading.fact = .param p)
    (hprose : reading.prose = []) (before : List Section) (back : List (Section × Reading)) :
    let absent := (comment.nodeOf kind line (readSections kind false before ++ back)).1
    ∃ earlier later, absent.params = earlier ++ later ∧
      earlier.length = before.countP (·.tag = .param) ∧
      (comment.nodeOf kind line (readSections kind false before ++ (s, reading) :: back)).1
        = { absent with params := earlier ++ p :: later } := by
  intro absent
  obtain ⟨habsent, hfound⟩ := nodeOf_insert comment kind line s reading
    (readSections kind false before) back
  rw [hfact, hprose, describe_append_nil, DocNode.learn, foldl_learn_params, List.append_assoc]
    at hfound
  have habove : absent = _ := habsent
  rw [habove, hfound]
  refine ⟨_, _, params_foldl_learn _ _, ?_, rfl⟩
  rw [params_foldl_learn, List.nil_append]
  exact length_params_readSections kind false before

/-- The node of a comment, with one of the sections set apart from those around it. -/
theorem Comment.node_eq (comment : Comment) (line : Nat)
    (hsections : comment.sections = before ++ s :: after) :
    let kind := kindOf comment.sections
    comment.node line = comment.nodeOf kind line (readSections kind false before
      ++ (s, s.read kind (before.any (·.claims kind)))
        :: readSections kind (before.any (·.claims kind) || s.claims kind) after) := by
  intro kind
  have hreadings : readSections kind false comment.sections = readSections kind false before
      ++ (s, s.read kind (before.any (·.claims kind)))
        :: readSections kind (before.any (·.claims kind) || s.claims kind) after := by
    rw [hsections, readSections_append, readSections, Bool.false_or]
  rw [← hreadings]
  rfl

/-! ### The other sections -/

/-- A section that cannot claim a comment is read alike everywhere. -/
theorem read_of_plain (kind other : Kind) (claimed before : Bool)
    (h : s.tag.subject? = none ∧ s.tag ≠ .constructor) :
    s.read kind claimed = s.read other before := by
  unfold Section.read
  cases htag : s.tag with
  | cls => simp [htag, Tag.subject?] at h
  | member k => simp [htag, Tag.subject?] at h
  | constructor => exact absurd htag h.2
  | _ => rfl

/-- Sections that cannot claim a comment are read alike everywhere. -/
theorem readSections_of_plain (kind other : Kind) (claimed before : Bool)
    (h : ∀ t ∈ sections, t.tag.subject? = none ∧ t.tag ≠ .constructor) :
    readSections kind claimed sections = readSections other before sections := by
  induction sections generalizing claimed before with
  | nil => rfl
  | cons t sections ih =>
    obtain ⟨ht, hrest⟩ := List.forall_mem_cons.1 h
    rw [readSections, readSections, read_of_plain kind other claimed before ht, ih _ _ hrest]

/-- Around a section that cannot claim the comment, the others are read as if it were absent. -/
theorem besides_eq_node (comment : Comment) (line : Nat)
    (hsections : comment.sections = before ++ s :: after) (hsubject : s.tag.subject? = none)
    (hconstructor : s.tag ≠ .constructor) :
    comment.besides line before s after
      = ({ comment with sections := before ++ after } : Comment).node line := by
  have hkind : kindOf comment.sections = kindOf (before ++ after) := by
    rw [hsections, kindOf_append_cons_of_plain hsubject hconstructor]
  have hclaims : s.claims (kindOf (before ++ after)) = false :=
    claims_eq_false hsubject fun h => absurd h hconstructor
  simp only [Comment.besides, hkind, hclaims, Bool.or_false]
  rw [Comment.node, readSections_append, Bool.false_or]
  rfl

/-- When no other section could claim the comment, the others are read as if the section were
absent, but for the kind of thing that it decides on. -/
theorem besides_eq_node_of_plain (comment : Comment) (line : Nat)
    (hplain : ∀ t ∈ before ++ after, t.tag.subject? = none ∧ t.tag ≠ .constructor) :
    let absent := ({ comment with sections := before ++ after } : Comment).node line
    comment.besides line before s after
      = ({ absent.1 with kind := kindOf comment.sections }, absent.2) := by
  intro absent
  obtain ⟨hbefore, hafter⟩ := List.forall_mem_append.1 hplain
  have hreadings : ∀ kind claimed,
      readSections kind false before ++ readSections kind claimed after
        = readSections (kindOf (before ++ after)) false (before ++ after) := by
    intro kind claimed
    rw [readSections_append, readSections_of_plain kind _ _ _ hbefore,
      readSections_of_plain kind _ _ _ hafter]
  rw [Comment.besides, hreadings]
  refine Prod.ext ?_ rfl
  have hkind := foldl_learn_kind ((readSections (kindOf (before ++ after)) false
    (before ++ after)).map (·.2.fact)) (kindOf comment.sections)
    { kind := kindOf (before ++ after), line := line }
  exact congrArg (fun node : DocNode => { node with description := absent.1.description }) hkind

/-! ### Sections with an open brace -/

/-- A parameter with an open brace has no name, and its text for a description. -/
theorem read_param_unclosed (htag : s.tag = .param) (h : UnclosedType s.text) :
    s.read kind claimed
      = { fact := .param { kind := .param, description := Text.trim s.text, line := s.line }
          defect := some .unclosedType } := by
  simp [Section.read, htag, Section.readParam, SectionParts.read_unclosed _ h]

/-- A result with an open brace has no type, and its text for a description. -/
theorem read_returns_unclosed (htag : s.tag = .returns) (h : UnclosedType s.text) :
    s.read kind claimed
      = { fact := .returns ⟨none, Text.trim s.text⟩, defect := some .unclosedType } := by
  simp [Section.read, htag, SectionParts.read_unclosed _ h]

/-- A type tag with an open brace states its first word. -/
theorem read_type_unclosed (htag : s.tag = .type) (h : UnclosedType s.text) :
    s.read kind claimed
      = { fact := .type (Text.words (Text.trim s.text)).head?, defect := some .unclosedType } := by
  simp [Section.read, htag, Section.readTypeTag, SectionParts.read_unclosed _ h]

/-- A deciding tag with an open brace states nothing, and its text is prose. -/
theorem read_deciding_unclosed {subject : Kind} (hsubject : s.tag.subject? = some subject)
    (htyped : subject.isTyped = true) (h : UnclosedType s.text) :
    s.read kind false
      = { fact := .subject none none, prose := Text.trim s.text
          defect := some .unclosedType } := by
  rw [read_of_subject hsubject, readSubject_unclaimed, htyped, SectionParts.read_unclosed _ h]

/-- The deciding tag without a name clears the type of a node without one. -/
theorem learn_subject_unnamed {node : DocNode} (h : node.name = none) (type : Option Text) :
    node.learn (.subject type none) = { node with type := type } := by
  cases node
  cases h
  rfl

section

variable (comment : Comment) (front back : List (Section × Reading))

/-- A parameter with an open brace stands between the parameters around it. -/
theorem recovered_param (htag : s.tag = .param) (h : UnclosedType s.text) :
    s.Recovered before after
      (comment.nodeOf kind line (readSections kind false before ++ back)).1
      (comment.nodeOf kind line
        (readSections kind false before ++ (s, s.read kind claimed) :: back)).1 := by
  have hread : s.read kind claimed = _ := read_param_unclosed htag h
  obtain ⟨earlier, later, hparams, hplace, hfound⟩ := nodeOf_insert_param comment kind line s
    (congrArg Reading.fact hread) (congrArg Reading.prose hread) before back
  rw [hfound]
  exact .param htag hparams hplace

/-- A result with an open brace is the result, unless another one follows. -/
theorem recovered_returns (htag : s.tag = .returns) (h : UnclosedType s.text) (behind : Bool) :
    s.Recovered before after
      (comment.nodeOf kind line (front ++ readSections kind behind after)).1
      (comment.nodeOf kind line
        (front ++ (s, s.read kind claimed) :: readSections kind behind after)).1 := by
  obtain ⟨habsent, hfound⟩ := nodeOf_insert comment kind line s (s.read kind claimed) front
    (readSections kind behind after)
  rw [read_returns_unclosed htag h, describe_append_nil, DocNode.learn, foldl_learn_returns]
    at hfound
  rw [read_returns_unclosed htag h, hfound, habsent]
  by_cases hlater : ∃ t ∈ after, t.tag = .returns
  · rw [foldl_returnsOver_of_mem _ _ hlater, ← returns_foldl_learn]
    exact .replaced htag hlater
  · have hlast : ∀ t ∈ after, t.tag ≠ .returns := fun t ht hreturns => hlater ⟨t, ht, hreturns⟩
    rw [foldl_returnsOver_of_ne _ hlast]
    exact .result htag hlast

/-- A type tag with an open brace changes the type of the node at most. -/
theorem recovered_type (htag : s.tag = .type) (h : UnclosedType s.text) :
    s.Recovered before after (comment.nodeOf kind line (front ++ back)).1
      (comment.nodeOf kind line (front ++ (s, s.read kind claimed) :: back)).1 := by
  obtain ⟨habsent, hfound⟩ := nodeOf_insert comment kind line s (s.read kind claimed) front back
  rw [read_type_unclosed htag h, describe_append_nil, DocNode.learn, foldl_learn_type] at hfound
  rw [read_type_unclosed htag h, hfound, habsent]
  refine .type htag ?_
  dsimp only
  rw [type_foldl_learn (back.map (·.2.fact))]
  exact foldl_typeOver_orElse _ _ _

/-- A deciding tag with an open brace leaves its text as prose, and the type to the tags behind
it. -/
theorem recovered_deciding {subject : Kind} (hsubject : s.tag.subject? = some subject)
    (htyped : subject.isTyped = true) (h : UnclosedType s.text)
    (hbefore : ∀ t ∈ before, t.tag.subject? = none)
    (hclaims : ∀ t ∈ before, t.claims kind = false) :
    s.Recovered before after
      (comment.nodeOf kind line
        (readSections kind false before ++ readSections kind true after)).1
      (comment.nodeOf kind line (readSections kind false before
        ++ (s, s.read kind false) :: readSections kind true after)).1 := by
  obtain ⟨habsent, hfound⟩ := nodeOf_insert comment kind line s (s.read kind false)
    (readSections kind false before) (readSections kind true after)
  generalize hnode : ((readSections kind false before).map (·.2.fact)).foldl DocNode.learn
    { kind := kind, line := line } = node at habsent hfound
  have hname : node.name = none := by
    rw [← hnode, name_foldl_readSections _ (.inr hclaims)]
  have htype : node.type = before.findSome? Section.statedType? := by
    rw [← hnode, type_foldl_learn, foldl_typeOver_readSections _ (.inr hbefore)]
    rfl
  rw [read_deciding_unclosed hsubject htyped h, learn_subject_unnamed hname, foldl_learn_type,
    foldl_typeOver_readSections _ (.inl rfl), describe_append_trim] at hfound
  rw [read_deciding_unclosed hsubject htyped h, hfound, habsent]
  refine .deciding (by simp [hsubject]) ?_ rfl ?_ (fun hearlier => ?_) (fun stated hfirst => ?_)
    (fun word hfirst => ?_) fun hlater => ?_
  · dsimp only
    rw [name_foldl_readSections _ (.inl rfl), hname]
  · rw [List.length_cons, List.length_map, length_readSections]
  · dsimp only
    rw [type_foldl_learn, foldl_typeOver_readSections _ (.inl rfl), htype,
      findSome?_statedType?_eq_none hearlier]
  · exact findSome?_statedType?_of_firstType hfirst
  · exact findSome?_statedType?_of_firstTypeWord hfirst
  · exact findSome?_statedType?_eq_none hlater

end

/-- Options and properties are subjects that have a type. -/
theorem exists_typed_subject (h : s.tag = .member .cfg ∨ s.tag = .member .property) :
    ∃ subject, s.tag.subject? = some subject ∧ subject.isTyped = true := by
  rcases h with htag | htag
  · exact ⟨.member .cfg, by rw [htag]; rfl, rfl⟩
  · exact ⟨.member .property, by rw [htag]; rfl, rfl⟩

/-- An option or a property is claimed by its deciding tag. -/
theorem claims_of_deciding {subject : Kind} (hsubject : s.tag.subject? = some subject)
    (htyped : subject.isTyped = true) (hbefore : ∀ t ∈ before, t.tag.subject? = none) :
    kindOf (before ++ s :: after) = subject ∧
      (∀ t ∈ before, t.claims subject = false) ∧ s.claims subject = true := by
  refine ⟨kindOf_append_cons hbefore hsubject, fun t ht => ?_, by simp [Section.claims, hsubject]⟩
  exact claims_eq_false (hbefore t ht) fun _ hmethod => by simp [hmethod, Kind.isTyped] at htyped

/-- Whatever the tag reads, the section is recovered and reported. -/
theorem recovered_of_readsType (comment : Comment) (line : Nat)
    (hsections : comment.sections = before ++ s :: after)
    (hreads : s.ReadsType before) (hunclosed : UnclosedType s.text) :
    let kind := kindOf comment.sections
    s.Recovered before after (comment.besides line before s after).1 (comment.node line).1 ∧
      (s.read kind (before.any (·.claims kind))).defect = some .unclosedType := by
  intro kind
  rw [comment.node_eq line hsections, Comment.besides]
  rcases hreads with htag | htag | htag | ⟨htag, hbefore⟩
  · exact ⟨recovered_type comment _ _ htag hunclosed, by rw [read_type_unclosed htag hunclosed]⟩
  · exact ⟨recovered_param comment _ htag hunclosed, by rw [read_param_unclosed htag hunclosed]⟩
  · exact ⟨recovered_returns comment _ htag hunclosed _,
      by rw [read_returns_unclosed htag hunclosed]⟩
  · obtain ⟨subject, hsubject, htyped⟩ := exists_typed_subject htag
    obtain ⟨hkind, hclaims, hclaimed⟩ : kindOf (before ++ s :: after) = subject ∧ _ :=
      claims_of_deciding hsubject htyped hbefore
    rw [← hsections] at hkind
    simp only [kind, hkind, any_claims_eq_false hclaims, hclaimed, Bool.false_or]
    exact ⟨recovered_deciding comment hsubject htyped hunclosed hbefore hclaims,
      by rw [read_deciding_unclosed hsubject htyped hunclosed]⟩

/-- A comment with a section whose type nothing closes, against what its other sections say: there
is one more report, the text of the section is kept as `Section.Recovered` says, and the others are
read as if the section were absent. -/
theorem ofComment_of_unclosedType
    (hsections : (Comment.read line text).sections = before ++ s :: after)
    (hreads : s.ReadsType before) (hunclosed : UnclosedType s.text) :
    let comment := Comment.read line text
    let found := DocNode.ofComment line text
    let others := comment.besides line before s after
    let absent := ({ comment with sections := before ++ after } : Comment).node line
    s.Recovered before after others.1 found.1 ∧
      (∃ earlier later, others.2 = earlier ++ later ∧
        found.2 = earlier ++ .malformedTag s.spelling s.line .unclosedType :: later) ∧
      (s.tag.subject? = none → others = absent) ∧
      ((∀ t ∈ before ++ after, t.tag.subject? = none ∧ t.tag ≠ .constructor) →
        others = ({ absent.1 with kind := found.1.kind }, absent.2)) := by
  intro comment found others absent
  have hkind : found.1.kind = kindOf comment.sections := kind_node comment line
  have hfound : found = comment.node line := rfl
  obtain ⟨hrecovered, hdefect⟩ := recovered_of_readsType comment line hsections hreads hunclosed
  refine ⟨hrecovered, ?_, fun hsubject => ?_, fun hplain => ?_⟩
  · rw [hfound, comment.node_eq line hsections]
    exact reports_insert comment _ _ hdefect
  · refine besides_eq_node comment line hsections hsubject fun htag => ?_
    rcases hreads with h | h | h | ⟨h | h, -⟩
    all_goals exact Tag.noConfusion (h.symm.trans htag)
  · rw [hkind]
    exact besides_eq_node_of_plain comment line hplain

/-- An option with an open brace keeps its lines for description and has the type of the tag below,
and its name comes from the code. -/
theorem ofComment_of_unclosedType_of_cfg :
    let text := "Inner width.\n@private\n@cfg \x7bNumber/\x7bpx\x7d width\nin pixels\n@type \x7bString\x7d".toList
    let comment := Comment.read 1 text
    let before : List Section := [⟨.hidden, "private".toList, [], 2⟩]
    let s : Section :=
      ⟨.member .cfg, "cfg".toList, "\x7bNumber/\x7bpx\x7d width\nin pixels".toList, 3⟩
    let after : List Section := [⟨.type, "type".toList, "\x7bString\x7d".toList, 5⟩]
    let found := DocNode.ofComment 1 text
    let absent := ({ comment with sections := before ++ after } : Comment).node 1
    comment.sections = before ++ s :: after ∧ s.ReadsType before ∧ UnclosedType s.text ∧
      s.Recovered before after (comment.besides 1 before s after).1 found.1 ∧
      comment.besides 1 before s after = ({ absent.1 with kind := found.1.kind }, absent.2) ∧
      found.1.name = none ∧ found.1.type = some "String".toList ∧
      found.1.description = "Inner width.\n\x7bNumber/\x7bpx\x7d width\nin pixels".toList ∧
      found.2 = [.malformedTag "cfg".toList 3 .unclosedType] := by
  intro text comment before s after found absent
  have hsections : comment.sections = before ++ s :: after := by decide +kernel
  have hreads : s.ReadsType before := .inr (.inr (.inr ⟨.inl rfl, by simp [before, Tag.subject?]⟩))
  have hunclosed : UnclosedType s.text := unclosedType_iff.2 (by decide)
  obtain ⟨hrecovered, -, -, hothers⟩ := ofComment_of_unclosedType hsections hreads hunclosed
  exact ⟨hsections, hreads, hunclosed, hrecovered, hothers (by decide), by decide +kernel,
    by decide +kernel, by decide +kernel, by decide +kernel⟩

/-- A type tag with an open brace makes a type of its first word, and its text is in no
description. -/
theorem unclosed_typeTag_sets_type :
    let text := "@property size\n@type \x7bNumber".toList
    let s : Section := ⟨.type, "type".toList, "\x7bNumber".toList, 2⟩
    let found := DocNode.ofComment 1 text
    s ∈ (Comment.read 1 text).sections ∧ UnclosedType s.text ∧
      found.1.type = some "\x7bNumber".toList ∧ found.1.description = [] ∧
      found.2 = [.malformedTag "type".toList 2 .unclosedType] := by
  intro text s found
  exact ⟨by decide +kernel, unclosedType_iff.2 (by decide), by decide +kernel, by decide +kernel,
    by decide +kernel⟩

end ApiDocs
