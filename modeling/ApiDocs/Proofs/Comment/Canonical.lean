import ApiDocs.Proofs.Comment.TagLine
/-!
# Canonical comments

A canonical comment names what it documents on its first line, describes it on the next ones
and then states its facts, one on each line and in a fixed order.  Reading it gives the node
that it was written for, with nothing to report, unless a line of the description starts with
an asterisk: that is taken for decoration.

Main definitions:

- `CanonicalComment`: what such a comment says.
- `CanonicalComment.spelling`: the comment.
- `CanonicalComment.node`: the node it was written for.

Main results:

- `CanonicalComment.commentLines_spelling`: the lines are read as they were written.
- `CanonicalComment.ofComment_spelling`: the comment is read back.
-/

namespace ApiDocs

/-- A line of a description that is no tag line. -/
abbrev ProseLine := { s : Text // s ≠ [] ∧ OneLine s ∧ s.head? ≠ some '@' }

/-- What a canonical comment says.  Only configuration options and properties have a type. -/
structure CanonicalComment where
  kind : Kind
  name : NameText
  type : Option TypeText := none
  prose : List ProseLine := []
  parent : Option NameText := none
  mixins : List WordText := []
  isSingleton : Bool := false
  isPrivate : Bool := false
  params : List ParamSpelling := []
  returns : Option ReturnsSpelling := none
  no_param : kind ≠ .param
  typed : type.isSome → kind = .member .cfg ∨ kind = .member .property

/-- The tag that decides on a kind. -/
def Tag.ofKind : Kind → Tag
  | .cls => .cls
  | .member k => .member k
  | .param => .param

/-- The word of a kind is that of its tag. -/
theorem Tag.ofWord?_name (kind : Kind) : Tag.ofWord? kind.name = some (Tag.ofKind kind) := by
  rcases kind with _ | (_ | _ | _ | _) | _ <;> rfl

/-- The tag of a kind decides on that kind. -/
theorem Tag.subject?_ofKind {kind : Kind} (h : kind ≠ .param) :
    (Tag.ofKind kind).subject? = some kind := by
  cases kind with
  | cls => rfl
  | member k => rfl
  | param => exact absurd rfl h

namespace CanonicalComment

variable (c : CanonicalComment)

/-- The parts of the first line. -/
def headParts : List Text :=
  typeParts c.type ++ [c.name.val]

/-- The tag lines in front of the parameters. -/
def markLines : List TagLine :=
  c.parent.toList.map .parent ++ (if c.mixins.isEmpty then [] else [.mixins c.mixins])
    ++ (if c.isSingleton then [.singleton] else []) ++ if c.isPrivate then [.hidden] else []

/-- The tag lines under the description. -/
def tagLines : List TagLine :=
  c.markLines ++ c.params.map .param ++ c.returns.toList.map .returns

/-- The lines of the comment. -/
def lines : List Text :=
  tagLine c.kind.name c.headParts
    :: (c.prose.map Subtype.val ++ c.tagLines.map TagLine.spelling)

/-- The comment as it is written. -/
def spelling : Text :=
  Text.joinWith "\n".toList c.lines

/-- The description as it is read. -/
def description : Text :=
  Text.joinWith "\n".toList (c.prose.map Subtype.val)

/-- What the comment says about a thing whose comment opens on the given line. -/
def node (line : Nat) : DocNode where
  kind := c.kind
  name := some c.name.val
  type := c.type.map Subtype.val
  description := c.description
  params := (c.params.zipIdx (line + 1 + c.prose.length + c.markLines.length)).map
    fun (p, number) => p.node number
  returns := c.returns.map ReturnsSpelling.value
  parent := c.parent.map Subtype.val
  mixins := .ofList (c.mixins.map Subtype.val)
  isSingleton := c.isSingleton
  isPrivate := c.isPrivate
  line := line

/-! ### The lines of the comment -/

/-- What the first line states can be parts of a line. -/
theorem isPart_of_mem_headParts {part : Text} (h : part ∈ c.headParts) : IsPart part := by
  rcases List.mem_append.1 h with h | h
  · exact isPart_of_mem_typeParts h
  · obtain rfl := List.mem_singleton.1 h
    exact isPart_name c.name

/-- Each line of the comment stands on a line of its own. -/
theorem isPart_of_mem_lines {l : Text} (h : l ∈ c.lines) : IsPart l := by
  rcases List.mem_cons.1 h with rfl | h
  · exact ⟨List.cons_ne_nil _ _,
      oneLine_tagLine (Tag.ofWord?_name c.kind) fun _ => c.isPart_of_mem_headParts⟩
  · rcases List.mem_append.1 h with h | h
    · obtain ⟨prose, -, rfl⟩ := List.mem_map.1 h
      exact ⟨prose.2.1, prose.2.2.1⟩
    · obtain ⟨tagged, -, rfl⟩ := List.mem_map.1 h
      exact ⟨List.cons_ne_nil _ _, tagged.oneLine_spelling⟩

/-- A tag line has no decoration. -/
theorem head?_of_mem_lines (hprose : ∀ l ∈ c.prose, l.val.head? ≠ some '*') {l : Text}
    (h : l ∈ c.lines) : l.head? ≠ some '*' := by
  rcases List.mem_cons.1 h with rfl | h
  · simp [tagLine]
  · rcases List.mem_append.1 h with h | h
    · obtain ⟨prose, hmem, rfl⟩ := List.mem_map.1 h
      exact hprose prose hmem
    · obtain ⟨tagged, -, rfl⟩ := List.mem_map.1 h
      simp [TagLine.spelling, tagLine]

end CanonicalComment

/-- Without blanks and an asterisk at its start, a line has no decoration. -/
theorem undecorate_eq_self {l : Text} (hunpadded : Unpadded l) (hstar : l.head? ≠ some '*') :
    undecorate l = l := by
  unfold undecorate
  rw [Text.trimStart_eq_self hunpadded.first]
  split
  · simp at hstar
  · simp at hstar
  · rfl

/-- Lines with their numbers. -/
def numbered (first : Nat) (ls : List Text) : List CommentLine :=
  (ls.zipIdx first).map fun (content, number) => ⟨number, content⟩

namespace CanonicalComment

variable (c : CanonicalComment)

/-- The lines of the comment are read as they were written. -/
theorem commentLines_spelling (hprose : ∀ l ∈ c.prose, l.val.head? ≠ some '*') (line : Nat) :
    commentLines line c.spelling = numbered line c.lines := by
  have hend : ∀ l ∈ c.lines, l ≠ [] ∧ l.getLast? ≠ some '\r' := fun l hl =>
    ⟨(c.isPart_of_mem_lines hl).1, fun hlast =>
      absurd ((c.isPart_of_mem_lines hl).2.unpadded.last _ hlast) (by decide)⟩
  have hlines : Text.lines c.spelling = c.lines :=
    Text.lines_joinWith (fun l hl => (c.isPart_of_mem_lines hl).2.unbroken) hend
  rw [commentLines, hlines, numbered]
  refine List.map_congr_left fun ⟨raw, number⟩ hentry => ?_
  have hmem : raw ∈ c.lines := List.fst_mem_of_mem_zipIdx hentry
  simp only [undecorate_eq_self (c.isPart_of_mem_lines hmem).2.unpadded
    (c.head?_of_mem_lines hprose hmem)]

/-! ### The sections of the comment -/

/-- The tag line that the first line is read as. -/
def opening (line : Nat) : Opening :=
  ⟨.ofKind c.kind, c.kind.name, spaced c.headParts, line⟩

/-- The lines of the description with their numbers. -/
def proseLines (line : Nat) : List CommentLine :=
  numbered (line + 1) (c.prose.map Subtype.val)

/-- The tag lines with their numbers. -/
def numberedTags (line : Nat) : List (TagLine × Nat) :=
  c.tagLines.zipIdx (line + 1 + c.prose.length)

/-- The section of the first line, which goes on over the description. -/
def headSection (line : Nat) : Section :=
  .ofLines (c.opening line) (c.proseLines line)

/-- The sections of the comment. -/
def sections (line : Nat) : List Section :=
  c.headSection line
    :: (c.numberedTags line).map fun (l, number) => .ofLines (l.opening number) []

/-- The sections of the comment with the facts that they state. -/
def readings (line : Nat) : List (Section × Reading) :=
  (c.headSection line,
      { fact := .subject (c.type.map Subtype.val) (some c.name.val), prose := c.description })
    :: (c.numberedTags line).map fun (l, number) =>
      (.ofLines (l.opening number) [], { fact := l.fact number })

/-- A line of prose has no tag. -/
theorem tagWord?_prose (l : ProseLine) (number : Nat) :
    CommentLine.tagWord? ⟨number, l.val⟩ = none := by
  have hfirst := l.2.2.2
  rw [CommentLine.tagWord?, Text.trim_of_unpadded l.2.2.1.unpadded]
  unfold readTagLine?
  split
  · simp_all
  · rfl

/-- None of the numbered lines of prose has a tag. -/
theorem tagWord?_of_mem_proseLines {line : Nat} {l : CommentLine} (h : l ∈ c.proseLines line) :
    l.tagWord? = none := by
  obtain ⟨⟨content, number⟩, hentry, rfl⟩ := List.mem_map.1 h
  obtain ⟨prose, -, rfl⟩ := List.mem_map.1 (List.fst_mem_of_mem_zipIdx hentry)
  exact tagWord?_prose prose number

/-- The lines of a comment are the first one, the prose and the tag lines. -/
theorem numbered_lines (line : Nat) :
    numbered line c.lines
      = ⟨line, tagLine c.kind.name c.headParts⟩
        :: (c.proseLines line
          ++ (c.numberedTags line).map fun (l, number) => ⟨number, l.spelling⟩) := by
  simp [numbered, lines, proseLines, numberedTags, List.zipIdx_append, List.zipIdx_map,
    Function.comp_def]

/-- A tag line opens its section. -/
theorem opening?_spelling (entry : TagLine × Nat) :
    CommentLine.opening? ⟨entry.2, entry.1.spelling⟩ = some (entry.1.opening entry.2) :=
  opening?_tagLine entry.2 entry.1.ofWord?_word fun _ => TagLine.isPart_of_mem_parts

/-- The comment falls apart into the sections of its tag lines, and every tag is known. -/
theorem read_spelling (hprose : ∀ l ∈ c.prose, l.val.head? ≠ some '*') (line : Nat) :
    Comment.read line c.spelling
      = { description := [], sections := c.sections line, unknown := [] } := by
  have hhead := opening?_tagLine line (Tag.ofWord?_name c.kind) fun _ => c.isPart_of_mem_headParts
  have hnone : ∀ l ∈ c.proseLines line, l.opening? = none :=
    fun l hl => by rw [CommentLine.opening?, c.tagWord?_of_mem_proseLines hl]; rfl
  have htags : cut CommentLine.opening? ((c.numberedTags line).map fun (l, number) =>
      ⟨number, l.spelling⟩) = ([], (c.numberedTags line).map fun (l, number) =>
        (l.opening number, [])) :=
    cut_map_of_forall_some fun entry _ => opening?_spelling entry
  have hparts : cut CommentLine.opening? (numbered line c.lines)
      = ([], (c.opening line, c.proseLines line)
          :: (c.numberedTags line).map fun (l, number) => (l.opening number, [])) := by
    rw [numbered_lines, cut, hhead, cut_append_of_forall_none _ hnone, htags]
    simp [opening]
  have hunknown : (numbered line c.lines).filterMap CommentLine.unknownTag? = [] := by
    rw [numbered_lines, List.filterMap_eq_nil_iff]
    intro l hl
    rcases List.mem_cons.1 hl with rfl | hl
    · exact unknownTag?_tagLine line (Tag.ofWord?_name c.kind) fun _ => c.isPart_of_mem_headParts
    · rcases List.mem_append.1 hl with hl | hl
      · rw [CommentLine.unknownTag?, c.tagWord?_of_mem_proseLines hl]
        rfl
      · obtain ⟨⟨tagged, number⟩, -, rfl⟩ := List.mem_map.1 hl
        exact unknownTag?_tagLine number tagged.ofWord?_word fun _ => TagLine.isPart_of_mem_parts
  simp only [Comment.read, c.commentLines_spelling hprose line, hparts, hunknown]
  simp [sections, headSection, Text.joinWith]

/-- The sections of a comment decide on its kind. -/
theorem kindOf_sections (line : Nat) : kindOf (c.sections line) = c.kind := by
  have hsubject : (c.opening line).tag.subject? = some c.kind := Tag.subject?_ofKind c.no_param
  simp [kindOf, sections, headSection, Section.ofLines, hsubject]

/-! ### The first section -/

/-- The lines of the description, each behind a line break. -/
def below (line : Nat) : Text :=
  (c.proseLines line).flatMap fun l => '\n' :: l.content

/-- Below the first line stands the prose, line by line. -/
theorem below_eq (line : Nat) : c.below line = (c.prose.map Subtype.val).flatMap ('\n' :: ·) := by
  rw [below, proseLines, numbered, List.flatMap_map]
  conv_rhs => rw [← List.zipIdx_map_fst (line + 1) (c.prose.map Subtype.val), List.flatMap_map]

/-- The prose stands behind a line break. -/
theorem isBlank_of_head?_below {line : Nat} {ch : Char} (h : (c.below line).head? = some ch) :
    isBlank ch = true := by
  rw [below_eq] at h
  cases hlines : c.prose.map Subtype.val with
  | nil => simp only [hlines, List.flatMap_nil, List.head?_nil, reduceCtorEq] at h
  | cons first rest =>
    simp only [hlines, List.flatMap_cons, List.cons_append, List.head?_cons,
      Option.some.injEq] at h
    rw [← h]
    decide

/-- What stands below the first line is trimmed to the description. -/
theorem trim_below (line : Nat) : Text.trim (c.below line) = c.description := by
  have hpieces : ∀ l ∈ c.prose.map Subtype.val, l ≠ [] ∧ Unpadded l := fun l hl => by
    obtain ⟨prose, -, rfl⟩ := List.mem_map.1 hl
    exact ⟨prose.2.1, prose.2.2.1.unpadded⟩
  rw [below_eq, description]
  cases hlines : c.prose.map Subtype.val with
  | nil => rfl
  | cons first rest =>
    rw [hlines] at hpieces
    have hjoined := Text.unpadded_joinWith (c := '\n') hpieces
    rw [List.flatMap_cons, List.cons_append, ← Text.joinWith_cons,
      Text.trim_blank (by decide) hjoined]
    rfl

/-- The parts of the first line are read back, with what stands below them as body. -/
theorem read_headParts {below : Text} (hbelow : ∀ ch, below.head? = some ch → isBlank ch = true) :
    SectionParts.read (c.kind = .member .cfg || c.kind = .member .property) .plain
        (Text.trimStart (spaced c.headParts) ++ below)
      = { type := c.type.map Subtype.val, name := some c.name.val, body := Text.trim below } := by
  have hpart : ∀ p ∈ c.headParts, p ≠ [] ∧ Unpadded p := fun p hp =>
    ⟨(c.isPart_of_mem_headParts hp).1, (c.isPart_of_mem_headParts hp).2.unpadded⟩
  have hstart : Text.trimStart (spaced [c.name.val] ++ below) = c.name.val ++ below :=
    trimStart_spaced [] below (isPart_name c.name).1 (isPart_name c.name).2.unpadded
  have hname : readName .plain (Text.trimStart (spaced [c.name.val] ++ below))
      = some { name := some c.name.val, body := Text.trim below } := by
    rw [hstart, readName_of_isName (by decide) c.name.2 hbelow]
  rw [trimStart_spaced_append below (by simp [headParts]) hpart, SectionParts.read_trimStart,
    headParts, spaced_append, List.append_assoc]
  cases htype : (c.kind = .member .cfg || c.kind = .member .property : Bool) with
  | true =>
    refine SectionParts.read_typeParts (fun _ => ?_) hname
    rw [hstart, List.head?_append_of_ne_nil _ (isPart_name c.name).1]
    exact fun hopen => not_mem_of_isName c.name.2 (by decide) (List.mem_of_mem_head? hopen)
  | false =>
    have hnone : c.type = none := by
      have htyped := c.typed
      cases hcase : c.type with
      | none => rfl
      | some t => simp_all
    rw [hnone]
    exact SectionParts.read_untyped hname

/-- The section of the first line says what the comment is about, with the description under
it as its prose. -/
theorem read_headSection (line : Nat) :
    (c.headSection line).read c.kind false
      = { fact := .subject (c.type.map Subtype.val) (some c.name.val)
          prose := c.description } := by
  have hread : (c.headSection line).read c.kind false
      = (c.headSection line).readSubject c.kind false := by
    have htag : (c.headSection line).tag = .ofKind c.kind := rfl
    have hno := c.no_param
    unfold Section.read
    rw [htag]
    cases hkind : c.kind with
    | cls => rfl
    | member k => rfl
    | param => exact absurd hkind hno
  have htext : (c.headSection line).text
      = Text.trimStart (spaced c.headParts) ++ c.below line := rfl
  have hparts := c.read_headParts (fun _ => c.isBlank_of_head?_below : ∀ ch,
    (c.below line).head? = some ch → isBlank ch = true)
  rw [hread]
  simp only [Section.readSubject, htext, Bool.false_eq_true, if_false, hparts, c.trim_below]

/-! ### The facts of the comment -/

/-- Each tag line states its fact. -/
theorem readSections_tags (kind : Kind) (claimed : Bool) (entries : List (TagLine × Nat)) :
    readSections kind claimed (entries.map fun (l, number) => Section.ofLines (l.opening number) [])
      = entries.map fun (l, number) =>
        (Section.ofLines (l.opening number) [], { fact := l.fact number }) := by
  induction entries generalizing claimed with
  | nil => rfl
  | cons entry entries ih =>
    simp only [List.map_cons, readSections, ih]
    rw [TagLine.read_section]

/-- A node completed by the facts of tag lines. -/
def learnLines (node : DocNode) (entries : List (TagLine × Nat)) : DocNode :=
  entries.foldl (fun node (l, number) => node.learn (l.fact number)) node

/-- Tag lines are learned one after the other. -/
theorem learnLines_append (node : DocNode) (entries others : List (TagLine × Nat)) :
    learnLines node (entries ++ others) = learnLines (learnLines node entries) others :=
  List.foldl_append

/-- The lines in front of the parameters set the marks of a node without any. -/
theorem learnLines_marks {node : DocNode} (first : Nat) (hparent : node.parent = none)
    (hmixins : node.mixins = ∅) (hsingleton : node.isSingleton = false)
    (hprivate : node.isPrivate = false) :
    learnLines node (c.markLines.zipIdx first)
      = { node with
          parent := c.parent.map Subtype.val
          mixins := .ofList (c.mixins.map Subtype.val)
          isSingleton := c.isSingleton
          isPrivate := c.isPrivate } := by
  cases node
  subst hparent hmixins hsingleton hprivate
  rcases c with ⟨_, _, _, _, parent, mixins, isSingleton, isPrivate⟩
  cases parent <;> cases mixins <;> cases isSingleton <;> cases isPrivate <;> rfl

/-- The lines of parameters add them in order. -/
theorem learnLines_params (node : DocNode) (params : List ParamSpelling) (first : Nat) :
    learnLines node ((params.map TagLine.param).zipIdx first)
      = { node with
          params := node.params
            ++ (params.zipIdx first).map fun (p, number) => p.node number } := by
  induction params generalizing node first with
  | nil =>
    cases node
    simp [learnLines]
  | cons p params ih =>
    have hfirst : learnLines node (((p :: params).map TagLine.param).zipIdx first)
        = learnLines (node.learn (.param (p.node first)))
            ((params.map TagLine.param).zipIdx (first + 1)) :=
      rfl
    rw [hfirst, ih]
    simp [DocNode.learn]

/-- The line of a result states the result. -/
theorem learnLines_returns {node : DocNode} (returns : Option ReturnsSpelling) (first : Nat)
    (h : node.returns = none) :
    learnLines node ((returns.toList.map TagLine.returns).zipIdx first)
      = { node with returns := returns.map ReturnsSpelling.value } := by
  cases node
  subst h
  cases returns <;> rfl

/-- The facts of the comment complete an empty node to the one it was written for. -/
theorem learnLines_numberedTags (line : Nat) :
    learnLines
        { kind := c.kind, name := some c.name.val, type := c.type.map Subtype.val, line := line }
        (c.numberedTags line)
      = { c.node line with description := [] } := by
  rw [numberedTags, tagLines, List.zipIdx_append, List.zipIdx_append, learnLines_append,
    learnLines_append, learnLines_marks _ _ rfl rfl rfl rfl, learnLines_params,
    learnLines_returns _ _ rfl]
  rfl

/-! ### The whole comment -/

/-- The sections of a comment are read as they were written. -/
theorem readSections_sections (line : Nat) :
    readSections c.kind false (c.sections line) = c.readings line := by
  rw [sections, readSections, c.read_headSection, readSections_tags, readings]

/-- One trimmed piece between empty ones is the description. -/
theorem describe_single {text : Text} {pieces : List Text} (htext : Text.trim text = text)
    (hpieces : ∀ p ∈ pieces, p = []) : describe ([] :: text :: pieces) = text := by
  have hrest : (pieces.map Text.trim).filter (! ·.isEmpty) = [] := by
    rw [List.filter_eq_nil_iff]
    intro piece hpiece
    obtain ⟨p, hp, rfl⟩ := List.mem_map.1 hpiece
    simp [hpieces p hp]
  cases text with
  | nil => simp [describe, hrest, Text.joinWith]
  | cons ch text => simp [describe, hrest, htext, Text.joinWith]

/-- The prose of the comment is its description. -/
theorem describe_readings (line : Nat) :
    describe ([] :: (c.readings line).map (·.2.prose)) = c.description := by
  have htrim : Text.trim c.description = c.description := by
    rw [← c.trim_below line, Text.trim_of_unpadded (Text.unpadded_trim _)]
  exact describe_single htrim (by simp)

/-- A canonical comment is read back as the node it was written for, and nothing is reported. -/
theorem ofComment_spelling (c : CanonicalComment)
    (hprose : ∀ l ∈ c.prose, l.val.head? ≠ some '*') (line : Nat) :
    DocNode.ofComment line c.spelling = (c.node line, []) := by
  have hfacts : ((c.readings line).map (·.2.fact)).foldl DocNode.learn
      { kind := c.kind, line := line } = { c.node line with description := [] } := by
    rw [← c.learnLines_numberedTags, learnLines, readings, List.map_cons, List.map_map,
      List.foldl_cons, List.foldl_map]
    rfl
  have hreports : (c.readings line).filterMap (fun read => read.1.report read.2) = [] := by
    simp [readings, Section.report]
  simp only [DocNode.ofComment, c.read_spelling hprose, c.kindOf_sections,
    c.readSections_sections, c.describe_readings, hfacts, hreports]
  rfl

/-- A method with a description, a mark, an optional parameter and a result. -/
def loading : CanonicalComment where
  kind := .member .method
  name := ⟨"load".toList, by decide⟩
  prose := [⟨"Loads data.".toList, by decide⟩]
  isPrivate := true
  params := [
    { type := some ⟨"Object/\x7bx:Number\x7d".toList, by decide⟩
      name := ⟨"options".toList, by decide⟩
      isOptional := true
      text := ⟨"Extra".toList, by decide⟩ }]
  returns := some ⟨none, ⟨"True on success".toList, by decide⟩, by decide⟩
  no_param := by decide
  typed := by decide

/-- A method with prose, a flag, a parameter with a type and braces in it, and a result. -/
theorem ofComment_spelling_of_loading :
    loading.lines = ["@method load".toList, "Loads data.".toList, "@private".toList,
        "@param \x7bObject/\x7bx:Number\x7d\x7d [options] Extra".toList,
        "@return True on success".toList]
      ∧ (∀ l ∈ loading.prose, l.val.head? ≠ some '*')
      ∧ DocNode.ofComment 3 loading.spelling = (loading.node 3, []) :=
  ⟨by decide +kernel, by decide, ofComment_spelling loading (by decide) 3⟩

/-- A class whose description has a line that starts with an asterisk. -/
def starred : CanonicalComment where
  kind := .cls
  name := ⟨"A".toList, by decide⟩
  prose := [⟨"* item".toList, by decide⟩]
  no_param := by decide
  typed := by decide

/-- An asterisk at the start of a line is decoration, so it is not read back. -/
theorem starred_line_loses_asterisk :
    starred.spelling = "@class A\n* item".toList
      ∧ (DocNode.ofComment 1 starred.spelling).1.description = "item".toList
      ∧ DocNode.ofComment 1 starred.spelling ≠ (starred.node 1, []) := by
  have hread : (DocNode.ofComment 1 starred.spelling).1.description = "item".toList := by
    decide +kernel
  have hwritten : (starred.node 1).description = "* item".toList := by decide +kernel
  refine ⟨by decide +kernel, hread, fun heq => ?_⟩
  rw [heq, hwritten] at hread
  exact absurd hread (by decide)

end CanonicalComment

end ApiDocs
