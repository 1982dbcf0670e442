import ApiDocs.Comment.Node
import ApiDocs.Proofs.Comment.Parts
/-!
# Canonical tag lines

A tag line in canonical form has its word and its parts with one blank between them.  The texts
that may stand in it are types of their own, so that each line that can be built is read back:
it is found as a tag line, and the section that it makes states the fact that it was written
for, with no prose and no defect.

Main definitions:

- `NameText`, `TypeText`, `LineText`, `WordText`: the texts that may stand in a line.
- `ParamSpelling`, `ReturnsSpelling`: what is written about a parameter and a result.
- `TagLine`: the lines that state a fact; `TagLine.spelling`, `TagLine.fact`.

Main results:

- `opening?_tagLine`: a line that starts with the word of a tag is a tag line.
- `TagLine.read_section`: the section of a tag line states its fact.
-/

namespace ApiDocs

/-- The text stands on one line and has no blanks at its ends. -/
structure OneLine (s : Text) : Prop where
  unbroken : '\n' ∉ s
  unpadded : Unpadded s

instance (s : Text) : Decidable (OneLine s) :=
  decidable_of_iff ('\n' ∉ s ∧ Unpadded s) ⟨fun h => ⟨h.1, h.2⟩, fun h => ⟨h.1, h.2⟩⟩

/-- A name that tags accept. -/
abbrev NameText := { s : Text // isName s = true }

/-- A type on one line whose braces nest. -/
abbrev TypeText := { s : Text // OneLine s ∧ BalancedBraces s }

/-- A text on one line. -/
abbrev LineText := { s : Text // OneLine s }

/-- A word: it is not empty, and no character of it is blank. -/
abbrev WordText := { s : Text // s ≠ [] ∧ ∀ c ∈ s, isBlank c = false }

/-! ### Parts of a line -/

/-- The part for a type, if there is one. -/
def typeParts (type : Option TypeText) : List Text :=
  (type.map Subtype.val).toList.map braced

/-- The part for a text, if it is not empty. -/
def textParts (text : LineText) : List Text :=
  [text.val].filter (! ·.isEmpty)

/-- Nothing that would end the line or run into its neighbours. -/
def IsPart (s : Text) : Prop :=
  s ≠ [] ∧ OneLine s

theorem isPart_name (name : NameText) : IsPart name.val :=
  ⟨ne_nil_of_isName name.2, not_mem_of_isName name.2 (by decide), unpadded_of_isName name.2⟩

theorem isPart_bracketed (name : NameText) : IsPart (bracketed name.val) := by
  have hbreak : '\n' ∉ name.val := (isPart_name name).2.unbroken
  exact ⟨List.cons_ne_nil _ _, by simp [bracketed, hbreak], unpadded_bracketed name.val⟩

theorem isPart_word (word : WordText) : IsPart word.val :=
  ⟨word.2.1, fun hbreak => absurd (word.2.2 '\n' hbreak) (by decide),
    fun c hc => word.2.2 c (List.mem_of_mem_head? hc),
    fun c hc => word.2.2 c (List.mem_of_getLast? hc)⟩

/-- A type in braces can be a part of a line. -/
theorem isPart_of_mem_typeParts {type : Option TypeText} {part : Text}
    (h : part ∈ typeParts type) : IsPart part := by
  cases type with
  | none => simp [typeParts] at h
  | some t =>
    obtain rfl : part = braced t.val := by simpa [typeParts] using h
    exact ⟨List.cons_ne_nil _ _, by simp [braced, t.2.1.unbroken], unpadded_braced t.val⟩

/-- A text that is not empty can be a part of a line. -/
theorem isPart_of_mem_textParts {text : LineText} {part : Text} (h : part ∈ textParts text) :
    IsPart part := by
  simp only [textParts, List.mem_filter, List.mem_singleton] at h
  obtain ⟨rfl, hne⟩ := h
  exact ⟨by simpa using hne, text.2⟩

/-- Trimming leaves the text of a part for a text. -/
theorem trimStart_textParts (text : LineText) :
    Text.trimStart (spaced (textParts text)) = text.val := by
  rcases eq_or_ne text.val [] with hempty | hne
  · simp [textParts, hempty, Text.trimStart]
  · have hparts : textParts text = [text.val] := by simp [textParts, hne]
    have hstart := trimStart_spaced [] [] hne text.2.unpadded
    simpa [hparts] using hstart

/-- A text behind a blank is trimmed to itself. -/
theorem trim_textParts (text : LineText) : Text.trim (spaced (textParts text)) = text.val := by
  rw [← Text.trim_trimStart, trimStart_textParts, Text.trim_of_unpadded text.2.unpadded]

/-- A type is read back from its part, and the name from what stands behind it. -/
theorem SectionParts.read_typeParts {form : NameForm} {type : Option TypeText} {rest : Text}
    {parts : SectionParts} (hrest : type = none → (Text.trimStart rest).head? ≠ some '{')
    (hname : readName form (Text.trimStart rest) = some parts) :
    SectionParts.read true form (spaced (typeParts type) ++ rest)
      = { parts with type := type.map Subtype.val } := by
  have htrim : (type.map Subtype.val).map Text.trim = type.map Subtype.val := by
    cases type with
    | none => rfl
    | some t => exact congrArg some (Text.trim_of_unpadded t.2.1.unpadded)
  rw [← htrim]
  refine SectionParts.read_type (fun t ht => ?_) (fun hnone => hrest (by simpa using hnone)) hname
  obtain ⟨t, rfl, rfl⟩ := Option.map_eq_some_iff.1 ht
  exact t.2.2

/-! ### Lines with a tag -/

/-- A line that has a word after `@` and then its parts. -/
def tagLine (word : Text) (parts : List Text) : Text :=
  '@' :: (word ++ spaced parts)

/-- The words of the tags are made of letters. -/
theorem tagWord_form {word : Text} {tag : Tag} (h : Tag.ofWord? word = some tag) :
    ∃ c s, word = c :: s ∧ ∀ d ∈ c :: s, d.isAlpha = true := by
  have hall : Tag.words.all (fun entry => !entry.1.isEmpty && entry.1.all Char.isAlpha) = true := by
    rfl
  obtain ⟨before, after, hwords, -⟩ := List.lookup_eq_some_iff.1 h
  have hform := List.all_eq_true.1 hall (word, tag) (by rw [hwords]; simp)
  rw [Bool.and_eq_true, List.all_eq_true] at hform
  cases word with
  | nil => simp at hform
  | cons c s => exact ⟨c, s, rfl, hform.2⟩

/-- A tag line can start with the word of a tag. -/
theorem tagWord_letter {word : Text} {tag : Tag} (h : Tag.ofWord? word = some tag) :
    ∃ c s, word = c :: s ∧ c.isAlpha = true ∧ ∀ d ∈ s, isWordChar d = true := by
  obtain ⟨c, s, rfl, hword⟩ := tagWord_form h
  obtain ⟨halpha, hrest⟩ := List.forall_mem_cons.1 hword
  exact ⟨c, s, rfl, halpha, fun d hd => isWordChar_of_isAlpha (hrest d hd)⟩

/-- The word of a tag has no blanks, nor has the mark in front of it. -/
theorem isBlank_of_mem_tagWord {word : Text} {tag : Tag} (h : Tag.ofWord? word = some tag)
    {d : Char} (hd : d ∈ '@' :: word) : isBlank d = false := by
  obtain ⟨c, s, rfl, hword⟩ := tagWord_form h
  rcases List.mem_cons.1 hd with rfl | hd
  · decide
  · exact isBlank_of_isWordChar (isWordChar_of_isAlpha (hword d hd))

/-- The word behind `@` is an ASCII letter with all word characters behind it. -/
theorem readTagLine?_eq_some_iff {s word rest : Text} :
    readTagLine? s = some (word, rest) ↔ s = '@' :: (word ++ rest) ∧
      (∃ c t, word = c :: t ∧ c.isAlpha = true ∧ ∀ d ∈ t, isWordChar d = true) ∧
      ∀ c, rest.head? = some c → isWordChar c = false := by
  constructor
  · intro h
    refine ⟨eq_of_readTagLine? h, ?_⟩
    unfold readTagLine? at h
    split at h
    next c t =>
      split at h
      next halpha =>
        cases h
        refine ⟨⟨c, _, rfl, halpha, fun d hd => List.mem_takeWhile_imp hd⟩, fun d hd => ?_⟩
        have hnot := List.head?_dropWhile_not isWordChar t
        rw [hd] at hnot
        simpa using hnot
      next => cases h
    next => cases h
  · rintro ⟨rfl, ⟨c, t, rfl, halpha, hword⟩, hends⟩
    simp [readTagLine?, halpha, Text.takeWhile_run hword hends, Text.dropWhile_run hword hends]

section

variable {word : Text} {tag : Tag} {parts : List Text}

/-- The word and the parts of a tag make one line. -/
theorem oneLine_tagLine (h : Tag.ofWord? word = some tag) (hparts : ∀ p ∈ parts, IsPart p) :
    OneLine (tagLine word parts) := by
  have hjoin : tagLine word parts = Text.joinWith [' '] (('@' :: word) :: parts) :=
    (Text.joinWith_cons ' ' ('@' :: word) parts).symm
  constructor
  · intro hbreak
    have hin : '\n' ∈ ('@' :: word) ++ spaced parts := hbreak
    rcases List.mem_append.1 hin with hin | hin
    · exact absurd (isBlank_of_mem_tagWord h hin) (by decide)
    · exact unbroken_spaced (fun p hp => (hparts p hp).2.unbroken) hin
  · rw [hjoin]
    refine Text.unpadded_joinWith (List.forall_mem_cons.2 ⟨⟨List.cons_ne_nil _ _, ?_⟩, ?_⟩)
    · exact ⟨fun d hd => isBlank_of_mem_tagWord h (List.mem_of_mem_head? hd),
        fun d hd => isBlank_of_mem_tagWord h (List.mem_of_getLast? hd)⟩
    · exact fun p hp => ⟨(hparts p hp).1, (hparts p hp).2.unpadded⟩

/-- The word of a tag line is read back, with the parts behind it. -/
theorem readTagLine?_tagLine (h : Tag.ofWord? word = some tag) :
    readTagLine? (tagLine word parts) = some (word, spaced parts) := by
  refine readTagLine?_eq_some_iff.2 ⟨rfl, tagWord_letter h, fun d hd => ?_⟩
  rw [head?_spaced hd]
  decide

/-- A line that starts with the word of a tag is a tag line. -/
theorem opening?_tagLine (number : Nat) (h : Tag.ofWord? word = some tag)
    (hparts : ∀ p ∈ parts, IsPart p) :
    CommentLine.opening? ⟨number, tagLine word parts⟩
      = some ⟨tag, word, spaced parts, number⟩ := by
  simp [CommentLine.opening?, CommentLine.tagWord?, readTagLine?_tagLine h, h,
    Text.trim_of_unpadded (oneLine_tagLine h hparts).unpadded]

/-- The word of a tag is not reported. -/
theorem unknownTag?_tagLine (number : Nat) (h : Tag.ofWord? word = some tag)
    (hparts : ∀ p ∈ parts, IsPart p) :
    CommentLine.unknownTag? ⟨number, tagLine word parts⟩ = none := by
  simp [CommentLine.unknownTag?, CommentLine.tagWord?, readTagLine?_tagLine h, h,
    Text.trim_of_unpadded (oneLine_tagLine h hparts).unpadded]

end

/-! ### Lines that state a fact -/

/-- What is written about a parameter. -/
structure ParamSpelling where
  type : Option TypeText := none
  name : NameText
  isOptional : Bool := false
  text : LineText

/-- What is written about a result.  Without a type, the text must not start like one. -/
structure ReturnsSpelling where
  type : Option TypeText := none
  text : LineText
  untyped : type = none → text.val.head? ≠ some '{'

namespace ParamSpelling

/-- The name of a parameter as it is written. -/
def nameText (p : ParamSpelling) : Text :=
  if p.isOptional then bracketed p.name.val else p.name.val

/-- The parameter that is written on the given line. -/
def node (p : ParamSpelling) (line : Nat) : DocNode :=
  { kind := .param, name := some p.name.val, type := p.type.map Subtype.val
    description := p.text.val, isOptional := p.isOptional, line := line }

end ParamSpelling

/-- The result that is written. -/
def ReturnsSpelling.value (r : ReturnsSpelling) : Returns :=
  ⟨r.type.map Subtype.val, r.text.val⟩

/-- The lines that state a fact about what a comment documents. -/
inductive TagLine
  | parent (name : NameText)
  | mixins (names : List WordText)
  | singleton
  | hidden
  | param (p : ParamSpelling)
  | returns (r : ReturnsSpelling)

namespace TagLine

/-- The word after `@`. -/
def word : TagLine → Text
  | .parent _ => "extends".toList
  | .mixins _ => "mixins".toList
  | .singleton => "singleton".toList
  | .hidden => "private".toList
  | .param _ => "param".toList
  | .returns _ => "return".toList

/-- The tag that the word spells. -/
def tag : TagLine → Tag
  | .parent _ => .parent
  | .mixins _ => .mixins
  | .singleton => .singleton
  | .hidden => .hidden
  | .param _ => .param
  | .returns _ => .returns

/-- What follows the word. -/
def parts : TagLine → List Text
  | .parent name => [name.val]
  | .mixins names => names.map Subtype.val
  | .singleton => []
  | .hidden => []
  | .param p => typeParts p.type ++ p.nameText :: textParts p.text
  | .returns r => typeParts r.type ++ textParts r.text

/-- The line as it is written. -/
def spelling (l : TagLine) : Text :=
  tagLine l.word l.parts

/-- The fact that the line with the given number states. -/
def fact (number : Nat) : TagLine → Fact
  | .parent name => .parent (some name.val)
  | .mixins names => .mixins (names.map Subtype.val)
  | .singleton => .singleton
  | .hidden => .hidden
  | .param p => .param (p.node number)
  | .returns r => .returns r.value

/-- The tag line that the line with the given number is read as. -/
def opening (number : Nat) (l : TagLine) : Opening :=
  ⟨l.tag, l.word, spaced l.parts, number⟩

@[simp]
theorem ofWord?_word (l : TagLine) : Tag.ofWord? l.word = some l.tag := by
  cases l <;> rfl

/-- The parts of a tag line can be parts of a line. -/
theorem isPart_of_mem_parts {l : TagLine} {part : Text} (h : part ∈ l.parts) : IsPart part := by
  cases l with
  | parent name =>
    obtain rfl := List.mem_singleton.1 h
    exact isPart_name name
  | mixins names =>
    obtain ⟨word, -, rfl⟩ := List.mem_map.1 h
    exact isPart_word word
  | singleton => exact absurd h List.not_mem_nil
  | hidden => exact absurd h List.not_mem_nil
  | param p =>
    rcases List.mem_append.1 h with h | h
    · exact isPart_of_mem_typeParts h
    · rcases List.mem_cons.1 h with rfl | h
      · unfold ParamSpelling.nameText
        split
        · exact isPart_bracketed p.name
        · exact isPart_name p.name
      · exact isPart_of_mem_textParts h
  | returns r =>
    rcases List.mem_append.1 h with h | h
    · exact isPart_of_mem_typeParts h
    · exact isPart_of_mem_textParts h

/-- A tag line is spelled on one line. -/
theorem oneLine_spelling (l : TagLine) : OneLine l.spelling :=
  oneLine_tagLine l.ofWord?_word fun _ => isPart_of_mem_parts

end TagLine

/-! ### Sections of one line -/

/-- The name of a parameter is read with the text behind it. -/
theorem ParamSpelling.readName_eq (p : ParamSpelling) :
    readName .bracketed (p.nameText ++ spaced (textParts p.text))
      = some { name := some p.name.val, isOptional := p.isOptional, body := p.text.val } := by
  unfold ParamSpelling.nameText
  split
  · next hoptional => rw [readName_bracketed _ p.name.2, trim_textParts, hoptional]
  · next hplain =>
    rw [readName_of_isName (by decide) p.name.2, trim_textParts, Bool.eq_false_iff.2 hplain]
    intro c hc
    rw [head?_spaced hc]
    decide

/-- The name of a parameter, optional or not, does not start like a type. -/
theorem ParamSpelling.head?_nameText (p : ParamSpelling) : p.nameText.head? ≠ some '{' := by
  unfold ParamSpelling.nameText
  split
  · simp [bracketed]
  · exact fun hhead => not_mem_of_isName p.name.2 (by decide) (List.mem_of_mem_head? hhead)

/-- The parts of a parameter are read back. -/
theorem ParamSpelling.read_parts (p : ParamSpelling) :
    SectionParts.read true .bracketed (spaced (TagLine.param p).parts)
      = { type := p.type.map Subtype.val, name := some p.name.val, isOptional := p.isOptional
          body := p.text.val } := by
  have hpart : IsPart p.nameText :=
    TagLine.isPart_of_mem_parts (l := .param p) (by simp [TagLine.parts])
  have hstart : Text.trimStart (spaced (p.nameText :: textParts p.text))
      = p.nameText ++ spaced (textParts p.text) := by
    simpa using trimStart_spaced (textParts p.text) [] hpart.1 hpart.2.unpadded
  have hname : readName .bracketed (Text.trimStart (spaced (p.nameText :: textParts p.text)))
      = some { name := some p.name.val, isOptional := p.isOptional, body := p.text.val } := by
    rw [hstart, p.readName_eq]
  have hfirst : (Text.trimStart (spaced (p.nameText :: textParts p.text))).head? ≠ some '{' := by
    rw [hstart, List.head?_append_of_ne_nil _ hpart.1]
    exact p.head?_nameText
  rw [TagLine.parts, spaced_append, SectionParts.read_typeParts (fun _ => hfirst) hname]

/-- The parts of a result are read back. -/
theorem ReturnsSpelling.read_parts (r : ReturnsSpelling) :
    SectionParts.read true .none (spaced (TagLine.returns r).parts)
      = { type := r.type.map Subtype.val, body := r.text.val } := by
  have hname : readName .none (Text.trimStart (spaced (textParts r.text)))
      = some { body := r.text.val } := by
    rw [readName_none, trimStart_textParts, Text.trim_of_unpadded r.text.2.unpadded]
  have hfirst : r.type = none → (Text.trimStart (spaced (textParts r.text))).head? ≠ some '{' := by
    rw [trimStart_textParts]
    exact r.untyped
  rw [TagLine.parts, spaced_append, SectionParts.read_typeParts hfirst hname]

/-- A name that stands alone is read back. -/
theorem SectionParts.read_name (name : NameText) :
    SectionParts.read false .plain (spaced [name.val]) = { name := some name.val } := by
  have hstart : Text.trimStart (spaced [name.val]) = name.val := by
    simpa using trimStart_spaced [] [] (isPart_name name).1 (isPart_name name).2.unpadded
  have hname : readName .plain (name.val ++ []) = some { name := some name.val, body := [] } :=
    readName_of_isName (by decide) name.2 (by simp)
  rw [List.append_nil, ← hstart] at hname
  rw [SectionParts.read_untyped hname, hstart]

/-- Words behind blanks are read back. -/
theorem words_spaced (names : List WordText) :
    Text.words (Text.trimStart (spaced (names.map Subtype.val))) = names.map Subtype.val := by
  have hparts : ∀ word ∈ names.map Subtype.val, IsPart word := fun word hword =>
    TagLine.isPart_of_mem_parts (l := .mixins names) hword
  rw [trimStart_spaced_eq_joinWith fun word hword => ⟨(hparts word hword).1,
    (hparts word hword).2.unpadded⟩]
  refine Text.words_joinWith fun word hword => ?_
  obtain ⟨word, -, rfl⟩ := List.mem_map.1 hword
  exact word.2

namespace TagLine

/-- The section of a tag line states its fact, and nothing is wrong with it. -/
theorem read_section (l : TagLine) (number : Nat) (kind : Kind) (claimed : Bool) :
    (Section.ofLines (l.opening number) []).read kind claimed = { fact := l.fact number } := by
  have htext : (Section.ofLines (l.opening number) []).text = Text.trimStart (spaced l.parts) := by
    simp [Section.ofLines, opening]
  cases l with
  | parent name =>
    have hparts := SectionParts.read_name name
    simp [Section.read, Section.ofLines, opening, tag, fact, parts, hparts]
  | mixins names =>
    have hbreak : ∀ c ∈ Text.trimStart (spaced (names.map Subtype.val)),
        decide (c ≠ '\n') = true := fun c hc => by
      have hin : c ∈ spaced (names.map Subtype.val) :=
        (List.dropWhile_sublist isBlank).mem hc
      have hparts : ∀ p ∈ names.map Subtype.val, '\n' ∉ p := fun p hp =>
        (isPart_of_mem_parts (l := .mixins names) hp).2.unbroken
      simpa using fun heq : c = '\n' => unbroken_spaced hparts (heq ▸ hin)
    have hline := List.takeWhile_eq_self_iff.2 hbreak
    have hrest := List.dropWhile_eq_nil_iff.2 hbreak
    rw [Section.read, htext]
    simp only [Section.ofLines, opening, tag, fact, parts, hline, hrest, words_spaced]
  | singleton => rfl
  | hidden => rfl
  | param p =>
    have hparts := p.read_parts
    simp [Section.read, Section.readParam, Section.ofLines, opening, tag, fact, hparts,
      ParamSpelling.node]
  | returns r =>
    have hparts := r.read_parts
    simp [Section.read, Section.ofLines, opening, tag, fact, hparts, ReturnsSpelling.value]

end TagLine

end ApiDocs
