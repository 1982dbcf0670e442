import ApiDocs.Proofs.Comment.Parts
import ApiDocs.Proofs.Comment.Readings
import ApiDocs.Proofs.Text.Lines
/-!
# Decorated lines

The lines of a comment may be written behind an indent, an asterisk and a space.  The comment says
the same without these marks.  The marks show in one place only: a last line without content is a
line behind an asterisk, and none without it.  Such a line adds a line break to the text of the last
section, or to the description, and nothing that is read there depends on a blank at the end.

Main definitions:

- `Section.withBreak`: a section with one more line break behind its text.
- `Reading.Alike`: readings that give the same node and the same report.
- `Comment.ofLines`: a comment taken apart, from its lines.
- `DecoratedLine`: the content of a line with the marks in front of it.

Main results:

- `SectionParts.read_append_blank`: a blank behind the text of a section is in none of its parts.
- `Section.alike_read_withBreak`: a line break behind the text of a section shows in no reading.
- `node_ofLines_append_empty`: an empty line at the end of a comment changes nothing.
- `ofComment_decorated`: a comment says the same with and without the marks.
-/

namespace ApiDocs

/-! ### Blanks at the end of a text -/

namespace Text

variable {c : Char}

/-- A blank is none of the characters that are not. -/
theorem ne_of_isBlank {d : Char} (hc : isBlank c = true) (hd : isBlank d = false) : c ≠ d := by
  rintro rfl
  exact Bool.false_ne_true (hd.symm.trans hc)

/-- A blank at the end is trimmed away. -/
theorem trimEnd_append_blank (hc : isBlank c = true) (s : Text) :
    trimEnd (s ++ [c]) = trimEnd s := by
  simp [trimEnd, hc]

/-- A blank behind a text stays there unless nothing else does. -/
theorem trimStart_append_blank (hc : isBlank c = true) (s : Text) :
    trimStart s = [] ∧ trimStart (s ++ [c]) = [] ∨
      trimStart s ≠ [] ∧ trimStart (s ++ [c]) = trimStart s ++ [c] := by
  unfold trimStart
  rw [List.dropWhile_append]
  cases hs : s.dropWhile isBlank with
  | nil => exact .inl ⟨rfl, by simp [hc]⟩
  | cons d t => exact .inr ⟨List.cons_ne_nil d t, rfl⟩

/-- A blank behind a text does not show in what trimming leaves. -/
theorem trim_append_blank (hc : isBlank c = true) (s : Text) : trim (s ++ [c]) = trim s := by
  rcases trimStart_append_blank hc s with ⟨hs, happend⟩ | ⟨-, happend⟩
  · rw [trim, happend, trim, hs]
  · rw [trim, happend, trimEnd_append_blank hc, ← trim]

/-- The first occurrence of a character is not behind another one. -/
theorem breakOn?_append_of_ne {a : Char} (hne : c ≠ a) (s : Text) :
    breakOn? [a] (s ++ [c])
      = (breakOn? [a] s).map fun (before, after) => (before, after ++ [c]) := by
  induction s with
  | nil => simp [breakOn?, hne.symm]
  | cons d s ih =>
    rw [List.cons_append]
    unfold breakOn?
    by_cases hd : a = d
    · simp [hd]
    · simp [hd, ih, Function.comp_def]

end Text

/-! ### The parts of a section -/

section

variable {c : Char}

/-- The braces of a type end where they do, and a blank at the end follows them. -/
theorem readBraces_append_blank (hc : isBlank c = true) (depth : Nat) (s : Text) :
    readBraces depth (s ++ [c])
      = (readBraces depth s).map fun (inner, rest) => (inner, rest ++ [c]) := by
  have hopen : c ≠ '{' := Text.ne_of_isBlank hc (by decide)
  have hclose : c ≠ '}' := Text.ne_of_isBlank hc (by decide)
  induction s generalizing depth with
  | nil => simp [readBraces, hopen, hclose]
  | cons d s ih =>
    rw [List.cons_append]
    unfold readBraces
    by_cases hd : d = '{'
    · simp [hd, ih, Function.comp_def]
    · by_cases hd' : d = '}'
      · cases depth with
        | zero => simp [hd']
        | succ depth => simp [hd', ih, Function.comp_def]
      · simp [hd, hd', ih, Function.comp_def]

/-- A plain name does not change, and its body is trimmed. -/
theorem readPlainName_append_blank (hc : isBlank c = true) (s : Text) :
    readPlainName (s ++ [c]) = readPlainName s := by
  have hword : (s ++ [c]).takeWhile (! isBlank ·) = s.takeWhile (! isBlank ·) := by
    rw [List.takeWhile_append]
    split
    · next hall => simp [hc, (List.takeWhile_prefix _).eq_of_length hall]
    · rfl
  have hle : (s.takeWhile (! isBlank ·)).length ≤ s.length := (List.takeWhile_prefix _).length_le
  simp only [readPlainName, hword, List.drop_append_of_le_length hle, Text.trim_append_blank hc]

/-- A name in brackets does not change, and its body is trimmed. -/
theorem readBracketedName_append_blank (hc : isBlank c = true) (s : Text) :
    readBracketedName (s ++ [c]) = readBracketedName s := by
  have hne : c ≠ ']' := Text.ne_of_isBlank hc (by decide)
  have hbreak := Text.breakOn?_append_of_ne hne s
  unfold readBracketedName
  change (Text.breakOn? [']'] (s ++ [c])).map _ = (Text.breakOn? [']'] s).map _
  rw [hbreak]
  simp [Function.comp_def, Text.trim_append_blank hc]

/-- In any form, a name does not see a blank at the end. -/
theorem readName_append_blank (hc : isBlank c = true) (form : NameForm) (s : Text) :
    readName form (s ++ [c]) = readName form s := by
  cases form with
  | none => simp [readName, Text.trim_append_blank hc]
  | plain => simp [readName, readPlainName_append_blank hc]
  | bracketed =>
    have hplain : ∀ t : Text, t.head? ≠ some '[' →
        readName .bracketed t = some (readPlainName t) := by
      intro t ht
      unfold readName
      split
      · contradiction
      · simp at ht
      · rfl
    by_cases hs : s.head? = some '['
    · obtain ⟨t, rfl⟩ := List.head?_eq_some_iff.1 hs
      exact readBracketedName_append_blank hc t
    · have happend : (s ++ [c]).head? ≠ some '[' := by
        cases s with
        | nil => simpa using Text.ne_of_isBlank hc (by decide : isBlank '[' = false)
        | cons d s => exact hs
      rw [hplain _ happend, hplain s hs, readPlainName_append_blank hc]

/-- What follows the type of a text has no blank at its start, so one at its end does not show. -/
theorem readName_trimStart_append_blank (hc : isBlank c = true) (form : NameForm) (s : Text) :
    readName form (Text.trimStart (s ++ [c])) = readName form (Text.trimStart s) := by
  rcases Text.trimStart_append_blank hc s with ⟨hs, happend⟩ | ⟨-, happend⟩
  · rw [happend, hs]
  · rw [happend, readName_append_blank hc]

/-- A type is found in front of the blank, or none. -/
theorem TypeReading.read_append_blank (hc : isBlank c = true) {s : Text} (hs : s ≠ []) :
    TypeReading.read (s ++ [c]) = match TypeReading.read s with
      | .found type rest => .found type (rest ++ [c])
      | other => other := by
  obtain ⟨d, s, rfl⟩ := List.exists_cons_of_ne_nil hs
  by_cases hd : d = '{'
  · subst hd
    simp only [List.cons_append, TypeReading.read, readBraces_append_blank hc]
    cases readBraces 0 s <;> rfl
  · have habsent : ∀ t : Text, TypeReading.read (d :: t) = .absent := fun t =>
      TypeReading.read_absent (by simpa using hd)
    rw [List.cons_append, habsent, habsent]

/-- A blank behind the text of a section is in none of its parts. -/
theorem SectionParts.read_append_blank (hc : isBlank c = true) (hasType : Bool) (form : NameForm)
    (s : Text) : SectionParts.read hasType form (s ++ [c]) = SectionParts.read hasType form s := by
  rcases Text.trimStart_append_blank hc s with ⟨hs, happend⟩ | ⟨hs, happend⟩
  · simp only [SectionParts.read, happend, hs]
  · have hname := readName_trimStart_append_blank hc form (Text.trimStart s)
    cases hasType with
    | false => simp [SectionParts.read, happend, hname, Text.trim_append_blank hc]
    | true =>
      have htype := TypeReading.read_append_blank hc hs
      cases hread : TypeReading.read (Text.trimStart s) with
      | absent =>
        simp [SectionParts.read, happend, htype, hread, hname, Text.trim_append_blank hc]
      | found type rest =>
        simp [SectionParts.read, happend, htype, hread, readName_trimStart_append_blank hc,
          Text.trim_append_blank hc]
      | unclosed => simp [SectionParts.read, happend, htype, hread, Text.trim_append_blank hc]

end

/-! ### The reading of a section -/

/-- Two readings give one fact, one defect, and prose that differs in blanks at its ends alone. -/
structure Reading.Alike (one other : Reading) : Prop where
  fact : one.fact = other.fact
  prose : Text.trim one.prose = Text.trim other.prose
  defect : one.defect = other.defect

/-- The section with one more line break behind its text. -/
def Section.withBreak (s : Section) : Section :=
  { s with text := s.text ++ ['\n'] }

/-- The first line of a section stays what it is. -/
theorem Section.takeWhile_withBreak (s : Section) :
    s.withBreak.text.takeWhile (· ≠ '\n') = s.text.takeWhile (· ≠ '\n') := by
  rw [Section.withBreak, List.takeWhile_append]
  split
  · next hall =>
    rw [(List.takeWhile_prefix _).eq_of_length hall]
    exact List.append_nil _
  · rfl

/-- The lines below it are trimmed to the same text. -/
theorem Section.trim_dropWhile_withBreak (s : Section) :
    Text.trim (s.withBreak.text.dropWhile (· ≠ '\n'))
      = Text.trim (s.text.dropWhile (· ≠ '\n')) := by
  rw [Section.withBreak, List.dropWhile_append]
  split
  · next hnone =>
    rw [List.isEmpty_iff.1 hnone]
    rfl
  · exact Text.trim_append_blank (by decide) _

/-- A line break behind the text is trimmed away. -/
theorem Section.trim_withBreak (s : Section) :
    Text.trim s.withBreak.text = Text.trim s.text :=
  Text.trim_append_blank (by decide) s.text

/-- The parts of a section are read in front of the line break. -/
theorem Section.parts_withBreak (s : Section) (hasType : Bool) (form : NameForm) :
    SectionParts.read hasType form s.withBreak.text = SectionParts.read hasType form s.text :=
  SectionParts.read_append_blank (by decide) hasType form s.text

/-- A section that decides is read alike with a line break behind its text. -/
theorem Section.alike_readSubject_withBreak (subject : Kind) (claimed : Bool) (s : Section) :
    Reading.Alike (s.withBreak.readSubject subject claimed) (s.readSubject subject claimed) := by
  cases claimed with
  | true =>
    refine ⟨rfl, ?_, rfl⟩
    have hprose := Text.trim_append_blank (c := '\n') (by decide)
      ('@' :: s.spelling ++ ' ' :: s.text)
    rwa [List.append_assoc] at hprose
  | false =>
    rw [readSubject_unclaimed, readSubject_unclaimed, Section.parts_withBreak]
    exact ⟨rfl, rfl, rfl⟩

/-- A line break behind the text of a section shows in no fact and no defect. -/
theorem Section.alike_read_withBreak (kind : Kind) (claimed : Bool) (s : Section) :
    Reading.Alike (s.withBreak.read kind claimed) (s.read kind claimed) := by
  have htag : s.withBreak.tag = s.tag := rfl
  unfold Section.read
  rw [htag]
  cases s.tag with
  | cls => exact s.alike_readSubject_withBreak .cls claimed
  | member k => exact s.alike_readSubject_withBreak (.member k) claimed
  | constructor => exact ⟨rfl, s.trim_withBreak, rfl⟩
  | type =>
    simp only [Section.readTypeTag, s.parts_withBreak]
    exact ⟨rfl, rfl, rfl⟩
  | param =>
    simp only [Section.readParam, s.parts_withBreak]
    exact ⟨rfl, rfl, rfl⟩
  | returns =>
    simp only [s.parts_withBreak]
    exact ⟨rfl, rfl, rfl⟩
  | parent =>
    simp only [s.parts_withBreak]
    exact ⟨rfl, rfl, rfl⟩
  | mixins => exact ⟨by rw [s.takeWhile_withBreak], s.trim_dropWhile_withBreak, rfl⟩
  | singleton => exact ⟨rfl, s.trim_withBreak, rfl⟩
  | hidden => exact ⟨rfl, s.trim_withBreak, rfl⟩

/-! ### An empty last line -/

/-- A comment taken apart, from its lines. -/
def Comment.ofLines (lines : List CommentLine) : Comment :=
  let parts := cut CommentLine.opening? lines
  { description := Text.trim (textOfLines parts.1)
    sections := parts.2.map fun (opening, rest) => Section.ofLines opening rest
    unknown := lines.filterMap CommentLine.unknownTag? }

/-- A comment is taken apart line by line. -/
theorem read_eq_ofLines (line : Nat) (text : Text) :
    Comment.read line text = Comment.ofLines (commentLines line text) :=
  rfl

/-- One more entry without a mark goes to the last part, or stands before the first. -/
theorem cut_append_singleton {α β : Type} {mark : α → Option β} {a : α} (h : mark a = none)
    (l : List α) :
    (cut mark l).2 = [] ∧ cut mark (l ++ [a]) = ((cut mark l).1 ++ [a], []) ∨
      ∃ parts b below, (cut mark l).2 = parts ++ [(b, below)] ∧
        cut mark (l ++ [a]) = ((cut mark l).1, parts ++ [(b, below ++ [a])]) := by
  induction l with
  | nil => exact .inl ⟨rfl, by simp [cut, h]⟩
  | cons d l ih =>
    cases hd : mark d with
    | some mine =>
      rcases ih with ⟨hnone, happend⟩ | ⟨parts, b, below, hparts, happend⟩
      · exact .inr ⟨[], mine, (cut mark l).1, by simp [cut, hd, hnone], by simp [cut, hd, happend]⟩
      · exact .inr ⟨(mine, (cut mark l).1) :: parts, b, below, by simp [cut, hd, hparts],
          by simp [cut, hd, happend]⟩
    | none =>
      rcases ih with ⟨hnone, happend⟩ | ⟨parts, b, below, hparts, happend⟩
      · exact .inl ⟨by simp [cut, hd, hnone], by simp [cut, hd, happend]⟩
      · exact .inr ⟨parts, b, below, by simp [cut, hd, hparts], by simp [cut, hd, happend]⟩

variable {kind : Kind} {line : Nat} {earlier : List Section} {s : Section}

/-- Only the fact, the report and the trimmed prose of a reading go into the node. -/
theorem nodeOf_append_alike {comment : Comment} {readings : List (Section × Reading)}
    {t : Section} {one other : Reading} (h : Reading.Alike one other)
    (hreport : s.report one = t.report other) :
    comment.nodeOf kind line (readings ++ [(s, one)])
      = comment.nodeOf kind line (readings ++ [(t, other)]) := by
  have hdescribe : ∀ front, describe (front :: (readings.map (·.2.prose) ++ [one.prose]))
      = describe (front :: (readings.map (·.2.prose) ++ [other.prose])) := fun front =>
    describe_congr (by simp [h.prose])
  simp only [Comment.nodeOf, List.map_append, List.map_cons, List.map_nil, h.fact, hdescribe,
    List.filterMap_append, List.filterMap_cons, List.filterMap_nil, hreport]

/-- A line break behind the last section changes nothing. -/
theorem node_withBreak (description : Text) (unknown : List Report) :
    (Comment.mk description (earlier ++ [s.withBreak]) unknown).node line
      = (Comment.mk description (earlier ++ [s]) unknown).node line := by
  have hkind : kindOf (earlier ++ [s.withBreak]) = kindOf (earlier ++ [s]) := by
    simp [kindOf, List.findSome?_append, Section.withBreak]
  have halike := Section.alike_read_withBreak (kindOf (earlier ++ [s]))
    (earlier.any (·.claims (kindOf (earlier ++ [s])))) s
  unfold Comment.node
  simp only [hkind, readSections_append, readSections, Bool.false_or]
  exact nodeOf_append_alike halike (by rw [Section.report, halike.defect]; rfl)

/-- An empty line at the end of some lines is trimmed away. -/
theorem trim_textOfLines_append_empty (lines : List CommentLine) (number : Nat) :
    Text.trim (textOfLines (lines ++ [⟨number, []⟩])) = Text.trim (textOfLines lines) := by
  cases lines with
  | nil => rfl
  | cons l lines =>
    have hbreak : textOfLines (l :: lines ++ [⟨number, []⟩])
        = textOfLines (l :: lines) ++ ['\n'] := by
      unfold textOfLines
      change Text.joinWith ['\n'] _ = Text.joinWith ['\n'] _ ++ ['\n']
      simp [Text.joinWith_cons]
    rw [hbreak, Text.trim_append_blank (by decide)]

/-- An empty line at the end of a comment changes nothing. -/
theorem node_ofLines_append_empty (lines : List CommentLine) (number : Nat) :
    (Comment.ofLines (lines ++ [⟨number, []⟩])).node line = (Comment.ofLines lines).node line := by
  have hopening : CommentLine.opening? ⟨number, []⟩ = none := rfl
  have hunknown : List.filterMap CommentLine.unknownTag? (lines ++ [⟨number, []⟩])
      = lines.filterMap CommentLine.unknownTag? := by
    rw [List.filterMap_append]
    exact List.append_nil _
  unfold Comment.ofLines
  rw [hunknown]
  rcases cut_append_singleton hopening lines with
    ⟨hnone, happend⟩ | ⟨parts, opening, below, hparts, happend⟩
  · simp only [happend, hnone, trim_textOfLines_append_empty]
  · have hlast : Section.ofLines opening (below ++ [⟨number, []⟩])
        = (Section.ofLines opening below).withBreak := by
      simp [Section.ofLines, Section.withBreak]
    simp only [happend, hparts, List.map_append, List.map_cons, List.map_nil, hlast]
    exact node_withBreak _ _

/-! ### Decorated lines -/

/-- A line of a comment: its content, and the marks that it is written behind. -/
structure DecoratedLine where
  indent : Text
  /-- Whether a space follows the asterisk. -/
  isSpaced : Bool
  content : Text
  indent_blank : ∀ c ∈ indent, isBlank c = true ∧ c ≠ '\n'
  content_unbroken : '\n' ∉ content
  content_start : ∀ c, content.head? = some c → isBlank c = false ∧ c ≠ '*'

namespace DecoratedLine

/-- What stands in front of the content. -/
def marks (l : DecoratedLine) : Text :=
  l.indent ++ if l.isSpaced then ['*', ' '] else ['*']

/-- The line as it is written. -/
def text (l : DecoratedLine) : Text :=
  l.marks ++ l.content

variable (l : DecoratedLine)

/-- Without its marks, a decorated line has its content. -/
theorem undecorate_text : undecorate l.text = l.content := by
  have hstart : Text.trimStart l.text
      = '*' :: ((if l.isSpaced then [' '] else []) ++ l.content) := by
    rw [text, marks, List.append_assoc,
      Text.trimStart_append_of_blank fun c hc => (l.indent_blank c hc).1]
    cases l.isSpaced <;> exact Text.trimStart_eq_self fun c hc => by cases hc; decide
  unfold undecorate
  rw [hstart]
  cases l.isSpaced with
  | true => rfl
  | false =>
    split
    · next rest heq =>
      have hcontent : l.content = ' ' :: rest := by simpa using heq
      exact absurd (l.content_start ' ' (by rw [hcontent]; rfl)).1 (by decide)
    · next rest _ heq => simpa using heq.symm
    · next hno => exact absurd rfl (hno _)

example : ∃ l : DecoratedLine,
    l.text = "\t * @class Panel".toList ∧ l.content = "@class Panel".toList :=
  ⟨{ indent := "\t ".toList
     isSpaced := true
     content := "@class Panel".toList
     indent_blank := List.forall_mem_cons.2 ⟨by decide, List.forall_mem_singleton.2 (by decide)⟩
     content_unbroken := by decide
     content_start := by rintro c ⟨⟩; decide }, by decide, rfl⟩

/-- The content of a decorated line has no marks of its own. -/
theorem undecorate_content : undecorate l.content = l.content := by
  have hstart : Text.trimStart l.content = l.content :=
    Text.trimStart_eq_self fun c hc => (l.content_start c hc).1
  unfold undecorate
  rw [hstart]
  split
  · next heq => exact absurd rfl (l.content_start '*' (by rw [heq]; rfl)).2
  · next heq => exact absurd rfl (l.content_start '*' (by rw [heq]; rfl)).2
  · rfl

/-- A decorated line is one line. -/
theorem text_unbroken : '\n' ∉ l.text := by
  intro hmem
  rcases List.mem_append.1 hmem with hmarks | hcontent
  · rcases List.mem_append.1 hmarks with hindent | hmark
    · exact (l.indent_blank '\n' hindent).2 rfl
    · cases hspace : l.isSpaced <;> simp [hspace] at hmark
  · exact l.content_unbroken hcontent

/-- The marks do not end in a carriage return. -/
theorem getLast?_marks : ∃ c, l.marks.getLast? = some c ∧ c ≠ '\r' := by
  unfold marks
  cases l.isSpaced
  · exact ⟨'*', by simp, by decide⟩
  · exact ⟨' ', by simp, by decide⟩

/-- A decorated line is not empty. -/
theorem text_ne_nil : l.text ≠ [] := by
  obtain ⟨c, hlast, -⟩ := l.getLast?_marks
  refine List.append_ne_nil_of_left_ne_nil ?_ _
  rintro hnil
  rw [hnil] at hlast
  cases hlast

/-- The line without the carriage return at the end of its content. -/
def dropReturn : DecoratedLine where
  indent := l.indent
  isSpaced := l.isSpaced
  content := Text.lines.dropReturn l.content
  indent_blank := l.indent_blank
  content_unbroken h := l.content_unbroken ((Text.prefix_dropReturn l.content).mem h)
  content_start c hc := by
    obtain ⟨rest, hrest⟩ := Text.prefix_dropReturn l.content
    refine l.content_start c ?_
    rw [← hrest, List.head?_append, hc]
    rfl

/-- A carriage return at its end belongs to the content. -/
theorem text_dropReturn : l.dropReturn.text = Text.lines.dropReturn l.text := by
  have hmarks : l.dropReturn.text = l.marks ++ Text.lines.dropReturn l.content := rfl
  rw [hmarks, text]
  by_cases hcontent : l.content = []
  · obtain ⟨c, hlast, hne⟩ := l.getLast?_marks
    have hend : l.marks.getLast? ≠ some '\r' := by
      rw [hlast]
      exact fun h => hne (Option.some.inj h)
    rw [hcontent, List.append_nil]
    exact (List.append_nil _).trans (if_neg hend).symm
  · unfold Text.lines.dropReturn
    rw [List.getLast?_append_of_ne_nil _ hcontent, List.dropLast_append_of_ne_nil hcontent]
    split <;> rfl

end DecoratedLine

/-- The marks make a line of an empty last content, and otherwise do not show in the lines. -/
theorem undecorate_close (lines : List DecoratedLine) :
    (Text.lines.close (lines.map DecoratedLine.text)).map undecorate
        = (Text.lines.close (lines.map (·.content))).map undecorate ∨
      (Text.lines.close (lines.map DecoratedLine.text)).map undecorate
        = (Text.lines.close (lines.map (·.content))).map undecorate ++ [[]] := by
  induction lines with
  | nil => exact .inl rfl
  | cons l lines ih =>
    cases lines with
    | nil =>
      by_cases hcontent : l.content = []
      · refine .inr ?_
        simp [Text.lines.close, l.text_ne_nil, hcontent, l.undecorate_text]
      · refine .inl ?_
        simp [Text.lines.close, l.text_ne_nil, hcontent, l.undecorate_text, l.undecorate_content]
    | cons next lines =>
      have hfirst : undecorate (Text.lines.dropReturn l.text)
          = undecorate (Text.lines.dropReturn l.content) := by
        rw [← l.text_dropReturn, l.dropReturn.undecorate_text]
        exact l.dropReturn.undecorate_content.symm
      simp only [List.map_cons, Text.lines.close, hfirst, List.cons_append, List.cons.injEq,
        true_and]
      exact ih

/-- The lines of pieces with line breaks between them. -/
theorem lines_joinWith_eq_close {pieces : List Text} (h : ∀ p ∈ pieces, '\n' ∉ p) :
    Text.lines (Text.joinWith "\n".toList pieces) = Text.lines.close pieces := by
  cases pieces with
  | nil => rfl
  | cons first rest =>
    exact congrArg Text.lines.close
      (List.splitOn_intercalate '\n' h (List.cons_ne_nil first rest))

/-- The lines of a comment are the undecorated lines of its text, numbered. -/
theorem commentLines_eq (line : Nat) (text : Text) :
    commentLines line text = (((Text.lines text).map undecorate).zipIdx line).map
      fun (content, number) => ⟨number, content⟩ := by
  rw [commentLines, List.zipIdx_map, List.map_map]
  rfl

/-- A line is there as it is written, or without a carriage return that belongs to the break. -/
theorem getElem?_close_decorated {lines : List DecoratedLine} {i : Nat} {l : DecoratedLine}
    (h : lines[i]? = some l) :
    (Text.lines.close (lines.map DecoratedLine.text))[i]? = some l.text ∨
      (Text.lines.close (lines.map DecoratedLine.text))[i]? = some l.dropReturn.text := by
  induction lines generalizing i with
  | nil => cases h
  | cons first lines ih =>
    cases lines with
    | nil =>
      rw [List.getElem?_singleton] at h
      obtain ⟨rfl, rfl⟩ : i = 0 ∧ first = l := by simpa using h
      exact .inl (by simp [Text.lines.close, first.text_ne_nil])
    | cons next lines =>
      cases i with
      | zero =>
        obtain rfl : first = l := by simpa using h
        exact .inr (by simp [Text.lines.close, first.text_dropReturn])
      | succ i => exact ih h

/-- Each line is read as its content; a carriage return at its end may belong to the break. -/
theorem getElem?_commentLines_decorated (line : Nat) {lines : List DecoratedLine} {i : Nat}
    {l : DecoratedLine} (h : lines[i]? = some l) :
    let text := Text.joinWith "\n".toList (lines.map DecoratedLine.text)
    (commentLines line text)[i]? = some ⟨line + i, l.content⟩ ∨
      (commentLines line text)[i]? = some ⟨line + i, l.dropReturn.content⟩ := by
  have htext : ∀ p ∈ lines.map DecoratedLine.text, '\n' ∉ p :=
    List.forall_mem_map.2 fun l _ => l.text_unbroken
  simp only [commentLines_eq, lines_joinWith_eq_close htext, List.getElem?_map,
    List.getElem?_zipIdx]
  rcases getElem?_close_decorated h with hclose | hclose
  · exact .inl (by simp [hclose, l.undecorate_text])
  · exact .inr (by simp [hclose, l.dropReturn.undecorate_text])

/-- A comment says the same with and without the marks, and its lines are the contents. -/
theorem ofComment_decorated (line : Nat) (lines : List DecoratedLine) :
    let text := Text.joinWith "\n".toList (lines.map DecoratedLine.text)
    DocNode.ofComment line text
        = DocNode.ofComment line (Text.joinWith "\n".toList (lines.map (·.content))) ∧
      ∀ (i : Nat) (l : DecoratedLine), lines[i]? = some l →
        (commentLines line text)[i]? = some ⟨line + i, l.content⟩ ∨
          (commentLines line text)[i]? = some ⟨line + i, l.dropReturn.content⟩ := by
  intro text
  refine ⟨?_, fun i l => getElem?_commentLines_decorated line⟩
  have htext : ∀ p ∈ lines.map DecoratedLine.text, '\n' ∉ p :=
    List.forall_mem_map.2 fun l _ => l.text_unbroken
  have hcontent : ∀ p ∈ lines.map (·.content), '\n' ∉ p :=
    List.forall_mem_map.2 fun l _ => l.content_unbroken
  simp only [text, ofComment_eq_node, read_eq_ofLines, commentLines_eq,
    lines_joinWith_eq_close htext, lines_joinWith_eq_close hcontent]
  rcases undecorate_close lines with hsame | hlonger
  · rw [hsame]
  · rw [hlonger, List.zipIdx_append, List.map_append]
    exact node_ofLines_append_empty _ _

end ApiDocs
