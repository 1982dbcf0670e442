import ApiDocs.Comment.Node
import ApiDocs.Proofs.Text.Lines
import ApiDocs.Proofs.Text.Trimming
/-!
# Where the findings of a comment come from

Each section of a comment begins with a tag line, and a report or a parameter bears the number of
the line whose tag it is about.  The line itself, without its decoration, begins with that tag.

Main definitions:

- `Report.tagPlace?`: the tag that a report is about, and its line.
- `CommentLine.HasTag`: the word that a comment line has after `@`.

Main results:

- `exists_read_of_mem_readSections`: a reading is that of its section.
- `exists_line_of_mem_reports`, `exists_line_of_mem_params`: the tag line of a report and of a
  parameter.
- `hasOnLine_of_mem_commentLines`: where the content of a comment line stands in a source.
-/

namespace ApiDocs

/-- The tag that a report is about, and the line on which it stands. -/
def Report.tagPlace? : Report → Option (Text × Nat)
  | .malformedTag tag line _ => some (tag, line)
  | .unknownTag tag line => some (tag, line)
  | .orphan .. => none
  | .missingParent .. => none

/-! ### Tag lines -/

/-- The word that a line has after `@`. -/
def CommentLine.HasTag (l : CommentLine) (word : Text) : Prop :=
  ∃ rest, l.tagWord? = some (word, rest)

variable {l : CommentLine} {line : Nat} {text word : Text}

/-- A tag line holds its tag. -/
theorem CommentLine.HasTag.infix_content (h : l.HasTag word) : '@' :: word <:+: l.content := by
  obtain ⟨rest, htag⟩ := h
  have htrimmed : Text.trim l.content = '@' :: word ++ rest := eq_of_readTagLine? htag
  have hstart : '@' :: word <:+: Text.trim l.content := by
    rw [htrimmed]
    exact (List.prefix_append ('@' :: word) rest).isInfix
  exact hstart.trans (Text.infix_trim l.content)

/-- Taking the marks off leaves an end of the line. -/
theorem undecorate_suffix (raw : Text) : undecorate raw <:+ raw := by
  have hsuffix := Text.suffix_trimStart raw
  unfold undecorate
  split
  next rest heq =>
    rw [heq] at hsuffix
    exact ((List.suffix_cons ' ' rest).trans (List.suffix_cons '*' (' ' :: rest))).trans hsuffix
  next rest _ heq =>
    rw [heq] at hsuffix
    exact (List.suffix_cons '*' rest).trans hsuffix
  next => exact hsuffix

/-- The content of a comment line is part of the piece of the comment with its number. -/
theorem exists_field_of_mem_commentLines (h : l ∈ commentLines line text) :
    ∃ i piece, l.number = line + i ∧ (Text.fields '\n' text)[i]? = some piece ∧
      l.content <:+: piece := by
  obtain ⟨⟨raw, number⟩, hmem, rfl⟩ := List.mem_map.1 h
  obtain ⟨hlow, hhigh, hraw⟩ := List.mem_zipIdx hmem
  have hline : (Text.lines text)[number - line]? = some raw := by
    rw [hraw]
    exact List.getElem?_eq_getElem _
  obtain ⟨piece, hpiece, hprefix⟩ := Text.prefix_field_of_lines hline
  refine ⟨number - line, piece, ?_, hpiece, ?_⟩
  · exact (Nat.add_sub_of_le hlow).symm
  · exact (undecorate_suffix raw).isInfix.trans hprefix.isInfix

/-- What stands in a comment line stands on the line of the source with its number, when the
comment opens behind `before`. -/
theorem hasOnLine_of_mem_commentLines {before after t : Text}
    (h : l ∈ commentLines (1 + Text.lineBreaks before) text) (ht : t <:+: l.content) :
    Text.HasOnLine (before ++ (text ++ after)) l.number t := by
  obtain ⟨i, piece, hnumber, hpiece, hcontent⟩ := exists_field_of_mem_commentLines h
  rw [hnumber]
  exact Text.hasOnLine_of_part before text after hpiece (ht.trans hcontent)

/-- A section bears the tag of some line, with the number of the line. -/
theorem exists_line_of_mem_sections {s : Section} (h : s ∈ (Comment.read line text).sections) :
    ∃ l ∈ commentLines line text, l.HasTag s.spelling ∧ l.number = s.line ∧
      Tag.ofWord? s.spelling = some s.tag := by
  obtain ⟨⟨opening, body⟩, hpart, rfl⟩ := List.mem_map.1 h
  have hopening : opening ∈ (commentLines line text).filterMap CommentLine.opening? := by
    rw [← map_fst_cut]
    exact List.mem_map_of_mem hpart
  obtain ⟨l, hl, hopens⟩ := List.mem_filterMap.1 hopening
  obtain ⟨⟨word, rest⟩, htag, hword⟩ := Option.bind_eq_some_iff.1 hopens
  obtain ⟨tag, htagged, rfl⟩ := Option.map_eq_some_iff.1 hword
  exact ⟨l, hl, ⟨rest, htag⟩, rfl, htagged⟩

/-! ### Readings -/

/-- What is read for the sections of a comment is the reading of one of them. -/
theorem exists_read_of_mem_readSections {kind : Kind} {claimed : Bool} {sections : List Section}
    {found : Section × Reading} (h : found ∈ readSections kind claimed sections) :
    found.1 ∈ sections ∧ ∃ before, found.2 = found.1.read kind before := by
  induction sections generalizing claimed with
  | nil => cases h
  | cons s sections ih =>
    rcases List.mem_cons.1 h with rfl | hlater
    · exact ⟨List.mem_cons_self, claimed, rfl⟩
    · obtain ⟨hmem, hread⟩ := ih hlater
      exact ⟨List.mem_cons_of_mem s hmem, hread⟩

/-- A report on a comment is about the tag of one of its lines, and names that line. -/
theorem exists_line_of_mem_reports {r : Report} (h : r ∈ (DocNode.ofComment line text).2) :
    ∃ l ∈ commentLines line text, ∃ word, l.HasTag word ∧
      r.tagPlace? = some (word, l.number) := by
  rcases List.mem_append.1 h with hunknown | hdefect
  · obtain ⟨l, hl, hreport⟩ := List.mem_filterMap.1 hunknown
    obtain ⟨⟨word, rest⟩, htag, hword⟩ := Option.bind_eq_some_iff.1 hreport
    refine ⟨l, hl, word, ⟨rest, htag⟩, ?_⟩
    dsimp only at hword
    by_cases hnone : (Tag.ofWord? word).isNone
    · rw [if_pos hnone, Option.some.injEq] at hword
      rw [← hword]
      rfl
    · rw [if_neg hnone] at hword
      cases hword
  · obtain ⟨⟨s, reading⟩, hfound, hreport⟩ := List.mem_filterMap.1 hdefect
    obtain ⟨hs, -⟩ := exists_read_of_mem_readSections hfound
    obtain ⟨l, hl, htag, hnumber, -⟩ := exists_line_of_mem_sections hs
    obtain ⟨reason, -, rfl⟩ := Option.map_eq_some_iff.1 hreport
    refine ⟨l, hl, s.spelling, htag, ?_⟩
    rw [hnumber]
    rfl

/-- The parameters of a node are those that it had or learned. -/
theorem mem_params_of_foldl_learn {facts : List Fact} {node p : DocNode}
    (h : p ∈ (facts.foldl DocNode.learn node).params) : p ∈ node.params ∨ .param p ∈ facts := by
  induction facts generalizing node with
  | nil => exact .inl h
  | cons fact facts ih =>
    rcases ih h with hnode | hlater
    · cases fact with
      | param q =>
        rcases List.mem_append.1 hnode with hnode | hlearned
        · exact .inl hnode
        · rw [List.mem_singleton.1 hlearned]
          exact .inr List.mem_cons_self
      | _ => exact .inl hnode
    · exact .inr (List.mem_cons_of_mem fact hlater)

theorem readSubject_fact_ne_param (subject : Kind) (claimed : Bool) (s : Section) (p : DocNode) :
    (s.readSubject subject claimed).fact ≠ .param p := by
  unfold Section.readSubject
  cases claimed <;> simp

/-- Only a parameter tag gives a parameter, and it gives it the line of the tag. -/
theorem tag_eq_param_of_read {kind : Kind} {claimed : Bool} {s : Section} {p : DocNode}
    (h : (s.read kind claimed).fact = .param p) : s.tag = .param ∧ p.line = s.line := by
  unfold Section.read at h
  split at h
  next => exact absurd h (readSubject_fact_ne_param _ _ s p)
  next => exact absurd h (readSubject_fact_ne_param _ _ s p)
  next =>
    dsimp only at h
    split at h
    · cases h
    · cases h
  next => cases h
  next htag =>
    cases h
    exact ⟨htag, rfl⟩
  all_goals cases h

/-- Only one word is the tag of a parameter. -/
theorem eq_param_of_ofWord? (h : Tag.ofWord? word = some .param) : word = "param".toList := by
  obtain ⟨before, after, hwords, -⟩ := List.lookup_eq_some_iff.1 h
  have hmem : (word, Tag.param) ∈ Tag.words := by
    rw [hwords]
    exact List.mem_append_right _ List.mem_cons_self
  simpa [Tag.words] using hmem

/-- A parameter of a comment has the line of a parameter tag. -/
theorem exists_line_of_mem_params {p : DocNode} (h : p ∈ (DocNode.ofComment line text).1.params) :
    ∃ l ∈ commentLines line text, l.HasTag "param".toList ∧ l.number = p.line := by
  rcases mem_params_of_foldl_learn h with hnone | hlearned
  · cases hnone
  · obtain ⟨found, hfound, hfact⟩ := List.mem_map.1 hlearned
    obtain ⟨hs, claimed, hread⟩ := exists_read_of_mem_readSections hfound
    rw [hread] at hfact
    obtain ⟨htag, hline⟩ := tag_eq_param_of_read hfact
    obtain ⟨l, hl, hspelling, hnumber, hword⟩ := exists_line_of_mem_sections hs
    rw [htag] at hword
    rw [eq_param_of_ofWord? hword] at hspelling
    exact ⟨l, hl, hspelling, hnumber.trans hline.symm⟩

end ApiDocs
