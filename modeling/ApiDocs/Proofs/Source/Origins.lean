import Mathlib
import ApiDocs.Source.Unit
import ApiDocs.Proofs.Comment.Origins
import ApiDocs.Proofs.Source.Lossless
/-!
# Where the documentation of a unit points to

Three counts of lines meet in the documentation of a unit: a doc block counts the line breaks
before it, a comment counts its own lines from there on, and a reader of the source counts the
lines of the file.  They agree, so that a report or a parameter leads to the line of its tag and
a node to the line on which its comment opens.

Main definitions:

- `DocNode.PointsInto`: the node of a doc comment that stands behind some text of a source.
- `UnitDocs.PointsInto`: the documentation of a unit points into its source.

Main results:

- `exists_block_of_doc`, `exists_doc_of_mem_docBlocks`: the doc blocks of a source and its doc
  comments.
- `hasOnLine_of_mem_blocks`: what stands on a line of a comment stands on a line of the source.
- `unitDocs_pointsInto`: the documentation of each unit points into its source.
-/

namespace ApiDocs

/-- How the node of a doc comment points into the source where the comment stands behind
`before`: its line is the one on which the comment opens, and the line of each parameter that
a tag of the comment gives has a parameter tag.  Without such tags, parameters come from code. -/
structure DocNode.PointsInto (node : DocNode) (source before comment : Text) : Prop where
  line_eq : node.line = 1 + Text.lineBreaks before
  opens : source.HasOnLine node.line "/**".toList
  params : ∀ p ∈ (DocNode.ofComment node.line comment).1.params,
    source.HasOnLine p.line "@param".toList
  params_eq : (DocNode.ofComment node.line comment).1.params ≠ [] →
    node.params = (DocNode.ofComment node.line comment).1.params

/-- How the documentation of a unit points into its source: a report is about a tag that stands
on the line it names, and each doc comment has its node, the one with as many nodes before it
as there are doc comments before it. -/
structure UnitDocs.PointsInto (docs : UnitDocs) (source : Text) : Prop where
  reports : ∀ r ∈ docs.reports, ∃ tag line, r.tagPlace? = some (tag, line) ∧
    source.HasOnLine line ('@' :: tag)
  count : docs.nodes.length = ((scan source).filterMap Lexeme.docMark?).length
  nodes : ∀ before comment after, scan source = before ++ .doc comment :: after →
    ∃ node, docs.nodes[(before.filterMap Lexeme.docMark?).length]? = some node ∧
      node.PointsInto source (spell before) comment

/-! ### Doc blocks and doc comments -/

/-- The block of a doc comment stands behind the blocks of those before it, on the line of the
comment. -/
theorem Placed.getElem?_append {line : Nat} {before after : List (DocMark × List Lexeme)}
    {comment : Text} {code : List Lexeme} {blocks : List DocBlock}
    (h : Placed line (before ++ (.closed comment, code) :: after) blocks) :
    ∃ b, blocks[before.length]? = some b ∧ b.comment = comment ∧
      b.line = line
        + Text.lineBreaks (spell (before.flatMap fun part => part.1.lexeme :: part.2)) := by
  induction before generalizing line blocks with
  | nil =>
    cases h
    exact ⟨_, rfl, rfl, rfl⟩
  | cons part before ih =>
    cases h with
    | @cons _ body lexemes _ later placed =>
      obtain ⟨b, hb, hcomment, hline⟩ := ih placed
      refine ⟨b, hb, hcomment, ?_⟩
      have hspell : spell (((DocMark.closed body, lexemes) :: before).flatMap
            fun part => part.1.lexeme :: part.2)
          = ("/**".toList ++ body ++ "*/".toList) ++ spell lexemes
            ++ spell (before.flatMap fun part => part.1.lexeme :: part.2) := by
        simp [spell, DocMark.lexeme, Lexeme.text]
      rw [hline, hspell, Text.lineBreaks_append, Text.lineBreaks_append, lineBreaks_docComment]
      omega

variable {source : Text} {blocks : List DocBlock} {b : DocBlock}

/-- A source has as many doc blocks as doc comments. -/
theorem map_closed_docBlocks (h : docBlocks source = .ok blocks) :
    (scan source).filterMap Lexeme.docMark? = blocks.map fun b => DocMark.closed b.comment := by
  rw [← map_fst_cut, (placed_of_placeBlocks h).map_fst]

/-- Each doc comment has its doc block, with its text and its line. -/
theorem exists_block_of_doc {before after : List Lexeme} {comment : Text}
    (h : docBlocks source = .ok blocks) (hscan : scan source = before ++ .doc comment :: after) :
    ∃ b, blocks[(before.filterMap Lexeme.docMark?).length]? = some b ∧ b.comment = comment ∧
      b.line = 1 + Text.lineBreaks (spell before) := by
  have hplaced := placed_of_placeBlocks h
  have hcut := cut_append_cons before after (show (Lexeme.doc comment).docMark? = _ from rfl)
  rw [hscan, hcut] at hplaced
  obtain ⟨b, hb, hcomment, hline⟩ := hplaced.getElem?_append
  refine ⟨b, ?_, hcomment, ?_⟩
  · rw [← map_fst_cut, List.length_map]
    exact hb
  · rw [hline, Nat.add_assoc, ← Text.lineBreaks_append, spell_cut]

/-- Each doc block is that of a doc comment. -/
theorem exists_doc_of_mem_docBlocks (h : docBlocks source = .ok blocks) (hb : b ∈ blocks) :
    ∃ before after, scan source = before ++ .doc b.comment :: after ∧
      b.line = 1 + Text.lineBreaks (spell before) := by
  obtain ⟨earlier, later, rfl⟩ := List.append_of_mem hb
  have hmarks := map_closed_docBlocks h
  rw [List.map_append, List.map_cons] at hmarks
  obtain ⟨before, rest, hscan, hbefore, hrest⟩ := List.filterMap_eq_append_iff.1 hmarks
  obtain ⟨skipped, l, after, rfl, hskipped, hmark, -⟩ := List.filterMap_eq_cons_iff.1 hrest
  have hsplit : scan source = (before ++ skipped) ++ .doc b.comment :: after := by
    rw [hscan, ← lexeme_of_docMark? l _ hmark, List.append_assoc]
    rfl
  obtain ⟨found, hfound, -, hline⟩ := exists_block_of_doc h hsplit
  have hlength : ((before ++ skipped).filterMap Lexeme.docMark?).length = earlier.length := by
    rw [List.filterMap_append, hbefore, List.filterMap_eq_nil_iff.2 hskipped, List.append_nil,
      List.length_map]
  rw [hlength, List.getElem?_append_right (Nat.le_refl _), Nat.sub_self,
    List.getElem?_cons_zero, Option.some.injEq] at hfound
  subst hfound
  exact ⟨before ++ skipped, after, hsplit, hline⟩

/-- A source around one of its doc comments. -/
theorem eq_append_of_scan {before after : List Lexeme} {comment : Text}
    (hscan : scan source = before ++ .doc comment :: after) :
    source = spell before ++ ("/**".toList ++ (comment ++ ("*/".toList ++ spell after))) := by
  have htext : spell (scan source) = source := flatMap_text_scan source
  rw [← htext, hscan]
  simp [spell, Lexeme.text]

/-- What stands on a line of a comment stands on the line of the source with its number. -/
theorem hasOnLine_of_mem_blocks {l : CommentLine} {t : Text} (h : docBlocks source = .ok blocks)
    (hb : b ∈ blocks) (hl : l ∈ commentLines b.line b.comment) (ht : t <:+: l.content) :
    source.HasOnLine l.number t := by
  obtain ⟨before, after, hscan, hline⟩ := exists_doc_of_mem_docBlocks h hb
  have hbreaks : Text.lineBreaks (spell before ++ "/**".toList)
      = Text.lineBreaks (spell before) := by
    rw [Text.lineBreaks_append]
    rfl
  rw [hline, ← hbreaks] at hl
  rw [eq_append_of_scan hscan, ← List.append_assoc]
  exact hasOnLine_of_mem_commentLines hl ht

/-! ### Nodes -/

/-- A fact does not move a node. -/
theorem line_foldl_learn (facts : List Fact) (node : DocNode) :
    (facts.foldl DocNode.learn node).line = node.line := by
  induction facts generalizing node with
  | nil => rfl
  | cons fact facts ih =>
    rw [List.foldl_cons, ih]
    cases fact <;> rfl

theorem DocBlock.line_read (b : DocBlock) : b.read.1.line = b.line :=
  line_foldl_learn _ _

/-- The parameters that tags give to a node stay when code completes it. -/
theorem DocBlock.params_read (b : DocBlock)
    (h : (DocNode.ofComment b.line b.comment).1.params ≠ []) :
    b.read.1.params = (DocNode.ofComment b.line b.comment).1.params := by
  apply if_neg
  rintro ⟨-, hempty⟩
  exact h (List.isEmpty_iff.1 hempty)

/-- A report is about a tag that stands on the line it names. -/
theorem hasOnLine_of_mem_reports {r : Report} (h : docBlocks source = .ok blocks)
    (hr : r ∈ (UnitDocs.ofBlocks blocks).reports) :
    ∃ tag line, r.tagPlace? = some (tag, line) ∧ source.HasOnLine line ('@' :: tag) := by
  obtain ⟨b, hb, hreport⟩ := List.mem_flatMap.1 hr
  obtain ⟨l, hl, word, htag, hplace⟩ := exists_line_of_mem_reports hreport
  exact ⟨word, l.number, hplace, hasOnLine_of_mem_blocks h hb hl htag.infix_content⟩

/-- The node of a doc block points into the source where its comment stands. -/
theorem DocBlock.pointsInto_read {before after : List Lexeme} (h : docBlocks source = .ok blocks)
    (hb : b ∈ blocks) (hscan : scan source = before ++ .doc b.comment :: after)
    (hline : b.line = 1 + Text.lineBreaks (spell before)) :
    b.read.1.PointsInto source (spell before) b.comment where
  line_eq := b.line_read.trans hline
  opens := by
    have hmark : (Text.fields '\n' "/**".toList)[0]? = some "/**".toList := by decide
    have hon := Text.hasOnLine_of_part (spell before) "/**".toList
      (b.comment ++ ("*/".toList ++ spell after)) hmark (List.infix_refl _)
    rw [← eq_append_of_scan hscan] at hon
    rw [b.line_read, hline]
    exact hon
  params := by
    intro p hp
    rw [b.line_read] at hp
    obtain ⟨l, hl, htag, hnumber⟩ := exists_line_of_mem_params hp
    rw [← hnumber]
    exact hasOnLine_of_mem_blocks h hb hl htag.infix_content
  params_eq := by
    rw [b.line_read]
    exact b.params_read

/-- The documentation of a unit points into its source: each report to the line of its tag, each
parameter that a tag gives to the line of the tag, and each node to the line on which its doc
comment opens. -/
theorem unitDocs_pointsInto {source : Text} {docs : UnitDocs}
    (h : UnitDocs.read source = .ok docs) : docs.PointsInto source := by
  cases hblocks : docBlocks source with
  | error fault =>
    rw [UnitDocs.read, hblocks] at h
    cases h
  | ok blocks =>
    rw [UnitDocs.read, hblocks] at h
    cases h
    refine ⟨fun r hr => hasOnLine_of_mem_reports hblocks hr, ?_, ?_⟩
    · rw [map_closed_docBlocks hblocks, List.length_map]
      exact List.length_map _
    · intro before comment after hscan
      obtain ⟨b, hb, rfl, hline⟩ := exists_block_of_doc hblocks hscan
      refine ⟨b.read.1, ?_, ?_⟩
      · exact (List.getElem?_map ..).trans (congrArg (Option.map _) hb)
      · exact DocBlock.pointsInto_read hblocks (List.mem_of_getElem? hb) hscan hline

/-- A comment that opens behind a literal, with carriage returns and a tag on its last line, and
an empty comment. -/
def commentsBehindCode : Text :=
  "'/**'; /** @method m\r\n * @foo\r\n @param \x7bT n\r\n @param n */ m()\n/***/".toList

theorem unitDocs_pointsInto_behind_code :
    ∃ docs, UnitDocs.read commentsBehindCode = .ok docs ∧
      docs.reports = [.unknownTag "foo".toList 2, .malformedTag "param".toList 3 .unclosedType] ∧
      docs.nodes.map (fun node => (node.line, node.params.map DocNode.line))
        = [(1, [3, 4]), (5, [])] ∧
      docs.PointsInto commentsBehindCode := by
  have hblocks : docBlocks commentsBehindCode
      = .ok [⟨" @method m\r\n * @foo\r\n @param \x7bT n\r\n @param n ".toList,
          " m()\n".toList, 1⟩, ⟨[], [], 5⟩] := by
    cbv
  have hread := congrArg (Except.map UnitDocs.ofBlocks) hblocks
  exact ⟨_, hread, by decide +kernel, by decide +kernel, unitDocs_pointsInto hread⟩

end ApiDocs
