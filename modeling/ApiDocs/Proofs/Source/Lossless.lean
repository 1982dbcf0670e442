import Mathlib
import ApiDocs.Proofs.Source.Reading
/-!
# The doc blocks of a source lose nothing

What stands before the first doc comment, followed by the spellings of the doc blocks, is the
source again.  The comment of a block is closed by the first closing mark behind its opening,
and the line of a block counts the line breaks of all that stands before it.

Main definitions:

- `DocBlock.text`: the spelling of a doc block.
- `Divided`: a source as its first part and its doc blocks.
- `Placed`: the doc blocks that closed doc comments make from a line on.

Main results:

- `Placed.flatMap_text`, `Placed.line_eq`: the spelling and the lines of placed blocks.
- `docBlocks_lossless`: a source is divided into its first part and its doc blocks.
-/

namespace ApiDocs

/-- The spelling of a doc block. -/
def DocBlock.text (b : DocBlock) : Text :=
  "/**".toList ++ b.comment ++ "*/".toList ++ b.code

/-- How a source is divided: `start` stands before the first doc comment, the blocks follow as
they are spelled, one for each doc comment that the scanner finds, each comment is a body of a
doc comment, and the line of a block is one more than the line breaks before its opening mark. -/
structure Divided (source start : Text) (blocks : List DocBlock) : Prop where
  spelled : source = start ++ blocks.flatMap DocBlock.text
  start_of_no_block : blocks = [] → start = source
  comments : (scan source).filterMap Lexeme.docMark?
    = blocks.map fun b => DocMark.closed b.comment
  bodies : ∀ b ∈ blocks, DocBody b.comment
  lines : ∀ before b after, blocks = before ++ b :: after →
    b.line = 1 + Text.lineBreaks (start ++ before.flatMap DocBlock.text)

/-! ### Placing the blocks -/

/-- The marks of a doc comment hold no line break. -/
theorem lineBreaks_docComment (body : Text) :
    Text.lineBreaks ("/**".toList ++ body ++ "*/".toList) = Text.lineBreaks body := by
  have hopen : Text.lineBreaks "/**".toList = 0 := by decide
  have hclose : Text.lineBreaks "*/".toList = 0 := by decide
  rw [Text.lineBreaks_append, Text.lineBreaks_append, hopen, hclose]
  omega

@[simp]
theorem DocBlock.lineBreaks_text (b : DocBlock) :
    Text.lineBreaks b.text = Text.lineBreaks b.comment + Text.lineBreaks b.code := by
  rw [DocBlock.text, Text.lineBreaks_append, lineBreaks_docComment]

/-- The doc blocks of closed doc comments with the lexemes after each, placed from a line on. -/
inductive Placed : Nat → List (DocMark × List Lexeme) → List DocBlock → Prop
  | nil (line : Nat) : Placed line [] []
  | cons {line : Nat} {body : Text} {code : List Lexeme} {rest : List (DocMark × List Lexeme)}
      {later : List DocBlock}
      (placed : Placed (line + Text.lineBreaks body + Text.lineBreaks (spell code)) rest later) :
      Placed line ((.closed body, code) :: rest) (⟨body, spell code, line⟩ :: later)

/-- Blocks come out only when every doc comment is closed. -/
theorem placed_of_placeBlocks {line : Nat} {parts : List (DocMark × List Lexeme)}
    {blocks : List DocBlock} (h : placeBlocks line parts = .ok blocks) :
    Placed line parts blocks := by
  induction parts generalizing line blocks with
  | nil =>
    simp only [placeBlocks, Except.ok.injEq] at h
    subst h
    exact .nil line
  | cons part rest ih =>
    obtain ⟨mark, code⟩ := part
    cases mark with
    | unclosed body => simp [placeBlocks] at h
    | closed body =>
      rw [placeBlocks] at h
      cases hlater :
          placeBlocks (line + Text.lineBreaks body + Text.lineBreaks (spell code)) rest with
      | error fault => simp [hlater, Except.map] at h
      | ok later =>
        simp only [hlater, Except.map, Except.ok.injEq] at h
        subst h
        exact .cons (ih hlater)

namespace Placed

variable {line : Nat} {parts : List (DocMark × List Lexeme)} {blocks : List DocBlock}

/-- The placed blocks spell what they were made of. -/
theorem flatMap_text (h : Placed line parts blocks) :
    blocks.flatMap DocBlock.text
      = spell (parts.flatMap fun part => part.1.lexeme :: part.2) := by
  induction h with
  | nil => rfl
  | cons _ ih =>
    simp only [spell] at ih ⊢
    simp [DocBlock.text, DocMark.lexeme, Lexeme.text, ih]

/-- There is one placed block for each doc comment. -/
theorem map_fst (h : Placed line parts blocks) :
    parts.map Prod.fst = blocks.map fun b => DocMark.closed b.comment := by
  induction h with
  | nil => rfl
  | cons _ ih => rw [List.map_cons, List.map_cons, ih]

/-- A block stands behind the line breaks of the blocks before it. -/
theorem line_eq (h : Placed line parts blocks) {before after : List DocBlock} {b : DocBlock}
    (hblocks : blocks = before ++ b :: after) :
    b.line = line + Text.lineBreaks (before.flatMap DocBlock.text) := by
  induction h generalizing before with
  | nil => simp at hblocks
  | cons _ ih =>
    cases before with
    | nil =>
      rw [List.nil_append, List.cons.injEq] at hblocks
      rw [← hblocks.1]
      rfl
    | cons first before =>
      rw [List.cons_append, List.cons.injEq] at hblocks
      obtain ⟨rfl, hlater⟩ := hblocks
      rw [ih hlater, List.flatMap_cons, Text.lineBreaks_append, DocBlock.lineBreaks_text]
      simp only [Nat.add_assoc]

end Placed

/-! ### The source again -/

/-- The mark of a doc comment tells its lexeme. -/
theorem lexeme_of_docMark? (l : Lexeme) (mark : DocMark) (h : l.docMark? = some mark) :
    mark.lexeme = l := by
  unfold Lexeme.docMark? at h
  split at h
  · cases h
    rfl
  · cases h
    rfl
  · cases h

/-- What stands before the first doc comment and the doc comments with the code after each
spell all of the lexemes. -/
theorem spell_cut (lexemes : List Lexeme) :
    spell (cut Lexeme.docMark? lexemes).1
        ++ spell ((cut Lexeme.docMark? lexemes).2.flatMap fun part => part.1.lexeme :: part.2)
      = spell lexemes := by
  have hcut := flatten_cut (fun l mark => lexeme_of_docMark? l mark) lexemes
  rw [spell, spell, ← List.flatMap_append, hcut, spell]

/-- A source is its part before the first doc comment, followed by its doc blocks as they are
spelled. -/
theorem docBlocks_lossless {source : Text} {blocks : List DocBlock}
    (h : docBlocks source = .ok blocks) : ∃ start, Divided source start blocks := by
  have hplaced := placed_of_placeBlocks h
  have hsource : source = spell (cut Lexeme.docMark? (scan source)).1
      ++ blocks.flatMap DocBlock.text := by
    rw [hplaced.flatMap_text, spell_cut]
    exact (flatMap_text_scan source).symm
  have hcomments : (scan source).filterMap Lexeme.docMark?
      = blocks.map fun b => DocMark.closed b.comment := by
    rw [← map_fst_cut, hplaced.map_fst]
  refine ⟨_, hsource, ?_, hcomments, ?_, ?_⟩
  · intro hnil
    rw [hnil, List.flatMap_nil, List.append_nil] at hsource
    exact hsource.symm
  · intro b hb
    have hmark : DocMark.closed b.comment ∈ (scan source).filterMap Lexeme.docMark? := by
      rw [hcomments]
      exact List.mem_map_of_mem hb
    obtain ⟨l, hl, hdoc⟩ := List.mem_filterMap.1 hmark
    rw [← lexeme_of_docMark? l _ hdoc] at hl
    exact docBody_of_mem_scanFrom hl
  · intro before b after hblocks
    rw [hplaced.line_eq hblocks, Text.lineBreaks_append, Nat.add_assoc]

/-- A regular expression and a string that look like comments are in no block. -/
theorem docBlocks_lossless_around_literals :
    docBlocks "x = /[/**]/\n/** A\n */ '/** n */' / 2 /* p */\n/***/".toList
        = .ok [⟨" A\n ".toList, " '/** n */' / 2 /* p */\n".toList, 2⟩, ⟨[], [], 4⟩] ∧
      ∃ start, Divided "x = /[/**]/\n/** A\n */ '/** n */' / 2 /* p */\n/***/".toList start
        [⟨" A\n ".toList, " '/** n */' / 2 /* p */\n".toList, 2⟩, ⟨[], [], 4⟩] :=
  ⟨by cbv, docBlocks_lossless (by cbv)⟩

end ApiDocs
