import ApiDocs.Code.Fill
import ApiDocs.Proofs.Comment.Heads
import ApiDocs.Proofs.Comment.Readings
/-!
# Deciding tags that stand alone

A deciding tag may stand alone on its line, or with a type only, so that the name is left to the
code.  The lines below it are description, and none of them is lost.  The name is however read
across the end of the line: when the first word below is a name, the node has it for its own.

Main definitions:

- `BareLine`: nothing but a type follows the word of a deciding tag on its line.

Main results:

- `read_bareLine`: what is read from a tag that stands alone is what the lines below start with.
- `name_of_bareLine`: the name and the description of a comment whose deciding tag stands alone.
-/

namespace ApiDocs

/-- Nothing follows the word of a tag line that decides on this kind, or only a type where the tag
has one. -/
inductive BareLine (kind : Kind) (rest : Text) : Option Text → Prop
  | alone (h : Text.trim rest = []) : BareLine kind rest none
  | typed {inner : Text} (hkind : kind.isTyped = true) (h : Text.trim rest = braced inner)
      (hbalanced : BalancedBraces inner) : BareLine kind rest (some (Text.trim inner))

/-! ### Reading on below the line -/

/-- The lines behind a tag line are those under it, and blanks. -/
theorem trimStart_flatMap_lines (lines : List CommentLine) :
    Text.trimStart (lines.flatMap fun l => '\n' :: l.content)
      = Text.trimStart (textOfLines lines) := by
  cases lines with
  | nil => rfl
  | cons l lines =>
    have hbelow : textOfLines (l :: lines)
        = l.content ++ lines.flatMap fun l => '\n' :: l.content := by
      rw [textOfLines, List.map_cons]
      exact (Text.joinWith_cons '\n' _ _).trans (by rw [List.flatMap_map])
    rw [hbelow, List.flatMap_cons, List.cons_append, Text.trimStart_blank (by decide)]

variable {kind : Kind} {type : Option Text} {opening : Opening} {rest : List CommentLine}

/-- Behind a tag that stands alone, name and body are read from the lines below, unless the tag
takes its type from there. -/
theorem read_bareLine (hbare : BareLine kind opening.rest type)
    (htype : kind.isTyped = true → type = none → ∀ inner body,
      ¬ TypeAhead (textOfLines rest) inner body) :
    let parts := SectionParts.read kind.isTyped .plain (Section.ofLines opening rest).text
    let below := readPlainName (Text.trimStart (textOfLines rest))
    parts.name = below.name ∧ parts.body = below.body := by
  intro parts below
  have htext : (Section.ofLines opening rest).text
      = Text.trimStart opening.rest ++ rest.flatMap fun l => '\n' :: l.content := rfl
  cases hbare with
  | alone hblank =>
    have hparts : parts = SectionParts.read kind.isTyped .plain (textOfLines rest) := by
      rw [← SectionParts.read_trimStart, ← trimStart_flatMap_lines, SectionParts.read_trimStart,
        ← List.nil_append (rest.flatMap _), ← Text.trimStart_eq_nil_of_trim hblank, ← htext]
    rw [hparts]
    exact SectionParts.read_plain_of_typeless fun htyped => htype htyped rfl
  | @typed inner hkind hline hbalanced =>
    obtain ⟨blanks, hblanks, hblank⟩ := Text.trimStart_eq_trim_append opening.rest
    have hahead : TypeAhead (Section.ofLines opening rest).text inner
        (blanks ++ rest.flatMap fun l => '\n' :: l.content) := by
      refine ⟨?_, hbalanced⟩
      rw [htext, hblanks, hline, List.append_assoc]
      exact Text.trimStart_eq_self (by simp [braced, isBlank, blankRanges])
    obtain ⟨found, hread⟩ := SectionParts.read_plain (.found hkind hahead)
    rw [Text.trimStart_append_of_blank hblank, trimStart_flatMap_lines] at hread
    have hparts : parts = { below with type := found } := hread
    rw [hparts]
    exact ⟨rfl, rfl⟩

/-! ### Comments whose deciding tag stands alone -/

/-- When the deciding tag of a comment stands alone and neither a name nor a type starts the lines
below, these are all description and the code gives the name.  A name that starts them is taken
for that of the tag. -/
theorem name_of_bareLine {line : Nat} {text : Text}
    {before after : List (Opening × List CommentLine)}
    (hparts : (cut CommentLine.opening? (commentLines line text)).2
      = before ++ (opening, rest) :: after)
    (hdecides : opening.tag.subject? = some kind)
    (hfirst : ∀ part ∈ before, part.1.tag.subject? = none ∧ part.1.tag ≠ .constructor)
    (hbare : BareLine kind opening.rest type) :
    let node := (DocNode.ofComment line text).1
    ((∀ name body, ¬ NameAhead (textOfLines rest) name body) →
        (kind.isTyped = true → type = none → ∀ inner body,
          ¬ TypeAhead (textOfLines rest) inner body) →
        node.name = none ∧ HasPiece node.description (textOfLines rest) ∧
          ∀ code, (node.fillFromCode code).name
            = (Signature.ofCode code).name.map (DocNode.nameFromCode kind)) ∧
      ∀ name body, NameAhead (textOfLines rest) name body →
        node.name = some name ∧ HasPiece node.description body := by
  intro node
  have hsections : (Comment.read line text).sections
      = before.map (fun part => Section.ofLines part.1 part.2) ++ Section.ofLines opening rest
        :: after.map fun part => Section.ofLines part.1 part.2 := by
    simp [Comment.read, hparts]
  have hbefore : ∀ t ∈ before.map (fun part => Section.ofLines part.1 part.2),
      t.tag.subject? = none ∧ t.tag ≠ .constructor := fun t ht => by
    obtain ⟨part, hpart, rfl⟩ := List.mem_map.1 ht
    exact hfirst part hpart
  obtain ⟨hkind, hname, hpiece⟩ : node.kind = kind ∧ node.name = _ ∧
      HasPiece node.description _ := ofComment_of_deciding hsections hdecides hbefore
  constructor
  · intro hunnamed htypeless
    obtain ⟨hnone, hbody⟩ := read_bareLine hbare htypeless
    rw [readPlainName_unnamed hunnamed] at hnone hbody
    rw [hnone] at hname
    rw [hbody] at hpiece
    refine ⟨hname, hpiece.of_trim, fun code => ?_⟩
    simp [DocNode.fillFromCode, DocNode.fill, hname, hkind]
  · intro name body hahead
    obtain ⟨hsome, hbody⟩ := read_bareLine hbare fun _ _ inner body htype =>
      absurd htype.head? hahead.head?_ne
    rw [hahead.readPlainName] at hsome hbody
    rw [hsome] at hname
    rw [hbody] at hpiece
    exact ⟨hname, hpiece.of_trim⟩

/-- An option with a type alone on its line keeps the list below it and is named by the code. -/
theorem name_of_bareLine_of_list :
    let text := "\n * Shown on top.\n * @cfg \x7bString\x7d\n *\n * - plain text\n * @private".toList
    let opening : Opening :=
      ⟨.member .cfg, "cfg".toList, " \x7bString\x7d".toList, 5⟩
    let rest : List CommentLine := [⟨6, []⟩, ⟨7, "- plain text".toList⟩]
    let node := (DocNode.ofComment 3 text).1
    (cut CommentLine.opening? (commentLines 3 text)).2
        = [] ++ (opening, rest) :: [(⟨.hidden, "private".toList, [], 8⟩, [])] ∧
      opening.tag.subject? = some (.member .cfg) ∧
      BareLine (.member .cfg) opening.rest (some "String".toList) ∧
      (∀ name body, ¬ NameAhead (textOfLines rest) name body) ∧
      node.name = none ∧ HasPiece node.description "\n- plain text".toList ∧
      (node.fillFromCode "title: ''".toList).name = some "title".toList := by
  intro text opening rest node
  have hparts : (cut CommentLine.opening? (commentLines 3 text)).2
      = [] ++ (opening, rest) :: [(⟨.hidden, "private".toList, [], 8⟩, [])] := by decide +kernel
  have hdecides : opening.tag.subject? = some (.member .cfg) := rfl
  have hbare : BareLine (.member .cfg) opening.rest (some "String".toList) :=
    .typed rfl (by decide : Text.trim opening.rest = braced "String".toList) (by decide)
  have hunnamed : ∀ name body, ¬ NameAhead (textOfLines rest) name body := by
    intro name body h
    have hnone : (readPlainName (Text.trimStart (textOfLines rest))).name = none := by decide
    rw [h.readPlainName] at hnone
    cases hnone
  obtain ⟨hname, hpiece, hcode⟩ := (name_of_bareLine hparts hdecides (by simp) hbare).1 hunnamed
    fun _ h => by cases h
  exact ⟨hparts, hdecides, hbare, hunnamed, hname, hpiece,
    (hcode _).trans (by decide +kernel)⟩

/-- The first word below a class tag that stands alone is taken for the name of the class, and the
code no longer gives one. -/
theorem prose_below_bareLine_names_class :
    let text := "@class\nPanel docs.".toList
    let opening : Opening := ⟨.cls, "class".toList, [], 1⟩
    let rest : List CommentLine := [⟨2, "Panel docs.".toList⟩]
    let node := (DocNode.ofComment 1 text).1
    (cut CommentLine.opening? (commentLines 1 text)).2 = [(opening, rest)] ∧
      BareLine .cls opening.rest none ∧
      node.name = some "Panel".toList ∧ node.description = "docs.".toList ∧
      (node.fillFromCode "Ext.Window = \x7b\x7d".toList).name = some "Panel".toList := by
  intro text opening rest node
  exact ⟨by decide +kernel, .alone rfl, by decide +kernel, by decide +kernel, by decide +kernel⟩

end ApiDocs
