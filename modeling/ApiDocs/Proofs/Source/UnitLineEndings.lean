import Mathlib
import ApiDocs.Proofs.Code.LineEndings
import ApiDocs.Proofs.Comment.Names
import ApiDocs.Proofs.Source.LineEndings
import ApiDocs.Proofs.Source.Origins
/-!
# The documentation of units with carriage returns

A comment is read by its lines, so carriage returns in front of its line feeds change nothing in
what it says.  Code gives the same types, and names with the line breaks that the code has in them:
a property key between quotes or a parameter with a comment may run over several lines.  So line
endings show in the documentation of a unit in such names only, unless a literal of the source goes
on behind a line break.

Main definitions:

- `DocNode.withReturns`, `UnitDocs.withReturns`: nodes and units with carriage returns in names.

Main results:

- `ofComment_withReturns`, `DocNode.fill_withReturns`: the node of a comment, completed by code.
- `unitDocs_withReturns`: the documentation of a unit does not depend on its line endings.
- `continued_string_ends_at_return`: it does where a string goes on behind a line break.
-/

namespace ApiDocs

/-- A node with carriage returns in its name and in those of its parameters. -/
def DocNode.withReturns (node : DocNode) : DocNode :=
  { node with
    name := node.name.map Text.withReturns
    params := node.params.map fun p => { p with name := p.name.map Text.withReturns } }

/-- The documentation of a unit with carriage returns in the names of its nodes. -/
def UnitDocs.withReturns (docs : UnitDocs) : UnitDocs :=
  { docs with nodes := docs.nodes.map DocNode.withReturns }

/-! ### Nodes -/

/-- A name stays as it is if it is missing or on one line. -/
theorem map_withReturns_eq_self_iff {name : Option Text} :
    name.map Text.withReturns = name ↔ ∀ n ∈ name.toList, '\n' ∉ n := by
  cases name with
  | none => simp
  | some n => simp [Text.withReturns_eq_self_iff]

/-- Entries that stay as they are make up lists that do. -/
theorem map_eq_self_iff {α : Type} {f : α → α} {l : List α} :
    l.map f = l ↔ ∀ a ∈ l, f a = a := by
  induction l with
  | nil => simp
  | cons a l ih => rw [List.map_cons, List.cons.injEq, ih, List.forall_mem_cons]

/-- A node stays as it is if its names are on one line each. -/
theorem DocNode.withReturns_eq_self_iff {node : DocNode} :
    node.withReturns = node ↔ ∀ name ∈ node.names, '\n' ∉ name := by
  have hrenamed : ∀ p : DocNode, { p with name := p.name.map Text.withReturns } = p
      ↔ ∀ n ∈ p.name.toList, '\n' ∉ n := by
    intro p
    rw [← map_withReturns_eq_self_iff, DocNode.ext_iff]
    simp
  have hparams : (node.params.map fun p => { p with name := p.name.map Text.withReturns })
        = node.params ↔ ∀ n ∈ node.params.flatMap (fun p => p.name.toList), '\n' ∉ n := by
    rw [map_eq_self_iff, List.forall_mem_flatMap]
    exact forall₂_congr fun p _ => hrenamed p
  rw [names, List.forall_mem_append, ← hparams, ← map_withReturns_eq_self_iff, DocNode.ext_iff]
  simp [withReturns]

/-- The name that a node takes from code keeps its carriage returns. -/
theorem nameFromCode_withReturns (kind : Kind) (name : Text) :
    DocNode.nameFromCode kind (Text.withReturns name)
      = Text.withReturns (DocNode.nameFromCode kind name) := by
  unfold DocNode.nameFromCode
  split
  next => rfl
  next => exact Text.takeEnd_withReturns (by decide) name

/-- A node is completed by a signature with carriage returns as by the signature. -/
theorem DocNode.fill_withReturns (node : DocNode) (sig : Signature) :
    node.withReturns.fill sig.withReturns = (node.fill sig).withReturns := by
  have hname : (node.name.map Text.withReturns <|>
        (sig.name.map Text.withReturns).map (nameFromCode node.kind))
      = (node.name <|> sig.name.map (nameFromCode node.kind)).map Text.withReturns := by
    have hcode : nameFromCode node.kind ∘ Text.withReturns
        = Text.withReturns ∘ nameFromCode node.kind :=
      funext (nameFromCode_withReturns node.kind)
    rw [map_orElse, Option.map_map, Option.map_map, hcode]
  unfold fill DocNode.withReturns Signature.withReturns
  dsimp only
  rw [hname, List.isEmpty_map, apply_ite (List.map _)]
  simp only [List.map_map]
  rfl

/-! ### Comments -/

/-- The node of a comment does not see carriage returns, since its lines do not have them. -/
theorem ofComment_withReturns {text : Text} (h : '\r' ∉ text) (line : Nat) :
    DocNode.ofComment line (Text.withReturns text) = DocNode.ofComment line text := by
  have hlines : commentLines line (Text.withReturns text) = commentLines line text := by
    rw [commentLines, Text.lines_withReturns h, commentLines]
  have hread : Comment.read line (Text.withReturns text) = Comment.read line text := by
    rw [Comment.read, hlines, Comment.read]
  rw [DocNode.ofComment, hread, DocNode.ofComment]

/-- A doc block with carriage returns gives the same reports, and its node is the same up to the
names that the code gives. -/
theorem DocBlock.read_withReturns {b : DocBlock} (h : '\r' ∉ b.comment) :
    b.withReturns.read = (b.read.1.withReturns, b.read.2) := by
  have hcomment := ofComment_withReturns h b.line
  have hnode : (DocNode.ofComment b.line b.comment).1.withReturns
      = (DocNode.ofComment b.line b.comment).1 :=
    DocNode.withReturns_eq_self_iff.2 fun name hname =>
      not_mem_of_isName (isName_of_mem_names_ofComment hname) (by decide)
  have hfill := DocNode.fill_withReturns (DocNode.ofComment b.line b.comment).1
    (Signature.ofCode b.code)
  rw [hnode, ← ofCode_withReturns] at hfill
  unfold DocBlock.read DocBlock.withReturns DocNode.fillFromCode
  dsimp only
  rw [hcomment, hfill]

/-- In a source without carriage returns there are none in the comments. -/
theorem not_mem_comment {source : Text} {blocks : List DocBlock} {b : DocBlock}
    (h : docBlocks source = .ok blocks) (hb : b ∈ blocks) (hsource : '\r' ∉ source) :
    '\r' ∉ b.comment := by
  obtain ⟨before, after, hscan, -⟩ := exists_doc_of_mem_docBlocks h hb
  intro hmem
  rw [eq_append_of_scan hscan] at hsource
  exact hsource (List.mem_append_right _ (List.mem_append_right _ (List.mem_append_left _ hmem)))

/-! ### Units -/

/-- The documentation of a unit stays as it is if all names are on one line each. -/
theorem UnitDocs.withReturns_eq_self_iff {docs : UnitDocs} :
    docs.withReturns = docs ↔ ∀ node ∈ docs.nodes, ∀ name ∈ node.names, '\n' ∉ name := by
  rw [← forall₂_congr fun node _ => node.withReturns_eq_self_iff, ← map_eq_self_iff]
  cases docs
  simp [withReturns]

/-- Blocks with carriage returns give the documentation with carriage returns in its names. -/
theorem UnitDocs.ofBlocks_withReturns {blocks : List DocBlock}
    (h : ∀ b ∈ blocks, '\r' ∉ b.comment) :
    UnitDocs.ofBlocks (blocks.map DocBlock.withReturns)
      = (UnitDocs.ofBlocks blocks).withReturns := by
  have hread : ∀ b ∈ blocks, b.withReturns.read = (b.read.1.withReturns, b.read.2) :=
    fun b hb => DocBlock.read_withReturns (h b hb)
  have hnodes : (blocks.map DocBlock.withReturns).map (fun b => b.read.1)
      = (blocks.map fun b => b.read.1).map DocNode.withReturns := by
    rw [List.map_map, List.map_map]
    exact List.map_congr_left fun b hb => congrArg Prod.fst (hread b hb)
  have hreports : (blocks.map DocBlock.withReturns).flatMap (fun b => b.read.2)
      = blocks.flatMap fun b => b.read.2 := by
    rw [List.flatMap_map]
    exact List.flatMap_congr fun b hb => by rw [hread b hb]
  rw [UnitDocs.ofBlocks, hnodes, hreports]
  rfl

/-- The documentation of a unit with carriage returns is that of the unit up to the names that its
code gives. -/
theorem UnitDocs.read_withReturns {source : Text} (no_return : '\r' ∉ source)
    (no_continued : ∀ l ∈ scan source, l.isContinued = false) :
    UnitDocs.read (Text.withReturns source)
      = (UnitDocs.read source).map UnitDocs.withReturns := by
  unfold UnitDocs.read
  rw [docBlocks_withReturns no_continued]
  cases hblocks : docBlocks source with
  | error fault => rfl
  | ok blocks =>
    have hcomments : ∀ b ∈ blocks, '\r' ∉ b.comment := fun b hb =>
      not_mem_comment hblocks hb no_return
    exact congrArg Except.ok (UnitDocs.ofBlocks_withReturns hcomments)

/-- Line endings do not matter in a source whose strings and regular expressions all end on the
line on which they start: the same doc comment is never closed, or the reports are the same, and so
is everything in the nodes but the line endings in names that the code gives.  So the documentation
is the same exactly if these names are on one line each. -/
theorem unitDocs_withReturns {source : Text} (no_return : '\r' ∉ source)
    (no_continued : ∀ l ∈ scan source, l.isContinued = false) :
    UnitDocs.read (Text.withReturns source)
        = (UnitDocs.read source).map UnitDocs.withReturns ∧
      ∀ docs, UnitDocs.read source = .ok docs →
        (UnitDocs.read (Text.withReturns source) = .ok docs ↔
          ∀ node ∈ docs.nodes, ∀ name ∈ node.names, '\n' ∉ name) := by
  have hread := UnitDocs.read_withReturns no_return no_continued
  refine ⟨hread, ?_⟩
  intro docs hdocs
  rw [hread, hdocs, Except.map, Except.ok.injEq, UnitDocs.withReturns_eq_self_iff]

/-- Comments and literals on many lines, a string that a line break ends, and a parameter with a
comment on two lines. -/
def literalsOverLines : Text :=
  "var s = 'open\n/** @class A\n * Text. */\nvar q = `/**\n`, d = 1; // '/**'
/** @method */ f = function(a /* the\n first */, b);\n/** */ m: /a\\/b/".toList

/-- The name of a parameter takes the carriage return of the comment in it, and nothing else
changes. -/
theorem unitDocs_withReturns_over_literals :
    ∃ docs, UnitDocs.read literalsOverLines = .ok docs ∧
      docs.nodes.map DocNode.names
        = [["A".toList], ["f".toList, "a /* the\n first */".toList, "b".toList], ["m".toList]] ∧
      UnitDocs.read (Text.withReturns literalsOverLines) = .ok docs.withReturns := by
  have hscan : (scan literalsOverLines).all (! ·.isContinued) = true := by cbv
  have hcontinued : ∀ l ∈ scan literalsOverLines, l.isContinued = false := by
    simpa using hscan
  have hblocks : docBlocks literalsOverLines
      = .ok [⟨" @class A\n * Text. ".toList, "\nvar q = `/**\n`, d = 1; // '/**'\n".toList, 2⟩,
          ⟨" @method ".toList, " f = function(a /* the\n first */, b);\n".toList, 6⟩,
          ⟨[' '], " m: /a\\/b/".toList, 8⟩] := by
    cbv
  have hread := congrArg (Except.map UnitDocs.ofBlocks) hblocks
  have hreturns := (unitDocs_withReturns (by decide +kernel) hcontinued).1
  exact ⟨_, hread, by decide +kernel, hreturns.trans (congrArg (Except.map _) hread)⟩

/-- A backslash takes the carriage return with it, and not the line feed behind it: the string ends
there, and what follows is no longer in it. -/
def continuedString : Text :=
  "/** @class A */\nvar t = 'a\\\n/** b */';".toList

/-- With a carriage return there, the string ends early and a doc comment in it is read. -/
theorem continued_string_ends_at_return :
    '\r' ∉ continuedString ∧
      (UnitDocs.read continuedString).map (fun docs => docs.nodes.map DocNode.line) = .ok [1] ∧
      (UnitDocs.read (Text.withReturns continuedString)).map
        (fun docs => docs.nodes.map DocNode.line) = .ok [1, 3] := by
  refine ⟨by decide, ?_, ?_⟩
  · cbv
  · cbv

end ApiDocs
