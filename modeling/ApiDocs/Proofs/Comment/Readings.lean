import ApiDocs.Comment.Node
import ApiDocs.Proofs.Text.Trimming
/-!
# From the sections of a comment to its node

Each section is read on its own, except that it is told whether an earlier one has claimed the
comment.  The node learns the facts of the sections one after the other.  A type that is learned
replaces an earlier one or not, and a name is learned from the claiming section alone, so both
can be followed through the sections without the rest of the node.

Main definitions:

- `Comment.nodeOf`, `Comment.node`: the node of a comment, with the reports on it.
- `Fact.typeOver`: the type of a node that has learned a fact.
- `textOfLines`: lines of a comment as one text.
- `HasPiece`: a text is one of the pieces of a description.

Main results:

- `readSections_append`: the sections behind others are told of their claim.
- `foldl_learn_set`: a field that facts change by itself is learned by itself.
- `type_foldl_learn`, `name_foldl_readSections`: the type and the name that a node learns.
-/

namespace ApiDocs

/-- Whether the tag that decides on this kind has a type. -/
def Kind.isTyped (kind : Kind) : Bool :=
  kind = .member .cfg || kind = .member .property

/-- The node that the readings of sections give for a comment on this kind of thing, and the
reports on it. -/
def Comment.nodeOf (comment : Comment) (kind : Kind) (line : Nat)
    (readings : List (Section × Reading)) : DocNode × List Report :=
  let node := (readings.map (·.2.fact)).foldl DocNode.learn { kind := kind, line := line }
  ({ node with description := describe (comment.description :: readings.map (·.2.prose)) },
    comment.unknown ++ readings.filterMap fun found => found.1.report found.2)

/-- The node of a comment that opens on the given line, and the reports on it. -/
def Comment.node (comment : Comment) (line : Nat) : DocNode × List Report :=
  comment.nodeOf (kindOf comment.sections) line
    (readSections (kindOf comment.sections) false comment.sections)

/-- The node of a comment is read from the sections that it is taken apart into. -/
theorem ofComment_eq_node (line : Nat) (text : Text) :
    DocNode.ofComment line text = (Comment.read line text).node line :=
  rfl

/-! ### Sections that claim the comment -/

section

variable {kind : Kind} {claimed : Bool} {s : Section} {before after sections : List Section}

/-- The sections behind others are read in a comment that one of those may have claimed. -/
theorem readSections_append (kind : Kind) (claimed : Bool) (before after : List Section) :
    readSections kind claimed (before ++ after)
      = readSections kind claimed before
        ++ readSections kind (claimed || before.any (·.claims kind)) after := by
  induction before generalizing claimed with
  | nil => simp [readSections]
  | cons s before ih => simp [readSections, ih, Bool.or_assoc]

/-- There is one reading for each section. -/
theorem length_readSections (kind : Kind) (claimed : Bool) (sections : List Section) :
    (readSections kind claimed sections).length = sections.length := by
  induction sections generalizing claimed with
  | nil => rfl
  | cons s sections ih => rw [readSections, List.length_cons, ih, List.length_cons]

/-- What a comment documents is decided by the first tag that can do so. -/
theorem kindOf_append_cons (hbefore : ∀ t ∈ before, t.tag.subject? = none)
    (hdecides : s.tag.subject? = some kind) : kindOf (before ++ s :: after) = kind := by
  have hnone : before.findSome? (·.tag.subject?) = none := List.findSome?_eq_none_iff.2 hbefore
  simp [kindOf, List.findSome?_append, hnone, hdecides]

/-- A section that cannot claim the comment has no part in what the comment documents. -/
theorem kindOf_append_cons_of_plain (hsubject : s.tag.subject? = none)
    (hconstructor : s.tag ≠ .constructor) :
    kindOf (before ++ s :: after) = kindOf (before ++ after) := by
  simp [kindOf, List.findSome?_append, hsubject, hconstructor]

/-- Without a deciding tag before, only a constructor tag claims the comment, and it does so for
a method. -/
theorem claims_eq_false (hsubject : s.tag.subject? = none)
    (h : s.tag = .constructor → kind ≠ .member .method) : s.claims kind = false := by
  simp only [Section.claims, hsubject, Option.isSome_none, Bool.false_or, Bool.and_eq_false_imp,
    decide_eq_true_eq, decide_eq_false_iff_not]
  exact h

/-- A section that claims the comment makes it claimed. -/
theorem any_claims_eq_true {t : Section} (hmem : t ∈ before) (h : t.claims kind = true) :
    before.any (·.claims kind) = true :=
  List.any_eq_true.2 ⟨t, hmem, h⟩

/-- Without such a section it is not claimed. -/
theorem any_claims_eq_false (h : ∀ t ∈ before, t.claims kind = false) :
    before.any (·.claims kind) = false :=
  List.any_eq_false.2 fun t ht => by simp [h t ht]

/-- What holds of the sections of a comment that none before them has claimed holds of the later
ones as long as none has. -/
theorem claimed_or_forall_cons (kind : Kind) {p : Section → Prop}
    (h : claimed = true ∨ ∀ t ∈ s :: after, p t) :
    (claimed = true ∨ p s) ∧ ((claimed || s.claims kind) = true ∨ ∀ t ∈ after, p t) := by
  rcases h with rfl | h
  · exact ⟨.inl rfl, .inl rfl⟩
  · obtain ⟨hs, hafter⟩ := List.forall_mem_cons.1 h
    exact ⟨.inr hs, .inr hafter⟩

/-- The reading of a deciding tag. -/
theorem read_of_subject {subject : Kind} (hdecides : s.tag.subject? = some subject) :
    s.read kind claimed = s.readSubject subject claimed := by
  unfold Section.read
  cases htag : s.tag <;> rw [htag] at hdecides <;> cases hdecides <;> rfl

/-- The tag that claims a comment gives it the type and the name at its start. -/
theorem readSubject_unclaimed (kind : Kind) (s : Section) :
    s.readSubject kind false
      = let parts := SectionParts.read kind.isTyped .plain s.text
        { fact := .subject parts.type parts.name, prose := parts.body, defect := parts.defect } :=
  rfl

end

/-! ### Facts about a node -/

/-- A field that each fact changes by itself is learned by itself. -/
theorem foldl_learn_set {α : Type} (set : α → DocNode → DocNode) (step : α → Fact → α)
    (h : ∀ a node fact, (set a node).learn fact = set (step a fact) (node.learn fact))
    (facts : List Fact) (a : α) (node : DocNode) :
    facts.foldl DocNode.learn (set a node)
      = set (facts.foldl step a) (facts.foldl DocNode.learn node) := by
  induction facts generalizing a node with
  | nil => rfl
  | cons fact facts ih => rw [List.foldl_cons, h, ih, List.foldl_cons, List.foldl_cons]

/-- The type of a node that had the given one and has learned a fact: the deciding tag replaces
it, and a type tag gives one to a node that has none. -/
def Fact.typeOver (type : Option Text) : Fact → Option Text
  | .subject stated _ => stated
  | .type stated => type <|> stated
  | _ => type

/-- A node learns other facts without regard to the type that it has. -/
theorem foldl_learn_type (facts : List Fact) (type : Option Text) (node : DocNode) :
    facts.foldl DocNode.learn { node with type := type }
      = { facts.foldl DocNode.learn node with type := facts.foldl Fact.typeOver type } :=
  foldl_learn_set (fun type node => { node with type := type }) Fact.typeOver
    (fun _ _ fact => by cases fact <;> rfl) facts type node

/-- The type of a node is the one that the facts leave. -/
theorem type_foldl_learn (facts : List Fact) (node : DocNode) :
    (facts.foldl DocNode.learn node).type = facts.foldl Fact.typeOver node.type :=
  (List.foldl_hom DocNode.type fun _ fact => by cases fact <;> rfl).symm

/-- Only the section that claims a comment gives it a name. -/
theorem name_learn_read {kind : Kind} {claimed : Bool} {s : Section} (node : DocNode)
    (h : claimed = true ∨ s.claims kind = false) :
    (node.learn (s.read kind claimed).fact).name = node.name := by
  have hsubject : ∀ subject, s.tag.subject? = some subject → claimed = true := fun subject hs =>
    h.resolve_right (by simp [Section.claims, hs])
  have hconstructor : s.tag = .constructor → kind = .member .method → claimed = true :=
    fun hs hk => h.resolve_right (by simp [Section.claims, hs, hk])
  unfold Section.read
  cases htag : s.tag with
  | cls => simp [Section.readSubject, hsubject .cls (by rw [htag]; rfl), DocNode.learn]
  | member k => simp [Section.readSubject, hsubject (.member k) (by rw [htag]; rfl), DocNode.learn]
  | constructor =>
    by_cases hk : kind = .member .method
    · simp [hconstructor htag hk, DocNode.learn]
    · simp [hk, DocNode.learn]
  | _ => rfl

/-- Sections that cannot claim the comment leave a node its name. -/
theorem name_foldl_readSections {kind : Kind} {claimed : Bool} {sections : List Section}
    (node : DocNode) (h : claimed = true ∨ ∀ s ∈ sections, s.claims kind = false) :
    (((readSections kind claimed sections).map (·.2.fact)).foldl DocNode.learn node).name
      = node.name := by
  induction sections generalizing claimed node with
  | nil => rfl
  | cons s sections ih =>
    obtain ⟨hs, hlater⟩ := claimed_or_forall_cons kind h
    rw [readSections, List.map_cons, List.foldl_cons, ih _ hlater, name_learn_read node hs]

/-- A node learns facts without regard to its kind. -/
theorem foldl_learn_kind (facts : List Fact) (kind : Kind) (node : DocNode) :
    facts.foldl DocNode.learn { node with kind := kind }
      = { facts.foldl DocNode.learn node with kind := kind } := by
  have h := foldl_learn_set (fun kind node => { node with kind := kind }) (fun kind _ => kind)
    (fun _ _ fact => by cases fact <;> rfl) facts kind node
  rwa [List.foldl_fixed] at h

/-- No fact changes the kind of a node. -/
theorem kind_foldl_learn (facts : List Fact) (node : DocNode) :
    (facts.foldl DocNode.learn node).kind = node.kind := by
  have hkind : facts.foldl (fun kind _ => kind) node.kind = (facts.foldl DocNode.learn node).kind :=
    List.foldl_hom DocNode.kind fun _ fact => by cases fact <;> rfl
  rw [← hkind, List.foldl_fixed]

/-- The kind of a node is decided by all sections together. -/
theorem kind_node (comment : Comment) (line : Nat) :
    (comment.node line).1.kind = kindOf comment.sections :=
  kind_foldl_learn _ _

/-! ### Pieces of a description -/

/-- Lines of a comment as one text. -/
def textOfLines (lines : List CommentLine) : Text :=
  Text.joinWith "\n".toList (lines.map CommentLine.content)

/-- The text is one of the pieces that a description is made of. -/
def HasPiece (description piece : Text) : Prop :=
  ∃ before after, description = describe (before ++ piece :: after)

/-- The description of a node is that of the comment, with the prose of the sections behind it. -/
theorem description_node (comment : Comment) (line : Nat) :
    (comment.node line).1.description = describe (comment.description
      :: (readSections (kindOf comment.sections) false comment.sections).map (·.2.prose)) :=
  rfl

/-- A description is made of its pieces without the blanks at their ends. -/
theorem describe_congr {pieces others : List Text}
    (h : pieces.map Text.trim = others.map Text.trim) : describe pieces = describe others := by
  rw [describe, h, describe]

/-- Blanks at the ends of a piece do not show. -/
theorem describe_append_trim (before after : List Text) (piece : Text) :
    describe (before ++ Text.trim piece :: after) = describe (before ++ piece :: after) :=
  describe_congr (by simp)

/-- A piece shows in a description as its trimmed text does. -/
theorem HasPiece.of_trim {description piece : Text} (h : HasPiece description (Text.trim piece)) :
    HasPiece description piece := by
  obtain ⟨before, after, rfl⟩ := h
  exact ⟨before, after, describe_append_trim before after piece⟩

/-- A piece without text leaves no trace. -/
theorem describe_append_nil (before after : List Text) :
    describe (before ++ [] :: after) = describe (before ++ after) := by
  simp [describe]

/-! ### The deciding section -/

/-- What the section that claims a comment has for name and body is the name of the node and a
piece of its description. -/
theorem ofComment_of_deciding {line : Nat} {text : Text} {kind : Kind} {s : Section}
    {before after : List Section}
    (hsections : (Comment.read line text).sections = before ++ s :: after)
    (hdecides : s.tag.subject? = some kind)
    (hfirst : ∀ t ∈ before, t.tag.subject? = none ∧ t.tag ≠ .constructor) :
    let parts := SectionParts.read kind.isTyped .plain s.text
    let node := (DocNode.ofComment line text).1
    node.kind = kind ∧ node.name = parts.name ∧ HasPiece node.description parts.body := by
  intro parts node
  have hkind : kindOf (Comment.read line text).sections = kind := by
    rw [hsections, kindOf_append_cons (fun t ht => (hfirst t ht).1) hdecides]
  have hclaims : ∀ t ∈ before, t.claims kind = false := fun t ht =>
    claims_eq_false (hfirst t ht).1 fun hconstructor => absurd hconstructor (hfirst t ht).2
  have hclaimed : (false || s.claims kind) = true := by simp [Section.claims, hdecides]
  have hreadings : readSections kind false (before ++ s :: after)
      = readSections kind false before
        ++ (s, s.readSubject kind false) :: readSections kind true after := by
    rw [readSections_append, any_claims_eq_false hclaims, readSections, Bool.or_false,
      read_of_subject hdecides, hclaimed]
  have hnode : node = ((Comment.read line text).nodeOf kind line
      (readSections kind false before
        ++ (s, s.readSubject kind false) :: readSections kind true after)).1 := by
    rw [← hreadings, ← hsections, ← hkind]
    rfl
  rw [hnode]
  refine ⟨kind_foldl_learn _ _, ?_, ?_⟩
  · simp only [Comment.nodeOf, List.map_append, List.map_cons, List.foldl_append, List.foldl_cons]
    rw [name_foldl_readSections _ (.inl rfl), readSubject_unclaimed]
    rfl
  · refine ⟨(Comment.read line text).description :: (readSections kind false before).map (·.2.prose),
      (readSections kind true after).map (·.2.prose), ?_⟩
    simp only [Comment.nodeOf, List.map_append, List.map_cons, readSubject_unclaimed,
      List.cons_append]
    rfl

end ApiDocs
