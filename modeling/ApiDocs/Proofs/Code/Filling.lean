import ApiDocs.Code.Fill
import ApiDocs.Proofs.Text.Lines
/-!
# What code may add to a node

The tags of a comment win over the code behind it.  Code can add a name, a type and parameters,
each of them only where the tags have left a gap, and everything else of a node is what the tags
say.  So two codes give nodes that differ in gaps at most, and a node that a code has completed
has no gap left for the same code.

Main definitions:

- `DocNode.withoutGaps`: a node without the three things that code can add.
- `AgreeOnTags`: two nodes that differ at most in the gaps of a third one.
- `NamedByCode`: the name of a node that its tags leave without one.

Main results:

- `agreeOnTags_fill`: a signature changes gaps at most.
- `fill_fill`: the second time a signature changes nothing.
- `fillFromCode_fills_gaps`: what codes make of a node.
-/

namespace ApiDocs

/-- A node without its name, its type and its parameters. -/
def DocNode.withoutGaps (node : DocNode) : DocNode :=
  { node with name := none, type := none, params := [] }

/-- Two nodes agree in all that code never adds.  They agree in the name and the type if `node`
has them, in the type of a class, and in the parameters if `node` has some or is of a kind that is
not called. -/
structure AgreeOnTags (node a b : DocNode) : Prop where
  others : a.withoutGaps = b.withoutGaps
  name : node.name ≠ none → a.name = b.name
  type : node.type ≠ none ∨ node.kind = .cls → a.type = b.type
  params : node.params ≠ [] ∨ node.kind.isCalled = false → a.params = b.params

/-- If `node` has no name, it gets that of the signature: a class the whole of it, anything else
what follows its last dot, and so no dot. -/
structure NamedByCode (node : DocNode) (sig : Signature) (filled : DocNode) : Prop where
  whole : node.name = none → node.kind = .cls → filled.name = sig.name
  last : node.name = none → node.kind ≠ .cls →
    filled.name = sig.name.bind fun name => (Text.fields '.' name).getLast?
  dotless : node.name = none → node.kind ≠ .cls → ∀ name, filled.name = some name → '.' ∉ name

namespace AgreeOnTags

variable {node a b c : DocNode}

theorem symm (h : AgreeOnTags node a b) : AgreeOnTags node b a where
  others := h.others.symm
  name hname := (h.name hname).symm
  type htype := (h.type htype).symm
  params hparams := (h.params hparams).symm

/-- Agreement on what the tags say goes from node to node. -/
theorem trans (h : AgreeOnTags node a b) (h' : AgreeOnTags node b c) : AgreeOnTags node a c where
  others := h.others.trans h'.others
  name hname := (h.name hname).trans (h'.name hname)
  type htype := (h.type htype).trans (h'.type htype)
  params hparams := (h.params hparams).trans (h'.params hparams)

end AgreeOnTags

namespace DocNode

variable (node : DocNode) (sig : Signature)

/-! ### Signatures -/

/-- A signature changes the gaps of a node at most. -/
theorem agreeOnTags_fill : AgreeOnTags node (node.fill sig) node where
  others := rfl
  name h := by
    obtain ⟨name, hname⟩ := Option.ne_none_iff_exists'.1 h
    rw [fill, hname]
    rfl
  type h := by
    unfold fill
    dsimp only
    split
    next => rfl
    next hkind =>
      obtain ⟨type, htype⟩ := Option.ne_none_iff_exists'.1 (h.resolve_right hkind)
      rw [htype]
      rfl
  params h := by
    refine if_neg fun hgap => ?_
    rcases h with hsome | huncalled
    · exact hsome (List.isEmpty_iff.1 hgap.2)
    · rw [huncalled] at hgap
      cases hgap.1

/-- What is left without a value is left again. -/
theorem orElse_orElse_self {α : Type} (x y : Option α) : ((x <|> y) <|> y) = (x <|> y) := by
  cases x <;> cases y <;> rfl

/-- A gap that a signature leaves is one for which it has nothing. -/
theorem fill_fill : (node.fill sig).fill sig = node.fill sig := by
  refine DocNode.ext rfl (orElse_orElse_self _ _) ?type rfl ?params rfl rfl rfl rfl rfl rfl rfl
  case type =>
    change (if node.kind = .cls then (node.fill sig).type else (node.fill sig).type <|> sig.type)
      = (node.fill sig).type
    by_cases hkind : node.kind = .cls
    · rw [if_pos hkind]
    · have htype : (node.fill sig).type = (node.type <|> sig.type) := if_neg hkind
      rw [if_neg hkind, htype, orElse_orElse_self]
  case params =>
    by_cases hgap : node.kind.isCalled ∧ node.params.isEmpty
    · have hnew : (node.fill sig).params
          = sig.params.map fun p => { kind := .param, name := some p, line := node.line } :=
        if_pos hgap
      change (if node.kind.isCalled ∧ (node.fill sig).params.isEmpty then
        sig.params.map fun p => { kind := .param, name := some p, line := node.line }
        else (node.fill sig).params) = (node.fill sig).params
      rw [hnew, ite_self]
    · have hkept : (node.fill sig).params = node.params := if_neg hgap
      rw [hkept]
      exact (if_neg (by rwa [hkept])).trans hkept

/-- A class takes the whole name of a signature, and anything else the piece behind its dots. -/
theorem namedByCode_fill : NamedByCode node sig (node.fill sig) := by
  have hname : node.name = none →
      (node.fill sig).name = sig.name.map (nameFromCode node.kind) := fun hnone => by
    unfold fill
    rw [hnone]
    rfl
  have hlast : node.name = none → node.kind ≠ .cls →
      (node.fill sig).name = sig.name.bind fun name => (Text.fields '.' name).getLast? := by
    intro hnone hkind
    rw [hname hnone]
    cases sig.name with
    | none => rfl
    | some name => rw [Option.map_some, nameFromCode, if_neg hkind, Option.bind_some,
        Text.getLast?_fields]
  refine ⟨fun hnone hkind => ?_, hlast, fun hnone hkind name hfound => ?_⟩
  · rw [hname hnone]
    cases sig.name with
    | none => rfl
    | some name => rw [Option.map_some, nameFromCode, if_pos hkind]
  · rw [hlast hnone hkind] at hfound
    obtain ⟨full, -, hpiece⟩ := Option.bind_eq_some_iff.1 hfound
    exact Text.not_mem_of_mem_fields (List.mem_of_getLast? hpiece)

/-! ### Codes -/

/-- Whatever code stands behind a comment, what the tags say stays, so two codes agree on it; the
same code changes nothing the second time; and a node without a name gets the one that the code
shows, a class the whole of it and anything else its last piece, in which there is no dot. -/
theorem fillFromCode_fills_gaps :
    (∀ code, AgreeOnTags node (node.fillFromCode code) node) ∧
      (∀ code other, AgreeOnTags node (node.fillFromCode code) (node.fillFromCode other)) ∧
      (∀ code, (node.fillFromCode code).fillFromCode code = node.fillFromCode code) ∧
      ∀ code, NamedByCode node (Signature.ofCode code) (node.fillFromCode code) :=
  ⟨fun code => node.agreeOnTags_fill (Signature.ofCode code),
    fun code other => (node.agreeOnTags_fill (Signature.ofCode code)).trans
      (node.agreeOnTags_fill (Signature.ofCode other)).symm,
    fun code => node.fill_fill (Signature.ofCode code),
    fun code => node.namedByCode_fill (Signature.ofCode code)⟩

end DocNode

end ApiDocs
