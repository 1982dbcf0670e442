import ApiDocs.Proofs.Comment.Origins
import ApiDocs.Proofs.Comment.Parts
/-!
# Names in comments

A node has a name of its own and the names of its parameters.  Those that a comment gives to them
are names that tags accept, whatever stands in the comment: a word that is no such name is prose.

Main definitions:

- `DocNode.names`: the names in a node.
- `Fact.names`: the names in a fact.

Main results:

- `SectionParts.isName_of_read`: the name of a section.
- `names_learn_subset`: a node takes its names from the facts that it learns.
- `isName_of_mem_names_ofComment`: the names in the node of a comment.
-/

namespace ApiDocs

/-- The name of a node and those of its parameters. -/
def DocNode.names (node : DocNode) : List Text :=
  node.name.toList ++ node.params.flatMap fun p => p.name.toList

/-- The names that a fact has for a node. -/
def Fact.names : Fact → List Text
  | .subject _ name => name.toList
  | .constructor => ["constructor".toList]
  | .param p => p.name.toList
  | _ => []

/-! ### Names of sections -/

/-- What is read as a plain name is a name. -/
theorem isName_of_readPlainName {s name : Text} (h : (readPlainName s).name = some name) :
    isName name = true := by
  unfold readPlainName at h
  dsimp only at h
  split at h
  next hname =>
    cases h
    exact hname
  next => cases h

/-- What is read as a name in brackets is a name. -/
theorem isName_of_readBracketedName {s name : Text} {parts : SectionParts}
    (h : readBracketedName s = some parts) (hname : parts.name = some name) :
    isName name = true := by
  obtain ⟨⟨inner, rest⟩, -, rfl⟩ := Option.map_eq_some_iff.1 h
  dsimp only at hname
  split at hname
  next haccepted =>
    cases hname
    exact haccepted
  next => cases hname

/-- In any form, what is read as a name is one. -/
theorem isName_of_readName {form : NameForm} {s name : Text} {parts : SectionParts}
    (h : readName form s = some parts) (hname : parts.name = some name) : isName name = true := by
  unfold readName at h
  split at h
  · cases h
    cases hname
  · exact isName_of_readBracketedName h hname
  · cases h
    exact isName_of_readPlainName hname

/-- The name of a section is one that tags accept. -/
theorem SectionParts.isName_of_read {hasType : Bool} {form : NameForm} {s name : Text}
    (h : (SectionParts.read hasType form s).name = some name) : isName name = true := by
  unfold SectionParts.read at h
  extract_lets start broken named at h
  -- with a type or without one, the name is what the rest of the text starts with
  have hnamed : ∀ type rest, (named type rest).name = some name → isName name = true := by
    intro type rest hname
    dsimp only [named] at hname
    split at hname
    next parts hread => exact isName_of_readName hread hname
    next => cases hname
  split at h
  · exact hnamed _ _ h
  · exact hnamed _ _ h
  · cases h

/-! ### Names of facts -/

/-- The name that a deciding tag states is a name. -/
theorem isName_of_mem_names_readSubject {subject : Kind} {claimed : Bool} {s : Section}
    {name : Text} (h : name ∈ (s.readSubject subject claimed).fact.names) :
    isName name = true := by
  unfold Section.readSubject at h
  split at h
  · cases h
  · exact SectionParts.isName_of_read (Option.mem_toList.1 h)

/-- What a section says has such names only. -/
theorem isName_of_mem_names_read {kind : Kind} {claimed : Bool} {s : Section} {name : Text}
    (h : name ∈ (s.read kind claimed).fact.names) : isName name = true := by
  unfold Section.read at h
  cases htag : s.tag <;> rw [htag] at h <;> dsimp only at h
  case cls => exact isName_of_mem_names_readSubject h
  case member => exact isName_of_mem_names_readSubject h
  case constructor =>
    split at h
    · rw [List.mem_singleton.1 h]
      decide
    · cases h
  case param => exact SectionParts.isName_of_read (Option.mem_toList.1 h)
  all_goals cases h

/-! ### Names of nodes -/

/-- The names in a node are those that it had or learned. -/
theorem names_learn_subset (node : DocNode) (fact : Fact) :
    (node.learn fact).names ⊆ node.names ++ fact.names := by
  intro name hname
  rcases List.mem_append.1 hname with hown | hparams
  · cases fact with
    | subject type found => exact List.mem_append_right _ hown
    | constructor => exact List.mem_append_right _ hown
    | _ => exact List.mem_append_left _ (List.mem_append_left _ hown)
  · cases fact with
    | param p =>
      change name ∈ (node.params ++ [p]).flatMap _ at hparams
      rw [List.flatMap_append, List.flatMap_singleton] at hparams
      rcases List.mem_append.1 hparams with hbefore | hlearned
      · exact List.mem_append_left _ (List.mem_append_right _ hbefore)
      · exact List.mem_append_right _ hlearned
    | _ => exact List.mem_append_left _ (List.mem_append_right _ hparams)

/-- A node has its names from the facts that it learns. -/
theorem names_foldl_learn_subset (facts : List Fact) (node : DocNode) :
    (facts.foldl DocNode.learn node).names ⊆ node.names ++ facts.flatMap Fact.names := by
  induction facts generalizing node with
  | nil => exact List.subset_append_left _ _
  | cons fact facts ih =>
    intro name hname
    rw [List.flatMap_cons, ← List.append_assoc]
    rcases List.mem_append.1 (ih _ hname) with hbefore | hlater
    · exact List.mem_append_left _ (names_learn_subset node fact hbefore)
    · exact List.mem_append_right _ hlater

/-- The names in the node of a comment are names that tags accept. -/
theorem isName_of_mem_names_ofComment {line : Nat} {text name : Text}
    (h : name ∈ (DocNode.ofComment line text).1.names) : isName name = true := by
  obtain ⟨fact, hfact, hname⟩ := List.mem_flatMap.1 (names_foldl_learn_subset _ _ h)
  obtain ⟨found, hfound, rfl⟩ := List.mem_map.1 hfact
  obtain ⟨-, claimed, hread⟩ := exists_read_of_mem_readSections hfound
  rw [hread] at hname
  exact isName_of_mem_names_read hname

end ApiDocs
