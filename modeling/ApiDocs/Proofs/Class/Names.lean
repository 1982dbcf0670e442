import ApiDocs.Proofs.Class.Filing
import ApiDocs.Proofs.Code.Readers
import ApiDocs.Proofs.Comment.Names
import ApiDocs.Source.Unit
/-!
# Where the names of classes come from

A class takes its name from a tag of its comment, and without one from the code behind the
comment.  Tags accept names made of identifiers and dots.  Code gives such names, too, except
for the key of a property, which may be any text between quotes.  So a slash gets into the name
of a class only from a property key behind a comment that names no class.

Main definitions:

- `Slashless`: names without a slash.
- `DocBlock.hasSlashedKey`: the doc blocks whose class takes a slash from a property key.

Main results:

- `slashless_ofComment`: the name in a comment has no slash.
- `slashedKey_of_ofCode`: a name in code with a slash is a property key.
- `slashless_read`: the names of the classes that doc blocks document.
- `not_mem_of_mem_keys_ofUnits`: the names of the classes in a catalog.
-/

namespace ApiDocs

/-- There is no slash in a name, if there is a name. -/
def Slashless (name : Option Text) : Prop :=
  ∀ n, name = some n → '/' ∉ n

/-- The name that a comment gives has no slash. -/
theorem slashless_ofComment (line : Nat) (text : Text) :
    Slashless (DocNode.ofComment line text).1.name := by
  intro name hname
  have hmem : name ∈ (DocNode.ofComment line text).1.names :=
    List.mem_append_left _ (Option.mem_toList.2 hname)
  exact not_mem_of_isName (isName_of_mem_names_ofComment hmem) (by decide)

/-! ### Names in code -/

/-- An identifier holds no slash. -/
theorem not_mem_readIdentifier? {s : Text} {found : Text × Text}
    (h : readIdentifier? s = some found) : '/' ∉ found.1 :=
  not_mem_of_forall (readIdentifier?_eq_some_iff.1 h).1.nameChar (by decide)

/-- A name with dots holds no slash. -/
theorem not_mem_readDottedName? {s : Text} {found : Text × Text}
    (h : readDottedName? s = some found) : '/' ∉ found.1 := by
  intro hmem
  have hchar := (readDottedName?_sound h).1.isDottedChar '/' hmem
  revert hchar
  decide

/-- The name before an equals sign holds no slash. -/
theorem not_mem_readAssignment? {s : Text} {found : Text × Text}
    (h : readAssignment? s = some found) : '/' ∉ found.1 := by
  obtain ⟨name, hname, hrest⟩ := Option.bind_eq_some_iff.1 h
  obtain ⟨value, -, rfl⟩ := Option.map_eq_some_iff.1 hrest
  exact (not_mem_readDottedName? hname :)

/-- Taking the quotes off adds no character. -/
theorem mem_of_mem_dropQuotes {name : Text} {c : Char} (h : c ∈ dropQuotes name) : c ∈ name := by
  unfold dropQuotes at h
  have hfront := List.mem_reverse.1 ((List.dropWhile_sublist _).mem (List.mem_reverse.1 h))
  exact (List.dropWhile_sublist _).mem hfront

/-- A form of code is tried behind the word that declares a variable, and on the whole text. -/
theorem exists_of_declared? {α : Type} {form : Text → Option α} {s : Text} {a : α}
    (h : declared? form s = some a) : ∃ t, form t = some a := by
  rcases eq_some_of_orElse h with h | h
  · obtain ⟨t, -, ht⟩ := Option.bind_eq_some_iff.1 h
    exact ⟨t, ht⟩
  · exact ⟨s, h⟩

/-- Code is a property with a slash in its key. -/
def slashedKey (code : Text) : Bool :=
  (readProperty? (dropTrivia code)).any fun found => found.1.contains '/'

/-- The forms of code other than properties give names without a slash. -/
theorem not_mem_functionDeclaration? {s : Text} {found : Text × Text}
    (h : functionDeclaration? s = some found) : '/' ∉ found.1 := by
  obtain ⟨rest, -, hrest⟩ := Option.bind_eq_some_iff.1 h
  obtain ⟨name, hname, hparams⟩ := Option.bind_eq_some_iff.1 hrest
  obtain ⟨params, -, rfl⟩ := Option.map_eq_some_iff.1 hparams
  exact (not_mem_readIdentifier? hname :)

/-- The name to which a function is assigned holds no slash. -/
theorem not_mem_assignedFunction? {s : Text} {found : Text × Text}
    (h : assignedFunction? s = some found) : '/' ∉ found.1 := by
  obtain ⟨t, ht⟩ := exists_of_declared? h
  obtain ⟨name, hname, hparams⟩ := Option.bind_eq_some_iff.1 ht
  obtain ⟨params, -, rfl⟩ := Option.map_eq_some_iff.1 hparams
  exact (not_mem_readAssignment? hname :)

/-- The name to which a value is assigned holds no slash. -/
theorem not_mem_assignedValue? {s : Text} {found : Text × Text}
    (h : assignedValue? s = some found) : '/' ∉ found.1 := by
  obtain ⟨t, ht⟩ := exists_of_declared? h
  obtain ⟨name, hname, hvalue⟩ := Option.bind_eq_some_iff.1 ht
  dsimp only at hvalue
  split at hvalue
  · cases hvalue
  · cases hvalue
    exact (not_mem_readAssignment? hname :)

/-- A form of code with a slash in the name that it finds is a property. -/
theorem slashedKey_of_functionProperty? {code : Text} {found : Text × Text}
    (h : functionProperty? (dropTrivia code) = some found) (hname : '/' ∈ found.1) :
    slashedKey code = true := by
  obtain ⟨key, hkey, hparams⟩ := Option.bind_eq_some_iff.1 h
  obtain ⟨params, -, rfl⟩ := Option.map_eq_some_iff.1 hparams
  rw [slashedKey, hkey, Option.any_some]
  exact List.contains_iff_mem.2 hname

/-- A slash in the name of a property comes from a key in quotes. -/
theorem slashedKey_of_valueProperty? {code : Text} {found : Text × Text}
    (h : valueProperty? (dropTrivia code) = some found) (hname : '/' ∈ found.1) :
    slashedKey code = true := by
  obtain ⟨key, hkey, rfl⟩ := Option.map_eq_some_iff.1 h
  rw [slashedKey, hkey, Option.any_some]
  exact List.contains_iff_mem.2 hname

/-- A name in code with a slash in it is the key of a property. -/
theorem slashedKey_of_ofCode {code name : Text} (h : (Signature.ofCode code).name = some name)
    (hname : '/' ∈ name) : slashedKey code = true := by
  unfold Signature.ofCode at h
  cases hread : Signature.read? (dropTrivia code) with
  | none =>
    rw [hread] at h
    cases h
  | some sig =>
    rw [hread, Option.getD_some] at h
    rcases eq_some_of_orElse hread with hfunction | hvalue
    · obtain ⟨found, hfound, rfl⟩ := Option.map_eq_some_iff.1 hfunction
      cases h
      have hslash := mem_of_mem_dropQuotes hname
      rcases eq_some_of_orElse hfound with hdeclaration | hfound
      · exact absurd hslash (not_mem_functionDeclaration? hdeclaration)
      · rcases eq_some_of_orElse hfound with hassigned | hproperty
        · exact absurd hslash (not_mem_assignedFunction? hassigned)
        · exact slashedKey_of_functionProperty? hproperty hslash
    · obtain ⟨found, hfound, rfl⟩ := Option.map_eq_some_iff.1 hvalue
      cases h
      have hslash := mem_of_mem_dropQuotes hname
      rcases eq_some_of_orElse hfound with hassigned | hproperty
      · exact absurd hslash (not_mem_assignedValue? hassigned)
      · exact slashedKey_of_valueProperty? hproperty hslash

/-! ### Names of classes -/

/-- The comment of a doc block documents a class and does not name it, and the code behind it
is a property with a slash in its key. -/
def DocBlock.hasSlashedKey (b : DocBlock) : Bool :=
  let node := (DocNode.ofComment b.line b.comment).1
  node.kind = .cls && node.name.isNone && slashedKey b.code

/-- In some doc block of a source the class has a slash in its key. -/
def hasSlashedKey (source : Text) : Bool :=
  match docBlocks source with
  | .ok blocks => blocks.any DocBlock.hasSlashedKey
  | .error _ => false

/-- A class that a doc block documents gets a slash in its name from a property key only. -/
theorem slashless_read {b : DocBlock} (h : b.hasSlashedKey = false) (hkind : b.read.1.kind = .cls) :
    Slashless b.read.1.name := by
  have hkind : (DocNode.ofComment b.line b.comment).1.kind = .cls := hkind
  intro name hname hslash
  cases hcomment : (DocNode.ofComment b.line b.comment).1.name with
  | some n =>
    have hread : b.read.1.name = some n := by
      rw [DocBlock.read, DocNode.fillFromCode, DocNode.fill, hcomment]
      rfl
    rw [hread] at hname
    cases hname
    exact slashless_ofComment b.line b.comment name hcomment hslash
  | none =>
    have hread : b.read.1.name
        = (Signature.ofCode b.code).name.map (DocNode.nameFromCode .cls) := by
      rw [DocBlock.read, DocNode.fillFromCode, DocNode.fill, hcomment, hkind]
      rfl
    rw [hread] at hname
    obtain ⟨n, hn, rfl⟩ := Option.map_eq_some_iff.1 hname
    have hkey := slashedKey_of_ofCode hn hslash
    rw [DocBlock.hasSlashedKey, hkind, hcomment, hkey] at h
    cases h

/-- Without such keys, the names of the classes in the sources have no slash. -/
theorem not_mem_of_mem_keys_ofUnits {units : List (List DocNode)}
    (h : ∀ nodes ∈ units, ∀ node ∈ nodes, node.kind = .cls → Slashless node.name) {name : Text}
    (hname : name ∈ (Catalog.ofUnits units).classes.keys) : '/' ∉ name := by
  obtain ⟨cls, hget⟩ := SortedBy.mem_keys_iff.1 hname
  rw [get?_ofUnits] at hget
  obtain ⟨place, hplace, -⟩ := Option.map_eq_some_iff.1 hget
  obtain ⟨nodes, hnodes, hmem⟩ := List.mem_flatMap.1 (List.mem_of_getLast? hplace)
  obtain ⟨node, hnode, hkind, hnamed⟩ := placesOf_ne_nil_iff.1 (List.ne_nil_of_mem hmem)
  exact h nodes hnodes node hnode hkind name hnamed

end ApiDocs
