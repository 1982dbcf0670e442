import ApiDocs.Proofs.Code.Functions
import ApiDocs.Proofs.Text.CharBytes
/-!
# Values that refer to something

The value of a name may be an identifier, which refers to something and is no literal.  The name is
read, and no type is, unless the start of the value looks like a literal: a comment in front of the
identifier is taken for a regular expression, an identifier that starts with the word of a function
for a function, and one with a dollar sign behind a truth value for this truth value.

Main definitions:

- `IsReference`: identifiers that are no words of literals.
- `OpensValue`: how code starts, up to the value.
- `TakenFor`: the type that is read from an identifier with blanks and comments in front of it.

Main results:

- `exists_read?_of_value`: the signature of a value.
- `takenFor_typeOfLiteral?`: the type of an identifier.
- `type_of_reference`: the signature of a name whose value is an identifier.
-/

namespace ApiDocs

/-! ### Identifiers and literals -/

/-- The characters that an identifier of a reference starts with. -/
def isReferenceStart (c : Char) : Bool :=
  c.isAlpha || c == '_' || c == '$'

/-- An identifier that starts with a letter, an underscore or a dollar sign, and is none of the
words that literals start with. -/
structure IsReference (word : Text) : Prop extends IsIdentifier word where
  start : ∀ c, word.head? = some c → isReferenceStart c = true
  no_literal : word ∉ ["true".toList, "false".toList, "function".toList]

/-- A reference is an identifier that can stand for a value and is no word of a literal. -/
theorem isReference_iff {word : Text} :
    IsReference word ↔ IsIdentifier word ∧ word.head?.all isReferenceStart = true ∧
      ["true".toList, "false".toList, "function".toList].contains word = false := by
  rw [Option.all_eq_true, Bool.eq_false_iff, Ne, List.contains_iff_mem]
  exact ⟨fun h => ⟨h.toIsIdentifier, h.start, h.no_literal⟩, fun h => ⟨h.1, h.2.1, h.2.2⟩⟩

instance (word : Text) : Decidable (IsReference word) :=
  decidable_of_iff _ isReference_iff.symm

/-- What is read as the type of an identifier behind a gap of blanks and comments. -/
inductive TakenFor (gap word : Text) : Option Text → Prop
  | expression (hgap : ¬ Blanks gap) : TakenFor gap word (some "RegExp".toList)
  | truth (hgap : Blanks gap) (h : "true$".toList <+: word ∨ "false$".toList <+: word) :
      TakenFor gap word (some "Boolean".toList)
  | function (hgap : Blanks gap) (h : "function".toList <+: word) :
      TakenFor gap word (some "Function".toList)
  | reference (hgap : Blanks gap) (htrue : ¬ "true$".toList <+: word)
      (hfalse : ¬ "false$".toList <+: word) (hfunction : ¬ "function".toList <+: word) :
      TakenFor gap word none

/-- An identifier gets no type when only blanks stand before it and it starts like no literal. -/
theorem TakenFor.eq_none_iff {gap word : Text} {type : Option Text} (h : TakenFor gap word type) :
    type = none ↔ Blanks gap ∧ ¬ "true$".toList <+: word ∧ ¬ "false$".toList <+: word ∧
      ¬ "function".toList <+: word := by
  cases h with
  | expression hgap => exact iff_of_false nofun fun hnone => hgap hnone.1
  | truth hgap h =>
    exact iff_of_false nofun fun hnone => h.elim hnone.2.1 hnone.2.2.1
  | function hgap h => exact iff_of_false nofun fun hnone => hnone.2.2.2 h
  | reference hgap htrue hfalse hfunction =>
    exact iff_of_true rfl ⟨hgap, htrue, hfalse, hfunction⟩

/-- No literal but a truth value starts like an identifier. -/
theorem isReferenceStart_plain {c : Char} (h : isReferenceStart c = true) :
    isBlank c = false ∧ isDigit c = false ∧ c ∉ ['"', '\'', '`', '[', '{', '/', '-', '.'] := by
  have hascii : c.toNat < 0x80 := by
    rcases Bool.or_eq_true_iff.1 h with h | h
    · rcases Bool.or_eq_true_iff.1 h with h | h
      · exact toNat_lt_of_isAlphanum (by simp [Char.isAlphanum, h])
      · rw [beq_iff_eq.1 h]
        decide
    · rw [beq_iff_eq.1 h]
      decide
  revert h
  exact Text.forall_ascii (p := fun c => isReferenceStart c = true →
    isBlank c = false ∧ isDigit c = false ∧ c ∉ ['"', '\'', '`', '[', '{', '/', '-', '.'])
    (by decide +kernel) hascii

/-- Where a reference can start, only the words of literals tell a type. -/
theorem typeOfLiteral?_of_start {c : Char} (h : isReferenceStart c = true) (s : Text) :
    typeOfLiteral? (c :: s)
      = if (dropWord? "true".toList (c :: s)).isSome ∨ (dropWord? "false".toList (c :: s)).isSome
        then some "Boolean".toList
        else if "function".toList.isPrefixOf (c :: s) then some "Function".toList
        else none := by
  obtain ⟨hblank, hdigit, hmark⟩ := isReferenceStart_plain h
  simp only [List.mem_cons, List.not_mem_nil, or_false, not_or] at hmark
  obtain ⟨hdouble, hsingle, hback, hsquare, hcurly, hslash, hminus, hdot⟩ := hmark
  have hnumber : startsNumber (c :: s) = false := by
    simp only [startsNumber, List.head?_cons, Option.some.injEq, if_neg hminus]
    split
    next heq => exact absurd (List.cons.inj heq).1 hdot
    next heq =>
      cases heq
      exact hdigit
    next heq => cases heq
  have hstring : ¬(c = '"' ∨ c = '\'' ∨ c = '`') := by simp [hdouble, hsingle, hback]
  unfold typeOfLiteral?
  rw [Text.trimStart_eq_self (stops_cons hblank s)]
  dsimp only [List.head?_cons]
  rw [if_neg hstring, if_neg hsquare, if_neg hcurly, if_neg hslash, hnumber,
    if_neg Bool.false_ne_true]

/-- A word that stands at the start of an identifier and what follows it stands in the
identifier. -/
theorem prefix_append_iff {p : Char → Bool} {start word rest : Text}
    (hstart : ∀ c ∈ start, p c = true) (hrest : Stops p rest) :
    start <+: word ++ rest ↔ start <+: word := by
  constructor
  · rintro ⟨t, ht⟩
    rcases List.append_eq_append_iff.1 ht with ⟨u, hword, -⟩ | ⟨u, hstart', hrest'⟩
    · exact ⟨u, hword.symm⟩
    · cases u with
      | nil => exact ⟨[], by rw [hstart', List.append_nil, List.append_nil]⟩
      | cons c u =>
        -- the rest cannot go on with what is missing of the word
        have hc : p c = true := hstart c (by rw [hstart']; simp)
        rw [hrest c (by rw [hrest']; rfl)] at hc
        cases hc
  · exact fun h => h.trans (List.prefix_append word rest)

/-- A word stands alone at the start of a longer identifier when a dollar sign follows it there. -/
theorem isSome_dropWord?_iff {start word rest : Text} (hstart : ∀ c ∈ start, isNameChar c = true)
    (hword : IsIdentifier word) (hne : word ≠ start) (hrest : Stops isNameChar rest) :
    (dropWord? start (word ++ rest)).isSome ↔ start ++ ['$'] <+: word := by
  rw [Option.isSome_iff_exists]
  constructor
  · rintro ⟨t, ht⟩
    obtain ⟨hsplit, hstops⟩ := dropWord?_eq_some_iff.1 ht
    have hahead : start <+: word ++ rest := ⟨t, hsplit.symm⟩
    obtain ⟨u, rfl⟩ := (prefix_append_iff hstart hrest).1 hahead
    rw [List.append_assoc, List.append_right_inj] at hsplit
    cases u with
    | nil => exact absurd (List.append_nil start) hne
    | cons c u =>
      have hno : isWordChar c = false := hstops c (by rw [← hsplit]; rfl)
      have hname : isNameChar c = true := hword.nameChar c (by simp)
      rw [isNameChar, hno, Bool.false_or, beq_iff_eq] at hname
      rw [hname]
      exact ⟨u, by simp⟩
  · rintro ⟨u, rfl⟩
    refine ⟨'$' :: (u ++ rest), dropWord?_eq_some_iff.2 ⟨by simp, ?_⟩⟩
    exact stops_cons (by decide +kernel) _

/-- The type of a reference is that of the literal that it is taken for. -/
theorem takenFor_typeOfLiteral? {gap word rest : Text} (hgap : Blanks gap)
    (hword : IsReference word) (hrest : Stops isNameChar rest) :
    TakenFor gap word (typeOfLiteral? (word ++ rest)) := by
  have hno := hword.no_literal
  simp only [List.mem_cons, List.not_mem_nil, or_false, not_or] at hno
  have htrue := isSome_dropWord?_iff (List.all_eq_true.1 (by decide +kernel)) hword.toIsIdentifier
    hno.1 hrest
  have hfalse := isSome_dropWord?_iff (List.all_eq_true.1 (by decide +kernel)) hword.toIsIdentifier
    hno.2.1 hrest
  have hfunction : "function".toList <+: word ++ rest ↔ "function".toList <+: word :=
    prefix_append_iff (List.all_eq_true.1 (by decide +kernel)) hrest
  rw [← List.isPrefixOf_iff_prefix] at hfunction
  obtain ⟨c, t, rfl, -⟩ := hword.exists_cons
  rw [List.cons_append, typeOfLiteral?_of_start (hword.start c rfl)]
  rw [List.cons_append] at htrue hfalse hfunction
  split
  next h => exact .truth hgap (h.imp htrue.1 hfalse.1)
  next h =>
    rw [not_or] at h
    split
    next hf => exact .function hgap (hfunction.1 hf)
    next hf =>
      exact .reference hgap (mt htrue.2 h.1) (mt hfalse.2 h.2) (mt hfunction.2 hf)

/-! ### The signature of a value -/

/-- How code starts that gives a name a value, up to the equals sign or the colon, with the name as
it is written there. -/
inductive OpensValue : Text → Text → Prop
  | assigned {declarator name before : Text} (hdeclarator : IsDeclarator declarator)
      (hname : IsDotted name) (hbefore : Blanks before) :
      OpensValue (declarator ++ (name ++ (before ++ ['=']))) name
  | property {key before : Text} (hkey : IsKey key) (hbefore : Blanks before) :
      OpensValue (key ++ (before ++ [':'])) key

theorem OpensValue.bare {head written : Text} (h : OpensValue head written) (s : Text) :
    Bare (head ++ s) := by
  cases h with
  | assigned hdeclarator hname =>
    rw [List.append_assoc, List.append_assoc]
    exact bare_assigned hdeclarator hname _
  | property hkey =>
    rw [List.append_assoc]
    exact bare_key hkey _

/-- The form of code that gives a name a value. -/
theorem OpensValue.exists_form {head written : Text} (h : OpensValue head written)
    {after value : Text} (hafter : Blanks after) (hvalue : Stops isBlank value) (hne : value ≠ [])
    (hequals : value.head? ≠ some '=') :
    ∃ f ∈ [Form.assignedValue, Form.valueProperty],
      f.Spells (head ++ (after ++ value)) written (restOfLine value) := by
  cases h with
  | assigned hdeclarator hname hbefore =>
    refine ⟨.assignedValue, by decide, ?_⟩
    have hform := Assigns.intro hdeclarator hname hbefore hafter hvalue
    simpa using Form.Spells.assignedValue hform hne hequals
  | property hkey hbefore =>
    refine ⟨.valueProperty, by decide, ?_⟩
    have hform := HasProperty.intro hkey hbefore hafter hvalue
    simpa using Form.Spells.valueProperty hform

/-- A value that has one of the forms of values shows the name and the type of the literal, also
where a form of functions is found before. -/
theorem exists_read?_of_value {f : Form} (hf : f ∈ [Form.assignedValue, Form.valueProperty])
    {code written value : Text} (h : f.Spells code written value) :
    ∃ sig, Signature.read? code = some sig ∧ sig.name = some (dropQuotes written) ∧
      sig.type = typeOfLiteral? value := by
  have hfind := Form.find?_eq_some_iff.2 h
  have hread : f.read? code = some (Signature.ofValue (written, value)) := by
    rw [Form.read?, hfind]
    rcases List.mem_pair.1 hf with rfl | rfl <;> rfl
  cases hfirst : Signature.read? code with
  | none =>
    rw [Form.read?_eq_findSome?, List.findSome?_eq_none_iff] at hfirst
    have hall : f ∈ Form.all := by
      rcases List.mem_pair.1 hf with rfl | rfl <;> decide
    rw [hfirst f hall] at hread
    cases hread
  | some sig =>
    rw [Form.read?_eq_findSome?] at hfirst
    obtain ⟨f', -, hread'⟩ := List.exists_of_findSome?_eq_some hfirst
    have hsame := Prod.mk.inj (Form.same_name_and_type hread' hread)
    exact ⟨sig, rfl, hsame.1, hsame.2⟩

/-! ### Identifiers as values -/

/-- What is left of blanks and comments in front of something else starts with a comment, unless
they are blanks alone. -/
theorem trimStart_spellTrivia (gap : List Trivia) {s : Text} (hs : Stops isBlank s) :
    (Blanks (spellTrivia gap) ∧ Text.trimStart (spellTrivia gap ++ s) = s) ∨
      ¬ Blanks (spellTrivia gap) ∧ ∃ t, Text.trimStart (spellTrivia gap ++ s) = '/' :: t := by
  induction gap with
  | nil => exact .inl ⟨List.forall_mem_nil _, Text.trimStart_eq_self hs⟩
  | cons piece gap ih =>
    have hslash : ∀ t, ¬ Blanks ('/' :: t) := fun t h => by
      have hblank := h '/' List.mem_cons_self
      revert hblank
      decide
    rw [spellTrivia_cons]
    cases piece with
    | blanks run hrun =>
      have hall : Blanks (run ++ spellTrivia gap) ↔ Blanks (spellTrivia gap) := by
        rw [Blanks, List.forall_mem_append]
        exact and_iff_right hrun
      simp only [Trivia.text, List.append_assoc, Text.trimStart_append_of_blank hrun, hall]
      exact ih
    | line body hbody => exact .inr ⟨hslash _, _, trimStart_slash _⟩
    | block body hbody => exact .inr ⟨hslash _, _, trimStart_slash _⟩

/-- A name whose value is an identifier shows that name, without quotes around it.  The value has no
type, unless a comment stands in front of it or it starts with the word of a function or with a
truth value before a dollar sign. -/
theorem type_of_reference {head written : Text} (h : OpensValue head written) {word rest : Text}
    (hword : IsReference word) (hrest : Stops isNameChar rest) (lead gap : List Trivia) :
    let sig := Signature.ofCode
      (spellTrivia lead ++ (head ++ (spellTrivia gap ++ (word ++ rest))))
    (∀ name, Unquoted name → (written = name ∨
        ∃ quote, (quote = '"' ∨ quote = '\'') ∧ written = quote :: name ++ [quote]) →
      sig.name = some name) ∧
    TakenFor (spellTrivia gap) word sig.type ∧
    (sig.type = none ↔ Blanks (spellTrivia gap) ∧ ¬ "true$".toList <+: word ∧
      ¬ "false$".toList <+: word ∧ ¬ "function".toList <+: word) := by
  intro sig
  obtain ⟨c, t, hcons, hc⟩ := hword.exists_cons
  have hstart : Stops isBlank (word ++ rest) := by
    rw [hcons]
    exact stops_cons (isBlank_of_isNameChar hc) _
  -- the value, as it is read behind the blanks
  obtain ⟨after, hafter, hbehind, hvalue⟩ :=
    trimStart_eq_iff.1 (Eq.refl (Text.trimStart (spellTrivia gap ++ (word ++ rest))))
  generalize hfound : Text.trimStart (spellTrivia gap ++ (word ++ rest)) = value at hbehind hvalue
  have htaken : value ≠ [] ∧ value.head? ≠ some '=' ∧
      TakenFor (spellTrivia gap) word (typeOfLiteral? (restOfLine value)) := by
    rcases trimStart_spellTrivia gap hstart with ⟨hgap, htrim⟩ | ⟨hgap, u, htrim⟩
    · have hline : restOfLine (word ++ rest) = word ++ restOfLine rest :=
        List.takeWhile_append_of_pos (Text.forall_ne
          (not_mem_of_forall hword.nameChar (by decide +kernel)))
      rw [← hfound, htrim, hline]
      refine ⟨by simp [hcons], ?_, takenFor_typeOfLiteral? hgap hword hrest.takeWhile⟩
      rw [hcons]
      rintro ⟨⟩
      revert hc
      decide +kernel
    · rw [← hfound, htrim]
      exact ⟨List.cons_ne_nil _ _, by simp, .expression hgap⟩
  obtain ⟨hne, hequals, htype⟩ := htaken
  obtain ⟨f, hf, hspells⟩ := h.exists_form hafter hvalue hne hequals
  obtain ⟨shown, hread, hname, hshown⟩ := exists_read?_of_value hf hspells
  have hsig : sig = shown := by
    simp only [sig, Signature.ofCode]
    rw [dropTrivia_append, dropTrivia_of_bare (h.bare _), hbehind, hread]
    rfl
  rw [hsig, hname, hshown]
  refine ⟨fun name hunquoted hwritten => ?_, htype, htype.eq_none_iff⟩
  rcases hwritten with rfl | ⟨quote, hquote, rfl⟩
  · rw [dropQuotes_of_unquoted hunquoted]
  · rw [dropQuotes_quoted hquote hunquoted]

/-- Behind a comment and a key in quotes, an identifier that only starts like a truth value. -/
theorem type_of_reference_behind_comment :
    let code := "// inner\n'max-width' : trueColor,".toList
    OpensValue "'max-width' :".toList "'max-width'".toList ∧ IsReference "trueColor".toList ∧
      (Signature.ofCode code).name = some "max-width".toList ∧
      (Signature.ofCode code).type = none := by
  intro code
  have hkey : IsKey "'max-width'".toList :=
    @IsKey.quoted '\'' "max-width".toList (.inr rfl) (by decide)
  have hhead : OpensValue "'max-width' :".toList "'max-width'".toList :=
    .property hkey blanks_space
  have hword : IsReference "trueColor".toList := by decide +kernel
  have hrest : Stops isNameChar ",".toList := stops_cons (by decide +kernel) []
  obtain ⟨hname, -, htype⟩ := type_of_reference hhead hword hrest
    [.line " inner".toList (by decide)] [.blanks [' '] blanks_space]
  have hunquoted : Unquoted "max-width".toList := unquoted_of_not_mem (by decide) (by decide)
  exact ⟨hhead, hword, hname _ hunquoted (.inr ⟨'\'', .inr rfl, rfl⟩),
    htype.2 ⟨blanks_space, by decide, by decide, by decide⟩⟩

/-- Three references that are taken for literals: by the word that one starts with, by the truth
value in front of the dollar sign in another, and by the comment in front of the third. -/
theorem references_taken_for_literals :
    OpensValue "a:".toList "a".toList ∧
      (∀ word ∈ ["functionName".toList, "true$x".toList, "b".toList], IsReference word) ∧
      (Signature.ofCode "a: functionName".toList).type = some "Function".toList ∧
      (Signature.ofCode "a: true$x".toList).type = some "Boolean".toList ∧
      (Signature.ofCode "a: /* c */ b".toList).type = some "RegExp".toList := by
  have hkey : IsKey "a".toList := .identifier (by decide +kernel)
  exact ⟨@OpensValue.property _ [] hkey (List.forall_mem_nil _), by decide +kernel,
    by decide +kernel, by decide +kernel, by decide +kernel⟩

end ApiDocs
