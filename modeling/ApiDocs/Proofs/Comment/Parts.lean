import ApiDocs.Comment.Parts
import ApiDocs.Proofs.Text.Trimming
import Mathlib.Data.List.Infix
import Mathlib.Data.List.TakeWhile
/-!
# Reading back the parts of a section

A type is written in braces and may use balanced braces itself; a name is written as it is, or
in brackets when it is optional.  Written in front of a body, with a blank before each part,
they are read back as they were.

Main definitions:

- `BalancedBraces`: the texts whose braces nest.
- `spaced`: parts of a line, with a blank before each of them.
- `braced`, `bracketed`: a type and an optional name as they are written.

Main results:

- `readBraces_append`: the brace that closes a type is the one behind a balanced text.
- `SectionParts.read_type`: the type in front of a name and a body.
- `readPlainName_append`, `readName_bracketed`: the name in front of a body.
-/

namespace ApiDocs

/-- Each closing brace of a text has an opening one before it, and the other way around. -/
structure BalancedBraces (t : Text) : Prop where
  never_ahead : ∀ p, p <+: t → p.count '}' ≤ p.count '{'
  settled : t.count '}' = t.count '{'

instance (t : Text) : Decidable (BalancedBraces t) :=
  decidable_of_iff ((∀ p ∈ t.inits, p.count '}' ≤ p.count '{') ∧ t.count '}' = t.count '{')
    ⟨fun h => ⟨fun p hp => h.1 p ((List.mem_inits p t).2 hp), h.2⟩,
      fun h => ⟨fun p hp => h.never_ahead p ((List.mem_inits p t).1 hp), h.settled⟩⟩

/-- The parts of a line, with a blank before each of them. -/
def spaced (parts : List Text) : Text :=
  parts.flatMap (' ' :: ·)

/-- A type as it is written. -/
def braced (type : Text) : Text :=
  '{' :: (type ++ ['}'])

/-- An optional name as it is written. -/
def bracketed (name : Text) : Text :=
  '[' :: (name ++ [']'])

/-! ### Parts behind blanks -/

@[simp]
theorem spaced_nil : spaced [] = [] := rfl

/-- There is a blank before each part. -/
theorem spaced_cons (part : Text) (parts : List Text) :
    spaced (part :: parts) = ' ' :: (part ++ spaced parts) :=
  rfl

/-- Parts in a row are spaced in a row. -/
theorem spaced_append (parts others : List Text) :
    spaced (parts ++ others) = spaced parts ++ spaced others :=
  List.flatMap_append

/-- The blank in front of the first part is all that trimming takes away. -/
theorem trimStart_spaced {part : Text} (parts : List Text) (rest : Text) (hne : part ≠ [])
    (h : Unpadded part) :
    Text.trimStart (spaced (part :: parts) ++ rest) = part ++ (spaced parts ++ rest) := by
  rw [spaced_cons, List.cons_append, Text.trimStart_blank (by decide), List.append_assoc]
  refine Text.trimStart_eq_self fun c hc => h.first c ?_
  rwa [List.head?_append_of_ne_nil part hne] at hc

/-- Without the blank in front, there is one blank between two parts. -/
theorem trimStart_spaced_eq_joinWith {parts : List Text} (h : ∀ p ∈ parts, p ≠ [] ∧ Unpadded p) :
    Text.trimStart (spaced parts) = Text.joinWith [' '] parts := by
  cases parts with
  | nil => rfl
  | cons part parts =>
    obtain ⟨hne, hunpadded⟩ := h part List.mem_cons_self
    have hstart := trimStart_spaced parts [] hne hunpadded
    rw [List.append_nil, List.append_nil] at hstart
    rw [hstart, Text.joinWith_cons, spaced]

/-- Parts on one line stay on it. -/
theorem unbroken_spaced {parts : List Text} (h : ∀ p ∈ parts, '\n' ∉ p) : '\n' ∉ spaced parts := by
  intro hbreak
  obtain ⟨p, hp, hin⟩ := List.mem_flatMap.1 hbreak
  rcases List.mem_cons.1 hin with heq | hin
  · exact absurd heq (by decide)
  · exact h p hp hin

theorem unpadded_braced (type : Text) : Unpadded (braced type) :=
  unpadded_enclosed (by decide) (by decide) type

theorem unpadded_bracketed (name : Text) : Unpadded (bracketed name) :=
  unpadded_enclosed (by decide) (by decide) name

/-- What follows the parts does not change how they are trimmed. -/
theorem trimStart_spaced_append {parts : List Text} (rest : Text) (hparts : parts ≠ [])
    (h : ∀ p ∈ parts, p ≠ [] ∧ Unpadded p) :
    Text.trimStart (spaced parts) ++ rest = Text.trimStart (spaced parts ++ rest) := by
  cases parts with
  | nil => exact absurd rfl hparts
  | cons part parts =>
    obtain ⟨hne, hunpadded⟩ := h part List.mem_cons_self
    have hstart := trimStart_spaced parts [] hne hunpadded
    rw [List.append_nil, List.append_nil] at hstart
    rw [hstart, trimStart_spaced parts rest hne hunpadded, List.append_assoc]

/-- Parts start with the blank before the first of them. -/
theorem head?_spaced {parts : List Text} {c : Char} (h : (spaced parts).head? = some c) :
    c = ' ' := by
  cases parts with
  | nil => simp at h
  | cons part parts => simpa [spaced_cons, eq_comm] using h

/-! ### Types -/

/-- In a text that closes as many braces as are open around it, and never more, the next brace
closes the type. -/
theorem readBraces_append {depth : Nat} {t : Text} (rest : Text)
    (hahead : ∀ p, p <+: t → p.count '}' ≤ p.count '{' + depth)
    (htotal : t.count '}' = t.count '{' + depth) :
    readBraces depth (t ++ '}' :: rest) = some (t, rest) := by
  induction t generalizing depth with
  | nil =>
    obtain rfl : depth = 0 := by simpa using htotal.symm
    rfl
  | cons c t ih =>
    have hinner : ∀ p, p <+: t → (c :: p).count '}' ≤ (c :: p).count '{' + depth := fun p hp =>
      hahead (c :: p) (List.cons_prefix_cons.2 ⟨rfl, hp⟩)
    rw [List.cons_append]
    unfold readBraces
    by_cases hopen : c = '{'
    · subst hopen
      have hread : readBraces (depth + 1) (t ++ '}' :: rest) = some (t, rest) := by
        refine ih (fun p hp => ?_) ?_
        · have h := hinner p hp
          simp only [List.count_cons_self, List.count_cons_of_ne (by decide : '{' ≠ '}')] at h
          omega
        · simp only [List.count_cons_self, List.count_cons_of_ne (by decide : '{' ≠ '}')] at htotal
          omega
      rw [if_pos rfl, hread]
      rfl
    · rw [if_neg hopen]
      by_cases hclose : c = '}'
      · subst hclose
        simp only [List.count_cons_self, List.count_cons_of_ne (by decide : '}' ≠ '{')]
          at hinner htotal
        cases depth with
        | zero => exact absurd (hinner [] List.nil_prefix) (by simp)
        | succ depth =>
          have hread : readBraces depth (t ++ '}' :: rest) = some (t, rest) :=
            ih (fun p hp => by have h := hinner p hp; omega) (by omega)
          rw [if_pos rfl]
          simp only [hread, Option.map_some]
      · have hread : readBraces depth (t ++ '}' :: rest) = some (t, rest) := by
          simp only [List.count_cons_of_ne hopen, List.count_cons_of_ne hclose] at hinner htotal
          exact ih hinner htotal
        rw [if_neg hclose, hread]
        rfl

/-- A type in braces is found, with what follows it. -/
theorem TypeReading.read_braced {t : Text} (rest : Text) (hbalanced : BalancedBraces t) :
    TypeReading.read (braced t ++ rest) = .found (Text.trim t) rest := by
  have hread : readBraces 0 (t ++ '}' :: rest) = some (t, rest) :=
    readBraces_append rest hbalanced.never_ahead hbalanced.settled
  simp [braced, TypeReading.read, hread]

/-- Without a brace at the start there is no type. -/
theorem TypeReading.read_absent {s : Text} (h : s.head? ≠ some '{') :
    TypeReading.read s = .absent := by
  unfold TypeReading.read
  split
  · simp at h
  · rfl

/-! ### Names -/

/-- The characters of a name. -/
theorem isNameChar_of_isName {name : Text} (h : isName name = true) {c : Char} (hc : c ∈ name) :
    (isNameChar c || c == '.') = true := by
  cases name with
  | nil => simp at hc
  | cons first rest =>
    simp only [isName, Bool.and_eq_true, List.all_eq_true] at h
    rcases List.mem_cons.1 hc with rfl | hc
    · have hfirst := h.1
      simp only [Bool.or_eq_true, beq_iff_eq] at hfirst
      rcases hfirst with (halpha | rfl) | rfl
      · simp [isNameChar, isWordChar_of_isAlpha halpha]
      · decide
      · decide
    · exact h.2 c hc

/-- A name holds none of the characters that it cannot be made of. -/
theorem not_mem_of_isName {name : Text} (h : isName name = true) {c : Char}
    (hc : (isNameChar c || c == '.') = false) : c ∉ name := fun hmem => by
  rw [isNameChar_of_isName h hmem] at hc
  exact Bool.noConfusion hc

/-- No character of a name is blank. -/
theorem isBlank_of_isName {name : Text} (h : isName name = true) {c : Char} (hc : c ∈ name) :
    isBlank c = false := by
  have hchar := isNameChar_of_isName h hc
  simp only [isNameChar, Bool.or_eq_true, beq_iff_eq] at hchar
  rcases hchar with (hword | rfl) | rfl
  · exact isBlank_of_isWordChar hword
  · decide
  · decide

/-- A name is not empty. -/
theorem ne_nil_of_isName {name : Text} (h : isName name = true) : name ≠ [] := by
  rintro rfl
  exact Bool.noConfusion h

/-- A name has no blanks at its ends. -/
theorem unpadded_of_isName {name : Text} (h : isName name = true) : Unpadded name :=
  ⟨fun _ hc => isBlank_of_isName h (List.mem_of_mem_head? hc),
    fun _ hc => isBlank_of_isName h (List.mem_of_getLast? hc)⟩

/-- A name in front of a blank, or at the end, is read with what follows it as body. -/
theorem readPlainName_append {name rest : Text} (h : isName name = true)
    (hrest : ∀ c, rest.head? = some c → isBlank c = true) :
    readPlainName (name ++ rest) = { name := some name, body := Text.trim rest } := by
  have hword : (name ++ rest).takeWhile (! isBlank ·) = name :=
    Text.takeWhile_run (fun c hc => by simp [isBlank_of_isName h hc])
      fun c hc => by simp [hrest c hc]
  simp [readPlainName, hword, h]

/-- Where a tag has no name, all of the text is body. -/
theorem readName_none (s : Text) : readName .none s = some { body := Text.trim s } :=
  rfl

/-- A name that is not in brackets is the first word. -/
theorem readName_of_isName {form : NameForm} (hform : form ≠ .none) {name rest : Text}
    (h : isName name = true) (hrest : ∀ c, rest.head? = some c → isBlank c = true) :
    readName form (name ++ rest) = some { name := some name, body := Text.trim rest } := by
  have hopen : (name ++ rest).head? ≠ some '[' := fun hhead => by
    rw [List.head?_append_of_ne_nil name (ne_nil_of_isName h)] at hhead
    exact not_mem_of_isName h (by decide) (List.mem_of_mem_head? hhead)
  rw [← readPlainName_append h hrest]
  unfold readName
  split
  · exact absurd rfl hform
  · simp_all
  · rfl

/-- The first closing bracket ends what is read as a name. -/
theorem readName_bracket {inner : Text} (rest : Text) (hclose : ']' ∉ inner)
    (h : isName (Text.trim (inner.takeWhile (· ≠ '='))) = true) :
    readName .bracketed ('[' :: (inner ++ ']' :: rest))
      = some { name := some (Text.trim (inner.takeWhile (· ≠ '='))), isOptional := true
               body := Text.trim rest } := by
  have hbreak : Text.breakOn? "]".toList (inner ++ ']' :: rest) = some (inner, rest) :=
    Text.breakOn?_append_singleton rest hclose
  simp only [readName, readBracketedName, hbreak, Option.map_some, h, if_true]

/-- A name in brackets is an optional one. -/
theorem readName_bracketed {name : Text} (rest : Text) (h : isName name = true) :
    readName .bracketed (bracketed name ++ rest)
      = some { name := some name, isOptional := true, body := Text.trim rest } := by
  have hdefault : name.takeWhile (· ≠ '=') = name :=
    List.takeWhile_eq_self_iff.2 (Text.forall_ne (not_mem_of_isName h (by decide)))
  have hword : Text.trim (name.takeWhile (· ≠ '=')) = name := by
    rw [hdefault, Text.trim_of_unpadded (unpadded_of_isName h)]
  have hread := readName_bracket rest (not_mem_of_isName h (by decide)) (by rwa [hword])
  rw [hword] at hread
  rw [bracketed, List.cons_append, List.append_assoc]
  exact hread

/-! ### The parts of a section -/

@[simp]
theorem SectionParts.read_trimStart (hasType : Bool) (form : NameForm) (s : Text) :
    SectionParts.read hasType form (Text.trimStart s) = SectionParts.read hasType form s := by
  simp only [SectionParts.read, Text.trimStart_trimStart]

/-- Where a tag has no type, the name stands first. -/
theorem SectionParts.read_untyped {form : NameForm} {s : Text} {parts : SectionParts}
    (hname : readName form (Text.trimStart s) = some parts) :
    SectionParts.read false form s = { parts with type := none } := by
  simp [SectionParts.read, hname]

/-- The type in front of a text whose name and body are read, where there is one. -/
theorem SectionParts.read_type {form : NameForm} {type : Option Text} {rest : Text}
    {parts : SectionParts} (htype : ∀ t ∈ type, BalancedBraces t)
    (hrest : type = none → (Text.trimStart rest).head? ≠ some '{')
    (hname : readName form (Text.trimStart rest) = some parts) :
    SectionParts.read true form (spaced (type.toList.map braced) ++ rest)
      = { parts with type := type.map Text.trim } := by
  cases type with
  | none =>
    have habsent := TypeReading.read_absent (hrest rfl)
    simp [SectionParts.read, habsent, hname]
  | some t =>
    have hstart : Text.trimStart (spaced [braced t] ++ rest) = braced t ++ rest :=
      trimStart_spaced [] rest (List.cons_ne_nil _ _) (unpadded_braced t)
    have hfound := TypeReading.read_braced rest (htype t rfl)
    simp [SectionParts.read, hstart, hfound, hname]

end ApiDocs
