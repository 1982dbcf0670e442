import ApiDocs.Proofs.Comment.Parts
/-!
# What a section starts with

The text of a section may start with a type in braces, and then with a name.  Both are described
here without the readers: a type is a text with balanced braces between two more, a name is a whole
word.  The readers find a type or a name exactly where one stands, and behind a brace that nothing
closes they leave the whole text for body.

Main definitions:

- `TypeAhead`, `NameAhead`: a type, and a name, at the start of a text with what follows it.
- `UnclosedType`: a brace at the start of a text that nothing closes.
- `AfterType`, `AfterName`: what follows a type, and a name, as far as there is one.

Main results:

- `readBraces_eq_some_iff`: what is read up to the closing brace is a balanced text.
- `unclosedType_iff`: the reader tells which braces are never closed.
- `SectionParts.read_plain`: name and body stand behind the type.
- `SectionParts.read_unclosed`: nothing is read behind a brace that nothing closes.
-/

namespace ApiDocs

/-- Behind blanks, the text starts with a type in braces, and `rest` follows it. -/
structure TypeAhead (s inner rest : Text) : Prop where
  start : Text.trimStart s = braced inner ++ rest
  balanced : BalancedBraces inner

/-- Behind blanks, the text starts with a brace, and nothing closes it. -/
structure UnclosedType (s : Text) : Prop where
  start : (Text.trimStart s).head? = some '{'
  never_closed : ∀ inner rest, ¬ TypeAhead s inner rest

/-- Behind blanks, the first word of the text is a name that tags accept, and `rest` follows it. -/
structure NameAhead (s name rest : Text) : Prop where
  start : Text.trimStart s = name ++ rest
  accepted : isName name = true
  ends : ∀ c, rest.head? = some c → isBlank c = true

/-- What follows the type of a text, all of it where the tag has no type or none is written. -/
inductive AfterType (hasType : Bool) (s : Text) : Text → Prop
  | absent (h : hasType = true → (Text.trimStart s).head? ≠ some '{') : AfterType hasType s s
  | found {inner rest : Text} (htag : hasType = true) (h : TypeAhead s inner rest) :
      AfterType hasType s rest

/-- What follows the name of a text, all of it where the first word is no name. -/
inductive AfterName (s : Text) : Text → Prop
  | absent (h : ∀ name rest, ¬ NameAhead s name rest) : AfterName s s
  | found {name rest : Text} (h : NameAhead s name rest) : AfterName s rest

/-! ### Types -/

theorem forall_prefix_cons {p : Text → Prop} {c : Char} {s : Text} :
    (∀ t, t <+: c :: s → p t) ↔ p [] ∧ ∀ t, t <+: s → p (c :: t) := by
  constructor
  · intro h
    exact ⟨h [] List.nil_prefix, fun t ht => h (c :: t) (List.cons_prefix_cons.2 ⟨rfl, ht⟩)⟩
  · rintro ⟨hnil, hcons⟩ t ht
    rcases List.prefix_cons_iff.1 ht with rfl | ⟨u, rfl, hu⟩
    · exact hnil
    · exact hcons u hu

/-- What is read up to the closing brace closes as many braces as are open around it, and never
more before. -/
theorem eq_append_of_readBraces {depth : Nat} {s inner rest : Text}
    (h : readBraces depth s = some (inner, rest)) :
    s = inner ++ '}' :: rest ∧ (∀ p, p <+: inner → p.count '}' ≤ p.count '{' + depth) ∧
      inner.count '}' = inner.count '{' + depth := by
  induction s generalizing depth inner with
  | nil => cases h
  | cons c s ih =>
    unfold readBraces at h
    by_cases hopen : c = '{'
    · subst hopen
      rw [if_pos rfl] at h
      obtain ⟨⟨t, tail⟩, hread, heq⟩ := Option.map_eq_some_iff.1 h
      cases heq
      obtain ⟨rfl, hahead, htotal⟩ := ih hread
      simp only [forall_prefix_cons, List.count_cons_self,
        List.count_cons_of_ne (by decide : '{' ≠ '}')]
      refine ⟨rfl, ⟨Nat.zero_le _, fun p hp => ?_⟩, by omega⟩
      have hinner := hahead p hp
      omega
    · rw [if_neg hopen] at h
      by_cases hclose : c = '}'
      · subst hclose
        rw [if_pos rfl] at h
        cases depth with
        | zero =>
          cases h
          exact ⟨rfl, fun p hp => by simp [List.prefix_nil.1 hp], rfl⟩
        | succ depth =>
          obtain ⟨⟨t, tail⟩, hread, heq⟩ := Option.map_eq_some_iff.1 h
          cases heq
          obtain ⟨rfl, hahead, htotal⟩ := ih hread
          simp only [forall_prefix_cons, List.count_cons_self,
            List.count_cons_of_ne (by decide : '}' ≠ '{')]
          refine ⟨rfl, ⟨Nat.zero_le _, fun p hp => ?_⟩, by omega⟩
          have hinner := hahead p hp
          omega
      · rw [if_neg hclose] at h
        obtain ⟨⟨t, tail⟩, hread, heq⟩ := Option.map_eq_some_iff.1 h
        cases heq
        obtain ⟨rfl, hahead, htotal⟩ := ih hread
        simp only [forall_prefix_cons, List.count_cons_of_ne hopen, List.count_cons_of_ne hclose]
        exact ⟨rfl, ⟨Nat.zero_le _, hahead⟩, htotal⟩

/-- The reader of a type finds a balanced text in front of the brace that closes it. -/
theorem readBraces_eq_some_iff {s inner rest : Text} :
    readBraces 0 s = some (inner, rest) ↔ s = inner ++ '}' :: rest ∧ BalancedBraces inner := by
  constructor
  · intro h
    obtain ⟨hs, hahead, htotal⟩ := eq_append_of_readBraces h
    exact ⟨hs, hahead, htotal⟩
  · rintro ⟨rfl, hbalanced⟩
    exact readBraces_append rest hbalanced.never_ahead hbalanced.settled

variable {s inner name rest : Text} {hasType : Bool} {form : NameForm} {parts : SectionParts}

/-- A type ahead starts with a brace. -/
theorem TypeAhead.head? (h : TypeAhead s inner rest) : (Text.trimStart s).head? = some '{' := by
  rw [h.start]
  rfl

/-- A type ahead is read, and what follows it is left. -/
theorem TypeAhead.read (h : TypeAhead s inner rest) :
    TypeReading.read (Text.trimStart s) = .found (Text.trim inner) rest := by
  rw [h.start, TypeReading.read_braced rest h.balanced]

/-- The reader says so exactly when nothing closes the brace that a text starts with. -/
theorem unclosedType_iff :
    UnclosedType s ↔ TypeReading.read (Text.trimStart s) = .unclosed := by
  by_cases hstart : (Text.trimStart s).head? = some '{'
  · obtain ⟨t, ht⟩ := List.head?_eq_some_iff.1 hstart
    cases hread : readBraces 0 t with
    | none =>
      have hnever : ∀ inner rest, ¬ TypeAhead s inner rest := fun inner rest h => by
        simpa [ht, TypeReading.read, hread] using h.read
      exact iff_of_true ⟨hstart, hnever⟩ (by simp [ht, TypeReading.read, hread])
    | some found =>
      obtain ⟨rfl, hbalanced⟩ := readBraces_eq_some_iff.1 hread
      have hahead : TypeAhead s found.1 found.2 := ⟨by simp [ht, braced], hbalanced⟩
      refine iff_of_false (fun h => h.never_closed _ _ hahead) ?_
      simp [ht, TypeReading.read, hread]
  · have habsent : TypeReading.read (Text.trimStart s) = .absent := TypeReading.read_absent hstart
    exact iff_of_false (fun h => hstart h.start) (by simp [habsent])

/-- A text has a type ahead, or a brace that nothing closes, or no brace. -/
theorem typeAhead_or_unclosedType_or_head? (s : Text) :
    (∃ inner rest, TypeAhead s inner rest) ∨ UnclosedType s ∨
      (Text.trimStart s).head? ≠ some '{' := by
  by_cases hahead : ∃ inner rest, TypeAhead s inner rest
  · exact .inl hahead
  · by_cases hstart : (Text.trimStart s).head? = some '{'
    · exact .inr (.inl ⟨hstart, fun inner rest h => hahead ⟨inner, rest, h⟩⟩)
    · exact .inr (.inr hstart)

theorem afterType_untyped (s : Text) : AfterType false s s :=
  .absent fun h => Bool.noConfusion h

/-- What follows the type of a text is there unless a brace is never closed. -/
theorem exists_afterType_or_unclosedType (hasType : Bool) (s : Text) :
    (∃ rest, AfterType hasType s rest) ∨ hasType = true ∧ UnclosedType s := by
  cases hasType with
  | false => exact .inl ⟨s, afterType_untyped s⟩
  | true =>
    rcases typeAhead_or_unclosedType_or_head? s with ⟨inner, rest, hahead⟩ | hunclosed | hstart
    · exact .inl ⟨rest, .found rfl hahead⟩
    · exact .inr ⟨rfl, hunclosed⟩
    · exact .inl ⟨s, .absent fun _ => hstart⟩

/-! ### Names -/

/-- A name ahead is read, and what follows it is the body. -/
theorem NameAhead.readPlainName (h : NameAhead s name rest) :
    readPlainName (Text.trimStart s) = { name := some name, body := Text.trim rest } := by
  rw [h.start, readPlainName_append h.accepted h.ends]

/-- Without a name ahead, all of the text is the body. -/
theorem readPlainName_unnamed (h : ∀ name rest, ¬ NameAhead s name rest) :
    readPlainName (Text.trimStart s) = { body := Text.trim s } := by
  have hword : isName ((Text.trimStart s).takeWhile (! isBlank ·)) = false := by
    rw [Bool.eq_false_iff]
    intro haccepted
    refine h _ _ ⟨List.takeWhile_append_dropWhile.symm, haccepted, fun c hc => ?_⟩
    have hnot := List.head?_dropWhile_not (! isBlank ·) (Text.trimStart s)
    rw [hc] at hnot
    simpa using hnot
  simp [ApiDocs.readPlainName, hword]

/-- A name does not start like a type. -/
theorem NameAhead.head?_ne (h : NameAhead s name rest) :
    (Text.trimStart s).head? ≠ some '{' := by
  rw [h.start, List.head?_append_of_ne_nil name (ne_nil_of_isName h.accepted)]
  exact fun hopen => not_mem_of_isName h.accepted (by decide) (List.mem_of_mem_head? hopen)

/-- A text has a name ahead, or none. -/
theorem exists_afterName (s : Text) : ∃ body, AfterName s body := by
  by_cases hahead : ∃ name rest, NameAhead s name rest
  · obtain ⟨name, rest, h⟩ := hahead
    exact ⟨rest, .found h⟩
  · exact ⟨s, .absent fun name rest h => hahead ⟨name, rest, h⟩⟩

theorem AfterName.body_readPlainName {body : Text} (h : AfterName s body) :
    (ApiDocs.readPlainName (Text.trimStart s)).body = Text.trim body := by
  cases h with
  | absent h => rw [readPlainName_unnamed h]
  | found h => rw [h.readPlainName]

/-! ### The parts of a section -/

/-- The parts of a text without a type. -/
theorem SectionParts.read_typeless
    (htype : hasType = true → (Text.trimStart s).head? ≠ some '{')
    (hname : readName form (Text.trimStart s) = some parts) :
    SectionParts.read hasType form s = { parts with type := none } := by
  cases hasType with
  | false => exact SectionParts.read_untyped hname
  | true => simp [SectionParts.read, TypeReading.read_absent (htype rfl), hname]

/-- The parts of a text with a type. -/
theorem SectionParts.read_typed (htype : TypeAhead s inner rest)
    (hname : readName form (Text.trimStart rest) = some parts) :
    SectionParts.read true form s = { parts with type := some (Text.trim inner) } := by
  simp [SectionParts.read, htype.read, hname]

/-- Behind a brace that nothing closes, the whole text is body. -/
theorem SectionParts.read_unclosed (form : NameForm) (h : UnclosedType s) :
    SectionParts.read true form s
      = { body := Text.trim s, defect := some .unclosedType } := by
  simp [SectionParts.read, unclosedType_iff.1 h]

/-- Name and body are read from what follows the type. -/
theorem SectionParts.read_plain (h : AfterType hasType s rest) :
    ∃ type, SectionParts.read hasType .plain s
      = { readPlainName (Text.trimStart rest) with type := type } := by
  cases h with
  | absent h => exact ⟨none, SectionParts.read_typeless h rfl⟩
  | found htag h =>
    subst htag
    exact ⟨_, SectionParts.read_typed h rfl⟩

/-- Without a type ahead, name and body are read from the start. -/
theorem SectionParts.read_plain_of_typeless
    (h : hasType = true → ∀ inner rest, ¬ TypeAhead s inner rest) :
    (SectionParts.read hasType .plain s).name = (readPlainName (Text.trimStart s)).name ∧
      (SectionParts.read hasType .plain s).body = (readPlainName (Text.trimStart s)).body := by
  cases hasType with
  | false =>
    rw [SectionParts.read_untyped rfl]
    exact ⟨rfl, rfl⟩
  | true =>
    rcases typeAhead_or_unclosedType_or_head? s with ⟨inner, rest, hahead⟩ | hunclosed | hstart
    · exact absurd hahead (h rfl inner rest)
    · -- a word that starts with a brace is no name
      have hunnamed : ∀ name rest, ¬ NameAhead s name rest := fun _ _ hname =>
        hname.head?_ne hunclosed.start
      rw [SectionParts.read_unclosed _ hunclosed, readPlainName_unnamed hunnamed]
      exact ⟨rfl, rfl⟩
    · rw [SectionParts.read_typeless (fun _ => hstart) rfl]
      exact ⟨rfl, rfl⟩

/-- Without a type ahead, none is read. -/
theorem SectionParts.type_read_plain (h : ∀ inner rest, ¬ TypeAhead s inner rest) :
    (SectionParts.read hasType .plain s).type = none := by
  rcases typeAhead_or_unclosedType_or_head? s with ⟨inner, rest, hahead⟩ | hunclosed | hstart
  · exact absurd hahead (h inner rest)
  · cases hasType with
    | false => rw [SectionParts.read_untyped rfl]
    | true => rw [SectionParts.read_unclosed _ hunclosed]
  · rw [SectionParts.read_typeless (fun _ => hstart) rfl]

end ApiDocs
