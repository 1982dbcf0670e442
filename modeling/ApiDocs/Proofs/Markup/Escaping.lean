import ApiDocs.Markup.Basic
/-!
# Escaped text

Escaped text can be read back character by character, so no two texts have the same escaped text.
It holds no angle bracket and no quote, which is why it can stand between tags and between quotes.

Main definitions:

- `entities`: the entities with the characters that they stand for.
- `readEscapedChar?`: the character that the start of an escaped text stands for.
- `unescape`: a text with the characters in place of the entities.

Main results:

- `escapeMark_cases`: the escaped form of a character.
- `readEscapedChar?_escapeMark`: a character is read back from its escaped form.
- `unescape_escape`, `escape_injective`: the text of an escaped text.
- `not_mem_escape`: the characters that escaped text does not hold.
-/

namespace ApiDocs

/-- The entities with the characters that they stand for. -/
def entities : List (Text × Char) :=
  [("&amp;".toList, '&'), ("&lt;".toList, '<'), ("&gt;".toList, '>'), ("&quot;".toList, '"')]

/-- The character that the start of an escaped text stands for, and what follows. -/
def readEscapedChar? : Text → Option (Char × Text)
  | [] => none
  | c :: s =>
    if c = '&' then
      entities.findSome? fun entity =>
        (Text.dropStart? entity.1 (c :: s)).map fun rest => (entity.2, rest)
    else some (c, s)

/-- A character is escaped by its entity, if it has one, and by itself. -/
theorem escapeMark_cases (c : Char) :
    (escapeMark c, c) ∈ entities ∨ (escapeMark c = [c] ∧ c ∉ entities.map Prod.snd) := by
  unfold escapeMark
  by_cases hamp : c = '&'
  · subst hamp
    exact .inl (by decide)
  by_cases hless : c = '<'
  · subst hless
    exact .inl (by decide)
  by_cases hgreater : c = '>'
  · subst hgreater
    exact .inl (by decide)
  by_cases hquote : c = '"'
  · subst hquote
    exact .inl (by decide)
  rw [if_neg hamp, if_neg hless, if_neg hgreater, if_neg hquote]
  exact .inr ⟨rfl, by simp [entities, hamp, hless, hgreater, hquote]⟩

/-- A character is read back from its escaped form. -/
theorem readEscapedChar?_escapeMark (c : Char) (s : Text) :
    readEscapedChar? (escapeMark c ++ s) = some (c, s) := by
  have hentity : ∀ entity ∈ entities, readEscapedChar? (entity.1 ++ s) = some (entity.2, s) := by
    intro entity hentity
    simp only [entities, List.mem_cons, List.not_mem_nil, or_false] at hentity
    rcases hentity with rfl | rfl | rfl | rfl
    all_goals rfl
  rcases escapeMark_cases c with hmem | ⟨hself, hother⟩
  · exact hentity _ hmem
  · have hamp : c ≠ '&' := by
      rintro rfl
      exact hother (by decide)
    rw [hself, List.singleton_append, readEscapedChar?, if_neg hamp]

/-! ### Reading back -/

/-- A text begins with what is read from its start: an entity, or another character than an
ampersand. -/
theorem eq_append_of_readEscapedChar? {s rest : Text} {c : Char}
    (h : readEscapedChar? s = some (c, rest)) :
    ∃ mark, s = mark ++ rest ∧ ((mark, c) ∈ entities ∨ mark = [c] ∧ c ≠ '&') := by
  cases s with
  | nil => cases h
  | cons d s =>
    rw [readEscapedChar?] at h
    by_cases hamp : d = '&'
    · rw [if_pos hamp] at h
      obtain ⟨entity, hentity, hread⟩ := List.exists_of_findSome?_eq_some h
      obtain ⟨after, hafter, heq⟩ := Option.map_eq_some_iff.1 hread
      cases heq
      exact ⟨entity.1, Text.eq_append_of_dropStart? hafter, .inl hentity⟩
    · rw [if_neg hamp] at h
      cases h
      exact ⟨[c], rfl, .inr ⟨rfl, hamp⟩⟩

/-- Each entity starts with its only ampersand. -/
theorem eq_cons_of_mem_entities {entity : Text × Char} (h : entity ∈ entities) :
    ∃ name, entity.1 = '&' :: name ∧ '&' ∉ name := by
  have hall : ∀ entity ∈ entities, entity.1 = '&' :: entity.1.tail ∧ '&' ∉ entity.1.tail := by
    decide
  exact ⟨_, hall entity h⟩

theorem escapeMark_of_mem_entities {entity : Text × Char} (h : entity ∈ entities) :
    escapeMark entity.2 = entity.1 := by
  have hall : ∀ entity ∈ entities, escapeMark entity.2 = entity.1 := by decide
  exact hall entity h

theorem length_readEscapedChar?_lt {s rest : Text} {c : Char}
    (h : readEscapedChar? s = some (c, rest)) : rest.length < s.length := by
  obtain ⟨mark, rfl, hmark⟩ := eq_append_of_readEscapedChar? h
  have hpos : 0 < mark.length := by
    rcases hmark with hentity | ⟨rfl, -⟩
    · obtain ⟨name, hname, -⟩ := eq_cons_of_mem_entities hentity
      rw [show mark = '&' :: name from hname]
      exact Nat.succ_pos _
    · exact Nat.one_pos
  rw [List.length_append]
  exact Nat.lt_add_of_pos_left hpos

/-- A text with the characters in place of the entities, read from left to right.  An ampersand that
starts no entity stays. -/
def unescape : Text → Text
  | [] => []
  | c :: s =>
    match _h : readEscapedChar? (c :: s) with
    | some (d, rest) => d :: unescape rest
    | none => c :: unescape s
termination_by s => s.length
decreasing_by
  · exact length_readEscapedChar?_lt _h
  · exact Nat.lt_succ_self _

/-- What is read back first stands first. -/
theorem unescape_of_read {s rest : Text} {c : Char} (h : readEscapedChar? s = some (c, rest)) :
    unescape s = c :: unescape rest := by
  cases s with
  | nil => cases h
  | cons d s =>
    rw [unescape]
    split
    · next hread =>
      cases h.symm.trans hread
      rfl
    · next hread => cases h.symm.trans hread

/-- Escaping is undone, also in a text with entities of its own. -/
theorem unescape_escape (t : Text) : unescape (escape t) = t := by
  induction t with
  | nil => exact unescape.eq_1
  | cons c t ih =>
    have hread : readEscapedChar? (escape (c :: t)) = some (c, escape t) :=
      readEscapedChar?_escapeMark c (escape t)
    rw [unescape_of_read hread, ih]

/-- No two texts have the same escaped text. -/
theorem escape_injective : Function.Injective escape :=
  Function.LeftInverse.injective unescape_escape

/-- Escaped text holds no angle bracket and no quote. -/
theorem not_mem_escape {d : Char} (hd : d = '<' ∨ d = '>' ∨ d = '"') (t : Text) :
    d ∉ escape t := by
  have hentity : d ∈ entities.map Prod.snd ∧ ∀ entity ∈ entities, d ∉ entity.1 := by
    rcases hd with rfl | rfl | rfl
    all_goals decide
  intro hmem
  obtain ⟨c, -, hc⟩ := List.mem_flatMap.1 hmem
  rcases escapeMark_cases c with hmark | ⟨hself, hother⟩
  · exact hentity.2 _ hmark hc
  · rw [hself, List.mem_singleton] at hc
    exact hother (hc ▸ hentity.1)

end ApiDocs
