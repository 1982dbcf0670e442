import ApiDocs.Proofs.Markup.Escaping
import ApiDocs.Proofs.Text.Lines
/-!
# Escaping by replacement

Escaped text can be made in passes over the whole text, one for each character with an entity.  A
pass reads what the passes before it have written, so their order matters: when no pass replaces a
character that an earlier one has written, all of them together replace each character of the text
on its own.  Each text in which ampersands start entities, and that has no angle bracket and no
quote, is the escaped form of what is read back from it.

Main definitions:

- `replaceChar`, `replaceEach`: one pass, and passes one after the other.
- `substitute`: what a list of rules makes of a character on its own.
- `EscapedText`: the texts that hold entities instead of the four characters.

Main results:

- `replaceEach_eq_flatMap`: passes in a good order replace each character on its own.
- `replaceEach_entities`: the passes for the four characters escape a text.
- `escape_unescape`: reading back is undone where entities alone were read back.
- `escape_reversible`: escaping as a code for texts.
-/

namespace ApiDocs

/-- A text with `replacement` for each occurrence of a character. -/
def replaceChar (c : Char) (replacement t : Text) : Text :=
  Text.joinWith replacement (Text.fields c t)

/-- The passes of some rules one after the other, each over what the one before has left. -/
def replaceEach (rules : List (Text × Char)) (t : Text) : Text :=
  rules.foldl (fun t rule => replaceChar rule.2 rule.1 t) t

/-- What the first rule for a character writes for it; without one it stays as it is. -/
def substitute : List (Text × Char) → Char → Text
  | [], c => [c]
  | rule :: rules, c => if c = rule.2 then rule.1 else substitute rules c

/-! ### Passes over a text -/

/-- Replacing one character goes through the text character by character. -/
theorem replaceChar_eq_flatMap (c : Char) (replacement t : Text) :
    replaceChar c replacement t = t.flatMap fun d => if d = c then replacement else [d] := by
  induction t with
  | nil => simp [replaceChar, Text.joinWith, Text.fields]
  | cons d t ih =>
    have hne : Text.fields c t ≠ [] := List.splitOn_ne_nil c t
    rw [List.flatMap_cons, ← ih, replaceChar, replaceChar, Text.fields_cons]
    split
    · rw [Text.joinWith, List.intercalate_cons_of_ne_nil hne]
      rfl
    · obtain ⟨first, pieces, hpieces⟩ := List.exists_cons_of_ne_nil hne
      rw [hpieces, List.modifyHead_cons]
      cases pieces with
      | nil => simp [Text.joinWith]
      | cons next pieces => simp [Text.joinWith, List.intercalate_cons_cons]

/-- A character that no rule replaces stays. -/
theorem substitute_eq_self {rules : List (Text × Char)} {c : Char}
    (h : ∀ rule ∈ rules, rule.2 ≠ c) : substitute rules c = [c] := by
  induction rules with
  | nil => rfl
  | cons rule rules ih =>
    obtain ⟨hrule, hrules⟩ := List.forall_mem_cons.1 h
    rw [substitute, if_neg (Ne.symm hrule), ih hrules]

/-- A text in which no rule replaces anything stays. -/
theorem flatMap_substitute_eq_self {rules : List (Text × Char)} {t : Text}
    (h : ∀ rule ∈ rules, rule.2 ∉ t) : t.flatMap (substitute rules) = t := by
  have hplain : ∀ c ∈ t, substitute rules c = [c] := fun c hc =>
    substitute_eq_self fun rule hrule heq => h rule hrule (heq ▸ hc)
  rw [List.flatMap_congr hplain, List.flatMap_singleton']

/-- When no pass replaces a character that an earlier one has written, the passes replace each
character on its own. -/
theorem replaceEach_eq_flatMap {rules : List (Text × Char)}
    (h : rules.Pairwise fun rule later => later.2 ∉ rule.1) (t : Text) :
    replaceEach rules t = t.flatMap (substitute rules) := by
  induction rules generalizing t with
  | nil => exact (List.flatMap_singleton' t).symm
  | cons rule rules ih =>
    obtain ⟨hrule, hrules⟩ := List.pairwise_cons.1 h
    -- the later passes leave alone what the first one writes
    have hpass : ∀ c, (if c = rule.2 then rule.1 else [c]).flatMap (substitute rules)
        = substitute (rule :: rules) c := by
      intro c
      rw [substitute]
      split
      · exact flatMap_substitute_eq_self hrule
      · exact List.flatMap_singleton _ _
    calc replaceEach (rule :: rules) t
        = replaceEach rules (replaceChar rule.2 rule.1 t) := rfl
      _ = (replaceChar rule.2 rule.1 t).flatMap (substitute rules) := ih hrules _
      _ = t.flatMap (substitute (rule :: rules)) := by
        rw [replaceChar_eq_flatMap, List.flatMap_assoc]
        exact List.flatMap_congr fun c _ => hpass c

theorem substitute_entities : substitute entities = escapeMark := rfl

/-- The passes for the four characters, with the ampersand first, escape a text. -/
theorem replaceEach_entities (t : Text) : replaceEach entities t = escape t := by
  rw [replaceEach_eq_flatMap (by decide), substitute_entities, escape]

/-- With the ampersand last, the entities of the other characters are escaped once more. -/
example : replaceEach entities.reverse "<".toList = "&amp;lt;".toList := by decide

/-! ### Escaped texts -/

/-- The text has no angle bracket and no quote, and each of its ampersands starts an entity. -/
structure EscapedText (s : Text) : Prop where
  unmarked : '<' ∉ s ∧ '>' ∉ s ∧ '"' ∉ s
  entity_at : ∀ front back, s = front ++ '&' :: back →
    ∃ entity ∈ entities, entity.1 <+: '&' :: back

theorem EscapedText.of_append {front s : Text} (h : EscapedText (front ++ s)) : EscapedText s where
  unmarked := h.unmarked.imp (mt (List.mem_append_right front))
    (And.imp (mt (List.mem_append_right front)) (mt (List.mem_append_right front)))
  entity_at before back hs := h.entity_at (front ++ before) back (by rw [hs, List.append_assoc])

/-- The only ampersand in the escaped form of a character is the first one of an entity. -/
theorem eq_nil_of_escapeMark_eq {c : Char} {front tail : Text}
    (h : escapeMark c = front ++ '&' :: tail) : front = [] ∧ (escapeMark c, c) ∈ entities := by
  rcases escapeMark_cases c with hentity | ⟨hself, hother⟩
  · obtain ⟨name, hname, hsole⟩ := eq_cons_of_mem_entities hentity
    have hsame : '&' :: name = front ++ '&' :: tail := hname.symm.trans h
    cases front with
    | nil => exact ⟨rfl, hentity⟩
    | cons d front =>
      obtain ⟨-, rfl⟩ := List.cons_eq_cons.1 hsame
      exact absurd (List.mem_append_right front List.mem_cons_self) hsole
  · have hmem : '&' ∈ [c] := by
      rw [← hself, h]
      exact List.mem_append_right front List.mem_cons_self
    rw [← List.mem_singleton.1 hmem] at hother
    exact absurd (by decide) hother

/-- An ampersand in escaped text starts the entity of a character. -/
theorem exists_entity_of_escape_eq {t front back : Text} (h : escape t = front ++ '&' :: back) :
    ∃ entity ∈ entities, entity.1 <+: '&' :: back := by
  induction t generalizing front with
  | nil => exact absurd h.symm (List.append_ne_nil_of_right_ne_nil _ (List.cons_ne_nil _ _))
  | cons c t ih =>
    have hmarks : escapeMark c ++ escape t = front ++ '&' :: back := h
    rcases List.append_eq_append_iff.1 hmarks with ⟨later, rfl, hlater⟩ | ⟨tail, hmark, hback⟩
    · exact ih hlater
    · cases tail with
      | nil =>
        have hlater : escape t = [] ++ '&' :: back := hback.symm
        exact ih hlater
      | cons d tail =>
        obtain ⟨rfl, -⟩ := List.cons_eq_cons.1 hback
        obtain ⟨rfl, hentity⟩ := eq_nil_of_escapeMark_eq hmark
        exact ⟨_, hentity, escape t, hmarks⟩

/-- What escaping makes is an escaped text. -/
theorem escapedText_escape (t : Text) : EscapedText (escape t) where
  unmarked := ⟨not_mem_escape (.inl rfl) t, not_mem_escape (.inr (.inl rfl)) t,
    not_mem_escape (.inr (.inr rfl)) t⟩
  entity_at _ _ := exists_entity_of_escape_eq

/-- Each character of such a text is its own escaped form, the ampersand apart. -/
theorem EscapedText.escapeMark_eq {s : Text} {c : Char} (h : EscapedText s) (hc : c ∈ s)
    (hamp : c ≠ '&') : escapeMark c = [c] := by
  have hmark : ∀ d, d ∉ s → c ≠ d := fun d hd heq => hd (heq ▸ hc)
  obtain ⟨hless, hgreater, hquote⟩ := h.unmarked
  rw [escapeMark, if_neg hamp, if_neg (hmark _ hless), if_neg (hmark _ hgreater),
    if_neg (hmark _ hquote)]

/-- An entity can be read wherever there is an ampersand. -/
theorem EscapedText.readEscapedChar?_ne_none {s : Text} {c : Char} (h : EscapedText (c :: s)) :
    readEscapedChar? (c :: s) ≠ none := by
  by_cases hamp : c = '&'
  · obtain ⟨entity, hentity, rest, hs⟩ := h.entity_at [] s (by rw [hamp]; rfl)
    rw [hamp, ← hs, ← escapeMark_of_mem_entities hentity, readEscapedChar?_escapeMark]
    exact Option.some_ne_none _
  · rw [readEscapedChar?, if_neg hamp]
    exact Option.some_ne_none _

/-- A text that holds entities instead of the four characters is the escaped form of what is read
back from it. -/
theorem escape_unescape {s : Text} (h : EscapedText s) : escape (unescape s) = s := by
  fun_induction unescape s with
  | case1 => rfl
  | case2 c s d rest hread ih =>
    obtain ⟨mark, hs, hmark⟩ := eq_append_of_readEscapedChar? hread
    have hd : escapeMark d = mark := by
      rcases hmark with hentity | ⟨rfl, hamp⟩
      · exact escapeMark_of_mem_entities hentity
      · exact h.escapeMark_eq (hs ▸ List.mem_cons_self) hamp
    rw [hs] at h ⊢
    calc escape (d :: unescape rest)
        = escapeMark d ++ escape (unescape rest) := rfl
      _ = mark ++ rest := by rw [hd, ih h.of_append]
  | case3 c s hread ih => exact absurd hread h.readEscapedChar?_ne_none

/-- The passes for the four characters escape each character on its own, so the escaped forms of two
texts make up that of both together.  Escaped text has no angle bracket and no quote, and its
ampersands start entities; all such texts are escaped ones.  The entities read from left to right
lead back to the text, so no two texts have the same escaped form. -/
theorem escape_reversible (t : Text) :
    replaceEach entities t = escape t ∧
      (∀ u, escape (t ++ u) = escape t ++ escape u) ∧
      EscapedText (escape t) ∧
      (EscapedText t → escape (unescape t) = t) ∧
      unescape (escape t) = t ∧
      ∀ u, escape t = escape u → t = u :=
  ⟨replaceEach_entities t, fun _ => List.flatMap_append, escapedText_escape t, escape_unescape,
    unescape_escape t, fun _ h => escape_injective h⟩

end ApiDocs
