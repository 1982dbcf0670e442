import ApiDocs.Proofs.Text.Lines
import ApiDocs.Text.Blank
/-!
# Texts with carriage returns before their line breaks

A text may be written with a carriage return in front of each line feed.  Most cuts do not see the
difference: those at a character or a pattern other than these two, and those by a test that is the
same on both.  Each of them gives the parts of the original text, written in the same way.  The
lines of the text, which readers see without the carriage returns, stay what they are.

Main definitions:

- `Text.withReturns`: a text with a carriage return in front of each line feed.
- `Text.pairWithReturns`: both texts of a pair written in this way.
- `Text.Blind`: tests that do not see how characters are replaced.
- `Text.Unbroken`: texts without a line break or a part of one.

Main results:

- `takeWhile_withReturns`, `dropWhile_withReturns`: cuts by a test.
- `dropStart?_withReturns`, `breakOn?_withReturns`, `fields_withReturns`: cuts at a pattern.
- `lines_withReturns`: the lines of a text.
-/

namespace ApiDocs

namespace Text

/-- A character, with a carriage return before it if it is a line feed. -/
def returnMark (c : Char) : Text :=
  if c = '\n' then ['\r', '\n'] else [c]

/-- A text with a carriage return in front of each line feed. -/
def withReturns (s : Text) : Text :=
  s.flatMap returnMark

/-- A pair of texts, both with carriage returns. -/
def pairWithReturns (parts : Text × Text) : Text × Text :=
  (withReturns parts.1, withReturns parts.2)

@[simp]
theorem withReturns_nil : withReturns [] = [] :=
  rfl

/-- Texts in a row take their carriage returns one after the other. -/
theorem withReturns_append (s t : Text) : withReturns (s ++ t) = withReturns s ++ withReturns t :=
  List.flatMap_append

/-- A line feed gets a carriage return before it. -/
theorem withReturns_break (s : Text) : withReturns ('\n' :: s) = '\r' :: '\n' :: withReturns s :=
  rfl

/-- A character other than a line feed stays alone. -/
theorem withReturns_cons {c : Char} (h : c ≠ '\n') (s : Text) :
    withReturns (c :: s) = c :: withReturns s := by
  rw [withReturns, List.flatMap_cons, returnMark, if_neg h, ← withReturns]
  rfl

/-- A text on one line stays as it is. -/
theorem withReturns_eq_self {s : Text} (h : '\n' ∉ s) : withReturns s = s := by
  induction s with
  | nil => rfl
  | cons c s ih =>
    rw [List.mem_cons, not_or] at h
    rw [withReturns_cons (Ne.symm h.1), ih h.2]

@[simp]
theorem withReturns_eq_nil_iff {s : Text} : withReturns s = [] ↔ s = [] := by
  cases s with
  | nil => simp
  | cons c s =>
    by_cases hc : c = '\n'
    · subst hc
      simp [withReturns_break]
    · simp [withReturns_cons hc]

@[simp]
theorem isEmpty_withReturns (s : Text) : (withReturns s).isEmpty = s.isEmpty := by
  rw [Bool.eq_iff_iff, List.isEmpty_iff, List.isEmpty_iff, withReturns_eq_nil_iff]

/-- Carriage returns add no lines. -/
@[simp]
theorem lineBreaks_withReturns (s : Text) : lineBreaks (withReturns s) = lineBreaks s := by
  induction s with
  | nil => rfl
  | cons c s ih =>
    unfold lineBreaks at ih ⊢
    by_cases hc : c = '\n'
    · subst hc
      rw [withReturns_break, List.count_cons_of_ne (by decide), List.count_cons_self,
        List.count_cons_self, ih]
    · rw [withReturns_cons hc, List.count_cons_of_ne hc, List.count_cons_of_ne hc, ih]

/-- There is one more character for each line feed. -/
theorem length_withReturns (s : Text) : (withReturns s).length = s.length + lineBreaks s := by
  induction s with
  | nil => rfl
  | cons c s ih =>
    unfold lineBreaks at ih ⊢
    by_cases hc : c = '\n'
    · subst hc
      rw [withReturns_break, List.count_cons_self, List.length_cons, List.length_cons, ih,
        List.length_cons]
      omega
    · rw [withReturns_cons hc, List.count_cons_of_ne hc, List.length_cons, ih, List.length_cons]
      omega

/-- Only texts on one line stay as they are. -/
theorem withReturns_eq_self_iff {s : Text} : withReturns s = s ↔ '\n' ∉ s := by
  refine ⟨fun h => ?_, withReturns_eq_self⟩
  have hlength := length_withReturns s
  rw [h] at hlength
  exact List.count_eq_zero.1 (Nat.left_eq_add.1 hlength)

/-! ### Cuts by a test -/

/-- A test gives the same answer on a character and on all those that replace it. -/
def Blind (p : Char → Bool) (f : Char → Text) : Prop :=
  ∀ c, f c ≠ [] ∧ ∀ d ∈ f c, p d = p c

section Blind

variable {p : Char → Bool} {f : Char → Text}

/-- The order of the characters that replace another one does not matter to a test. -/
theorem Blind.reverse (h : Blind p f) : Blind p fun c => (f c).reverse :=
  fun c => ⟨mt List.reverse_eq_nil_iff.1 (h c).1, fun d hd => (h c).2 d (List.mem_reverse.1 hd)⟩

/-- Replacing characters does not move a cut by such a test. -/
theorem dropWhile_flatMap (h : Blind p f) (s : Text) :
    (s.flatMap f).dropWhile p = (s.dropWhile p).flatMap f := by
  induction s with
  | nil => rfl
  | cons c s ih =>
    obtain ⟨hne, hsame⟩ := h c
    rw [List.flatMap_cons]
    by_cases hc : p c = true
    · rw [List.dropWhile_append_of_pos fun d hd => by rw [hsame d hd, hc], ih,
        List.dropWhile_cons_of_pos hc]
    · obtain ⟨d, rest, hfc⟩ := List.exists_cons_of_ne_nil hne
      have hd : ¬ p d = true := by
        rw [hsame d (hfc ▸ List.mem_cons_self)]
        exact hc
      rw [List.dropWhile_cons_of_neg hc, List.flatMap_cons, hfc, List.cons_append,
        List.dropWhile_cons_of_neg hd]

/-- A test that does not see the replacement takes the same characters, replaced. -/
theorem takeWhile_flatMap (h : Blind p f) (s : Text) :
    (s.flatMap f).takeWhile p = (s.takeWhile p).flatMap f := by
  have hsplit := List.takeWhile_append_dropWhile (p := p) (l := s)
  have hsplit' := List.takeWhile_append_dropWhile (p := p) (l := s.flatMap f)
  have hboth : (s.takeWhile p).flatMap f ++ (s.dropWhile p).flatMap f = s.flatMap f := by
    rw [← List.flatMap_append, hsplit]
  rw [dropWhile_flatMap h] at hsplit'
  exact List.append_cancel_right (hsplit'.trans hboth.symm)

/-- A test that is the same on both characters of a line break does not see which break it is. -/
theorem blind_returnMark (h : p '\r' = p '\n') : Blind p returnMark := by
  intro c
  unfold returnMark
  by_cases hc : c = '\n'
  · subst hc
    simp [h]
  · simp [hc]

/-- A test that is the same on both marks of a line break drops the same start of a text. -/
theorem dropWhile_withReturns (h : p '\r' = p '\n') (s : Text) :
    (withReturns s).dropWhile p = withReturns (s.dropWhile p) :=
  dropWhile_flatMap (blind_returnMark h) s

/-- A test that is the same on both marks of a line break takes the same start of a text. -/
theorem takeWhile_withReturns (h : p '\r' = p '\n') (s : Text) :
    (withReturns s).takeWhile p = withReturns (s.takeWhile p) :=
  takeWhile_flatMap (blind_returnMark h) s

/-- Seen from its end, a text has the carriage returns behind the line feeds. -/
theorem reverse_withReturns (s : Text) :
    (withReturns s).reverse = s.reverse.flatMap fun c => (returnMark c).reverse :=
  List.reverse_flatMap

/-- Turned around twice, a text has its carriage returns in front again. -/
theorem reverse_flatMap_reverse (s : Text) :
    (s.flatMap fun c => (returnMark c).reverse).reverse = withReturns s.reverse := by
  rw [← List.reverse_reverse s, ← reverse_withReturns, List.reverse_reverse,
    List.reverse_reverse]

/-- Cuts from the end. -/
theorem dropEnd_withReturns (h : p '\r' = p '\n') (s : Text) :
    ((withReturns s).reverse.dropWhile p).reverse
      = withReturns (s.reverse.dropWhile p).reverse := by
  rw [reverse_withReturns, dropWhile_flatMap (blind_returnMark h).reverse,
    reverse_flatMap_reverse]

/-- A test that is the same on both marks of a line break takes the same end of a text. -/
theorem takeEnd_withReturns (h : p '\r' = p '\n') (s : Text) :
    ((withReturns s).reverse.takeWhile p).reverse
      = withReturns (s.reverse.takeWhile p).reverse := by
  rw [reverse_withReturns, takeWhile_flatMap (blind_returnMark h).reverse,
    reverse_flatMap_reverse]

/-- A test that is the same on both marks of a line break does not see the first one replaced. -/
theorem map_head?_withReturns (h : p '\r' = p '\n') (s : Text) :
    (withReturns s).head?.map p = s.head?.map p := by
  cases s with
  | nil => rfl
  | cons c s =>
    by_cases hc : c = '\n'
    · subst hc
      rw [withReturns_break, List.head?_cons, List.head?_cons, Option.map_some, Option.map_some, h]
    · rw [withReturns_cons hc]
      rfl

end Blind

/-- Both marks of a line break are blank. -/
theorem isBlank_return : isBlank '\r' = isBlank '\n' := by decide

/-- The blanks at the start of a text are its blanks with carriage returns. -/
@[simp]
theorem trimStart_withReturns (s : Text) : trimStart (withReturns s) = withReturns (trimStart s) :=
  dropWhile_withReturns isBlank_return s

/-- Trimming a text on both sides does not see its carriage returns. -/
@[simp]
theorem trim_withReturns (s : Text) : trim (withReturns s) = withReturns (trim s) := by
  rw [trim, trimStart_withReturns, trimEnd, dropEnd_withReturns isBlank_return]
  rfl

/-! ### Cuts at a pattern -/

/-- Neither of the characters of a line break stands in a text. -/
def Unbroken (s : Text) : Prop :=
  '\n' ∉ s ∧ '\r' ∉ s

instance (s : Text) : Decidable (Unbroken s) :=
  inferInstanceAs (Decidable (_ ∧ _))

/-- A start on one line keeps its form. -/
theorem withReturns_append_of_unbroken {start : Text} (h : Unbroken start) (s : Text) :
    withReturns (start ++ s) = start ++ withReturns s := by
  rw [withReturns_append, withReturns_eq_self h.1]

/-- A pattern on one line starts a text with and without carriage returns. -/
theorem prefix_withReturns_iff {start s : Text} (h : Unbroken start) :
    start <+: withReturns s ↔ start <+: s := by
  constructor
  · intro hstart
    induction start generalizing s with
    | nil => exact List.nil_prefix
    | cons c start ih =>
      obtain ⟨hbreak, hreturn⟩ := h
      rw [List.mem_cons, not_or] at hbreak hreturn
      cases s with
      | nil =>
        rw [withReturns_nil, List.prefix_nil] at hstart
        cases hstart
      | cons d s =>
        by_cases hd : d = '\n'
        · subst hd
          rw [withReturns_break, List.cons_prefix_cons] at hstart
          exact absurd hstart.1.symm hreturn.1
        · rw [withReturns_cons hd, List.cons_prefix_cons] at hstart
          exact List.cons_prefix_cons.2 ⟨hstart.1, ih ⟨hbreak.2, hreturn.2⟩ hstart.2⟩
  · rintro ⟨rest, rfl⟩
    rw [withReturns_append_of_unbroken h]
    exact List.prefix_append _ _

/-- The test for a start on one line does not see carriage returns. -/
theorem isPrefixOf_withReturns {start : Text} (h : Unbroken start) (s : Text) :
    start.isPrefixOf (withReturns s) = start.isPrefixOf s := by
  rw [Bool.eq_iff_iff, List.isPrefixOf_iff_prefix, List.isPrefixOf_iff_prefix,
    prefix_withReturns_iff h]

/-- Behind a start on one line both texts go on alike. -/
theorem drop_withReturns {start s : Text} (h : Unbroken start) (hstart : start.isPrefixOf s) :
    (withReturns s).drop start.length = withReturns (s.drop start.length) := by
  obtain ⟨rest, rfl⟩ := List.isPrefixOf_iff_prefix.1 hstart
  rw [withReturns_append_of_unbroken h, List.drop_left, List.drop_left]

/-- A pattern on one line is dropped from the start as before. -/
theorem dropStart?_withReturns {start : Text} (h : Unbroken start) (s : Text) :
    dropStart? start (withReturns s) = (dropStart? start s).map withReturns := by
  unfold dropStart?
  rw [isPrefixOf_withReturns h]
  by_cases hstart : start.isPrefixOf s
  · rw [if_pos hstart, if_pos hstart, drop_withReturns h hstart]
    rfl
  · rw [if_neg hstart, if_neg hstart]
    rfl

/-- No other character comes to stand at the start of a text. -/
theorem head?_withReturns_eq_iff {c : Char} (h : Unbroken [c]) (s : Text) :
    (withReturns s).head? = some c ↔ s.head? = some c := by
  have hfirst : ∀ t : Text, t.head? = some c ↔ [c] <+: t := by
    intro t
    cases t with
    | nil => simp
    | cons d t => simp [eq_comm]
  rw [hfirst, hfirst, prefix_withReturns_iff h]

/-- The first place of a pattern on one line divides both texts alike. -/
theorem breakOn?_withReturns {pattern : Text} (h : Unbroken pattern) (hne : pattern ≠ [])
    (s : Text) : breakOn? pattern (withReturns s) = (breakOn? pattern s).map pairWithReturns := by
  induction s with
  | nil => simp [breakOn?, hne]
  | cons c s ih =>
    by_cases hc : c = '\n'
    · -- no pattern starts within a line break
      subst hc
      have hstart : ∀ d t, d = '\r' ∨ d = '\n' → ¬ pattern.isPrefixOf (d :: t) = true := by
        intro d t hd hprefix
        rw [List.isPrefixOf_iff_prefix] at hprefix
        obtain ⟨e, rest, rfl⟩ := List.exists_cons_of_ne_nil hne
        rw [List.cons_prefix_cons] at hprefix
        obtain ⟨rfl, -⟩ := hprefix
        rcases hd with rfl | rfl
        · exact h.2 List.mem_cons_self
        · exact h.1 List.mem_cons_self
      rw [withReturns_break, breakOn?, if_neg (hstart _ _ (.inl rfl)), breakOn?,
        if_neg (hstart _ _ (.inr rfl)), ih, breakOn?, if_neg (hstart _ _ (.inr rfl))]
      cases breakOn? pattern s with
      | none => rfl
      | some parts => rfl
    · have hsame := isPrefixOf_withReturns h (c :: s)
      rw [withReturns_cons hc] at hsame
      rw [withReturns_cons hc, breakOn?, hsame, breakOn?]
      by_cases hstart : pattern.isPrefixOf (c :: s)
      · have hdrop := drop_withReturns h hstart
        rw [withReturns_cons hc] at hdrop
        rw [if_pos hstart, if_pos hstart, hdrop]
        rfl
      · rw [if_neg hstart, if_neg hstart, ih]
        cases breakOn? pattern s with
        | none => rfl
        | some parts =>
          rw [Option.map_some, Option.map_some, Option.map_some, Option.map_some]
          exact congrArg some (Prod.ext (withReturns_cons hc parts.1).symm rfl)

/-- A separator other than a part of a line break divides both texts alike. -/
theorem fields_withReturns {separator : Char} (h : Unbroken [separator]) (s : Text) :
    fields separator (withReturns s) = (fields separator s).map withReturns := by
  have hbreak : '\n' ≠ separator := fun heq => h.1 (heq ▸ List.mem_singleton_self _)
  have hreturn : '\r' ≠ separator := fun heq => h.2 (heq ▸ List.mem_singleton_self _)
  induction s with
  | nil => rfl
  | cons c s ih =>
    by_cases hc : c = '\n'
    · subst hc
      rw [withReturns_break, fields_cons, if_neg hreturn, fields_cons, if_neg hbreak, fields_cons,
        if_neg hbreak, ih]
      cases fields separator s with
      | nil => rfl
      | cons first pieces => rfl
    · rw [withReturns_cons hc, fields_cons, fields_cons, ih]
      by_cases hseparator : c = separator
      · rw [if_pos hseparator, if_pos hseparator]
        rfl
      · rw [if_neg hseparator, if_neg hseparator]
        cases fields separator s with
        | nil => rfl
        | cons first pieces =>
          exact congrArg (· :: pieces.map withReturns) (withReturns_cons hc first).symm

/-! ### Lines -/

/-- Each piece but the last with a carriage return at its end. -/
def endWithReturns : List Text → List Text
  | [] => []
  | [last] => [last]
  | piece :: next :: pieces => (piece ++ ['\r']) :: endWithReturns (next :: pieces)

/-- At its line feeds, the text is divided into the same lines, each but the last with a carriage
return at its end. -/
theorem fields_break_withReturns (s : Text) :
    fields '\n' (withReturns s) = endWithReturns (fields '\n' s) := by
  induction s with
  | nil => rfl
  | cons c s ih =>
    obtain ⟨first, pieces, hfields⟩ :=
      List.exists_cons_of_ne_nil (List.splitOn_ne_nil '\n' s)
    change fields '\n' s = first :: pieces at hfields
    rw [hfields] at ih
    by_cases hc : c = '\n'
    · subst hc
      rw [withReturns_break, fields_cons, if_neg (by decide), fields_cons, if_pos rfl, ih,
        fields_cons, if_pos rfl, hfields]
      rfl
    · rw [withReturns_cons hc, fields_cons, if_neg hc, ih, fields_cons, if_neg hc, hfields]
      cases pieces with
      | nil => rfl
      | cons next pieces => rfl

/-- Lines are closed without the carriage returns at their ends. -/
theorem close_endWithReturns {pieces : List Text} (h : ∀ piece ∈ pieces, '\r' ∉ piece) :
    lines.close (endWithReturns pieces) = lines.close pieces := by
  induction pieces with
  | nil => rfl
  | cons piece pieces ih =>
    obtain ⟨hpiece, hpieces⟩ := List.forall_mem_cons.1 h
    cases pieces with
    | nil => rfl
    | cons next pieces =>
      have hclose : ∀ (line : Text) (rest : List Text), rest ≠ [] →
          lines.close (line :: rest) = lines.dropReturn line :: lines.close rest := by
        intro line rest hrest
        cases rest with
        | nil => exact absurd rfl hrest
        | cons => rfl
      have hrest : endWithReturns (next :: pieces) ≠ [] := by
        cases pieces <;> exact List.cons_ne_nil _ _
      have hadded : lines.dropReturn (piece ++ ['\r']) = piece := by
        rw [lines.dropReturn, List.getLast?_concat, if_pos rfl, List.dropLast_concat]
      have hnone : lines.dropReturn piece = piece := by
        rw [lines.dropReturn, if_neg]
        exact fun hlast => hpiece (List.mem_of_getLast? hlast)
      rw [endWithReturns, hclose _ _ hrest, hclose _ _ (List.cons_ne_nil _ _), hadded, hnone,
        ih hpieces]

/-- The lines of a text do not tell with which line breaks it is written. -/
theorem lines_withReturns {s : Text} (h : '\r' ∉ s) : lines (withReturns s) = lines s := by
  rw [lines, fields_break_withReturns, close_endWithReturns, lines]
  exact fun piece hpiece hmem => h (mem_of_mem_fields hpiece hmem).1

end Text

end ApiDocs
