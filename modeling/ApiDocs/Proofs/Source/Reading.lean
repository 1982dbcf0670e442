import ApiDocs.Source.DocBlock
/-!
# What a lexeme is read from

At the start of a comment, a literal or a word, the scanner reads exactly what the lexeme is
spelled with and leaves what follows.  A comment ends at the first closing mark, a literal at the
first quote that no backslash takes, and a word takes all identifier characters in a row.

Main definitions:

- `DocBody`: what can stand between the marks of a doc comment.
- `QuotedBody`: what can stand between the quotes of a literal.

Main results:

- `docBody_of_mem_scanFrom`: the scanner finds nothing else between the marks of a doc comment.
- `readLexeme_doc`, `readLexeme_block`, `readLexeme_line`, `readLexeme_literal`,
  `readLexeme_broken`, `readLexeme_slash`, `readLexeme_word`, `readLexeme_plain`: what is read in
  each case.
-/

namespace ApiDocs

/-- What can stand between the marks of a doc comment: the closing mark does not occur in it,
and no slash makes the opening mark a closed ordinary comment. -/
structure DocBody (body : Text) : Prop where
  no_close : ¬ "*/".toList <:+: body
  no_slash_first : body.head? ≠ some '/'

/-- What stands between the quotes of a literal: a backslash with any character behind it, or
a character that is neither the quote nor a backslash, nor a line break outside a template. -/
inductive QuotedBody (quote : Char) : Text → Prop
  | nil : QuotedBody quote []
  | escape (c : Char) {s : Text} (rest : QuotedBody quote s) : QuotedBody quote ('\\' :: c :: s)
  | plain {c : Char} {s : Text} (not_quote : c ≠ quote) (not_escape : c ≠ '\\')
      (in_line : c = '\n' → quote = '`') (rest : QuotedBody quote s) : QuotedBody quote (c :: s)

/-! ### Bodies that the scanner finds -/

/-- The body of a doc comment that starts with a slash is one. -/
theorem docBody_of_readSlash {regexAllowed : Bool} {s body : Text}
    (h : (readSlash regexAllowed s).1 = .doc body) : DocBody body := by
  unfold readSlash at h
  split at h
  · next s =>
    split at h
    · unfold readComment at h
      split at h <;> simp at h
    · next hslash =>
      unfold readComment at h
      split at h
      · next before after hbreak =>
        simp only [Lexeme.doc.injEq] at h
        subst h
        refine ⟨Text.not_infix_of_breakOn? (by decide) hbreak, ?_⟩
        intro hhead
        rw [Text.eq_append_of_breakOn? hbreak] at hslash
        exact hslash (by simp [List.head?_append, hhead])
      · simp at h
  · unfold readComment at h
    split at h <;> simp at h
  · simp at h
  · split at h <;> simp at h

/-- The body of every doc comment that is read is one. -/
theorem docBody_of_readLexeme {regexAllowed : Bool} {c : Char} {s body : Text}
    (h : (readLexeme regexAllowed c s).1 = .doc body) : DocBody body := by
  unfold readLexeme at h
  split at h
  · exact docBody_of_readSlash h
  · split at h
    · simp at h
    · split at h
      · simp at h
      · split at h <;> simp at h

/-- Between the marks of each doc comment stands a body of a doc comment. -/
theorem docBody_of_mem_scanFrom {regexAllowed : Bool} {s body : Text}
    (h : Lexeme.doc body ∈ scanFrom regexAllowed s) : DocBody body := by
  fun_induction scanFrom regexAllowed s with
  | case1 => simp at h
  | case2 regexAllowed c s next ih =>
    rcases List.mem_cons.1 h with hfirst | hlater
    · exact docBody_of_readLexeme hfirst.symm
    · exact ih hlater

/-! ### Comments -/

/-- A scan reads one lexeme and goes on behind it. -/
theorem scanFrom_cons (regexAllowed : Bool) (c : Char) (s : Text) :
    scanFrom regexAllowed (c :: s)
      = (readLexeme regexAllowed c s).1 ::
        scanFrom ((readLexeme regexAllowed c s).1.regexAfter regexAllowed)
          (readLexeme regexAllowed c s).2 := by
  rw [scanFrom]

/-- A body without the closing mark ends where the mark follows. -/
theorem readComment_closed {closed unclosed : Text → Lexeme} {body : Text} (rest : Text)
    (h : ¬ "*/".toList <:+: body) :
    readComment closed unclosed (body ++ "*/".toList ++ rest) = (closed body, rest) := by
  have hbreak : Text.breakOn? "*/".toList (body ++ '*' :: '/' :: rest) = some (body, rest) :=
    Text.breakOn?_append_pair (by decide) rest h
  have htext : body ++ "*/".toList ++ rest = body ++ '*' :: '/' :: rest := by simp
  rw [readComment, htext, hbreak]

/-- Without a closing mark, the whole text is the body of a comment. -/
theorem readComment_unclosed {closed unclosed : Text → Lexeme} {body : Text}
    (h : ¬ "*/".toList <:+: body) :
    readComment closed unclosed body = (unclosed body, []) := by
  rw [readComment, Text.breakOn?_eq_none_iff.2 h]

/-- A closed doc comment is read whole. -/
theorem readLexeme_doc (regexAllowed : Bool) {body : Text} (valid : DocBody body) (rest : Text) :
    readLexeme regexAllowed '/' ('*' :: '*' :: (body ++ "*/".toList ++ rest))
      = (.doc body, rest) := by
  have hhead : (body ++ "*/".toList ++ rest).head? ≠ some '/' := by
    cases body with
    | nil => simp
    | cons c body => simpa using valid.no_slash_first
  rw [readLexeme, if_pos rfl, readSlash, if_neg hhead, readComment_closed rest valid.no_close]

/-- A doc comment that nothing closes takes the rest of the text. -/
theorem readLexeme_openDoc (regexAllowed : Bool) {body : Text} (valid : DocBody body) :
    readLexeme regexAllowed '/' ('*' :: '*' :: body) = (.openDoc body, []) := by
  rw [readLexeme, if_pos rfl, readSlash, if_neg valid.no_slash_first,
    readComment_unclosed valid.no_close]

/-- A block comment whose body does not start with an asterisk is no doc comment. -/
theorem readLexeme_block (regexAllowed : Bool) {body : Text} (rest : Text)
    (no_close : ¬ "*/".toList <:+: body) (no_star_first : body.head? ≠ some '*') :
    readLexeme regexAllowed '/' ('*' :: (body ++ "*/".toList ++ rest)) = (.block body, rest) := by
  have hread := @readComment_closed .block .openBlock body rest no_close
  rw [readLexeme, if_pos rfl]
  cases body with
  | nil => exact hread
  | cons c body =>
    have hc : c ≠ '*' := by simpa using no_star_first
    rw [List.cons_append, List.cons_append] at hread ⊢
    rw [readSlash, hread]
    intro s hs
    exact hc (List.cons.inj hs).1

/-- A line comment is read up to its line feed. -/
theorem readLexeme_line (regexAllowed : Bool) {body : Text} (rest : Text)
    (one_line : '\n' ∉ body) :
    readLexeme regexAllowed '/' ('/' :: (body ++ '\n' :: rest)) = (.line body, '\n' :: rest) := by
  have hall : ∀ c ∈ body, decide (c ≠ '\n') = true := by
    intro c hc
    rw [decide_eq_true_iff]
    rintro rfl
    exact one_line hc
  have hbreak : ∀ c, ('\n' :: rest).head? = some c → decide (c ≠ '\n') = false := by
    rintro c ⟨⟩
    decide
  rw [readLexeme, if_pos rfl, readSlash, Text.takeWhile_run hall hbreak,
    Text.dropWhile_run hall hbreak]

/-! ### Literals -/

/-- A literal goes on behind a body. -/
theorem splitQuoted_of_body {quote : Char} {body : Text} (rest : Text)
    (valid : QuotedBody quote body) :
    splitQuoted quote (body ++ rest)
      = (body ++ (splitQuoted quote rest).1, (splitQuoted quote rest).2) := by
  induction valid with
  | nil => rfl
  | escape c _ ih =>
    rw [List.cons_append, List.cons_append, splitQuoted, ih]
    rfl
  | @plain c s not_quote not_escape in_line _ ih =>
    have hline : ¬ (c = '\n' ∧ quote ≠ '`') := fun ⟨hc, hq⟩ => hq (in_line hc)
    rw [List.cons_append, splitQuoted.eq_3, if_neg hline, if_neg not_quote, ih]
    · rfl
    · intro d t h
      exact absurd h not_escape

/-- A quote starts a literal. -/
theorem readLexeme_quote {quote : Char} (quotes : quote = '\'' ∨ quote = '"' ∨ quote = '`')
    (regexAllowed : Bool) (s : Text) :
    readLexeme regexAllowed quote s
      = (.literal (quote :: (splitQuoted quote s).1), (splitQuoted quote s).2) := by
  have hslash : quote ≠ '/' := by rcases quotes with rfl | rfl | rfl <;> decide
  rw [readLexeme, if_neg hslash, if_pos quotes]

/-- A literal is read up to the quote that closes it. -/
theorem readLexeme_literal {quote : Char} {body : Text} (regexAllowed : Bool) (rest : Text)
    (quotes : quote = '\'' ∨ quote = '"' ∨ quote = '`') (valid : QuotedBody quote body) :
    readLexeme regexAllowed quote (body ++ quote :: rest)
      = (.literal (quote :: (body ++ [quote])), rest) := by
  have hescape : quote ≠ '\\' := by rcases quotes with rfl | rfl | rfl <;> decide
  have hbreak : ¬ (quote = '\n' ∧ quote ≠ '`') := by
    rcases quotes with rfl | rfl | rfl <;> decide
  have hend : splitQuoted quote (quote :: rest) = ([quote], rest) := by
    rw [splitQuoted.eq_3, if_neg hbreak, if_pos rfl]
    intro c s h
    exact absurd h hescape
  rw [readLexeme_quote quotes, splitQuoted_of_body _ valid, hend]

/-- A literal in plain quotes ends before a line feed. -/
theorem readLexeme_broken {quote : Char} {body : Text} (regexAllowed : Bool) (rest : Text)
    (quotes : quote = '\'' ∨ quote = '"') (valid : QuotedBody quote body) :
    readLexeme regexAllowed quote (body ++ '\n' :: rest)
      = (.literal (quote :: body), '\n' :: rest) := by
  have htemplate : quote ≠ '`' := by rcases quotes with rfl | rfl <;> decide
  have hend : splitQuoted quote ('\n' :: rest) = ([], '\n' :: rest) := by
    rw [splitQuoted.eq_3, if_pos ⟨rfl, htemplate⟩]
    intro c s h
    exact absurd h (by decide)
  rw [readLexeme_quote (quotes.imp_right Or.inl), splitQuoted_of_body _ valid, hend,
    List.append_nil]

/-! ### Slashes -/

/-- A slash that opens no comment: where a regular expression may stand, one is looked for. -/
theorem readLexeme_slash (regexAllowed : Bool) {s : Text}
    (h : ∀ c, s.head? = some c → c ≠ '*' ∧ c ≠ '/') :
    readLexeme regexAllowed '/' s
      = match if regexAllowed then splitRegex false s else none with
        | some (raw, after) => (.regex ('/' :: raw), after)
        | none => (.mark '/', s) := by
  rw [readLexeme, if_pos rfl]
  cases s with
  | nil => rfl
  | cons c s =>
    obtain ⟨hstar, hslash⟩ := h c rfl
    unfold readSlash
    split
    next heq => exact absurd (List.cons.inj heq).1 hstar
    next heq => exact absurd (List.cons.inj heq).1 hstar
    next heq => exact absurd (List.cons.inj heq).1 hslash
    next => rfl

/-! ### Words and other characters -/

/-- Identifier characters are none of the characters that the scanner looks for first. -/
theorem isIdentChar_cases {c : Char} (h : isIdentChar c = true) :
    c ≠ '/' ∧ ¬ (c = '\'' ∨ c = '"' ∨ c = '`') ∧ isSourceBlank c = false := by
  have hne : ∀ d, isIdentChar d = false → c ≠ d := by
    rintro d hd rfl
    rw [h] at hd
    exact Bool.noConfusion hd
  refine ⟨hne _ (by decide), ?_, ?_⟩
  · rintro (hc | hc | hc) <;> exact hne _ (by decide) hc
  · rw [Bool.eq_false_iff]
    intro hblank
    simp only [isSourceBlank, Bool.or_eq_true, beq_iff_eq] at hblank
    rcases hblank with (((hc | hc) | hc) | hc) | hc <;> exact hne _ (by decide) hc

/-- A run of identifier characters is one word. -/
theorem readLexeme_word (regexAllowed : Bool) {c : Char} {run rest : Text}
    (hc : isIdentChar c = true) (hrun : ∀ d ∈ run, isIdentChar d = true)
    (hrest : ∀ d ∈ rest.head?, isIdentChar d = false) :
    readLexeme regexAllowed c (run ++ rest) = (.word (c :: run), rest) := by
  obtain ⟨hslash, hquote, hblank⟩ := isIdentChar_cases hc
  rw [readLexeme, if_neg hslash, if_neg hquote, if_neg (by simp [hblank]), if_pos hc,
    Text.takeWhile_run hrun hrest, Text.dropWhile_run hrun hrest]

/-- A character that starts no comment, literal or word is a lexeme of its own. -/
theorem readLexeme_plain (regexAllowed : Bool) {c : Char} (s : Text)
    (no_start : c ≠ '/' ∧ c ≠ '\'' ∧ c ≠ '"' ∧ c ≠ '`') (hc : isIdentChar c = false) :
    ∃ l : Lexeme, readLexeme regexAllowed c s = (l, s) ∧ l.text = [c] ∧ l.docMark? = none := by
  have hquote : ¬ (c = '\'' ∨ c = '"' ∨ c = '`') := by
    obtain ⟨-, h1, h2, h3⟩ := no_start
    simp [h1, h2, h3]
  by_cases hblank : isSourceBlank c = true
  · refine ⟨.blank c, ?_, rfl, rfl⟩
    rw [readLexeme, if_neg no_start.1, if_neg hquote, if_pos hblank]
  · refine ⟨.mark c, ?_, rfl, rfl⟩
    rw [readLexeme, if_neg no_start.1, if_neg hquote, if_neg hblank, if_neg (by simp [hc])]

end ApiDocs
