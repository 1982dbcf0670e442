import ApiDocs.Text.Basic
/-!
# Lexemes of a source text

A source text is cut into comments, literals, identifiers and single marks, as far as that
is needed to know where a doc comment opens: inside a string, a template, a regular
expression or an ordinary comment `/**` opens nothing.  The lexemes of a text make up the
text again.

Main definitions:

- `Lexeme`, `Lexeme.text`: a piece of a source and its spelling.
- `readLexeme`: the first lexeme of a text.
- `scan`: all lexemes of a text.

Main results:

- `readLexeme_append`: the first lexeme is a start of the text.
- `flatMap_text_scan`: the lexemes spell the whole text.
-/

namespace ApiDocs

/-- A piece of a source text. -/
inductive Lexeme
  /-- A doc comment, between its opening and its closing mark. -/
  | doc (body : Text)
  /-- A doc comment that runs to the end of the text. -/
  | openDoc (body : Text)
  /-- An ordinary block comment, between its marks. -/
  | block (body : Text)
  /-- An ordinary block comment that runs to the end of the text. -/
  | openBlock (body : Text)
  /-- A line comment after its mark, without the line break. -/
  | line (body : Text)
  /-- A string or template literal with its quotes. -/
  | literal (raw : Text)
  /-- A regular expression with its slashes and flags. -/
  | regex (raw : Text)
  /-- A run of identifier characters. -/
  | word (raw : Text)
  /-- A blank. -/
  | blank (c : Char)
  /-- Any other character, a division among them. -/
  | mark (c : Char)
  deriving DecidableEq, Repr

namespace Lexeme

/-- The spelling of a lexeme. -/
def text : Lexeme → Text
  | doc body => "/**".toList ++ body ++ "*/".toList
  | openDoc body => "/**".toList ++ body
  | block body => "/*".toList ++ body ++ "*/".toList
  | openBlock body => "/*".toList ++ body
  | line body => "//".toList ++ body
  | literal raw => raw
  | regex raw => raw
  | word raw => raw
  | blank c => [c]
  | mark c => [c]

/-- The words after which a slash opens a regular expression. -/
def regexWords : List Text :=
  ["return".toList, "typeof".toList, "case".toList, "in".toList, "of".toList, "delete".toList,
    "void".toList, "throw".toList, "new".toList]

/-- Whether a slash after this lexeme opens a regular expression, given whether it did so
before it: comments and blanks change nothing, a value ends in a literal, in most words and
in a closing parenthesis or bracket. -/
def regexAfter (before : Bool) : Lexeme → Bool
  | doc _ | openDoc _ | block _ | openBlock _ | line _ | blank _ => before
  | literal _ | regex _ => false
  | word raw => regexWords.contains raw
  | mark c => c != ')' && c != ']'

end Lexeme

/-! ### Reading one lexeme -/

/-- The blanks between the words of a source: those of ASCII without the vertical tab. -/
def isSourceBlank (c : Char) : Bool :=
  c == ' ' || c == '\t' || c == '\n' || c == '\x0c' || c == '\r'

/-- The characters that identifiers of a source run over: no character beyond ASCII ends
one. -/
def isIdentChar (c : Char) : Bool :=
  c.isAlphanum || c == '_' || c == '$' || 0x80 ≤ c.toNat

/-- Divides the text after an opening quote behind the end of the literal.  A backslash
takes the next character with it, and a line break ends every literal but a template. -/
def splitQuoted (quote : Char) : Text → Text × Text
  | [] => ([], [])
  | '\\' :: c :: s =>
    let later := splitQuoted quote s
    ('\\' :: c :: later.1, later.2)
  | c :: s =>
    if c = '\n' ∧ quote ≠ '`' then ([], c :: s)
    else if c = quote then ([c], s)
    else
      let later := splitQuoted quote s
      (c :: later.1, later.2)

/-- Divides the text after an opening slash behind the end of a regular expression and its
flags; `none` if no slash closes it on the same line.  A backslash takes the next character
with it, and a slash between brackets closes nothing. -/
def splitRegex (inClass : Bool) : Text → Option (Text × Text)
  | [] => none
  | '\\' :: c :: s =>
    (splitRegex inClass s).map fun (raw, after) => ('\\' :: c :: raw, after)
  | c :: s =>
    if c = '\n' then none
    else if c = '/' ∧ inClass = false then
      some (c :: s.takeWhile Char.isAlpha, s.dropWhile Char.isAlpha)
    else
      let inClass := if c = '[' then true else if c = ']' then false else inClass
      (splitRegex inClass s).map fun (raw, after) => (c :: raw, after)

/-- The comment whose body follows, closed by the first `*/`. -/
def readComment (closed unclosed : Text → Lexeme) (s : Text) : Lexeme × Text :=
  match Text.breakOn? "*/".toList s with
  | some (body, after) => (closed body, after)
  | none => (unclosed s, [])

/-- The lexeme that a slash opens: a comment, a regular expression where one may stand, or
a division.  A doc comment opens with two asterisks that no slash follows. -/
def readSlash (regexAllowed : Bool) : Text → Lexeme × Text
  | '*' :: '*' :: s =>
    if s.head? = some '/' then readComment .block .openBlock ('*' :: s)
    else readComment .doc .openDoc s
  | '*' :: s => readComment .block .openBlock s
  | '/' :: s => (.line (s.takeWhile (· ≠ '\n')), s.dropWhile (· ≠ '\n'))
  | s =>
    match if regexAllowed then splitRegex false s else none with
    | some (raw, after) => (.regex ('/' :: raw), after)
    | none => (.mark '/', s)

/-- The first lexeme of the text `c :: s`, and what follows it. -/
def readLexeme (regexAllowed : Bool) (c : Char) (s : Text) : Lexeme × Text :=
  if c = '/' then readSlash regexAllowed s
  else if c = '\'' ∨ c = '"' ∨ c = '`' then
    let parts := splitQuoted c s
    (.literal (c :: parts.1), parts.2)
  else if isSourceBlank c then (.blank c, s)
  else if isIdentChar c then
    (.word (c :: s.takeWhile isIdentChar), s.dropWhile isIdentChar)
  else (.mark c, s)

/-! ### Nothing is lost -/

/-- The end of a quoted literal only divides the text. -/
theorem splitQuoted_append (quote : Char) (s : Text) :
    (splitQuoted quote s).1 ++ (splitQuoted quote s).2 = s := by
  fun_induction splitQuoted quote s <;> simp_all +zetaDelta

/-- The end of a regular expression only divides the text. -/
theorem append_of_splitRegex {inClass : Bool} {s raw after : Text}
    (h : splitRegex inClass s = some (raw, after)) : raw ++ after = s := by
  fun_induction splitRegex inClass s generalizing raw with
  | case1 => simp at h
  | case2 inClass c s ih =>
    simp only [Option.map_eq_some_iff, Prod.exists, Prod.mk.injEq] at h
    obtain ⟨r, a, hs, rfl, rfl⟩ := h
    simp [ih hs]
  | case3 => simp at h
  | case4 inClass c s =>
    simp only [Option.some.injEq, Prod.mk.injEq] at h
    obtain ⟨rfl, rfl⟩ := h
    simp [List.takeWhile_append_dropWhile]
  | case5 =>
    rename_i ih
    simp only [Option.map_eq_some_iff, Prod.exists, Prod.mk.injEq] at h
    obtain ⟨r, a, hs, rfl, rfl⟩ := h
    simp [ih hs]

/-- A comment and what follows it are the text that was read, with the closing mark or without. -/
theorem readComment_append {closed unclosed : Text → Lexeme} (start : Text)
    (hc : ∀ b, (closed b).text = start ++ b ++ "*/".toList)
    (hu : ∀ b, (unclosed b).text = start ++ b) (s : Text) :
    (readComment closed unclosed s).1.text ++ (readComment closed unclosed s).2
      = start ++ s := by
  unfold readComment
  split
  · next body after h => simp [hc, Text.eq_append_of_breakOn? h]
  · simp [hu]

/-- Whatever starts with the slash, nothing of the text is lost. -/
theorem readSlash_append (regexAllowed : Bool) (s : Text) :
    (readSlash regexAllowed s).1.text ++ (readSlash regexAllowed s).2 = '/' :: s := by
  unfold readSlash
  split
  · split
    · exact readComment_append "/*".toList (fun _ => rfl) (fun _ => rfl) _
    · exact readComment_append "/**".toList (fun _ => rfl) (fun _ => rfl) _
  · exact readComment_append "/*".toList (fun _ => rfl) (fun _ => rfl) _
  · simp [Lexeme.text, List.takeWhile_append_dropWhile]
  · split
    · next h =>
      split at h
      · simp [Lexeme.text, append_of_splitRegex h]
      · simp at h
    · simp [Lexeme.text]

/-- A comment takes some text. -/
theorem text_readComment_ne_nil {closed unclosed : Text → Lexeme}
    (hc : ∀ b, (closed b).text ≠ []) (hu : ∀ b, (unclosed b).text ≠ []) (s : Text) :
    (readComment closed unclosed s).1.text ≠ [] := by
  unfold readComment
  split
  · exact hc _
  · exact hu _

/-- A lexeme that starts with a slash takes some text. -/
theorem text_readSlash_ne_nil (regexAllowed : Bool) (s : Text) :
    (readSlash regexAllowed s).1.text ≠ [] := by
  unfold readSlash
  split
  · split <;> exact text_readComment_ne_nil (by simp [Lexeme.text]) (by simp [Lexeme.text]) _
  · exact text_readComment_ne_nil (by simp [Lexeme.text]) (by simp [Lexeme.text]) _
  · simp [Lexeme.text]
  · split <;> simp [Lexeme.text]

/-- The first lexeme is not empty. -/
theorem text_readLexeme_ne_nil (regexAllowed : Bool) (c : Char) (s : Text) :
    (readLexeme regexAllowed c s).1.text ≠ [] := by
  unfold readLexeme
  split
  · exact text_readSlash_ne_nil regexAllowed s
  · split
    · simp [Lexeme.text]
    · split
      · simp [Lexeme.text]
      · split <;> simp [Lexeme.text]

/-- The first lexeme and the rest make up the text. -/
theorem readLexeme_append (regexAllowed : Bool) (c : Char) (s : Text) :
    (readLexeme regexAllowed c s).1.text ++ (readLexeme regexAllowed c s).2 = c :: s := by
  unfold readLexeme
  split
  · next h => exact h ▸ readSlash_append regexAllowed s
  · split
    · simp [Lexeme.text, splitQuoted_append]
    · split
      · simp [Lexeme.text]
      · split <;> simp [Lexeme.text, List.takeWhile_append_dropWhile]

/-- What follows the first lexeme is shorter than the text. -/
theorem length_readLexeme_lt (regexAllowed : Bool) (c : Char) (s : Text) :
    (readLexeme regexAllowed c s).2.length < (c :: s).length := by
  have hlen := congrArg List.length (readLexeme_append regexAllowed c s)
  have hpos := List.length_pos_iff.2 (text_readLexeme_ne_nil regexAllowed c s)
  simp only [List.length_append] at hlen
  omega

/-! ### Scanning -/

/-- The lexemes of a text, given whether a slash at its start opens a regular expression. -/
def scanFrom (regexAllowed : Bool) : Text → List Lexeme
  | [] => []
  | c :: s =>
    let next := readLexeme regexAllowed c s
    next.1 :: scanFrom (next.1.regexAfter regexAllowed) next.2
termination_by s => s.length
decreasing_by exact length_readLexeme_lt regexAllowed c s

/-- The lexemes of a source text: a slash at its start opens a regular expression. -/
def scan (s : Text) : List Lexeme :=
  scanFrom true s

/-- The lexemes of a text are the text, from any place on. -/
theorem flatMap_text_scanFrom (regexAllowed : Bool) (s : Text) :
    (scanFrom regexAllowed s).flatMap Lexeme.text = s := by
  fun_induction scanFrom regexAllowed s with
  | case1 => rfl
  | case2 regexAllowed c s next ih =>
    rw [List.flatMap_cons, ih]
    exact readLexeme_append regexAllowed c s

/-- The lexemes of a text spell it. -/
theorem flatMap_text_scan (s : Text) : (scan s).flatMap Lexeme.text = s :=
  flatMap_text_scanFrom true s

end ApiDocs
