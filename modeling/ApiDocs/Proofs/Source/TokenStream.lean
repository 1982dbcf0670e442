import ApiDocs.Proofs.Source.Lossless
/-!
# The doc blocks of a token stream

A source that is spelled as a stream of comments, string literals and other characters has
one doc block for each doc comment of the stream, whatever stands in the other tokens.  The
scanner need not find the same pieces, since it joins identifier characters to words, but it
stays in step with the stream: each doc comment is one of its lexemes, and what it finds
between two of them spells the tokens between them.

Main definitions:

- `SourceToken`: the tokens that a source is written with.
- `streamBlocks`: the doc blocks that a stream spells.
- `InStep`: lexemes that agree with a stream on its doc comments.

Main results:

- `scanFrom_inStep`: the scanner stays in step with every stream.
- `docBlocks_of_stream`: the doc blocks of a source spelled by a stream.
-/

namespace ApiDocs

/-! ### Token streams -/

/-- The tokens that a source is written with. -/
inductive SourceToken
  /-- A doc comment. -/
  | doc (body : Text) (valid : DocBody body)
  /-- An ordinary block comment. -/
  | block (body : Text) (no_close : ¬ "*/".toList <:+: body)
      (no_star_first : body.head? ≠ some '*')
  /-- A line comment with the line break that ends it. -/
  | line (body : Text) (one_line : '\n' ∉ body)
  /-- A string or template literal. -/
  | literal (quote : Char) (body : Text) (quotes : quote = '\'' ∨ quote = '"' ∨ quote = '`')
      (valid : QuotedBody quote body)
  /-- A string literal that a line break breaks off. -/
  | broken (quote : Char) (body : Text) (quotes : quote = '\'' ∨ quote = '"')
      (valid : QuotedBody quote body)
  /-- A character that starts no other token. -/
  | plain (c : Char) (no_start : c ≠ '/' ∧ c ≠ '\'' ∧ c ≠ '"' ∧ c ≠ '`')

namespace SourceToken

/-- The spelling of a token. -/
def text : SourceToken → Text
  | doc body _ => "/**".toList ++ body ++ "*/".toList
  | block body _ _ => "/*".toList ++ body ++ "*/".toList
  | line body _ => "//".toList ++ body ++ ['\n']
  | literal quote body _ _ => quote :: body ++ [quote]
  | broken quote body _ _ => quote :: body ++ ['\n']
  | plain c _ => [c]

/-- Whether a token is a doc comment. -/
def isDoc : SourceToken → Bool
  | doc _ _ => true
  | _ => false

/-- Whether a token is a character of an identifier. -/
def isIdent : SourceToken → Bool
  | plain c _ => isIdentChar c
  | _ => false

end SourceToken

/-- The text that a stream of tokens spells. -/
def spellStream (tokens : List SourceToken) : Text :=
  tokens.flatMap SourceToken.text

theorem spellStream_cons (token : SourceToken) (tokens : List SourceToken) :
    spellStream (token :: tokens) = token.text ++ spellStream tokens :=
  List.flatMap_cons

/-- Streams of tokens in a row are spelled in a row. -/
theorem spellStream_append (tokens tokens' : List SourceToken) :
    spellStream (tokens ++ tokens') = spellStream tokens ++ spellStream tokens' :=
  List.flatMap_append

/-- The doc blocks of a stream behind the text `before`: one for each doc comment, with the
tokens up to the next doc comment as its code. -/
def streamBlocks (before : Text) : List SourceToken → List DocBlock
  | [] => []
  | .doc body valid :: rest =>
    { comment := body
      code := spellStream (rest.takeWhile (! ·.isDoc))
      line := 1 + Text.lineBreaks before }
        :: streamBlocks (before ++ (SourceToken.doc body valid).text) rest
  | token :: rest => streamBlocks (before ++ token.text) rest

/-- Lexemes that agree with a stream on its doc comments and on the text between them. -/
inductive InStep : List Lexeme → List SourceToken → Prop
  | nil : InStep [] []
  | doc {body : Text} (valid : DocBody body) {lexemes : List Lexeme} {tokens : List SourceToken}
      (rest : InStep lexemes tokens) : InStep (.doc body :: lexemes) (.doc body valid :: tokens)
  | pass {passed : List Lexeme} {others : List SourceToken}
      (no_mark : ∀ l ∈ passed, l.docMark? = none) (no_doc : ∀ t ∈ others, t.isDoc = false)
      (same_text : spell passed = spellStream others)
      {lexemes : List Lexeme} {tokens : List SourceToken} (rest : InStep lexemes tokens) :
      InStep (passed ++ lexemes) (others ++ tokens)

/-- Lexemes and tokens that are in step stay so in a row. -/
theorem InStep.append {lexemes lexemes' : List Lexeme} {tokens tokens' : List SourceToken}
    (h : InStep lexemes tokens) (h' : InStep lexemes' tokens') :
    InStep (lexemes ++ lexemes') (tokens ++ tokens') := by
  induction h with
  | nil => exact h'
  | doc valid _ ih => exact .doc valid ih
  | pass no_mark no_doc same_text _ ih =>
    rw [List.append_assoc, List.append_assoc]
    exact .pass no_mark no_doc same_text ih

/-- Lexemes that spell tokens without a doc comment are in step with them. -/
theorem InStep.of_spell {passed : List Lexeme} {others : List SourceToken}
    (no_mark : ∀ l ∈ passed, l.docMark? = none) (no_doc : ∀ t ∈ others, t.isDoc = false)
    (same_text : spell passed = spellStream others) : InStep passed others := by
  have h := InStep.pass no_mark no_doc same_text .nil
  rwa [List.append_nil, List.append_nil] at h

/-! ### Staying in step -/

/-- One lexeme that spells one token other than a doc comment. -/
theorem scanFrom_pass {regexAllowed : Bool} {c : Char} {s rest : Text} {l : Lexeme}
    {token : SourceToken} (hread : readLexeme regexAllowed c s = (l, rest))
    (hmark : l.docMark? = none) (hdoc : token.isDoc = false) (htext : l.text = token.text) :
    ∃ after, scanFrom regexAllowed (c :: s) = [l] ++ scanFrom after rest ∧
      InStep [l] [token] := by
  refine ⟨l.regexAfter regexAllowed, ?_, ?_⟩
  · rw [scanFrom_cons, hread]
    rfl
  · refine .of_spell ?_ ?_ ?_
    · simpa using hmark
    · simpa using hdoc
    · simpa [spell, spellStream] using htext

/-- Behind a lexeme that ends before a line break, the line break is a blank of its own. -/
theorem scanFrom_pass_line {regexAllowed : Bool} {c : Char} {s rest : Text} {l : Lexeme}
    {token : SourceToken} (hread : readLexeme regexAllowed c s = (l, '\n' :: rest))
    (hmark : l.docMark? = none) (hdoc : token.isDoc = false)
    (htext : l.text ++ ['\n'] = token.text) :
    ∃ after, scanFrom regexAllowed (c :: s) = [l, .blank '\n'] ++ scanFrom after rest ∧
      InStep [l, .blank '\n'] [token] := by
  have hblank : ∀ after, readLexeme after '\n' rest = (.blank '\n', rest) := fun _ => rfl
  refine ⟨l.regexAfter regexAllowed, ?_, ?_⟩
  · rw [scanFrom_cons, hread, scanFrom_cons, hblank]
    rfl
  · refine .of_spell ?_ ?_ ?_
    · simpa [Lexeme.docMark?] using hmark
    · simpa using hdoc
    · simpa [spell, spellStream, Lexeme.text] using htext

/-- Every token that is no character of an identifier is read by itself. -/
theorem scanFrom_token (regexAllowed : Bool) (token : SourceToken) (rest : Text)
    (h : token.isIdent = false) :
    ∃ lexemes after, scanFrom regexAllowed (token.text ++ rest) = lexemes ++ scanFrom after rest ∧
      InStep lexemes [token] := by
  cases token with
  | doc body valid =>
    refine ⟨[.doc body], regexAllowed, ?_, .doc valid .nil⟩
    have hread := readLexeme_doc regexAllowed valid rest
    have htext : (SourceToken.doc body valid).text ++ rest
        = '/' :: '*' :: '*' :: (body ++ "*/".toList ++ rest) := by simp [SourceToken.text]
    rw [htext, scanFrom_cons, hread]
    rfl
  | block body no_close no_star_first =>
    have htext : (SourceToken.block body no_close no_star_first).text ++ rest
        = '/' :: '*' :: (body ++ "*/".toList ++ rest) := by simp [SourceToken.text]
    rw [htext]
    exact ⟨_, scanFrom_pass (readLexeme_block regexAllowed rest no_close no_star_first)
      rfl rfl rfl⟩
  | line body one_line =>
    have htext : (SourceToken.line body one_line).text ++ rest
        = '/' :: '/' :: (body ++ '\n' :: rest) := by simp [SourceToken.text]
    rw [htext]
    exact ⟨_, scanFrom_pass_line (readLexeme_line regexAllowed rest one_line) rfl rfl rfl⟩
  | literal quote body quotes valid =>
    have htext : (SourceToken.literal quote body quotes valid).text ++ rest
        = quote :: (body ++ quote :: rest) := by simp [SourceToken.text]
    rw [htext]
    exact ⟨_, scanFrom_pass (readLexeme_literal regexAllowed rest quotes valid) rfl rfl rfl⟩
  | broken quote body quotes valid =>
    have htext : (SourceToken.broken quote body quotes valid).text ++ rest
        = quote :: (body ++ '\n' :: rest) := by simp [SourceToken.text]
    rw [htext]
    exact ⟨_, scanFrom_pass_line (readLexeme_broken regexAllowed rest quotes valid) rfl rfl rfl⟩
  | plain c no_start =>
    obtain ⟨l, hread, htext, hmark⟩ := readLexeme_plain regexAllowed rest no_start h
    exact ⟨_, scanFrom_pass hread hmark rfl htext⟩

theorem isIdentChar_of_mem_text {token : SourceToken} (h : token.isIdent = true) {c : Char}
    (hc : c ∈ token.text) : isIdentChar c = true := by
  cases token with
  | plain d no_start =>
    rw [SourceToken.text, List.mem_singleton] at hc
    rwa [hc]
  | _ => simp [SourceToken.isIdent] at h

/-- No other token starts with a character of an identifier. -/
theorem isIdentChar_head_text {token : SourceToken} (h : token.isIdent = false) (rest : Text) :
    ∀ c ∈ (token.text ++ rest).head?, isIdentChar c = false := by
  have hquote : ∀ quote, quote = '\'' ∨ quote = '"' ∨ quote = '`' →
      isIdentChar quote = false := by
    rintro quote (rfl | rfl | rfl) <;> decide
  intro c hc
  cases token with
  | doc | block | line =>
    cases hc
    decide
  | literal quote body quotes valid =>
    cases hc
    exact hquote _ quotes
  | broken quote body quotes valid =>
    cases hc
    exact hquote _ (quotes.imp_right Or.inl)
  | plain d no_start =>
    cases hc
    exact h

/-- Identifier characters in a row are one lexeme. -/
theorem scanFrom_run (regexAllowed : Bool) {token : SourceToken} {run : List SourceToken}
    (hall : ∀ t ∈ token :: run, t.isIdent = true) {rest : Text}
    (hrest : ∀ c ∈ rest.head?, isIdentChar c = false) :
    ∃ lexemes after, scanFrom regexAllowed (spellStream (token :: run) ++ rest)
        = lexemes ++ scanFrom after rest ∧ InStep lexemes (token :: run) := by
  rw [List.forall_mem_cons] at hall
  obtain ⟨htoken, hrun⟩ := hall
  cases token with
  | plain c no_start =>
    have hchars : ∀ d ∈ spellStream run, isIdentChar d = true := by
      intro d hd
      obtain ⟨t, ht, hdt⟩ := List.mem_flatMap.1 hd
      exact isIdentChar_of_mem_text (hrun t ht) hdt
    have hread := readLexeme_word regexAllowed htoken hchars hrest
    let word := Lexeme.word (c :: spellStream run)
    refine ⟨[word], word.regexAfter regexAllowed, ?_, ?_⟩
    · have htext : spellStream (.plain c no_start :: run) ++ rest
          = c :: (spellStream run ++ rest) := rfl
      rw [htext, scanFrom_cons, hread]
      rfl
    · refine .of_spell (by simp [word, Lexeme.docMark?]) ?_ ?_
      · rw [List.forall_mem_cons]
        refine ⟨rfl, fun t ht => ?_⟩
        have hident := hrun t ht
        cases t with
        | plain => rfl
        | _ => simp [SourceToken.isIdent] at hident
      · simp [word, spell, spellStream, Lexeme.text, SourceToken.text]
  | _ => simp [SourceToken.isIdent] at htoken

/-- The scanner reads one token, or the identifier characters at the start of a stream. -/
theorem scanFrom_step (token : SourceToken) (rest : List SourceToken) {tail : Text}
    (htail : ∀ c ∈ tail.head?, isIdentChar c = false) (regexAllowed : Bool) :
    ∃ front others, token :: rest = front ++ others ∧ others.length ≤ rest.length ∧
      ∃ lexemes after, scanFrom regexAllowed (spellStream front ++ (spellStream others ++ tail))
          = lexemes ++ scanFrom after (spellStream others ++ tail) ∧ InStep lexemes front := by
  by_cases hident : token.isIdent = true
  · -- A word takes all identifier characters at once, so the stream goes on behind the run.
    have hsplit := List.takeWhile_append_dropWhile (p := SourceToken.isIdent) (l := rest)
    have hnext := List.head?_dropWhile_not SourceToken.isIdent rest
    refine ⟨token :: rest.takeWhile SourceToken.isIdent, rest.dropWhile SourceToken.isIdent,
      ?_, (List.dropWhile_sublist SourceToken.isIdent).length_le, scanFrom_run regexAllowed ?_ ?_⟩
    · rw [List.cons_append, hsplit]
    · rw [List.forall_mem_cons]
      exact ⟨hident, List.all_eq_true.1 List.all_takeWhile⟩
    · cases hothers : rest.dropWhile SourceToken.isIdent with
      | nil => exact htail
      | cons t others =>
        rw [hothers] at hnext
        rw [spellStream_cons, List.append_assoc]
        exact isIdentChar_head_text (by simpa using hnext) _
  · refine ⟨[token], rest, rfl, Nat.le_refl _, ?_⟩
    rw [spellStream, List.flatMap_singleton]
    exact scanFrom_token regexAllowed token (spellStream rest ++ tail) (by simpa using hident)

/-- The scanner stays in step with a stream up to what follows it, whether or not a regular
expression may stand at its start. -/
theorem scanFrom_inStep (tokens : List SourceToken) {tail : Text}
    (htail : ∀ c ∈ tail.head?, isIdentChar c = false) (regexAllowed : Bool) :
    ∃ lexemes after, scanFrom regexAllowed (spellStream tokens ++ tail)
        = lexemes ++ scanFrom after tail ∧ InStep lexemes tokens := by
  match tokens with
  | [] => exact ⟨[], regexAllowed, rfl, .nil⟩
  | token :: rest =>
    obtain ⟨front, others, hsplit, hlen, first, after, hscan, hstep⟩ :=
      scanFrom_step token rest htail regexAllowed
    obtain ⟨later, after', hscan', hstep'⟩ := scanFrom_inStep others htail after
    refine ⟨first ++ later, after', ?_, hsplit ▸ hstep.append hstep'⟩
    rw [hsplit, spellStream_append, List.append_assoc, hscan, hscan', List.append_assoc]
termination_by tokens.length
decreasing_by
  rw [List.length_cons]
  omega

/-! ### Placing the blocks of a stream -/

/-- The doc blocks of a list of lexemes that starts on `line`. -/
def placeFrom (line : Nat) (lexemes : List Lexeme) : Except Fault (List DocBlock) :=
  placeBlocks (line + Text.lineBreaks (spell (cut Lexeme.docMark? lexemes).1))
    (cut Lexeme.docMark? lexemes).2

/-- Lexemes that are no doc comments only move the line on. -/
theorem placeFrom_pass (line : Nat) {passed : List Lexeme} (rest : List Lexeme)
    (h : ∀ l ∈ passed, l.docMark? = none) :
    placeFrom line (passed ++ rest) = placeFrom (line + Text.lineBreaks (spell passed)) rest := by
  have hspell : ∀ l : List Lexeme, spell (passed ++ l) = spell passed ++ spell l :=
    fun l => List.flatMap_append
  rw [placeFrom, cut_append_of_forall_none rest h, hspell, Text.lineBreaks_append,
    ← Nat.add_assoc, placeFrom]

/-- A doc comment makes a block with the code up to the next one. -/
theorem placeFrom_doc (line : Nat) (body : Text) (rest : List Lexeme) :
    placeFrom line (.doc body :: rest)
      = (placeFrom (line + Text.lineBreaks body) rest).map fun later =>
        ⟨body, spell (cut Lexeme.docMark? rest).1, line⟩ :: later := by
  rfl

/-- Tokens that are no doc comments add to the code before. -/
theorem streamBlocks_append (before : Text) {others : List SourceToken}
    (tokens : List SourceToken) (h : ∀ t ∈ others, t.isDoc = false) :
    streamBlocks before (others ++ tokens)
      = streamBlocks (before ++ spellStream others) tokens := by
  induction others generalizing before with
  | nil => rw [List.nil_append, spellStream, List.flatMap_nil, List.append_nil]
  | cons token others ih =>
    rw [List.forall_mem_cons] at h
    have hstep : streamBlocks before (token :: (others ++ tokens))
        = streamBlocks (before ++ token.text) (others ++ tokens) := by
      cases token with
      | doc => exact absurd h.1 (by simp [SourceToken.isDoc])
      | _ => rfl
    rw [List.cons_append, hstep, ih _ h.2, spellStream_cons, List.append_assoc]

/-- The lexemes up to the first doc comment spell the tokens up to it. -/
theorem spell_before_doc {lexemes : List Lexeme} {tokens : List SourceToken}
    (h : InStep lexemes tokens) :
    spell (cut Lexeme.docMark? lexemes).1 = spellStream (tokens.takeWhile (! ·.isDoc)) := by
  induction h with
  | nil => rfl
  | doc valid _ _ => rfl
  | @pass passed others no_mark no_doc same_text lexemes tokens _ ih =>
    have hothers : ∀ t ∈ others, (! t.isDoc) = true := by
      intro t ht
      rw [no_doc t ht]
      rfl
    rw [cut_append_of_forall_none _ no_mark, List.takeWhile_append_of_pos hothers,
      spellStream_append, ← same_text, ← ih]
    exact List.flatMap_append

/-- Lexemes in step with a stream place its doc blocks. -/
theorem placeFrom_of_inStep {lexemes : List Lexeme} {tokens : List SourceToken}
    (h : InStep lexemes tokens) (before : Text) :
    placeFrom (1 + Text.lineBreaks before) lexemes = .ok (streamBlocks before tokens) := by
  induction h generalizing before with
  | nil => rfl
  | @doc body valid lexemes tokens rest ih =>
    have hline : 1 + Text.lineBreaks before + Text.lineBreaks body
        = 1 + Text.lineBreaks (before ++ (SourceToken.doc body valid).text) := by
      rw [SourceToken.text, Text.lineBreaks_append, lineBreaks_docComment, Nat.add_assoc]
    rw [placeFrom_doc, hline, ih, spell_before_doc rest]
    rfl
  | pass no_mark no_doc same_text _ ih =>
    rw [placeFrom_pass _ _ no_mark, same_text, Nat.add_assoc, ← Text.lineBreaks_append, ih,
      streamBlocks_append _ _ no_doc]

/-- Behind the lexemes of a stream, a doc comment that is never closed is a fault. -/
theorem placeFrom_openDoc {lexemes : List Lexeme} {tokens : List SourceToken}
    (h : InStep lexemes tokens) (body : Text) (line : Nat) :
    placeFrom line (lexemes ++ [.openDoc body])
      = .error (.unclosedComment (line + Text.lineBreaks (spellStream tokens))) := by
  induction h generalizing line with
  | nil => rfl
  | @doc comment valid lexemes tokens _ ih =>
    rw [List.cons_append, placeFrom_doc, ih, spellStream_cons, Text.lineBreaks_append,
      SourceToken.text, lineBreaks_docComment, ← Nat.add_assoc]
    rfl
  | pass no_mark no_doc same_text _ ih =>
    rw [List.append_assoc, placeFrom_pass _ _ no_mark, ih, same_text, spellStream_append,
      Text.lineBreaks_append, Nat.add_assoc]

/-- A source that is spelled by a stream has the doc blocks of the stream.  When a doc comment
that is never closed follows, the fault names the line on which that one opens. -/
theorem docBlocks_of_stream (tokens : List SourceToken) :
    docBlocks (spellStream tokens) = .ok (streamBlocks [] tokens) ∧
      ∀ body, DocBody body →
        docBlocks (spellStream tokens ++ ("/**".toList ++ body))
          = .error (.unclosedComment (1 + Text.lineBreaks (spellStream tokens))) := by
  constructor
  · have hnil : ∀ c ∈ ([] : Text).head?, isIdentChar c = false := by simp
    obtain ⟨lexemes, after, hscan, hstep⟩ := scanFrom_inStep tokens hnil true
    rw [List.append_nil, scanFrom, List.append_nil] at hscan
    have hplace := placeFrom_of_inStep hstep []
    rw [← hscan] at hplace
    exact hplace
  · intro body valid
    have hslash : ∀ c ∈ ("/**".toList ++ body).head?, isIdentChar c = false := by
      intro c hc
      cases hc
      decide
    have hopen : ∀ after, scanFrom after ("/**".toList ++ body) = [.openDoc body] := by
      intro after
      have htext : "/**".toList ++ body = '/' :: '*' :: '*' :: body := rfl
      rw [htext, scanFrom_cons, readLexeme_openDoc after valid, scanFrom]
    obtain ⟨lexemes, after, hscan, hstep⟩ := scanFrom_inStep tokens hslash true
    rw [hopen] at hscan
    have hplace := placeFrom_openDoc hstep body 1
    rw [← hscan] at hplace
    exact hplace

/-- Literals with an escape in them, a broken one, and a doc comment that nothing closes. -/
theorem docBlocks_of_stream_with_escape :
    DocBody " /**".toList ∧
      docBlocks (spellStream [.doc [] ⟨by decide, by decide⟩,
          .literal '"' "\\é\\\"".toList (by decide) (.escape 'é' (.escape '"' .nil)),
          .block [] (by decide) (by decide), .broken '\'' "/**".toList (by decide)
            (.plain (by decide) (by decide) (by decide) (.plain (by decide) (by decide) (by decide)
              (.plain (by decide) (by decide) (by decide) .nil))),
          .plain '*' (by decide)] ++ ("/**".toList ++ " /**".toList))
        = .error (.unclosedComment 2) :=
  ⟨⟨by decide, by decide⟩, (docBlocks_of_stream _).2 _ ⟨by decide, by decide⟩⟩

end ApiDocs
