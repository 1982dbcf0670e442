import Mathlib.Data.List.TakeWhile
import ApiDocs.Proofs.Source.Reading
import ApiDocs.Proofs.Text.LineEndings
/-!
# Sources with carriage returns

The scanner reads a source with a carriage return in front of each line feed as it reads the source
without them: comments and templates take both characters of a line break, and whatever ends before
a line feed now takes the carriage return.  Only a backslash tells the difference.  It takes one
character, so that a string or a regular expression that goes on behind a line break ends in it as
soon as a carriage return comes first.  Other sources have the same doc comments with the same code
behind them, up to the carriage returns.

Main definitions:

- `Lexeme.isContinued`: literals that go on behind a line break.
- `docParts`, `placeParts`: doc comments and the text behind each, and their doc blocks.
- `ReadsReturns`: how the first lexeme of a text changes with carriage returns in the text.

Main results:

- `readLexeme_withReturns`: the first lexeme of a text.
- `docParts_scanFrom_withReturns`: the doc comments of a source and the text behind each.
- `docBlocks_withReturns`: the doc blocks of a source.
-/

namespace ApiDocs

open Text (withReturns pairWithReturns Unbroken)

/-! ### Doc comments and the text behind them -/

/-- A doc comment with carriage returns. -/
def DocMark.withReturns : DocMark → DocMark
  | closed body => closed (Text.withReturns body)
  | unclosed body => unclosed (Text.withReturns body)

/-- A doc block with carriage returns. -/
def DocBlock.withReturns (b : DocBlock) : DocBlock where
  comment := Text.withReturns b.comment
  code := Text.withReturns b.code
  line := b.line

/-- What some lexemes spell before the first doc comment, and each doc comment with what they
spell behind it. -/
def docParts (lexemes : List Lexeme) : Text × List (DocMark × Text) :=
  let parts := cut Lexeme.docMark? lexemes
  (spell parts.1, parts.2.map fun part => (part.1, spell part.2))

/-- A doc comment and the text behind it with carriage returns. -/
def partWithReturns (part : DocMark × Text) : DocMark × Text :=
  (part.1.withReturns, Text.withReturns part.2)

/-- Such parts with carriage returns. -/
def partsWithReturns (parts : Text × List (DocMark × Text)) : Text × List (DocMark × Text) :=
  (Text.withReturns parts.1, parts.2.map partWithReturns)

/-- A doc comment starts a part of its own. -/
theorem docParts_cons_of_mark {l : Lexeme} {mark : DocMark} (h : l.docMark? = some mark)
    (lexemes : List Lexeme) :
    docParts (l :: lexemes)
      = ([], (mark, (docParts lexemes).1) :: (docParts lexemes).2) := by
  rw [docParts, cut, h]
  rfl

/-- Any other lexeme belongs to the text before the next doc comment. -/
theorem docParts_cons {l : Lexeme} (h : l.docMark? = none) (lexemes : List Lexeme) :
    docParts (l :: lexemes) = (l.text ++ (docParts lexemes).1, (docParts lexemes).2) := by
  rw [docParts, cut, h]
  rfl

/-- The doc blocks of doc comments with the text behind each, the first of them on `line`. -/
def placeParts (line : Nat) : List (DocMark × Text) → Except Fault (List DocBlock)
  | [] => .ok []
  | (.unclosed _, _) :: _ => .error (.unclosedComment line)
  | (.closed body, code) :: rest =>
    (placeParts (line + Text.lineBreaks body + Text.lineBreaks code) rest).map fun later =>
      ⟨body, code, line⟩ :: later

/-- The blocks of parts only need the text of their lexemes. -/
theorem placeBlocks_eq_placeParts (line : Nat) (parts : List (DocMark × List Lexeme)) :
    placeBlocks line parts = placeParts line (parts.map fun part => (part.1, spell part.2)) := by
  induction parts generalizing line with
  | nil => rfl
  | cons part rest ih =>
    obtain ⟨mark, code⟩ := part
    cases mark with
    | unclosed body => rfl
    | closed body => rw [placeBlocks, ih, List.map_cons, placeParts]

/-- The doc blocks of a source are those of its parts. -/
theorem docBlocks_eq_placeParts (source : Text) :
    docBlocks source = placeParts (1 + Text.lineBreaks (docParts (scan source)).1)
      (docParts (scan source)).2 := by
  rw [docBlocks, placeBlocks_eq_placeParts]
  rfl

/-- Parts with carriage returns give blocks with carriage returns, on the same lines. -/
theorem placeParts_withReturns (line : Nat) (parts : List (DocMark × Text)) :
    placeParts line (parts.map partWithReturns)
      = (placeParts line parts).map (List.map DocBlock.withReturns) := by
  induction parts generalizing line with
  | nil => rfl
  | cons part rest ih =>
    obtain ⟨mark, code⟩ := part
    cases mark with
    | unclosed body => rfl
    | closed body =>
      rw [List.map_cons, partWithReturns, DocMark.withReturns, placeParts, placeParts,
        Text.lineBreaks_withReturns, Text.lineBreaks_withReturns, ih]
      cases placeParts (line + Text.lineBreaks body + Text.lineBreaks code) rest with
      | error fault => rfl
      | ok later => rfl

/-! ### Reading a lexeme -/

/-- A string in plain quotes or a regular expression goes on behind a line break, which a
backslash takes with it. -/
def Lexeme.isContinued : Lexeme → Bool
  | literal raw => raw.head? != some '`' && raw.contains '\n'
  | regex raw => raw.contains '\n'
  | _ => false

/-- The first lexeme of a text and the rest, and what is read with carriage returns in the text.
The lexeme has them, too, and so has the rest; but a lexeme that ends before a line break takes
the carriage return in front of the line feed with it. -/
inductive ReadsReturns (regexAllowed : Bool) : Lexeme × Text → Lexeme × Text → Prop
  | same {l l' : Lexeme} (rest : Text) (marks : l'.docMark? = l.docMark?.map DocMark.withReturns)
      (text : l'.text = withReturns l.text)
      (after : l'.regexAfter regexAllowed = l.regexAfter regexAllowed) :
      ReadsReturns regexAllowed (l, rest) (l', withReturns rest)
  | ended {l l' : Lexeme} (rest : Text) (no_mark : l.docMark? = none)
      (no_mark' : l'.docMark? = none) (one_line : '\n' ∉ l.text) (text : l'.text = l.text ++ ['\r'])
      (after : l'.regexAfter regexAllowed = l.regexAfter regexAllowed) :
      ReadsReturns regexAllowed (l, '\n' :: rest) (l', '\n' :: withReturns rest)

variable {regexAllowed : Bool}

/-- Comments keep their marks, whether they are closed or not. -/
theorem readComment_withReturns {closed unclosed : Text → Lexeme} (start : Text)
    (hstart : Unbroken start)
    (hclosed : ∀ body, (closed body).text = start ++ body ++ "*/".toList)
    (hunclosed : ∀ body, (unclosed body).text = start ++ body)
    (hmarks : ∀ body, (closed (withReturns body)).docMark?
      = (closed body).docMark?.map DocMark.withReturns)
    (hmarks' : ∀ body, (unclosed (withReturns body)).docMark?
      = (unclosed body).docMark?.map DocMark.withReturns)
    (hafter : ∀ body, (closed body).regexAfter regexAllowed = regexAllowed)
    (hafter' : ∀ body, (unclosed body).regexAfter regexAllowed = regexAllowed) (s : Text) :
    ReadsReturns regexAllowed (readComment closed unclosed s)
      (readComment closed unclosed (withReturns s)) := by
  unfold readComment
  rw [Text.breakOn?_withReturns (by decide) (by decide)]
  cases Text.breakOn? "*/".toList s with
  | none =>
    refine .same [] (hmarks' s) ?_ ((hafter' _).trans (hafter' s).symm)
    rw [hunclosed, hunclosed, Text.withReturns_append_of_unbroken hstart]
  | some parts =>
    refine .same parts.2 (hmarks parts.1) ?_ ((hafter _).trans (hafter parts.1).symm)
    have hend : withReturns "*/".toList = "*/".toList := Text.withReturns_eq_self (by decide)
    rw [hclosed, hclosed, Text.withReturns_append, Text.withReturns_append_of_unbroken hstart, hend]

/-- A character that takes no other one with it takes none in a text with carriage returns. -/
theorem not_escape_withReturns {c : Char} {s : Text}
    (h : ∀ d t, c = '\\' → s = d :: t → False) :
    ∀ d t, c = '\\' → withReturns s = d :: t → False := by
  intro d t hc hs
  cases s with
  | nil => cases hs
  | cons d' t' => exact h d' t' hc rfl

theorem splitRegex_break (inClass : Bool) (s : Text) : splitRegex inClass ('\n' :: s) = none := by
  rw [splitRegex.eq_3 _ _ _ (fun _ _ h => absurd h (by decide)), if_pos rfl]

theorem splitRegex_return (inClass : Bool) (s : Text) :
    splitRegex inClass ('\r' :: '\n' :: s) = none := by
  have hslash : ¬ ('\r' = '/' ∧ inClass = false) := fun h => absurd h.1 (by decide)
  rw [splitRegex.eq_3 _ _ _ (fun _ _ h => absurd h (by decide)), if_neg (by decide),
    if_neg hslash]
  dsimp only
  rw [splitRegex_break]
  rfl

/-- A regular expression on one line is found in spite of the carriage returns behind it, and where
there is none they make none. -/
theorem splitRegex_withReturns {inClass : Bool} {s : Text}
    (h : ∀ found, splitRegex inClass s = some found → '\n' ∉ found.1) :
    splitRegex inClass (withReturns s)
      = (splitRegex inClass s).map fun found => (found.1, withReturns found.2) := by
  fun_induction splitRegex inClass s with
  | case1 inClass => rfl
  | case2 inClass c s ih =>
    by_cases hc : c = '\n'
    · -- the backslash takes the carriage return, and then the line feed ends the search
      subst hc
      have hnone : splitRegex inClass s = none := by
        cases hfound : splitRegex inClass s with
        | none => rfl
        | some found =>
          rw [hfound] at h
          exact absurd (List.mem_cons_of_mem _ List.mem_cons_self) (h _ rfl)
      rw [Text.withReturns_cons (by decide), Text.withReturns_break, splitRegex,
        splitRegex_break, hnone]
      rfl
    · have hlater : ∀ found, splitRegex inClass s = some found → '\n' ∉ found.1 := by
        intro found hfound hmem
        rw [hfound] at h
        exact h _ rfl (List.mem_cons_of_mem _ (List.mem_cons_of_mem _ hmem))
      rw [Text.withReturns_cons (by decide), Text.withReturns_cons hc, splitRegex, ih hlater,
        Option.map_map, Option.map_map]
      rfl
  | case3 inClass s hother => exact splitRegex_return inClass _
  | case4 inClass c s hother hc hslash =>
    have hflags : '\n' ∉ s.takeWhile Char.isAlpha := List.not_mem_of_not_mem_cons (h _ rfl)
    rw [Text.withReturns_cons hc, splitRegex.eq_3 _ _ _ (not_escape_withReturns hother), if_neg hc,
      if_pos hslash, Text.takeWhile_withReturns (by decide), Text.dropWhile_withReturns (by decide),
      Text.withReturns_eq_self hflags]
    rfl
  | case5 inClass c s hother hc hslash inClass' ih =>
    have hlater : ∀ found, splitRegex inClass' s = some found → '\n' ∉ found.1 := by
      intro found hfound hmem
      rw [hfound] at h
      exact h _ rfl (List.mem_cons_of_mem _ hmem)
    rw [Text.withReturns_cons hc, splitRegex.eq_3 _ _ _ (not_escape_withReturns hother), if_neg hc,
      if_neg hslash, Option.map_map]
    exact (congrArg _ (ih hlater)).trans (Option.map_map ..)

/-- A template goes on over line breaks. -/
theorem splitQuoted_template_withReturns (s : Text) :
    splitQuoted '`' (withReturns s) = pairWithReturns (splitQuoted '`' s) := by
  have hplain : ∀ c t, c ≠ '\\' → c ≠ '`' → splitQuoted '`' (c :: t)
      = (c :: (splitQuoted '`' t).1, (splitQuoted '`' t).2) := by
    intro c t hescape hquote
    rw [splitQuoted.eq_3 _ _ _ (fun _ _ h => absurd h hescape), if_neg (fun h => h.2 rfl),
      if_neg hquote]
  fun_induction splitQuoted '`' s with
  | case1 => rfl
  | case2 c s later ih =>
    by_cases hc : c = '\n'
    · subst hc
      rw [Text.withReturns_cons (by decide), Text.withReturns_break, splitQuoted,
        hplain _ _ (by decide) (by decide), ih]
      rfl
    · rw [Text.withReturns_cons (by decide), Text.withReturns_cons hc, splitQuoted, ih]
      exact Prod.ext ((Text.withReturns_cons (by decide) _).trans
        (congrArg _ (Text.withReturns_cons hc _))).symm rfl
  | case3 c s hother hbreak => exact absurd rfl hbreak.2
  | case4 s hother hbreak =>
    rw [Text.withReturns_cons (by decide), splitQuoted.eq_3 _ _ _ (not_escape_withReturns hother),
      if_neg (fun h => h.2 rfl), if_pos rfl]
    rfl
  | case5 c s hother hbreak hquote later ih =>
    by_cases hc : c = '\n'
    · subst hc
      rw [Text.withReturns_break, hplain _ _ (by decide) (by decide),
        hplain _ _ (by decide) (by decide), ih]
      rfl
    · rw [Text.withReturns_cons hc, splitQuoted.eq_3 _ _ _ (not_escape_withReturns hother),
        if_neg (fun h => h.2 rfl), if_neg hquote, ih]
      exact Prod.ext (Text.withReturns_cons hc _).symm rfl

/-- A string in plain quotes on one line ends at its quote, or before the line break. -/
theorem splitQuoted_withReturns {quote : Char} (hquote : quote = '\'' ∨ quote = '"') (s : Text)
    (h : '\n' ∉ (splitQuoted quote s).1) :
    splitQuoted quote (withReturns s)
        = ((splitQuoted quote s).1, withReturns (splitQuoted quote s).2) ∨
      ∃ rest, (splitQuoted quote s).2 = '\n' :: rest ∧
        splitQuoted quote (withReturns s)
          = ((splitQuoted quote s).1 ++ ['\r'], '\n' :: withReturns rest) := by
  have hbreak' : ∀ t, splitQuoted quote ('\n' :: t) = ([], '\n' :: t) := by
    intro t
    have hplain : quote ≠ '`' := by rcases hquote with rfl | rfl <;> decide
    rw [splitQuoted.eq_3 _ _ _ (fun _ _ h => absurd h (by decide)), if_pos ⟨rfl, hplain⟩]
  have hreturn : ∀ t, splitQuoted quote ('\r' :: '\n' :: t) = (['\r'], '\n' :: t) := by
    intro t
    have hne : ¬ '\r' = quote := by rcases hquote with rfl | rfl <;> decide
    rw [splitQuoted.eq_3 _ _ _ (fun _ _ h => absurd h (by decide)),
      if_neg (fun h => absurd h.1 (by decide)), if_neg hne, hbreak']
  fun_induction splitQuoted quote s with
  | case1 => exact .inl rfl
  | case2 c s later ih =>
    rw [List.mem_cons, List.mem_cons, not_or, not_or] at h
    obtain ⟨-, hc, hlater⟩ := h
    rw [Text.withReturns_cons (by decide), Text.withReturns_cons (Ne.symm hc), splitQuoted]
    rcases ih hlater with heq | ⟨rest, hrest, heq⟩
    · exact .inl (by rw [heq])
    · exact .inr ⟨rest, hrest, by rw [heq]; rfl⟩
  | case3 c s hother hbreak =>
    obtain ⟨rfl, -⟩ := hbreak
    exact .inr ⟨s, rfl, hreturn _⟩
  | case4 s hother hbreak =>
    have hq : quote ≠ '\n' := by rcases hquote with rfl | rfl <;> decide
    rw [Text.withReturns_cons hq, splitQuoted.eq_3 _ _ _ (not_escape_withReturns hother),
      if_neg hbreak, if_pos rfl]
    exact .inl rfl
  | case5 c s hother hbreak hquote' later ih =>
    rw [List.mem_cons, not_or] at h
    obtain ⟨hc, hlater⟩ := h
    rw [Text.withReturns_cons (Ne.symm hc),
      splitQuoted.eq_3 _ _ _ (not_escape_withReturns hother), if_neg hbreak, if_neg hquote']
    rcases ih hlater with heq | ⟨rest, hrest, heq⟩
    · exact .inl (by rw [heq])
    · exact .inr ⟨rest, hrest, by rw [heq]; rfl⟩

/-- A line comment takes the carriage return of its line break with it. -/
theorem readLine_withReturns (s : Text) :
    ReadsReturns regexAllowed (readSlash regexAllowed ('/' :: s))
      (readSlash regexAllowed ('/' :: withReturns s)) := by
  by_cases hbreak : '\n' ∈ s
  · obtain ⟨body, rest, rfl, hbody⟩ := List.eq_append_cons_of_mem hbreak
    have hread : ∀ {line : Text} (after : Text), '\n' ∉ line →
        readSlash regexAllowed ('/' :: (line ++ '\n' :: after)) = (.line line, '\n' :: after) :=
      fun after hline => (if_pos rfl).symm.trans (readLexeme_line regexAllowed after hline)
    have hreturn : '\n' ∉ body ++ ['\r'] := by simpa using hbody
    have htext : withReturns (body ++ '\n' :: rest)
        = body ++ ['\r'] ++ '\n' :: withReturns rest := by
      rw [Text.withReturns_append, Text.withReturns_eq_self hbody, Text.withReturns_break,
        List.append_assoc]
      rfl
    rw [htext, hread rest hbody, hread _ hreturn]
    exact .ended rest rfl rfl (by simpa [Lexeme.text] using hbody) rfl rfl
  · have hall := Text.forall_ne hbreak
    rw [Text.withReturns_eq_self hbreak, readSlash, List.takeWhile_eq_self_iff.2 hall,
      List.dropWhile_eq_nil_iff.2 hall]
    exact .same [] rfl (Text.withReturns_eq_self (by simpa [Lexeme.text] using hbreak)).symm rfl

/-- A slash that opens no comment opens a regular expression or stands for itself. -/
theorem readSlash_plain {s : Text} (hstar : s.head? ≠ some '*') (hslash : s.head? ≠ some '/') :
    readSlash regexAllowed s
      = match if regexAllowed then splitRegex false s else none with
        | some (raw, after) => (.regex ('/' :: raw), after)
        | none => (.mark '/', s) := by
  unfold readSlash
  split
  · exact absurd rfl hstar
  · exact absurd rfl hstar
  · exact absurd rfl hslash
  · rfl

/-- A regular expression or a division is read as before. -/
theorem readRegex_withReturns {s : Text} (hstar : s.head? ≠ some '*') (hslash : s.head? ≠ some '/')
    (h : (readSlash regexAllowed s).1.isContinued = false) :
    ReadsReturns regexAllowed (readSlash regexAllowed s)
      (readSlash regexAllowed (withReturns s)) := by
  have hstar' : (withReturns s).head? ≠ some '*' :=
    mt (Text.head?_withReturns_eq_iff (by decide) s).1 hstar
  have hslash' : (withReturns s).head? ≠ some '/' :=
    mt (Text.head?_withReturns_eq_iff (by decide) s).1 hslash
  rw [readSlash_plain hstar hslash] at h ⊢
  rw [readSlash_plain hstar' hslash']
  cases regexAllowed with
  | false => exact .same s rfl rfl rfl
  | true =>
    rw [if_pos rfl] at h ⊢
    have hraw : ∀ found, splitRegex false s = some found → '\n' ∉ '/' :: found.1 := by
      intro found hfound
      rw [hfound] at h
      simpa [Lexeme.isContinued] using h
    rw [if_pos rfl, splitRegex_withReturns fun found hfound =>
      List.not_mem_of_not_mem_cons (hraw found hfound)]
    cases hsplit : splitRegex false s with
    | none => exact .same s rfl rfl rfl
    | some found => exact .same found.2 rfl (Text.withReturns_eq_self (hraw found hsplit)).symm rfl

/-- A slash and an asterisk open an ordinary comment if no other asterisk follows. -/
theorem readSlash_block {s : Text} (h : s.head? ≠ some '*') :
    readSlash regexAllowed ('*' :: s) = readComment .block .openBlock s := by
  rw [readSlash]
  rintro t rfl
  exact h rfl

/-- A comment is read as before. -/
theorem readStar_withReturns (s : Text) :
    ReadsReturns regexAllowed (readSlash regexAllowed ('*' :: s))
      (readSlash regexAllowed ('*' :: withReturns s)) := by
  have hblock : ∀ t, ReadsReturns regexAllowed (readComment .block .openBlock t)
      (readComment .block .openBlock (withReturns t)) :=
    readComment_withReturns "/*".toList (by decide) (fun _ => rfl) (fun _ => rfl) (fun _ => rfl)
      (fun _ => rfl) (fun _ => rfl) (fun _ => rfl)
  have hdoc : ∀ t, ReadsReturns regexAllowed (readComment .doc .openDoc t)
      (readComment .doc .openDoc (withReturns t)) :=
    readComment_withReturns "/**".toList (by decide) (fun _ => rfl) (fun _ => rfl) (fun _ => rfl)
      (fun _ => rfl) (fun _ => rfl) (fun _ => rfl)
  by_cases hstar : s.head? = some '*'
  · obtain ⟨t, rfl⟩ := List.head?_eq_some_iff.1 hstar
    have hhead : (withReturns t).head? = some '/' ↔ t.head? = some '/' :=
      Text.head?_withReturns_eq_iff (by decide) t
    rw [Text.withReturns_cons (by decide), readSlash, readSlash]
    by_cases hslash : t.head? = some '/'
    · rw [if_pos hslash, if_pos (hhead.2 hslash)]
      exact hblock ('*' :: t)
    · rw [if_neg hslash, if_neg (mt hhead.1 hslash)]
      exact hdoc t
  · rw [readSlash_block hstar,
      readSlash_block (mt (Text.head?_withReturns_eq_iff (by decide) s).1 hstar)]
    exact hblock s

/-- What a slash opens is read as before. -/
theorem readSlash_withReturns {s : Text} (h : (readSlash regexAllowed s).1.isContinued = false) :
    ReadsReturns regexAllowed (readSlash regexAllowed s)
      (readSlash regexAllowed (withReturns s)) := by
  by_cases hslash : s.head? = some '/'
  · obtain ⟨t, rfl⟩ := List.head?_eq_some_iff.1 hslash
    exact readLine_withReturns t
  · by_cases hstar : s.head? = some '*'
    · obtain ⟨t, rfl⟩ := List.head?_eq_some_iff.1 hstar
      exact readStar_withReturns t
    · exact readRegex_withReturns hstar hslash h

/-- A string or a template is read as before. -/
theorem readLiteral_withReturns {quote : Char} (hquote : quote = '\'' ∨ quote = '"' ∨ quote = '`')
    {s : Text} (h : (Lexeme.literal (quote :: (splitQuoted quote s).1)).isContinued = false) :
    ReadsReturns regexAllowed (.literal (quote :: (splitQuoted quote s).1), (splitQuoted quote s).2)
      (.literal (quote :: (splitQuoted quote (withReturns s)).1),
        (splitQuoted quote (withReturns s)).2) := by
  have hbreak : quote ≠ '\n' := by rcases hquote with rfl | rfl | rfl <;> decide
  by_cases htemplate : quote = '`'
  · subst htemplate
    rw [splitQuoted_template_withReturns]
    exact .same _ rfl (Text.withReturns_cons hbreak _).symm rfl
  · have hplain : quote = '\'' ∨ quote = '"' := by
      rcases hquote with h | h | h
      · exact .inl h
      · exact .inr h
      · exact absurd h htemplate
    have hraw : '\n' ∉ quote :: (splitQuoted quote s).1 := by
      simpa [Lexeme.isContinued, htemplate] using h
    rcases splitQuoted_withReturns hplain s (List.not_mem_of_not_mem_cons hraw) with
      heq | ⟨rest, hrest, heq⟩
    · rw [heq]
      exact .same _ rfl (Text.withReturns_eq_self hraw).symm rfl
    · rw [heq, hrest]
      exact .ended rest rfl rfl hraw rfl rfl

/-- Every lexeme is read as before, unless it is a string or a regular expression that goes on
behind a line break. -/
theorem readLexeme_withReturns {c : Char} (hc : c ≠ '\n') {s : Text}
    (h : (readLexeme regexAllowed c s).1.isContinued = false) :
    ReadsReturns regexAllowed (readLexeme regexAllowed c s)
      (readLexeme regexAllowed c (withReturns s)) := by
  unfold readLexeme at h ⊢
  by_cases hslash : c = '/'
  · rw [if_pos hslash] at h ⊢
    rw [if_pos hslash]
    exact readSlash_withReturns h
  · rw [if_neg hslash] at h ⊢
    rw [if_neg hslash]
    by_cases hquote : c = '\'' ∨ c = '"' ∨ c = '`'
    · rw [if_pos hquote] at h ⊢
      rw [if_pos hquote]
      exact readLiteral_withReturns hquote h
    · rw [if_neg hquote, if_neg hquote]
      have htext : ([c] : Text) = withReturns [c] :=
        (Text.withReturns_eq_self (by simpa using Ne.symm hc)).symm
      by_cases hblank : isSourceBlank c = true
      · rw [if_pos hblank, if_pos hblank]
        exact .same s rfl htext rfl
      · rw [if_neg hblank, if_neg hblank]
        by_cases hident : isIdentChar c = true
        · have hword : '\n' ∉ c :: s.takeWhile isIdentChar := by
            rw [List.mem_cons, not_or]
            exact ⟨Ne.symm hc, fun hmem => absurd (List.mem_takeWhile_imp hmem) (by decide)⟩
          rw [if_pos hident, if_pos hident, Text.takeWhile_withReturns (by decide),
            Text.dropWhile_withReturns (by decide),
            Text.withReturns_eq_self (List.not_mem_of_not_mem_cons hword)]
          exact .same _ rfl (Text.withReturns_eq_self hword).symm rfl
        · rw [if_neg hident, if_neg hident]
          exact .same s rfl htext rfl

/-! ### Scanning -/

theorem scanFrom_blank {c : Char} (hc : isSourceBlank c = true) (s : Text) :
    scanFrom regexAllowed (c :: s) = .blank c :: scanFrom regexAllowed s := by
  have hslash : c ≠ '/' := by
    rintro rfl
    exact absurd hc (by decide)
  have hquote : ¬ (c = '\'' ∨ c = '"' ∨ c = '`') := by
    rintro (rfl | rfl | rfl) <;> exact absurd hc (by decide)
  rw [scanFrom_cons, readLexeme, if_neg hslash, if_neg hquote, if_pos hc]
  rfl

theorem docParts_scanFrom_blank {c : Char} (hc : isSourceBlank c = true) (s : Text) :
    docParts (scanFrom regexAllowed (c :: s))
      = (c :: (docParts (scanFrom regexAllowed s)).1, (docParts (scanFrom regexAllowed s)).2) := by
  rw [scanFrom_blank hc, docParts_cons rfl]
  rfl

/-- One lexeme: if what follows it has the same parts with carriage returns, so has the text. -/
theorem docParts_of_readsReturns {next next' : Lexeme × Text}
    (h : ReadsReturns regexAllowed next next')
    (hlater : docParts (scanFrom (next.1.regexAfter regexAllowed) (withReturns next.2))
      = partsWithReturns (docParts (scanFrom (next.1.regexAfter regexAllowed) next.2))) :
    docParts (next'.1 :: scanFrom (next'.1.regexAfter regexAllowed) next'.2)
      = partsWithReturns
          (docParts (next.1 :: scanFrom (next.1.regexAfter regexAllowed) next.2)) := by
  cases h with
  | @same l l' rest marks text after =>
    rw [after]
    dsimp only at hlater ⊢
    cases hmark : l.docMark? with
    | none =>
      rw [hmark, Option.map_none] at marks
      rw [docParts_cons marks, docParts_cons hmark, hlater, text, partsWithReturns,
        partsWithReturns, Text.withReturns_append]
    | some mark =>
      rw [hmark, Option.map_some] at marks
      rw [docParts_cons_of_mark marks, docParts_cons_of_mark hmark, hlater]
      rfl
  | @ended l l' rest no_mark no_mark' one_line text after =>
    -- the carriage return is the end of the lexeme instead of the start of the rest
    rw [after]
    dsimp only at hlater ⊢
    rw [Text.withReturns_break, docParts_scanFrom_blank (by decide)] at hlater
    rw [docParts_cons no_mark', docParts_cons no_mark, text, partsWithReturns,
      Text.withReturns_append, Text.withReturns_eq_self one_line, List.append_assoc]
    exact Prod.ext (congrArg (l.text ++ ·) (congrArg Prod.fst hlater))
      (congrArg Prod.snd hlater :)

/-- A source with carriage returns has the parts of the source, with carriage returns. -/
theorem docParts_scanFrom_withReturns {s : Text}
    (h : ∀ l ∈ scanFrom regexAllowed s, l.isContinued = false) :
    docParts (scanFrom regexAllowed (withReturns s))
      = partsWithReturns (docParts (scanFrom regexAllowed s)) := by
  fun_induction scanFrom regexAllowed s with
  | case1 regexAllowed =>
    rw [Text.withReturns_nil, scanFrom]
    rfl
  | case2 regexAllowed c s next ih =>
    obtain ⟨hfirst, hlater⟩ := List.forall_mem_cons.1 h
    by_cases hc : c = '\n'
    · subst hc
      have hih : docParts (scanFrom regexAllowed (withReturns s))
          = partsWithReturns (docParts (scanFrom regexAllowed s)) := ih hlater
      rw [← scanFrom_cons, Text.withReturns_break, docParts_scanFrom_blank (by decide),
        docParts_scanFrom_blank (by decide), docParts_scanFrom_blank (by decide), hih]
      rfl
    · rw [Text.withReturns_cons hc, scanFrom_cons]
      exact docParts_of_readsReturns (readLexeme_withReturns hc hfirst) (ih hlater)

/-- The doc blocks of a source with carriage returns are those of the source, with carriage
returns. -/
theorem docBlocks_withReturns {source : Text} (h : ∀ l ∈ scan source, l.isContinued = false) :
    docBlocks (withReturns source) = (docBlocks source).map (List.map DocBlock.withReturns) := by
  rw [docBlocks_eq_placeParts, docBlocks_eq_placeParts, ← placeParts_withReturns, scan, scan,
    docParts_scanFrom_withReturns h]
  rw [partsWithReturns, Text.lineBreaks_withReturns]

end ApiDocs
