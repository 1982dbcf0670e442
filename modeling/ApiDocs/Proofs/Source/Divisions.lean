import ApiDocs.Proofs.Source.TokenStream
/-!
# Divisions and regular expressions

A slash that opens no comment is a division or opens a regular expression.  The scanner decides
by what it has read: where the last lexeme that is neither a blank nor a comment leaves an operand
to come, it looks for a regular expression, and behind a value the slash is a division that takes
nothing with it.  The decision is made ahead, lexeme by lexeme, so it is an invariant of the
places that the scanner comes to.

Main definitions:

- `ScanPlace`, `Reached`: the places that the scanner comes to in a source.
- `lastSignificant?`: the last lexeme read that is neither a blank nor a comment.
- `ExpectsOperand`: the lexemes behind which an operand comes.

Main results:

- `Reached.scan_eq`: what the scanner finds from a place on.
- `Reached.regexAllowed_eq`: the decision depends on the last significant lexeme alone.
- `slash_decided`: what becomes of a slash.
-/

namespace ApiDocs

/-! ### Places in a source -/

/-- A place that the scanner has come to: the lexemes read so far, whether a slash opens a regular
expression here, and the text ahead. -/
structure ScanPlace where
  read : List Lexeme
  regexAllowed : Bool
  rest : Text
  deriving DecidableEq

/-- The place behind the next lexeme. -/
def ScanPlace.next? (p : ScanPlace) : Option ScanPlace :=
  match p.rest with
  | [] => none
  | c :: s =>
    let found := readLexeme p.regexAllowed c s
    some ⟨p.read ++ [found.1], found.1.regexAfter p.regexAllowed, found.2⟩

/-- The places that the scanner comes to in a source. -/
inductive Reached (source : Text) : ScanPlace → Prop
  | start : Reached source ⟨[], true, source⟩
  | next {p q : ScanPlace} (before : Reached source p) (step : p.next? = some q) :
      Reached source q

/-- The place behind some lexemes. -/
def ScanPlace.ahead? : Nat → ScanPlace → Option ScanPlace
  | 0, p => some p
  | n + 1, p => p.next?.bind (ahead? n)

/-- What lies ahead of a place that is reached is reached. -/
theorem Reached.ahead {source : Text} {p q : ScanPlace} (h : Reached source p) (n : Nat)
    (hahead : p.ahead? n = some q) : Reached source q := by
  induction n generalizing p with
  | zero =>
    cases hahead
    exact h
  | succ n ih =>
    obtain ⟨next, hnext, hlater⟩ := Option.bind_eq_some_iff.1 hahead
    exact ih (h.next hnext) hlater

/-- A step reads one lexeme. -/
theorem ScanPlace.exists_of_next? {p q : ScanPlace} (h : p.next? = some q) :
    ∃ l, q.read = p.read ++ [l] ∧ q.regexAllowed = l.regexAfter p.regexAllowed ∧
      scanFrom p.regexAllowed p.rest = l :: scanFrom q.regexAllowed q.rest := by
  unfold next? at h
  split at h
  · cases h
  next c s hrest =>
    cases h
    exact ⟨_, rfl, rfl, by rw [hrest, scanFrom_cons]⟩

variable {source s : Text} {p : ScanPlace} {l : Lexeme}

/-- What the scanner finds in a source is what it has read and what it finds from there on. -/
theorem Reached.scan_eq (h : Reached source p) :
    scan source = p.read ++ scanFrom p.regexAllowed p.rest := by
  induction h with
  | start => rfl
  | next before step ih =>
    obtain ⟨l, hread, -, hscan⟩ := ScanPlace.exists_of_next? step
    rw [ih, hscan, hread, List.append_assoc, List.singleton_append]

/-! ### The last significant lexeme -/

/-- Whether a lexeme is neither a blank nor a comment. -/
def Lexeme.isSignificant : Lexeme → Bool
  | doc _ | openDoc _ | block _ | openBlock _ | line _ | blank _ => false
  | literal _ | regex _ | word _ | mark _ => true

/-- The last lexeme that is neither a blank nor a comment. -/
def lastSignificant? (read : List Lexeme) : Option Lexeme :=
  (read.filter Lexeme.isSignificant).getLast?

/-- A lexeme that counts is the last one, and blanks and comments leave the last one. -/
theorem lastSignificant?_concat (read : List Lexeme) (l : Lexeme) :
    lastSignificant? (read ++ [l]) = if l.isSignificant then some l else lastSignificant? read := by
  unfold lastSignificant?
  rw [List.filter_append, List.filter_singleton]
  cases l.isSignificant with
  | true => simp
  | false => simp

theorem isSignificant_of_lastSignificant? {read : List Lexeme}
    (h : lastSignificant? read = some l) :
    l.isSignificant = true :=
  (List.mem_filter.1 (List.mem_of_getLast? h)).2

/-- Blanks and comments change nothing for the slash behind them. -/
theorem regexAfter_of_not_significant (h : l.isSignificant = false) (before : Bool) :
    l.regexAfter before = before := by
  cases l with
  | literal _ | regex _ | word _ | mark _ => cases h
  | _ => rfl

/-- Every other lexeme decides by itself. -/
theorem regexAfter_of_significant (h : l.isSignificant = true) (before after : Bool) :
    l.regexAfter before = l.regexAfter after := by
  cases l with
  | literal _ | regex _ | word _ | mark _ => rfl
  | _ => cases h

/-- Whether a slash opens a regular expression depends on the last lexeme alone that is neither a
blank nor a comment; at the start of a source it does. -/
theorem Reached.regexAllowed_eq (h : Reached source p) :
    p.regexAllowed = (lastSignificant? p.read).elim true (·.regexAfter true) := by
  induction h with
  | start => rfl
  | @next p q before step ih =>
    obtain ⟨l, hread, hallowed, -⟩ := ScanPlace.exists_of_next? step
    rw [hallowed, hread, lastSignificant?_concat]
    cases hsignificant : l.isSignificant with
    | true => exact regexAfter_of_significant hsignificant _ _
    | false =>
      rw [regexAfter_of_not_significant hsignificant, ih]
      rfl

/-! ### What leaves an operand to come -/

/-- The operators and the punctuation behind which an operand comes, without the division. -/
def operandMarks : List Char :=
  ['(', ',', '=', ':', '[', '!', '&', '|', '?', '{', '}', ';', '+', '-', '*', '%', '<', '>', '~',
    '^']

/-- The words behind which an operand comes. -/
def operandWords : List Text :=
  ["return".toList, "typeof".toList, "case".toList, "in".toList, "of".toList, "delete".toList,
    "void".toList, "throw".toList, "new".toList]

/-- Behind the last significant lexeme of a text an operand comes. -/
inductive ExpectsOperand : Option Lexeme → Prop
  | start : ExpectsOperand none
  | mark {c : Char} (h : c ∈ operandMarks) : ExpectsOperand (some (.mark c))
  | division : ExpectsOperand (some (.mark '/'))
  | word {raw : Text} (h : raw ∈ operandWords) : ExpectsOperand (some (.word raw))

/-- A character that is no operator, no punctuation and no closing bracket, such as a dot. -/
def IsStrayMark (last : Option Lexeme) : Prop :=
  ∃ c, last = some (.mark c) ∧ c ∉ operandMarks ∧ c ≠ '/' ∧ c ≠ ')' ∧ c ≠ ']'

/-- A closing bracket is no mark that an operand follows. -/
theorem not_mem_operandMarks_of_closing {c : Char} (h : c = ')' ∨ c = ']') :
    c ∉ operandMarks ∧ c ≠ '/' := by
  rcases h with rfl | rfl <;> decide

/-- Behind a mark, a regular expression can start where an operand is expected or the mark is
stray. -/
theorem regexAfter_mark_iff (c : Char) :
    (Lexeme.mark c).regexAfter true = true ↔
      ExpectsOperand (some (.mark c)) ∨ IsStrayMark (some (.mark c)) := by
  have hafter : (Lexeme.mark c).regexAfter true = true ↔ ¬ (c = ')' ∨ c = ']') := by
    simp [Lexeme.regexAfter]
  rw [hafter]
  constructor
  · intro hopen
    by_cases hmark : c ∈ operandMarks
    · exact .inl (.mark hmark)
    · by_cases hdivision : c = '/'
      · subst hdivision
        exact .inl .division
      · exact .inr ⟨c, rfl, hmark, hdivision, not_or.1 hopen⟩
  · rintro (hexpects | ⟨d, heq, -, -, hopen⟩) hclosing
    · obtain ⟨hmark, hdivision⟩ := not_mem_operandMarks_of_closing hclosing
      cases hexpects with
      | mark h => exact hmark h
      | division => exact hdivision rfl
    · cases heq
      exact not_or.2 hopen hclosing

/-- Of the words and the marks, those that leave an operand to come let a regular expression
follow, and so does every stray mark. -/
theorem regexAfter_iff (h : l.isSignificant = true) :
    l.regexAfter true = true ↔ ExpectsOperand (some l) ∨ IsStrayMark (some l) := by
  cases l with
  | literal raw | regex raw =>
    refine iff_of_false Bool.false_ne_true ?_
    rintro (hexpects | ⟨c, heq, -⟩)
    · cases hexpects
    · cases heq
  | word raw =>
    have hwords : Lexeme.regexWords = operandWords := rfl
    have hafter : (Lexeme.word raw).regexAfter true = true ↔ raw ∈ operandWords := by
      rw [Lexeme.regexAfter, hwords, List.contains_iff_mem]
    rw [hafter]
    constructor
    · exact fun hword => .inl (.word hword)
    · rintro (hexpects | ⟨c, heq, -⟩)
      · cases hexpects with
        | word hword => exact hword
      · cases heq
  | mark c => exact regexAfter_mark_iff c
  | _ => cases h

/-- At a place that is reached, the last lexeme that counts decides on a regular expression. -/
theorem Reached.regexAllowed_iff (h : Reached source p) :
    p.regexAllowed = true ↔
      ExpectsOperand (lastSignificant? p.read) ∨ IsStrayMark (lastSignificant? p.read) := by
  rw [h.regexAllowed_eq]
  cases hlast : lastSignificant? p.read with
  | none => exact iff_of_true rfl (.inl .start)
  | some l => exact regexAfter_iff (isSignificant_of_lastSignificant? hlast)

/-! ### Slashes -/

/-- Behind a division the scanner goes on with the next character, and stays in step with every
stream that the rest of the source is spelled by. -/
theorem scan_behind_division (h : Reached source p) {tokens : List SourceToken}
    (hnext : p.next? = some ⟨p.read ++ [.mark '/'], true, spellStream tokens⟩) :
    ∃ lexemes, scan source = p.read ++ .mark '/' :: lexemes ∧ InStep lexemes tokens := by
  have hend : ∀ c ∈ ([] : Text).head?, isIdentChar c = false := by simp
  obtain ⟨lexemes, after, hscan, hstep⟩ := scanFrom_inStep tokens hend true
  rw [List.append_nil, scanFrom, List.append_nil] at hscan
  refine ⟨lexemes, ?_, hstep⟩
  rw [(h.next hnext).scan_eq, hscan, List.append_assoc, List.singleton_append]

/-- What becomes of a slash that opens no comment, at every place that the scanner comes to.  A
regular expression is looked for where an operand is to come, and behind a stray mark; it is read
if one closes on the line.  Everywhere else the slash is a division of one character, and no doc
comment behind it is lost. -/
theorem slash_decided (h : Reached source p) (hslash : p.rest = '/' :: s)
    (hplain : ∀ c, s.head? = some c → c ≠ '*' ∧ c ≠ '/') :
    let last := lastSignificant? p.read
    (p.regexAllowed = true ↔ ExpectsOperand last ∨ IsStrayMark last) ∧
      (p.regexAllowed = true → p.next? =
        match splitRegex false s with
        | some (raw, after) => some ⟨p.read ++ [.regex ('/' :: raw)], false, after⟩
        | none => some ⟨p.read ++ [.mark '/'], true, s⟩) ∧
      (p.regexAllowed = false → p.next? = some ⟨p.read ++ [.mark '/'], true, s⟩ ∧
        ∀ tokens, s = spellStream tokens →
          ∃ lexemes, scan source = p.read ++ .mark '/' :: lexemes ∧ InStep lexemes tokens) := by
  intro last
  have hread := readLexeme_slash p.regexAllowed hplain
  refine ⟨h.regexAllowed_iff, fun hallowed => ?_, fun hdivision => ?_⟩
  · rw [ScanPlace.next?, hslash]
    dsimp only
    rw [hread, hallowed, if_pos rfl]
    cases splitRegex false s <;> rfl
  · have hnext : p.next? = some ⟨p.read ++ [.mark '/'], true, s⟩ := by
      rw [ScanPlace.next?, hslash]
      dsimp only
      rw [hread, hdivision]
      rfl
    refine ⟨hnext, ?_⟩
    rintro tokens rfl
    exact scan_behind_division h hnext

/-- Behind a bracket and a comment, a slash hides nothing. -/
theorem slash_decided_behind_comment :
    let source := "a[1] /* n */ / 2 /** B */".toList
    let p : ScanPlace :=
      ⟨[.word ['a'], .mark '[', .word ['1'], .mark ']', .blank ' ', .block " n ".toList,
          .blank ' '],
        false, "/ 2 /** B */".toList⟩
    Reached source p ∧ lastSignificant? p.read = some (.mark ']') ∧
      ∃ lexemes, scan source = p.read ++ .mark '/' :: lexemes ∧
        InStep lexemes [.plain ' ' (by decide), .plain '2' (by decide), .plain ' ' (by decide),
          .doc " B ".toList ⟨by decide, by decide⟩] := by
  intro source p
  have h : Reached source p := .ahead .start 7 (by decide +kernel)
  obtain ⟨-, -, hdivision⟩ := slash_decided (s := " 2 /** B */".toList) h rfl (by simp)
  exact ⟨h, rfl, (hdivision rfl).2 _ (by decide +kernel)⟩

/-- Behind the dot of a number, what follows the slash is read as a regular expression, and with
it the opening of a doc comment. -/
theorem slash_behind_dot_hides_doc :
    let source := "1. / 2 /** B */".toList
    let p : ScanPlace := ⟨[.word ['1'], .mark '.', .blank ' '], true, "/ 2 /** B */".toList⟩
    Reached source p ∧ lastSignificant? p.read = some (.mark '.') ∧
      ¬ ExpectsOperand (lastSignificant? p.read) ∧
      p.next? = some ⟨p.read ++ [.regex "/ 2 /".toList], false, "** B */".toList⟩ ∧
      docBlocks source = .ok [] := by
  intro source p
  have hdot : ¬ ExpectsOperand (some (.mark '.')) := by
    intro h
    cases h with
    | mark h => exact absurd h (by decide)
  exact ⟨.ahead .start 3 (by decide +kernel), rfl, hdot, by decide +kernel, by decide +kernel⟩

end ApiDocs
