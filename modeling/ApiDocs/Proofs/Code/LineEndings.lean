import ApiDocs.Proofs.Code.Readers
import ApiDocs.Proofs.Text.LineEndings
/-!
# Signatures of code with carriage returns

Every reader of code treats a carriage return as the blank that it is.  So code with a carriage
return in front of each line feed has the signature of the code without them, with the name and the
parameters written in the same way.  Only the value of a name is cut at a line feed: it may end in
a carriage return, which does not show in its type.

Main definitions:

- `Signature.withReturns`: a signature with carriage returns in its texts.

Main results:

- `dropTrivia_withReturns`: the code behind blanks and comments.
- `typeOfLiteral?_concat_return`: the type of a value before a carriage return.
- `ofCode_withReturns`: the signature of code.
-/

namespace ApiDocs

open Text (withReturns pairWithReturns Unbroken)

/-- Neither mark of a line break belongs to a name. -/
theorem isNameChar_return : isNameChar '\r' = isNameChar '\n' := by decide +kernel

/-- Neither mark of a line break belongs to a word. -/
theorem isWordChar_return : isWordChar '\r' = isWordChar '\n' := by decide +kernel

/-- Where one reader goes on behind another, both find the same with carriage returns. -/
theorem readBehind_withReturns {next : Text → Option Text}
    (h : ∀ t, next (withReturns t) = (next t).map withReturns) (found : Option (Text × Text)) :
    ((found.map pairWithReturns).bind fun parts => (next parts.2).map fun last => (parts.1, last))
      = (found.bind fun parts => (next parts.2).map fun last => (parts.1, last)).map
          pairWithReturns := by
  cases found with
  | none => rfl
  | some parts =>
    simp only [Option.map_some, Option.bind_some, pairWithReturns]
    rw [h, Option.map_map, Option.map_map]
    rfl

/-! ### Blanks and comments before code -/

/-- Blanks before code do not change what stands behind them and the comments. -/
theorem dropTrivia_eq_of_trimStart_eq {s t : Text} (h : Text.trimStart s = Text.trimStart t) :
    dropTrivia s = dropTrivia t := by
  rw [dropTrivia, dropTrivia, h]

/-- A line comment ends before its line feed, and the carriage return in front of it is lost. -/
theorem trimStart_dropWhile_withReturns (s : Text) :
    Text.trimStart ((withReturns s).dropWhile (· ≠ '\n'))
      = Text.trimStart (withReturns (s.dropWhile (· ≠ '\n'))) := by
  induction s with
  | nil => rfl
  | cons c s ih =>
    by_cases hc : c = '\n'
    · subst hc
      rfl
    · have hlater : ∀ t : Text, (c :: t).dropWhile (· ≠ '\n') = t.dropWhile (· ≠ '\n') :=
        fun t => List.dropWhile_cons_of_pos (decide_eq_true hc)
      rw [Text.withReturns_cons hc, hlater, ih, hlater]

/-- A comment ends at the same place, but for the carriage return that a line comment takes
along. -/
theorem dropComment?_withReturns (s : Text) :
    (dropComment? (withReturns s)).map Text.trimStart
      = (dropComment? s).map fun rest => Text.trimStart (withReturns rest) := by
  have hline : Unbroken "//".toList := by decide
  have hblock : Unbroken "/*".toList := by decide
  by_cases hslashes : "//".toList <+: s
  · obtain ⟨t, rfl⟩ := hslashes
    rw [Text.withReturns_append_of_unbroken hline]
    exact congrArg some (trimStart_dropWhile_withReturns t)
  by_cases hasterisk : "/*".toList <+: s
  · obtain ⟨t, rfl⟩ := hasterisk
    rw [Text.withReturns_append_of_unbroken hblock]
    change some (Text.trimStart
        (((Text.breakOn? "*/".toList (withReturns t)).map Prod.snd).getD []))
      = some (Text.trimStart (withReturns (((Text.breakOn? "*/".toList t).map Prod.snd).getD [])))
    rw [Text.breakOn?_withReturns (by decide) (by decide)]
    cases Text.breakOn? "*/".toList t with
    | none => rfl
    | some parts => rfl
  -- nothing else starts a comment, with or without carriage returns
  have hnone : ∀ t : Text, ¬ "//".toList <+: t → ¬ "/*".toList <+: t → dropComment? t = none := by
    intro t hslashes hasterisk
    unfold dropComment?
    split
    next u => exact absurd (List.prefix_append _ u) hslashes
    next u => exact absurd (List.prefix_append _ u) hasterisk
    next => rfl
  rw [hnone s hslashes hasterisk, hnone (withReturns s)]
  · rfl
  · rwa [Text.prefix_withReturns_iff hline]
  · rwa [Text.prefix_withReturns_iff hblock]

/-- Blanks and comments before code are passed over as without carriage returns. -/
theorem dropTrivia_withReturns (code : Text) :
    dropTrivia (withReturns code) = withReturns (dropTrivia code) := by
  fun_induction dropTrivia code with
  | case1 code rest hrest ih =>
    have hcomment := dropComment?_withReturns (Text.trimStart code)
    rw [hrest, Option.map_some, ← Text.trimStart_withReturns] at hcomment
    obtain ⟨rest', hrest', htrim⟩ := Option.map_eq_some_iff.1 hcomment
    rw [dropTrivia]
    split
    next found hfound =>
      rw [hrest', Option.some.injEq] at hfound
      rw [← hfound, ← ih]
      exact dropTrivia_eq_of_trimStart_eq htrim
    next hnone =>
      rw [hrest'] at hnone
      cases hnone
  | case2 code hnone =>
    have hcomment := dropComment?_withReturns (Text.trimStart code)
    rw [hnone, Option.map_none, Option.map_eq_none_iff, ← Text.trimStart_withReturns] at hcomment
    rw [dropTrivia]
    split
    next found hfound =>
      rw [hcomment] at hfound
      cases hfound
    next => exact Text.trimStart_withReturns code

/-! ### Names -/

/-- Identifiers hold no line break, so they are read as before. -/
theorem readIdentifier?_withReturns (s : Text) :
    readIdentifier? (withReturns s) = (readIdentifier? s).map pairWithReturns := by
  unfold readIdentifier?
  dsimp only
  rw [drop_length_takeWhile, drop_length_takeWhile, Text.takeWhile_withReturns isNameChar_return,
    Text.dropWhile_withReturns isNameChar_return, Text.isEmpty_withReturns]
  split
  next => rfl
  next => rfl

/-- The names behind dots are read as before. -/
theorem readDotted_withReturns (s : Text) :
    readDotted (withReturns s) = pairWithReturns (readDotted s) := by
  by_cases hdot : s.head? = some '.'
  · obtain ⟨t, hs⟩ := List.head?_eq_some_iff.1 hdot
    have hlater : (t.dropWhile isNameChar).length ≤ t.length :=
      (List.dropWhile_sublist isNameChar).length_le
    rw [hs, Text.withReturns_cons (by decide), readDotted_dot, readDotted_dot,
      Text.takeWhile_withReturns isNameChar_return, Text.dropWhile_withReturns isNameChar_return,
      readDotted_withReturns (t.dropWhile isNameChar)]
    by_cases hword : t.takeWhile isNameChar = []
    · rw [if_pos (Text.withReturns_eq_nil_iff.2 hword), if_pos hword]
      exact congrArg (Prod.mk []) (Text.withReturns_cons (by decide) t).symm
    · rw [if_neg (mt Text.withReturns_eq_nil_iff.1 hword), if_neg hword]
      simp only [pairWithReturns, Text.withReturns_append,
        Text.withReturns_cons (c := '.') (by decide)]
  · have hdot' := mt (Text.head?_withReturns_eq_iff (by decide) s).1 hdot
    rw [readDotted_of_head? hdot', readDotted_of_head? hdot]
    rfl
termination_by s.length
decreasing_by
  rw [hs, List.length_cons]
  omega

theorem readDottedName?_withReturns (s : Text) :
    readDottedName? (withReturns s) = (readDottedName? s).map pairWithReturns := by
  unfold readDottedName?
  rw [readIdentifier?_withReturns]
  cases readIdentifier? s with
  | none => rfl
  | some found =>
    simp only [Option.map_some, pairWithReturns, readDotted_withReturns, Text.withReturns_append]

/-- A key in quotes may hold a line break, and then it holds the carriage return as well. -/
theorem quoted_withReturns {quote : Char} (h : Unbroken [quote]) (s : Text) :
    readKey?.quoted quote (withReturns s) = (readKey?.quoted quote s).map pairWithReturns := by
  have hquote : quote ≠ '\n' := fun heq => h.1 (heq ▸ List.mem_singleton_self _)
  unfold readKey?.quoted
  rw [Text.breakOn?_withReturns h (List.cons_ne_nil _ _)]
  cases Text.breakOn? [quote] s with
  | none => rfl
  | some found =>
    simp only [Option.map_some, pairWithReturns, Text.withReturns_append,
      Text.withReturns_cons hquote, Text.withReturns_nil, List.cons_append]

/-- A key is read as before, in quotes or not. -/
theorem readKey?_withReturns (s : Text) :
    readKey? (withReturns s) = (readKey? s).map pairWithReturns := by
  by_cases hdouble : s.head? = some '"'
  · obtain ⟨t, rfl⟩ := List.head?_eq_some_iff.1 hdouble
    rw [Text.withReturns_cons (by decide)]
    exact quoted_withReturns (by decide) t
  by_cases hsingle : s.head? = some '\''
  · obtain ⟨t, rfl⟩ := List.head?_eq_some_iff.1 hsingle
    rw [Text.withReturns_cons (by decide)]
    exact quoted_withReturns (by decide) t
  rw [readKey?_of_head? hdouble hsingle, ← readIdentifier?_withReturns, readKey?_of_head?]
  · exact mt (Text.head?_withReturns_eq_iff (by decide) s).1 hdouble
  · exact mt (Text.head?_withReturns_eq_iff (by decide) s).1 hsingle

/-- Taking the quotes off a key leaves the carriage returns inside. -/
theorem dropQuotes_withReturns (name : Text) :
    dropQuotes (withReturns name) = withReturns (dropQuotes name) := by
  unfold dropQuotes
  dsimp only
  rw [Text.dropWhile_withReturns (by decide), Text.dropEnd_withReturns (by decide)]

/-! ### Parameters -/

theorem dropDots_withReturns (s : Text) : dropDots (withReturns s) = withReturns (dropDots s) := by
  have hdots : Unbroken "...".toList := by decide
  fun_induction dropDots s with
  | case1 s ih =>
    change dropDots (withReturns ("...".toList ++ s)) = _
    rw [Text.withReturns_append_of_unbroken hdots, ← ih]
    rfl
  | case2 s hother =>
    rw [dropDots]
    intro t ht
    have hprefix : "...".toList <+: withReturns s := ⟨t, ht.symm⟩
    rw [Text.prefix_withReturns_iff hdots] at hprefix
    obtain ⟨u, hu⟩ := hprefix
    exact hother u hu.symm

/-- The commas of a list of parameters stand where they stood, and the blanks around them go. -/
theorem paramNames_withReturns (list : Text) :
    paramNames (withReturns list) = (paramNames list).map withReturns := by
  have hname : ∀ p : Text, dropDots (Text.trim ((withReturns p).takeWhile (· ≠ '=')))
      = withReturns (dropDots (Text.trim (p.takeWhile (· ≠ '=')))) := by
    intro p
    rw [Text.takeWhile_withReturns (by decide), Text.trim_withReturns, dropDots_withReturns]
  unfold paramNames
  dsimp only
  rw [Text.fields_withReturns (by decide)]
  induction Text.fields ',' list with
  | nil => rfl
  | cons p pieces ih =>
    rw [List.map_cons, List.map_cons, List.map_cons, hname, List.filter_cons, List.filter_cons,
      Text.isEmpty_withReturns, ih]
    split
    next => rfl
    next => rfl

/-- What parentheses enclose is written with carriage returns. -/
theorem readParens?_withReturns (s : Text) :
    readParens? (withReturns s) = (readParens? s).map withReturns := by
  by_cases hparen : s.head? = some '('
  · obtain ⟨t, rfl⟩ := List.head?_eq_some_iff.1 hparen
    rw [Text.withReturns_cons (by decide), readParens?, readParens?,
      Text.breakOn?_withReturns (by decide) (by decide)]
    cases Text.breakOn? ")".toList t with
    | none => rfl
    | some parts => rfl
  · rw [readParens?_of_head? hparen,
      readParens?_of_head? (mt (Text.head?_withReturns_eq_iff (by decide) s).1 hparen)]
    rfl

/-! ### Words and marks -/

theorem dropWord?_withReturns {word : Text} (h : Unbroken word) (s : Text) :
    dropWord? word (withReturns s) = (dropWord? word s).map withReturns := by
  unfold dropWord?
  rw [Text.dropStart?_withReturns h]
  cases Text.dropStart? word s with
  | none => rfl
  | some rest =>
    rw [Option.map_some, Option.bind_some, Option.bind_some,
      Text.map_head?_withReturns isWordChar_return]
    split
    next => rfl
    next => rfl

/-- A function literal has the same parameters, written with carriage returns. -/
theorem readFunction?_withReturns (s : Text) :
    readFunction? (withReturns s) = (readFunction? s).map withReturns := by
  unfold readFunction?
  rw [dropWord?_withReturns (by decide)]
  cases dropWord? "function".toList s with
  | none => rfl
  | some rest =>
    rw [Option.map_some, Option.bind_some, Option.bind_some,
      Text.dropWhile_withReturns (by decide), readParens?_withReturns]

/-- A word is dropped as before, with blanks behind it that may be line breaks. -/
theorem dropWordAndBlanks?_withReturns {word : Text} (h : Unbroken word) (s : Text) :
    dropWordAndBlanks? word (withReturns s) = (dropWordAndBlanks? word s).map withReturns := by
  unfold dropWordAndBlanks?
  rw [Text.dropStart?_withReturns h]
  cases Text.dropStart? word s with
  | none => rfl
  | some rest =>
    rw [Option.map_some, Option.bind_some, Option.bind_some,
      Text.map_head?_withReturns Text.isBlank_return, Text.trimStart_withReturns]
    split
    next => rfl
    next => rfl

/-- A mark is dropped as before, with blanks around it that may be line breaks. -/
theorem dropMark?_withReturns {mark : Char} (h : Unbroken [mark]) (s : Text) :
    dropMark? mark (withReturns s) = (dropMark? mark s).map withReturns := by
  have hmark : mark ≠ '\n' := fun heq => h.1 (heq ▸ List.mem_singleton_self _)
  by_cases hhead : (Text.trimStart s).head? = some mark
  · obtain ⟨t, ht⟩ := List.head?_eq_some_iff.1 hhead
    have ht' : Text.trimStart (withReturns s) = mark :: withReturns t := by
      rw [Text.trimStart_withReturns, ht, Text.withReturns_cons hmark]
    rw [dropMark?_of_trimStart ht, dropMark?_of_trimStart ht', Text.trimStart_withReturns]
    rfl
  · have hhead' : (Text.trimStart (withReturns s)).head? ≠ some mark := by
      rw [Text.trimStart_withReturns]
      exact mt (Text.head?_withReturns_eq_iff h _).1 hhead
    rw [dropMark?_of_head? hhead, dropMark?_of_head? hhead']
    rfl

/-- A name and the value that is assigned to it are read as before. -/
theorem readAssignment?_withReturns (s : Text) :
    readAssignment? (withReturns s) = (readAssignment? s).map pairWithReturns := by
  unfold readAssignment?
  rw [readDottedName?_withReturns]
  exact readBehind_withReturns (dropMark?_withReturns (by decide)) (readDottedName? s)

/-- A key and the value behind its colon are read as before. -/
theorem readProperty?_withReturns (s : Text) :
    readProperty? (withReturns s) = (readProperty? s).map pairWithReturns := by
  unfold readProperty?
  rw [readKey?_withReturns]
  exact readBehind_withReturns (dropMark?_withReturns (by decide)) (readKey? s)

/-- A word that declares is dropped as before. -/
theorem dropDeclarator?_withReturns (s : Text) :
    dropDeclarator? (withReturns s) = (dropDeclarator? s).map withReturns := by
  have hvar : Unbroken "var".toList := by decide
  have hlet : Unbroken "let".toList := by decide
  have hconst : Unbroken "const".toList := by decide
  unfold dropDeclarator?
  simp only [List.findSome?_cons, List.findSome?_nil, dropWordAndBlanks?_withReturns hvar,
    dropWordAndBlanks?_withReturns hlet, dropWordAndBlanks?_withReturns hconst]
  cases dropWordAndBlanks? "var".toList s with
  | some rest => rfl
  | none =>
    cases dropWordAndBlanks? "let".toList s with
    | some rest => rfl
    | none =>
      cases dropWordAndBlanks? "const".toList s with
      | some rest => rfl
      | none => rfl

/-- A form with a declaring word before it, or none, may be changed inside. -/
theorem map_declared? {α β : Type} (f : α → β) (form : Text → Option α) (s : Text) :
    (declared? form s).map f = declared? (fun t => (form t).map f) s := by
  unfold declared?
  rw [map_orElse, Option.map_bind]
  rfl

/-- A form that is tried behind a declarator finds the same, changed by `f`, in code with carriage
returns, if it does so wherever it is tried. -/
theorem declared?_withReturns {α β : Type} {form : Text → Option α} {form' : Text → Option β}
    {f : α → β} (h : ∀ t, form' (withReturns t) = (form t).map f) (s : Text) :
    declared? form' (withReturns s) = (declared? form s).map f := by
  rw [map_declared?]
  unfold declared?
  rw [dropDeclarator?_withReturns, Option.bind_map, h]
  congr 2
  funext t
  exact h t

/-! ### Values -/

/-- The rest of a line may end in a carriage return. -/
theorem restOfLine_withReturns (s : Text) :
    restOfLine (withReturns s) = restOfLine s ∨
      restOfLine (withReturns s) = restOfLine s ++ ['\r'] := by
  unfold restOfLine
  induction s with
  | nil => exact .inl rfl
  | cons c s ih =>
    by_cases hc : c = '\n'
    · subst hc
      exact .inr rfl
    · have hlater : ∀ t : Text, (c :: t).takeWhile (· ≠ '\n') = c :: t.takeWhile (· ≠ '\n') :=
        fun t => List.takeWhile_cons_of_pos (decide_eq_true hc)
      rw [Text.withReturns_cons hc, hlater, hlater]
      exact ih.imp (congrArg (c :: ·)) (congrArg (c :: ·))

/-- A carriage return at the end does not make a word on one line start the text. -/
theorem isPrefixOf_concat_return {word : Text} (h : Unbroken word) (s : Text) :
    word.isPrefixOf (s ++ ['\r']) = word.isPrefixOf s := by
  rw [Bool.eq_iff_iff, List.isPrefixOf_iff_prefix, List.isPrefixOf_iff_prefix,
    List.prefix_concat_iff]
  constructor
  · rintro (rfl | hprefix)
    · exact absurd (List.mem_append_right s List.mem_cons_self) h.2
    · exact hprefix
  · exact .inr

/-- A word stands alone before a carriage return as it does at the end. -/
theorem isSome_dropWord?_concat_return {word : Text} (h : Unbroken word) (s : Text) :
    (dropWord? word (s ++ ['\r'])).isSome = (dropWord? word s).isSome := by
  have hreturn : isWordChar '\r' = false := by decide +kernel
  unfold dropWord? Text.dropStart?
  rw [isPrefixOf_concat_return h]
  by_cases hword : word.isPrefixOf s
  · obtain ⟨rest, rfl⟩ := List.isPrefixOf_iff_prefix.1 hword
    rw [if_pos hword, if_pos hword, List.append_assoc, List.drop_left, List.drop_left,
      Option.bind_some, Option.bind_some]
    cases rest with
    | nil => simp [hreturn]
    | cons c rest =>
      rw [List.cons_append, List.head?_cons, List.head?_cons]
      split
      next => rfl
      next => rfl
  · rw [if_neg hword, if_neg hword]

/-- Whether a text starts with a digit, or with a point before one. -/
def startsDigits : Text → Bool
  | '.' :: c :: _ => isDigit c
  | c :: _ => isDigit c
  | [] => false

/-- A number starts with its digits, or with a sign before them. -/
theorem startsNumber_eq (s : Text) :
    startsNumber s = startsDigits (if s.head? = some '-' then s.tail else s) :=
  rfl

/-- A carriage return at the end is no digit. -/
theorem startsDigits_concat_return (s : Text) : startsDigits (s ++ ['\r']) = startsDigits s := by
  have hreturn : isDigit '\r' = false := by decide +kernel
  have hdot : isDigit '.' = false := by decide +kernel
  fun_cases startsDigits s with
  | case1 c t => rfl
  | case2 c t hother =>
    by_cases hc : c = '.'
    · subst hc
      cases t with
      | nil => exact hreturn.trans hdot.symm
      | cons d t => exact (hother d t rfl rfl).elim
    · rw [List.cons_append, startsDigits]
      exact fun _ _ heq => absurd heq hc
  | case3 => exact hreturn

/-- A carriage return at the end of a text makes no number of it. -/
theorem startsNumber_concat_return {s : Text} (hs : s ≠ []) :
    startsNumber (s ++ ['\r']) = startsNumber s := by
  obtain ⟨c, t, rfl⟩ := List.exists_cons_of_ne_nil hs
  rw [startsNumber_eq, startsNumber_eq, List.cons_append, List.head?_cons, List.head?_cons,
    List.tail_cons, List.tail_cons]
  split
  next => exact startsDigits_concat_return t
  next => exact startsDigits_concat_return (c :: t)

/-- A value has the same type before a carriage return. -/
theorem typeOfLiteral?_concat_return (value : Text) :
    typeOfLiteral? (value ++ ['\r']) = typeOfLiteral? value := by
  have htrim : Text.trimStart (value ++ ['\r'])
      = if (Text.trimStart value).isEmpty then [] else Text.trimStart value ++ ['\r'] :=
    List.dropWhile_append
  unfold typeOfLiteral?
  rw [htrim]
  cases Text.trimStart value with
  | nil => rfl
  | cons c t =>
    have hne := List.cons_ne_nil c t
    dsimp only
    rw [if_neg (by simp), startsNumber_concat_return hne, isPrefixOf_concat_return (by decide),
      isSome_dropWord?_concat_return (by decide), isSome_dropWord?_concat_return (by decide)]
    rfl

/-- A carriage return at the end of the line of a value does not change its type. -/
theorem typeOfLiteral?_restOfLine (value : Text) :
    typeOfLiteral? (restOfLine (withReturns value)) = typeOfLiteral? (restOfLine value) := by
  rcases restOfLine_withReturns value with h | h
  · rw [h]
  · rw [h, typeOfLiteral?_concat_return]

/-! ### Signatures -/

namespace Signature

/-- A signature with carriage returns in its name and its parameters. -/
def withReturns (sig : Signature) : Signature :=
  { sig with name := sig.name.map Text.withReturns, params := sig.params.map Text.withReturns }

/-- The signature of a function takes the carriage returns of its name and its parameters. -/
theorem ofFunction_pairWithReturns (found : Text × Text) :
    ofFunction (pairWithReturns found) = (ofFunction found).withReturns := by
  unfold ofFunction pairWithReturns
  rw [dropQuotes_withReturns, paramNames_withReturns]
  rfl

end Signature

theorem functionDeclaration?_withReturns (s : Text) :
    functionDeclaration? (withReturns s) = (functionDeclaration? s).map pairWithReturns := by
  unfold functionDeclaration?
  rw [dropWordAndBlanks?_withReturns (by decide)]
  cases dropWordAndBlanks? "function".toList s with
  | none => rfl
  | some rest =>
    have hparens : ∀ t, readParens? (Text.trimStart (withReturns t))
        = (readParens? (Text.trimStart t)).map withReturns := by
      intro t
      rw [Text.trimStart_withReturns, readParens?_withReturns]
    rw [Option.map_some, Option.bind_some, Option.bind_some, readIdentifier?_withReturns]
    exact @readBehind_withReturns (fun t => readParens? (Text.trimStart t)) hparens _

theorem assignedFunction?_withReturns (s : Text) :
    assignedFunction? (withReturns s) = (assignedFunction? s).map pairWithReturns := by
  apply declared?_withReturns
  intro t
  rw [readAssignment?_withReturns]
  exact readBehind_withReturns readFunction?_withReturns (readAssignment? t)

theorem functionProperty?_withReturns (s : Text) :
    functionProperty? (withReturns s) = (functionProperty? s).map pairWithReturns := by
  unfold functionProperty?
  rw [readProperty?_withReturns]
  exact readBehind_withReturns readFunction?_withReturns (readProperty? s)

/-- What is found of a value: its name with carriage returns, and the same type. -/
theorem ofValue_withReturns (name value : Text) :
    Signature.ofValue (withReturns name, restOfLine (withReturns value))
      = (Signature.ofValue (name, restOfLine value)).withReturns := by
  unfold Signature.ofValue
  rw [dropQuotes_withReturns, typeOfLiteral?_restOfLine]
  rfl

/-- Values that are assigned are cut at their line feeds, so only their signatures agree. -/
theorem assignedValue?_withReturns (s : Text) :
    (assignedValue? (withReturns s)).map Signature.ofValue
      = (assignedValue? s).map fun found => (Signature.ofValue found).withReturns := by
  unfold assignedValue?
  rw [map_declared?]
  apply declared?_withReturns
  intro t
  rw [readAssignment?_withReturns]
  cases readAssignment? t with
  | none => rfl
  | some found =>
    simp only [Option.map_some, Option.bind_some, pairWithReturns, Text.isEmpty_withReturns,
      Text.head?_withReturns_eq_iff (c := '=') (by decide)]
    split
    next => rfl
    next => exact congrArg some (ofValue_withReturns found.1 found.2)

/-- Values that are properties have the same signatures, though they are cut at their line feeds. -/
theorem valueProperty?_withReturns (s : Text) :
    (valueProperty? (withReturns s)).map Signature.ofValue
      = (valueProperty? s).map fun found => (Signature.ofValue found).withReturns := by
  unfold valueProperty?
  rw [readProperty?_withReturns]
  cases readProperty? s with
  | none => rfl
  | some found => exact congrArg some (ofValue_withReturns found.1 found.2)

/-- Code with carriage returns has the signature of the code, with carriage returns. -/
theorem ofCode_withReturns (code : Text) :
    Signature.ofCode (withReturns code) = (Signature.ofCode code).withReturns := by
  have hfunction : Signature.ofFunction ∘ pairWithReturns
      = Signature.withReturns ∘ Signature.ofFunction :=
    funext Signature.ofFunction_pairWithReturns
  have hread : ∀ s, Signature.read? (withReturns s)
      = (Signature.read? s).map Signature.withReturns := by
    intro s
    unfold Signature.read?
    rw [functionDeclaration?_withReturns, assignedFunction?_withReturns,
      functionProperty?_withReturns, map_orElse Signature.ofValue, assignedValue?_withReturns,
      valueProperty?_withReturns]
    simp only [map_orElse, Option.map_map, hfunction]
    rfl
  unfold Signature.ofCode
  rw [dropTrivia_withReturns, hread]
  cases Signature.read? (dropTrivia code) with
  | none => rfl
  | some sig => rfl

end ApiDocs
