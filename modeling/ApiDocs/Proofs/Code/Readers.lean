import ApiDocs.Code.Signature
import ApiDocs.Proofs.Text.Trimming
import Mathlib.Data.List.Infix
/-!
# What the readers of code accept

The forms of code are read in small steps: a name, a mark with blanks around it, a word, the text
between parentheses.  Each reader finds exactly the spellings of what it looks for, and a name is
always taken whole, since what may follow it is no character of a name.

Main definitions:

- `Stops`: texts that do not go on with a sort of character.
- `IsIdentifier`, `IsDotted`, `IsKey`: the names in code.

Main results:

- `readIdentifier?_eq_some_iff`, `dropMark?_eq_some_iff`, `readFunction?_eq_some_iff`: the readers.
- `readDottedName?_append`, `readKey?_append`: names are read back.
- `readAssignment?_append`, `readProperty?_append`: the mark behind a name decides.
-/

namespace ApiDocs

/-- A text of blanks alone. -/
abbrev Blanks (s : Text) : Prop :=
  ∀ c ∈ s, isBlank c = true

theorem blanks_space : Blanks [' '] :=
  List.forall_mem_singleton.2 (by decide)

/-- A text does not start with a character of the sort. -/
abbrev Stops (p : Char → Bool) (s : Text) : Prop :=
  ∀ c, s.head? = some c → p c = false

theorem stops_cons {p : Char → Bool} {c : Char} (h : p c = false) (s : Text) :
    Stops p (c :: s) := by
  rintro d ⟨⟩
  exact h

/-- Blanks end whatever has no blanks in it. -/
theorem stops_blanks_append {p : Char → Bool} (hp : ∀ c, isBlank c = true → p c = false)
    {blanks s : Text} (hblanks : Blanks blanks) (hs : Stops p s) : Stops p (blanks ++ s) := by
  cases blanks with
  | nil => exact hs
  | cons c blanks => exact stops_cons (hp c (hblanks c List.mem_cons_self)) _

/-- No character of a name is blank. -/
theorem isBlank_of_isNameChar {c : Char} (h : isNameChar c = true) : isBlank c = false := by
  rcases Bool.or_eq_true_iff.1 h with hword | hdollar
  · exact isBlank_of_isWordChar hword
  · rw [beq_iff_eq.1 hdollar]
    decide

/-- No blank belongs to a name. -/
theorem isNameChar_of_isBlank {c : Char} (h : isBlank c = true) : isNameChar c = false := by
  by_contra hname
  rw [isBlank_of_isNameChar (by simpa using hname)] at h
  cases h

/-- Dropping as many characters as pass a test drops those that pass it. -/
theorem drop_length_takeWhile (p : Char → Bool) (s : Text) :
    s.drop (s.takeWhile p).length = s.dropWhile p := by
  have hdrop : (s.takeWhile p ++ s.dropWhile p).drop (s.takeWhile p).length = s.dropWhile p :=
    List.drop_left
  rwa [List.takeWhile_append_dropWhile] at hdrop

/-- Behind the characters that pass a test, none passes it. -/
theorem stops_dropWhile (p : Char → Bool) (s : Text) : Stops p (s.dropWhile p) := by
  intro c hc
  have hnot := List.head?_dropWhile_not p s
  rw [hc] at hnot
  simpa using hnot

/-- What trimming leaves is what stands behind the first blanks, all of them. -/
theorem trimStart_eq_iff {s t : Text} :
    Text.trimStart s = t ↔ ∃ blanks, Blanks blanks ∧ s = blanks ++ t ∧ Stops isBlank t := by
  constructor
  · rintro rfl
    exact ⟨s.takeWhile isBlank, fun _ hc => List.mem_takeWhile_imp hc,
      List.takeWhile_append_dropWhile.symm, stops_dropWhile isBlank s⟩
  · rintro ⟨blanks, hblanks, rfl, ht⟩
    rw [Text.trimStart_append_of_blank hblanks, Text.trimStart_eq_self ht]

/-- A choice between two readers finds what one of them finds. -/
theorem eq_some_of_orElse {α : Type} {x y : Option α} {a : α} (h : (x <|> y) = some a) :
    x = some a ∨ y = some a := by
  cases x with
  | none => exact .inr h
  | some b => exact .inl h

/-- What a choice finds may be changed on both sides. -/
theorem map_orElse {α β : Type} (f : α → β) (x y : Option α) :
    (x <|> y).map f = (x.map f <|> y.map f) := by
  cases x with
  | none => rfl
  | some a => rfl

/-! ### Identifiers -/

/-- One or more characters of names. -/
structure IsIdentifier (n : Text) : Prop where
  ne_nil : n ≠ []
  nameChar : ∀ c ∈ n, isNameChar c = true

instance (n : Text) : Decidable (IsIdentifier n) :=
  decidable_of_iff (n ≠ [] ∧ n.all isNameChar = true)
    ⟨fun h => ⟨h.1, List.all_eq_true.1 h.2⟩, fun h => ⟨h.ne_nil, List.all_eq_true.2 h.nameChar⟩⟩

/-- An identifier starts with a character of a name. -/
theorem IsIdentifier.exists_cons {n : Text} (h : IsIdentifier n) :
    ∃ c t, n = c :: t ∧ isNameChar c = true := by
  obtain ⟨c, t, rfl⟩ := List.exists_cons_of_ne_nil h.ne_nil
  exact ⟨c, t, rfl, h.nameChar c List.mem_cons_self⟩

/-- An identifier is read when it stands at the start, up to the first character that belongs to no
name. -/
theorem readIdentifier?_eq_some_iff {s n rest : Text} :
    readIdentifier? s = some (n, rest) ↔
      IsIdentifier n ∧ s = n ++ rest ∧ Stops isNameChar rest := by
  unfold readIdentifier?
  dsimp only
  rw [drop_length_takeWhile]
  constructor
  · intro h
    split at h
    next => cases h
    next hne =>
      obtain ⟨rfl, rfl⟩ := Prod.mk.inj (Option.some.inj h)
      exact ⟨⟨mt List.isEmpty_iff.2 hne, fun _ hc => List.mem_takeWhile_imp hc⟩,
        List.takeWhile_append_dropWhile.symm, stops_dropWhile isNameChar s⟩
  · rintro ⟨hn, rfl, hrest⟩
    rw [Text.takeWhile_run hn.nameChar hrest, Text.dropWhile_run hn.nameChar hrest,
      if_neg (mt List.isEmpty_iff.1 hn.ne_nil)]

/-! ### Dotted names -/

/-- Identifiers with a dot between them. -/
inductive IsDotted : Text → Prop
  | identifier {n : Text} (h : IsIdentifier n) : IsDotted n
  | dot {first later : Text} (h : IsIdentifier first) (hlater : IsDotted later) :
      IsDotted (first ++ '.' :: later)

/-- A name with dots starts with a character of a name, too. -/
theorem IsDotted.exists_cons {n : Text} (h : IsDotted n) :
    ∃ c t, n = c :: t ∧ isNameChar c = true := by
  cases h with
  | identifier h => exact h.exists_cons
  | @dot first later h _ =>
    obtain ⟨c, t, rfl, hc⟩ := h.exists_cons
    exact ⟨c, t ++ '.' :: later, rfl, hc⟩

/-- The characters of dotted names. -/
def isDottedChar (c : Char) : Bool :=
  isNameChar c || c == '.'

/-- No blank belongs to a name with dots. -/
theorem isDottedChar_of_isBlank {c : Char} (h : isBlank c = true) : isDottedChar c = false := by
  refine Bool.or_eq_false_iff.2 ⟨isNameChar_of_isBlank h, ?_⟩
  rw [beq_eq_false_iff_ne]
  rintro rfl
  revert h
  decide

/-- Where a name with dots cannot go on, an identifier cannot. -/
theorem Stops.nameChar {s : Text} (h : Stops isDottedChar s) : Stops isNameChar s :=
  fun c hc => (Bool.or_eq_false_iff.1 (h c hc)).1

/-- Where a name with dots cannot go on, no dot stands. -/
theorem Stops.head?_ne_dot {s : Text} (h : Stops isDottedChar s) : s.head? ≠ some '.' := by
  intro hdot
  have hnot := h '.' hdot
  revert hnot
  decide +kernel

/-- A name with dots is made of dots and the characters of names. -/
theorem IsDotted.isDottedChar {n : Text} (h : IsDotted n) : ∀ c ∈ n, isDottedChar c = true := by
  have hword : ∀ {n : Text}, IsIdentifier n → ∀ c ∈ n, ApiDocs.isDottedChar c = true :=
    fun hn c hc => Bool.or_eq_true_iff.2 (.inl (hn.nameChar c hc))
  induction h with
  | identifier h => exact hword h
  | dot h _ ih =>
    intro c hc
    rcases List.mem_append.1 hc with hc | hc
    · exact hword h c hc
    · rcases List.mem_cons.1 hc with rfl | hc
      · exact Bool.or_eq_true_iff.2 (.inr rfl)
      · exact ih c hc

/-- Behind a dot the name goes on if an identifier follows. -/
theorem readDotted_dot (s : Text) :
    readDotted ('.' :: s)
      = if s.takeWhile isNameChar = [] then ([], '.' :: s)
        else ('.' :: s.takeWhile isNameChar ++ (readDotted (s.dropWhile isNameChar)).1,
          (readDotted (s.dropWhile isNameChar)).2) := by
  have hdrop := drop_length_takeWhile isNameChar s
  rw [readDotted]
  cases hword : s.takeWhile isNameChar with
  | nil => rfl
  | cons c cs =>
    rw [hword, List.length_cons] at hdrop
    rw [if_neg (List.cons_ne_nil c cs), ← hdrop]

/-- Without a dot ahead, no names are read behind dots. -/
theorem readDotted_of_head? {s : Text} (h : s.head? ≠ some '.') : readDotted s = ([], s) := by
  rw [readDotted]
  rintro t rfl
  exact h rfl

/-- A further part of a dotted name is read whole. -/
theorem readDotted_append {later rest : Text} (h : IsDotted later)
    (hrest : Stops isDottedChar rest) :
    readDotted ('.' :: (later ++ rest)) = ('.' :: later, rest) := by
  induction h with
  | @identifier n h =>
    rw [readDotted_dot, Text.takeWhile_run h.nameChar hrest.nameChar,
      Text.dropWhile_run h.nameChar hrest.nameChar, if_neg h.ne_nil,
      readDotted_of_head? hrest.head?_ne_dot, List.append_nil]
  | @dot first later h _ ih =>
    have hstop : Stops isNameChar ('.' :: (later ++ rest)) := stops_cons (by decide +kernel) _
    rw [List.append_assoc, List.cons_append, readDotted_dot,
      Text.takeWhile_run h.nameChar hstop, Text.dropWhile_run h.nameChar hstop, if_neg h.ne_nil, ih]
    rfl

/-- A name with dots is read whole when the text cannot go on with it. -/
theorem readDottedName?_append {n rest : Text} (h : IsDotted n) (hrest : Stops isDottedChar rest) :
    readDottedName? (n ++ rest) = some (n, rest) := by
  cases h with
  | identifier h =>
    have hread := readIdentifier?_eq_some_iff.2 ⟨h, rfl, hrest.nameChar⟩
    rw [readDottedName?, hread, Option.map_some]
    dsimp only
    rw [readDotted_of_head? hrest.head?_ne_dot, List.append_nil]
  | @dot first later h hlater =>
    have hstop : Stops isNameChar ('.' :: (later ++ rest)) := stops_cons (by decide +kernel) _
    have hread := readIdentifier?_eq_some_iff.2 ⟨h, rfl, hstop⟩
    rw [List.append_assoc, List.cons_append, readDottedName?, hread, Option.map_some]
    dsimp only
    rw [readDotted_append hlater hrest]

/-- What is read behind the first identifier starts with a dot, if it is anything. -/
theorem readDotted_sound (s : Text) :
    s = (readDotted s).1 ++ (readDotted s).2 ∧
      ((readDotted s).1 = [] ∨ ∃ later, IsDotted later ∧ (readDotted s).1 = '.' :: later) := by
  fun_induction readDotted s with
  | case1 s hnone => exact ⟨rfl, .inl rfl⟩
  | case2 s c cs hword later ih =>
    have hsplit : s = c :: cs ++ s.drop (cs.length + 1) := by
      have hdrop := drop_length_takeWhile isNameChar s
      rw [hword, List.length_cons] at hdrop
      rw [hdrop, ← hword, List.takeWhile_append_dropWhile]
    have hfirst : IsIdentifier (c :: cs) :=
      ⟨List.cons_ne_nil c cs, fun d hd => List.mem_takeWhile_imp (hword ▸ hd)⟩
    obtain ⟨hrest, hnil | ⟨m, hm, heq⟩⟩ := ih
    · refine ⟨?_, .inr ⟨c :: cs, .identifier hfirst, by simp [later, hnil]⟩⟩
      rw [hnil, List.nil_append] at hrest
      simp only [later, hnil, List.append_nil, List.cons_append, ← hrest]
      exact congrArg _ hsplit
    · refine ⟨?_, .inr ⟨c :: cs ++ '.' :: m, .dot hfirst hm, by simp [later, heq]⟩⟩
      simp only [later, List.cons_append, List.append_assoc, ← hrest]
      exact congrArg _ hsplit
  | case3 s hother => exact ⟨rfl, .inl rfl⟩

/-- What is read as a name with dots is one, and stands at the start. -/
theorem readDottedName?_sound {s n rest : Text} (h : readDottedName? s = some (n, rest)) :
    IsDotted n ∧ s = n ++ rest := by
  obtain ⟨⟨first, behind⟩, hfirst, heq⟩ := Option.map_eq_some_iff.1 h
  obtain ⟨rfl, rfl⟩ := Prod.mk.inj heq
  obtain ⟨hidentifier, rfl, -⟩ := readIdentifier?_eq_some_iff.1 hfirst
  obtain ⟨hbehind, hnil | ⟨later, hlater, heq⟩⟩ := readDotted_sound behind
  · rw [hnil, List.nil_append] at hbehind
    rw [hnil, List.append_nil, ← hbehind]
    exact ⟨.identifier hidentifier, rfl⟩
  · rw [List.append_assoc, ← hbehind, heq]
    exact ⟨.dot hidentifier hlater, rfl⟩

/-! ### Keys -/

/-- The name of a property: an identifier, or any text between two quotes of one sort. -/
inductive IsKey : Text → Prop
  | identifier {n : Text} (h : IsIdentifier n) : IsKey n
  | quoted {quote : Char} {inner : Text} (hquote : quote = '"' ∨ quote = '\'')
      (hinner : quote ∉ inner) : IsKey (quote :: inner ++ [quote])

/-- A key without quotes is an identifier. -/
theorem readKey?_of_head? {s : Text} (hdouble : s.head? ≠ some '"')
    (hsingle : s.head? ≠ some '\'') : readKey? s = readIdentifier? s := by
  unfold readKey?
  split
  next => exact absurd rfl hdouble
  next => exact absurd rfl hsingle
  next => rfl

/-- A quote starts a key that ends with the next quote of its sort. -/
theorem readKey?_quote {quote : Char} (h : quote = '"' ∨ quote = '\'') (s : Text) :
    readKey? (quote :: s)
      = (Text.breakOn? [quote] s).map fun (key, rest) => (quote :: key ++ [quote], rest) := by
  rcases h with rfl | rfl
  · rfl
  · rfl

/-- A key is read whole when no character of a name follows it. -/
theorem readKey?_append {k rest : Text} (h : IsKey k) (hrest : Stops isNameChar rest) :
    readKey? (k ++ rest) = some (k, rest) := by
  cases h with
  | identifier h =>
    have hread := readIdentifier?_eq_some_iff.2 ⟨h, rfl, hrest⟩
    obtain ⟨c, t, rfl, hc⟩ := h.exists_cons
    rw [readKey?_of_head?, hread]
    · rintro ⟨⟩
      revert hc
      decide +kernel
    · rintro ⟨⟩
      revert hc
      decide +kernel
  | @quoted quote inner hquote hinner =>
    rw [List.cons_append, List.cons_append, List.append_assoc, readKey?_quote hquote,
      List.singleton_append, Text.breakOn?_append_singleton rest hinner]
    rfl

/-- What is read as a key is one, and stands at the start. -/
theorem readKey?_sound {s k rest : Text} (h : readKey? s = some (k, rest)) :
    IsKey k ∧ s = k ++ rest := by
  by_cases hquote : ∃ quote t, (quote = '"' ∨ quote = '\'') ∧ s = quote :: t
  · obtain ⟨quote, t, hquote, rfl⟩ := hquote
    rw [readKey?_quote hquote] at h
    obtain ⟨⟨inner, behind⟩, hbreak, heq⟩ := Option.map_eq_some_iff.1 h
    obtain ⟨rfl, rfl⟩ := Prod.mk.inj heq
    obtain rfl := Text.eq_append_of_breakOn? hbreak
    have hinner : quote ∉ inner := fun hmem =>
      Text.not_infix_of_breakOn? (List.cons_ne_nil _ _) hbreak
        ((List.singleton_infix_iff _ _).2 hmem)
    exact ⟨.quoted hquote hinner, by simp⟩
  · have hhead : ∀ quote, quote = '"' ∨ quote = '\'' → s.head? ≠ some quote := by
      intro quote hsort hhead
      obtain ⟨t, ht⟩ := List.head?_eq_some_iff.1 hhead
      exact hquote ⟨quote, t, hsort, ht⟩
    rw [readKey?_of_head? (hhead _ (.inl rfl)) (hhead _ (.inr rfl))] at h
    obtain ⟨hk, rfl, -⟩ := readIdentifier?_eq_some_iff.1 h
    exact ⟨.identifier hk, rfl⟩

/-! ### Marks and words -/

/-- Without the mark behind the blanks, no mark is dropped. -/
theorem dropMark?_of_head? {mark : Char} {s : Text} (h : (Text.trimStart s).head? ≠ some mark) :
    dropMark? mark s = none := by
  unfold dropMark?
  split
  next => rfl
  next c t heq =>
    rw [heq, List.head?_cons, ne_eq, Option.some.injEq] at h
    exact if_neg h

/-- A mark behind blanks is dropped, with the blanks on both its sides. -/
theorem dropMark?_of_trimStart {mark : Char} {s t : Text} (h : Text.trimStart s = mark :: t) :
    dropMark? mark s = some (Text.trimStart t) := by
  rw [dropMark?, h]
  exact if_pos rfl

/-- A mark may have blanks on both sides. -/
theorem dropMark?_eq_some_iff {mark : Char} (hmark : isBlank mark = false) {s rest : Text} :
    dropMark? mark s = some rest ↔ ∃ before after, Blanks before ∧ Blanks after ∧
      s = before ++ mark :: (after ++ rest) ∧ Stops isBlank rest := by
  constructor
  · intro h
    have hhead : (Text.trimStart s).head? = some mark := by
      by_contra hnot
      rw [dropMark?_of_head? hnot] at h
      cases h
    obtain ⟨t, ht⟩ := List.head?_eq_some_iff.1 hhead
    rw [dropMark?_of_trimStart ht, Option.some.injEq] at h
    obtain ⟨before, hbefore, rfl, -⟩ := trimStart_eq_iff.1 ht
    obtain ⟨after, hafter, rfl, hrest⟩ := trimStart_eq_iff.1 h
    exact ⟨before, after, hbefore, hafter, rfl, hrest⟩
  · rintro ⟨before, after, hbefore, hafter, rfl, hrest⟩
    have htrim : Text.trimStart (before ++ mark :: (after ++ rest)) = mark :: (after ++ rest) :=
      trimStart_eq_iff.2 ⟨before, hbefore, rfl, stops_cons hmark _⟩
    rw [dropMark?_of_trimStart htrim, trimStart_eq_iff.2 ⟨after, hafter, rfl, hrest⟩]

/-- A word is dropped together with the blanks behind it, and there is one at least. -/
theorem dropWordAndBlanks?_eq_some_iff {word s rest : Text} :
    dropWordAndBlanks? word s = some rest ↔ ∃ blanks, blanks ≠ [] ∧ Blanks blanks ∧
      s = word ++ (blanks ++ rest) ∧ Stops isBlank rest := by
  unfold dropWordAndBlanks?
  constructor
  · intro h
    obtain ⟨behind, hbehind, htrim⟩ := Option.bind_eq_some_iff.1 h
    obtain rfl := Text.eq_append_of_dropStart? hbehind
    split at htrim
    next hblank =>
      obtain ⟨blanks, hblanks, rfl, hrest⟩ := trimStart_eq_iff.1 (Option.some.inj htrim)
      refine ⟨blanks, ?_, hblanks, rfl, hrest⟩
      rintro rfl
      cases rest with
      | nil => cases hblank
      | cons c rest =>
        rw [List.nil_append, List.head?_cons, Option.map_some, hrest c rfl] at hblank
        cases hblank
    next => cases htrim
  · rintro ⟨blanks, hne, hblanks, rfl, hrest⟩
    obtain ⟨c, t, rfl⟩ := List.exists_cons_of_ne_nil hne
    have hblank : ((c :: t ++ rest).head?.map isBlank).getD false = true :=
      hblanks c List.mem_cons_self
    rw [Text.dropStart?_append, Option.bind_some, if_pos hblank,
      trimStart_eq_iff.2 ⟨_, hblanks, rfl, hrest⟩]

/-- A word is dropped from the start when it ends there. -/
theorem dropWord?_eq_some_iff {word s rest : Text} :
    dropWord? word s = some rest ↔ s = word ++ rest ∧ Stops isWordChar rest := by
  unfold dropWord?
  constructor
  · intro h
    obtain ⟨behind, hbehind, h⟩ := Option.bind_eq_some_iff.1 h
    split at h
    next => cases h
    next hword =>
      obtain rfl := Option.some.inj h
      refine ⟨Text.eq_append_of_dropStart? hbehind, fun c hc => ?_⟩
      rw [hc] at hword
      simpa using hword
  · rintro ⟨rfl, hrest⟩
    rw [Text.dropStart?_append, Option.bind_some]
    cases rest with
    | nil => rfl
    | cons c rest => exact if_neg (by simp [hrest c rfl])

/-! ### Parentheses -/

/-- Without a parenthesis ahead, nothing is read. -/
theorem readParens?_of_head? {s : Text} (h : s.head? ≠ some '(') : readParens? s = none := by
  unfold readParens?
  split
  next => exact absurd rfl h
  next => rfl

/-- The text between parentheses ends with the first one that closes. -/
theorem readParens?_eq_some_iff {s params : Text} :
    readParens? s = some params ↔
      ∃ rest, s = '(' :: (params ++ ')' :: rest) ∧ ')' ∉ params := by
  constructor
  · intro h
    have hhead : s.head? = some '(' := by
      by_contra hnot
      rw [readParens?_of_head? hnot] at h
      cases h
    obtain ⟨t, rfl⟩ := List.head?_eq_some_iff.1 hhead
    obtain ⟨⟨before, rest⟩, hbreak, rfl⟩ := Option.map_eq_some_iff.1 h
    obtain rfl := Text.eq_append_of_breakOn? hbreak
    refine ⟨rest, by simp, fun hmem => ?_⟩
    exact Text.not_infix_of_breakOn? (by decide) hbreak ((List.singleton_infix_iff _ _).2 hmem)
  · rintro ⟨rest, rfl, hparams⟩
    have hbreak : Text.breakOn? ")".toList (params ++ ')' :: rest) = some (params, rest) :=
      Text.breakOn?_append_singleton rest hparams
    rw [readParens?, hbreak]
    rfl

/-- The word of a function and its parameters; anything but a parenthesis may stand between. -/
inductive StartsFunction : Text → Text → Prop
  | intro {between params rest : Text} (hword : Stops isWordChar between)
      (hbetween : '(' ∉ between) (hparams : ')' ∉ params) :
      StartsFunction ("function".toList ++ (between ++ '(' :: (params ++ ')' :: rest))) params

/-- The head of a function is read just where a function starts. -/
theorem readFunction?_eq_some_iff {s params : Text} :
    readFunction? s = some params ↔ StartsFunction s params := by
  have hopen : isWordChar '(' = false := by decide +kernel
  unfold readFunction?
  constructor
  · intro h
    obtain ⟨behind, hword, hparens⟩ := Option.bind_eq_some_iff.1 h
    obtain ⟨rfl, hstop⟩ := dropWord?_eq_some_iff.1 hword
    obtain ⟨rest, hrest, hparams⟩ := readParens?_eq_some_iff.1 hparens
    have hsplit := List.takeWhile_append_dropWhile (p := (· ≠ '(')) (l := behind)
    rw [hrest] at hsplit
    rw [← hsplit]
    refine .intro (fun c hc => hstop c ?_) (fun hmem => ?_) hparams
    · rw [← hsplit, List.head?_append, hc]
      rfl
    · simpa using List.mem_takeWhile_imp hmem
  · rintro @⟨between, params, rest, hstop, hbetween, hparams⟩
    have hbehind : Stops isWordChar (between ++ '(' :: (params ++ ')' :: rest)) := by
      cases between with
      | nil => exact stops_cons hopen _
      | cons c between => exact stops_cons (hstop c rfl) _
    rw [dropWord?_eq_some_iff.2 ⟨rfl, hbehind⟩, Option.bind_some, Text.dropWhile_ne hbetween]
    exact readParens?_eq_some_iff.2 ⟨rest, rfl, hparams⟩

/-! ### Names before a mark -/

/-- Behind a dotted name, the equals sign decides. -/
theorem readAssignment?_append {n rest : Text} (h : IsDotted n) (hrest : Stops isDottedChar rest) :
    readAssignment? (n ++ rest) = (dropMark? '=' rest).map fun value => (n, value) := by
  rw [readAssignment?, readDottedName?_append h hrest]
  rfl

/-- Behind a key, the colon decides. -/
theorem readProperty?_append {k rest : Text} (h : IsKey k) (hrest : Stops isNameChar rest) :
    readProperty? (k ++ rest) = (dropMark? ':' rest).map fun value => (k, value) := by
  rw [readProperty?, readKey?_append h hrest]
  rfl

end ApiDocs
