import ApiDocs.Proofs.Code.Readers
/-!
# The forms of code do not disagree

Code is tried in five forms, one after the other, and several of them can match.  Those that do
start in the same way: with a declared function, with an assignment, or with a property of an
object, and no code starts in two of these ways.  So they give the same name, and they give the
same type as well, since a value that is read as a function has the type of one.  The order in
which the forms are tried decides about the parameters alone.

Main definitions:

- `Form`: the five forms; `Form.Spells`: the code that has a form.
- `CodeStart`: how the code of a form starts.
- `FormsAgree`: all forms say the same of some code.

Main results:

- `Form.find?_eq_some_iff`: a form is found where code is spelled in it.
- `CodeStart.unique`: code starts in one way.
- `forms_agree`: the forms say the same of all code.
-/

namespace ApiDocs

/-! ### Assignments and properties -/

/-- The words that declare variables. -/
def declaringWords : List Text :=
  ["var".toList, "let".toList, "const".toList]

/-- What may stand before an assigned name: nothing, or a word that declares variables. -/
inductive IsDeclarator : Text → Prop
  | none : IsDeclarator []
  | word {word blanks : Text} (hword : word ∈ declaringWords) (hne : blanks ≠ [])
      (hblanks : Blanks blanks) : IsDeclarator (word ++ blanks)

/-- A name, which may be declared, with an equals sign and a value behind it. -/
inductive Assigns : Text → Text → Text → Prop
  | intro {declarator name before after value : Text} (hdeclarator : IsDeclarator declarator)
      (hname : IsDotted name) (hbefore : Blanks before) (hafter : Blanks after)
      (hvalue : Stops isBlank value) :
      Assigns (declarator ++ (name ++ (before ++ '=' :: (after ++ value)))) name value

/-- A key with a colon and a value behind it. -/
inductive HasProperty : Text → Text → Text → Prop
  | intro {key before after value : Text} (hkey : IsKey key) (hbefore : Blanks before)
      (hafter : Blanks after) (hvalue : Stops isBlank value) :
      HasProperty (key ++ (before ++ ':' :: (after ++ value))) key value

/-- Another character behind the blanks is not the mark. -/
theorem dropMark?_of_blanks {mark c : Char} {blanks t : Text} (hblanks : Blanks blanks)
    (hc : isBlank c = false) (hne : c ≠ mark) : dropMark? mark (blanks ++ c :: t) = none := by
  apply dropMark?_of_head?
  rw [trimStart_eq_iff.2 ⟨blanks, hblanks, rfl, stops_cons hc t⟩]
  simpa using hne

/-- A name with dots ends before blanks and a mark. -/
theorem stops_blanks_mark (mark : Char) (hmark : isDottedChar mark = false) {blanks : Text}
    (hblanks : Blanks blanks) (t : Text) : Stops isDottedChar (blanks ++ mark :: t) :=
  stops_blanks_append (fun _ => isDottedChar_of_isBlank) hblanks (stops_cons hmark t)

/-- A key and its value are read where code has a property. -/
theorem readProperty?_eq_some_iff {code key value : Text} :
    readProperty? code = some (key, value) ↔ HasProperty code key value := by
  constructor
  · intro h
    obtain ⟨⟨k, rest⟩, hkey, h⟩ := Option.bind_eq_some_iff.1 h
    obtain ⟨v, hmark, heq⟩ := Option.map_eq_some_iff.1 h
    obtain ⟨rfl, rfl⟩ := Prod.mk.inj heq
    obtain ⟨hk, rfl⟩ := readKey?_sound hkey
    obtain ⟨before, after, hbefore, hafter, rfl, hvalue⟩ :=
      (dropMark?_eq_some_iff (by decide)).1 hmark
    exact .intro hk hbefore hafter hvalue
  · rintro @⟨key, before, after, value, hkey, hbefore, hafter, hvalue⟩
    have hstop := stops_blanks_mark ':' (by decide) hbefore (after ++ value)
    rw [readProperty?_append hkey hstop.nameChar,
      (dropMark?_eq_some_iff (by decide)).2 ⟨before, after, hbefore, hafter, rfl, hvalue⟩]
    rfl

/-- Behind a word, blanks and a further name there is neither an equals sign nor a colon. -/
theorem no_mark_of_two_words {word blanks t : Text} {c : Char} (hword : IsIdentifier word)
    (hne : blanks ≠ []) (hblanks : Blanks blanks) (hc : isNameChar c = true) :
    readAssignment? (word ++ (blanks ++ c :: t)) = none ∧
      readProperty? (word ++ (blanks ++ c :: t)) = none := by
  have hblank := isBlank_of_isNameChar hc
  have hstop : Stops isDottedChar (blanks ++ c :: t) := by
    obtain ⟨d, rest, rfl⟩ := List.exists_cons_of_ne_nil hne
    exact stops_cons (isDottedChar_of_isBlank (hblanks d List.mem_cons_self)) _
  have hmark : ∀ mark, isNameChar mark = false → dropMark? mark (blanks ++ c :: t) = none := by
    intro mark hmark
    apply dropMark?_of_blanks hblanks hblank
    rintro rfl
    rw [hc] at hmark
    cases hmark
  constructor
  · rw [readAssignment?_append (.identifier hword) hstop, hmark '=' (by decide)]
    rfl
  · rw [readProperty?_append (.identifier hword) hstop.nameChar, hmark ':' (by decide)]
    rfl

/-- The words that declare variables are identifiers. -/
theorem isIdentifier_of_declaringWords {word : Text} (h : word ∈ declaringWords) :
    IsIdentifier word := by
  have hall : ∀ word ∈ declaringWords, IsIdentifier word := by decide
  exact hall word h

/-- The order of a search does not matter when all that can be found is the same. -/
theorem findSome?_eq_some_of_mem {α β : Type} {f : α → Option β} {l : List α} {a : α} {b : β}
    (ha : a ∈ l) (hb : f a = some b) (hsame : ∀ x ∈ l, ∀ y, f x = some y → y = b) :
    l.findSome? f = some b := by
  cases hfind : l.findSome? f with
  | none =>
    rw [List.findSome?_eq_none_iff.1 hfind a ha] at hb
    cases hb
  | some y =>
    obtain ⟨x, hx, hy⟩ := List.exists_of_findSome?_eq_some hfind
    rw [hsame x hx y hy]

/-- The words that declare variables start with different letters, so one of them is found. -/
theorem dropDeclarator?_eq_some_iff {s t : Text} :
    dropDeclarator? s = some t ↔ ∃ word ∈ declaringWords, dropWordAndBlanks? word s = some t := by
  constructor
  · exact List.exists_of_findSome?_eq_some
  · rintro ⟨word, hword, ht⟩
    have hletter : ∀ word ∈ declaringWords, ∀ other ∈ declaringWords,
        other.head? = word.head? → other = word := by
      decide
    refine findSome?_eq_some_of_mem hword ht fun other hother u hu => ?_
    obtain ⟨blanks, -, -, hs, -⟩ := dropWordAndBlanks?_eq_some_iff.1 ht
    obtain ⟨blanks', -, -, hs', -⟩ := dropWordAndBlanks?_eq_some_iff.1 hu
    have hhead : other.head? = word.head? := by
      obtain ⟨c, v, rfl, -⟩ := (isIdentifier_of_declaringWords hword).exists_cons
      obtain ⟨d, w, rfl, -⟩ := (isIdentifier_of_declaringWords hother).exists_cons
      rw [hs] at hs'
      exact (congrArg List.head? hs').symm
    rw [hletter word hword other hother hhead, ht] at hu
    exact (Option.some.inj hu).symm

/-- An assignment behind a word that declares variables is none with that word. -/
theorem readAssignment?_eq_none_of_declarator {s t : Text} {found : Text × Text}
    (h : dropDeclarator? s = some t) (ht : readAssignment? t = some found) :
    readAssignment? s = none := by
  obtain ⟨word, hword, hdrop⟩ := dropDeclarator?_eq_some_iff.1 h
  obtain ⟨blanks, hne, hblanks, rfl, -⟩ := dropWordAndBlanks?_eq_some_iff.1 hdrop
  obtain ⟨⟨name, rest⟩, hname, -⟩ := Option.bind_eq_some_iff.1 ht
  obtain ⟨hdotted, rfl⟩ := readDottedName?_sound hname
  obtain ⟨c, u, rfl, hc⟩ := hdotted.exists_cons
  exact (no_mark_of_two_words (isIdentifier_of_declaringWords hword) hne hblanks hc).1

/-- What is read of an assignment does not depend on what its value is wanted for: the word that
declares variables is passed over or not before the value is seen. -/
theorem declared?_bind {α : Type} (next : Text × Text → Option α) (s : Text) :
    declared? (fun t => (readAssignment? t).bind next) s
      = (declared? readAssignment? s).bind next := by
  unfold declared?
  cases hdrop : dropDeclarator? s with
  | none => rfl
  | some t =>
    rw [Option.bind_some, Option.bind_some]
    cases ht : readAssignment? t with
    | none => rfl
    | some found =>
      dsimp only
      rw [readAssignment?_eq_none_of_declarator hdrop ht, Option.bind_some]
      change (next found <|> none) = next found
      cases next found <;> rfl

/-- A name and its value are read where an equals sign stands between them. -/
theorem readAssignment?_eq_some_iff {s name value : Text} :
    readAssignment? s = some (name, value) ↔ ∃ before after, IsDotted name ∧ Blanks before ∧
      Blanks after ∧ Stops isBlank value ∧ s = name ++ (before ++ '=' :: (after ++ value)) := by
  constructor
  · intro h
    obtain ⟨⟨n, rest⟩, hname, h⟩ := Option.bind_eq_some_iff.1 h
    obtain ⟨v, hmark, heq⟩ := Option.map_eq_some_iff.1 h
    obtain ⟨rfl, rfl⟩ := Prod.mk.inj heq
    obtain ⟨hn, rfl⟩ := readDottedName?_sound hname
    obtain ⟨before, after, hbefore, hafter, rfl, hvalue⟩ :=
      (dropMark?_eq_some_iff (by decide)).1 hmark
    exact ⟨before, after, hn, hbefore, hafter, hvalue, rfl⟩
  · rintro ⟨before, after, hn, hbefore, hafter, hvalue, rfl⟩
    have hstop := stops_blanks_mark '=' (by decide) hbefore (after ++ value)
    rw [readAssignment?_append hn hstop,
      (dropMark?_eq_some_iff (by decide)).2 ⟨before, after, hbefore, hafter, rfl, hvalue⟩]
    rfl

/-- An assignment is read with a declaring word before it, or without one. -/
theorem declared?_assignment_eq_some_iff {code name value : Text} :
    declared? readAssignment? code = some (name, value) ↔ Assigns code name value := by
  constructor
  · intro h
    rcases eq_some_of_orElse h with h | h
    · obtain ⟨t, hdrop, ht⟩ := Option.bind_eq_some_iff.1 h
      obtain ⟨word, hword, hdrop⟩ := dropDeclarator?_eq_some_iff.1 hdrop
      obtain ⟨blanks, hne, hblanks, rfl, -⟩ := dropWordAndBlanks?_eq_some_iff.1 hdrop
      obtain ⟨before, after, hn, hbefore, hafter, hvalue, rfl⟩ := readAssignment?_eq_some_iff.1 ht
      rw [← List.append_assoc]
      exact .intro (.word hword hne hblanks) hn hbefore hafter hvalue
    · obtain ⟨before, after, hn, hbefore, hafter, hvalue, rfl⟩ := readAssignment?_eq_some_iff.1 h
      exact .intro .none hn hbefore hafter hvalue
  · rintro @⟨declarator, name, before, after, value, hdeclarator, hn, hbefore, hafter, hvalue⟩
    have hread := readAssignment?_eq_some_iff.2 ⟨before, after, hn, hbefore, hafter, hvalue, rfl⟩
    unfold declared?
    cases hdeclarator with
    | none =>
      -- the name may be such a word itself, with no assignment behind it
      have hnone : (dropDeclarator? (name ++ (before ++ '=' :: (after ++ value)))).bind
          readAssignment? = none := by
        by_contra hsome
        obtain ⟨found, hfound⟩ := Option.ne_none_iff_exists'.1 hsome
        obtain ⟨t, hdrop, ht⟩ := Option.bind_eq_some_iff.1 hfound
        rw [readAssignment?_eq_none_of_declarator hdrop ht] at hread
        cases hread
      rw [List.nil_append, hnone]
      exact hread
    | @word word blanks hword hne hblanks =>
      have hstop : Stops isBlank (name ++ (before ++ '=' :: (after ++ value))) := by
        obtain ⟨c, t, rfl, hc⟩ := hn.exists_cons
        exact stops_cons (isBlank_of_isNameChar hc) _
      have hdrop := dropDeclarator?_eq_some_iff.2 ⟨word, hword,
        dropWordAndBlanks?_eq_some_iff.2 ⟨blanks, hne, hblanks, rfl, hstop⟩⟩
      rw [List.append_assoc, hdrop, Option.bind_some, hread]
      rfl

/-! ### How code starts -/

/-- How the code of a form starts. -/
inductive CodeStart
  | declaration
  | assignment
  | property
  deriving DecidableEq

/-- The name that code starts with, and what follows it: the parameters of a declared function, or
a value. -/
def CodeStart.find? : CodeStart → Text → Option (Text × Text)
  | declaration => functionDeclaration?
  | assignment => declared? readAssignment?
  | property => readProperty?

/-- A declared function. -/
inductive Declares : Text → Text → Text → Prop
  | intro {blanks name after params rest : Text} (hne : blanks ≠ []) (hblanks : Blanks blanks)
      (hname : IsIdentifier name) (hafter : Blanks after) (hparams : ')' ∉ params) :
      Declares ("function".toList
        ++ (blanks ++ (name ++ (after ++ '(' :: (params ++ ')' :: rest))))) name params

/-- A declaration is read where code declares a function. -/
theorem functionDeclaration?_eq_some_iff {code name params : Text} :
    functionDeclaration? code = some (name, params) ↔ Declares code name params := by
  constructor
  · intro h
    obtain ⟨t, hword, h⟩ := Option.bind_eq_some_iff.1 h
    obtain ⟨⟨n, behind⟩, hname, h⟩ := Option.bind_eq_some_iff.1 h
    obtain ⟨p, hparens, heq⟩ := Option.map_eq_some_iff.1 h
    obtain ⟨rfl, rfl⟩ := Prod.mk.inj heq
    obtain ⟨blanks, hne, hblanks, rfl, -⟩ := dropWordAndBlanks?_eq_some_iff.1 hword
    obtain ⟨hn, rfl, -⟩ := readIdentifier?_eq_some_iff.1 hname
    obtain ⟨rest, htrim, hparams⟩ := readParens?_eq_some_iff.1 hparens
    obtain ⟨after, hafter, rfl, -⟩ := trimStart_eq_iff.1 htrim
    exact .intro hne hblanks hn hafter hparams
  · rintro @⟨blanks, name, after, params, rest, hne, hblanks, hn, hafter, hparams⟩
    have hopen : Stops isBlank ('(' :: (params ++ ')' :: rest)) := stops_cons (by decide) _
    have hstop : Stops isNameChar (after ++ '(' :: (params ++ ')' :: rest)) :=
      (stops_blanks_mark '(' (by decide) hafter _).nameChar
    have hstart : Stops isBlank (name ++ (after ++ '(' :: (params ++ ')' :: rest))) := by
      obtain ⟨c, t, rfl, hc⟩ := hn.exists_cons
      exact stops_cons (isBlank_of_isNameChar hc) _
    have hparens : readParens? (Text.trimStart (after ++ '(' :: (params ++ ')' :: rest)))
        = some params := by
      rw [trimStart_eq_iff.2 ⟨after, hafter, rfl, hopen⟩]
      exact readParens?_eq_some_iff.2 ⟨rest, rfl, hparams⟩
    unfold functionDeclaration?
    rw [dropWordAndBlanks?_eq_some_iff.2 ⟨blanks, hne, hblanks, rfl, hstart⟩, Option.bind_some,
      readIdentifier?_eq_some_iff.2 ⟨hn, rfl, hstop⟩, Option.bind_some]
    dsimp only
    rw [hparens]
    rfl

/-- A declared function is no assignment and no property. -/
theorem Declares.alone {code name params : Text} (h : Declares code name params) :
    declared? readAssignment? code = none ∧ readProperty? code = none := by
  obtain @⟨blanks, name, after, params, rest, hne, hblanks, hn, -, -⟩ := h
  have hfunction : IsIdentifier "function".toList := by decide
  obtain ⟨c, t, rfl, hc⟩ := hn.exists_cons
  obtain ⟨hassignment, hproperty⟩ := no_mark_of_two_words
    (t := t ++ (after ++ '(' :: (params ++ ')' :: rest))) hfunction hne hblanks hc
  refine ⟨?_, hproperty⟩
  -- none of the words that declare variables starts like that of a function
  exact hassignment

/-- An assignment is no property. -/
theorem Assigns.alone {code name value : Text} (h : Assigns code name value) :
    readProperty? code = none := by
  obtain @⟨declarator, name, before, after, value, hdeclarator, hn, hbefore, -, -⟩ := h
  cases hdeclarator with
  | none =>
    cases hn with
    | identifier hn =>
      have hstop := stops_blanks_mark '=' (by decide) hbefore (after ++ value)
      rw [List.nil_append, readProperty?_append (.identifier hn) hstop.nameChar,
        dropMark?_of_blanks hbefore (by decide) (by decide)]
      rfl
    | @dot first later hfirst _ =>
      have hmark : dropMark? ':' ('.' :: (later ++ (before ++ '=' :: (after ++ value)))) = none :=
        @dropMark?_of_blanks ':' '.' [] _ (List.forall_mem_nil _) (by decide) (by decide)
      rw [List.nil_append, List.append_assoc, List.cons_append,
        readProperty?_append (.identifier hfirst) (stops_cons (by decide) _), hmark]
      rfl
  | @word word blanks hword hne hblanks =>
    obtain ⟨c, t, rfl, hc⟩ := hn.exists_cons
    rw [List.append_assoc]
    exact (no_mark_of_two_words (isIdentifier_of_declaringWords hword) hne hblanks hc).2

/-- Code starts in one way. -/
theorem CodeStart.unique {o o' : CodeStart} {code : Text} {found found' : Text × Text}
    (h : o.find? code = some found) (h' : o'.find? code = some found') : o = o' := by
  have hdeclaration : ∀ {found}, declaration.find? code = some found →
      assignment.find? code = none ∧ property.find? code = none :=
    fun h => (functionDeclaration?_eq_some_iff.1 h).alone
  have hassignment : ∀ {found}, assignment.find? code = some found →
      property.find? code = none :=
    fun h => (declared?_assignment_eq_some_iff.1 h).alone
  cases o with
  | declaration =>
    cases o' with
    | declaration => rfl
    | assignment => cases (hdeclaration h).1.symm.trans h'
    | property => cases (hdeclaration h).2.symm.trans h'
  | assignment =>
    cases o' with
    | declaration => cases (hdeclaration h').1.symm.trans h
    | assignment => rfl
    | property => cases (hassignment h).symm.trans h'
  | property =>
    cases o' with
    | declaration => cases (hdeclaration h').2.symm.trans h
    | assignment => cases (hassignment h').symm.trans h
    | property => rfl

/-! ### The forms -/

/-- The five forms of code. -/
inductive Form
  | declaration
  | assignedFunction
  | functionProperty
  | assignedValue
  | valueProperty
  deriving DecidableEq

namespace Form

/-- The forms in the order in which they are tried. -/
def all : List Form :=
  [declaration, assignedFunction, functionProperty, assignedValue, valueProperty]

/-- The name and the parameters, or the name and the value, that a form finds in code. -/
def find? : Form → Text → Option (Text × Text)
  | declaration => functionDeclaration?
  | assignedFunction => assignedFunction?
  | functionProperty => functionProperty?
  | assignedValue => assignedValue?
  | valueProperty => valueProperty?

/-- The signature of what a form finds. -/
def signature : Form → Text × Text → Signature
  | declaration | assignedFunction | functionProperty => .ofFunction
  | assignedValue | valueProperty => .ofValue

/-- The signature of code in a form. -/
def read? (f : Form) (code : Text) : Option Signature :=
  (f.find? code).map f.signature

/-- The way in which code of a form starts. -/
def opening : Form → CodeStart
  | declaration => .declaration
  | assignedFunction | assignedValue => .assignment
  | functionProperty | valueProperty => .property

/-- Code that has a form, with the name and the parameters or the value in it. -/
inductive Spells : Form → Text → Text → Text → Prop
  | declaration {code name params : Text} (h : Declares code name params) :
      Spells .declaration code name params
  | assignedFunction {code name value params : Text} (h : Assigns code name value)
      (hfunction : StartsFunction value params) : Spells .assignedFunction code name params
  | functionProperty {code name value params : Text} (h : HasProperty code name value)
      (hfunction : StartsFunction value params) : Spells .functionProperty code name params
  | assignedValue {code name value : Text} (h : Assigns code name value) (hne : value ≠ [])
      (hequals : value.head? ≠ some '=') : Spells .assignedValue code name (restOfLine value)
  | valueProperty {code name value : Text} (h : HasProperty code name value) :
      Spells .valueProperty code name (restOfLine value)

/-- What a form makes of the value that code starts with, or of the parameters. -/
def finish? : Form → Text × Text → Option (Text × Text)
  | declaration, found => some found
  | assignedFunction, found | functionProperty, found =>
    (readFunction? found.2).map fun params => (found.1, params)
  | assignedValue, found =>
    if found.2.isEmpty ∨ found.2.head? = some '=' then none
    else some (found.1, restOfLine found.2)
  | valueProperty, found => some (found.1, restOfLine found.2)

/-- Forms with the same start look for the rest behind the same name. -/
theorem find?_eq_bind (f : Form) (code : Text) :
    f.find? code = (f.opening.find? code).bind f.finish? := by
  cases f with
  | declaration => exact (Option.bind_fun_some _).symm
  | assignedFunction => exact declared?_bind _ code
  | functionProperty => rfl
  | assignedValue => exact declared?_bind _ code
  | valueProperty => exact Option.map_eq_bind

/-- A form is found just where code spells it. -/
theorem find?_eq_some_iff {f : Form} {code name found : Text} :
    f.find? code = some (name, found) ↔ f.Spells code name found := by
  rw [find?_eq_bind, Option.bind_eq_some_iff]
  constructor
  · rintro ⟨⟨n, value⟩, hopening, hfinish⟩
    cases f with
    | declaration =>
      cases hfinish
      exact .declaration (functionDeclaration?_eq_some_iff.1 hopening)
    | assignedFunction =>
      obtain ⟨params, hfunction, heq⟩ := Option.map_eq_some_iff.1 hfinish
      cases heq
      exact .assignedFunction (declared?_assignment_eq_some_iff.1 hopening)
        (readFunction?_eq_some_iff.1 hfunction)
    | functionProperty =>
      obtain ⟨params, hfunction, heq⟩ := Option.map_eq_some_iff.1 hfinish
      cases heq
      exact .functionProperty (readProperty?_eq_some_iff.1 hopening)
        (readFunction?_eq_some_iff.1 hfunction)
    | assignedValue =>
      obtain ⟨hvalue, heq⟩ := Option.ite_none_left_eq_some.1 hfinish
      cases heq
      rw [List.isEmpty_iff, not_or] at hvalue
      exact .assignedValue (declared?_assignment_eq_some_iff.1 hopening) hvalue.1 hvalue.2
    | valueProperty =>
      cases hfinish
      exact .valueProperty (readProperty?_eq_some_iff.1 hopening)
  · rintro (h | ⟨h, hfunction⟩ | ⟨h, hfunction⟩ | ⟨h, hne, hequals⟩ | h)
    · exact ⟨_, functionDeclaration?_eq_some_iff.2 h, rfl⟩
    · refine ⟨_, declared?_assignment_eq_some_iff.2 h, ?_⟩
      rw [finish?, readFunction?_eq_some_iff.2 hfunction]
      rfl
    · refine ⟨_, readProperty?_eq_some_iff.2 h, ?_⟩
      rw [finish?, readFunction?_eq_some_iff.2 hfunction]
      rfl
    · refine ⟨_, declared?_assignment_eq_some_iff.2 h, ?_⟩
      rw [finish?, if_neg (by simp [hne, hequals])]
    · exact ⟨_, readProperty?_eq_some_iff.2 h, rfl⟩

/-! ### The forms together -/

/-- The name is read before anything that tells the forms with one start from each other. -/
theorem name_of_finish? {f : Form} {start found : Text × Text} (h : f.finish? start = some found) :
    found.1 = start.1 := by
  cases f with
  | declaration =>
    cases h
    rfl
  | assignedFunction | functionProperty =>
    obtain ⟨params, -, rfl⟩ := Option.map_eq_some_iff.1 h
    rfl
  | assignedValue =>
    obtain ⟨-, heq⟩ := Option.ite_none_left_eq_some.1 h
    cases heq
    rfl
  | valueProperty =>
    cases h
    rfl

/-- A value that is read as a function has the type of one. -/
theorem typeOfLiteral?_of_startsFunction {value params : Text} (h : StartsFunction value params) :
    typeOfLiteral? (restOfLine value) = some "Function".toList := by
  obtain @⟨between, params, rest, -, -, -⟩ := h
  have htype : ∀ s, typeOfLiteral? ("function".toList ++ s) = some "Function".toList := fun _ => rfl
  exact htype (restOfLine (between ++ '(' :: (params ++ ')' :: rest)))

/-- The type that the start of code shows, in whichever of its forms it is read. -/
def openingType? : CodeStart → Text × Text → Option Text
  | .declaration, _ => some "Function".toList
  | .assignment, start | .property, start => typeOfLiteral? (restOfLine start.2)

/-- The type of a form is told by its opening. -/
theorem type_of_finish? {f : Form} {start found : Text × Text} (h : f.finish? start = some found) :
    (f.signature found).type = openingType? f.opening start := by
  cases f with
  | declaration => rfl
  | assignedFunction | functionProperty =>
    obtain ⟨params, hfunction, -⟩ := Option.map_eq_some_iff.1 h
    exact (typeOfLiteral?_of_startsFunction (readFunction?_eq_some_iff.1 hfunction)).symm
  | assignedValue =>
    obtain ⟨-, heq⟩ := Option.ite_none_left_eq_some.1 h
    cases heq
    rfl
  | valueProperty =>
    cases h
    rfl

/-- The name of a form is written without its quotes. -/
theorem name_signature (f : Form) (found : Text × Text) :
    (f.signature found).name = some (dropQuotes found.1) := by
  cases f <;> rfl

/-- Two forms that code has have the same start. -/
theorem exists_start {f f' : Form} {code : Text} {found found' : Text × Text}
    (h : f.find? code = some found) (h' : f'.find? code = some found') :
    f.opening = f'.opening ∧
      ∃ start, f.finish? start = some found ∧ f'.finish? start = some found' := by
  rw [find?_eq_bind, Option.bind_eq_some_iff] at h h'
  obtain ⟨start, hstart, hfinish⟩ := h
  obtain ⟨start', hstart', hfinish'⟩ := h'
  have hopening := CodeStart.unique hstart hstart'
  rw [hopening, hstart', Option.some.injEq] at hstart
  rw [hstart] at hfinish'
  exact ⟨hopening, start, hfinish, hfinish'⟩

/-- Two forms that code has show the same name and the same type. -/
theorem same_name_and_type {f f' : Form} {code : Text} {sig sig' : Signature}
    (h : f.read? code = some sig) (h' : f'.read? code = some sig') :
    (sig.name, sig.type) = (sig'.name, sig'.type) := by
  obtain ⟨found, hfound, rfl⟩ := Option.map_eq_some_iff.1 h
  obtain ⟨found', hfound', rfl⟩ := Option.map_eq_some_iff.1 h'
  obtain ⟨hopening, start, hfinish, hfinish'⟩ := exists_start hfound hfound'
  rw [name_signature, name_signature, name_of_finish? hfinish, name_of_finish? hfinish',
    type_of_finish? hfinish, type_of_finish? hfinish', hopening]

/-- The first result in a list is that of its first entry, if that has one. -/
theorem findSome?_cons_orElse {α β : Type} (f : α → Option β) (a : α) (l : List α) :
    (a :: l).findSome? f = (f a <|> l.findSome? f) := by
  rw [List.findSome?_cons]
  cases f a <;> rfl

/-- The signature of code is that of the first form that it has. -/
theorem read?_eq_findSome? (code : Text) :
    Signature.read? code = all.findSome? fun f => f.read? code := by
  simp only [Signature.read?, all, read?, find?, signature, findSome?_cons_orElse,
    List.findSome?_nil, Option.orElse_eq_orElse, Option.orElse_eq_or, Option.map_or,
    Option.or_assoc, Option.or_none]

/-- The name and the type that code shows do not depend on the order of the forms. -/
theorem findSome?_of_perm {order : List Form} (h : order.Perm all) (code : Text) :
    (order.findSome? fun f => f.read? code).map (fun sig => (sig.name, sig.type))
      = (Signature.read? code).map fun sig => (sig.name, sig.type) := by
  rw [read?_eq_findSome?]
  cases hfirst : all.findSome? fun f => f.read? code with
  | none =>
    have hnone : (order.findSome? fun f => f.read? code) = none :=
      List.findSome?_eq_none_iff.2 fun f hf =>
        List.findSome?_eq_none_iff.1 hfirst f (h.mem_iff.1 hf)
    rw [hnone]
  | some sig =>
    obtain ⟨f, hf, hread⟩ := List.exists_of_findSome?_eq_some hfirst
    rw [List.map_findSome?]
    refine findSome?_eq_some_of_mem (h.mem_iff.2 hf) (congrArg _ hread) fun f' _ shown hshown => ?_
    obtain ⟨sig', hread', rfl⟩ := Option.map_eq_some_iff.1 hshown
    exact same_name_and_type hread' hread

/-- A second equals sign behind a name makes code a comparison, which has none of the forms. -/
theorem find?_comparison {n blanks : Text} (hn : IsDotted n) (hblanks : Blanks blanks)
    (rest : Text) (f : Form) : f.find? (n ++ (blanks ++ ("==".toList ++ rest))) = none := by
  have hassigns : Assigns (n ++ (blanks ++ ("==".toList ++ rest))) n ('=' :: rest) :=
    @Assigns.intro [] n blanks [] ('=' :: rest) .none hn hblanks (List.forall_mem_nil _)
      (stops_cons (by decide) rest)
  have hstart : CodeStart.assignment.find? (n ++ (blanks ++ ("==".toList ++ rest)))
      = some (n, '=' :: rest) := declared?_assignment_eq_some_iff.2 hassigns
  by_contra hsome
  obtain ⟨found, hfound⟩ := Option.ne_none_iff_exists'.1 hsome
  rw [find?_eq_bind, Option.bind_eq_some_iff] at hfound
  obtain ⟨start, hfind, hfinish⟩ := hfound
  have hopening := CodeStart.unique hfind hstart
  rw [hopening, hstart, Option.some.injEq] at hfind
  rw [← hfind] at hfinish
  cases f with
  | declaration | functionProperty | valueProperty => cases hopening
  | assignedFunction | assignedValue => cases hfinish

end Form

/-- The forms say the same of some code: all that it has show one name, a declared function has no
other form, an assignment is no property, and a function that is assigned or a property is a value
of the type of a function as well.  The order of the forms decides about the parameters alone, and
a comparison has none of the forms. -/
structure FormsAgree (code : Text) : Prop where
  spelled : ∀ (f : Form) (name found : Text),
    f.find? code = some (name, found) ↔ f.Spells code name found
  same_name : ∀ (f f' : Form) (found found' : Text × Text),
    f.find? code = some found → f'.find? code = some found' → found.1 = found'.1
  declaration_alone : ∀ f : Form, (Form.declaration.find? code).isSome → f ≠ .declaration →
    f.find? code = none
  assignment_or_property :
    (Form.assignedFunction.find? code = none ∧ Form.assignedValue.find? code = none) ∨
      (Form.functionProperty.find? code = none ∧ Form.valueProperty.find? code = none)
  assigned_function : ∀ name params, Form.assignedFunction.find? code = some (name, params) →
    ∃ value, Form.assignedValue.find? code = some (name, value) ∧
      typeOfLiteral? value = some "Function".toList
  function_property : ∀ name params, Form.functionProperty.find? code = some (name, params) →
    ∃ value, Form.valueProperty.find? code = some (name, value) ∧
      typeOfLiteral? value = some "Function".toList
  first : Signature.read? code = Form.all.findSome? fun f => f.read? code
  any_order : ∀ order : List Form, order.Perm Form.all →
    (order.findSome? fun f => f.read? code).map (fun sig => (sig.name, sig.type))
      = (Signature.read? code).map fun sig => (sig.name, sig.type)
  comparison : ∀ n blanks rest, IsDotted n → Blanks blanks →
    code = n ++ (blanks ++ ("==".toList ++ rest)) → ∀ f : Form, f.find? code = none

/-- A function literal starts with the letter of its word. -/
theorem StartsFunction.exists_cons {value params : Text} (h : StartsFunction value params) :
    ∃ t, value = 'f' :: t := by
  obtain @⟨between, params, rest, -, -, -⟩ := h
  exact ⟨_, rfl⟩

open Form in
/-- Whatever the code is, the forms that find something exclude each other or agree. -/
theorem forms_agree (code : Text) : FormsAgree code where
  spelled _ _ _ := find?_eq_some_iff
  same_name f f' found found' h h' := by
    obtain ⟨-, start, hfinish, hfinish'⟩ := exists_start h h'
    rw [name_of_finish? hfinish, name_of_finish? hfinish']
  declaration_alone f h hne := by
    obtain ⟨found, hfound⟩ := Option.isSome_iff_exists.1 h
    by_contra hsome
    obtain ⟨found', hfound'⟩ := Option.ne_none_iff_exists'.1 hsome
    obtain ⟨hopening, -⟩ := exists_start hfound hfound'
    cases f with
    | declaration => exact hne rfl
    | assignedFunction | functionProperty | assignedValue | valueProperty => cases hopening
  assignment_or_property := by
    have hfind : ∀ f : Form, f.opening.find? code = none → f.find? code = none := by
      intro f hnone
      rw [find?_eq_bind, hnone]
      rfl
    cases hassignment : CodeStart.assignment.find? code with
    | none => exact .inl ⟨hfind _ hassignment, hfind _ hassignment⟩
    | some found =>
      have hproperty : CodeStart.property.find? code = none := by
        by_contra hsome
        obtain ⟨found', hfound'⟩ := Option.ne_none_iff_exists'.1 hsome
        cases CodeStart.unique hassignment hfound'
      exact .inr ⟨hfind _ hproperty, hfind _ hproperty⟩
  assigned_function name params h := by
    cases find?_eq_some_iff.1 h with
    | assignedFunction hassigns hfunction =>
      obtain ⟨t, rfl⟩ := hfunction.exists_cons
      have hvalue : Spells .assignedValue code name (restOfLine ('f' :: t)) :=
        .assignedValue hassigns (List.cons_ne_nil _ _) (by simp)
      exact ⟨_, find?_eq_some_iff.2 hvalue, typeOfLiteral?_of_startsFunction hfunction⟩
  function_property name params h := by
    cases find?_eq_some_iff.1 h with
    | functionProperty hproperty hfunction =>
      exact ⟨_, find?_eq_some_iff.2 (.valueProperty hproperty),
        typeOfLiteral?_of_startsFunction hfunction⟩
  first := read?_eq_findSome? code
  any_order order h := findSome?_of_perm h code
  comparison n blanks rest hn hblanks hcode f := by
    rw [hcode]
    exact find?_comparison hn hblanks rest f

end ApiDocs
