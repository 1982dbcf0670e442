import ApiDocs.Proofs.Code.Trivia
import ApiDocs.Proofs.Text.Lines
/-!
# The parameters between parentheses

The parameters of a function are read without regard to brackets and comments: up to the first
closing parenthesis, one between every two commas, each up to its first equals sign.  A parameter
that has nothing but blanks around its name is read right, and its default adds an entry behind
each of its commas.  A comment, or a blank behind the dots, ends up in the entry.

Main definitions:

- `Parameter`: a parameter with its spelling.
- `Parameter.IsBare`: nothing but blanks stands around a name, and nothing behind its dots.
- `paramsIn`: the parameters that are read from a text behind a parenthesis.
- `seen`: the parameters that start in front of the first closing parenthesis.

Main results:

- `paramsIn_listText`: what is read from a list of parameters without comments.
- `exists_entry_of_not_bare`: what is read from any other list.
- `paramsIn_eq_names_iff`: the lists that are read right.
-/

namespace ApiDocs

/-! ### Parameters as they are written -/

/-- A parameter with its spelling: blanks and comments in front of it, three dots with blanks and
comments behind them, an identifier, blanks and comments behind it, and a default behind an equals
sign. -/
structure Parameter where
  before : List Trivia := []
  dots : Option (List Trivia) := none
  name : Text
  after : List Trivia := []
  value : Option Text := none
  identifier : IsIdentifier name

namespace Parameter

/-- The dots in front of the name. -/
def dotsText (p : Parameter) : Text :=
  (p.dots.map fun behind => "...".toList ++ spellTrivia behind).getD []

/-- Dots in front of a name have trivia behind them. -/
theorem dotsText_eq_append_of_ne_nil (p : Parameter) (h : p.dotsText ≠ []) :
    ∃ behind, p.dotsText = "...".toList ++ spellTrivia behind := by
  unfold dotsText at h ⊢
  cases hdots : p.dots with
  | none =>
    rw [hdots] at h
    exact absurd rfl h
  | some behind => exact ⟨behind, rfl⟩

/-- The spelling of a parameter in front of its default. -/
def front (p : Parameter) : Text :=
  spellTrivia p.before ++ (p.dotsText ++ (p.name ++ spellTrivia p.after))

/-- The default with its equals sign. -/
def defaultText (p : Parameter) : Text :=
  (p.value.map ('=' :: ·)).getD []

/-- The spelling of a parameter. -/
def text (p : Parameter) : Text :=
  p.front ++ p.defaultText

/-- Nothing but blanks stands around the name, and nothing between the dots and the name. -/
structure IsBare (p : Parameter) : Prop where
  before : Blanks (spellTrivia p.before)
  dots : p.dotsText = [] ∨ p.dotsText = "...".toList
  after : Blanks (spellTrivia p.after)

instance (p : Parameter) : Decidable p.IsBare :=
  decidable_of_iff
    ((spellTrivia p.before).all isBlank = true ∧ (p.dotsText = [] ∨ p.dotsText = "...".toList) ∧
      (spellTrivia p.after).all isBlank = true)
    ⟨fun h => ⟨List.all_eq_true.1 h.1, h.2.1, List.all_eq_true.1 h.2.2⟩,
      fun h => ⟨List.all_eq_true.2 h.before, h.dots, List.all_eq_true.2 h.after⟩⟩

/-- A default starts with its equals sign. -/
theorem stops_defaultText (p : Parameter) : Stops (· ≠ '=') p.defaultText := by
  unfold defaultText
  cases p.value with
  | none => exact fun _ h => by cases h
  | some value => exact stops_cons (by simp) value

end Parameter

/-- A text that stops at its start still does when its end is cut off. -/
theorem Stops.takeWhile {p q : Char → Bool} {s : Text} (h : Stops p s) :
    Stops p (s.takeWhile q) := by
  intro c hc
  rw [List.head?_takeWhile] at hc
  exact h c (Option.eq_some_of_filter_eq_some hc)

/-- The spelling of a list of parameters. -/
def listText (items : List Parameter) : Text :=
  Text.joinWith [','] (items.map Parameter.text)

/-! ### The pieces between commas -/

/-- The name in a piece between commas. -/
def nameInPiece (piece : Text) : Text :=
  dropDots (Text.trim (piece.takeWhile (· ≠ '=')))

/-- The names in pieces that have one. -/
def namesInPieces (pieces : List Text) : List Text :=
  (pieces.map nameInPiece).filter (! ·.isEmpty)

/-- The parameters that are read from a text behind a parenthesis. -/
def paramsIn (s : Text) : List Text :=
  paramNames (s.takeWhile (· ≠ ')'))

/-- The names of a list are those in its pieces between commas. -/
theorem paramNames_eq (list : Text) :
    paramNames list = namesInPieces (Text.fields ',' list) := rfl

/-- A comma divides a list of names. -/
theorem paramNames_append (list later : Text) :
    paramNames (list ++ ',' :: later) = paramNames list ++ paramNames later := by
  rw [paramNames_eq, Text.fields_append_cons, namesInPieces, List.map_append, List.filter_append]
  rfl

/-- A piece with a name adds it in front. -/
theorem namesInPieces_cons {piece : Text} (h : nameInPiece piece ≠ []) (pieces : List Text) :
    namesInPieces (piece :: pieces) = nameInPiece piece :: namesInPieces pieces := by
  unfold namesInPieces
  rw [List.map_cons, List.filter_cons_of_pos]
  simpa using h

/-- The dots in front of a text that does not start with one are dropped. -/
theorem dropDots_append {dots s : Text} (hdots : dots = [] ∨ dots = "...".toList)
    (hs : s.head? ≠ some '.') : dropDots (dots ++ s) = s := by
  have hself : dropDots s = s := by
    unfold dropDots
    split
    next => exact absurd rfl hs
    next => rfl
  rcases hdots with rfl | rfl
  · exact hself
  · exact hself

/-! ### Parameters without comments -/

namespace Parameter

/-- What stands between the pieces of a list does not stand in front of a default. -/
theorem IsBare.not_mem_front {p : Parameter} (h : p.IsBare) {mark : Char}
    (hmark : isDottedChar mark = false) (hblank : isBlank mark = false) : mark ∉ p.front := by
  have hdots : mark ∉ p.dotsText := by
    rcases h.dots with hdots | hdots
    · rw [hdots]
      exact List.not_mem_nil
    · rw [hdots]
      exact not_mem_of_forall (List.all_eq_true.1 (by decide +kernel)) hmark
  have hname : mark ∉ p.name :=
    not_mem_of_forall (IsDotted.identifier p.identifier).isDottedChar hmark
  unfold front
  simp only [List.mem_append, not_or]
  exact ⟨not_mem_of_forall h.before hblank, hdots, hname, not_mem_of_forall h.after hblank⟩

/-- The dots and the name in front of a default stand between blanks. -/
theorem IsBare.nameInPiece_append {p : Parameter} (h : p.IsBare) {t : Text}
    (ht : Stops (· ≠ '=') t) : nameInPiece (p.front ++ t) = p.name := by
  have hrun : (p.front ++ t).takeWhile (· ≠ '=') = p.front :=
    Text.takeWhile_run (Text.forall_ne (h.not_mem_front (by decide +kernel) (by decide))) ht
  obtain ⟨s, c, hname⟩ := (List.eq_nil_or_concat' p.name).resolve_left p.identifier.ne_nil
  have hchar : ∀ d ∈ p.name, isBlank d = false := fun d hd =>
    isBlank_of_isNameChar (p.identifier.nameChar d hd)
  have htrim : Text.trim p.front = p.dotsText ++ p.name := by
    have hstart : ∀ d, ((p.dotsText ++ s) ++ [c]).head? = some d → isBlank d = false := by
      intro d hd
      rw [List.append_assoc, ← hname] at hd
      rcases h.dots with hdots | hdots
      · rw [hdots] at hd
        exact hchar d (List.mem_of_mem_head? hd)
      · rw [hdots] at hd
        cases hd
        decide
    have hfront : p.front
        = spellTrivia p.before ++ ((p.dotsText ++ s) ++ c :: spellTrivia p.after) := by
      simp [front, hname]
    rw [hfront, Text.trim_append_cons h.before hstart (hchar c (by simp [hname])),
      Text.trimEnd_of_blank h.after, hname, List.append_assoc]
  have hhead : p.name.head? ≠ some '.' := fun hdot =>
    not_mem_of_forall p.identifier.nameChar (by decide +kernel) (List.mem_of_mem_head? hdot)
  rw [nameInPiece, hrun, htrim, dropDots_append h.dots hhead]

/-- What is read from the default: an entry behind each comma in front of a parenthesis that
closes. -/
def fromDefault (p : Parameter) : List Text :=
  namesInPieces (Text.fields ',' (p.defaultText.takeWhile (· ≠ ')'))).tail

/-- The entries of a parameter: its name, and those from its default. -/
def entries (p : Parameter) : List Text :=
  p.name :: p.fromDefault

/-- A default without a comma makes no further entry. -/
theorem entries_of_not_mem (p : Parameter) (h : ',' ∉ p.defaultText) : p.entries = [p.name] := by
  have hpiece : ',' ∉ p.defaultText.takeWhile (· ≠ ')') :=
    fun hmem => h ((List.takeWhile_sublist _).mem hmem)
  rw [entries, fromDefault, Text.fields_of_not_mem hpiece]
  rfl

/-- The first piece of a default is cut from it by the equals sign, the other ones are read. -/
theorem IsBare.paramNames_front {p : Parameter} (h : p.IsBare) {t : Text}
    (ht : Stops (· ≠ '=') t) :
    paramNames (p.front ++ t) = p.name :: namesInPieces (Text.fields ',' t).tail := by
  have hpieces : ∃ piece pieces, Text.fields ',' t = piece :: pieces ∧ Stops (· ≠ '=') piece := by
    cases t with
    | nil => exact ⟨[], [], rfl, ht⟩
    | cons c t =>
      obtain rfl : c = '=' := by simpa using ht c rfl
      rw [Text.fields_cons, if_neg (by decide)]
      obtain ⟨piece, pieces, hfields⟩ := List.exists_cons_of_ne_nil (List.splitOn_ne_nil ',' t)
      exact ⟨'=' :: piece, pieces, congrArg _ hfields, ht⟩
  obtain ⟨piece, pieces, hfields, hpiece⟩ := hpieces
  have hname := h.nameInPiece_append hpiece
  have hne : nameInPiece (p.front ++ piece) ≠ [] := hname ▸ p.identifier.ne_nil
  rw [paramNames_eq, Text.fields_append (h.not_mem_front (by decide +kernel) (by decide)), hfields,
    List.modifyHead_cons, namesInPieces_cons hne, hname, List.tail_cons]

/-- Up to the first closing parenthesis, a bare parameter gives its entries. -/
theorem IsBare.paramNames_eq_entries {p : Parameter} (h : p.IsBare) :
    paramNames (p.front ++ p.defaultText.takeWhile (· ≠ ')')) = p.entries :=
  h.paramNames_front p.stops_defaultText.takeWhile

/-- In front of its default, a bare parameter holds no closing parenthesis. -/
theorem IsBare.takeWhile_front {p : Parameter} (h : p.IsBare) (t : Text) :
    (p.front ++ t).takeWhile (· ≠ ')') = p.front ++ t.takeWhile (· ≠ ')') :=
  List.takeWhile_append_of_pos (Text.forall_ne (h.not_mem_front (by decide +kernel) (by decide)))

/-- A parenthesis that closes in a default ends the list. -/
theorem IsBare.paramsIn_of_mem {p : Parameter} (h : p.IsBare) (hclose : ')' ∈ p.defaultText)
    (t : Text) : paramsIn (p.text ++ t) = p.entries := by
  obtain ⟨inside, rest, hsplit, hinside⟩ := List.eq_append_cons_of_mem hclose
  have hcut : (p.text ++ t).takeWhile (· ≠ ')')
      = p.front ++ p.defaultText.takeWhile (· ≠ ')') := by
    rw [text, List.append_assoc, h.takeWhile_front, hsplit, List.append_assoc, List.cons_append,
      Text.takeWhile_ne hinside, Text.takeWhile_ne hinside]
  rw [paramsIn, hcut, h.paramNames_eq_entries]

/-- Without a parenthesis that closes in its default, the list goes on behind the parameter. -/
theorem IsBare.takeWhile_text {p : Parameter} (h : p.IsBare) (hclose : ')' ∉ p.defaultText)
    (t : Text) : (p.text ++ t).takeWhile (· ≠ ')')
      = (p.front ++ p.defaultText.takeWhile (· ≠ ')')) ++ t.takeWhile (· ≠ ')') := by
  rw [text, List.append_assoc, h.takeWhile_front,
    List.takeWhile_append_of_pos (Text.forall_ne hclose), List.append_assoc,
    List.takeWhile_eq_self_iff.2 (Text.forall_ne hclose)]

/-- The parenthesis behind a parameter ends the list. -/
theorem IsBare.paramsIn_of_close {p : Parameter} (h : p.IsBare) (hclose : ')' ∉ p.defaultText)
    (t : Text) : paramsIn (p.text ++ ')' :: t) = p.entries := by
  rw [paramsIn, h.takeWhile_text hclose, List.takeWhile_cons_of_neg (by simp), List.append_nil,
    h.paramNames_eq_entries]

/-- Behind a comma, the list goes on with the next parameter. -/
theorem IsBare.paramsIn_of_comma {p : Parameter} (h : p.IsBare) (hclose : ')' ∉ p.defaultText)
    (t : Text) : paramsIn (p.text ++ ',' :: t) = p.entries ++ paramsIn t := by
  rw [paramsIn, h.takeWhile_text hclose, List.takeWhile_cons_of_pos (by simp),
    paramNames_append, h.paramNames_eq_entries, ← paramsIn]

end Parameter

/-! ### Parameters with comments -/

/-- What ends an entry: an equals sign, and what stands between the pieces of a list or ends it. -/
def entryMarks : List Char :=
  ['=', ',', ')']

/-- A text that nothing ends starts the first piece, and all of it counts for the entry there. -/
theorem exists_first_entry {start : Text} (h : ∀ mark ∈ entryMarks, mark ∉ start) (t : Text) :
    ∃ u, dropDots (Text.trim (start ++ u)) ≠ [] →
      dropDots (Text.trim (start ++ u)) ∈ paramsIn (start ++ t) := by
  have hpass : ∀ mark ∈ entryMarks, ∀ u,
      (start ++ u).takeWhile (· ≠ mark) = start ++ u.takeWhile (· ≠ mark) := by
    intro mark hmark u
    exact List.takeWhile_append_of_pos (Text.forall_ne (h mark hmark))
  obtain ⟨piece, pieces, hfields⟩ :=
    List.exists_cons_of_ne_nil (List.splitOn_ne_nil ',' (t.takeWhile (· ≠ ')')))
  have hname : nameInPiece (start ++ piece)
      = dropDots (Text.trim (start ++ piece.takeWhile (· ≠ '='))) := by
    rw [nameInPiece, hpass '=' (by decide)]
  have hpieces : Text.fields ',' ((start ++ t).takeWhile (· ≠ ')'))
      = (start ++ piece) :: pieces := by
    rw [hpass ')' (by decide), Text.fields_append (h ',' (by decide))]
    exact congrArg _ hfields
  refine ⟨piece.takeWhile (· ≠ '='), fun hne => ?_⟩
  rw [← hname] at hne ⊢
  rw [paramsIn, paramNames_eq, hpieces, namesInPieces_cons hne]
  exact List.mem_cons_self

/-- The characters of names, blanks, and the one that comments start with. -/
def isEntryChar (c : Char) : Bool :=
  isNameChar c || isBlank c || c == '/'

theorem isEntryChar_of_isNameChar {c : Char} (h : isNameChar c = true) : isEntryChar c = true := by
  simp [isEntryChar, h]

theorem isEntryChar_of_isBlank {c : Char} (h : isBlank c = true) : isEntryChar c = true := by
  simp [isEntryChar, h]

/-- Blanks and dots in front of the first entry are dropped.  What follows them is in it as far as
some character that is no blank. -/
theorem exists_entry_append {blanks dots s : Text} {c : Char} (hblanks : Blanks blanks)
    (hdots : dots = [] ∨ dots = "...".toList) (hs : ∀ d ∈ s ++ [c], isEntryChar d = true)
    (hc : isBlank c = false) (hstart : dots = [] → Stops isBlank (s ++ [c])) (t : Text) :
    ∃ u, s ++ c :: u ∈ paramsIn (blanks ++ (dots ++ s ++ c :: t)) := by
  have hmarks : ∀ mark ∈ entryMarks, mark ∉ blanks ++ (dots ++ s ++ [c]) := by
    intro mark hmark
    have hother : entryMarks.all (fun mark => !isEntryChar mark && mark ∉ "...".toList) = true := by
      decide +kernel
    obtain ⟨hentry, hnot⟩ : isEntryChar mark = false ∧ mark ∉ "...".toList := by
      simpa using List.all_eq_true.1 hother mark hmark
    rw [List.append_assoc, List.mem_append, List.mem_append, not_or, not_or]
    refine ⟨?_, ?_, not_mem_of_forall hs hentry⟩
    · exact not_mem_of_forall (fun d hd => isEntryChar_of_isBlank (hblanks d hd)) hentry
    · rcases hdots with rfl | rfl
      · exact List.not_mem_nil
      · exact hnot
  have hsplit : ∀ u, (blanks ++ (dots ++ s ++ [c])) ++ u = blanks ++ (dots ++ s ++ c :: u) := by
    simp
  have hfirst : Stops isBlank (dots ++ s ++ [c]) := by
    rcases hdots with rfl | rfl
    · exact hstart rfl
    · exact stops_cons (by decide) _
  have hdot : ∀ u, (s ++ c :: u).head? ≠ some '.' := by
    intro u hhead
    have hmem : '.' ∈ s ++ [c] := by
      apply List.mem_of_mem_head?
      rw [List.head?_append] at hhead ⊢
      exact hhead
    exact not_mem_of_forall hs (by decide +kernel) hmem
  obtain ⟨u, hu⟩ := exists_first_entry hmarks t
  rw [hsplit, hsplit, Text.trim_append_cons hblanks hfirst hc, List.append_assoc,
    dropDots_append hdots (hdot _)] at hu
  exact ⟨Text.trimEnd u, hu (List.append_ne_nil_of_right_ne_nil _ (List.cons_ne_nil _ _))⟩

/-- Trivia that are not blanks alone have a comment behind their first blanks. -/
theorem exists_slash_of_not_blanks {pieces : List Trivia} (h : ¬ Blanks (spellTrivia pieces)) :
    ∃ blanks t, Blanks blanks ∧ spellTrivia pieces = blanks ++ '/' :: t := by
  induction pieces with
  | nil => exact absurd (List.forall_mem_nil _) h
  | cons piece pieces ih =>
    rw [spellTrivia_cons] at h ⊢
    cases piece with
    | blanks run hrun =>
      have hlater : ¬ Blanks (spellTrivia pieces) := fun hblanks =>
        h (List.forall_mem_append.2 ⟨hrun, hblanks⟩)
      obtain ⟨blanks, t, hblanks, ht⟩ := ih hlater
      refine ⟨run ++ blanks, t, List.forall_mem_append.2 ⟨hrun, hblanks⟩, ?_⟩
      rw [ht, List.append_assoc]
      rfl
    | line body hbody => exact ⟨[], _, List.forall_mem_nil _, rfl⟩
    | block body hbody => exact ⟨[], _, List.forall_mem_nil _, rfl⟩

/-- A text with a character of no name in it is no identifier. -/
theorem not_isIdentifier_of_mem {s : Text} {c : Char} (hc : c ∈ s) (h : isNameChar c = false) :
    ¬ IsIdentifier s :=
  fun hs => not_mem_of_forall hs.nameChar h hc

/-- A comment in an entry makes it no identifier. -/
theorem exists_entry_of_slash {blanks dots s : Text} (hblanks : Blanks blanks)
    (hdots : dots = [] ∨ dots = "...".toList) (hs : ∀ c ∈ s, isEntryChar c = true)
    (hstart : dots = [] → Stops isBlank (s ++ ['/'])) (t : Text) :
    ∃ entry ∈ paramsIn (blanks ++ (dots ++ s ++ '/' :: t)), ¬ IsIdentifier entry := by
  have hslash : ∀ c ∈ s ++ ['/'], isEntryChar c = true :=
    List.forall_mem_append.2 ⟨hs, List.forall_mem_singleton.2 (by decide +kernel)⟩
  obtain ⟨u, hu⟩ := exists_entry_append hblanks hdots hslash (by decide) hstart t
  exact ⟨_, hu, not_isIdentifier_of_mem (List.mem_append_right _ List.mem_cons_self)
    (by decide +kernel)⟩

namespace Parameter

/-- The name of a parameter is made of such characters. -/
theorem isEntryChar_name (p : Parameter) : ∀ c ∈ p.name, isEntryChar c = true :=
  fun c hc => isEntryChar_of_isNameChar (p.identifier.nameChar c hc)

/-- A comment around a name goes into an entry, and so does a blank behind the dots. -/
theorem exists_entry_of_not_bare {p : Parameter} (h : ¬ p.IsBare) (t : Text) :
    ∃ entry ∈ paramsIn (p.text ++ t), ¬ IsIdentifier entry := by
  have hblank : ∀ {run}, Blanks run → ∀ c ∈ run, isEntryChar c = true :=
    fun hrun c hc => isEntryChar_of_isBlank (hrun c hc)
  obtain ⟨c, later, hname, hc⟩ := p.identifier.exists_cons
  by_cases hbefore : Blanks (spellTrivia p.before)
  · by_cases hdots : p.dotsText = [] ∨ p.dotsText = "...".toList
    · -- a comment stands behind the name
      obtain ⟨run, u, hrun, hu⟩ :=
        exists_slash_of_not_blanks fun hafter => h ⟨hbefore, hdots, hafter⟩
      have htext : p.text ++ t = spellTrivia p.before
          ++ (p.dotsText ++ (p.name ++ run) ++ '/' :: (u ++ p.defaultText ++ t)) := by
        simp [text, front, hu]
      rw [htext]
      refine exists_entry_of_slash hbefore hdots
        (List.forall_mem_append.2 ⟨p.isEntryChar_name, hblank hrun⟩) (fun _ => ?_) _
      rw [hname]
      exact stops_cons (isBlank_of_isNameChar hc) _
    · obtain ⟨behind, hbehind⟩ := p.dotsText_eq_append_of_ne_nil (mt .inl hdots)
      have hne : spellTrivia behind ≠ [] := by
        intro hnil
        rw [hnil, List.append_nil] at hbehind
        exact hdots (.inr hbehind)
      by_cases hblanks : Blanks (spellTrivia behind)
      · -- blanks stand between the dots and the name
        have htext : p.text ++ t = spellTrivia p.before ++ ("...".toList ++ spellTrivia behind
            ++ c :: (later ++ spellTrivia p.after ++ p.defaultText ++ t)) := by
          simp [text, front, hbehind, hname]
        have hentry : ∀ d ∈ spellTrivia behind ++ [c], isEntryChar d = true :=
          List.forall_mem_append.2 ⟨hblank hblanks,
            List.forall_mem_singleton.2 (isEntryChar_of_isNameChar hc)⟩
        obtain ⟨u, hu⟩ := exists_entry_append hbefore (.inr rfl) hentry (isBlank_of_isNameChar hc)
          (fun hnil => by cases hnil) (later ++ spellTrivia p.after ++ p.defaultText ++ t)
        obtain ⟨d, run, hrun⟩ := List.exists_cons_of_ne_nil hne
        have hd : d ∈ spellTrivia behind := hrun ▸ List.mem_cons_self
        rw [htext]
        exact ⟨_, hu, not_isIdentifier_of_mem (List.mem_append_left _ hd)
          (isNameChar_of_isBlank (hblanks d hd))⟩
      · -- a comment stands between the dots and the name
        obtain ⟨run, u, hrun, hu⟩ := exists_slash_of_not_blanks hblanks
        have htext : p.text ++ t = spellTrivia p.before ++ ("...".toList ++ run
            ++ '/' :: (u ++ p.name ++ spellTrivia p.after ++ p.defaultText ++ t)) := by
          simp [text, front, hbehind, hu]
        rw [htext]
        exact exists_entry_of_slash hbefore (.inr rfl) (hblank hrun) (fun hnil => by cases hnil) _
  · -- a comment stands in front of the parameter
    obtain ⟨run, u, hrun, hu⟩ := exists_slash_of_not_blanks hbefore
    have htext : p.text ++ t = run ++ ([] ++ [] ++ '/' ::
        (u ++ p.dotsText ++ p.name ++ spellTrivia p.after ++ p.defaultText ++ t)) := by
      simp [text, front, hu]
    rw [htext]
    exact exists_entry_of_slash hrun (.inl rfl) (List.forall_mem_nil _)
      (fun _ => stops_cons (by decide) _) _

end Parameter

/-! ### Lists of parameters -/

theorem listText_singleton (p : Parameter) : listText [p] = p.text :=
  Text.joinWith_singleton _ _

/-- A comma stands between two parameters. -/
theorem listText_cons_cons (p q : Parameter) (items : List Parameter) :
    listText (p :: q :: items) = p.text ++ ',' :: listText (q :: items) :=
  Text.joinWith_cons_cons _ _ _ _

/-- The parameters that start in front of the first parenthesis that closes. -/
def seen : List Parameter → List Parameter
  | [] => []
  | p :: items => p :: if ')' ∈ p.defaultText then [] else seen items

/-- The parameters that are seen are the first ones of the list. -/
theorem prefix_seen (items : List Parameter) : seen items <+: items := by
  induction items with
  | nil => exact List.prefix_rfl
  | cons p items ih =>
    rw [seen, List.cons_prefix_cons]
    refine ⟨rfl, ?_⟩
    split
    · exact List.nil_prefix
    · exact ih

/-- All parameters are seen if only the last default has a parenthesis that closes. -/
theorem seen_eq_self_iff {items : List Parameter} :
    seen items = items ↔ ∀ p ∈ items.dropLast, ')' ∉ p.defaultText := by
  induction items with
  | nil => exact iff_of_true rfl (List.forall_mem_nil _)
  | cons p items ih =>
    cases items with
    | nil =>
      refine iff_of_true ?_ (List.forall_mem_nil _)
      rw [seen, seen, ite_self]
    | cons q items =>
      rw [List.dropLast_cons_cons, List.forall_mem_cons, ← ih, seen]
      by_cases hclose : ')' ∈ p.defaultText
      · simp [hclose]
      · simp [hclose]

/-- From a list of parameters without comments, every one that starts in front of the first
parenthesis that closes is read, and the pieces of its default with it. -/
theorem paramsIn_listText {items : List Parameter} (h : ∀ p ∈ seen items, p.IsBare) (rest : Text) :
    paramsIn (listText items ++ ')' :: rest) = (seen items).flatMap Parameter.entries := by
  induction items with
  | nil => rfl
  | cons p items ih =>
    rw [seen, List.forall_mem_cons] at h
    obtain ⟨hbare, hlater⟩ := h
    rw [seen, List.flatMap_cons]
    by_cases hclose : ')' ∈ p.defaultText
    · have hread : ∀ t, paramsIn (p.text ++ t) = p.entries := hbare.paramsIn_of_mem hclose
      rw [if_pos hclose, List.flatMap_nil, List.append_nil]
      cases items with
      | nil => rw [listText_singleton, hread]
      | cons q items => rw [listText_cons_cons, List.append_assoc, hread]
    · rw [if_neg hclose] at hlater ⊢
      cases items with
      | nil =>
        rw [listText_singleton, hbare.paramsIn_of_close hclose, seen, List.flatMap_nil,
          List.append_nil]
      | cons q items =>
        rw [listText_cons_cons, List.append_assoc, List.cons_append,
          hbare.paramsIn_of_comma hclose, ih hlater]

/-- A parameter with a comment leaves an entry that is no identifier, unless the list has ended in
front of it. -/
theorem exists_entry_of_seen {items : List Parameter} (h : ∃ p ∈ seen items, ¬ p.IsBare)
    (rest : Text) :
    ∃ entry ∈ paramsIn (listText items ++ ')' :: rest), ¬ IsIdentifier entry := by
  induction items with
  | nil =>
    obtain ⟨p, hp, -⟩ := h
    cases hp
  | cons p items ih =>
    by_cases hbare : p.IsBare
    · obtain ⟨q, hq, hnot⟩ := h
      have hlater : q ∈ if ')' ∈ p.defaultText then [] else seen items :=
        (List.mem_cons.1 hq).resolve_left fun heq => hnot (heq ▸ hbare)
      by_cases hclose : ')' ∈ p.defaultText
      · rw [if_pos hclose] at hlater
        cases hlater
      · rw [if_neg hclose] at hlater
        cases items with
        | nil => cases hlater
        | cons next items =>
          obtain ⟨entry, hentry, hidentifier⟩ := ih ⟨q, hlater, hnot⟩
          refine ⟨entry, ?_, hidentifier⟩
          rw [listText_cons_cons, List.append_assoc, List.cons_append,
            hbare.paramsIn_of_comma hclose]
          exact List.mem_append_right _ hentry
    · cases items with
      | nil =>
        rw [listText_singleton]
        exact p.exists_entry_of_not_bare hbare _
      | cons next items =>
        rw [listText_cons_cons, List.append_assoc]
        exact p.exists_entry_of_not_bare hbare _

/-- Without commas in defaults, the names of a list are read where nothing but blanks stands around
them and where no default but the last has a parenthesis that closes. -/
theorem paramsIn_eq_names_iff {items : List Parameter} (hcomma : ∀ p ∈ items, ',' ∉ p.defaultText)
    (rest : Text) :
    paramsIn (listText items ++ ')' :: rest) = items.map Parameter.name ↔
      (∀ p ∈ items, p.IsBare) ∧ ∀ p ∈ items.dropLast, ')' ∉ p.defaultText := by
  have hentries : ∀ p ∈ seen items, p.entries = [p.name] := fun p hp =>
    p.entries_of_not_mem (hcomma p ((prefix_seen items).mem hp))
  have hnames : (∀ p ∈ seen items, p.IsBare) →
      paramsIn (listText items ++ ')' :: rest) = (seen items).map Parameter.name := by
    intro hbare
    rw [paramsIn_listText hbare, List.map_eq_flatMap]
    exact List.flatMap_congr hentries
  rw [← seen_eq_self_iff]
  constructor
  · intro h
    have hbare : ∀ p ∈ seen items, p.IsBare := by
      by_contra hnot
      push Not at hnot
      obtain ⟨entry, hentry, hidentifier⟩ := exists_entry_of_seen hnot rest
      rw [h] at hentry
      obtain ⟨p, -, rfl⟩ := List.mem_map.1 hentry
      exact hidentifier p.identifier
    rw [hnames hbare] at h
    have hseen : seen items = items := by
      apply (prefix_seen items).eq_of_length
      rw [← List.length_map, h, List.length_map]
    rw [hseen] at hbare
    exact ⟨hbare, hseen⟩
  · rintro ⟨hbare, hseen⟩
    rw [hnames (by rwa [hseen]), hseen]

end ApiDocs
