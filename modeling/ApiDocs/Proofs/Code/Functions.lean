import ApiDocs.Code.Fill
import ApiDocs.Proofs.Code.Forms
import ApiDocs.Proofs.Code.Parameters
/-!
# Functions in code

A function may be declared, assigned to a name that is declared or not, or be a property with a
plain or a quoted key, and it may have a name of its own behind its word.  All of these show the
same: the name, the type and the parameters that are read from behind the parenthesis.  Plain
parameters are read as they are meant.  Brackets and comments in their list are not understood.

Main definitions:

- `OpensFunction`: how a function starts, up to its parameters.
- `Writes`: the ways to write a name.
- `Parameter.IsPlain`: parameters without comments, and without commas and closing parentheses in
  their defaults.

Main results:

- `ofCode_of_opensFunction`: the signature of a function.
- `functions_read_alike`: functions with plain parameters.
- `params_of_function`: functions with any parameters.
-/

namespace ApiDocs

/-! ### The signature of a function -/

namespace Form

/-- The forms of functions. -/
def functions : List Form :=
  [declaration, assignedFunction, functionProperty]

/-- At most one form of functions is found, and it is tried before those of other values. -/
theorem read?_of_function {f : Form} (hf : f ∈ functions) {code : Text} {found : Text × Text}
    (h : f.find? code = some found) :
    Signature.read? code = some (Signature.ofFunction found) := by
  have hopening : ∀ f ∈ functions, ∀ f' ∈ functions, f.opening = f'.opening → f = f' := by decide
  have hsame : ∀ f' ∈ functions, ∀ found', f'.find? code = some found' → found' = found := by
    intro f' hf' found' h'
    obtain ⟨hstart, -⟩ := exists_start h' h
    rw [hopening f' hf' f hf hstart, h] at h'
    exact (Option.some.inj h').symm
  have hfirst := findSome?_eq_some_of_mem hf h hsame
  simp only [functions, findSome?_cons_orElse, List.findSome?_nil, Option.orElse_eq_orElse,
    Option.orElse_eq_or, Option.or_none, find?] at hfirst
  simp only [Signature.read?, Option.orElse_eq_orElse, Option.orElse_eq_or, hfirst,
    Option.map_some, Option.some_or]

end Form

/-- How a function starts, up to the parenthesis in front of its parameters, with its name as it is
written there. -/
inductive OpensFunction : Text → Text → Prop
  | declared {blanks name after : Text} (hne : blanks ≠ []) (hblanks : Blanks blanks)
      (hname : IsIdentifier name) (hafter : Blanks after) :
      OpensFunction ("function".toList ++ (blanks ++ (name ++ after))) name
  | assigned {declarator name before after between : Text} (hdeclarator : IsDeclarator declarator)
      (hname : IsDotted name) (hbefore : Blanks before) (hafter : Blanks after)
      (hword : Stops isWordChar between) (hbetween : '(' ∉ between) :
      OpensFunction (declarator ++ (name ++ (before ++ '=' :: (after ++
        ("function".toList ++ between))))) name
  | property {key before after between : Text} (hkey : IsKey key) (hbefore : Blanks before)
      (hafter : Blanks after) (hword : Stops isWordChar between) (hbetween : '(' ∉ between) :
      OpensFunction (key ++ (before ++ ':' :: (after ++ ("function".toList ++ between)))) key

/-- Each head of a function is spelled by one of the forms of functions. -/
theorem OpensFunction.exists_form {head written params : Text} (h : OpensFunction head written)
    (hparams : ')' ∉ params) (rest : Text) :
    ∃ f ∈ Form.functions, f.Spells (head ++ '(' :: (params ++ ')' :: rest)) written params := by
  have hvalue : ∀ s, Stops isBlank ("function".toList ++ s) := fun s => stops_cons (by decide) _
  cases h with
  | declared hne hblanks hname hafter =>
    have hform := @Declares.intro _ _ _ _ rest hne hblanks hname hafter hparams
    refine ⟨.declaration, by decide, .declaration ?_⟩
    simpa only [List.append_assoc, List.cons_append] using hform
  | assigned hdeclarator hname hbefore hafter hword hbetween =>
    have hfunction := @StartsFunction.intro _ _ rest hword hbetween hparams
    have hform := Form.Spells.assignedFunction
      (.intro hdeclarator hname hbefore hafter (hvalue _)) hfunction
    refine ⟨.assignedFunction, by decide, ?_⟩
    simpa only [List.append_assoc, List.cons_append] using hform
  | property hkey hbefore hafter hword hbetween =>
    have hfunction := @StartsFunction.intro _ _ rest hword hbetween hparams
    have hform := Form.Spells.functionProperty (.intro hkey hbefore hafter (hvalue _)) hfunction
    refine ⟨.functionProperty, by decide, ?_⟩
    simpa only [List.append_assoc, List.cons_append] using hform

/-- Code that starts with neither a blank nor a slash has no trivia before it. -/
theorem bare_cons {c : Char} (hblank : isBlank c = false) (hslash : c ≠ '/') (s : Text) :
    Bare (c :: s) where
  no_blank := stops_cons hblank s
  no_line h := hslash (List.cons_prefix_cons.1 h).1.symm
  no_block h := hslash (List.cons_prefix_cons.1 h).1.symm

/-- Code that starts with a name has no trivia before it. -/
theorem bare_of_isNameChar {c : Char} (h : isNameChar c = true) (s : Text) : Bare (c :: s) := by
  refine bare_cons (isBlank_of_isNameChar h) ?_ s
  rintro rfl
  revert h
  decide +kernel

/-- No trivia stand in front of a name that is assigned, declared or not. -/
theorem bare_assigned {declarator name : Text} (hdeclarator : IsDeclarator declarator)
    (hname : IsDotted name) (s : Text) : Bare (declarator ++ (name ++ s)) := by
  cases hdeclarator with
  | none =>
    obtain ⟨c, t, rfl, hc⟩ := hname.exists_cons
    exact bare_of_isNameChar hc _
  | word hword =>
    obtain ⟨c, t, rfl, hc⟩ := (isIdentifier_of_declaringWords hword).exists_cons
    exact bare_of_isNameChar hc _

/-- No trivia stand in front of a key. -/
theorem bare_key {key : Text} (h : IsKey key) (s : Text) : Bare (key ++ s) := by
  cases h with
  | identifier hidentifier =>
    obtain ⟨c, t, rfl, hc⟩ := hidentifier.exists_cons
    exact bare_of_isNameChar hc _
  | quoted hquote =>
    rcases hquote with rfl | rfl
    · exact bare_cons (by decide) (by decide) _
    · exact bare_cons (by decide) (by decide) _

/-- No trivia stand in front of a function. -/
theorem OpensFunction.bare {head written : Text} (h : OpensFunction head written) (s : Text) :
    Bare (head ++ s) := by
  cases h with
  | declared => exact bare_of_isNameChar (by decide +kernel) _
  | assigned hdeclarator hname =>
    rw [List.append_assoc, List.append_assoc]
    exact bare_assigned hdeclarator hname _
  | property hkey =>
    rw [List.append_assoc]
    exact bare_key hkey _

/-- A function shows its name, and the parameters that are read behind its parenthesis. -/
theorem ofCode_of_opensFunction {head written : Text} (h : OpensFunction head written) {s : Text}
    (hclose : ')' ∈ s) :
    Signature.ofCode (head ++ '(' :: s)
      = { name := some (dropQuotes written), type := some "Function".toList,
          params := paramsIn s } := by
  obtain ⟨params, rest, rfl, hparams⟩ := List.eq_append_cons_of_mem hclose
  obtain ⟨f, hf, hspells⟩ := h.exists_form hparams rest
  rw [Signature.ofCode, dropTrivia_of_bare (h.bare _),
    Form.read?_of_function hf (Form.find?_eq_some_iff.2 hspells), paramsIn,
    Text.takeWhile_ne hparams]
  rfl

/-! ### Functions with plain parameters -/

/-- The ways to write a name: as it is, or between two quotes of one sort. -/
inductive Writes : Text → Text → Prop
  | plain {name : Text} (hdouble : '"' ∉ name) (hsingle : '\'' ∉ name) : Writes name name
  | quoted {quote : Char} {name : Text} (hquote : quote = '"' ∨ quote = '\'')
      (hdouble : '"' ∉ name) (hsingle : '\'' ∉ name) : Writes (quote :: name ++ [quote]) name

/-- A name with dots is written as it is. -/
theorem IsDotted.writes {name : Text} (h : IsDotted name) : Writes name name :=
  .plain (not_mem_of_forall h.isDottedChar (by decide +kernel))
    (not_mem_of_forall h.isDottedChar (by decide +kernel))

/-- No quote stands at an end of a text. -/
structure Unquoted (s : Text) : Prop where
  first : ∀ c, s.head? = some c → c ≠ '"' ∧ c ≠ '\''
  last : ∀ c, s.getLast? = some c → c ≠ '"' ∧ c ≠ '\''

/-- A text without quotes has none at its ends. -/
theorem unquoted_of_not_mem {s : Text} (hdouble : '"' ∉ s) (hsingle : '\'' ∉ s) : Unquoted s := by
  have hne : ∀ c ∈ s, c ≠ '"' ∧ c ≠ '\'' := fun c hc =>
    ⟨fun heq => hdouble (heq ▸ hc), fun heq => hsingle (heq ▸ hc)⟩
  exact ⟨fun c hc => hne c (List.mem_of_mem_head? hc), fun c hc => hne c (List.mem_of_getLast? hc)⟩

/-- Quotes around a text are dropped up to its ends. -/
theorem dropQuotes_append {opening name closing : Text} (hname : Unquoted name)
    (hopening : ∀ c ∈ opening, c = '"' ∨ c = '\'') (hclosing : ∀ c ∈ closing, c = '"' ∨ c = '\'') :
    dropQuotes (opening ++ (name ++ closing)) = name := by
  have hquote : ∀ {s : Text}, (∀ c ∈ s, c = '"' ∨ c = '\'') →
      ∀ c ∈ s, (c == '"' || c == '\'') = true := by
    intro s hs c hc
    simpa using hs c hc
  have hend : ∀ c, name.reverse.head? = some c → (c == '"' || c == '\'') = false := by
    intro c hc
    rw [List.head?_reverse] at hc
    simpa using hname.last c hc
  unfold dropQuotes
  dsimp only
  rw [List.dropWhile_append_of_pos (hquote hopening)]
  cases name with
  | nil => rw [List.nil_append, List.dropWhile_eq_nil_iff.2 (hquote hclosing)]; rfl
  | cons c t =>
    have hclosed : ∀ d ∈ closing.reverse, (d == '"' || d == '\'') = true := fun d hd =>
      hquote hclosing d (List.mem_reverse.1 hd)
    rw [List.cons_append, List.dropWhile_cons_of_neg (by simpa using hname.first c rfl),
      ← List.cons_append, List.reverse_append, Text.dropWhile_run hclosed hend,
      List.reverse_reverse]

/-- A name is shown without the quotes around it, as long as it has none at its own ends. -/
theorem dropQuotes_of_unquoted {name : Text} (h : Unquoted name) : dropQuotes name = name := by
  have hdrop := @dropQuotes_append [] name [] h (List.forall_mem_nil _) (List.forall_mem_nil _)
  rwa [List.nil_append, List.append_nil] at hdrop

/-- The quotes around a name are dropped. -/
theorem dropQuotes_quoted {quote : Char} {name : Text} (hquote : quote = '"' ∨ quote = '\'')
    (h : Unquoted name) : dropQuotes (quote :: name ++ [quote]) = name :=
  dropQuotes_append h (List.forall_mem_singleton.2 hquote) (List.forall_mem_singleton.2 hquote)

/-- However a name is written, it is read back. -/
theorem dropQuotes_of_writes {written name : Text} (h : Writes written name) :
    dropQuotes written = name := by
  cases h with
  | plain hdouble hsingle => exact dropQuotes_of_unquoted (unquoted_of_not_mem hdouble hsingle)
  | quoted hquote hdouble hsingle =>
    exact dropQuotes_quoted hquote (unquoted_of_not_mem hdouble hsingle)

/-- A parameter without comments, and with neither a comma nor a closing parenthesis in its
default. -/
structure Parameter.IsPlain (p : Parameter) : Prop extends p.IsBare where
  no_comma : ',' ∉ p.defaultText
  no_close : ')' ∉ p.defaultText

instance (p : Parameter) : Decidable p.IsPlain :=
  decidable_of_iff (p.IsBare ∧ ',' ∉ p.defaultText ∧ ')' ∉ p.defaultText)
    ⟨fun h => ⟨h.1, h.2.1, h.2.2⟩, fun h => ⟨h.toIsBare, h.no_comma, h.no_close⟩⟩

/-- What code adds to a method or an event that has no name and no parameters. -/
theorem DocNode.fill_of_called {node : DocNode}
    (hkind : node.kind = .member .method ∨ node.kind = .member .event) (hname : node.name = none)
    (hparams : node.params = []) (sig : Signature) :
    (node.fill sig).name = sig.name.map (Text.lastField '.') ∧
      (node.fill sig).params
        = sig.params.map fun p => { kind := .param, name := some p, line := node.line } := by
  have hcalled : node.kind.isCalled = true ∧ node.kind ≠ .cls := by
    rcases hkind with hkind | hkind
    · rw [hkind]
      decide
    · rw [hkind]
      decide
  have hfull : DocNode.nameFromCode node.kind = Text.lastField '.' :=
    funext fun _ => if_neg hcalled.2
  constructor
  · change (node.name <|> sig.name.map (DocNode.nameFromCode node.kind)) = _
    rw [hname, hfull]
    rfl
  · have hopen : (node.kind.isCalled = true ∧ node.params.isEmpty = true) :=
      ⟨hcalled.1, List.isEmpty_iff.2 hparams⟩
    exact if_pos hopen

/-- However a function is spelled, it shows its name, the type of a function and its parameters.  A
method or an event without a name and without parameters gets the last part of the name, and one
parameter for each of the function. -/
theorem functions_read_alike {head written name : Text} (hhead : OpensFunction head written)
    (hname : Writes written name) {items : List Parameter} (hitems : ∀ p ∈ items, p.IsPlain)
    (rest : Text) :
    let code := head ++ '(' :: (listText items ++ ')' :: rest)
    Signature.ofCode code
        = { name := some name, type := some "Function".toList,
            params := items.map Parameter.name } ∧
      ∀ node : DocNode, node.kind = .member .method ∨ node.kind = .member .event →
        node.name = none → node.params = [] →
        (node.fillFromCode code).name = (Text.fields '.' name).getLast? ∧
        (node.fillFromCode code).params
          = items.map fun p => { kind := .param, name := some p.name, line := node.line } := by
  intro code
  have hparams : paramsIn (listText items ++ ')' :: rest) = items.map Parameter.name :=
    (paramsIn_eq_names_iff (fun p hp => (hitems p hp).no_comma) rest).2
      ⟨fun p hp => (hitems p hp).toIsBare,
        fun p hp => (hitems p (List.mem_of_mem_dropLast hp)).no_close⟩
  have hcode : Signature.ofCode code
      = { name := some name, type := some "Function".toList,
          params := items.map Parameter.name } := by
    rw [ofCode_of_opensFunction hhead (List.mem_append_right _ List.mem_cons_self), hparams,
      dropQuotes_of_writes hname]
  refine ⟨hcode, fun node hkind hnone hnil => ?_⟩
  obtain ⟨hfilled, hadded⟩ := DocNode.fill_of_called hkind hnone hnil (Signature.ofCode code)
  rw [DocNode.fillFromCode, hfilled, hadded, hcode, Text.getLast?_fields, List.map_map]
  exact ⟨rfl, rfl⟩

/-- A function with a default and further parameters, assigned to a name with a dot. -/
theorem functions_read_alike_of_assigned :
    let plain : List Parameter :=
      [{ name := "x".toList, identifier := by decide +kernel },
        { before := [.blanks [' '] blanks_space], name := "y".toList,
          after := [.blanks [' '] blanks_space], value := some " 2".toList,
          identifier := by decide +kernel },
        { before := [.blanks [' '] blanks_space], dots := some [], name := "zs".toList,
          identifier := by decide +kernel }]
    let code := "var a.b = function g(x, y = 2, ...zs) ".toList
    let method : DocNode := { kind := .member .method, line := 3 }
    code = "var a.b = function g".toList ++ '(' :: (listText plain ++ ')' :: [' ']) ∧
      (∀ p ∈ plain, p.IsPlain) ∧
      Signature.ofCode code
        = { name := some "a.b".toList, type := some "Function".toList,
            params := ["x".toList, "y".toList, "zs".toList] } ∧
      (method.fillFromCode code).name = some "b".toList ∧
      (method.fillFromCode code).params.map DocNode.name
        = [some "x".toList, some "y".toList, some "zs".toList] := by
  intro plain code method
  have hcode : code = "var a.b = function g".toList ++ '(' :: (listText plain ++ ')' :: [' ']) := by
    decide
  have hfirst : IsIdentifier "a".toList := by decide +kernel
  have hsecond : IsIdentifier "b".toList := by decide +kernel
  have hdotted : IsDotted "a.b".toList := .dot hfirst (.identifier hsecond)
  have hhead : OpensFunction "var a.b = function g".toList "a.b".toList :=
    @OpensFunction.assigned ("var".toList ++ [' ']) _ [' '] [' '] " g".toList
      (.word (by decide) (by decide) blanks_space) hdotted blanks_space blanks_space
      (stops_cons (by decide +kernel) _) (by decide)
  have hplain : ∀ p ∈ plain, p.IsPlain := by decide +kernel
  obtain ⟨hsignature, hnode⟩ := functions_read_alike hhead hdotted.writes hplain [' ']
  obtain ⟨hname, hparams⟩ := hnode method (.inl rfl) rfl rfl
  rw [← hcode] at hsignature hname hparams
  refine ⟨hcode, hplain, hsignature, ?_, ?_⟩
  · rw [hname]
    decide
  · rw [hparams]
    rfl

/-! ### Functions with any parameters -/

/-- From a function, the parameters that start in front of the first closing parenthesis are read,
each with the pieces of its default, if no comments are among them.  A comment, or a blank behind
dots, leaves an entry that is no identifier.  So where defaults hold no commas, the entries are the
names of the parameters just if nothing but blanks stands around these, and no closing parenthesis
in a default but the last. -/
theorem params_of_function {head written : Text} (h : OpensFunction head written)
    (items : List Parameter) (rest : Text) :
    let params := (Signature.ofCode (head ++ '(' :: (listText items ++ ')' :: rest))).params
    ((∀ p ∈ seen items, p.IsBare) → params = (seen items).flatMap Parameter.entries) ∧
      ((∃ p ∈ seen items, ¬ p.IsBare) → ∃ entry ∈ params, ¬ IsIdentifier entry) ∧
      ((∀ p ∈ items, ',' ∉ p.defaultText) →
        (params = items.map Parameter.name ↔
          (∀ p ∈ items, p.IsBare) ∧ ∀ p ∈ items.dropLast, ')' ∉ p.defaultText)) := by
  intro params
  have hparams : params = paramsIn (listText items ++ ')' :: rest) :=
    congrArg Signature.params
      (ofCode_of_opensFunction h (List.mem_append_right _ List.mem_cons_self))
  rw [hparams]
  exact ⟨fun hbare => paramsIn_listText hbare rest, fun hseen => exists_entry_of_seen hseen rest,
    fun hcomma => paramsIn_eq_names_iff hcomma rest⟩

/-- A call in a default ends the list at its parenthesis, and a comment behind a name stays in the
entry. -/
theorem params_of_function_cut :
    let call : List Parameter :=
      [{ name := "a".toList, after := [.blanks [' '] blanks_space], value := some " g(1)".toList,
          identifier := by decide +kernel },
        { before := [.blanks [' '] blanks_space], name := "b".toList,
          identifier := by decide +kernel }]
    let comment : List Parameter :=
      [{ name := "a".toList, after := [.blanks [' '] blanks_space, .block "1st".toList (by decide)],
          identifier := by decide +kernel }]
    "a = g(1), b".toList = listText call ∧ "a /*1st*/".toList = listText comment ∧
      (Signature.ofCode "function f(a = g(1), b)".toList).params = ["a".toList] ∧
      ∃ entry ∈ (Signature.ofCode "function f(a /*1st*/)".toList).params,
        ¬ IsIdentifier entry := by
  intro call comment
  have hname : IsIdentifier "f".toList := by decide +kernel
  have hhead : OpensFunction "function f".toList "f".toList :=
    @OpensFunction.declared [' '] _ [] (by decide) blanks_space hname (List.forall_mem_nil _)
  have hcall : "function f(a = g(1), b)".toList
      = "function f".toList ++ '(' :: (listText call ++ ')' :: []) := by
    decide
  have hcomment : "function f(a /*1st*/)".toList
      = "function f".toList ++ '(' :: (listText comment ++ ')' :: []) := by
    decide
  refine ⟨by decide, by decide, ?_, ?_⟩
  · have hentries : (seen call).flatMap Parameter.entries = ["a".toList] := by decide +kernel
    rw [hcall, (params_of_function hhead call []).1 (by decide +kernel), hentries]
  · have hmet : ∃ p ∈ seen comment, ¬ p.IsBare := by decide +kernel
    rw [hcomment]
    exact (params_of_function hhead comment []).2.1 hmet

/-- Whether the brackets of a text close in their order, with each comma between some of them, and
neither a quote nor a slash stands in it.  What closes the brackets that are open is awaited. -/
def closesBrackets : Text → Text → Bool
  | awaited, [] => awaited.isEmpty
  | awaited, '(' :: s => closesBrackets (')' :: awaited) s
  | awaited, '[' :: s => closesBrackets (']' :: awaited) s
  | awaited, '{' :: s => closesBrackets ('}' :: awaited) s
  | awaited, c :: s =>
    if c ∈ [')', ']', '}'] then awaited.head? = some c && closesBrackets awaited.tail s
    else if c = ',' then !awaited.isEmpty && closesBrackets awaited s
    else c ∉ ['"', '\'', '`', '/'] && closesBrackets awaited s

/-- Whether trivia may stand between any two words of a line. -/
def Trivia.isInline : Trivia → Bool
  | line .. => false
  | blanks .. | block .. => true

/-- A parameter in the full syntax of a list: blanks and block comments stand around the name, and
the brackets of its default close. -/
def Parameter.isWellFormed (p : Parameter) : Bool :=
  (p.before ++ p.dots.getD [] ++ p.after).all Trivia.isInline && p.value.all (closesBrackets [])

/-- A comma between the brackets of a default starts an entry of its own. -/
theorem bracketed_comma_adds_entry :
    let items : List Parameter :=
      [{ name := "a".toList, after := [.blanks [' '] blanks_space], value := some " [1, 2]".toList,
          identifier := by decide +kernel },
        { before := [.blanks [' '] blanks_space], name := "b".toList,
          identifier := by decide +kernel }]
    let code := "function f(a = [1, 2], b) \x7b\x7d".toList
    code = "function f".toList ++ '(' :: (listText items ++ ')' :: " \x7b\x7d".toList) ∧
      OpensFunction "function f".toList "f".toList ∧
      (∀ p ∈ items, p.isWellFormed = true) ∧
      items.map Parameter.name = ["a".toList, "b".toList] ∧
      (Signature.ofCode code).params = ["a".toList, "2]".toList, "b".toList] := by
  intro items code
  have hcode : code
      = "function f".toList ++ '(' :: (listText items ++ ')' :: " \x7b\x7d".toList) := by
    decide
  have hname : IsIdentifier "f".toList := by decide +kernel
  have hhead : OpensFunction "function f".toList "f".toList :=
    @OpensFunction.declared [' '] _ [] (by decide) blanks_space hname (List.forall_mem_nil _)
  refine ⟨hcode, hhead, by decide, rfl, ?_⟩
  rw [hcode, ofCode_of_opensFunction hhead (List.mem_append_right _ List.mem_cons_self)]
  decide +kernel

end ApiDocs
