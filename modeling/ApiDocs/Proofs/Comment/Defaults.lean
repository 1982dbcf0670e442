import ApiDocs.Proofs.Comment.Decoration
import ApiDocs.Proofs.Comment.Recovery
import ApiDocs.Proofs.Comment.Reports
/-!
# Defaults of optional parameters

The brackets around the name of an optional parameter may hold a default behind an equals sign.
The parameter is read whatever the default is, and nothing is reported.  The default itself may
have blanks, quotes, braces and further equals signs.  Only a closing bracket in it is taken for the
one behind it: what follows is the description of the parameter, with the tail of the default in
front of the text that was meant.

Main definitions:

- `behindBracket`: what follows the first closing bracket of a text.

Main results:

- `wordAhead_of_tagLine`: a tag line is read without the blanks at its end.
- `ofLines_insert`, `node_of_param`: a comment with and without a line for a parameter.
- `readName_default`: a name with a default.
- `ofComment_of_default`: what a comment with an optional parameter says.
-/

namespace ApiDocs

/-- What follows the first closing bracket of a text. -/
def behindBracket (s : Text) : Text :=
  (s.dropWhile (· ≠ ']')).tail

/-! ### Tag lines with blanks at their end -/

/-- Blanks behind the text of a section are in none of its parts. -/
theorem SectionParts.read_trimEnd (hasType : Bool) (form : NameForm) (s : Text) :
    SectionParts.read hasType form (Text.trimEnd s) = SectionParts.read hasType form s := by
  have hblanks : ∀ blanks t : Text, (∀ c ∈ blanks, isBlank c = true) →
      SectionParts.read hasType form (t ++ blanks) = SectionParts.read hasType form t := by
    intro blanks
    induction blanks with
    | nil => simp
    | cons c blanks ih =>
      intro t h
      obtain ⟨hc, hrest⟩ := List.forall_mem_cons.1 h
      rw [List.append_cons, ih _ hrest, SectionParts.read_append_blank hc]
  obtain ⟨blanks, hs, hblank⟩ := Text.eq_trimEnd_append s
  calc SectionParts.read hasType form (Text.trimEnd s)
    _ = SectionParts.read hasType form (Text.trimEnd s ++ blanks) := (hblanks _ _ hblank).symm
    _ = SectionParts.read hasType form s := by rw [← hs]

variable {content word name value body : Text} {parts : List Text} {tag : Tag}

theorem wordAhead_of_tagLine (htag : Tag.ofWord? word = some tag)
    (h : Text.trimStart content = tagLine word parts) :
    WordAhead content word (Text.trimEnd (spaced parts)) := by
  refine ⟨?_, tagWord_letter htag, fun d hd => ?_⟩
  · rw [Text.trim, h, tagLine, ← List.cons_append]
    exact Text.trimEnd_append
      (fun d hd => isBlank_of_mem_tagWord htag (List.mem_of_getLast? hd)) _
  · obtain ⟨blanks, hparts, -⟩ := Text.eq_trimEnd_append (spaced parts)
    have hhead : (spaced parts).head? = some d := by
      rw [hparts, List.head?_append, hd]
      rfl
    rw [head?_spaced hhead]
    decide

/-! ### A comment with and without a line -/

variable {above below : List CommentLine} {rest : Text}
  {s : Section} {before after : List Section}

/-- In front of another tag line, or at the end of a comment, a tag line is a section of its own. -/
theorem ofLines_insert (above : List CommentLine) (l : CommentLine)
    (hword : WordAhead l.content word rest) (htag : Tag.ofWord? word = some tag)
    (hbelow : ∀ next, below.head? = some next → next.opening? ≠ none) :
    let before := (Comment.ofLines above).sections
    let after := (Comment.ofLines below).sections
    let comment := Comment.ofLines (above ++ l :: below)
    comment.sections = before ++ Section.ofLines ⟨tag, word, rest, l.number⟩ [] :: after ∧
      Comment.ofLines (above ++ below) = { comment with sections := before ++ after } := by
  have hnone : (cut CommentLine.opening? below).1 = [] := by
    rw [fst_cut]
    cases below with
    | nil => rfl
    | cons next below => exact List.takeWhile_cons_of_neg (by simp [hbelow next rfl])
  have hknown : l.unknownTag? = none := by simp [unknownTag?_of_word hword, htag]
  simp [Comment.ofLines, cut_append_cons above below (opening?_of_tag hword htag), hnone,
    cut_append_of_head? above hbelow, hknown]

/-- A line for a parameter adds it behind the parameters above, and nothing else. -/
theorem node_of_param (comment : Comment) (line : Nat)
    (hsections : comment.sections = before ++ s :: after) (htag : s.tag = .param)
    (hsound : (SectionParts.read true .bracketed s.text).defect = none) :
    let absent := ({ comment with sections := before ++ after } : Comment).node line
    let found := SectionParts.read true .bracketed s.text
    ∃ earlier later, absent.1.params = earlier ++ later ∧
      earlier.length = before.countP (·.tag = .param) ∧
      comment.node line = ({ absent.1 with
        params := earlier
          ++ { kind := .param, name := found.name, type := found.type, description := found.body
               isOptional := found.isOptional, line := s.line } :: later }, absent.2) := by
  intro absent found
  let kind := kindOf comment.sections
  have hread : s.read kind (before.any (·.claims kind)) = { fact := s.readParam.fact } := by
    simp [Section.read, htag, Section.readParam, hsound]
  have habsent : comment.besides line before s after = absent :=
    besides_eq_node comment line hsections (by rw [htag]; rfl) (by simp [htag])
  obtain ⟨earlier, later, hparams, hplace, hnode⟩ := nodeOf_insert_param comment kind line s
    (congrArg Reading.fact hread) (congrArg Reading.prose hread) before
    (readSections kind (before.any (·.claims kind) || s.claims kind) after)
  rw [← habsent]
  refine ⟨earlier, later, hparams, hplace, ?_⟩
  rw [comment.node_eq line hsections]
  exact Prod.ext hnode (by simp [Comment.besides, Comment.nodeOf, Section.report, kind, hread])

/-! ### Names with a default -/

/-- Whatever its default, a name in brackets is read, and what follows the first closing bracket is
the body. -/
theorem readName_default (value rest : Text) (h : isName name = true) :
    readName .bracketed (bracketed (name ++ '=' :: value) ++ rest)
      = some { name := some name, isOptional := true
               body := Text.trim (behindBracket (value ++ ']' :: rest)) } := by
  obtain ⟨inside, outside, hsplit, hinside⟩ := List.eq_append_cons_of_mem
    (List.mem_append_right value (List.mem_cons_self : ']' ∈ ']' :: rest))
  have hword : Text.trim ((name ++ '=' :: inside).takeWhile (· ≠ '=')) = name := by
    rw [Text.takeWhile_ne (not_mem_of_isName h (by decide)),
      Text.trim_of_unpadded (unpadded_of_isName h)]
  have hclose : ']' ∉ name ++ '=' :: inside := by
    simp [not_mem_of_isName h (by decide : (isNameChar ']' || ']' == '.') = false), hinside]
  have hread := readName_bracket outside hclose (by rwa [hword])
  rw [hword] at hread
  have hbehind : behindBracket (value ++ ']' :: rest) = outside := by
    rw [behindBracket, hsplit, Text.dropWhile_ne hinside, List.tail_cons]
  have hspelled : bracketed (name ++ '=' :: value) ++ rest
      = '[' :: (name ++ '=' :: inside ++ ']' :: outside) := by
    simp [bracketed, ← hsplit]
  rw [hspelled, hread, hbehind]

/-- The description is the text behind the brackets exactly when no bracket in the default comes
before theirs. -/
theorem trim_behindBracket_eq_iff :
    Text.trim (behindBracket (value ++ ']' :: ' ' :: body)) = Text.trim body ↔ ']' ∉ value := by
  constructor
  · intro heq hmem
    obtain ⟨inside, outside, rfl, hinside⟩ := List.eq_append_cons_of_mem hmem
    rw [List.append_assoc, List.cons_append, behindBracket, Text.dropWhile_ne hinside,
      List.tail_cons] at heq
    -- the bracket behind the default stays in the description
    have hcount := congrArg (List.count ']') heq
    rw [Text.count_trim (by decide), Text.count_trim (by decide), List.count_append,
      List.count_cons_self, List.count_cons_of_ne (by decide)] at hcount
    omega
  · intro hnone
    rw [behindBracket, Text.dropWhile_ne hnone, List.tail_cons, Text.trim_cons_blank (by decide)]

/-! ### Optional parameters with a default -/

/-- The parts of a parameter with a default, with or without a type in front of it. -/
theorem read_default {type : Option Text} (value body : Text)
    (htype : ∀ t ∈ type, BalancedBraces t) (hname : isName name = true) :
    SectionParts.read true .bracketed
        (spaced (type.toList.map braced ++ [bracketed (name ++ '=' :: value), body]))
      = { type := type.map Text.trim, name := some name, isOptional := true
          body := Text.trim (behindBracket (value ++ ']' :: ' ' :: body)) } := by
  let word := bracketed (name ++ '=' :: value)
  have hbody : spaced [body] = ' ' :: body := List.append_nil _
  have hstart : Text.trimStart (spaced [word, body]) = word ++ ' ' :: body := by
    have h := trimStart_spaced [body] [] (List.cons_ne_nil _ _ : word ≠ []) (unpadded_bracketed _)
    rwa [List.append_nil, List.append_nil, hbody] at h
  have hopen : (Text.trimStart (spaced [word, body])).head? ≠ some '{' := by
    rw [hstart]
    simp [word, bracketed]
  have hread := readName_default value (' ' :: body) hname
  rw [← hstart] at hread
  rw [spaced_append, SectionParts.read_type htype (fun _ => hopen) hread]

/-- A line of a comment for an optional parameter with a default, in front of another tag line or
at the end, adds the parameter and no report.  The name, the type and the place of the parameter are
those of the line.  Its description is the text of the line exactly when the default has no closing
bracket; otherwise it starts behind the first of them. -/
theorem ofComment_of_default {line number : Nat} {text : Text} {type : Option Text}
    (hlines : commentLines line text = above ++ ⟨number, content⟩ :: below)
    (hcontent : Text.trimStart content = tagLine "param".toList
      (type.toList.map braced ++ [bracketed (name ++ '=' :: value), body]))
    (htype : ∀ t ∈ type, BalancedBraces t) (hname : isName name = true)
    (hbelow : ∀ next, below.head? = some next → next.opening? ≠ none) :
    let found := DocNode.ofComment line text
    let absent := (Comment.ofLines (above ++ below)).node line
    let description := Text.trim (behindBracket (value ++ ']' :: ' ' :: body))
    (∃ earlier later, absent.1.params = earlier ++ later ∧
      earlier.length = (Comment.ofLines above).sections.countP (·.tag = .param) ∧
      found = ({ absent.1 with
        params := earlier
          ++ { kind := .param, name := some name, type := type.map Text.trim
               description := description, isOptional := true, line := number } :: later },
        absent.2)) ∧
      (description = Text.trim body ↔ ']' ∉ value) := by
  intro found absent description
  refine ⟨?_, trim_behindBracket_eq_iff⟩
  have htag : Tag.ofWord? "param".toList = some .param := rfl
  obtain ⟨hsections, habsent⟩ := ofLines_insert above ⟨number, content⟩
    (wordAhead_of_tagLine htag hcontent) htag hbelow
  have hparts := read_default value body htype hname
  rw [← SectionParts.read_trimEnd, ← SectionParts.read_trimStart,
    ← List.append_nil (Text.trimStart _)] at hparts
  have hfound : found = (Comment.ofLines (above ++ ⟨number, content⟩ :: below)).node line := by
    rw [← hlines]
    rfl
  have hnode := node_of_param _ line hsections rfl (congrArg SectionParts.defect hparts)
  rw [← habsent, Section.ofLines, List.flatMap_nil, hparts, ← hfound] at hnode
  exact hnode

/-- A default with blanks, quotes, a brace and an equals sign of its own. -/
theorem ofComment_of_default_of_quotes :
    let text :=
      "Fits it.\n * @param box\n * @param \x7bString\x7d [a=\" = \x7b\"] Size \n * @return".toList
    let above : List CommentLine := [⟨1, "Fits it.".toList⟩, ⟨2, "@param box".toList⟩]
    let content := "@param \x7bString\x7d [a=\" = \x7b\"] Size ".toList
    let below : List CommentLine := [⟨4, "@return".toList⟩]
    let found := DocNode.ofComment 1 text
    commentLines 1 text = above ++ ⟨3, content⟩ :: below ∧
      Text.trimStart content = tagLine "param".toList
        ((some "String".toList).toList.map braced
          ++ [bracketed ("a".toList ++ '=' :: "\" = \x7b\"".toList), "Size ".toList]) ∧
      (∀ t ∈ some "String".toList, BalancedBraces t) ∧ isName "a".toList = true ∧
      (∀ next, below.head? = some next → next.opening? ≠ none) ∧
      ∃ earlier later, earlier.length = 1 ∧
        found.1.params = earlier
          ++ { kind := .param, name := some "a".toList, type := some "String".toList
               description := "Size".toList, isOptional := true, line := 3 } :: later ∧
        found.2 = [] := by
  intro text above content below found
  have hlines : commentLines 1 text = above ++ ⟨3, content⟩ :: below := by decide +kernel
  have hcontent : Text.trimStart content = tagLine "param".toList
      ((some "String".toList).toList.map braced
        ++ [bracketed ("a".toList ++ '=' :: "\" = \x7b\"".toList), "Size ".toList]) := by
    decide +kernel
  have htype : ∀ t ∈ some "String".toList, BalancedBraces t := by
    rintro t ⟨⟩
    decide
  have hbelow : ∀ next, below.head? = some next → next.opening? ≠ none := by
    rintro next ⟨⟩
    decide +kernel
  obtain ⟨⟨earlier, later, -, hplace, hfound⟩, hwhole⟩ :=
    ofComment_of_default hlines hcontent htype (by decide) hbelow
  have hdescription := hwhole.2 (by decide)
  refine ⟨hlines, hcontent, htype, by decide, hbelow, earlier, later, ?_, ?_, by decide +kernel⟩
  · rw [hplace]
    decide +kernel
  · rw [congrArg (fun node => node.1.params) hfound]
    dsimp only
    rw [hdescription]
    rfl

/-- Brackets in a default, though each is closed, leave its tail in the description. -/
theorem bracketed_default_is_cut :
    let value := "[1, 2]".toList
    let text := tagLine "param".toList [bracketed ("n".toList ++ '=' :: value), "Numbers".toList]
    let found := DocNode.ofComment 1 text
    (∀ p ∈ value.inits, p.count ']' ≤ p.count '[') ∧ value.count ']' = value.count '[' ∧
      text = "@param [n=[1, 2]] Numbers".toList ∧
      found.1.params.map (fun p => (p.name, p.isOptional, p.description))
        = [(some "n".toList, true, "] Numbers".toList)] ∧ found.2 = [] := by
  intro value text found
  exact ⟨by decide +kernel, by decide, by decide, by decide +kernel, by decide +kernel⟩

end ApiDocs
