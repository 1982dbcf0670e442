import ApiDocs.Code.Fill
import ApiDocs.Proofs.Code.Readers
/-!
# Blanks and comments in front of code

Blanks and ordinary comments in front of code show nothing of what is documented.  They are
skipped one after the other, whatever a comment holds: the marks of the other sort of comment,
quotes, or asterisks before the one that closes it.  Nothing but them is skipped, unless a comment
is never closed, which then takes the rest of the code with it.

Main definitions:

- `Trivia`: blanks and closed comments.
- `OpenComment`: comments that are never closed.
- `skipPasses`: the skipping as a loop, cut off after a number of passes.
- `SkipsTo`: what is left when everything of that sort is skipped.

Main results:

- `dropTrivia_append`: trivia before code is skipped.
- `skipPasses_eq`: the loop ends.
- `trivia_shows_nothing`: the signature of code, and a node that it completes.
-/

namespace ApiDocs

/-! ### Trivia -/

/-- Blanks, or an ordinary comment with what closes it. -/
inductive Trivia
  | blanks (run : Text) (blank : Blanks run)
  | line (body : Text) (one_line : '\n' ∉ body)
  | block (body : Text) (no_close : ¬ "*/".toList <:+: body)

/-- The spelling of blanks or a comment. -/
def Trivia.text : Trivia → Text
  | blanks run _ => run
  | line body _ => "//".toList ++ body ++ ['\n']
  | block body _ => "/*".toList ++ body ++ "*/".toList

/-- The text that blanks and comments spell one after the other. -/
def spellTrivia (pieces : List Trivia) : Text :=
  pieces.flatMap Trivia.text

theorem spellTrivia_cons (piece : Trivia) (pieces : List Trivia) :
    spellTrivia (piece :: pieces) = piece.text ++ spellTrivia pieces :=
  List.flatMap_cons

/-- A comment that is not closed. -/
inductive OpenComment : Text → Prop
  | line {body : Text} (one_line : '\n' ∉ body) : OpenComment ("//".toList ++ body)
  | block {body : Text} (no_close : ¬ "*/".toList <:+: body) : OpenComment ("/*".toList ++ body)

/-- Neither a blank nor the mark that opens a comment stands at the start of a text. -/
structure Bare (s : Text) : Prop where
  no_blank : Stops isBlank s
  no_line : ¬ "//".toList <+: s
  no_block : ¬ "/*".toList <+: s

/-! ### One comment -/

/-- A line comment is dropped up to its line feed, which stays. -/
theorem dropComment?_line (s : Text) :
    dropComment? ("//".toList ++ s) = some (s.dropWhile (· ≠ '\n')) := rfl

/-- A block comment is dropped with its closing mark, and with all of the text if nothing closes
it. -/
theorem dropComment?_block (s : Text) :
    dropComment? ("/*".toList ++ s)
      = some (((Text.breakOn? "*/".toList s).map Prod.snd).getD []) := rfl

/-- No comment is dropped where none starts. -/
theorem dropComment?_eq_none_iff {s : Text} :
    dropComment? s = none ↔ ¬ "//".toList <+: s ∧ ¬ "/*".toList <+: s := by
  constructor
  · intro h
    constructor
    · rintro ⟨t, rfl⟩
      rw [dropComment?_line] at h
      cases h
    · rintro ⟨t, rfl⟩
      rw [dropComment?_block] at h
      cases h
  · rintro ⟨hline, hblock⟩
    unfold dropComment?
    split
    next t => exact absurd (List.prefix_append _ t) hline
    next t => exact absurd (List.prefix_append _ t) hblock
    next => rfl

/-- A text that does not start with a blank starts with a comment, or with something else. -/
theorem bare_or_comment {s : Text} (h : Stops isBlank s) :
    Bare s ∨ OpenComment s ∨ ∃ (comment : Trivia) (t : Text),
      t.length < s.length ∧ s = comment.text ++ t := by
  by_cases hline : "//".toList <+: s
  · obtain ⟨u, rfl⟩ := hline
    by_cases hbreak : '\n' ∈ u
    · obtain ⟨body, t, rfl, hbody⟩ := List.eq_append_cons_of_mem hbreak
      refine .inr (.inr ⟨.line body hbody, t, ?_, by simp [Trivia.text]⟩)
      simp only [List.length_append, List.length_cons]
      omega
    · exact .inr (.inl (.line hbreak))
  by_cases hblock : "/*".toList <+: s
  · obtain ⟨u, rfl⟩ := hblock
    cases hclose : Text.breakOn? "*/".toList u with
    | none => exact .inr (.inl (.block (Text.breakOn?_eq_none_iff.1 hclose)))
    | some parts =>
      obtain ⟨body, t⟩ := parts
      have hbody := Text.not_infix_of_breakOn? (by decide) hclose
      obtain rfl := Text.eq_append_of_breakOn? hclose
      refine .inr (.inr ⟨.block body hbody, t, ?_, by simp [Trivia.text]⟩)
      simp only [List.length_append]
      have hmark : 0 < "/*".toList.length := by decide
      omega
  exact .inl ⟨h, hline, hblock⟩

/-! ### Skipping -/

/-- Behind a comment, the trivia go on. -/
theorem dropTrivia_of_comment {code rest : Text}
    (h : dropComment? (Text.trimStart code) = some rest) : dropTrivia code = dropTrivia rest := by
  rw [dropTrivia]
  split
  next found hfound =>
    rw [h, Option.some.injEq] at hfound
    rw [hfound]
  next hnone =>
    rw [h] at hnone
    cases hnone

/-- Where no comment follows the blanks, the trivia end behind the blanks. -/
theorem dropTrivia_of_none {code : Text} (h : dropComment? (Text.trimStart code) = none) :
    dropTrivia code = Text.trimStart code := by
  rw [dropTrivia]
  split
  next found hfound =>
    rw [h] at hfound
    cases hfound
  next => rfl

/-- Blanks before trivia are trivia. -/
theorem dropTrivia_blanks {run : Text} (h : Blanks run) (s : Text) :
    dropTrivia (run ++ s) = dropTrivia s := by
  rw [dropTrivia, dropTrivia, Text.trimStart_append_of_blank h]

/-- It does not matter whether the first blanks are trimmed before. -/
theorem dropTrivia_trimStart (s : Text) : dropTrivia (Text.trimStart s) = dropTrivia s := by
  rw [dropTrivia, Text.trimStart_trimStart, ← dropTrivia]

/-- Code that starts with neither a blank nor a comment has no trivia before it. -/
theorem dropTrivia_of_bare {s : Text} (h : Bare s) : dropTrivia s = s := by
  have htrim := Text.trimStart_eq_self h.no_blank
  rw [dropTrivia_of_none, htrim]
  rw [htrim]
  exact dropComment?_eq_none_iff.2 ⟨h.no_line, h.no_block⟩

/-- The mark of a comment is no blank. -/
theorem trimStart_slash (s : Text) : Text.trimStart ('/' :: s) = '/' :: s := by
  apply Text.trimStart_eq_self
  rintro c ⟨⟩
  decide

/-- A line comment is trivia, and the trivia go on at its line feed. -/
theorem dropTrivia_line (s : Text) :
    dropTrivia ("//".toList ++ s) = dropTrivia (s.dropWhile (· ≠ '\n')) :=
  dropTrivia_of_comment (congrArg dropComment? (trimStart_slash ('/' :: s)))

/-- A block comment is trivia, and the trivia go on behind its closing mark. -/
theorem dropTrivia_block (s : Text) :
    dropTrivia ("/*".toList ++ s)
      = dropTrivia (((Text.breakOn? "*/".toList s).map Prod.snd).getD []) :=
  dropTrivia_of_comment (congrArg dropComment? (trimStart_slash ('*' :: s)))

/-- One piece of trivia is dropped, whatever follows it. -/
theorem dropTrivia_text (piece : Trivia) (s : Text) :
    dropTrivia (piece.text ++ s) = dropTrivia s := by
  cases piece with
  | blanks run hrun => exact dropTrivia_blanks hrun s
  | line body hbody =>
    have htext : (Trivia.line body hbody).text ++ s = "//".toList ++ (body ++ '\n' :: s) := by
      simp [Trivia.text]
    -- the line break is left, and skipped as a blank
    rw [htext, dropTrivia_line, Text.dropWhile_ne hbody]
    exact @dropTrivia_blanks ['\n'] (List.forall_mem_singleton.2 (by decide)) s
  | block body hbody =>
    have htext : (Trivia.block body hbody).text ++ s
        = "/*".toList ++ (body ++ '*' :: '/' :: s) := by
      simp [Trivia.text]
    have hclose : Text.breakOn? "*/".toList (body ++ '*' :: '/' :: s) = some (body, s) :=
      Text.breakOn?_append_pair (by decide) s hbody
    rw [htext, dropTrivia_block, hclose]
    rfl

/-- Blanks and comments are skipped. -/
theorem dropTrivia_append (pieces : List Trivia) (s : Text) :
    dropTrivia (spellTrivia pieces ++ s) = dropTrivia s := by
  induction pieces with
  | nil => rfl
  | cons piece pieces ih => rw [spellTrivia_cons, List.append_assoc, dropTrivia_text, ih]

/-- A comment that nothing closes leaves no code. -/
theorem dropTrivia_of_open {s : Text} (h : OpenComment s) : dropTrivia s = [] := by
  have hnil : dropTrivia [] = [] := dropTrivia_of_none rfl
  cases h with
  | @line body hbody =>
    rw [dropTrivia_line, List.dropWhile_eq_nil_iff.2 (Text.forall_ne hbody), hnil]
  | @block body hbody =>
    rw [dropTrivia_block, Text.breakOn?_eq_none_iff.2 hbody]
    exact hnil

/-! ### The loop -/

/-- The skipping as a loop: each pass drops the blanks and then one comment, until there is none.
There is no result if the passes do not suffice. -/
def skipPasses : Nat → Text → Option Text
  | 0, _ => none
  | passes + 1, code =>
    match dropComment? (Text.trimStart code) with
    | some rest => skipPasses passes rest
    | none => some (Text.trimStart code)

/-- A pass that goes on has made the code shorter, so the loop ends. -/
theorem skipPasses_eq {passes : Nat} {code : Text} (h : code.length < passes) :
    skipPasses passes code = some (dropTrivia code) := by
  induction passes generalizing code with
  | zero => omega
  | succ passes ih =>
    cases hcomment : dropComment? (Text.trimStart code) with
    | none => rw [skipPasses, hcomment, dropTrivia_of_none hcomment]
    | some rest =>
      have hshorter := length_dropComment?_lt hcomment
      have htrim := Text.length_trimStart_le code
      rw [dropTrivia_of_comment hcomment, ← ih (by omega), skipPasses, hcomment]

/-! ### What is left -/

/-- What is left of some code when the blanks and comments at its start are skipped: the loop ends
with it, nothing of that sort is at its start, and nothing else was skipped.  A comment that is
never closed goes to the end of the code. -/
structure SkipsTo (code rest : Text) : Prop where
  halts : ∀ passes, code.length < passes → skipPasses passes code = some rest
  bare : Bare rest
  only_trivia : ∃ pieces : List Trivia, code = spellTrivia pieces ++ rest ∨
    rest = [] ∧ ∃ comment, OpenComment comment ∧ code = spellTrivia pieces ++ comment

/-- Where no code is left, neither a blank nor a comment starts. -/
theorem bare_nil : Bare [] := ⟨by rintro c ⟨⟩, by decide, by decide⟩

/-- Code is made of the trivia that are skipped and of what is left, which is nothing when a comment
is never closed. -/
theorem exists_trivia (code : Text) :
    Bare (dropTrivia code) ∧ ∃ pieces : List Trivia, code = spellTrivia pieces ++ dropTrivia code ∨
      dropTrivia code = [] ∧
        ∃ comment, OpenComment comment ∧ code = spellTrivia pieces ++ comment := by
  obtain ⟨run, hrun, hcode, hstart⟩ := trimStart_eq_iff.1 (Eq.refl (Text.trimStart code))
  have hspell : ∀ u pieces, Text.trimStart code = spellTrivia pieces ++ u →
      code = spellTrivia (.blanks run hrun :: pieces) ++ u := by
    intro u pieces hu
    rw [spellTrivia_cons, List.append_assoc, ← hu]
    exact hcode
  rw [← dropTrivia_trimStart]
  rcases bare_or_comment hstart with hbare | hopen | ⟨comment, t, hlt, ht⟩
  · rw [dropTrivia_of_bare hbare]
    exact ⟨hbare, [.blanks run hrun], .inl (hspell _ [] rfl)⟩
  · rw [dropTrivia_of_open hopen]
    exact ⟨bare_nil, [.blanks run hrun], .inr ⟨rfl, _, hopen, hspell _ [] rfl⟩⟩
  · have hle := Text.length_trimStart_le code
    obtain ⟨hbare, pieces, hpieces⟩ := exists_trivia t
    have hbehind : ∀ u, t = spellTrivia pieces ++ u →
        code = spellTrivia (.blanks run hrun :: comment :: pieces) ++ u := by
      intro u hu
      apply hspell
      rw [spellTrivia_cons, List.append_assoc, ← hu, ht]
    rw [ht, dropTrivia_text]
    refine ⟨hbare, .blanks run hrun :: comment :: pieces, ?_⟩
    rcases hpieces with hclosed | ⟨hnil, rest, hopen, hrest⟩
    · exact .inl (hbehind _ hclosed)
    · exact .inr ⟨hnil, rest, hopen, hbehind _ hrest⟩
termination_by code.length

/-- The passes over blanks and comments come to a stop, behind the trivia. -/
theorem skipsTo_dropTrivia (code : Text) : SkipsTo code (dropTrivia code) where
  halts _ h := skipPasses_eq h
  bare := (exists_trivia code).1
  only_trivia := (exists_trivia code).2

/-- Blanks and comments in front of code show nothing: what is left of the code, the signature that
it shows and the node that it completes are the same without them. -/
theorem trivia_shows_nothing (code : Text) :
    SkipsTo code (dropTrivia code) ∧ dropTrivia code <:+ code ∧
      dropTrivia (dropTrivia code) = dropTrivia code ∧
      ∀ pieces : List Trivia,
        dropTrivia (spellTrivia pieces ++ code) = dropTrivia code ∧
        Signature.ofCode (spellTrivia pieces ++ code) = Signature.ofCode code ∧
        ∀ node : DocNode,
          node.fillFromCode (spellTrivia pieces ++ code) = node.fillFromCode code := by
  have hskips := skipsTo_dropTrivia code
  refine ⟨hskips, ?_, dropTrivia_of_bare hskips.bare, fun pieces => ?_⟩
  · obtain ⟨pieces, hcode | ⟨hnil, -⟩⟩ := hskips.only_trivia
    · exact ⟨spellTrivia pieces, hcode.symm⟩
    · rw [hnil]
      exact List.nil_suffix
  · have hdrop := dropTrivia_append pieces code
    have hsig : Signature.ofCode (spellTrivia pieces ++ code) = Signature.ofCode code := by
      rw [Signature.ofCode, hdrop, ← Signature.ofCode]
    refine ⟨hdrop, hsig, fun node => ?_⟩
    rw [DocNode.fillFromCode, hsig, ← DocNode.fillFromCode]

end ApiDocs
