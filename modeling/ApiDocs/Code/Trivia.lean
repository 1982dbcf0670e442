import ApiDocs.Text.Blank
/-!
# Blanks and comments before code

The code after a doc comment may start with blanks and ordinary comments.  They say nothing
about what follows them and are skipped.

Main definitions:

- `dropTrivia`: code without the blanks and comments at its start.
-/

namespace ApiDocs

/-- What follows the comment at the start of some code, if it starts with one.  A line
comment leaves its line break, and a block comment that is not closed leaves nothing. -/
def dropComment? : Text → Option Text
  | '/' :: '/' :: s => some (s.dropWhile (· ≠ '\n'))
  | '/' :: '*' :: s => some (((Text.breakOn? "*/".toList s).map Prod.snd).getD [])
  | _ => none

/-- A comment takes at least one character, so reading on from behind it comes to an end. -/
theorem length_dropComment?_lt {s rest : Text} (h : dropComment? s = some rest) :
    rest.length < s.length := by
  unfold dropComment? at h
  split at h
  · next s =>
    have hle := (List.dropWhile_sublist (l := s) (· ≠ '\n')).length_le
    simp only [Option.some.injEq] at h
    subst h
    simp only [List.length_cons]
    omega
  · next s =>
    simp only [Option.some.injEq] at h
    subst h
    cases hb : Text.breakOn? "*/".toList s with
    | none => simp
    | some parts =>
      have := congrArg List.length (Text.eq_append_of_breakOn? hb)
      simp only [List.length_append] at this
      simp only [Option.map_some, Option.getD_some, List.length_cons]
      omega
  · simp at h

/-- Code without the blanks and comments at its start. -/
def dropTrivia (code : Text) : Text :=
  match _h : dropComment? (Text.trimStart code) with
  | some rest => dropTrivia rest
  | none => Text.trimStart code
termination_by code.length
decreasing_by
  have := Text.length_trimStart_le code
  have := length_dropComment?_lt _h
  omega

end ApiDocs
