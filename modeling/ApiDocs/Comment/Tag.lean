import ApiDocs.Doc.Kind
import ApiDocs.Text.Word
/-!
# Tags

A tag is a word after `@` at the start of a line.  Some tags say what a comment documents,
the others state one fact about it.  A word that is no tag leaves its line ordinary text.

Main definitions:

- `Tag`, `Tag.ofWord?`: the tags and their words.
- `Tag.subject?`: what a comment with this tag documents.
- `readTagLine?`: the word of a tag line and what follows it.
-/

namespace ApiDocs

/-- The tags that a comment may use. -/
inductive Tag
  | cls
  | member (kind : MemberKind)
  | constructor
  | type
  | param
  | returns
  | parent
  | mixins
  | singleton
  | hidden
  deriving DecidableEq, Repr

namespace Tag

/-- The words of the tags; two tags have two words each. -/
def words : List (Text × Tag) :=
  [("class".toList, cls), ("cfg".toList, member .cfg), ("property".toList, member .property),
    ("method".toList, member .method), ("function".toList, member .method),
    ("event".toList, member .event), ("constructor".toList, constructor),
    ("type".toList, type), ("param".toList, param), ("return".toList, returns),
    ("returns".toList, returns), ("extends".toList, parent), ("mixins".toList, mixins),
    ("singleton".toList, singleton), ("private".toList, hidden)]

/-- The tag that a word spells. -/
def ofWord? (word : Text) : Option Tag :=
  words.lookup word

/-- What a comment documents that this tag decides on. -/
def subject? : Tag → Option Kind
  | cls => some .cls
  | member k => some (.member k)
  | _ => none

end Tag

/-- The word after `@` and what follows it, in a line without blanks at its ends.  The word
starts with an ASCII letter and runs over all word characters. -/
def readTagLine? : Text → Option (Text × Text)
  | '@' :: c :: s =>
    if c.isAlpha then some (c :: s.takeWhile isWordChar, s.dropWhile isWordChar) else none
  | _ => none

/-- The word and the rest make up the line. -/
theorem eq_of_readTagLine? {s word rest : Text} (h : readTagLine? s = some (word, rest)) :
    s = '@' :: (word ++ rest) := by
  unfold readTagLine? at h
  split at h
  · split at h
    · simp only [Option.some.injEq, Prod.mk.injEq] at h
      obtain ⟨rfl, rfl⟩ := h
      simp [List.takeWhile_append_dropWhile]
    · simp at h
  · simp at h

end ApiDocs
