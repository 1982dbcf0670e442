import ApiDocs.Markup.Basic
import ApiDocs.Page.Basic
import ApiDocs.Text.Blank
import ApiDocs.Text.Word
/-!
# References in descriptions

A description may refer to a class or a member: `@link` in braces with a class, a member
after a number sign, and a label, where the class or the member may be missing.  A reference
without a class stays in the class that the description belongs to.  What is no reference is
kept as it is.

Main definitions:

- `Reference`, `readReference?`: a reference and its spelling.
- `references`: a description as characters and references.
- `expandReferences`: a description with its references as links.
-/

namespace ApiDocs

/-- A reference.  Class and label are empty when they are missing. -/
structure Reference where
  cls : Text := []
  member : Option Text := none
  label : Text := []
  deriving DecidableEq, Repr

/-- The characters of a class in a reference. -/
def isClassChar (c : Char) : Bool :=
  isNameChar c || c == '.'

/-- A label up to the brace that closes the reference, and what follows it. -/
def readLabel? (s : Text) : Option (Text × Text) :=
  (Text.breakOn? ['\x7d'] s).map fun (label, rest) => (Text.trim label, rest)

/-- A member after a number sign, if there is one, and what follows it. -/
def readMember (s : Text) : Option Text × Text :=
  match s with
  | '#' :: t =>
    let member := t.takeWhile isNameChar
    if member.isEmpty then (none, s) else (some member, t.drop member.length)
  | _ => (none, s)

/-- A reference after the blanks behind `@link`: class and member, and then either the
closing brace or a label that a blank divides from them. -/
def readTarget? (s : Text) : Option (Reference × Text) :=
  let cls := s.takeWhile isClassChar
  let found := readMember (s.drop cls.length)
  match found.2 with
  | [] => none
  | c :: rest =>
    if c = '\x7d' then some ({ cls := cls, member := found.1 }, rest)
    else if isBlank c then
      (readLabel? found.2).map fun (label, rest) =>
        ({ cls := cls, member := found.1, label := label }, rest)
    else none

/-- A reference after the opening brace and `@link`, and what follows it.  At least one
blank comes first; with two of them, what is no class and member is a label alone. -/
def readReference? (s : Text) : Option (Reference × Text) :=
  match s with
  | c :: t =>
    if isBlank c then
      (readTarget? (Text.trimStart t)).or
        (if (t.head?.map isBlank).getD false then
          (readLabel? (Text.trimStart t)).map fun (label, rest) => ({ label := label }, rest)
        else none)
    else none
  | [] => none

/-- The mark that opens a reference. -/
def referenceMark : Text :=
  "\x7b@link".toList

/-- A piece of a description. -/
inductive Piece
  | char (c : Char)
  | reference (r : Reference)
  deriving DecidableEq, Repr

/-! ### What follows a reference is shorter -/

theorem length_readLabel?_le {s label rest : Text} (h : readLabel? s = some (label, rest)) :
    rest.length ≤ s.length := by
  simp only [readLabel?, Option.map_eq_some_iff, Prod.exists, Prod.mk.injEq] at h
  obtain ⟨b, a, hs, _, rfl⟩ := h
  have hlen := congrArg List.length (Text.eq_append_of_breakOn? hs)
  simp only [List.length_append] at hlen
  omega

/-- Behind the name of a member there is no more text than before. -/
theorem length_readMember_le (s : Text) : (readMember s).2.length ≤ s.length := by
  unfold readMember
  split
  · dsimp only
    split
    · exact Nat.le_refl _
    · simp only [List.length_drop, List.length_cons]
      omega
  · exact Nat.le_refl _

/-- Behind a target there is no more text than before. -/
theorem length_readTarget?_le {s rest : Text} {r : Reference}
    (h : readTarget? s = some (r, rest)) : rest.length ≤ s.length := by
  have hm := length_readMember_le (s.drop (s.takeWhile isClassChar).length)
  simp only [List.length_drop] at hm
  simp only [readTarget?] at h
  split at h
  · simp at h
  · next c after hf =>
    rw [hf, List.length_cons] at hm
    split at h
    · simp only [Option.some.injEq, Prod.mk.injEq] at h
      obtain ⟨_, rfl⟩ := h
      omega
    · split at h
      · simp only [Option.map_eq_some_iff, Prod.exists, Prod.mk.injEq] at h
        obtain ⟨label, a, hl, _, rfl⟩ := h
        have := length_readLabel?_le hl
        rw [hf, List.length_cons] at this
        omega
      · simp at h

/-- Behind a reference there is no more text than before. -/
theorem length_readReference?_le {s rest : Text} {r : Reference}
    (h : readReference? s = some (r, rest)) : rest.length ≤ s.length := by
  unfold readReference? at h
  split at h
  · next c t =>
    have ht := Text.length_trimStart_le t
    rw [List.length_cons]
    split at h
    · rcases Option.or_eq_some_iff.1 h with h | ⟨_, h⟩
      · have := length_readTarget?_le h
        omega
      · split at h
        · simp only [Option.map_eq_some_iff, Prod.exists, Prod.mk.injEq] at h
          obtain ⟨label, a, hl, _, rfl⟩ := h
          have := length_readLabel?_le hl
          omega
        · simp at h
    · simp at h
  · simp at h

/-- A description as its characters and references, from left to right. -/
def references : Text → List Piece
  | [] => []
  | c :: s =>
    match _h : (Text.dropStart? referenceMark (c :: s)).bind readReference? with
    | some (r, rest) => .reference r :: references rest
    | none => .char c :: references s
termination_by s => s.length
decreasing_by
  · obtain ⟨t, ht, hr⟩ := Option.bind_eq_some_iff.1 _h
    have hlen := congrArg List.length (Text.eq_append_of_dropStart? ht)
    have hle := length_readReference?_le hr
    have hpos : 0 < referenceMark.length := by decide
    rw [List.length_append] at hlen
    omega
  · simp

/-! ### Links -/

namespace Reference

/-- The class that a reference leads to, in a description of the class `context`. -/
def target (r : Reference) (context : Text) : Text :=
  if r.cls.isEmpty then context else r.cls

/-- The address that a reference leads to: the page of its class, and on it the mark of its
member when the class has or inherits that member. -/
def address (table : ClassTable) (context : Text) (r : Reference) : Text :=
  let page := pageRef (r.target context)
  match r.member.bind (markOf? table (r.target context)) with
  | some anchor => page ++ '#' :: anchor
  | none => page

/-- What a reference shows without a label. -/
def defaultLabel (context : Text) (r : Reference) : Text :=
  match r.member with
  | some m => if r.cls.isEmpty then m else r.cls ++ '.' :: m
  | none => r.target context

/-- What a reference shows. -/
def shown (context : Text) (r : Reference) : Text :=
  if r.label.isEmpty then r.defaultLabel context else r.label

/-- The link of a reference.  Its label is markup like the description around it. -/
def toMarkup (table : ClassTable) (context : Text) (r : Reference) : Markup :=
  .element "a".toList [("href".toList, r.address table context)] [.raw (r.shown context)]

end Reference

/-- A description with its references as links. -/
def expandReferences (table : ClassTable) (context description : Text) : List Markup :=
  (references description).map fun
    | .char c => .raw [c]
    | .reference r => r.toMarkup table context

end ApiDocs
