import ApiDocs.Expression.Atom
/-!
# Sets in regular expressions

Between brackets stand the characters of a set: atoms, ranges, named sets and further sets in
brackets.  Two equal marks, `&&`, `--` or `~~`, divide a set into the operands of an
intersection or a difference.  A set is read for its height alone, the number of levels on
which it is built.

Main definitions:

- `towerHeight`: the height of what stands side by side.
- `SetParts`, `readSet?`: a set and its spelling.
-/

namespace ApiDocs

/-- The height of parts that stand side by side: two or more make a level of their own. -/
def towerHeight : List Nat → Nat
  | [] => 0
  | [height] => height
  | heights => heights.foldl max 0 + 1

/-- What is read of a set: the heights of its members behind the last operator, and the height
of what stands before that operator. -/
structure SetParts where
  members : List Nat := []
  before : Option Nat := none
  deriving DecidableEq, Repr

namespace SetParts

/-- The height of what is read. -/
def height (parts : SetParts) : Nat :=
  match parts.before with
  | none => towerHeight parts.members
  | some left => max left (towerHeight parts.members) + 1

/-- A further member of a height. -/
def add (parts : SetParts) (height : Nat) : SetParts :=
  { parts with members := height :: parts.members }

/-- What is read becomes the left side of an operator. -/
def close (parts : SetParts) : SetParts :=
  { members := [], before := some parts.height }

end SetParts

/-- The names of sets that may stand between colons in a set. -/
def setNames : List Text :=
  ["alnum".toList, "alpha".toList, "ascii".toList, "blank".toList, "cntrl".toList,
    "digit".toList, "graph".toList, "lower".toList, "print".toList, "punct".toList,
    "space".toList, "upper".toList, "word".toList, "xdigit".toList]

/-- After an opening bracket inside a set: whether a named set is negated, and what follows
it. -/
def readNamedSet? (s : Text) : Option (Bool × Text) :=
  match s with
  | ':' :: s =>
    let negated := s.head? == some '^'
    let s := if negated then s.tail else s
    let name := s.takeWhile (· ≠ ':')
    if setNames.contains name then
      (Text.dropStart? ":]".toList (s.drop name.length)).map fun rest => (negated, rest)
    else none
  | _ => none

/-- The number of hyphens at the start of a text, and what follows them; blanks between them
are skipped where the settings say so. -/
def readHyphens (m : Mode) (steps : Nat) (s : Text) : Nat × Text :=
  match steps, s with
  | steps + 1, '-' :: rest =>
    let later := readHyphens m steps (m.skip rest)
    (later.1 + 1, later.2)
  | _, s => (0, s)

/-- The start of a set after its opening bracket, and what follows it: a circumflex negates the
set, hyphens stand for themselves, and so does a closing bracket before any other member. -/
def openSet? (m : Mode) (s : Text) : Option (SetParts × Text) :=
  let s := m.skip s
  let negated := s.head? == some '^'
  let hyphens := readHyphens m s.length (if negated then m.skip s.tail else s)
  let opened : SetParts := { members := List.replicate hyphens.1 0 }
  if negated && !m.unicode then none
  else
    match hyphens.2 with
    | ']' :: rest => if hyphens.1 = 0 then some (opened.add 0, m.skip rest)
      else some (opened, hyphens.2)
    | _ => some (opened, hyphens.2)

/-- An atom of a set, and what follows it. -/
def readMemberAtom? (m : Mode) : Text → Option (Atom × Text)
  | [] => none
  | c :: s => if c = '\\' then readEscape? m s else some (.char c false, s)

/-- The character that decides whether a hyphen before `s` is one of a range.  Of a comment
that stands there, only the number sign is passed over. -/
def afterHyphen? (m : Mode) (s : Text) : Option Char :=
  if m.spaced then
    match Text.trimStart s with
    | '#' :: rest => (Text.trimStart rest).head?
    | rest => rest.head?
  else s.head?

/-- What follows an atom or a range of a set. -/
def readMember? (m : Mode) (s : Text) : Option Text :=
  (readMemberAtom? m s).bind fun (low, rest) =>
    match m.skip rest with
    | '-' :: after =>
      if afterHyphen? m after = some ']' ∨ afterHyphen? m after = some '-' then
        if low.isMember m then some ('-' :: after) else none
      else
        (readMemberAtom? m (m.skip after)).bind fun (high, rest) =>
          match low, high with
          | .char a _, .char b _ =>
            if a ≤ b ∧ low.isMember m ∧ high.isMember m then some rest else none
          | _, _ => none
    | rest => if low.isMember m then some rest else none

/-- The height of a set whose start is read, and what follows its closing bracket.  Each of
the steps takes at least one character. -/
def readSet? (m : Mode) (steps : Nat) (parts : SetParts) (s : Text) : Option (Nat × Text) :=
  match steps with
  | 0 => none
  | steps + 1 =>
    match m.skip s with
    | ']' :: rest => some (parts.height + 1, rest)
    | '[' :: inner =>
      match readNamedSet? inner with
      | some (negated, rest) =>
        if negated && !m.unicode then none else readSet? m steps (parts.add 0) rest
      | none =>
        (openSet? m inner).bind fun (opened, rest) =>
          (readSet? m steps opened rest).bind fun (height, rest) =>
            readSet? m steps (parts.add height) rest
    | c :: d :: rest =>
      if c = d ∧ c ∈ ['&', '-', '~'] then readSet? m steps parts.close rest
      else (readMember? m (c :: d :: rest)).bind (readSet? m steps (parts.add 0))
    | _ => none

end ApiDocs
