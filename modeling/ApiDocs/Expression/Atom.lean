import ApiDocs.Text.Blank
import ApiDocs.Text.Word
/-!
# Atoms of regular expressions

An atom of a regular expression is a character, a set of characters with a spelling of its
own, or a place between two characters.  How an atom is read and whether it may stand at a
place depends on two settings that an expression can change: whether its characters are
those of Unicode or bytes, and whether blanks and comments between atoms are skipped.

Main definitions:

- `Mode`, `Mode.skip`: the settings at a place of an expression.
- `Atom`, `readEscape?`: the atoms and their spelling after a backslash.
- `Atom.isAllowed`, `Atom.isMember`: the atoms outside and inside of a set in brackets.
-/

namespace ApiDocs

/-- The settings at a place of an expression. -/
structure Mode where
  unicode : Bool := true
  spaced : Bool := false
  deriving DecidableEq, Repr

/-- A text without the blanks and comments at its start.  A comment begins with a number sign
and ends with its line. -/
def dropSpacing (inComment : Bool) : Text → Text
  | [] => []
  | c :: s =>
    if inComment then dropSpacing (c ≠ '\n') s
    else if isBlank c then dropSpacing false s
    else if c = '#' then dropSpacing true s
    else c :: s

/-- What is read next at a place of an expression. -/
def Mode.skip (m : Mode) (s : Text) : Text :=
  if m.spaced then dropSpacing false s else s

/-- An atom of an expression. -/
inductive Atom
  /-- A character; it may be given by the two digits of a byte. -/
  | char (c : Char) (asByte : Bool)
  /-- The digits, the blanks or the word characters, or all but those. -/
  | group (negated : Bool)
  /-- The characters with a property. -/
  | property
  /-- Any character but a line break. -/
  | anyChar
  /-- A place; where words begin and end it depends on the characters around it. -/
  | place (ofWords : Bool)
  deriving DecidableEq, Repr

namespace Atom

/-- Whether an atom may stand in an expression outside of a set.  No atom may be half a
character, and the borders of words are known for bytes alone. -/
def isAllowed (m : Mode) : Atom → Bool
  | char c asByte => m.unicode || !asByte || c.toNat < 0x80
  | group negated => m.unicode || !negated
  | property => m.unicode
  | anyChar => m.unicode
  | place ofWords => !(m.unicode && ofWords)

/-- Whether an atom may stand in a set. -/
def isMember (m : Mode) : Atom → Bool
  | char c _ => m.unicode || c.toNat < 0x80
  | group negated => m.unicode || !negated
  | property => m.unicode
  | anyChar => false
  | place _ => false

end Atom

/-! ### Escapes -/

/-- The value of a hexadecimal digit. -/
def hexValue? (c : Char) : Option Nat :=
  if '0' ≤ c ∧ c ≤ '9' then some (c.toNat - '0'.toNat)
  else if 'a' ≤ c ∧ c ≤ 'f' then some (c.toNat - 'a'.toNat + 10)
  else if 'A' ≤ c ∧ c ≤ 'F' then some (c.toNat - 'A'.toNat + 10)
  else none

/-- The number that `count` hexadecimal digits continue, and what follows them. -/
def readHex? (m : Mode) (count value : Nat) (s : Text) : Option (Nat × Text) :=
  match count with
  | 0 => some (value, s)
  | count + 1 =>
    match m.skip s with
    | [] => none
    | c :: rest => (hexValue? c).bind fun digit => readHex? m count (value * 16 + digit) rest

/-- The character with a code of `count` hexadecimal digits. -/
def readCode? (m : Mode) (count : Nat) (asByte : Bool) (s : Text) : Option (Atom × Text) :=
  (readHex? m count 0 s).bind fun (code, rest) =>
    if code.isValidChar then some (.char (Char.ofNat code) asByte, rest) else none

/-- The control characters with a letter of their own. -/
def controlOf? : Char → Option Char
  | 'a' => some '\x07'
  | 'f' => some '\x0c'
  | 't' => some '\t'
  | 'n' => some '\n'
  | 'r' => some '\r'
  | 'v' => some '\x0b'
  | _ => none

/-- Whether a backslash makes a character stand for itself: the marks of ASCII, but not the
angle brackets, which stand for the borders of words. -/
def isEscapable (c : Char) : Bool :=
  c.toNat < 0x80 && !c.isAlphanum && c != '<' && c != '>'

/-- The properties of characters that one letter names: control characters, letters, marks,
numbers, punctuation, symbols and separators. -/
def propertyLetters : Text :=
  "CLMNPSZ".toList

/-- The atom after a backslash, and what follows it. -/
def readEscape? (m : Mode) : Text → Option (Atom × Text)
  | [] => none
  | c :: s =>
    if c = 'x' then readCode? m 2 true s
    else if c = 'u' then readCode? m 4 false s
    else if c = 'U' then readCode? m 8 false s
    else if c = 'p' ∨ c = 'P' then
      match m.skip s with
      | [] => none
      | k :: rest => if k.toUpper ∈ propertyLetters then some (.property, rest) else none
    else if c ∈ ['d', 's', 'w'] then some (.group false, s)
    else if c ∈ ['D', 'S', 'W'] then some (.group true, s)
    else if c ∈ ['A', 'z'] then some (.place false, s)
    else if c ∈ ['b', 'B', '<', '>'] then some (.place true, s)
    else if isEscapable c then some (.char c false, s)
    else (controlOf? c).map fun control => (.char control false, s)

end ApiDocs
