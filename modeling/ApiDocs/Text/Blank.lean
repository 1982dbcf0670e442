import ApiDocs.Text.Basic
/-!
# Blank characters

Blank characters are those with the property `White_Space`: the ASCII blanks, the next-line
control, the no-break space and the spaces of the general punctuation block, but not the
zero-width ones.  Trimming and splitting into words follow this property everywhere except
in source code, whose scanner knows the ASCII blanks alone.

Main definitions:

- `isBlank`: the property.
- `Text.trim`, `Text.trimStart`, `Text.trimEnd`: a text without the blanks at its ends.
- `Text.words`: the runs of other characters.
-/

namespace ApiDocs

/-- The code point ranges of the blank characters. -/
def blankRanges : List (Nat × Nat) :=
  [(0x0009, 0x000D), (0x0020, 0x0020), (0x0085, 0x0085), (0x00A0, 0x00A0), (0x1680, 0x1680),
   (0x2000, 0x200A), (0x2028, 0x2029), (0x202F, 0x202F), (0x205F, 0x205F), (0x3000, 0x3000)]

/-- The characters with the property `White_Space`. -/
def isBlank (c : Char) : Bool :=
  blankRanges.any fun (low, high) => low ≤ c.toNat && c.toNat ≤ high

namespace Text

/-- A text without the blanks at its start. -/
def trimStart (s : Text) : Text :=
  s.dropWhile isBlank

/-- A text without the blanks at its end. -/
def trimEnd (s : Text) : Text :=
  (s.reverse.dropWhile isBlank).reverse

/-- A text without the blanks at both ends. -/
def trim (s : Text) : Text :=
  trimEnd (trimStart s)

/-- The maximal runs of characters that are not blank. -/
def words (s : Text) : List Text :=
  (s.splitOnP isBlank).filter (! ·.isEmpty)

/-- Trimming makes no text longer. -/
theorem length_trimStart_le (s : Text) : (trimStart s).length ≤ s.length :=
  (List.dropWhile_sublist isBlank).length_le

end Text

end ApiDocs
