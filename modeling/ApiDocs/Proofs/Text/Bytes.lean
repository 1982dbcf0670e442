import ApiDocs.Text.Basic
import Mathlib.Data.List.Lex
/-!
# The order of texts and the order of their bytes

Texts are ordered by code points.  UTF-8 keeps this order: the first bytes in which two texts
differ belong to the first characters in which they differ, and the smaller character has the
smaller bytes.  So a list in increasing order of its texts is in increasing order of their bytes.

Main definitions:

- `Text.utf8`: the bytes of a text.

Main results:

- `Text.utf8_lt_utf8`: texts stand in the order of their bytes.
-/

namespace ApiDocs

namespace Text

/-- The bytes of a text in UTF-8. -/
def utf8 (s : Text) : List UInt8 :=
  s.flatMap String.utf8EncodeChar

theorem utf8_cons (c : Char) (s : Text) : utf8 (c :: s) = String.utf8EncodeChar c ++ utf8 s :=
  List.flatMap_cons

/-- The bytes of the smaller of two characters are smaller, whatever follows them. -/
theorem utf8EncodeChar_append_lt {c d : Char} (h : c < d) (s t : List UInt8) :
    String.utf8EncodeChar c ++ s < String.utf8EncodeChar d ++ t := by
  have hlt : c.val.toNat < d.val.toNat := h
  have hvalid : d.val.toNat < 0x110000 := by
    rcases d.valid with hlow | hhigh
    · exact Nat.lt_trans hlow (by decide)
    · exact hhigh.2
  unfold String.utf8EncodeChar
  dsimp only
  generalize c.val.toNat = m at hlt
  generalize d.val.toNat = n at hlt hvalid
  -- the highest six bits in which the code points differ decide
  have hdigit : m / 262144 < n / 262144 ∨ m / 262144 = n / 262144 ∧
      (m / 4096 < n / 4096 ∨ m / 4096 = n / 4096 ∧
        (m / 64 < n / 64 ∨ m / 64 = n / 64 ∧ m % 64 < n % 64)) := by
    omega
  split_ifs <;>
    simp only [List.cons_append, List.nil_append, List.cons_lt_cons_iff, UInt8.lt_iff_toNat_lt,
      UInt8.toNat_ofNat', ← UInt8.toNat_inj] <;>
    rcases hdigit with hdigit | ⟨hfirst, hdigit | ⟨hsecond, hdigit | ⟨hthird, hdigit⟩⟩⟩ <;>
    omega

/-- Texts stand in the order of their bytes. -/
theorem utf8_lt_utf8 {s t : Text} (h : s < t) : s.utf8 < t.utf8 := by
  induction s generalizing t with
  | nil =>
    cases t with
    | nil => exact absurd h (List.lt_irrefl [])
    | cons d t =>
      rw [utf8_cons]
      cases hbytes : String.utf8EncodeChar d with
      | nil => exact absurd hbytes String.utf8EncodeChar_ne_nil
      | cons byte bytes => exact List.nil_lt_cons byte (bytes ++ utf8 t)
  | cons c s ih =>
    cases t with
    | nil => exact absurd h (List.not_lt_nil (c :: s))
    | cons d t =>
      rw [utf8_cons, utf8_cons]
      rcases List.cons_lt_cons_iff.1 h with hlt | ⟨heq, hlt⟩
      · exact utf8EncodeChar_append_lt hlt (utf8 s) (utf8 t)
      · rw [heq]
        exact List.append_left_lt (ih hlt)

end Text

end ApiDocs
