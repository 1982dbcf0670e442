import ApiDocs.Proofs.Text.Bytes
/-!
# Bytes of characters

An ASCII character is one byte, with a value below the first that other characters use; each byte
of any other character lies above.  So a test of bytes that treats all bytes beyond ASCII alike
gives one answer on all bytes of a character, and the bytes up to the first one that fails it are
those of the characters up to the first one that fails it.

Main definitions:

- `Sees`: a test of bytes and the test of characters that it amounts to.
- `IsBoundary`: a place in bytes that no character lies across.

Main results:

- `takeWhile_utf8`: a cut in bytes is a cut in characters.
- `count_utf8`, `head?_utf8_eq_iff`: an ASCII character among the bytes of a text.
-/

namespace ApiDocs

namespace Text

@[simp]
theorem utf8_nil : utf8 [] = [] := rfl

@[simp]
theorem utf8_append (s t : Text) : utf8 (s ++ t) = utf8 s ++ utf8 t :=
  List.flatMap_append

@[simp]
theorem byteSize_append (s t : Text) : byteSize (s ++ t) = byteSize s + byteSize t := by
  induction s with
  | nil => simp [byteSize]
  | cons c s ih => simp [byteSize, ih, Nat.add_assoc]

/-- A text that is not empty has a byte. -/
theorem byteSize_pos {s : Text} (h : s ≠ []) : 0 < byteSize s := by
  obtain ⟨c, s, rfl⟩ := List.exists_cons_of_ne_nil h
  exact Nat.lt_of_lt_of_le c.utf8Size_pos (Nat.le_add_right _ _)

/-- The size of a text is the number of its bytes. -/
theorem length_utf8 (s : Text) : (utf8 s).length = byteSize s := by
  induction s with
  | nil => rfl
  | cons c s ih => rw [utf8_cons, List.length_append, String.length_utf8EncodeChar, ih, byteSize]

/-! ### ASCII and other characters -/

/-- What is checked for each ASCII character holds of all of them. -/
theorem forall_ascii {p : Char → Prop} (h : ∀ n, n < 0x80 → p (Char.ofNat n)) {c : Char}
    (hc : c.toNat < 0x80) : p c := by
  have hn := h c.toNat hc
  rwa [Char.ofNat_toNat] at hn

/-- An ASCII character is its own byte. -/
theorem toNat_toUInt8 {c : Char} (h : c.toNat < 0x80) : c.toUInt8.toNat = c.toNat :=
  forall_ascii (p := fun c => c.toUInt8.toNat = c.toNat) (by decide +kernel) h

/-- An ASCII character is one byte. -/
theorem utf8EncodeChar_ascii {c : Char} (h : c.toNat < 0x80) :
    String.utf8EncodeChar c = [c.toUInt8] :=
  forall_ascii (p := fun c => String.utf8EncodeChar c = [c.toUInt8]) (by decide +kernel) h

/-- An ASCII character is one byte long. -/
theorem utf8Size_ascii {c : Char} (h : c.toNat < 0x80) : c.utf8Size = 1 := by
  rw [← String.length_utf8EncodeChar, utf8EncodeChar_ascii h]
  rfl

/-- The byte of an ASCII character stands before those of the text behind it. -/
theorem utf8_cons_ascii {c : Char} (h : c.toNat < 0x80) (s : Text) :
    utf8 (c :: s) = c.toUInt8 :: utf8 s := by
  rw [utf8_cons, utf8EncodeChar_ascii h]
  rfl

/-- The bytes of longer characters have their first bit set. -/
theorem le_ofNat_mod_add {m k : Nat} (n : Nat) (hm : 0 < m) (hk : 0x80 ≤ k) (h : m + k ≤ 0x100) :
    0x80 ≤ UInt8.ofNat (n % m + k) := by
  have hlt := Nat.mod_lt n hm
  have hbyte : n % m + k < 2 ^ 8 := by omega
  rw [UInt8.le_iff_toNat_le, UInt8.toNat_ofNat', Nat.mod_eq_of_lt hbyte]
  exact hk.trans (Nat.le_add_left k (n % m))

/-- Each byte of any other character lies beyond ASCII. -/
theorem le_of_mem_utf8EncodeChar {c : Char} (h : 0x80 ≤ c.toNat) {b : UInt8}
    (hb : b ∈ String.utf8EncodeChar c) : 0x80 ≤ b := by
  have hmore : ¬ c.val.toNat ≤ 0x7f := Nat.not_le.2 h
  have hcontinue := fun n =>
    le_ofNat_mod_add n (by decide : 0 < 0x40) (Nat.le_refl 0x80) (by decide)
  unfold String.utf8EncodeChar at hb
  rw [if_neg hmore] at hb
  split_ifs at hb
  · rcases List.mem_pair.1 hb with rfl | rfl
    · exact le_ofNat_mod_add _ (by decide) (by decide) (by decide)
    · exact hcontinue _
  · rcases List.mem_cons.1 hb with rfl | hb
    · exact le_ofNat_mod_add _ (by decide) (by decide) (by decide)
    · rcases List.mem_pair.1 hb with rfl | rfl <;> exact hcontinue _
  · rcases List.mem_cons.1 hb with rfl | hb
    · exact le_ofNat_mod_add _ (by decide) (by decide) (by decide)
    · rcases List.mem_cons.1 hb with rfl | hb
      · exact hcontinue _
      · rcases List.mem_pair.1 hb with rfl | rfl <;> exact hcontinue _

/-- Behind the first byte of a character, all bytes lie beyond ASCII. -/
theorem utf8EncodeChar_eq_cons (c : Char) :
    ∃ b tail, String.utf8EncodeChar c = b :: tail ∧ ∀ d ∈ tail, 0x80 ≤ d := by
  obtain ⟨b, tail, hbytes⟩ := List.exists_cons_of_ne_nil (String.utf8EncodeChar_ne_nil (c := c))
  refine ⟨b, tail, hbytes, fun d hd => ?_⟩
  rcases Nat.lt_or_ge c.toNat 0x80 with hlow | hhigh
  · rw [utf8EncodeChar_ascii hlow] at hbytes
    cases hbytes
    cases hd
  · exact le_of_mem_utf8EncodeChar hhigh (hbytes ▸ List.mem_cons_of_mem b hd)

/-! ### Tests of bytes -/

/-- The test of bytes gives on each byte of a character what the other test gives on it. -/
def Sees (p : UInt8 → Bool) (q : Char → Bool) : Prop :=
  ∀ c, ∀ b ∈ String.utf8EncodeChar c, p b = q c

/-- A test that agrees with another on ASCII is blind beyond, as the other is. -/
theorem sees_of_ascii {p : UInt8 → Bool} {q : Char → Bool} (value : Bool)
    (hascii : ∀ c, c.toNat < 0x80 → p c.toUInt8 = q c)
    (hbytes : ∀ b, 0x80 ≤ b → p b = value) (hchars : ∀ c, 0x80 ≤ c.toNat → q c = value) :
    Sees p q := by
  intro c b hb
  rcases Nat.lt_or_ge c.toNat 0x80 with hlow | hhigh
  · rw [utf8EncodeChar_ascii hlow, List.mem_singleton] at hb
    rw [hb]
    exact hascii c hlow
  · rw [hbytes b (le_of_mem_utf8EncodeChar hhigh hb), hchars c hhigh]

/-- A byte beyond ASCII is none of ASCII. -/
theorem ne_toUInt8_of_le {x : Char} (hx : x.toNat < 0x80) {b : UInt8} (hb : 0x80 ≤ b) :
    b ≠ x.toUInt8 := by
  rintro rfl
  rw [UInt8.le_iff_toNat_le, toNat_toUInt8 hx] at hb
  exact absurd hx (Nat.not_lt.2 hb)

/-- The byte of an ASCII character stands for this character alone. -/
theorem sees_eq {x : Char} (hx : x.toNat < 0x80) : Sees (· == x.toUInt8) (· == x) := by
  refine sees_of_ascii false (fun c hc => ?_) (fun b hb => ?_) (fun c hc => ?_)
  · rw [Bool.eq_iff_iff, beq_iff_eq, beq_iff_eq]
    refine ⟨fun h => ?_, congrArg Char.toUInt8⟩
    rw [← Char.toNat_inj, ← toNat_toUInt8 hc, h, toNat_toUInt8 hx]
  · exact beq_eq_false_iff_ne.2 (ne_toUInt8_of_le hx hb)
  · rw [beq_eq_false_iff_ne]
    rintro rfl
    exact absurd hx (Nat.not_lt.2 hc)

variable {p : UInt8 → Bool} {q : Char → Bool} {x : Char}

/-- An ASCII byte stands in the bytes of no other character. -/
theorem eq_toUInt8_iff (hx : x.toNat < 0x80) {c : Char} {b : UInt8}
    (hb : b ∈ String.utf8EncodeChar c) : b = x.toUInt8 ↔ c = x := by
  have hsame : (b == x.toUInt8) = (c == x) := sees_eq hx c b hb
  rw [← beq_iff_eq, hsame, beq_iff_eq]

/-- Two ASCII characters have different bytes. -/
theorem toUInt8_eq_iff {c : Char} (hc : c.toNat < 0x80) (hx : x.toNat < 0x80) :
    c.toUInt8 = x.toUInt8 ↔ c = x :=
  eq_toUInt8_iff hx (by rw [utf8EncodeChar_ascii hc]; exact List.mem_singleton_self _)

/-- Two tests that see the same on bytes and on characters do so as alternatives. -/
theorem Sees.or {p' : UInt8 → Bool} {q' : Char → Bool} (h : Sees p q) (h' : Sees p' q') :
    Sees (fun b => p b || p' b) (fun c => q c || q' c) :=
  fun c b hb => congrArg₂ (· || ·) (h c b hb) (h' c b hb)

/-- A cut in bytes is a cut in characters. -/
theorem takeWhile_utf8 (h : Sees p q) (s : Text) :
    (utf8 s).takeWhile p = utf8 (s.takeWhile q) := by
  induction s with
  | nil => rfl
  | cons c s ih =>
    rw [utf8_cons]
    by_cases hc : q c = true
    · rw [List.takeWhile_append_of_pos fun b hb => (h c b hb).trans hc, ih,
        List.takeWhile_cons_of_pos hc, utf8_cons]
    · obtain ⟨b, tail, hbytes, -⟩ := utf8EncodeChar_eq_cons c
      have hb : ¬ p b = true := by
        rw [h c b (hbytes ▸ List.mem_cons_self)]
        exact hc
      rw [hbytes, List.cons_append, List.takeWhile_cons_of_neg hb, List.takeWhile_cons_of_neg hc]
      rfl

/-- The bytes of an ASCII character in a text are as many as the characters. -/
theorem count_utf8 (hx : x.toNat < 0x80) (s : Text) : (utf8 s).count x.toUInt8 = s.count x := by
  induction s with
  | nil => rfl
  | cons c s ih =>
    rw [utf8_cons, List.count_append, ih]
    by_cases hc : c = x
    · rw [hc, utf8EncodeChar_ascii hx, List.count_singleton_self, List.count_cons_self,
        Nat.add_comm]
    · rw [List.count_cons_of_ne hc, List.count_eq_zero.2, Nat.zero_add]
      intro hmem
      exact hc ((eq_toUInt8_iff hx hmem).1 rfl)

/-- The first byte is that of an ASCII character when the first character is this one. -/
theorem head?_utf8_eq_iff (hx : x.toNat < 0x80) (s : Text) :
    (utf8 s).head? = some x.toUInt8 ↔ s.head? = some x := by
  cases s with
  | nil => simp
  | cons c s =>
    obtain ⟨b, tail, hbytes, -⟩ := utf8EncodeChar_eq_cons c
    rw [utf8_cons, hbytes, List.cons_append, List.head?_cons, List.head?_cons, Option.some.injEq,
      Option.some.injEq]
    exact eq_toUInt8_iff hx (hbytes ▸ List.mem_cons_self)

/-! ### Places between characters -/

/-- No character lies across the place. -/
def IsBoundary (s : Text) (n : Nat) : Prop :=
  ∃ before after, s = before ++ after ∧ before.byteSize = n

/-- A place behind a start of the text lies between characters. -/
theorem isBoundary_byteSize (before after : Text) : IsBoundary (before ++ after) before.byteSize :=
  ⟨before, after, rfl, rfl⟩

/-- A place behind a character is one behind the first, or the start. -/
theorem isBoundary_cons_iff {c : Char} {s : Text} {n : Nat} :
    IsBoundary (c :: s) n ↔ n = 0 ∨ c.utf8Size ≤ n ∧ IsBoundary s (n - c.utf8Size) := by
  constructor
  · rintro ⟨before, after, hs, rfl⟩
    cases before with
    | nil => exact .inl rfl
    | cons d before =>
      obtain ⟨rfl, rfl⟩ : c = d ∧ s = before ++ after := by simpa using hs
      exact .inr ⟨Nat.le_add_right _ _, before, after, rfl, by simp [byteSize]⟩
  · rintro (rfl | ⟨hle, before, after, rfl, hsize⟩)
    · exact ⟨[], c :: s, rfl, rfl⟩
    · exact ⟨c :: before, after, rfl, by rw [byteSize, hsize, Nat.add_sub_cancel' hle]⟩

instance decidableIsBoundary : (s : Text) → (n : Nat) → Decidable (IsBoundary s n)
  | [], n => decidable_of_iff (n = 0) ⟨fun h => ⟨[], [], rfl, h.symm⟩, by
      rintro ⟨before, after, hs, rfl⟩
      rw [(List.append_eq_nil_iff.1 hs.symm).1]
      rfl⟩
  | c :: s, n =>
    have := decidableIsBoundary s (n - c.utf8Size)
    decidable_of_iff _ isBoundary_cons_iff.symm

end Text

end ApiDocs
