import ApiDocs.Proofs.Text.CharBytes
import ApiDocs.Source.Lexeme
import ApiDocs.Text.Word
/-!
# Reading lexemes from bytes

A source can be read from its bytes instead of its characters: a place is a number of bytes, each
loop looks at the byte at its place and moves on by one, and behind a backslash by two.  A move by
two may end inside a character, or behind the last byte.  The bytes inside a character are none of
those that a loop looks for, so it comes to the next character all the same, and each loop stops
at the place where the lexeme ends.

Main definitions:

- `runEnd`: the end of a run of bytes.
- `skipQuoted`, `skipRegex`, `findClose`: the ends of a literal, a regular expression and a comment.

Main results:

- `eq_of_walk`: a loop passes all bytes that it does not look for.
- `runEnd_utf8`, `skipQuoted_utf8`, `skipRegex_utf8`, `findClose_utf8`: each loop stops where the
  part of the text ends that is read from its characters.
-/

namespace ApiDocs

open Text (utf8 byteSize Sees)

/-! ### Loops over bytes -/

section

variable (bytes : List UInt8)

/-- The first place from `i` on where a byte fails the test, or the end. -/
def runEnd (p : UInt8 → Bool) (i : Nat) : Nat :=
  match h : bytes[i]? with
  | none => i
  | some b => if p b then runEnd p (i + 1) else i
termination_by bytes.length - i
decreasing_by have := (List.getElem?_eq_some_iff.1 h).1; omega

/-- The place behind a quoted literal, from a place behind the opening quote on. -/
def skipQuoted (quote : UInt8) (i : Nat) : Nat :=
  match h : bytes[i]? with
  | none => bytes.length
  | some b =>
    if b = '\\'.toUInt8 then skipQuoted quote (i + 2)
    else if b = '\n'.toUInt8 ∧ quote ≠ '`'.toUInt8 then i
    else if b = quote then i + 1
    else skipQuoted quote (i + 1)
termination_by bytes.length - i
decreasing_by all_goals have := (List.getElem?_eq_some_iff.1 h).1; omega

/-- Whether a byte is an ASCII letter. -/
def isAlphaByte (b : UInt8) : Bool :=
  'a'.toUInt8 ≤ b && b ≤ 'z'.toUInt8 || 'A'.toUInt8 ≤ b && b ≤ 'Z'.toUInt8

/-- The place behind a regular expression and its flags, from a place behind the opening slash on;
`none` if no slash closes it on the same line. -/
def skipRegex (inClass : Bool) (i : Nat) : Option Nat :=
  match h : bytes[i]? with
  | none => none
  | some b =>
    if b = '\\'.toUInt8 then skipRegex inClass (i + 2)
    else if b = '\n'.toUInt8 then none
    else if b = '['.toUInt8 then skipRegex true (i + 1)
    else if b = ']'.toUInt8 then skipRegex false (i + 1)
    else if b = '/'.toUInt8 ∧ inClass = false then some (runEnd bytes isAlphaByte (i + 1))
    else skipRegex inClass (i + 1)
termination_by bytes.length - i
decreasing_by all_goals have := (List.getElem?_eq_some_iff.1 h).1; omega

end

/-- The number of bytes before the first two that close a comment. -/
def findPair : List UInt8 → Option Nat
  | b :: d :: bytes =>
    if b = '*'.toUInt8 ∧ d = '/'.toUInt8 then some 0 else (findPair (d :: bytes)).map (· + 1)
  | _ => none

/-- The place of the mark that closes a comment whose body starts at `i`. -/
def findClose (bytes : List UInt8) (i : Nat) : Option Nat :=
  if i ≤ bytes.length then (findPair (bytes.drop i)).map (i + ·) else none

/-! ### Steps of the loops -/

section

variable {bytes : List UInt8} {b : UInt8} {i : Nat} {p : UInt8 → Bool} {quote : UInt8}
  {inClass : Bool}

theorem runEnd_of_none (h : bytes[i]? = none) : runEnd bytes p i = i := by
  rw [runEnd]
  split
  · rfl
  · simp_all

/-- A run goes on over a byte that passes the test, and ends before one that fails it. -/
theorem runEnd_of_some (h : bytes[i]? = some b) :
    runEnd bytes p i = if p b then runEnd bytes p (i + 1) else i := by
  rw [runEnd]
  split <;> simp_all

/-- Without a byte ahead, a literal ends with the bytes, also when an escape has led behind them. -/
theorem skipQuoted_of_none (h : bytes[i]? = none) : skipQuoted bytes quote i = bytes.length := by
  rw [skipQuoted]
  split <;> simp_all

/-- One step of the loop over a literal. -/
theorem skipQuoted_of_some (h : bytes[i]? = some b) :
    skipQuoted bytes quote i
      = if b = '\\'.toUInt8 then skipQuoted bytes quote (i + 2)
        else if b = '\n'.toUInt8 ∧ quote ≠ '`'.toUInt8 then i
        else if b = quote then i + 1
        else skipQuoted bytes quote (i + 1) := by
  rw [skipQuoted]
  split
  · simp_all
  · next d hd =>
    obtain rfl : b = d := Option.some.inj (h.symm.trans hd)
    rfl

/-- The loop passes a byte that is no escape, no line feed that breaks the literal and no quote. -/
theorem skipQuoted_of_plain (h : bytes[i]? = some b) (hescape : b ≠ '\\'.toUInt8)
    (hline : ¬ (b = '\n'.toUInt8 ∧ quote ≠ '`'.toUInt8)) (hquote : b ≠ quote) :
    skipQuoted bytes quote i = skipQuoted bytes quote (i + 1) := by
  rw [skipQuoted_of_some h, if_neg hescape, if_neg hline, if_neg hquote]

/-- Without a byte ahead, nothing closes a regular expression. -/
theorem skipRegex_of_none (h : bytes[i]? = none) : skipRegex bytes inClass i = none := by
  rw [skipRegex]
  split <;> simp_all

/-- One step of the loop over a regular expression. -/
theorem skipRegex_of_some (h : bytes[i]? = some b) :
    skipRegex bytes inClass i
      = if b = '\\'.toUInt8 then skipRegex bytes inClass (i + 2)
        else if b = '\n'.toUInt8 then none
        else if b = '['.toUInt8 then skipRegex bytes true (i + 1)
        else if b = ']'.toUInt8 then skipRegex bytes false (i + 1)
        else if b = '/'.toUInt8 ∧ inClass = false then some (runEnd bytes isAlphaByte (i + 1))
        else skipRegex bytes inClass (i + 1) := by
  rw [skipRegex]
  split
  · simp_all
  · next d hd =>
    obtain rfl : b = d := Option.some.inj (h.symm.trans hd)
    rfl

/-- The loop passes a byte that is none of those that it looks for. -/
theorem skipRegex_of_plain (h : bytes[i]? = some b) (hescape : b ≠ '\\'.toUInt8)
    (hline : b ≠ '\n'.toUInt8) (hopen : b ≠ '['.toUInt8) (hclose : b ≠ ']'.toUInt8)
    (hslash : ¬ (b = '/'.toUInt8 ∧ inClass = false)) :
    skipRegex bytes inClass i = skipRegex bytes inClass (i + 1) := by
  rw [skipRegex_of_some h, if_neg hescape, if_neg hline, if_neg hopen, if_neg hclose, if_neg hslash]

end

/-! ### Loops and the parts of a text -/

section

variable {A B C bytes : List UInt8} {b : UInt8}

theorem getElem?_append_cons (A : List UInt8) (b : UInt8) (B : List UInt8) :
    (A ++ b :: B)[A.length]? = some b := by
  rw [List.getElem?_append_right le_rfl, Nat.sub_self]
  rfl

/-- An ASCII character is one byte, at the place where its text starts. -/
theorem getElem?_ascii (A : List UInt8) {c : Char} (hc : c.toNat < 0x80) (s : Text) :
    (A ++ utf8 (c :: s))[A.length]? = some c.toUInt8 := by
  rw [Text.utf8_cons_ascii hc, getElem?_append_cons]

/-- The bytes of two texts in a row, behind others. -/
theorem append_utf8_append (A : List UInt8) (s t : Text) :
    A ++ utf8 (s ++ t) = A ++ utf8 s ++ utf8 t := by
  rw [Text.utf8_append, List.append_assoc]

/-- A character and the text behind it, the character taken to the bytes in front. -/
theorem append_utf8_cons (A : List UInt8) (c : Char) (s : Text) :
    A ++ utf8 (c :: s) = A ++ String.utf8EncodeChar c ++ utf8 s := by
  rw [Text.utf8_cons, List.append_assoc]

/-- Behind a backslash at the end, a move by two leaves the bytes. -/
theorem getElem?_lone_escape (A : List UInt8) : (A ++ utf8 ['\\'])[A.length + 2]? = none :=
  List.getElem?_eq_none (by rw [List.length_append]; exact Nat.le_succ _)

theorem getElem?_length (A : List UInt8) : A[A.length]? = none :=
  List.getElem?_eq_none le_rfl

/-- A loop that moves on by one at bytes of some sort passes all of them. -/
theorem eq_of_walk {α : Type} {f : Nat → α} {p : UInt8 → Prop}
    (hstep : ∀ i b, bytes[i]? = some b → p b → f i = f (i + 1)) (hbytes : bytes = A ++ (B ++ C))
    (hB : ∀ b ∈ B, p b) : f A.length = f (A ++ B).length := by
  induction B generalizing A with
  | nil => rw [List.append_nil]
  | cons b B ih =>
    rw [List.forall_mem_cons] at hB
    have hread : bytes[A.length]? = some b := by
      rw [hbytes, List.cons_append, getElem?_append_cons]
    have hnext := @ih (A ++ [b]) (by simp [hbytes]) hB.2
    rw [hstep A.length b hread hB.1]
    simpa [Nat.add_assoc, Nat.add_comm 1] using hnext

/-- A run from the start of some bytes takes those that pass the test. -/
theorem runEnd_append (p : UInt8 → Bool) (A B : List UInt8) :
    runEnd (A ++ B) p A.length = A.length + (B.takeWhile p).length := by
  induction B generalizing A with
  | nil =>
    rw [List.append_nil, runEnd_of_none (getElem?_length A)]
    rfl
  | cons b B ih =>
    rw [runEnd_of_some (getElem?_append_cons A b B)]
    by_cases hb : p b = true
    · have hnext := ih (A ++ [b])
      rw [if_pos hb, List.takeWhile_cons_of_pos hb]
      simpa [Nat.add_assoc, Nat.add_comm 1] using hnext
    · rw [if_neg hb, List.takeWhile_cons_of_neg hb]
      rfl

/-- A run of characters ends where the run of their bytes does. -/
theorem runEnd_utf8 {p : UInt8 → Bool} {q : Char → Bool} (h : Sees p q) (A : List UInt8)
    (t : Text) : runEnd (A ++ utf8 t) p A.length = A.length + byteSize (t.takeWhile q) := by
  rw [runEnd_append, Text.takeWhile_utf8 h, Text.length_utf8]

/-- A loop that moves on by one at each byte of a character passes the character. -/
theorem eq_of_walk_char {α : Type} {f : Nat → α} {c : Char} (s : Text)
    (hstep : ∀ i b, (A ++ utf8 (c :: s))[i]? = some b → b ∈ String.utf8EncodeChar c →
      f i = f (i + 1)) :
    f A.length = f (A ++ String.utf8EncodeChar c).length :=
  eq_of_walk hstep (by rw [Text.utf8_cons]) fun _ hb => hb

/-- Behind a backslash, a loop moves on by two, and then it is inside the next character or behind
it.  The bytes inside lie beyond ASCII, and the loop passes them. -/
theorem eq_of_escape {α : Type} {f : Nat → α} {c : Char} {s : Text}
    (hstep : ∀ i b, (A ++ utf8 ('\\' :: c :: s))[i]? = some b → 0x80 ≤ b → f i = f (i + 1)) :
    f (A.length + 2) = f (A ++ utf8 ['\\', c]).length := by
  obtain ⟨b, tail, hbytes, htail⟩ := Text.utf8EncodeChar_eq_cons c
  have hescape : ∀ t, utf8 ('\\' :: c :: t) = '\\'.toUInt8 :: b :: (tail ++ utf8 t) := fun t => by
    rw [Text.utf8_cons_ascii (by decide), Text.utf8_cons, hbytes, List.cons_append]
  have hwalk := eq_of_walk (A := A ++ ['\\'.toUInt8, b]) (C := utf8 s) hstep
    (by simp [hescape]) htail
  simpa [hescape] using hwalk

/-! ### Literals -/

/-- A literal ends where the loop over its bytes stops. -/
theorem skipQuoted_utf8 {quote : Char} (hquote : quote.toNat < 0x80) (hne : quote ≠ '\\')
    (A : List UInt8) (t : Text) :
    skipQuoted (A ++ utf8 t) quote.toUInt8 A.length
      = A.length + byteSize (splitQuoted quote t).1 := by
  fun_induction splitQuoted quote t generalizing A with
  | case1 => simp [skipQuoted_of_none, byteSize]
  | case2 c s later ih =>
    have hread := getElem?_ascii A (c := '\\') (by decide) (c :: s)
    have hjump := eq_of_escape (f := skipQuoted (A ++ utf8 ('\\' :: c :: s)) quote.toUInt8)
      fun i b hb hhigh => skipQuoted_of_plain hb (Text.ne_toUInt8_of_le (by decide) hhigh)
        (fun h => Text.ne_toUInt8_of_le (by decide) hhigh h.1) (Text.ne_toUInt8_of_le hquote hhigh)
    have hbytes : A ++ utf8 ('\\' :: c :: s) = A ++ utf8 ['\\', c] ++ utf8 s :=
      append_utf8_append A ['\\', c] s
    rw [skipQuoted_of_some hread, if_pos rfl, hjump, hbytes, ih, List.length_append,
      Text.length_utf8, Nat.add_assoc, ← Text.byteSize_append]
    rfl
  | case3 c s hescape hline =>
    obtain ⟨rfl, htemplate⟩ := hline
    rw [skipQuoted_of_some (getElem?_ascii A (by decide) s), if_neg (by decide), if_pos]
    · rfl
    · exact ⟨rfl, fun h => htemplate ((Text.toUInt8_eq_iff hquote (by decide)).1 h)⟩
  | case4 s hescape hline =>
    have hbackslash : quote.toUInt8 ≠ '\\'.toUInt8 := fun h =>
      hne ((Text.toUInt8_eq_iff hquote (by decide)).1 h)
    have hbreak : ¬ (quote.toUInt8 = '\n'.toUInt8 ∧ quote.toUInt8 ≠ '`'.toUInt8) := by
      rw [Text.toUInt8_eq_iff hquote (by decide), ne_eq, Text.toUInt8_eq_iff hquote (by decide)]
      exact hline
    rw [skipQuoted_of_some (getElem?_ascii A hquote s), if_neg hbackslash, if_neg hbreak,
      if_pos rfl, byteSize, Text.utf8Size_ascii hquote]
    rfl
  | case5 c s hescape hline hc later ih =>
    by_cases hbackslash : c = '\\'
    · subst hbackslash
      cases s with
      | nil =>
        rw [skipQuoted_of_some (getElem?_ascii A (by decide) []), if_pos rfl,
          skipQuoted_of_none (getElem?_lone_escape A), List.length_append, Text.length_utf8]
        rfl
      | cons d s => exact (hescape d s rfl rfl).elim
    · have hmove : skipQuoted (A ++ utf8 (c :: s)) quote.toUInt8 A.length
          = skipQuoted (A ++ utf8 (c :: s)) quote.toUInt8
              (A ++ String.utf8EncodeChar c).length := by
        refine eq_of_walk_char s fun i b hb hmem => skipQuoted_of_plain hb ?_ ?_ ?_
        · rwa [ne_eq, Text.eq_toUInt8_iff (by decide) hmem]
        · rw [Text.eq_toUInt8_iff (by decide) hmem, ne_eq, Text.toUInt8_eq_iff hquote (by decide)]
          exact hline
        · rwa [ne_eq, Text.eq_toUInt8_iff hquote hmem]
      rw [hmove, append_utf8_cons, ih, List.length_append, String.length_utf8EncodeChar,
        Nat.add_assoc]
      rfl

-- the backslash takes two bytes with it, and the second is not the last of its character
example : skipQuoted (utf8 "\\é' /**".toList) '\''.toUInt8 0 = 4 := by decide +kernel

/-! ### Regular expressions -/

/-- The test for letters sees on bytes what it sees on characters. -/
theorem sees_isAlpha : Sees isAlphaByte Char.isAlpha := by
  refine Text.sees_of_ascii false (fun c hc => ?_) (fun b hb => ?_) (fun c hc => ?_)
  · exact Text.forall_ascii (p := fun c => isAlphaByte c.toUInt8 = c.isAlpha) (by decide +kernel) hc
  · rw [UInt8.le_iff_toNat_le] at hb
    have hlow : ∀ x : Char, x.toNat < 0x80 → ¬ b ≤ x.toUInt8 := fun x hx hle => by
      rw [UInt8.le_iff_toNat_le, Text.toNat_toUInt8 hx] at hle
      exact absurd (hb.trans hle) (Nat.not_le.2 hx)
    simp [isAlphaByte, hlow 'z' (by decide), hlow 'Z' (by decide)]
  · rw [Bool.eq_false_iff]
    intro halpha
    have hlow := toNat_lt_of_isAlphanum (c := c) (by simp [Char.isAlphanum, halpha])
    omega

/-- A regular expression ends where the loop over its bytes stops, and where it has no end the loop
finds none. -/
theorem skipRegex_utf8 (inClass : Bool) (A : List UInt8) (t : Text) :
    skipRegex (A ++ utf8 t) inClass A.length
      = (splitRegex inClass t).map fun (raw, _) => A.length + byteSize raw := by
  fun_induction splitRegex inClass t generalizing A with
  | case1 => simp [skipRegex_of_none]
  | case2 inClass c s ih =>
    have hread := getElem?_ascii A (c := '\\') (by decide) (c :: s)
    have hjump := eq_of_escape (f := skipRegex (A ++ utf8 ('\\' :: c :: s)) inClass)
      fun i b hb hhigh => skipRegex_of_plain hb (Text.ne_toUInt8_of_le (by decide) hhigh)
        (Text.ne_toUInt8_of_le (by decide) hhigh) (Text.ne_toUInt8_of_le (by decide) hhigh)
        (Text.ne_toUInt8_of_le (by decide) hhigh)
        (fun h => Text.ne_toUInt8_of_le (by decide) hhigh h.1)
    have hbytes : A ++ utf8 ('\\' :: c :: s) = A ++ utf8 ['\\', c] ++ utf8 s :=
      append_utf8_append A ['\\', c] s
    rw [skipRegex_of_some hread, if_pos rfl, hjump, hbytes, ih, Option.map_map]
    congr 1
    funext parts
    simp only [Function.comp_apply, List.length_append, Text.length_utf8, Nat.add_assoc,
      ← Text.byteSize_append]
    rfl
  | case3 inClass s hescape =>
    rw [skipRegex_of_some (getElem?_ascii A (by decide) s), if_neg (by decide), if_pos rfl]
    rfl
  | case4 inClass c s hescape hline hslash =>
    obtain ⟨rfl, rfl⟩ := hslash
    have hflags := runEnd_utf8 sees_isAlpha (A ++ utf8 ['/']) s
    rw [← append_utf8_append, List.length_append] at hflags
    rw [skipRegex_of_some (getElem?_ascii A (by decide) s), if_neg (by decide),
      if_neg (by decide), if_neg (by decide), if_neg (by decide), if_pos ⟨rfl, rfl⟩]
    exact congrArg some (hflags.trans (Nat.add_assoc A.length 1 _))
  | case5 inClass c s hescape hline hslash next ih =>
    by_cases hbackslash : c = '\\'
    · subst hbackslash
      cases s with
      | nil =>
        rw [skipRegex_of_some (getElem?_ascii A (by decide) []), if_pos rfl,
          skipRegex_of_none (getElem?_lone_escape A)]
        rfl
      | cons d s => exact (hescape d s rfl rfl).elim
    · have hmove : skipRegex (A ++ utf8 (c :: s)) inClass A.length
          = skipRegex (A ++ utf8 (c :: s)) next (A ++ String.utf8EncodeChar c).length := by
        by_cases hopen : c = '['
        · subst hopen
          rw [skipRegex_of_some (getElem?_ascii A (by decide) s), if_neg (by decide),
            if_neg (by decide), if_pos rfl, List.length_append]
          rfl
        · by_cases hclose : c = ']'
          · subst hclose
            rw [skipRegex_of_some (getElem?_ascii A (by decide) s), if_neg (by decide),
              if_neg (by decide), if_neg (by decide), if_pos rfl, List.length_append]
            rfl
          · have hnext : next = inClass := by simp [next, hopen, hclose]
            rw [hnext]
            refine eq_of_walk_char s fun i b hb hmem => skipRegex_of_plain hb ?_ ?_ ?_ ?_ ?_
            · rwa [ne_eq, Text.eq_toUInt8_iff (by decide) hmem]
            · rwa [ne_eq, Text.eq_toUInt8_iff (by decide) hmem]
            · rwa [ne_eq, Text.eq_toUInt8_iff (by decide) hmem]
            · rwa [ne_eq, Text.eq_toUInt8_iff (by decide) hmem]
            · rwa [Text.eq_toUInt8_iff (by decide) hmem]
      rw [hmove, append_utf8_cons, ih, Option.map_map]
      congr 1
      funext parts
      simp only [Function.comp_apply, List.length_append, String.length_utf8EncodeChar, byteSize,
        Nat.add_assoc]

/-! ### Comments -/

/-- A byte at which the pair does not stand is passed. -/
theorem findPair_cons {b : UInt8} {bytes : List UInt8}
    (h : ¬ (b = '*'.toUInt8 ∧ bytes.head? = some '/'.toUInt8)) :
    findPair (b :: bytes) = (findPair bytes).map (· + 1) := by
  cases bytes with
  | nil => rfl
  | cons d bytes =>
    rw [findPair, if_neg]
    simpa using h

/-- Bytes other than an asterisk start no closing mark. -/
theorem findPair_append {B : List UInt8} (C : List UInt8) (h : ∀ b ∈ B, b ≠ '*'.toUInt8) :
    findPair (B ++ C) = (findPair C).map (B.length + ·) := by
  induction B with
  | nil => simp
  | cons b B ih =>
    rw [List.forall_mem_cons] at h
    rw [List.cons_append, findPair_cons fun hstar => h.1 hstar.1, ih h.2, Option.map_map,
      List.length_cons]
    congr 1
    funext n
    simp only [Function.comp_apply]
    omega

/-- The pair stands in the bytes of a text where the closing mark stands in the text. -/
theorem findPair_utf8 (t : Text) :
    findPair (utf8 t) = (Text.breakOn? ['*', '/'] t).map fun (before, _) => byteSize before := by
  induction t with
  | nil => rfl
  | cons c t ih =>
    unfold Text.breakOn?
    by_cases hclose : ['*', '/'].isPrefixOf (c :: t) = true
    · obtain ⟨after, hafter⟩ := List.isPrefixOf_iff_prefix.1 hclose
      obtain ⟨rfl, rfl⟩ : '*' = c ∧ '/' :: after = t := by simpa using hafter
      rw [if_pos hclose, Text.utf8_cons_ascii (by decide), Text.utf8_cons_ascii (by decide),
        findPair, if_pos ⟨rfl, rfl⟩]
      rfl
    · rw [if_neg hclose, Option.map_map]
      have hskip : findPair (utf8 (c :: t)) = (findPair (utf8 t)).map (c.utf8Size + ·) := by
        by_cases hc : c = '*'
        · subst hc
          rw [Text.utf8_cons_ascii (by decide), findPair_cons]
          · simp only [show ('*' : Char).utf8Size = 1 from rfl, Nat.add_comm 1]
          · rintro ⟨-, hslash⟩
            rw [Text.head?_utf8_eq_iff (by decide)] at hslash
            obtain ⟨after, rfl⟩ := List.head?_eq_some_iff.1 hslash
            exact hclose rfl
        · rw [Text.utf8_cons, findPair_append, String.length_utf8EncodeChar]
          exact fun b hb hstar => hc ((Text.eq_toUInt8_iff (by decide) hb).1 hstar)
      rw [hskip, ih, Option.map_map]
      rfl

/-- A comment is closed where the loop over its bytes finds the mark. -/
theorem findClose_utf8 (A : List UInt8) (t : Text) :
    findClose (A ++ utf8 t) A.length
      = (Text.breakOn? "*/".toList t).map fun (before, _) => A.length + byteSize before := by
  have hle : A.length ≤ (A ++ utf8 t).length := by simp
  rw [findClose, if_pos hle, List.drop_left, findPair_utf8, Option.map_map]
  rfl

end

end ApiDocs
