/-!
# Text

All text of this library is a list of characters, so that statements about it are
statements about lists.  This module holds the cuts that several readers share: the first
occurrence of a pattern, the fields between separators, and the removal of a fixed start.

Main definitions:

- `Text`: a list of characters, ordered by code point.
- `Text.dropStart?`: what follows a fixed start.
- `Text.breakOn?`: the two sides of the first occurrence of a pattern.
- `Text.fields`: the pieces between separators.
- `Text.ofNat`: a number in decimal digits.
- `Text.byteSize`, `Text.slice`: the length of a text in bytes, and what stands between two
  such places.
-/

namespace ApiDocs

/-- A text is the list of its characters. -/
abbrev Text := List Char

namespace Text

/-- The decimal digits of a number. -/
def ofNat (n : Nat) : Text :=
  Nat.toDigits 10 n

/-- What follows `start` in a text that begins with it. -/
def dropStart? (start s : Text) : Option Text :=
  if start.isPrefixOf s then some (s.drop start.length) else none

/-- What stands before and after the first occurrence of `pattern`. -/
def breakOn? (pattern : Text) : Text → Option (Text × Text)
  | [] => if pattern.isEmpty then some ([], []) else none
  | c :: s =>
    if pattern.isPrefixOf (c :: s) then some ([], (c :: s).drop pattern.length)
    else (breakOn? pattern s).map fun (before, after) => (c :: before, after)

/-- The pieces between the separators: one more than there are separators. -/
def fields (separator : Char) (s : Text) : List Text :=
  s.splitOn separator

/-- The last piece after the separators, the whole text when there is none. -/
def lastField (separator : Char) (s : Text) : Text :=
  (s.reverse.takeWhile (· ≠ separator)).reverse

/-- The pieces one after the other with `separator` between them. -/
def joinWith (separator : Text) (pieces : List Text) : Text :=
  separator.intercalate pieces

/-- The number of line breaks in a text. -/
def lineBreaks (s : Text) : Nat :=
  s.count '\n'

/-- The lines of a text.  A line ends at a line feed, and one carriage return right before
that line feed belongs to the break; nothing after the last line feed is no line. -/
def lines (s : Text) : List Text :=
  close (fields '\n' s)
where
  /-- The last field is not ended by a line feed: it keeps its carriage return, and it is a
  line only when it holds something. -/
  close : List Text → List Text
    | [] => []
    | [last] => if last.isEmpty then [] else [last]
    | line :: rest => dropReturn line :: close rest
  /-- A line without the carriage return at its end. -/
  dropReturn (line : Text) : Text :=
    if line.getLast? = some '\r' then line.dropLast else line

/-! ### Places in bytes -/

/-- The number of bytes of a text in UTF-8. -/
def byteSize : Text → Nat
  | [] => 0
  | c :: s => c.utf8Size + byteSize s

/-- What follows the first bytes of a text; a character that lies across the border is
dropped. -/
def dropBytes (n : Nat) : Text → Text
  | [] => []
  | c :: s => if n = 0 then c :: s else dropBytes (n - c.utf8Size) s

/-- The characters that lie within the first bytes of a text. -/
def takeBytes (n : Nat) : Text → Text
  | [] => []
  | c :: s => if c.utf8Size ≤ n then c :: takeBytes (n - c.utf8Size) s else []

/-- What stands between two places of a text, both counted in bytes. -/
def slice (start stop : Nat) (s : Text) : Text :=
  takeBytes (stop - start) (dropBytes start s)

/-! ### Laws of the cuts -/

/-- A start is dropped from a text that begins with it. -/
theorem dropStart?_append (start s : Text) : dropStart? start (start ++ s) = some s := by
  simp [dropStart?]

/-- A start is dropped only where the text begins with it. -/
theorem eq_append_of_dropStart? {start s rest : Text} (h : dropStart? start s = some rest) :
    s = start ++ rest := by
  unfold dropStart? at h
  split at h
  · next hp =>
    obtain ⟨t, rfl⟩ := List.isPrefixOf_iff_prefix.1 hp
    simp_all
  · simp at h

/-- A run of characters ends where one fails the test. -/
theorem takeWhile_run {p : Char → Bool} {run rest : Text} (hrun : ∀ c ∈ run, p c = true)
    (hrest : ∀ c, rest.head? = some c → p c = false) : (run ++ rest).takeWhile p = run := by
  rw [List.takeWhile_append_of_pos hrun]
  cases rest with
  | nil => exact List.append_nil run
  | cons c rest => simp [hrest c rfl]

/-- A run that ends where a test fails is dropped. -/
theorem dropWhile_run {p : Char → Bool} {run rest : Text} (hrun : ∀ c ∈ run, p c = true)
    (hrest : ∀ c, rest.head? = some c → p c = false) : (run ++ rest).dropWhile p = rest := by
  rw [List.dropWhile_append_of_pos hrun]
  cases rest with
  | nil => rfl
  | cons c rest => simp [hrest c rfl]

/-- A run of other characters goes on to the first occurrence of a character. -/
theorem forall_ne {a : Char} {s : Text} (h : a ∉ s) : ∀ c ∈ s, decide (c ≠ a) = true :=
  fun _ hc => decide_eq_true fun heq => h (heq ▸ hc)

/-- What stands before the first occurrence of a character. -/
theorem takeWhile_ne {a : Char} {s : Text} (h : a ∉ s) (t : Text) :
    (s ++ a :: t).takeWhile (· ≠ a) = s :=
  takeWhile_run (forall_ne h) (by simp)

/-- What stands from the first occurrence of a character on. -/
theorem dropWhile_ne {a : Char} {s : Text} (h : a ∉ s) (t : Text) :
    (s ++ a :: t).dropWhile (· ≠ a) = a :: t :=
  dropWhile_run (forall_ne h) (by simp)

/-- As many bytes as a text has are those of the text. -/
theorem dropBytes_append (s t : Text) : dropBytes s.byteSize (s ++ t) = t := by
  induction s with
  | nil => cases t <;> rfl
  | cons c s ih =>
    have hpos := c.utf8Size_pos
    simp only [byteSize, List.cons_append, dropBytes]
    rw [if_neg (by omega), Nat.add_sub_cancel_left, ih]

/-- As many bytes as a text has are taken as the text. -/
theorem takeBytes_append (s t : Text) : takeBytes s.byteSize (s ++ t) = s := by
  induction s with
  | nil =>
    cases t with
    | nil => rfl
    | cons c t =>
      have hpos := c.utf8Size_pos
      simp only [byteSize, List.nil_append, takeBytes]
      rw [if_neg (by omega)]
  | cons c s ih =>
    simp only [byteSize, List.cons_append, takeBytes]
    rw [if_pos (Nat.le_add_right _ _), Nat.add_sub_cancel_left, ih]

/-- Between the places where a middle part starts and ends stands that part. -/
theorem slice_append (s t u : Text) :
    slice s.byteSize (s.byteSize + t.byteSize) (s ++ (t ++ u)) = t := by
  rw [slice, dropBytes_append, Nat.add_sub_cancel_left, takeBytes_append]

/-- The two sides and the pattern between them make up the text. -/
theorem eq_append_of_breakOn? {pattern s before after : Text}
    (h : breakOn? pattern s = some (before, after)) : s = before ++ pattern ++ after := by
  induction s generalizing before with
  | nil => simp_all [breakOn?]
  | cons c s ih =>
    unfold breakOn? at h
    split at h
    · next hp =>
      obtain ⟨t, ht⟩ := List.isPrefixOf_iff_prefix.1 hp
      simp only [Option.some.injEq, Prod.mk.injEq] at h
      obtain ⟨rfl, rfl⟩ := h
      simp [← ht]
    · simp only [Option.map_eq_some_iff, Prod.exists, Prod.mk.injEq] at h
      obtain ⟨b, a, hs, rfl, rfl⟩ := h
      simp [ih hs]

/-- No occurrence of the pattern lies before the first one. -/
theorem not_infix_of_breakOn? {pattern s before after : Text} (hp : pattern ≠ [])
    (h : breakOn? pattern s = some (before, after)) : ¬ pattern <:+: before := by
  induction s generalizing before with
  | nil => simp [breakOn?, hp] at h
  | cons c s ih =>
    unfold breakOn? at h
    split at h
    · simp only [Option.some.injEq, Prod.mk.injEq] at h
      obtain ⟨rfl, -⟩ := h
      intro hin
      exact hp (List.infix_nil.1 hin)
    · next hstart =>
      simp only [Option.map_eq_some_iff, Prod.exists, Prod.mk.injEq] at h
      obtain ⟨b, a, hs, rfl, rfl⟩ := h
      intro hin
      rcases List.infix_cons_iff.1 hin with hpre | hin
      · have hb : c :: b <+: c :: s := by
          rw [eq_append_of_breakOn? hs, List.append_assoc]
          exact List.prefix_append (c :: b) _
        exact hstart (List.isPrefixOf_iff_prefix.2 (hpre.trans hb))
      · exact ih hs hin

/-- A text is not divided when the pattern stands nowhere in it. -/
theorem breakOn?_eq_none_iff {pattern s : Text} :
    breakOn? pattern s = none ↔ ¬ pattern <:+: s := by
  induction s with
  | nil => simp [breakOn?]
  | cons c s ih =>
    unfold breakOn?
    rw [List.infix_cons_iff, not_or, ← ih, ← List.isPrefixOf_iff_prefix]
    split
    · next hstart => simp [hstart]
    · next hstart => simp [hstart]

/-- A pattern of two different characters cannot overlap itself: behind a text without it, it
is found where it was put. -/
theorem breakOn?_append_pair {a b : Char} (hne : a ≠ b) {before : Text} (after : Text)
    (h : ¬ [a, b] <:+: before) :
    breakOn? [a, b] (before ++ a :: b :: after) = some (before, after) := by
  induction before with
  | nil => simp [breakOn?]
  | cons c before ih =>
    rw [List.infix_cons_iff, not_or] at h
    have hstart : ¬ [a, b] <+: c :: (before ++ a :: b :: after) := by
      intro hpre
      rw [List.cons_prefix_cons] at hpre
      obtain ⟨rfl, hpre⟩ := hpre
      cases before with
      | nil =>
        rw [List.nil_append, List.cons_prefix_cons] at hpre
        exact hne hpre.1.symm
      | cons d before =>
        rw [List.cons_append, List.cons_prefix_cons] at hpre
        obtain ⟨rfl, -⟩ := hpre
        exact h.1 (List.prefix_append [a, b] before)
    rw [List.cons_append, breakOn?, if_neg (by rwa [List.isPrefixOf_iff_prefix]), ih h.2]
    rfl

/-- Behind a text without it, a character is found where it was put. -/
theorem breakOn?_append_singleton {a : Char} {before : Text} (after : Text) (h : a ∉ before) :
    breakOn? [a] (before ++ a :: after) = some (before, after) := by
  induction before with
  | nil => simp [breakOn?]
  | cons c before ih =>
    rw [List.mem_cons, not_or] at h
    have hstart : ¬ [a] <+: c :: (before ++ a :: after) := fun hpre =>
      h.1 (List.cons_prefix_cons.1 hpre).1
    rw [List.cons_append, breakOn?, if_neg (by rwa [List.isPrefixOf_iff_prefix]), ih h.2]
    rfl

@[simp]
theorem lineBreaks_append (s t : Text) : lineBreaks (s ++ t) = lineBreaks s + lineBreaks t :=
  List.count_append

end Text

end ApiDocs
