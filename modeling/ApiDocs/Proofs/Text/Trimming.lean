import ApiDocs.Text.Blank
import ApiDocs.Text.Word
import Mathlib.Data.List.DropRight
/-!
# Trimmed texts and their lines

What tags and descriptions hold are texts without blanks at their ends.  Trimming leaves such a
text as it is and takes away the blanks put around it, lines that hold something are read back
from their text, and so are words.

Main definitions:

- `Unpadded`: no blank stands at an end of a text.

Main results:

- `trim_eq_self_iff`: the texts that trimming leaves as they are.
- `lines_joinWith`: lines that are not empty and do not end in a carriage return.
- `words_joinWith`: words with a blank between them.
- `isBlank_of_isWordChar`: no word character is blank.
-/

namespace ApiDocs

/-- No blank stands at an end of a text. -/
structure Unpadded (s : Text) : Prop where
  first : ∀ c, s.head? = some c → isBlank c = false
  last : ∀ c, s.getLast? = some c → isBlank c = false

/-- Between two characters that are not blank, any text may stand. -/
theorem unpadded_enclosed {a b : Char} (ha : isBlank a = false) (hb : isBlank b = false)
    (s : Text) : Unpadded (a :: (s ++ [b])) where
  first c hc := by
    obtain rfl : a = c := by simpa using hc
    exact ha
  last c hc := by
    rw [← List.cons_append, List.getLast?_concat] at hc
    obtain rfl : b = c := by simpa using hc
    exact hb

namespace Text

/-! ### Trimming -/

/-- A text that does not start with a blank is trimmed already. -/
theorem trimStart_eq_self {s : Text} (h : ∀ c, s.head? = some c → isBlank c = false) :
    trimStart s = s := by
  cases s with
  | nil => rfl
  | cons c s => simp [trimStart, h c rfl]

/-- A blank before a text is trimmed away. -/
theorem trimStart_blank {c : Char} (h : isBlank c = true) (s : Text) :
    trimStart (c :: s) = trimStart s := by
  simp [trimStart, h]

@[simp]
theorem trim_nil : trim [] = [] := rfl

@[simp]
theorem trimStart_trimStart (s : Text) : trimStart (trimStart s) = trimStart s :=
  List.dropWhile_idempotent isBlank s

@[simp]
theorem trim_trimStart (s : Text) : trim (trimStart s) = trim s := by
  rw [trim, trimStart_trimStart, ← trim]

/-- A blank before a text does not show in what trimming leaves. -/
theorem trim_cons_blank {c : Char} (h : isBlank c = true) (s : Text) : trim (c :: s) = trim s := by
  rw [← trim_trimStart, trimStart_blank h, trim_trimStart]

/-- A text without blanks at its ends stays as it is. -/
theorem trim_of_unpadded {s : Text} (h : Unpadded s) : trim s = s := by
  have hlast : s.reverse.dropWhile isBlank = s.reverse := by
    refine trimStart_eq_self fun c hc => h.last c ?_
    rwa [List.head?_reverse] at hc
  rw [trim, trimStart_eq_self h.first, trimEnd, hlast, List.reverse_reverse]

/-- Trimming the end leaves a start of the text. -/
theorem prefix_trim (s : Text) : trim s <+: trimStart s := by
  have hsuffix := List.dropWhile_suffix isBlank (l := (trimStart s).reverse)
  simpa [trim, trimEnd] using List.reverse_prefix.2 hsuffix

/-- Trimming the start leaves an end of the text. -/
theorem suffix_trimStart (s : Text) : trimStart s <:+ s :=
  List.dropWhile_suffix isBlank

/-- Trimming leaves a middle part of a text. -/
theorem infix_trim (s : Text) : trim s <:+: s :=
  (prefix_trim s).isInfix.trans (suffix_trimStart s).isInfix

/-- A trimmed text has no blanks at its ends. -/
theorem unpadded_trim (s : Text) : Unpadded (trim s) where
  first c hc := by
    obtain ⟨blanks, happend⟩ := prefix_trim s
    have hhead : (trimStart s).head? = some c := by
      rw [← happend, List.head?_append, hc]
      rfl
    have hnot := List.head?_dropWhile_not isBlank s
    rw [← trimStart, hhead] at hnot
    simpa using hnot
  last c hc := by
    have hnot := List.head?_dropWhile_not isBlank (trimStart s).reverse
    rw [trim, trimEnd, List.getLast?_reverse] at hc
    rw [hc] at hnot
    simpa using hnot

/-- Trimming leaves the texts without blanks at their ends as they are, and only these. -/
theorem trim_eq_self_iff {s : Text} : trim s = s ↔ Unpadded s :=
  ⟨fun h => h ▸ unpadded_trim s, trim_of_unpadded⟩

@[simp]
theorem trim_trim (s : Text) : trim (trim s) = trim s :=
  trim_of_unpadded (unpadded_trim s)

instance (s : Text) : Decidable (Unpadded s) :=
  decidable_of_iff (trim s = s) trim_eq_self_iff

/-- A blank in front of a text is trimmed. -/
theorem trim_blank {c : Char} (hc : isBlank c = true) {s : Text} (h : Unpadded s) :
    trim (c :: s) = s := by
  rw [trim_cons_blank hc, trim_of_unpadded h]

/-- What trimming takes from the end is blank. -/
theorem eq_trimEnd_append (s : Text) :
    ∃ blanks, s = trimEnd s ++ blanks ∧ ∀ c ∈ blanks, isBlank c = true := by
  refine ⟨(s.reverse.takeWhile isBlank).reverse, ?_, fun c hc => ?_⟩
  · rw [trimEnd, ← List.reverse_append, List.takeWhile_append_dropWhile, List.reverse_reverse]
  · exact List.mem_takeWhile_imp (List.mem_reverse.1 hc)

/-- What trimming the end takes away are blanks. -/
theorem trimStart_eq_trim_append (s : Text) :
    ∃ blanks, trimStart s = trim s ++ blanks ∧ ∀ c ∈ blanks, isBlank c = true :=
  eq_trimEnd_append (trimStart s)

/-- Any number of blanks before a text is trimmed away. -/
theorem trimStart_append_of_blank {blanks : Text} (h : ∀ c ∈ blanks, isBlank c = true)
    (s : Text) : trimStart (blanks ++ s) = trimStart s :=
  List.dropWhile_append_of_pos h

/-- When nothing is left of a text, all of it is blank. -/
theorem trimStart_eq_nil_of_trim {s : Text} (h : trim s = []) : trimStart s = [] := by
  obtain ⟨blanks, hs, hblank⟩ := trimStart_eq_trim_append s
  have hnone : trimStart (blanks ++ []) = trimStart [] := trimStart_append_of_blank hblank []
  rw [h, List.nil_append] at hs
  rw [List.append_nil, ← hs, trimStart_trimStart] at hnone
  exact hnone

/-- Nothing is left of blanks. -/
theorem trimEnd_of_blank {blanks : Text} (h : ∀ c ∈ blanks, isBlank c = true) :
    trimEnd blanks = [] := by
  rw [trimEnd, List.dropWhile_eq_nil_iff.2 fun c hc => h c (List.mem_reverse.1 hc),
    List.reverse_nil]

/-- Nothing in front of a character that is not blank is trimmed from the end. -/
theorem trimEnd_append_cons {c : Char} (hc : isBlank c = false) (s t : Text) :
    trimEnd (s ++ c :: t) = s ++ c :: trimEnd t := by
  have hself : (c :: s.reverse).dropWhile isBlank = c :: s.reverse :=
    List.dropWhile_cons_of_neg (by simp [hc])
  rw [trimEnd, trimEnd, List.reverse_append, List.reverse_cons, List.append_assoc,
    List.singleton_append, List.dropWhile_append, hself]
  split
  next hempty =>
    rw [List.isEmpty_iff] at hempty
    simp [hempty]
  next => simp

/-- Behind a character that is no blank, the end is trimmed by itself. -/
theorem trimEnd_append {s : Text} (h : ∀ c, s.getLast? = some c → isBlank c = false) (t : Text) :
    trimEnd (s ++ t) = s ++ trimEnd t := by
  rcases List.eq_nil_or_concat' s with rfl | ⟨s, c, rfl⟩
  · rfl
  · rw [List.append_assoc, List.append_assoc, List.singleton_append, List.singleton_append,
      trimEnd_append_cons (h c List.getLast?_concat)]

/-- Trimming takes no other characters than blanks. -/
theorem count_trim {c : Char} (hc : isBlank c = false) (s : Text) :
    (trim s).count c = s.count c := by
  have hnone : ∀ {blanks : Text}, (∀ d ∈ blanks, isBlank d = true) → blanks.count c = 0 := by
    intro blanks hblanks
    refine List.count_eq_zero.2 fun hmem => ?_
    rw [hblanks c hmem] at hc
    cases hc
  obtain ⟨blanks, hend, hblanks⟩ := trimStart_eq_trim_append s
  calc (trim s).count c
    _ = (trimStart s).count c := by rw [hend, List.count_append, hnone hblanks, Nat.add_zero]
    _ = (s.takeWhile isBlank).count c + (trimStart s).count c := by
      rw [hnone fun d hd => List.mem_takeWhile_imp hd, Nat.zero_add]
    _ = s.count c := by rw [← List.count_append, trimStart, List.takeWhile_append_dropWhile]

/-- Blanks around a text are trimmed; only its ends count for that. -/
theorem trim_append_cons {blanks s t : Text} {c : Char} (hblanks : ∀ c ∈ blanks, isBlank c = true)
    (hs : ∀ d, (s ++ [c]).head? = some d → isBlank d = false) (hc : isBlank c = false) :
    trim (blanks ++ (s ++ c :: t)) = s ++ c :: trimEnd t := by
  have hstart : trimStart (s ++ c :: t) = s ++ c :: t := by
    refine trimStart_eq_self fun d hd => hs d ?_
    rw [List.head?_append] at hd ⊢
    exact hd
  rw [trim, trimStart_append_of_blank hblanks, hstart, trimEnd_append_cons hc]

/-! ### Pieces with a separator between them -/

theorem joinWith_singleton (separator piece : Text) : joinWith separator [piece] = piece := by
  simp [joinWith]

/-- A separator stands between two pieces. -/
theorem joinWith_cons_cons (c : Char) (piece next : Text) (pieces : List Text) :
    joinWith [c] (piece :: next :: pieces) = piece ++ c :: joinWith [c] (next :: pieces) := by
  simp [joinWith, List.intercalate_cons_cons]

/-- The first piece, and then each further one behind a separator. -/
theorem joinWith_cons (c : Char) (piece : Text) (pieces : List Text) :
    joinWith [c] (piece :: pieces) = piece ++ pieces.flatMap (c :: ·) := by
  induction pieces generalizing piece with
  | nil => rw [joinWith_singleton, List.flatMap_nil, List.append_nil]
  | cons next pieces ih =>
    rw [joinWith_cons_cons, ih next, List.flatMap_cons, List.cons_append]

/-- Pieces without blanks at their ends stay so with separators between them. -/
theorem unpadded_joinWith {c : Char} {pieces : List Text}
    (h : ∀ p ∈ pieces, p ≠ [] ∧ Unpadded p) : Unpadded (joinWith [c] pieces) := by
  induction pieces with
  | nil => exact ⟨by simp [joinWith], by simp [joinWith]⟩
  | cons p pieces ih =>
    obtain ⟨⟨hp, hunpadded⟩, hrest⟩ := List.forall_mem_cons.1 h
    have hfirst : (joinWith [c] (p :: pieces)).head? = p.head? := by
      rw [joinWith_cons, List.head?_append_of_ne_nil p hp]
    refine ⟨fun d hd => hunpadded.first d (by rwa [hfirst] at hd), ?_⟩
    cases pieces with
    | nil =>
      rw [joinWith_singleton]
      exact hunpadded.last
    | cons next pieces =>
      have hnext : joinWith [c] (next :: pieces) ≠ [] := by
        rw [joinWith_cons]
        exact List.append_ne_nil_of_left_ne_nil (hrest next List.mem_cons_self).1 _
      intro d hd
      rw [joinWith_cons_cons, List.getLast?_append_cons, ← List.singleton_append,
        List.getLast?_append_of_ne_nil _ hnext] at hd
      exact (ih hrest).last d hd

/-! ### Lines -/

/-- Lines that hold something and do not end in a carriage return are read back. -/
theorem lines_joinWith {pieces : List Text}
    (hline : ∀ p ∈ pieces, '\n' ∉ p) (hend : ∀ p ∈ pieces, p ≠ [] ∧ p.getLast? ≠ some '\r') :
    lines (joinWith ['\n'] pieces) = pieces := by
  cases pieces with
  | nil => rfl
  | cons first rest =>
    have hfields : fields '\n' (joinWith ['\n'] (first :: rest)) = first :: rest :=
      List.splitOn_intercalate '\n' hline (List.cons_ne_nil first rest)
    rw [lines, hfields]
    clear hfields hline
    induction rest generalizing first with
    | nil =>
      have hne : first ≠ [] := (hend first List.mem_cons_self).1
      simp [lines.close, hne]
    | cons next rest ih =>
      obtain ⟨hfirst, hrest⟩ := List.forall_mem_cons.1 hend
      rw [lines.close, lines.dropReturn, if_neg hfirst.2, ih next hrest]
      exact List.cons_ne_nil next rest

/-! ### Words -/

/-- Words with a blank between them are read back. -/
theorem words_joinWith {pieces : List Text}
    (h : ∀ p ∈ pieces, p ≠ [] ∧ ∀ c ∈ p, isBlank c = false) :
    words (joinWith [' '] pieces) = pieces := by
  induction pieces with
  | nil => rfl
  | cons p pieces ih =>
    obtain ⟨⟨hp, hblank⟩, hrest⟩ := List.forall_mem_cons.1 h
    have hword : words p = [p] := by
      rw [words, List.splitOnP_eq_singleton hblank]
      simp [hp]
    cases pieces with
    | nil => rw [joinWith_singleton, hword]
    | cons next pieces =>
      have hsplit : words (p ++ ' ' :: joinWith [' '] (next :: pieces))
          = words p ++ words (joinWith [' '] (next :: pieces)) := by
        unfold words
        rw [List.splitOnP_append_cons _ _ (by decide), List.filter_append]
      rw [joinWith_cons_cons, hsplit, hword, ih hrest]
      rfl

end Text

/-! ### Word characters and blanks -/

/-- No word character is blank. -/
theorem isBlank_of_isWordChar {c : Char} (h : isWordChar c = true) : isBlank c = false := by
  have hclosed : ∀ range ∈ blankRanges, ∀ n ∈ List.range' range.1 (range.2 + 1 - range.1),
      isWordChar (Char.ofNat n) = false := by
    decide +kernel
  rw [isBlank, List.any_eq_false]
  intro range hrange hin
  simp only [Bool.and_eq_true, decide_eq_true_eq] at hin
  have hmem : c.toNat ∈ List.range' range.1 (range.2 + 1 - range.1) := by
    rw [List.mem_range'_1]
    omega
  have hnot := hclosed range hrange c.toNat hmem
  rw [Char.ofNat_toNat, h] at hnot
  exact absurd hnot (by decide)

/-- No other character stands in a text made of characters of one sort. -/
theorem not_mem_of_forall {p : Char → Bool} {s : Text} (h : ∀ c ∈ s, p c = true) {c : Char}
    (hc : p c = false) : c ∉ s := by
  intro hmem
  rw [h c hmem] at hc
  cases hc

end ApiDocs
