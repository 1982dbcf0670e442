import ApiDocs.Text.Basic
import Mathlib.Data.List.Basic
import Mathlib.Data.List.TakeWhile
/-!
# Lines of a text and of its parts

A line of a part of a text stands on a line of the whole text: on the one whose number is that of
the line in the part, moved by the line breaks in front of the part.  The first line of the part
may have text in front of it there, the last one may have text behind it.

Main definitions:

- `Text.lineAt?`: the line with a number.
- `Text.HasOnLine`: whether a text stands on the line with a number.

Main results:

- `Text.hasOnLine_of_part`: what stands on a line of a part stands on a line of the text.
- `Text.prefix_field_of_lines`: the lines that readers see start the pieces between line feeds.
-/

namespace ApiDocs

namespace Text

/-- The line with a number, counted from one; lines are divided by line feeds. -/
def lineAt? (s : Text) : Nat → Option Text
  | 0 => none
  | n + 1 => (fields '\n' s)[n]?

/-- Whether a text stands on the line with a number. -/
def HasOnLine (s : Text) (number : Nat) (t : Text) : Prop :=
  ∃ line, s.lineAt? number = some line ∧ t <:+: line

/-! ### Pieces between line feeds -/

/-- A separator starts a new field, and any other character joins the first one. -/
theorem fields_cons (separator c : Char) (s : Text) :
    fields separator (c :: s)
      = if c = separator then [] :: fields separator s
        else (fields separator s).modifyHead (c :: ·) := by
  unfold fields
  rw [List.splitOn_eq_splitOnP, List.splitOn_eq_splitOnP, List.splitOnP_cons_eq_if_modifyHead]
  simp only [beq_iff_eq]

/-- The pieces hold characters of the text alone, and no separator. -/
theorem mem_of_mem_fields {separator c : Char} {s piece : Text} (h : piece ∈ fields separator s)
    (hc : c ∈ piece) : c ∈ s ∧ c ≠ separator := by
  induction s generalizing piece with
  | nil =>
    rw [fields, List.splitOn_nil, List.mem_singleton] at h
    rw [h] at hc
    cases hc
  | cons d s ih =>
    have hlater : piece ∈ fields separator s → c ∈ d :: s ∧ c ≠ separator :=
      fun hpiece => (ih hpiece hc).imp_left (List.mem_cons_of_mem d)
    rw [fields_cons] at h
    by_cases hd : d = separator
    · rw [if_pos hd] at h
      rcases List.mem_cons.1 h with rfl | hpiece
      · cases hc
      · exact hlater hpiece
    · rw [if_neg hd] at h
      cases hfields : fields separator s with
      | nil =>
        rw [hfields] at h
        cases h
      | cons first pieces =>
        rw [hfields] at h ih hlater
        rcases List.mem_cons.1 h with rfl | hpiece
        · rcases List.mem_cons.1 hc with rfl | hfirst
          · exact ⟨List.mem_cons_self, hd⟩
          · exact (ih List.mem_cons_self hfirst).imp_left (List.mem_cons_of_mem d)
        · exact hlater (List.mem_cons_of_mem _ hpiece)

/-- No field holds the separator. -/
theorem not_mem_of_mem_fields {separator : Char} {s piece : Text}
    (h : piece ∈ fields separator s) : separator ∉ piece :=
  fun hmem => (mem_of_mem_fields h hmem).2 rfl

/-- The pieces around a separator. -/
theorem fields_append_cons (separator : Char) (s t : Text) :
    fields separator (s ++ separator :: t) = fields separator s ++ fields separator t :=
  List.splitOn_append_cons_self s t

/-- A text without separators belongs to the first piece of what follows it. -/
theorem fields_append {separator : Char} {s : Text} (h : separator ∉ s) (t : Text) :
    fields separator (s ++ t) = (fields separator t).modifyHead (s ++ ·) := by
  induction s with
  | nil =>
    have hid : (fun u : Text => [] ++ u) = id := rfl
    rw [List.nil_append, hid, List.modifyHead_id]
    rfl
  | cons c s ih =>
    rw [List.mem_cons, not_or] at h
    rw [List.cons_append, fields_cons, if_neg (Ne.symm h.1), ih h.2, List.modifyHead_modifyHead]
    rfl

/-- A text without the separator is one field. -/
theorem fields_of_not_mem {separator : Char} {s : Text} (h : separator ∉ s) :
    fields separator s = [s] :=
  List.splitOn_eq_singleton h

/-- The last piece is what follows the last separator. -/
theorem getLast?_fields (separator : Char) (s : Text) :
    (fields separator s).getLast? = some (lastField separator s) := by
  by_cases hmem : separator ∈ s
  · obtain ⟨last, before, hrest, hlast⟩ := List.eq_append_cons_of_mem (List.mem_reverse.2 hmem)
    obtain rfl : s = before.reverse ++ separator :: last.reverse := by
      rw [← List.reverse_reverse s, hrest]
      simp
    have hrun : lastField separator (before.reverse ++ separator :: last.reverse)
        = last.reverse := by
      rw [lastField, hrest, takeWhile_ne hlast]
    rw [fields_append_cons, fields_of_not_mem (mt List.mem_reverse.1 hlast), hrun,
      List.getLast?_concat]
  · have hrun : lastField separator s = s := by
      have hall : ∀ c ∈ s.reverse, decide (c ≠ separator) = true := fun c hc =>
        decide_eq_true fun heq => hmem (heq ▸ List.mem_reverse.1 hc)
      rw [lastField, List.takeWhile_eq_self_iff.2 hall, List.reverse_reverse]
    rw [fields_of_not_mem hmem, hrun, List.getLast?_singleton]

/-- A piece of a text ends a piece of any text that ends in this text. -/
theorem suffix_field_append (before s : Text) {i : Nat} {piece : Text}
    (h : (fields '\n' s)[i]? = some piece) :
    ∃ whole, (fields '\n' (before ++ s))[lineBreaks before + i]? = some whole ∧
      piece <:+ whole := by
  induction before with
  | nil =>
    refine ⟨piece, ?_, List.suffix_rfl⟩
    rwa [lineBreaks, List.count_nil, Nat.zero_add]
  | cons c before ih =>
    obtain ⟨whole, hwhole, hsuffix⟩ := ih
    rw [List.cons_append, fields_cons]
    by_cases hc : c = '\n'
    · subst hc
      have hbreaks : lineBreaks ('\n' :: before) + i = lineBreaks before + i + 1 := by
        rw [lineBreaks, List.count_cons_self, ← lineBreaks]
        omega
      rw [if_pos rfl, hbreaks, List.getElem?_cons_succ]
      exact ⟨whole, hwhole, hsuffix⟩
    · have hbreaks : lineBreaks (c :: before) = lineBreaks before :=
        List.count_cons_of_ne hc
      rw [if_neg hc, hbreaks, List.getElem?_modifyHead, hwhole]
      by_cases hzero : lineBreaks before + i = 0
      · rw [if_pos hzero]
        exact ⟨c :: whole, rfl, hsuffix.trans (List.suffix_cons c whole)⟩
      · rw [if_neg hzero]
        exact ⟨whole, rfl, hsuffix⟩

/-- A piece of a text starts a piece of any text that starts with this text. -/
theorem prefix_field_append (s after : Text) {i : Nat} {piece : Text}
    (h : (fields '\n' s)[i]? = some piece) :
    ∃ whole, (fields '\n' (s ++ after))[i]? = some whole ∧ piece <+: whole := by
  induction s generalizing i piece with
  | nil =>
    -- the only piece of the empty text is empty
    have hpiece : i = 0 ∧ piece = [] := by
      rw [fields, List.splitOn_nil, List.getElem?_singleton] at h
      by_cases hi : i = 0
      · rw [if_pos hi, Option.some.injEq] at h
        exact ⟨hi, h.symm⟩
      · rw [if_neg hi] at h
        cases h
    obtain ⟨rfl, rfl⟩ := hpiece
    have hlength : 0 < (fields '\n' after).length :=
      List.length_pos_of_ne_nil (List.splitOn_ne_nil '\n' after)
    exact ⟨(fields '\n' after)[0], List.getElem?_eq_getElem hlength, List.nil_prefix⟩
  | cons c s ih =>
    rw [List.cons_append, fields_cons]
    rw [fields_cons] at h
    by_cases hc : c = '\n'
    · rw [if_pos hc] at h ⊢
      cases i with
      | zero => exact ⟨piece, h, List.prefix_rfl⟩
      | succ i => exact ih h
    · rw [if_neg hc] at h ⊢
      cases i with
      | zero =>
        rw [List.getElem?_modifyHead_zero, Option.map_eq_some_iff] at h
        obtain ⟨first, hfirst, rfl⟩ := h
        obtain ⟨whole, hwhole, hprefix⟩ := ih hfirst
        rw [List.getElem?_modifyHead_zero, hwhole]
        exact ⟨c :: whole, rfl, List.cons_prefix_cons.2 ⟨rfl, hprefix⟩⟩
      | succ i =>
        rw [List.getElem?_modifyHead_succ] at h ⊢
        exact ih h

/-- What stands on a line of a part of a text stands on the line of the text with the number of
that line, moved by the line breaks in front of the part. -/
theorem hasOnLine_of_part (before part after : Text) {i : Nat} {piece t : Text}
    (hpiece : (fields '\n' part)[i]? = some piece) (ht : t <:+: piece) :
    HasOnLine (before ++ (part ++ after)) (1 + lineBreaks before + i) t := by
  obtain ⟨inside, hinside, hprefix⟩ := prefix_field_append part after hpiece
  obtain ⟨whole, hwhole, hsuffix⟩ := suffix_field_append before (part ++ after) hinside
  refine ⟨whole, ?_, (ht.trans hprefix.isInfix).trans hsuffix.isInfix⟩
  rw [Nat.add_assoc, Nat.add_comm 1]
  exact hwhole

/-! ### Lines -/

theorem prefix_dropReturn (line : Text) : lines.dropReturn line <+: line := by
  unfold lines.dropReturn
  split
  · exact List.dropLast_prefix line
  · exact List.prefix_rfl

/-- Each line is a start of the piece between two breaks. -/
theorem prefix_of_close {pieces : List Text} {i : Nat} {line : Text}
    (h : (lines.close pieces)[i]? = some line) :
    ∃ piece, pieces[i]? = some piece ∧ line <+: piece := by
  induction pieces generalizing i with
  | nil => simp [lines.close] at h
  | cons first rest ih =>
    cases rest with
    | nil =>
      rw [lines.close] at h
      split at h
      · simp at h
      · exact ⟨line, h, List.prefix_rfl⟩
    | cons second rest =>
      rw [lines.close] at h
      · cases i with
        | zero =>
          rw [List.getElem?_cons_zero, Option.some.injEq] at h
          exact ⟨first, rfl, h ▸ prefix_dropReturn first⟩
        | succ i => exact ih h
      · exact List.cons_ne_nil second rest

/-- A line of a text starts the piece between line feeds with its number. -/
theorem prefix_field_of_lines {s line : Text} {i : Nat} (h : (lines s)[i]? = some line) :
    ∃ piece, (fields '\n' s)[i]? = some piece ∧ line <+: piece :=
  prefix_of_close h

end Text

end ApiDocs
