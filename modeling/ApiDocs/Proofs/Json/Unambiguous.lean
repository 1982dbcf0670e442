import ApiDocs.Json.Basic
/-!
# The text of a JSON value

No two values have the same text, in any layout that puts only blanks between the marks.  More
than that, no text starts with the texts of two values, so that where a value ends in front of
others is decided by the text itself: a quoted text ends at its first quote that is not escaped,
a list at the mark that stands where another comma would.

Main definitions:

- `Json.readQuotedChar?`: the character that the start of a quoted text stands for.
- `Json.Unambiguous`: an entry whose writing no other writing starts with.
- `Json.writeEntries`: the entries of a list or an object.
- `Json.Layout.Blank`: the layouts that put only blanks before entries.

Main results:

- `Json.quote_append_inj`: a quoted text and what follows it.
- `Json.unambiguous_writeEntries`: entries that can be told apart make lists that can be.
- `Json.unambiguous_writeAt`, `Json.write_injective`: the value of a text.
-/

namespace ApiDocs

namespace Json

/-! ### Quoted texts -/

/-- The value of a hexadecimal digit. -/
def hexValue (c : Char) : Nat :=
  if c.isDigit then c.toNat - '0'.toNat else c.toNat - 'a'.toNat + 10

/-- A digit tells its value. -/
theorem hexValue_hexDigit : ∀ n < 16, hexValue (hexDigit n) = n := by decide

/-- The characters that a backslash gives a name. -/
def escapes : List (Char × Char) :=
  [('"', '"'), ('\\', '\\'), ('b', '\x08'), ('t', '\t'), ('n', '\n'), ('f', '\x0c'), ('r', '\r')]

/-- The character that a text behind a backslash stands for, and what follows. -/
def readEscape? : Text → Option (Char × Text)
  | 'u' :: '0' :: '0' :: high :: low :: s =>
    some (Char.ofNat (16 * hexValue high + hexValue low), s)
  | name :: s => (escapes.lookup name).map fun c => (c, s)
  | [] => none

/-- The character that the start of a text between quotes stands for, and what follows; a quote
ends the text. -/
def readQuotedChar? : Text → Option (Char × Text)
  | [] => none
  | c :: s => if c = '\\' then readEscape? s else if c = '"' then none else some (c, s)

/-- A character is read back from its escaped form. -/
theorem readQuotedChar?_escapeChar (c : Char) (s : Text) :
    readQuotedChar? (escapeChar c ++ s) = some (c, s) := by
  unfold escapeChar
  by_cases hquote : c = '"'
  · subst hquote
    rfl
  by_cases hbackslash : c = '\\'
  · subst hbackslash
    rfl
  rw [if_neg hquote, if_neg hbackslash]
  by_cases hb : c = '\x08'
  · subst hb
    rfl
  by_cases ht : c = '\t'
  · subst ht
    rfl
  by_cases hn : c = '\n'
  · subst hn
    rfl
  by_cases hf : c = '\x0c'
  · subst hf
    rfl
  by_cases hr : c = '\r'
  · subst hr
    rfl
  rw [if_neg hb, if_neg ht, if_neg hn, if_neg hf, if_neg hr]
  by_cases hcontrol : c.toNat < 0x20
  · have hhigh := hexValue_hexDigit (c.toNat / 16) (by omega)
    have hlow := hexValue_hexDigit (c.toNat % 16) (by omega)
    have hread : readQuotedChar?
        (['\\', 'u', '0', '0', hexDigit (c.toNat / 16), hexDigit (c.toNat % 16)] ++ s)
          = some (Char.ofNat (16 * hexValue (hexDigit (c.toNat / 16))
              + hexValue (hexDigit (c.toNat % 16))), s) := rfl
    rw [if_pos hcontrol, hread, hhigh, hlow, Nat.div_add_mod, Char.ofNat_toNat]
  · rw [if_neg hcontrol, List.singleton_append, readQuotedChar?, if_neg hbackslash,
      if_neg hquote]

/-- Characters can be told apart between quotes. -/
theorem escapeChar_append_inj {c c' : Char} {s s' : Text}
    (h : escapeChar c ++ s = escapeChar c' ++ s') : c = c' ∧ s = s' := by
  have hread := congrArg readQuotedChar? h
  rw [readQuotedChar?_escapeChar, readQuotedChar?_escapeChar, Option.some.injEq] at hread
  exact Prod.mk.inj hread

/-- No escaped character starts with the quote that ends a text. -/
theorem escapeChar_append_ne_quote (c : Char) (s rest : Text) :
    escapeChar c ++ s ≠ '"' :: rest := by
  intro h
  have hread := congrArg readQuotedChar? h
  rw [readQuotedChar?_escapeChar] at hread
  cases hread

/-- A quoted text ends at its own quote. -/
theorem quote_append_inj {t t' rest rest' : Text} (h : quote t ++ rest = quote t' ++ rest') :
    t = t' ∧ rest = rest' := by
  have hbody : t.flatMap escapeChar ++ '"' :: rest = t'.flatMap escapeChar ++ '"' :: rest' := by
    simpa [quote] using h
  clear h
  induction t generalizing t' with
  | nil =>
    cases t' with
    | nil => exact ⟨rfl, (List.cons.inj hbody).2⟩
    | cons c' t' =>
      rw [List.flatMap_cons, List.append_assoc] at hbody
      exact absurd hbody.symm (escapeChar_append_ne_quote c' _ _)
  | cons c t ih =>
    rw [List.flatMap_cons, List.append_assoc] at hbody
    cases t' with
    | nil => exact absurd hbody (escapeChar_append_ne_quote c _ _)
    | cons c' t' =>
      rw [List.flatMap_cons, List.append_assoc] at hbody
      obtain ⟨rfl, hlater⟩ := escapeChar_append_inj hbody
      obtain ⟨rfl, hrest⟩ := ih hlater
      exact ⟨rfl, hrest⟩

/-! ### Entries -/

/-- No text starts with the writing of an entry and with that of another one, where a writing is
a function of what stands behind it. -/
def Unambiguous {α : Type} (write : Text → α → Text) (a : α) : Prop :=
  ∀ a' rest rest', write rest a = write rest' a' → a = a' ∧ rest = rest'

/-- A layout puts only blanks before entries. -/
def Layout.Blank (l : Layout) : Prop :=
  ∀ depth, ∀ c ∈ l.before depth, c = ' ' ∨ c = '\n'

/-- A compact layout puts nothing there at all. -/
theorem Layout.blank_compact : Layout.compact.Blank :=
  fun _ _ hc => absurd hc List.not_mem_nil

/-- An indented layout starts a line and goes in by spaces. -/
theorem Layout.blank_indented : Layout.indented.Blank := by
  intro depth c hc
  rcases List.mem_cons.1 hc with rfl | hspace
  · exact .inr rfl
  · exact .inl (List.eq_of_mem_replicate hspace)

/-- The entries after the first one, each behind a comma, in front of `rest`. -/
def writeMore {α : Type} (l : Layout) (write : Text → α → Text) (depth : Nat) (rest : Text) :
    List α → Text
  | [] => rest
  | a :: as => ',' :: (l.before depth ++ write (writeMore l write depth rest as) a)

/-- The entries of a list or an object inside `depth` others, with the mark that closes it, in
front of `rest`. -/
def writeEntries {α : Type} (l : Layout) (write : Text → α → Text) (close : Char) (depth : Nat)
    (rest : Text) : List α → Text
  | [] => close :: rest
  | a :: as =>
    l.before (depth + 1)
      ++ write (writeMore l write (depth + 1) (l.before depth ++ close :: rest) as) a

section Entries

variable {α : Type} {l : Layout} {write : Text → α → Text} {close : Char} {as : List α}

/-- Behind what a layout puts before an entry, the first mark is that of what follows. -/
theorem Layout.Blank.head? (hl : l.Blank) {depth : Nat} {s t : Text} {c : Char}
    (hspace : c ≠ ' ') (hline : c ≠ '\n') (h : l.before depth ++ s = c :: t) :
    s.head? = some c := by
  cases hbefore : l.before depth with
  | nil =>
    rw [hbefore, List.nil_append] at h
    rw [h]
    rfl
  | cons d ds =>
    rw [hbefore, List.cons_append, List.cons.injEq] at h
    have hblank : d = ' ' ∨ d = '\n' := hl depth d (hbefore ▸ List.mem_cons_self)
    rw [h.1] at hblank
    exact absurd hblank (not_or.2 ⟨hspace, hline⟩)

/-- Further entries can be told apart, since a comma or the closing mark stands before each. -/
theorem writeMore_inj (hl : l.Blank) (hcomma : close ≠ ',') {depth : Nat} {as' : List α}
    {rest rest' : Text} (has : ∀ a ∈ as, Unambiguous write a)
    (h : writeMore l write (depth + 1) (l.before depth ++ close :: rest) as
      = writeMore l write (depth + 1) (l.before depth ++ close :: rest') as') :
    as = as' ∧ rest = rest' := by
  -- the mark that closes stands where a comma would
  have hclose : ∀ s t, l.before depth ++ close :: s ≠ ',' :: t := by
    intro s t heq
    have hhead := hl.head? (by decide) (by decide) heq
    exact hcomma (Option.some.inj hhead)
  induction as generalizing as' with
  | nil =>
    cases as' with
    | nil => exact ⟨rfl, (List.cons.inj (List.append_cancel_left h)).2⟩
    | cons a' as' => exact absurd h (hclose _ _)
  | cons a as ih =>
    obtain ⟨ha, has⟩ := List.forall_mem_cons.1 has
    cases as' with
    | nil => exact absurd h.symm (hclose _ _)
    | cons a' as' =>
      rw [writeMore, writeMore, List.cons.injEq] at h
      obtain ⟨rfl, hlater⟩ := ha a' _ _ (List.append_cancel_left h.2)
      obtain ⟨rfl, hrest⟩ := ih has hlater
      exact ⟨rfl, hrest⟩

/-- Lists can be told apart when their entries can, and no entry starts with the mark that closes
the list. -/
theorem unambiguous_writeEntries (hl : l.Blank) (hcomma : close ≠ ',') (hspace : close ≠ ' ')
    (hline : close ≠ '\n') (hstart : ∀ rest a, (write rest a).head? ≠ some close) (depth : Nat)
    (has : ∀ a ∈ as, Unambiguous write a) :
    Unambiguous (writeEntries l write close depth) as := by
  have hne : ∀ s rest a, l.before (depth + 1) ++ write rest a ≠ close :: s := by
    intro s rest a heq
    exact hstart rest a (hl.head? hspace hline heq)
  intro as' rest rest' h
  cases as with
  | nil =>
    cases as' with
    | nil => exact ⟨rfl, (List.cons.inj h).2⟩
    | cons a' as' => exact absurd h.symm (hne _ _ _)
  | cons a as =>
    obtain ⟨ha, has⟩ := List.forall_mem_cons.1 has
    cases as' with
    | nil => exact absurd h (hne _ _ _)
    | cons a' as' =>
      obtain ⟨rfl, hmore⟩ := ha a' _ _ (List.append_cancel_left h)
      obtain ⟨rfl, hrest⟩ := writeMore_inj hl hcomma has hmore
      exact ⟨rfl, hrest⟩

end Entries

/-! ### Values -/

/-- Items are written as entries. -/
theorem writeItems_eq_writeMore (l : Layout) (depth : Nat) (rest : Text) (items : List Json) :
    writeItems l depth rest items = writeMore l (writeAt l depth) depth rest items := by
  induction items with
  | nil => rfl
  | cons item items ih => rw [writeItems, ih, writeMore]

/-- Fields are written as entries. -/
theorem writeFields_eq_writeMore (l : Layout) (depth : Nat) (rest : Text)
    (fields : List (Text × Json)) :
    writeFields l depth rest fields = writeMore l (writeField l depth) depth rest fields := by
  induction fields with
  | nil => rfl
  | cons field fields ih => rw [writeFields, ih, writeMore]

/-- A list is its entries behind a bracket. -/
theorem writeAt_arr (l : Layout) (depth : Nat) (rest : Text) (items : List Json) :
    writeAt l depth rest (.arr items)
      = '[' :: writeEntries l (writeAt l (depth + 1)) ']' depth rest items := by
  cases items with
  | nil => rfl
  | cons item items => rw [writeAt, writeItems_eq_writeMore, writeEntries]

/-- An object is its entries behind a brace. -/
theorem writeAt_obj (l : Layout) (depth : Nat) (rest : Text) (fields : List (Text × Json)) :
    writeAt l depth rest (.obj fields)
      = '\x7b' :: writeEntries l (writeField l (depth + 1)) '\x7d' depth rest fields := by
  cases fields with
  | nil => rfl
  | cons field fields => rw [writeAt, writeFields_eq_writeMore, writeEntries]

/-- The first character of the text of a value. -/
def opening : Json → Char
  | .bool b => if b then 't' else 'f'
  | .str _ => '"'
  | .arr _ => '['
  | .obj _ => '\x7b'

/-- The text of a value starts with its opening. -/
theorem head?_writeAt (l : Layout) (depth : Nat) (rest : Text) (j : Json) :
    (writeAt l depth rest j).head? = some j.opening := by
  cases j with
  | bool b => cases b <;> rfl
  | str t => rfl
  | arr items =>
    rw [writeAt_arr]
    rfl
  | obj fields =>
    rw [writeAt_obj]
    rfl

/-- No value starts with the bracket that closes a list. -/
theorem opening_ne_close (j : Json) : j.opening ≠ ']' := by
  cases j with
  | bool b => cases b <;> simp [opening]
  | _ => simp [opening]

variable {l : Layout}

mutual

/-- A value can be told apart from all others by its text, whatever follows it. -/
theorem unambiguous_writeAt (hl : l.Blank) (depth : Nat) (j : Json) :
    Unambiguous (writeAt l depth) j := by
  intro j' rest rest' h
  have hopening : j.opening = j'.opening := by
    have hhead := congrArg List.head? h
    rw [head?_writeAt, head?_writeAt] at hhead
    exact Option.some.inj hhead
  cases j with
  | bool b =>
    cases j' with
    | bool b' =>
      cases b <;> cases b'
      · exact ⟨rfl, List.append_cancel_left h⟩
      · simp [opening] at hopening
      · simp [opening] at hopening
      · exact ⟨rfl, List.append_cancel_left h⟩
    | _ => cases b <;> simp [opening] at hopening
  | str t =>
    cases j' with
    | str t' =>
      obtain ⟨rfl, hrest⟩ := quote_append_inj h
      exact ⟨rfl, hrest⟩
    | bool b' => cases b' <;> simp [opening] at hopening
    | _ => simp [opening] at hopening
  | arr items =>
    cases j' with
    | arr items' =>
      rw [writeAt_arr, writeAt_arr, List.cons.injEq] at h
      have hstart : ∀ rest j, (writeAt l (depth + 1) rest j).head? ≠ some ']' := by
        intro rest j heq
        rw [head?_writeAt] at heq
        exact opening_ne_close j (Option.some.inj heq)
      obtain ⟨rfl, hrest⟩ := unambiguous_writeEntries hl (by decide) (by decide) (by decide)
        hstart depth (unambiguous_of_mem_items hl (depth + 1) items) items' rest rest' h.2
      exact ⟨rfl, hrest⟩
    | bool b' => cases b' <;> simp [opening] at hopening
    | _ => simp [opening] at hopening
  | obj fields =>
    cases j' with
    | obj fields' =>
      rw [writeAt_obj, writeAt_obj, List.cons.injEq] at h
      have hstart : ∀ rest field, (writeField l (depth + 1) rest field).head? ≠ some '\x7d' := by
        intro rest field
        cases field with
        | mk name value => simp [writeField, quote]
      obtain ⟨rfl, hrest⟩ := unambiguous_writeEntries hl (by decide) (by decide) (by decide)
        hstart depth (unambiguous_of_mem_fields hl (depth + 1) fields) fields' rest rest' h.2
      exact ⟨rfl, hrest⟩
    | bool b' => cases b' <;> simp [opening] at hopening
    | _ => simp [opening] at hopening

/-- The items of a list can be told apart. -/
theorem unambiguous_of_mem_items (hl : l.Blank) (depth : Nat) (items : List Json) :
    ∀ item ∈ items, Unambiguous (writeAt l depth) item := by
  cases items with
  | nil => exact List.forall_mem_nil _
  | cons item items =>
    exact List.forall_mem_cons.2
      ⟨unambiguous_writeAt hl depth item, unambiguous_of_mem_items hl depth items⟩

/-- A field can be told apart by its name and its value. -/
theorem unambiguous_writeField (hl : l.Blank) (depth : Nat) (field : Text × Json) :
    Unambiguous (writeField l depth) field := by
  cases field with
  | mk name value =>
    rintro ⟨name', value'⟩ rest rest' h
    obtain ⟨rfl, hvalue⟩ := quote_append_inj h
    rw [List.cons.injEq] at hvalue
    obtain ⟨rfl, hrest⟩ := unambiguous_writeAt hl depth value value' rest rest'
      (List.append_cancel_left hvalue.2)
    exact ⟨rfl, hrest⟩

/-- The fields of an object can be told apart. -/
theorem unambiguous_of_mem_fields (hl : l.Blank) (depth : Nat) (fields : List (Text × Json)) :
    ∀ field ∈ fields, Unambiguous (writeField l depth) field := by
  cases fields with
  | nil => exact List.forall_mem_nil _
  | cons field fields =>
    exact List.forall_mem_cons.2
      ⟨unambiguous_writeField hl depth field, unambiguous_of_mem_fields hl depth fields⟩

end

/-- No two values have the same text. -/
theorem write_injective (hl : l.Blank) : Function.Injective (write l) := by
  intro j j' h
  exact (unambiguous_writeAt hl 0 j j' [] [] h).1

end Json

end ApiDocs
