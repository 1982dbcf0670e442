import ApiDocs.Proofs.Source.ByteLoops
import ApiDocs.Source.DocBlock
import Mathlib.Data.List.TakeWhile
/-!
# Where a regular expression ends

The loop over the bytes of a regular expression jumps over what a backslash takes with it and keeps
one flag for the brackets.  Read off the bytes alone, a byte is escaped when an odd number of
backslashes stands directly before it, and it is between brackets when the last bracket before it
that is not escaped opens them.  The literal ends at the first slash that is neither, if no line
break comes before that is not escaped.

A line break behind a backslash does not end the literal, so that it may run past its line.  This
is the only difference to a reader that stops at every line break.

Main definitions:

- `backslashesBefore`, `IsEscaped`, `StandsBare`: bytes behind backslashes, and the others.
- `InBrackets`, `Closes`: places between brackets, and slashes that close a literal.
- `ClosesFrom`: the first such slash with no bare line break before it.
- `LoopAt`: a place that the loop comes to, with its flag.
- `LiteralEnds`: the end of a literal among bytes, given what breaks its line.

Main results:

- `isEscaped_succ_iff`, `inBrackets_succ_iff`: what one byte more changes.
- `skipRegex_eq_some_iff_closesFrom`: the loop from any place that it comes to.
- `skipRegex_recognises_literals`: what the loop finds behind an opening slash.
- `escaped_break_hides_doc`: a literal that runs past its line.
-/

namespace ApiDocs

open Text (utf8 byteSize)

section

variable (bytes : List UInt8) (start i : Nat)

/-! ### Escaped bytes and brackets -/

/-- The number of backslashes directly before a place, back to the start of a literal. -/
def backslashesBefore : Nat :=
  (((bytes.take i).drop start).reverse.takeWhile (· = '\\'.toUInt8)).length

/-- An odd number of backslashes stands directly before a place. -/
def IsEscaped : Prop :=
  backslashesBefore bytes start i % 2 = 1

/-- A byte stands at a place and is not escaped. -/
def StandsBare (b : UInt8) : Prop :=
  bytes[i]? = some b ∧ ¬ IsEscaped bytes start i

/-- The last bracket before a place that is not escaped is an opening one. -/
def InBrackets : Prop :=
  ∃ j, start ≤ j ∧ j < i ∧ StandsBare bytes start j '['.toUInt8 ∧
    ∀ k, j < k → k < i →
      ¬ StandsBare bytes start k '['.toUInt8 ∧ ¬ StandsBare bytes start k ']'.toUInt8

/-- A slash stands at a place, neither escaped nor between brackets. -/
structure Closes : Prop where
  slash : StandsBare bytes start i '/'.toUInt8
  outside : ¬ InBrackets bytes start i

/-- From a place on, the first slash that closes a literal stands at `stop`, and no line break
before it that is not escaped. -/
structure ClosesFrom (stop : Nat) : Prop where
  le : i ≤ stop
  closes : Closes bytes start stop
  first : ∀ j, i ≤ j → j < stop → ¬ Closes bytes start j
  unbroken : ∀ j, i ≤ j → j < stop → ¬ StandsBare bytes start j '\n'.toUInt8

/-- A place that the loop comes to, with its flag: if a byte stands there, it is not escaped, and
the flag is set between brackets. -/
structure LoopAt (inClass : Bool) : Prop where
  le : start ≤ i
  bare : i < bytes.length → ¬ IsEscaped bytes start i
  flag : i < bytes.length → (inClass = true ↔ InBrackets bytes start i)

/-- The place behind a slash and the letters that follow it. -/
def behindFlags : Nat :=
  i + 1 + ((bytes.drop (i + 1)).takeWhile isAlphaByte).length

/-- The literal that a slash at `pos` opens ends at `found`: there the letters end behind the
first slash that closes it, and none of the line breaks `IsBreak` lies in between. -/
def LiteralEnds (pos : Nat) (IsBreak : Nat → Prop) (found : Nat) : Prop :=
  ∃ stop, pos < stop ∧ Closes bytes (pos + 1) stop ∧
    (∀ j, pos < j → j < stop → ¬ Closes bytes (pos + 1) j) ∧
    found = behindFlags bytes stop ∧ ∀ j, pos < j → j < found → ¬ IsBreak j

end

variable {bytes : List UInt8} {start i stop : Nat} {b c : UInt8} {inClass : Bool}

/-- A backslash adds one to those in a row before the next place, and any other byte ends the
row. -/
theorem backslashesBefore_succ (hi : start ≤ i) (hb : bytes[i]? = some b) :
    backslashesBefore bytes start (i + 1)
      = if b = '\\'.toUInt8 then backslashesBefore bytes start i + 1 else 0 := by
  have hlt : i < bytes.length := (List.getElem?_eq_some_iff.1 hb).1
  have hslice : (bytes.take (i + 1)).drop start = (bytes.take i).drop start ++ [b] := by
    rw [List.take_add_one, hb, Option.toList_some, List.drop_append_of_le_length]
    rw [List.length_take]
    omega
  unfold backslashesBefore
  rw [hslice, List.reverse_concat, List.takeWhile_cons]
  by_cases hslash : b = '\\'.toUInt8 <;> simp [hslash]

/-- The byte behind a backslash is escaped, unless the backslash is escaped itself. -/
theorem isEscaped_succ_iff (hi : start ≤ i) (hb : bytes[i]? = some b) :
    IsEscaped bytes start (i + 1) ↔ b = '\\'.toUInt8 ∧ ¬ IsEscaped bytes start i := by
  unfold IsEscaped
  rw [backslashesBefore_succ hi hb]
  split
  next hslash =>
    rw [and_iff_right hslash]
    omega
  next hslash => simp [hslash]

theorem not_isEscaped_start : ¬ IsEscaped bytes start start := by
  unfold IsEscaped backslashesBefore
  rw [List.drop_eq_nil_of_le (List.length_take_le start bytes)]
  decide

theorem StandsBare.unique (hb : StandsBare bytes start i b) (hc : StandsBare bytes start i c) :
    b = c :=
  Option.some.inj (hb.1.symm.trans hc.1)

/-- Behind a bare bracket that opens, the place stands in brackets. -/
theorem StandsBare.inBrackets_succ (hi : start ≤ i) (h : StandsBare bytes start i '['.toUInt8) :
    InBrackets bytes start (i + 1) :=
  ⟨i, hi, Nat.lt_succ_self i, h, fun k hik hk => by omega⟩

/-- Behind a bare bracket that closes, it does not. -/
theorem StandsBare.not_inBrackets_succ (h : StandsBare bytes start i ']'.toUInt8) :
    ¬ InBrackets bytes start (i + 1) := by
  rintro ⟨j, -, hji, hopen, hlast⟩
  rcases Nat.lt_succ_iff_lt_or_eq.1 hji with hlt | rfl
  · exact (hlast i hlt (Nat.lt_succ_self i)).2 h
  · exact absurd (hopen.unique h) (by decide)

/-- A byte that is no bracket changes nothing. -/
theorem inBrackets_succ_iff (hopen : ¬ StandsBare bytes start i '['.toUInt8)
    (hclose : ¬ StandsBare bytes start i ']'.toUInt8) :
    InBrackets bytes start (i + 1) ↔ InBrackets bytes start i := by
  constructor
  · rintro ⟨j, hj, hji, hfound, hlast⟩
    rcases Nat.lt_succ_iff_lt_or_eq.1 hji with hlt | rfl
    · exact ⟨j, hj, hlt, hfound, fun k hjk hk => hlast k hjk (Nat.lt_succ_of_lt hk)⟩
    · exact absurd hfound hopen
  · rintro ⟨j, hj, hlt, hfound, hlast⟩
    refine ⟨j, hj, Nat.lt_succ_of_lt hlt, hfound, fun k hjk hk => ?_⟩
    rcases Nat.lt_succ_iff_lt_or_eq.1 hk with hki | rfl
    · exact hlast k hjk hki
    · exact ⟨hopen, hclose⟩

theorem not_inBrackets_start : ¬ InBrackets bytes start start := by
  rintro ⟨j, hj, hlt, -⟩
  omega

/-! ### The loop -/

/-- A byte that neither closes the literal nor breaks its line is passed. -/
theorem closesFrom_succ_iff (hclose : ¬ Closes bytes start i)
    (hbreak : ¬ StandsBare bytes start i '\n'.toUInt8) :
    ClosesFrom bytes start (i + 1) stop ↔ ClosesFrom bytes start i stop := by
  have hmore : ∀ {p : Nat → Prop}, ¬ p i →
      ((∀ j, i + 1 ≤ j → j < stop → ¬ p j) ↔ ∀ j, i ≤ j → j < stop → ¬ p j) := by
    intro p hp
    refine ⟨fun h j hij hj => ?_, fun h j hij => h j (Nat.le_of_succ_le hij)⟩
    rcases Nat.eq_or_lt_of_le hij with rfl | hlt
    · exact hp
    · exact h j hlt hj
  constructor
  · intro h
    exact ⟨Nat.le_of_succ_le h.le, h.closes, (hmore hclose).1 h.first, (hmore hbreak).1 h.unbroken⟩
  · intro h
    have hne : i ≠ stop := fun heq => hclose (heq ▸ h.closes)
    exact ⟨Nat.lt_of_le_of_ne h.le hne, h.closes, (hmore hclose).2 h.first,
      (hmore hbreak).2 h.unbroken⟩

/-- There is at most one place where a literal closes. -/
theorem ClosesFrom.unique {other : Nat} (h : ClosesFrom bytes start i stop)
    (h' : ClosesFrom bytes start i other) : stop = other := by
  rcases Nat.lt_trichotomy stop other with hlt | rfl | hlt
  · exact absurd h.closes (h'.first stop h.le hlt)
  · rfl
  · exact absurd h'.closes (h.first other h'.le hlt)

/-- The run of letters behind the closing slash ends behind the flags. -/
theorem runEnd_eq_behindFlags (hb : bytes[i]? = some b) :
    runEnd bytes isAlphaByte (i + 1) = behindFlags bytes i := by
  have hlt : i < bytes.length := (List.getElem?_eq_some_iff.1 hb).1
  have hrun := runEnd_append isAlphaByte (bytes.take (i + 1)) (bytes.drop (i + 1))
  rw [List.take_append_drop, List.length_take_of_le hlt] at hrun
  exact hrun

theorem LoopAt.standsBare (h : LoopAt bytes start i inClass) (hb : bytes[i]? = some b) :
    StandsBare bytes start i b :=
  ⟨hb, h.bare (List.getElem?_eq_some_iff.1 hb).1⟩

theorem loopAt_start : LoopAt bytes start start false where
  le := le_rfl
  bare _ := not_isEscaped_start
  flag _ := by simp [not_inBrackets_start]

/-- Behind a byte other than a backslash, the loop goes on with the flag for the next place. -/
theorem LoopAt.succ {inClass' : Bool} (h : LoopAt bytes start i inClass)
    (hb : bytes[i]? = some b) (hescape : b ≠ '\\'.toUInt8)
    (hflag : inClass' = true ↔ InBrackets bytes start (i + 1)) :
    LoopAt bytes start (i + 1) inClass' where
  le := Nat.le_succ_of_le h.le
  bare _ := fun hescaped => hescape ((isEscaped_succ_iff h.le hb).1 hescaped).1
  flag _ := hflag

section Jump

variable (h : LoopAt bytes start i inClass) (hb : bytes[i]? = some '\\'.toUInt8)
include h hb

/-- Behind a bare backslash nothing stands bare. -/
theorem LoopAt.not_standsBare_succ (c : UInt8) : ¬ StandsBare bytes start (i + 1) c :=
  fun hc => hc.2 ((isEscaped_succ_iff h.le hb).2 ⟨rfl, (h.standsBare hb).2⟩)

/-- The loop jumps over a backslash and what it escapes, and its flag stays. -/
theorem LoopAt.jump : LoopAt bytes start (i + 2) inClass where
  le := Nat.le_add_right_of_le h.le
  bare hlt hescaped := by
    have hnext : bytes[i + 1]? = some bytes[i + 1] := List.getElem?_eq_getElem (by omega)
    have hbare := ((isEscaped_succ_iff (Nat.le_succ_of_le h.le) hnext).1 hescaped).2
    exact h.not_standsBare_succ hb _ ⟨hnext, hbare⟩
  flag hlt := by
    have hbare := h.standsBare hb
    rw [h.flag (by omega),
      inBrackets_succ_iff (h.not_standsBare_succ hb _) (h.not_standsBare_succ hb _),
      inBrackets_succ_iff (fun hopen => absurd (hopen.unique hbare) (by decide))
        (fun hclose => absurd (hclose.unique hbare) (by decide))]

/-- No literal ends at a bare backslash or behind it, and no line. -/
theorem LoopAt.closesFrom_jump_iff :
    ClosesFrom bytes start (i + 2) stop ↔ ClosesFrom bytes start i stop := by
  have hbare := h.standsBare hb
  rw [closesFrom_succ_iff (fun hclose => h.not_standsBare_succ hb _ hclose.slash)
      (h.not_standsBare_succ hb _),
    closesFrom_succ_iff (fun hclose => absurd (hclose.slash.unique hbare) (by decide))
      (fun hbreak => absurd (hbreak.unique hbare) (by decide))]

end Jump

/-- From a place that it comes to, the loop finds the first slash that closes the literal, and
passes the flags behind it. -/
theorem skipRegex_eq_some_iff_closesFrom {found : Nat} (h : LoopAt bytes start i inClass) :
    skipRegex bytes inClass i = some found ↔
      ∃ stop, ClosesFrom bytes start i stop ∧ found = behindFlags bytes stop := by
  fun_induction skipRegex bytes inClass i with
  | case1 inClass i hnone =>
    refine iff_of_false (by simp) ?_
    rintro ⟨stop, hstop, -⟩
    have hlt : stop < bytes.length := (List.getElem?_eq_some_iff.1 hstop.closes.slash.1).1
    have hend : bytes.length ≤ i := List.getElem?_eq_none_iff.1 hnone
    exact absurd hstop.le (by omega)
  | case2 inClass i hb ih =>
    rw [ih (h.jump hb)]
    simp only [h.closesFrom_jump_iff hb]
  | case3 inClass i hb =>
    have hbreak := h.standsBare hb
    refine iff_of_false (by simp) ?_
    rintro ⟨stop, hstop, -⟩
    rcases Nat.eq_or_lt_of_le hstop.le with rfl | hlt
    · exact absurd (hstop.closes.slash.unique hbreak) (by decide)
    · exact hstop.unbroken i le_rfl hlt hbreak
  | case4 inClass i hb hescape hbreak ih =>
    have hopen := h.standsBare hb
    rw [ih (h.succ hb hescape (by simp [hopen.inBrackets_succ h.le]))]
    simp only [closesFrom_succ_iff (fun hclose => absurd (hclose.slash.unique hopen) (by decide))
      (fun hline => hbreak (hopen.unique hline))]
  | case5 inClass i hb hescape hbreak hopen ih =>
    have hclose := h.standsBare hb
    rw [ih (h.succ hb hescape (by simp [hclose.not_inBrackets_succ]))]
    simp only [closesFrom_succ_iff (fun hend => absurd (hend.slash.unique hclose) (by decide))
      (fun hline => hbreak (hclose.unique hline))]
  | case6 inClass i b hb hescape hbreak hopen hclose hslash =>
    obtain ⟨rfl, rfl⟩ := hslash
    have houtside : ¬ InBrackets bytes start i := fun hin =>
      absurd ((h.flag (List.getElem?_eq_some_iff.1 hb).1).2 hin) (by decide)
    have hhere : ClosesFrom bytes start i i :=
      ⟨le_rfl, ⟨h.standsBare hb, houtside⟩, fun j hij hji => by omega, fun j hij hji => by omega⟩
    rw [runEnd_eq_behindFlags hb, Option.some.injEq]
    constructor
    · rintro rfl
      exact ⟨i, hhere, rfl⟩
    · rintro ⟨stop, hstop, rfl⟩
      rw [hstop.unique hhere]
  | case7 inClass i b hb hescape hbreak hopen hclose hslash ih =>
    have hbare := h.standsBare hb
    have hbrackets : InBrackets bytes start (i + 1) ↔ InBrackets bytes start i :=
      inBrackets_succ_iff (fun hfound => hopen (hbare.unique hfound))
        (fun hfound => hclose (hbare.unique hfound))
    have hflag := h.flag (List.getElem?_eq_some_iff.1 hb).1
    have hpass : ¬ Closes bytes start i := fun hend => by
      refine hslash ⟨hbare.unique hend.slash, ?_⟩
      rw [← Bool.not_eq_true, hflag]
      exact hend.outside
    rw [ih (h.succ hb hescape (hflag.trans hbrackets.symm))]
    simp only [closesFrom_succ_iff hpass fun hline => hbreak (hbare.unique hline)]

/-! ### Literals -/

/-- Behind the slash that closes a literal there are letters up to its end. -/
theorem isAlphaByte_of_lt_behindFlags (hstop : stop < i) (hend : i < behindFlags bytes stop) :
    ∃ b, bytes[i]? = some b ∧ isAlphaByte b = true := by
  obtain ⟨n, rfl⟩ : ∃ n, i = stop + 1 + n := ⟨i - (stop + 1), by omega⟩
  have hn : n < ((bytes.drop (stop + 1)).takeWhile isAlphaByte).length := by
    unfold behindFlags at hend
    omega
  refine ⟨((bytes.drop (stop + 1)).takeWhile isAlphaByte)[n], ?_,
    List.mem_takeWhile_imp (List.getElem_mem hn)⟩
  rw [← List.getElem?_drop]
  exact List.prefix_iff_getElem?.1 (List.takeWhile_prefix isAlphaByte) n hn

/-- Neither the slash at the end nor a flag is a line break. -/
theorem ne_break_of_le (hslash : bytes[stop]? = some '/'.toUInt8) (hstop : stop ≤ i)
    (hend : i < behindFlags bytes stop) : bytes[i]? ≠ some '\n'.toUInt8 := by
  rcases Nat.eq_or_lt_of_le hstop with rfl | hlt
  · rw [hslash]
    decide
  · obtain ⟨b, hb, hletter⟩ := isAlphaByte_of_lt_behindFlags hlt hend
    rw [hb]
    rintro heq
    cases heq
    exact absurd hletter (by decide)

/-- A literal ends behind the flags of the slash that closes it. -/
theorem literalEnds_iff_closesFrom {pos found : Nat} :
    LiteralEnds bytes pos (StandsBare bytes (pos + 1) · '\n'.toUInt8) found ↔
      ∃ stop, ClosesFrom bytes (pos + 1) (pos + 1) stop ∧ found = behindFlags bytes stop := by
  constructor
  · rintro ⟨stop, hle, hcloses, hfirst, rfl, hunbroken⟩
    refine ⟨stop, ⟨hle, hcloses, hfirst, fun j hj hlt => hunbroken j hj ?_⟩, rfl⟩
    unfold behindFlags
    omega
  · rintro ⟨stop, h, rfl⟩
    refine ⟨stop, h.le, h.closes, h.first, rfl, fun j hj hlt hbreak => ?_⟩
    rcases Nat.lt_or_ge j stop with hbefore | hbehind
    · exact h.unbroken j hj hbefore hbreak
    · exact ne_break_of_le h.closes.slash.1 hbehind hlt hbreak.1

/-- Behind a slash, whatever the bytes, the loop finds the end of the literal that the slash opens,
where only a line break that is not escaped ends the line.  This is the end of a literal on one
line, whichever way line breaks are written, exactly when no line break lies before the end that
is found.  If the bytes are those of a source, the same literal is read from its characters. -/
theorem skipRegex_recognises_literals (bytes : List UInt8) (pos : Nat) :
    (∀ found, skipRegex bytes false (pos + 1) = some found ↔
        LiteralEnds bytes pos (StandsBare bytes (pos + 1) · '\n'.toUInt8) found) ∧
      ((∀ found, skipRegex bytes false (pos + 1) = some found ↔
          LiteralEnds bytes pos (bytes[·]? = some '\n'.toUInt8) found) ↔
        ∀ found, skipRegex bytes false (pos + 1) = some found →
          ∀ j, pos < j → j < found → bytes[j]? ≠ some '\n'.toUInt8) ∧
      ∀ (before s : Text), bytes = utf8 (before ++ '/' :: s) → pos = byteSize before →
        skipRegex bytes false (pos + 1)
          = (splitRegex false s).map fun (raw, _) => byteSize (before ++ '/' :: raw) := by
  have hends : ∀ found, skipRegex bytes false (pos + 1) = some found ↔
      LiteralEnds bytes pos (StandsBare bytes (pos + 1) · '\n'.toUInt8) found := by
    intro found
    rw [skipRegex_eq_some_iff_closesFrom loopAt_start, literalEnds_iff_closesFrom]
  refine ⟨hends, ⟨fun hline found hfound => ?_, fun hline found => ?_⟩, ?_⟩
  · obtain ⟨stop, -, -, -, -, hunbroken⟩ := (hline found).1 hfound
    exact hunbroken
  · constructor
    · intro hfound
      obtain ⟨stop, hle, hcloses, hfirst, heq, -⟩ := (hends found).1 hfound
      exact ⟨stop, hle, hcloses, hfirst, heq, hline found hfound⟩
    · rintro ⟨stop, hle, hcloses, hfirst, heq, hunbroken⟩
      exact (hends found).2
        ⟨stop, hle, hcloses, hfirst, heq, fun j hj hlt hbreak => hunbroken j hj hlt hbreak.1⟩
  · rintro before s rfl rfl
    have hsize : byteSize (before ++ ['/']) = byteSize before + 1 := Text.byteSize_append _ _
    have hread := skipRegex_utf8 false (utf8 (before ++ ['/'])) s
    rw [← Text.utf8_append, Text.length_utf8, hsize, List.append_assoc, List.singleton_append]
      at hread
    rw [hread]
    congr 1
    funext ⟨raw, after⟩
    change byteSize before + 1 + byteSize raw = byteSize (before ++ '/' :: raw)
    rw [← hsize, ← Text.byteSize_append, List.append_assoc, List.singleton_append]

/-- A literal that runs past its line hides everything up to its next slash: behind a backslash a
line break does not end it, and with it goes the opening of a doc comment. -/
theorem escaped_break_hides_doc :
    let source := "/\\\n/** B */".toList
    (utf8 source)[2]? = some '\n'.toUInt8 ∧
      skipRegex (utf8 source) false 1 = some 4 ∧
      ¬ LiteralEnds (utf8 source) 0 ((utf8 source)[·]? = some '\n'.toUInt8) 4 ∧
      docBlocks source = .ok [] := by
  intro source
  have hbreak : (utf8 source)[2]? = some '\n'.toUInt8 := by decide +kernel
  refine ⟨hbreak, by decide +kernel, ?_, by decide +kernel⟩
  rintro ⟨stop, -, -, -, -, hunbroken⟩
  exact hunbroken 2 (by decide) (by decide) hbreak

end ApiDocs
