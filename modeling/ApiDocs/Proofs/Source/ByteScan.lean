import ApiDocs.Proofs.Source.ByteLoops
import ApiDocs.Proofs.Source.Reading
import Mathlib.Data.List.ModifyLast
/-!
# A loop over the bytes of a source

The doc blocks of a source can be read from its bytes, with a loop that keeps places and takes
parts of the source between two of them.  A part is there only when its places are in order and no
character lies across one.  One turn of the loop reads what one lexeme of the source is.

Main definitions:

- `takePart`: the part of a source between two places in bytes.
- `ByteScan`, `ByteScan.step`, `ByteScan.run`: the state of the loop, one turn, and the loop.
- `ByteScan.After`: the states that the loop comes to, with the number of turns.
- `ByteScan.behind`: the state behind a lexeme that is no doc comment.

Main results:

- `takePart_eq_ok_iff`: the places that a part lies between.
- `step_or_opensDoc`: a turn reads the next lexeme unless a doc comment opens.
- `findClose_ahead`, `opensDoc_iff`: what a turn finds at a comment.
-/

namespace ApiDocs

open Text (utf8 byteSize IsBoundary Sees)

/-! ### The loop -/

/-- Why the loop over the bytes of a source stops without doc blocks. -/
inductive ScanStop
  | fault (f : Fault)
  /-- There is no byte at a place, or no part between two places. -/
  | badPlace
  /-- More turns are needed than are allowed. -/
  | unfinished
  deriving DecidableEq

/-- The part of a source between two places in bytes.  They must be in order, in the source, and
between characters. -/
def takePart (source : Text) (start stop : Nat) : Except ScanStop Text :=
  if start ≤ stop ∧ stop ≤ byteSize source ∧ IsBoundary source start ∧ IsBoundary source stop then
    .ok (Text.slice start stop source)
  else .error .badPlace

/-- Whether a byte is a blank between words. -/
def isBlankByte (b : UInt8) : Bool :=
  b == ' '.toUInt8 || b == '\t'.toUInt8 || b == '\n'.toUInt8 || b == '\x0c'.toUInt8 ||
    b == '\r'.toUInt8

/-- Whether a byte is one of an identifier: all bytes beyond ASCII are. -/
def isIdentByte (b : UInt8) : Bool :=
  isAlphaByte b || '0'.toUInt8 ≤ b && b ≤ '9'.toUInt8 || b == '_'.toUInt8 || b == '$'.toUInt8 ||
    0x80 ≤ b

/-- Where the loop is and what it has read.  The code of the last block starts at `codeStart` and
is set when the loop comes to its end; `breaks` line breaks stand before the place `counted`. -/
structure ByteScan where
  pos : Nat := 0
  codeStart : Nat := 0
  regexAllowed : Bool := true
  counted : Nat := 0
  breaks : Nat := 0
  blocks : List DocBlock := []

namespace ByteScan

/-- Counts the line breaks up to the place of the loop. -/
def countLines (source : Text) (s : ByteScan) : Except ScanStop ByteScan := do
  let passed ← takePart source s.counted s.pos
  return { s with counted := s.pos, breaks := s.breaks + (utf8 passed).count '\n'.toUInt8 }

/-- Sets the code of the last block, which ends at a place. -/
def closeCode (source : Text) (stop : Nat) (s : ByteScan) : Except ScanStop ByteScan :=
  if s.blocks.isEmpty then .ok s
  else do
    let code ← takePart source s.codeStart stop
    return { s with blocks := s.blocks.modifyLast fun b => { b with code := code } }

/-- The turn at the opening mark of a block comment.  A doc comment has a second asterisk that no
slash follows. -/
def stepComment (source : Text) (s : ByteScan) : Except ScanStop ByteScan :=
  let bytes := utf8 source
  if bytes[s.pos + 2]? = some '*'.toUInt8 ∧ bytes[s.pos + 3]? ≠ some '/'.toUInt8 then
    match findClose bytes (s.pos + 3) with
    | some close => do
      let s ← s.countLines source
      let s ← s.closeCode source s.pos
      let comment ← takePart source (s.pos + 3) close
      return { s with
        blocks := s.blocks ++ [⟨comment, [], s.breaks + 1⟩]
        codeStart := close + 2
        pos := close + 2 }
    | none => do
      let s ← s.countLines source
      throw (.fault (.unclosedComment (s.breaks + 1)))
  else
    match findClose bytes (s.pos + 2) with
    | some close => .ok { s with pos := close + 2 }
    | none => .ok { s with pos := bytes.length }

/-- One turn of the loop, at a place before the end. -/
def step (source : Text) (s : ByteScan) : Except ScanStop ByteScan :=
  let bytes := utf8 source
  match bytes[s.pos]? with
  | none => .error .badPlace
  | some b =>
    if b = '/'.toUInt8 ∧ bytes[s.pos + 1]? = some '*'.toUInt8 then s.stepComment source
    else if b = '/'.toUInt8 ∧ bytes[s.pos + 1]? = some '/'.toUInt8 then
      .ok { s with pos := runEnd bytes (· != '\n'.toUInt8) s.pos }
    else if b = '/'.toUInt8 then
      match if s.regexAllowed then skipRegex bytes false (s.pos + 1) else none with
      | some stop => .ok { s with pos := stop, regexAllowed := false }
      | none => .ok { s with pos := s.pos + 1, regexAllowed := true }
    else if b = '\''.toUInt8 ∨ b = '"'.toUInt8 ∨ b = '`'.toUInt8 then
      .ok { s with pos := skipQuoted bytes b (s.pos + 1), regexAllowed := false }
    else if isBlankByte b then .ok { s with pos := s.pos + 1 }
    else if isIdentByte b then do
      let stop := runEnd bytes isIdentByte s.pos
      let word ← takePart source s.pos stop
      return { s with pos := stop, regexAllowed := Lexeme.regexWords.contains word }
    else
      .ok { s with pos := s.pos + 1, regexAllowed := b != ')'.toUInt8 && b != ']'.toUInt8 }

/-- The loop with a number of turns at most, and the doc blocks that it reads. -/
def run (source : Text) : Nat → ByteScan → Except ScanStop (List DocBlock)
  | 0, s =>
    if s.pos < byteSize source then .error .unfinished
    else (s.closeCode source (byteSize source)).map (·.blocks)
  | turns + 1, s =>
    if s.pos < byteSize source then s.step source >>= run source turns
    else (s.closeCode source (byteSize source)).map (·.blocks)

/-- The states that the loop comes to from the start of a source, with the number of turns. -/
inductive After (source : Text) : Nat → ByteScan → Prop
  | start : After source 0 {}
  | turn {n : Nat} {s t : ByteScan} (before : After source n s) (more : s.pos < byteSize source)
      (hstep : s.step source = .ok t) : After source (n + 1) t

end ByteScan

/-! ### Parts of a source -/

/-- A part is there when its ends are in order, inside the source and between characters. -/
theorem takePart_eq_ok_iff {source : Text} {start stop : Nat} :
    (∃ t, takePart source start stop = .ok t) ↔
      start ≤ stop ∧ stop ≤ byteSize source ∧ IsBoundary source start ∧
        IsBoundary source stop := by
  unfold takePart
  split
  · next h => simp [h]
  · next h => simpa using h

/-- Between the places where a middle part of a source starts and ends stands that part. -/
theorem takePart_append (before part after : Text) :
    takePart (before ++ (part ++ after)) (byteSize before) (byteSize before + byteSize part)
      = .ok part := by
  have hstop : IsBoundary (before ++ (part ++ after)) (byteSize before + byteSize part) := by
    rw [← List.append_assoc, ← Text.byteSize_append]
    exact Text.isBoundary_byteSize (before ++ part) after
  rw [takePart, if_pos, Text.slice_append]
  refine ⟨Nat.le_add_right _ _, ?_, Text.isBoundary_byteSize before _, hstop⟩
  simp only [Text.byteSize_append]
  omega

/-! ### Tests of bytes -/

/-- The test for blanks sees on bytes what it sees on characters. -/
theorem sees_isBlank : Sees isBlankByte isSourceBlank :=
  ((((Text.sees_eq (by decide)).or (Text.sees_eq (by decide))).or (Text.sees_eq (by decide))).or
    (Text.sees_eq (by decide))).or (Text.sees_eq (by decide))

/-- The test for identifiers sees on bytes what it sees on characters. -/
theorem sees_isIdent : Sees isIdentByte isIdentChar := by
  refine Text.sees_of_ascii true (fun c hc => ?_) (fun b hb => ?_) (fun c hc => ?_)
  · exact Text.forall_ascii (p := fun c => isIdentByte c.toUInt8 = isIdentChar c)
      (by decide +kernel) hc
  · simp [isIdentByte, hb]
  · simp [isIdentChar, hc]

/-! ### What is ahead -/

/-- The marks of a block comment are four bytes. -/
theorem byteSize_block (body : Text) : byteSize (Lexeme.block body).text = byteSize body + 4 := by
  have hopen : byteSize "/*".toList = 2 := rfl
  have hclose : byteSize "*/".toList = 2 := rfl
  rw [Lexeme.text, Text.byteSize_append, Text.byteSize_append, hopen, hclose]
  omega

/-- The marks of a doc comment are five bytes. -/
theorem byteSize_doc (body : Text) : byteSize (Lexeme.doc body).text = byteSize body + 5 := by
  have hopen : byteSize "/**".toList = 3 := rfl
  have hclose : byteSize "*/".toList = 2 := rfl
  rw [Lexeme.text, Text.byteSize_append, Text.byteSize_append, hopen, hclose]
  omega

/-- The state behind a lexeme that is no doc comment. -/
def ByteScan.behind (s : ByteScan) (l : Lexeme) : ByteScan :=
  { s with pos := s.pos + byteSize l.text, regexAllowed := l.regexAfter s.regexAllowed }

section

variable {before t : Text} {c : Char} {s : ByteScan}

/-- The bytes from the place of the loop on are those of the text ahead. -/
theorem getElem?_ahead (hpos : s.pos = byteSize before) (rest : Text) (n : Nat) :
    (utf8 (before ++ rest))[s.pos + n]? = (utf8 rest)[n]? := by
  rw [hpos, Text.utf8_append, ← Text.length_utf8,
    List.getElem?_append_right (Nat.le_add_right _ _), Nat.add_sub_cancel_left]

/-- An ASCII character is one byte ahead. -/
theorem getElem?_utf8_ascii {x : Char} (hx : x.toNat < 0x80) (rest : Text) (n : Nat) :
    (utf8 (x :: rest))[n + 1]? = (utf8 rest)[n]? := by
  rw [Text.utf8_cons_ascii hx, List.getElem?_cons_succ]

/-- The first byte is that of an ASCII character when the text starts with it. -/
theorem getElem?_zero_eq_iff {x : Char} (hx : x.toNat < 0x80) (rest : Text) :
    (utf8 rest)[0]? = some x.toUInt8 ↔ rest.head? = some x := by
  rw [← List.head?_eq_getElem?, Text.head?_utf8_eq_iff hx]

/-- The first byte of a character ahead. -/
theorem exists_byte_ahead (hpos : s.pos = byteSize before) (c : Char) (t : Text) :
    ∃ b ∈ String.utf8EncodeChar c, (utf8 (before ++ c :: t))[s.pos]? = some b := by
  obtain ⟨b, tail, hbytes, -⟩ := Text.utf8EncodeChar_eq_cons c
  refine ⟨b, hbytes ▸ List.mem_cons_self, ?_⟩
  have hread := getElem?_ahead hpos (c :: t) 0
  rw [Nat.add_zero] at hread
  rw [hread, Text.utf8_cons, hbytes]
  rfl

/-- Behind a mark ahead, the place is as many bytes on. -/
theorem length_utf8_ahead (hpos : s.pos = byteSize before) (mark : Text) :
    (utf8 (before ++ mark)).length = s.pos + byteSize mark := by
  rw [Text.length_utf8, Text.byteSize_append, hpos]

/-! ### What the loops find ahead -/

/-- A run of bytes ahead ends where the run of characters ends. -/
theorem runEnd_ahead (hpos : s.pos = byteSize before) {p : UInt8 → Bool} {q : Char → Bool}
    (h : Sees p q) (t : Text) :
    runEnd (utf8 (before ++ t)) p s.pos = s.pos + byteSize (t.takeWhile q) := by
  have hend := runEnd_utf8 h (utf8 before) t
  rwa [← Text.utf8_append, Text.length_utf8, ← hpos] at hend

/-- A literal ahead ends where it ends in the text. -/
theorem skipQuoted_ahead (hpos : s.pos = byteSize before) (hascii : c.toNat < 0x80)
    (hescape : c ≠ '\\') (t : Text) :
    skipQuoted (utf8 (before ++ c :: t)) c.toUInt8 (s.pos + 1)
      = s.pos + 1 + byteSize (splitQuoted c t).1 := by
  have hone : byteSize [c] = 1 := Text.utf8Size_ascii hascii
  have hend := skipQuoted_utf8 hascii hescape (utf8 (before ++ [c])) t
  rwa [← Text.utf8_append, List.append_assoc, length_utf8_ahead hpos, hone] at hend

/-- A regular expression ahead ends where it ends in the text. -/
theorem skipRegex_ahead (hpos : s.pos = byteSize before) (t : Text) :
    skipRegex (utf8 (before ++ '/' :: t)) false (s.pos + 1)
      = (splitRegex false t).map fun (raw, _) => s.pos + 1 + byteSize raw := by
  have hone : byteSize ['/'] = 1 := rfl
  have hend := skipRegex_utf8 false (utf8 (before ++ ['/'])) t
  rwa [← Text.utf8_append, List.append_assoc, length_utf8_ahead hpos, hone] at hend

/-- The place of the mark that closes a comment whose body is ahead behind an opening mark. -/
theorem findClose_ahead (hpos : s.pos = byteSize before) (mark t : Text) :
    findClose (utf8 (before ++ (mark ++ t))) (s.pos + byteSize mark)
      = (Text.breakOn? "*/".toList t).map fun (body, _) =>
          s.pos + byteSize mark + byteSize body := by
  have hclose := findClose_utf8 (utf8 (before ++ mark)) t
  rwa [← Text.utf8_append, List.append_assoc, length_utf8_ahead hpos] at hclose

/-! ### One turn -/

/-- A turn at a character other than a slash tests the first byte, which tells as much as the
character. -/
theorem step_eq_of_ne_slash (hpos : s.pos = byteSize before) (hslash : c ≠ '/') (t : Text) :
    ∃ b ∈ String.utf8EncodeChar c, s.step (before ++ c :: t) =
      let bytes := utf8 (before ++ c :: t)
      let stop := runEnd bytes isIdentByte s.pos
      if c = '\'' ∨ c = '"' ∨ c = '`' then
        .ok { s with pos := skipQuoted bytes b (s.pos + 1), regexAllowed := false }
      else if isSourceBlank c then .ok { s with pos := s.pos + 1 }
      else if isIdentChar c then
        takePart (before ++ c :: t) s.pos stop >>= fun word =>
          .ok { s with pos := stop, regexAllowed := Lexeme.regexWords.contains word }
      else .ok { s with pos := s.pos + 1, regexAllowed := c != ')' && c != ']' } := by
  obtain ⟨b, hb, hread⟩ := exists_byte_ahead hpos c t
  have heq : ∀ x : Char, x.toNat < 0x80 → (b = x.toUInt8 ↔ c = x) := fun x hx =>
    Text.eq_toUInt8_iff hx hb
  have hbne : ∀ x : Char, x.toNat < 0x80 → (b != x.toUInt8) = (c != x) := fun x hx =>
    congrArg (! ·) (Text.sees_eq hx c b hb)
  refine ⟨b, hb, ?_⟩
  unfold ByteScan.step
  simp only [hread, heq '/' (by decide), hslash, false_and, if_false, heq '\'' (by decide),
    heq '"' (by decide), heq '`' (by decide), sees_isBlank c b hb, sees_isIdent c b hb,
    hbne ')' (by decide), hbne ']' (by decide)]
  rfl

/-- A turn at a character other than a slash. -/
theorem step_of_ne_slash (hpos : s.pos = byteSize before) (hslash : c ≠ '/') (t : Text) :
    s.step (before ++ c :: t) = .ok (s.behind (readLexeme s.regexAllowed c t).1) := by
  obtain ⟨b, hb, hstep⟩ := step_eq_of_ne_slash hpos hslash t
  have hsize : isIdentChar c = false → c.utf8Size = 1 := fun h => by
    refine Text.utf8Size_ascii (Nat.not_le.1 fun hhigh => ?_)
    simp [isIdentChar, hhigh] at h
  rw [hstep]
  unfold readLexeme
  rw [if_neg hslash]
  by_cases hquote : c = '\'' ∨ c = '"' ∨ c = '`'
  · have hascii : c.toNat < 0x80 := by rcases hquote with rfl | rfl | rfl <;> decide
    have hescape : c ≠ '\\' := by rcases hquote with rfl | rfl | rfl <;> decide
    obtain rfl : b = c.toUInt8 := (Text.eq_toUInt8_iff hascii hb).2 rfl
    simp only [if_pos hquote, skipQuoted_ahead hpos hascii hescape, ByteScan.behind, Lexeme.text,
      byteSize, Lexeme.regexAfter, Text.utf8Size_ascii hascii, Nat.add_assoc]
  · cases hblank : isSourceBlank c with
    | true =>
      have hnot : isIdentChar c = false := Bool.eq_false_iff.2 fun hident => by
        simp [(isIdentChar_cases hident).2.2] at hblank
      simp [hquote, ByteScan.behind, Lexeme.text, byteSize, hsize hnot, Lexeme.regexAfter]
    | false =>
      cases hident : isIdentChar c with
      | true =>
        have hend := runEnd_ahead hpos sees_isIdent (c :: t)
        rw [List.takeWhile_cons_of_pos hident] at hend
        have hpart := takePart_append before (c :: t.takeWhile isIdentChar)
          (t.dropWhile isIdentChar)
        rw [List.cons_append, List.takeWhile_append_dropWhile, ← hpos] at hpart
        simp only [if_neg hquote, Bool.false_eq_true, if_false, if_true, hend, hpart]
        rfl
      | false =>
        simp [hquote, ByteScan.behind, Lexeme.text, byteSize, hsize hident, Lexeme.regexAfter]

/-- A turn at a slash tests the next byte, which tells as much as the next character. -/
theorem step_slash_eq (hpos : s.pos = byteSize before) (t : Text) :
    s.step (before ++ '/' :: t) =
      let bytes := utf8 (before ++ '/' :: t)
      if t.head? = some '*' then s.stepComment (before ++ '/' :: t)
      else if t.head? = some '/' then
        .ok { s with pos := runEnd bytes (· != '\n'.toUInt8) s.pos }
      else
        match if s.regexAllowed then skipRegex bytes false (s.pos + 1) else none with
        | some stop => .ok { s with pos := stop, regexAllowed := false }
        | none => .ok { s with pos := s.pos + 1, regexAllowed := true } := by
  have hread : (utf8 (before ++ '/' :: t))[s.pos]? = some '/'.toUInt8 := by
    have h := getElem?_ahead hpos ('/' :: t) 0
    rwa [Nat.add_zero, (getElem?_zero_eq_iff (by decide) _).2 rfl] at h
  have hnext : (utf8 (before ++ '/' :: t))[s.pos + 1]? = (utf8 t)[0]? := by
    rw [getElem?_ahead hpos, getElem?_utf8_ascii (by decide)]
  unfold ByteScan.step
  simp only [hread, hnext, true_and, if_true,
    getElem?_zero_eq_iff (by decide : ('*' : Char).toNat < 0x80),
    getElem?_zero_eq_iff (by decide : ('/' : Char).toNat < 0x80)]

/-- A turn at a slash that opens no comment. -/
theorem step_of_plain_slash (hpos : s.pos = byteSize before)
    (hplain : ∀ d, t.head? = some d → d ≠ '*' ∧ d ≠ '/') :
    s.step (before ++ '/' :: t) = .ok (s.behind (readLexeme s.regexAllowed '/' t).1) := by
  have hstar : t.head? ≠ some '*' := fun h => (hplain _ h).1 rfl
  have hslash : t.head? ≠ some '/' := fun h => (hplain _ h).2 rfl
  rw [step_slash_eq hpos, readLexeme_slash _ hplain]
  simp only [hstar, hslash, if_false, skipRegex_ahead hpos]
  cases s.regexAllowed with
  | false => rfl
  | true =>
    cases splitRegex false t with
    | none => rfl
    | some parts =>
      simp only [if_true, Option.map_some, ByteScan.behind, Lexeme.text, Lexeme.regexAfter,
        Nat.add_assoc]
      rfl

/-- A turn at a line comment. -/
theorem step_of_line (hpos : s.pos = byteSize before) (t : Text) :
    s.step (before ++ '/' :: '/' :: t)
      = .ok (s.behind (.line (t.takeWhile (· ≠ '\n')))) := by
  have hbreak : Sees (· != '\n'.toUInt8) (· ≠ '\n') := fun c b hb => by
    rw [Bool.eq_iff_iff, bne_iff_ne, decide_eq_true_eq]
    exact not_congr (Text.eq_toUInt8_iff (by decide) hb)
  rw [step_slash_eq hpos]
  simp only [List.head?_cons, runEnd_ahead hpos hbreak]
  rfl

/-- Behind the opening mark of a block comment, two bytes tell whether it is a doc comment. -/
theorem opensDoc_iff (hpos : s.pos = byteSize before) (t : Text) :
    (utf8 (before ++ '/' :: '*' :: t))[s.pos + 2]? = some '*'.toUInt8 ∧
        (utf8 (before ++ '/' :: '*' :: t))[s.pos + 3]? ≠ some '/'.toUInt8 ↔
      ∃ u, t = '*' :: u ∧ u.head? ≠ some '/' := by
  have hread : ∀ n, (utf8 (before ++ '/' :: '*' :: t))[s.pos + (n + 2)]? = (utf8 t)[n]? := by
    intro n
    rw [getElem?_ahead hpos, getElem?_utf8_ascii (by decide), getElem?_utf8_ascii (by decide)]
  rw [hread 0, hread 1, getElem?_zero_eq_iff (by decide), List.head?_eq_some_iff]
  constructor
  · rintro ⟨⟨u, rfl⟩, hslash⟩
    rw [getElem?_utf8_ascii (by decide), ne_eq, getElem?_zero_eq_iff (by decide)] at hslash
    exact ⟨u, rfl, hslash⟩
  · rintro ⟨u, rfl, hslash⟩
    rw [getElem?_utf8_ascii (by decide), ne_eq, getElem?_zero_eq_iff (by decide)]
    exact ⟨⟨u, rfl⟩, hslash⟩

/-- A turn at an ordinary block comment. -/
theorem step_of_block (hpos : s.pos = byteSize before)
    (hblock : ∀ u, t = '*' :: u → u.head? = some '/') :
    s.step (before ++ '/' :: '*' :: t)
      = .ok (s.behind (readComment .block .openBlock t).1) := by
  have hordinary := mt (opensDoc_iff hpos t).1 fun ⟨u, ht, hslash⟩ => hslash (hblock u ht)
  have hclose : findClose (utf8 (before ++ '/' :: '*' :: t)) (s.pos + 2)
      = (Text.breakOn? "*/".toList t).map fun (body, _) => s.pos + 2 + byteSize body :=
    findClose_ahead hpos ['/', '*'] t
  rw [step_slash_eq hpos]
  simp only [List.head?_cons, if_true]
  unfold ByteScan.stepComment readComment
  simp only [hordinary, if_false, hclose]
  cases Text.breakOn? "*/".toList t with
  | none =>
    have hlength : (utf8 (before ++ '/' :: '*' :: t)).length
        = s.pos + byteSize (Lexeme.openBlock t).text := by
      rw [Text.length_utf8, Text.byteSize_append, ← hpos]
      rfl
    simp only [Option.map_none, hlength, ByteScan.behind, Lexeme.regexAfter]
  | some parts =>
    simp only [Option.map_some, ByteScan.behind, byteSize_block, Lexeme.regexAfter]
    congr 2
    omega

/-! ### Which lexemes are doc comments -/

/-- Two asterisks behind a slash open a doc comment, unless a slash follows. -/
theorem readLexeme_opensDoc (regexAllowed : Bool) (hslash : t.head? ≠ some '/') :
    readLexeme regexAllowed '/' ('*' :: '*' :: t) = readComment .doc .openDoc t := by
  rw [readLexeme, if_pos rfl, readSlash, if_neg hslash]

/-- An asterisk behind a slash opens a block comment where it opens no doc comment. -/
theorem readLexeme_opensBlock (regexAllowed : Bool)
    (hblock : ∀ u, t = '*' :: u → u.head? = some '/') :
    readLexeme regexAllowed '/' ('*' :: t) = readComment .block .openBlock t := by
  rw [readLexeme, if_pos rfl]
  unfold readSlash
  split
  · next u heq =>
    obtain rfl : t = '*' :: u := (List.cons.inj heq).2
    rw [if_pos (hblock u rfl)]
  · next heq => rw [(List.cons.inj heq).2]
  · next heq => exact absurd (List.cons.inj heq).1 (by decide)
  · next hstar _ => exact absurd rfl (hstar t)

/-- A block comment is no doc comment. -/
theorem docMark?_readComment_block (t : Text) :
    (readComment .block .openBlock t).1.docMark? = none := by
  unfold readComment
  split <;> rfl

/-- Nothing that starts without a slash is a doc comment. -/
theorem docMark?_of_ne_slash (regexAllowed : Bool) (hslash : c ≠ '/') (t : Text) :
    (readLexeme regexAllowed c t).1.docMark? = none := by
  unfold readLexeme
  rw [if_neg hslash]
  split
  · rfl
  · split
    · rfl
    · split <;> rfl

/-- A slash that opens no comment is no doc comment. -/
theorem docMark?_of_plain_slash (regexAllowed : Bool)
    (hplain : ∀ d, t.head? = some d → d ≠ '*' ∧ d ≠ '/') :
    (readLexeme regexAllowed '/' t).1.docMark? = none := by
  rw [readLexeme_slash regexAllowed hplain]
  split <;> rfl

/-- A turn reads the next lexeme unless a doc comment opens. -/
theorem step_or_opensDoc (hpos : s.pos = byteSize before) (c : Char) (t : Text) :
    (s.step (before ++ c :: t) = .ok (s.behind (readLexeme s.regexAllowed c t).1) ∧
        (readLexeme s.regexAllowed c t).1.docMark? = none) ∨
      c = '/' ∧ ∃ u, t = '*' :: '*' :: u ∧ u.head? ≠ some '/' := by
  by_cases hslash : c = '/'
  · subst hslash
    by_cases hstar : t.head? = some '*'
    · obtain ⟨u, rfl⟩ := List.head?_eq_some_iff.1 hstar
      by_cases hdoc : ∃ v, u = '*' :: v ∧ v.head? ≠ some '/'
      · obtain ⟨v, rfl, hv⟩ := hdoc
        exact .inr ⟨rfl, v, rfl, hv⟩
      · have hblock : ∀ v, u = '*' :: v → v.head? = some '/' := fun v hv =>
          Classical.not_not.1 fun hne => hdoc ⟨v, hv, hne⟩
        rw [readLexeme_opensBlock s.regexAllowed hblock]
        exact .inl ⟨step_of_block hpos hblock, docMark?_readComment_block u⟩
    · by_cases hline : t.head? = some '/'
      · obtain ⟨u, rfl⟩ := List.head?_eq_some_iff.1 hline
        exact .inl ⟨step_of_line hpos u, rfl⟩
      · have hplain : ∀ d, t.head? = some d → d ≠ '*' ∧ d ≠ '/' := by
          rintro d hd
          rw [hd, Option.some.injEq] at hstar hline
          exact ⟨hstar, hline⟩
        exact .inl ⟨step_of_plain_slash hpos hplain, docMark?_of_plain_slash _ hplain⟩
  · exact .inl ⟨step_of_ne_slash hpos hslash t, docMark?_of_ne_slash _ hslash t⟩

end

end ApiDocs
