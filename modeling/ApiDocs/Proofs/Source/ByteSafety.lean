import ApiDocs.Proofs.Source.ByteScan
import ApiDocs.Proofs.Source.Lossless
/-!
# Doc blocks read from bytes

The loop over the bytes of a source has always read some lexemes of it, and those ahead complete
its blocks to the doc blocks of the source.  So its places lie between characters, each part that
it takes is there, each turn moves on, and what it reads in the end are the doc blocks.

Main definitions:

- `finishBlocks`: the doc blocks of a source of which some blocks are read.
- `ByteScan.Tracks`: the state of the loop that has read some of a source.

Main results:

- `ByteScan.Tracks.step`: a turn reads on, or meets a doc comment that is never closed.
- `ByteScan.run_of_tracks`: the loop reads the doc blocks.
- `byteScan_safe`: the loop takes no part that is not there, moves on, and ends.
-/

namespace ApiDocs

open Text (utf8 byteSize IsBoundary)

/-! ### Doc blocks from the lexemes ahead -/

/-- The blocks with the given code for the last one. -/
def withCode (code : Text) (blocks : List DocBlock) : List DocBlock :=
  blocks.modifyLast fun b => { b with code := code }

@[simp]
theorem withCode_nil (code : Text) : withCode code [] = [] := rfl

@[simp]
theorem withCode_concat (code : Text) (blocks : List DocBlock) (b : DocBlock) :
    withCode code (blocks ++ [b]) = blocks ++ [{ b with code := code }] :=
  List.modifyLast_concat _ b blocks

/-- The doc blocks of a source of which some blocks are read, the last of them with `code` behind
it so far, and the lexemes are ahead on the given line. -/
def finishBlocks (blocks : List DocBlock) (code : Text) (line : Nat) (lexemes : List Lexeme) :
    Except Fault (List DocBlock) :=
  let parts := cut Lexeme.docMark? lexemes
  (placeBlocks (line + Text.lineBreaks (spell parts.1)) parts.2).map fun later =>
    withCode (code ++ spell parts.1) blocks ++ later

section

variable {blocks : List DocBlock} {code : Text} {line : Nat} {l : Lexeme} {lexemes : List Lexeme}

/-- At the start, all blocks are ahead. -/
theorem docBlocks_eq_finishBlocks (source : Text) :
    docBlocks source = finishBlocks [] [] 1 (scan source) := by
  unfold docBlocks finishBlocks
  cases h : placeBlocks _ _ <;> simp [h, Except.map]

/-- At the end, the last block gets its code. -/
theorem finishBlocks_nil : finishBlocks blocks code line [] = .ok (withCode code blocks) := by
  simp [finishBlocks, cut, placeBlocks, spell, Except.map]

/-- A lexeme that is no doc comment goes to the code. -/
theorem finishBlocks_cons (hl : l.docMark? = none) :
    finishBlocks blocks code line (l :: lexemes)
      = finishBlocks blocks (code ++ l.text) (line + Text.lineBreaks l.text) lexemes := by
  simp [finishBlocks, cut, hl, spell, Nat.add_assoc]

/-- A doc comment ends the code and opens a block. -/
theorem finishBlocks_doc (body : Text) :
    finishBlocks blocks code line (.doc body :: lexemes)
      = finishBlocks (withCode code blocks ++ [⟨body, [], line⟩]) []
          (line + Text.lineBreaks (Lexeme.doc body).text) lexemes := by
  have hbreaks : Text.lineBreaks (Lexeme.doc body).text = Text.lineBreaks body :=
    lineBreaks_docComment body
  have hspell : spell [] = [] := rfl
  have hzero : Text.lineBreaks [] = 0 := rfl
  simp only [finishBlocks, cut, Lexeme.docMark?, placeBlocks, hbreaks, hspell, hzero, Nat.add_zero,
    withCode_concat, List.append_nil, List.nil_append]
  cases placeBlocks _ (cut Lexeme.docMark? lexemes).2 <;> simp [Except.map]

/-- A doc comment that nothing closes is reported on its line. -/
theorem finishBlocks_openDoc (body : Text) :
    finishBlocks blocks code line (.openDoc body :: lexemes) = .error (.unclosedComment line) := by
  simp [finishBlocks, cut, Lexeme.docMark?, placeBlocks, spell, Text.lineBreaks, Except.map]

end

/-! ### What the loop has read -/

/-- The loop has read a source up to `rest`: the last doc comment ends behind `front`, and `code`
follows it.  Line breaks are counted in a part of `front`, and the lexemes ahead lead to the doc
blocks of the source. -/
structure ByteScan.Tracks (source : Text) (s : ByteScan) (front code rest : Text) : Prop where
  source_eq : source = front ++ (code ++ rest)
  pos_eq : s.pos = byteSize (front ++ code)
  codeStart_eq : s.codeStart = byteSize front
  counted : ∃ before after, front = before ++ after ∧ s.counted = byteSize before ∧
    s.breaks = Text.lineBreaks before
  result : docBlocks source = finishBlocks s.blocks code (1 + Text.lineBreaks (front ++ code))
    (scanFrom s.regexAllowed rest)

namespace ByteScan

/-- The loop starts with all of the source ahead. -/
theorem tracks_start (source : Text) : Tracks source {} [] [] source where
  source_eq := rfl
  pos_eq := rfl
  codeStart_eq := rfl
  counted := ⟨[], [], rfl, rfl, rfl⟩
  result := docBlocks_eq_finishBlocks source

variable {source front code rest t : Text} {c : Char} {s : ByteScan}

/-- The place of the loop and what is ahead make up the source. -/
theorem Tracks.size_eq (h : Tracks source s front code rest) :
    byteSize source = s.pos + byteSize rest := by
  rw [h.source_eq, h.pos_eq, ← List.append_assoc, Text.byteSize_append]

/-- The line count goes on to the place of the loop. -/
theorem Tracks.countLines_eq (h : Tracks source s front code rest) :
    s.countLines source
      = .ok { s with counted := s.pos, breaks := Text.lineBreaks (front ++ code) } := by
  obtain ⟨before, after, hfront, hcounted, hbreaks⟩ := h.counted
  have hpart := takePart_append before (after ++ code) rest
  have hsource : before ++ ((after ++ code) ++ rest) = source := by
    rw [h.source_eq, hfront, List.append_assoc, List.append_assoc]
  have hpos : byteSize before + byteSize (after ++ code) = s.pos := by
    rw [h.pos_eq, hfront, ← Text.byteSize_append, List.append_assoc]
  rw [hsource, hpos, ← hcounted] at hpart
  have hcount : s.breaks + (utf8 (after ++ code)).count '\n'.toUInt8
      = Text.lineBreaks (front ++ code) := by
    rw [Text.count_utf8 (by decide), hbreaks, hfront, List.append_assoc,
      Text.lineBreaks_append before]
    rfl
  unfold ByteScan.countLines
  rw [hpart]
  exact congrArg (fun breaks => Except.ok { s with counted := s.pos, breaks := breaks }) hcount

/-- The code behind the last block is there to be taken. -/
theorem Tracks.takePart_code (h : Tracks source s front code rest) :
    takePart source s.codeStart s.pos = .ok code := by
  have hpart := takePart_append front code rest
  rwa [← h.source_eq, ← Text.byteSize_append, ← h.pos_eq, ← h.codeStart_eq] at hpart

/-- The code that is taken belongs to the last block. -/
theorem closeCode_of_takePart {stop : Nat} (h : takePart source s.codeStart stop = .ok code) :
    s.closeCode source stop = .ok { s with blocks := withCode code s.blocks } := by
  unfold closeCode
  split
  · next hempty =>
    have hnil : s.blocks = [] := List.isEmpty_iff.1 hempty
    rw [hnil, withCode_nil, ← hnil]
  · rw [h]
    rfl

/-- Behind a lexeme that is no doc comment, the loop has read on. -/
theorem Tracks.behind (h : Tracks source s front code (c :: t))
    (hplain : (readLexeme s.regexAllowed c t).1.docMark? = none) :
    Tracks source (s.behind (readLexeme s.regexAllowed c t).1) front
      (code ++ (readLexeme s.regexAllowed c t).1.text) (readLexeme s.regexAllowed c t).2 where
  source_eq := by rw [List.append_assoc, readLexeme_append, ← h.source_eq]
  pos_eq := by
    rw [ByteScan.behind, h.pos_eq, ← List.append_assoc, Text.byteSize_append _ (Lexeme.text _)]
  codeStart_eq := h.codeStart_eq
  counted := h.counted
  result := by
    rw [h.result, scanFrom_cons, finishBlocks_cons hplain, ← List.append_assoc,
      Text.lineBreaks_append _ (Lexeme.text _), Nat.add_assoc]
    rfl

/-- The state behind a doc comment that opens where the loop is. -/
def behindDoc (s : ByteScan) (code body : Text) (breaks : Nat) : ByteScan where
  pos := s.pos + byteSize (Lexeme.doc body).text
  codeStart := s.pos + byteSize (Lexeme.doc body).text
  regexAllowed := s.regexAllowed
  counted := s.pos
  breaks := breaks
  blocks := withCode code s.blocks ++ [⟨body, [], breaks + 1⟩]

/-- Behind a doc comment, the loop has one block more and no code yet. -/
theorem Tracks.behindDoc {body : Text} (h : Tracks source s front code (c :: t))
    (hread : (readLexeme s.regexAllowed c t).1 = .doc body) :
    Tracks source (s.behindDoc code body (Text.lineBreaks (front ++ code)))
      (front ++ code ++ (Lexeme.doc body).text) [] (readLexeme s.regexAllowed c t).2 where
  source_eq := by
    rw [← hread, List.nil_append, List.append_assoc, readLexeme_append, List.append_assoc,
      ← h.source_eq]
  pos_eq := by rw [ByteScan.behindDoc, h.pos_eq, List.append_nil, ← Text.byteSize_append]
  codeStart_eq := by rw [ByteScan.behindDoc, h.pos_eq, ← Text.byteSize_append]
  counted := ⟨front ++ code, (Lexeme.doc body).text, rfl, h.pos_eq, rfl⟩
  result := by
    rw [h.result, scanFrom_cons, hread, finishBlocks_doc, List.append_nil,
      Text.lineBreaks_append _ (Lexeme.text _), ← Nat.add_assoc, Nat.add_comm 1 (Text.lineBreaks _)]
    rfl

/-- Where a doc comment opens, a turn looks for its closing mark behind the three characters that
open it. -/
theorem Tracks.opensDoc (h : Tracks source s front code ('/' :: '*' :: '*' :: t))
    (hslash : t.head? ≠ some '/') :
    s.step source = s.stepComment source ∧
      ((utf8 source)[s.pos + 2]? = some '*'.toUInt8 ∧
        (utf8 source)[s.pos + 3]? ≠ some '/'.toUInt8) ∧
      findClose (utf8 source) (s.pos + 3)
        = (Text.breakOn? "*/".toList t).map fun (body, _) => s.pos + 3 + byteSize body := by
  have hsource : source = (front ++ code) ++ '/' :: '*' :: '*' :: t := by
    rw [h.source_eq, List.append_assoc]
  rw [hsource]
  refine ⟨?_, (opensDoc_iff h.pos_eq ('*' :: t)).2 ⟨t, rfl, hslash⟩,
    findClose_ahead h.pos_eq ['/', '*', '*'] t⟩
  rw [step_slash_eq h.pos_eq]
  rfl

/-- A turn at a doc comment without a closing mark stops the loop. -/
theorem Tracks.step_of_openDoc (h : Tracks source s front code ('/' :: '*' :: '*' :: t))
    (hslash : t.head? ≠ some '/') (hbreak : Text.breakOn? "*/".toList t = none) :
    s.step source = .error (.fault (.unclosedComment (Text.lineBreaks (front ++ code) + 1))) := by
  obtain ⟨hstep, hopens, hclose⟩ := h.opensDoc hslash
  rw [hbreak, Option.map_none] at hclose
  rw [hstep, stepComment, if_pos hopens, hclose, h.countLines_eq]
  rfl

/-- A turn at a doc comment reads it up to its closing mark. -/
theorem Tracks.step_of_doc {body after : Text}
    (h : Tracks source s front code ('/' :: '*' :: '*' :: t)) (hslash : t.head? ≠ some '/')
    (hbreak : Text.breakOn? "*/".toList t = some (body, after)) :
    s.step source = .ok (s.behindDoc code body (Text.lineBreaks (front ++ code))) := by
  obtain ⟨hstep, hopens, hclose⟩ := h.opensDoc hslash
  rw [hbreak, Option.map_some] at hclose
  have hbody : takePart source (s.pos + 3) (s.pos + 3 + byteSize body) = .ok body := by
    have hpart := takePart_append (front ++ code ++ ['/', '*', '*']) body ("*/".toList ++ after)
    have hspelled : (front ++ code ++ ['/', '*', '*']) ++ (body ++ ("*/".toList ++ after))
        = source := by
      rw [h.source_eq, Text.eq_append_of_breakOn? hbreak]
      simp
    rwa [hspelled, Text.byteSize_append, ← h.pos_eq] at hpart
  have hcode := closeCode_of_takePart (s := { s with
    counted := s.pos, breaks := Text.lineBreaks (front ++ code) }) h.takePart_code
  have hend : s.pos + 3 + byteSize body + 2 = s.pos + byteSize (Lexeme.doc body).text := by
    rw [byteSize_doc]
    omega
  rw [hstep, stepComment, if_pos hopens, hclose, h.countLines_eq]
  simp only [bind, Except.bind, hcode, hbody, hend]
  rfl

/-- A turn reads the next lexeme, or meets a doc comment that is never closed. -/
theorem Tracks.step (h : Tracks source s front code (c :: t)) :
    (∃ s' front' code' rest', s.step source = .ok s' ∧ Tracks source s' front' code' rest' ∧
        s.pos < s'.pos) ∨
      ∃ line, s.step source = .error (.fault (.unclosedComment line)) ∧
        docBlocks source = .error (.unclosedComment line) := by
  have hsource : source = (front ++ code) ++ c :: t := by rw [h.source_eq, List.append_assoc]
  rcases step_or_opensDoc h.pos_eq c t with ⟨hstep, hplain⟩ | ⟨rfl, u, rfl, hslash⟩
  · have hmore : 0 < byteSize (readLexeme s.regexAllowed c t).1.text :=
      Text.byteSize_pos (text_readLexeme_ne_nil s.regexAllowed c t)
    refine .inl ⟨_, _, _, _, hsource ▸ hstep, h.behind hplain, ?_⟩
    exact Nat.lt_add_of_pos_right hmore
  · have hread := readLexeme_opensDoc s.regexAllowed hslash
    cases hbreak : Text.breakOn? "*/".toList u with
    | some parts =>
      have hdoc : (readLexeme s.regexAllowed '/' ('*' :: '*' :: u)).1 = .doc parts.1 := by
        rw [hread, readComment, hbreak]
      refine .inl ⟨_, _, _, _, h.step_of_doc hslash hbreak, h.behindDoc hdoc, ?_⟩
      rw [ByteScan.behindDoc, byteSize_doc]
      exact Nat.lt_add_of_pos_right (Nat.succ_pos _)
    | none =>
      refine .inr ⟨_, h.step_of_openDoc hslash hbreak, ?_⟩
      rw [h.result, scanFrom_cons, hread, readComment, hbreak, finishBlocks_openDoc, Nat.add_comm]

/-! ### The whole loop -/

/-- Behind the last lexeme, the code of the last block is all that is left to set. -/
theorem Tracks.finish (h : Tracks source s front code []) :
    (s.closeCode source (byteSize source)).map (·.blocks)
      = (docBlocks source).mapError ScanStop.fault := by
  have hend : byteSize source = s.pos := h.size_eq
  rw [hend, closeCode_of_takePart h.takePart_code, h.result, scanFrom, finishBlocks_nil]
  rfl

/-- With a character ahead, the place of the loop lies in the source. -/
theorem Tracks.pos_lt (h : Tracks source s front code (c :: t)) : s.pos < byteSize source := by
  rw [h.size_eq]
  exact Nat.lt_add_of_pos_right (Text.byteSize_pos (List.cons_ne_nil c t))

/-- With a turn for each byte ahead, the loop comes to its end, and it reads the doc blocks of the
source or finds the doc comment that is never closed. -/
theorem run_of_tracks {turns : Nat} (h : Tracks source s front code rest)
    (hturns : byteSize source ≤ s.pos + turns) :
    s.run source turns = (docBlocks source).mapError ScanStop.fault := by
  induction turns generalizing s front code rest with
  | zero =>
    have hend : ¬ s.pos < byteSize source := Nat.not_lt.2 hturns
    cases rest with
    | nil => rw [run, if_neg hend, h.finish]
    | cons c t => exact absurd h.pos_lt hend
  | succ turns ih =>
    cases rest with
    | nil =>
      have hend : ¬ s.pos < byteSize source := Nat.not_lt.2 (Nat.le_of_eq h.size_eq)
      rw [run, if_neg hend, h.finish]
    | cons c t =>
      rw [run, if_pos h.pos_lt]
      rcases h.step with ⟨s', front', code', rest', hstep, htracks, hlt⟩ | ⟨line, hstep, hresult⟩
      · rw [hstep]
        exact ih htracks (by omega)
      · rw [hstep, hresult]
        rfl

/-- At each state that the loop comes to, it has read some of the source, a byte a turn or more. -/
theorem After.tracks {n : Nat} (h : After source n s) :
    n ≤ s.pos ∧ ∃ front code rest, Tracks source s front code rest := by
  induction h with
  | start => exact ⟨Nat.le_refl 0, [], [], source, tracks_start source⟩
  | @turn n s s' before more hstep ih =>
    obtain ⟨hle, front, code, rest, htracks⟩ := ih
    cases rest with
    | nil => exact absurd more (Nat.not_lt.2 (Nat.le_of_eq htracks.size_eq))
    | cons c t =>
      rcases htracks.step with
        ⟨next, front', code', rest', hnext, htracks', hlt⟩ | ⟨line, hnext, -⟩
      · obtain rfl : next = s' := by simpa [hnext] using hstep
        exact ⟨Nat.lt_of_le_of_lt hle hlt, front', code', rest', htracks'⟩
      · simp [hnext] at hstep

end ByteScan

/-- The loop over the bytes of a source keeps its places in order, in the source and between
characters.  Each turn at a place before the end moves on, or meets a doc comment that is never
closed.  With a turn for each byte the loop ends, and it reads the doc blocks of the source.  So no
place is bad, and each part that is taken lies between characters. -/
theorem byteScan_safe (source : Text) :
    (∀ n s, ByteScan.After source n s →
      s.codeStart ≤ s.pos ∧ s.pos ≤ byteSize source ∧
        IsBoundary source s.codeStart ∧ IsBoundary source s.pos ∧ n ≤ s.pos ∧
        (s.pos < byteSize source →
          (∃ s', s.step source = .ok s' ∧ s.pos < s'.pos) ∨
            ∃ line, s.step source = .error (.fault (.unclosedComment line)))) ∧
      ByteScan.run source (byteSize source) {} = (docBlocks source).mapError ScanStop.fault ∧
      ∀ start stop, (∃ t, takePart source start stop = .ok t) ↔
        start ≤ stop ∧ stop ≤ byteSize source ∧ IsBoundary source start ∧
          IsBoundary source stop := by
  refine ⟨fun n s hafter => ?_, ?_, fun start stop => takePart_eq_ok_iff⟩
  · obtain ⟨hle, front, code, rest, htracks⟩ := hafter.tracks
    have hfront : IsBoundary source s.codeStart := by
      rw [htracks.source_eq, htracks.codeStart_eq]
      exact Text.isBoundary_byteSize front (code ++ rest)
    have hpos : IsBoundary source s.pos := by
      rw [htracks.source_eq, htracks.pos_eq, ← List.append_assoc]
      exact Text.isBoundary_byteSize (front ++ code) rest
    refine ⟨?_, ?_, hfront, hpos, hle, fun hmore => ?_⟩
    · rw [htracks.codeStart_eq, htracks.pos_eq, Text.byteSize_append]
      exact Nat.le_add_right _ _
    · rw [htracks.size_eq]
      exact Nat.le_add_right _ _
    · cases rest with
      | nil => exact absurd hmore (Nat.not_lt.2 (Nat.le_of_eq htracks.size_eq))
      | cons c t =>
        rcases htracks.step with ⟨s', _, _, _, hstep, -, hlt⟩ | ⟨line, hstep, -⟩
        · exact .inl ⟨s', hstep, hlt⟩
        · exact .inr ⟨line, hstep⟩
  · exact ByteScan.run_of_tracks (ByteScan.tracks_start source) (Nat.le_add_left _ _)

end ApiDocs
