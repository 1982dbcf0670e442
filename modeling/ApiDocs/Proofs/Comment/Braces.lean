import ApiDocs.Proofs.Comment.Heads
import ApiDocs.Proofs.Source.ByteScan
/-!
# The braces around a type

The type at the start of a text stands in a group of braces: the shortest part at the start, but
for the empty one, that is balanced.  A loop over the characters finds it: the loop counts the open
braces, and the group ends where the count first comes back to zero.  It keeps its place in bytes and
takes the type and what follows as parts of the text.

Main definitions:

- `BraceGroup`: the group that a text starts with, and what follows it.
- `BraceScan`, `BraceScan.step`, `BraceScan.run`: the state of the loop, one turn, and the loop.
- `BraceScan.Tracks`: the state of the loop that has read some of a text.

Main results:

- `BraceGroup.prefix_of_balanced`: the group is the shortest balanced part at the start.
- `BraceScan.Tracks.step`: a turn reads on, or finds the group.
- `BraceScan.Tracks.run`: the loop finds the group, or there is none.
- `read_shortest_group`: the reading of a type, and the loop that makes it.
-/

namespace ApiDocs

open Text (byteSize IsBoundary)

/-! ### Groups of braces -/

/-- The text starts with a balanced text in braces, and `rest` follows it. -/
structure BraceGroup (s inner rest : Text) : Prop where
  start : s = braced inner ++ rest
  balanced : BalancedBraces inner

variable {s inner inner' rest rest' type p : Text}

/-- In braces, a balanced text is balanced. -/
theorem balancedBraces_braced (h : BalancedBraces inner) : BalancedBraces (braced inner) where
  never_ahead p hp := by
    rcases List.prefix_cons_iff.1 hp with rfl | ⟨q, rfl, hq⟩
    · exact Nat.le_refl 0
    rcases List.prefix_concat_iff.1 hq with rfl | hq
    · simp [h.settled]
    · have hinner := h.never_ahead q hq
      simp only [List.count_cons_self, List.count_cons_of_ne (by decide : '{' ≠ '}')]
      omega
  settled := by simp [braced, h.settled]

/-- A group in braces is read. -/
theorem BraceGroup.read (h : BraceGroup s inner rest) :
    TypeReading.read s = .found (Text.trim inner) rest := by
  rw [h.start, TypeReading.read_braced rest h.balanced]

/-- What is read is a group in braces. -/
theorem exists_braceGroup_of_read (h : TypeReading.read s = .found type rest) :
    ∃ inner, BraceGroup s inner rest ∧ type = Text.trim inner := by
  unfold TypeReading.read at h
  split at h
  · next t =>
    split at h
    · next inner after hread =>
      cases h
      obtain ⟨rfl, hbalanced⟩ := readBraces_eq_some_iff.1 hread
      exact ⟨inner, ⟨by simp [braced], hbalanced⟩, rfl⟩
    · cases h
  · cases h

/-- A text starts with one group at most. -/
theorem BraceGroup.unique (h : BraceGroup s inner rest) (h' : BraceGroup s inner' rest') :
    inner' = inner ∧ rest' = rest := by
  have hsame : inner' ++ '}' :: rest' = inner ++ '}' :: rest := by
    simpa [braced] using h'.start.symm.trans h.start
  have hread : readBraces 0 (inner ++ '}' :: rest) = some (inner, rest) :=
    readBraces_eq_some_iff.2 ⟨rfl, h.balanced⟩
  have hread' : readBraces 0 (inner ++ '}' :: rest) = some (inner', rest') :=
    readBraces_eq_some_iff.2 ⟨hsame.symm, h'.balanced⟩
  rw [hread, Option.some.injEq] at hread'
  exact ⟨(congrArg Prod.fst hread').symm, (congrArg Prod.snd hread').symm⟩

/-- Each balanced part at the start of a text goes on to the end of the group at least. -/
theorem BraceGroup.prefix_of_balanced (h : BraceGroup s inner rest) (hp : p <+: s) (hne : p ≠ [])
    (hbalanced : BalancedBraces p) : braced inner <+: p := by
  have hgroup : braced inner <+: s := ⟨rest, h.start.symm⟩
  rcases List.prefix_or_prefix_of_prefix hgroup hp with hle | hle
  · exact hle
  rcases List.prefix_concat_iff.1 (show p <+: ('{' :: inner) ++ ['}'] from hle) with rfl | hinner
  · exact List.prefix_rfl
  rcases List.prefix_cons_iff.1 hinner with rfl | ⟨q, rfl, hq⟩
  · exact absurd rfl hne
  -- inside the group, the first brace is open still
  · have hahead := h.balanced.never_ahead q hq
    have hsettled := hbalanced.settled
    simp only [List.count_cons_self, List.count_cons_of_ne (by decide : '{' ≠ '}')] at hsettled
    omega

/-- The type is the part of the text behind the first brace and before the last one of the group. -/
theorem BraceGroup.takePart_inner (h : BraceGroup s inner rest) :
    takePart s 1 (byteSize ('{' :: inner)) = .ok inner := by
  have hpart := takePart_append ['{'] inner ('}' :: rest)
  have hs : ['{'] ++ (inner ++ '}' :: rest) = s := by simp [h.start, braced]
  rw [hs, ← Text.byteSize_append] at hpart
  exact hpart

/-- Behind the last brace of the group, the text goes on. -/
theorem BraceGroup.takePart_rest (h : BraceGroup s inner rest) :
    takePart s (byteSize ('{' :: inner) + 1) (byteSize s) = .ok rest := by
  have hpart := takePart_append (braced inner) rest []
  have hgroup : byteSize (braced inner) = byteSize ('{' :: inner) + 1 := by
    rw [braced, ← List.cons_append, Text.byteSize_append]
    rfl
  rwa [List.append_nil, ← h.start, ← Text.byteSize_append, ← h.start, hgroup] at hpart

/-! ### The loop -/

/-- Why the loop over the characters of a text stops without a reading. -/
inductive BraceStop
  /-- A brace closes when none is open. -/
  | noneOpen
  /-- A part of the text cannot be taken. -/
  | part (stop : ScanStop)
  deriving DecidableEq

/-- Where the loop is, and how many braces are open there. -/
structure BraceScan where
  pos : Nat := 0
  depth : Nat := 0
  deriving DecidableEq

namespace BraceScan

/-- The type between the first brace and the one at the place of the loop, and what follows. -/
def found (source : Text) (s : BraceScan) : Except ScanStop TypeReading := do
  let inner ← takePart source 1 s.pos
  let rest ← takePart source (s.pos + 1) (byteSize source)
  return .found (Text.trim inner) rest

/-- One turn of the loop at a character: the state behind it, or the reading that ends the loop. -/
def step (source : Text) (s : BraceScan) (c : Char) : Except BraceStop (BraceScan ⊕ TypeReading) :=
  let next := s.pos + c.utf8Size
  if c = '{' then .ok (.inl ⟨next, s.depth + 1⟩)
  else if c = '}' then
    match s.depth with
    | 0 => .error .noneOpen
    | 1 => ((s.found source).map .inr).mapError .part
    | depth + 2 => .ok (.inl ⟨next, depth + 1⟩)
  else .ok (.inl ⟨next, s.depth⟩)

/-- The loop over the characters ahead. -/
def run (source : Text) : Text → BraceScan → Except BraceStop TypeReading
  | [], _ => .ok .unclosed
  | c :: rest, s => do
    match ← s.step source c with
    | .inl s => run source rest s
    | .inr reading => return reading

/-- The states that the loop comes to, each with the part of the text that it has read. -/
inductive After (source : Text) : Text → BraceScan → Prop
  | start : After source [] {}
  | turn {front rest : Text} {c : Char} {s t : BraceScan} (before : After source front s)
      (ahead : source = front ++ c :: rest) (hstep : s.step source c = .ok (.inl t)) :
      After source (front ++ [c]) t

end BraceScan

/-- Reads the type at the start of a text with the loop. -/
def scanType (source : Text) : Except BraceStop TypeReading :=
  if source.head? = some '{' then BraceScan.run source source {} else .ok .absent

/-! ### What the loop has read -/

namespace BraceScan

/-- The loop has read `front`.  It counts the braces of this part that are open, and from the first
character on there is one. -/
structure Tracks (source : Text) (s : BraceScan) (front rest : Text) : Prop where
  source_eq : source = front ++ rest
  pos_eq : s.pos = byteSize front
  depth_eq : s.depth + front.count '}' = front.count '{'
  stays_open : ∀ p, p <+: front → p ≠ [] → p.count '}' < p.count '{'

variable {source front : Text} {c : Char} {s : BraceScan}

theorem tracks_start (source : Text) : Tracks source {} [] source where
  source_eq := rfl
  pos_eq := rfl
  depth_eq := rfl
  stays_open _ hp hne := absurd (List.prefix_nil.1 hp) hne

/-- Behind the first brace, some brace is open until the group ends. -/
theorem Tracks.depth_pos (h : Tracks source s front rest) (hne : front ≠ []) : 0 < s.depth := by
  have hopen := h.stays_open front List.prefix_rfl hne
  have hdepth := h.depth_eq
  omega

/-- No more braces are open than bytes are read. -/
theorem Tracks.depth_le (h : Tracks source s front rest) : s.depth ≤ s.pos := by
  have hcount : front.count '{' ≤ byteSize front := by
    rw [← Text.length_utf8, ← Text.count_utf8 (by decide)]
    exact List.count_le_length
  have hdepth := h.depth_eq
  have hpos := h.pos_eq
  omega

/-- Only the first brace has nothing in front of it. -/
theorem Tracks.ne_nil (h : Tracks source s front (c :: rest)) (hopen : source.head? = some '{')
    (hc : c ≠ '{') : front ≠ [] := by
  rintro rfl
  rw [h.source_eq] at hopen
  exact hc (Option.some.inj hopen)

/-- Behind a character that leaves braces open, the loop has read on. -/
theorem Tracks.behind {depth : Nat} (h : Tracks source s front (c :: rest)) (hpos : 0 < depth)
    (hdepth : depth + (front ++ [c]).count '}' = (front ++ [c]).count '{') :
    Tracks source ⟨s.pos + c.utf8Size, depth⟩ (front ++ [c]) rest where
  source_eq := by rw [List.append_assoc, List.singleton_append, ← h.source_eq]
  pos_eq := by rw [h.pos_eq, Text.byteSize_append]; rfl
  depth_eq := hdepth
  stays_open p hp hne := by
    rcases List.prefix_concat_iff.1 hp with rfl | hp
    · omega
    · exact h.stays_open p hp hne

/-- At the brace that closes the last open one, the loop has read a group but for this brace. -/
theorem Tracks.braceGroup (h : Tracks source s front ('}' :: rest))
    (hopen : source.head? = some '{') (hdepth : s.depth = 1) :
    ∃ inner, front = '{' :: inner ∧ BraceGroup source inner rest := by
  obtain ⟨d, inner, rfl⟩ := List.exists_cons_of_ne_nil (h.ne_nil hopen (by decide))
  obtain rfl : d = '{' := by
    rw [h.source_eq] at hopen
    exact Option.some.inj hopen
  refine ⟨inner, rfl, by simp [h.source_eq, braced], fun p hp => ?_, ?_⟩
  · have hlt := h.stays_open ('{' :: p) (List.cons_prefix_cons.2 ⟨rfl, hp⟩) (List.cons_ne_nil _ _)
    simp only [List.count_cons_self, List.count_cons_of_ne (by decide : '{' ≠ '}')] at hlt
    exact Nat.le_of_lt_succ hlt
  · have hcount := h.depth_eq
    simp only [List.count_cons_self, List.count_cons_of_ne (by decide : '{' ≠ '}')] at hcount
    omega

/-- The loop takes the type from between the braces of the group that it has read. -/
theorem found_of_braceGroup (h : BraceGroup source inner rest)
    (hpos : s.pos = byteSize ('{' :: inner)) :
    s.found source = .ok (.found (Text.trim inner) rest) := by
  rw [found, hpos, h.takePart_inner]
  simp only [bind, Except.bind, h.takePart_rest]
  rfl

/-- A turn reads on, or finds the group that the text starts with. -/
theorem Tracks.step (h : Tracks source s front (c :: rest)) (hopen : source.head? = some '{') :
    (∃ s', s.step source c = .ok (.inl s') ∧ Tracks source s' (front ++ [c]) rest) ∨
      ∃ inner, BraceGroup source inner rest ∧
        s.step source c = .ok (.inr (.found (Text.trim inner) rest)) := by
  have hdepth := h.depth_eq
  by_cases hleft : c = '{'
  · subst hleft
    refine .inl ⟨_, rfl, h.behind (Nat.succ_pos _) ?_⟩
    simp only [List.count_append, List.count_singleton_self,
      List.count_cons_of_ne (by decide : '{' ≠ '}'), List.count_nil]
    omega
  have hpos : 0 < s.depth := h.depth_pos (h.ne_nil hopen hleft)
  by_cases hright : c = '}'
  · subst hright
    unfold BraceScan.step
    rw [if_neg hleft, if_pos rfl]
    split
    · next hzero => omega
    · next hone =>
      obtain ⟨inner, rfl, hgroup⟩ := h.braceGroup hopen hone
      rw [found_of_braceGroup hgroup h.pos_eq]
      exact .inr ⟨inner, hgroup, rfl⟩
    · next depth hmore =>
      refine .inl ⟨_, rfl, h.behind (Nat.succ_pos _) ?_⟩
      simp only [List.count_append, List.count_singleton_self,
        List.count_cons_of_ne (by decide : '}' ≠ '{'), List.count_nil]
      omega
  · refine .inl ⟨_, by rw [BraceScan.step, if_neg hleft, if_neg hright], h.behind hpos ?_⟩
    simpa only [List.count_append, List.count_cons_of_ne hleft, List.count_cons_of_ne hright,
      List.count_nil, Nat.add_zero] using hdepth

/-- The loop finds the group that a text starts with, or comes to the end, and no part at the start
is balanced then. -/
theorem Tracks.run (h : Tracks source s front rest) (hopen : source.head? = some '{') :
    (∃ inner after, BraceGroup source inner after ∧
        s.run source rest = .ok (.found (Text.trim inner) after)) ∨
      (∀ p, p <+: source → BalancedBraces p → p = []) ∧ s.run source rest = .ok .unclosed := by
  induction rest generalizing s front with
  | nil =>
    rw [h.source_eq, List.append_nil]
    refine .inr ⟨fun p hp hbalanced => ?_, rfl⟩
    by_contra hne
    exact absurd hbalanced.settled (Nat.ne_of_lt (h.stays_open p hp hne))
  | cons c rest ih =>
    rw [BraceScan.run]
    rcases h.step hopen with ⟨s', hstep, htracks⟩ | ⟨inner, hgroup, hstep⟩
    · rw [hstep]
      exact ih htracks
    · rw [hstep]
      exact .inl ⟨inner, rest, hgroup, rfl⟩

/-- At each state that the loop comes to, it has read some of the text. -/
theorem After.tracks (h : After source front s) (hopen : source.head? = some '{') :
    ∃ rest, Tracks source s front rest := by
  induction h with
  | start => exact ⟨source, tracks_start source⟩
  | @turn front rest c s t before ahead hstep ih =>
    obtain ⟨rest', htracks⟩ := ih
    obtain rfl : rest' = c :: rest :=
      List.append_cancel_left (htracks.source_eq.symm.trans ahead)
    rcases htracks.step hopen with ⟨next, hnext, htracks'⟩ | ⟨inner, -, hfound⟩
    · obtain rfl : next = t := by simpa [hnext] using hstep
      exact ⟨rest, htracks'⟩
    · simp [hfound] at hstep

end BraceScan

/-! ### The reading -/

theorem read_eq_absent_iff : TypeReading.read s = .absent ↔ s.head? ≠ some '{' := by
  refine ⟨fun h hopen => ?_, TypeReading.read_absent⟩
  obtain ⟨t, rfl⟩ := List.head?_eq_some_iff.1 hopen
  unfold TypeReading.read at h
  cases hread : readBraces 0 t <;> simp [hread] at h

theorem read_eq_found_iff :
    TypeReading.read s = .found type rest ↔
      ∃ inner, BraceGroup s inner rest ∧ type = Text.trim inner := by
  refine ⟨exists_braceGroup_of_read, ?_⟩
  rintro ⟨inner, hgroup, rfl⟩
  exact hgroup.read

/-- The first brace is never closed when no part at the start of the text is balanced. -/
theorem read_eq_unclosed_iff :
    TypeReading.read s = .unclosed ↔
      s.head? = some '{' ∧ ∀ p, p <+: s → BalancedBraces p → p = [] := by
  constructor
  · intro h
    have hopen : s.head? = some '{' := by
      by_contra hother
      rw [read_eq_absent_iff.2 hother] at h
      cases h
    rcases (BraceScan.tracks_start s).run hopen with ⟨inner, after, hgroup, -⟩ | ⟨hnone, -⟩
    · rw [hgroup.read] at h
      cases h
    · exact ⟨hopen, hnone⟩
  · rintro ⟨hopen, hnone⟩
    cases hread : TypeReading.read s with
    | absent => exact absurd hopen (read_eq_absent_iff.1 hread)
    | unclosed => rfl
    | found type rest =>
      obtain ⟨inner, hgroup, -⟩ := exists_braceGroup_of_read hread
      have hnil := hnone _ ⟨rest, hgroup.start.symm⟩ (balancedBraces_braced hgroup.balanced)
      exact absurd hnil (List.cons_ne_nil _ _)

/-- The loop makes the same reading. -/
theorem scanType_eq_read (s : Text) : scanType s = .ok (TypeReading.read s) := by
  unfold scanType
  split
  · next hopen =>
    rcases (BraceScan.tracks_start s).run hopen with ⟨inner, after, hgroup, hrun⟩ | ⟨hnone, hrun⟩
    · rw [hrun, hgroup.read]
    · rw [hrun, read_eq_unclosed_iff.2 ⟨hopen, hnone⟩]
  · next hother => rw [read_eq_absent_iff.2 hother]

/-- No type is read from a text that starts with another character than a brace.  From any other
text the type is read that stands in its group of braces, and there is one group at most, the
shortest balanced part at the start; without a group no part but the empty one is balanced.  A loop
that counts the open braces makes this reading: the count is never taken below zero, and the parts
of the text that the loop takes are there, whatever the sizes of its characters. -/
theorem read_shortest_group (s : Text) :
    (TypeReading.read s = .absent ↔ s.head? ≠ some '{') ∧
      (∀ type rest, TypeReading.read s = .found type rest ↔
        ∃ inner, BraceGroup s inner rest ∧ type = Text.trim inner) ∧
      (TypeReading.read s = .unclosed ↔
        s.head? = some '{' ∧ ∀ p, p <+: s → BalancedBraces p → p = []) ∧
      (∀ inner rest, BraceGroup s inner rest →
        (∀ inner' rest', BraceGroup s inner' rest' → inner' = inner ∧ rest' = rest) ∧
          BalancedBraces (braced inner) ∧
          (∀ p, p <+: s → p ≠ [] → BalancedBraces p → braced inner <+: p) ∧
          takePart s 1 (byteSize ('{' :: inner)) = .ok inner ∧
          takePart s (byteSize ('{' :: inner) + 1) (byteSize s) = .ok rest) ∧
      (∀ type rest, BalancedBraces type →
        TypeReading.read (braced type ++ rest) = .found (Text.trim type) rest) ∧
      scanType s = .ok (TypeReading.read s) ∧
      ∀ front scan, s.head? = some '{' → BraceScan.After s front scan →
        front <+: s ∧ scan.pos = byteSize front ∧ IsBoundary s scan.pos ∧
          scan.depth + front.count '}' = front.count '{' ∧ scan.depth ≤ scan.pos ∧
          ∀ c rest, s = front ++ c :: rest → ∃ next, scan.step s c = .ok next := by
  refine ⟨read_eq_absent_iff, fun type rest => read_eq_found_iff, read_eq_unclosed_iff,
    fun inner rest hgroup => ⟨fun _ _ => hgroup.unique, balancedBraces_braced hgroup.balanced,
      fun _ hp hne hbalanced => hgroup.prefix_of_balanced hp hne hbalanced,
      hgroup.takePart_inner, hgroup.takePart_rest⟩,
    fun type rest hbalanced => TypeReading.read_braced rest hbalanced, scanType_eq_read s,
    fun front scan hopen hafter => ?_⟩
  obtain ⟨rest, htracks⟩ := hafter.tracks hopen
  have hboundary : IsBoundary s scan.pos := by
    rw [htracks.source_eq, htracks.pos_eq]
    exact Text.isBoundary_byteSize front rest
  refine ⟨⟨rest, htracks.source_eq.symm⟩, htracks.pos_eq, hboundary, htracks.depth_eq,
    htracks.depth_le, fun c rest' hs => ?_⟩
  obtain rfl : rest = c :: rest' := List.append_cancel_left (htracks.source_eq.symm.trans hs)
  rcases htracks.step hopen with ⟨next, hstep, -⟩ | ⟨inner, -, hstep⟩
  · exact ⟨_, hstep⟩
  · exact ⟨_, hstep⟩

/-- A type with inner braces and a character of two bytes. -/
example : scanType "\x7bÉlan/\x7bx:Number\x7d\x7d pos".toList
    = .ok (.found "Élan/\x7bx:Number\x7d".toList " pos".toList) := by
  decide +kernel

end ApiDocs
