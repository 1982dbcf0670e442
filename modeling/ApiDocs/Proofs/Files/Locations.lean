import ApiDocs.Proofs.Files.Writing
/-!
# Where paths lead

A path that leads anywhere leads to the place that its components spell out: the root or the
current directory to begin with, one place up for two dots, one place down for a name.  Paths
with the same components therefore lead to one place.  The converse holds for paths that start
alike and never go up.  It fails for others: a dot at the start is a component that leads nowhere,
and two dots take back the name before them.

Main definitions:

- `Path.start`: the component that stands before the names of a path.
- `Path.destination`: the place that the components of a path spell out.
- `Path.RunsDown`: a path that goes down by name from a given start.

Main results:

- `components_join_piece`: the components of a path inside a directory.
- `destination_eq_of_components_eq`: paths with the same components lead to one place.
- `destination_of_locate`: a path leads to its destination or nowhere.
- `components_eq_of_runsDown`: paths that go down to one place have the same components.
-/

namespace ApiDocs

variable {here place : Location} {tree : FileTree} {path other dir piece : Text}

/-! ### Components -/

/-- The component that stands before the names of a path: the root, or a dot at the start. -/
def Path.start (path : Text) : List PathComponent :=
  if path.head? = some '/' then [.root]
  else if (Text.fields '/' path).head? = some ['.'] then [.here]
  else []

/-- The start of a path comes first, then what its pieces stand for. -/
theorem components_eq (path : Text) :
    Path.components path
      = Path.start path ++ (Text.fields '/' path).filterMap Path.component? :=
  rfl

/-- A name that an entry can have is a component. -/
theorem component?_of_isEntryName (h : FileTree.isEntryName piece = true) :
    Path.component? piece = some (.name piece) := by
  have hpiece : ¬ (piece = [] ∨ piece = ['.']) ∧ piece ≠ ['.', '.'] := by
    simpa [FileTree.isEntryName, not_or, and_assoc] using h
  rw [Path.component?, if_neg hpiece.1, if_neg hpiece.2]

/-- Pieces among which there are no two dots stand for names. -/
theorem exists_names {pieces : List Text} (h : ['.', '.'] ∉ pieces) :
    ∃ names : List Text, pieces.filterMap Path.component? = names.map .name := by
  induction pieces with
  | nil => exact ⟨[], rfl⟩
  | cons piece pieces ih =>
    rw [List.mem_cons, not_or] at h
    obtain ⟨names, hnames⟩ := ih h.2
    by_cases hdot : piece = [] ∨ piece = ['.']
    · exact ⟨names, by rw [List.filterMap_cons, Path.component?, if_pos hdot]; exact hnames⟩
    · refine ⟨piece :: names, ?_⟩
      rw [List.filterMap_cons, Path.component?, if_neg hdot, if_neg (Ne.symm h.1), hnames]
      rfl

/-- The components of a text without slashes. -/
theorem components_piece (hpiece : '/' ∉ piece) :
    Path.components piece
      = (if piece = ['.'] then [.here] else []) ++ [piece].filterMap Path.component? := by
  have hfields : Text.fields '/' piece = [piece] := List.splitOn_eq_singleton hpiece
  have hhead : piece.head? ≠ some '/' := fun h => hpiece (List.mem_of_mem_head? h)
  rw [components_eq, Path.start, hfields, if_neg hhead]
  simp

/-- A piece that is added to a directory adds the component that it stands for, if any. -/
theorem components_join_piece (hdir : dir ≠ []) (hpiece : '/' ∉ piece) :
    Path.components (Path.join dir piece)
      = Path.components dir ++ [piece].filterMap Path.component? := by
  have hhead : (dirPieces dir ++ [piece]).head? = (Text.fields '/' dir).head? := by
    rcases fields_eq_dirPieces dir with hfields | hfields
    · rw [hfields, List.head?_append_of_ne_nil _ (dirPieces_ne_nil dir)]
    · rw [hfields, List.head?_append_of_ne_nil _ (dirPieces_ne_nil dir),
        List.head?_append_of_ne_nil _ (dirPieces_ne_nil dir)]
  have hstart : Path.start (Path.join dir piece) = Path.start dir := by
    rw [Path.start, Path.start, fields_join hdir hpiece, head?_join hdir hpiece, hhead]
  have hpieces : (Text.fields '/' dir).filterMap Path.component?
      = (dirPieces dir).filterMap Path.component? := by
    rcases fields_eq_dirPieces dir with hfields | hfields
    · rw [hfields]
    · -- the empty piece behind a slash at the end does not count
      rw [hfields, List.filterMap_append]
      exact List.append_nil _
  rw [components_eq, components_eq, hstart, fields_join hdir hpiece, List.filterMap_append,
    hpieces, List.append_assoc]

/-! ### Destinations -/

/-- The place to which a component leads. -/
def PathComponent.follow (place : Location) : PathComponent → Location
  | .root => []
  | .here => place
  | .up => place.dropLast
  | .name entry => place ++ [entry]

/-- The place that the components of a path spell out. -/
def Path.destination (here : Location) (path : Text) : Location :=
  (components path).foldl PathComponent.follow here

/-- Paths with the same components lead to one place. -/
theorem destination_eq_of_components_eq
    (h : Path.components path = Path.components other) :
    Path.destination here path = Path.destination here other :=
  congrArg (List.foldl PathComponent.follow here) h

/-- A step goes where the component goes that its piece stands for. -/
theorem eq_follow_of_step {next : Location} (h : tree.step place piece = .ok next) :
    next = ([piece].filterMap Path.component?).foldl PathComponent.follow place := by
  have hnext := (FileTree.step_eq_ok_iff.1 h).2
  rw [List.filterMap_cons, List.filterMap_nil, Path.component?]
  split_ifs at hnext ⊢ with hdot hup hlong
  · exact (Except.ok.inj hnext).symm
  · exact (Except.ok.inj hnext).symm
  · exact (Except.ok.inj hnext).symm

/-- The pieces that count say where a walk ends. -/
theorem eq_follow_of_walk {start : Location} {pieces : List Text}
    (h : tree.walk start pieces = .ok place) :
    place = (pieces.filterMap Path.component?).foldl PathComponent.follow start := by
  induction pieces generalizing start with
  | nil => exact (Except.ok.inj h).symm
  | cons piece pieces ih =>
    unfold FileTree.walk at h ih
    rw [List.foldlM_cons, bind_eq_ok_iff] at h
    obtain ⟨next, hstep, hrest⟩ := h
    rw [← List.singleton_append, List.filterMap_append, List.foldl_append,
      ← eq_follow_of_step hstep]
    exact ih hrest

theorem destination_eq (here : Location) (path : Text) :
    Path.destination here path
      = ((Text.fields '/' path).filterMap Path.component?).foldl PathComponent.follow
          (startOf here path) := by
  have hstart : (Path.start path).foldl PathComponent.follow here = startOf here path := by
    unfold Path.start startOf
    split_ifs <;> rfl
  rw [Path.destination, components_eq, List.foldl_append, hstart]

/-- A path leads to its destination or nowhere. -/
theorem destination_of_locate {entry : Entry} (h : tree.locate here path = .ok (place, entry)) :
    place = Path.destination here path := by
  rw [destination_eq]
  exact eq_follow_of_walk (locate_eq_ok_iff.1 h).2.1

/-- A path that leads anywhere starts in a directory. -/
theorem isDir_startOf_of_locate {entry : Entry}
    (h : tree.locate here path = .ok (place, entry)) :
    tree.get? (startOf here path) = some .dir := by
  have hwalk := (locate_eq_ok_iff.1 h).2.1
  obtain ⟨piece, pieces, hfields⟩ := List.exists_cons_of_ne_nil (List.splitOn_ne_nil '/' path)
  rw [Text.fields, hfields, FileTree.walk, List.foldlM_cons, bind_eq_ok_iff] at hwalk
  obtain ⟨next, hstep, -⟩ := hwalk
  exact (FileTree.step_eq_ok_iff.1 hstep).1

/-- A dot alone leads to no file. -/
theorem components_ne_here_of_locate {content : Content}
    (h : tree.locate here path = .ok (place, .file content)) :
    Path.components path ≠ [.here] := by
  intro hdot
  have hstart := isDir_startOf_of_locate h
  have hrelative : path.head? ≠ some '/' := fun hhead => by
    rw [components_eq, Path.start, if_pos hhead] at hdot
    cases hdot
  rw [startOf, if_neg hrelative] at hstart
  have hplace : place = here := by
    rw [destination_of_locate h, Path.destination, hdot]
    rfl
  rw [← hplace, (locate_eq_ok_iff.1 h).2.2] at hstart
  cases hstart

/-! ### Paths that go down -/

/-- The path goes down by name from this start. -/
def Path.RunsDown (start : List PathComponent) (path : Text) : Prop :=
  ∃ names : List Text, components path = start ++ names.map .name

theorem foldl_follow_names (place : Location) (names : List Text) :
    (names.map .name).foldl PathComponent.follow place = place ++ names := by
  induction names generalizing place with
  | nil => exact (List.append_nil place).symm
  | cons name names ih =>
    rw [List.map_cons, List.foldl_cons, ih]
    exact List.append_assoc place [name] names

/-- Without a component that goes up there are only names behind the start. -/
theorem runsDown_of_not_up (h : .up ∉ Path.components path) :
    Path.RunsDown (Path.start path) path := by
  rw [components_eq, List.mem_append, not_or] at h
  have hup : ['.', '.'] ∉ Text.fields '/' path := fun hmem =>
    h.2 (List.mem_filterMap.2 ⟨_, hmem, rfl⟩)
  obtain ⟨names, hnames⟩ := exists_names hup
  exact ⟨names, by rw [components_eq, hnames]⟩

/-- A piece that does not go up leads down. -/
theorem Path.RunsDown.join {start : List PathComponent} (h : Path.RunsDown start path)
    (hpath : path ≠ []) (hslash : '/' ∉ piece) (hup : piece ≠ ['.', '.']) :
    Path.RunsDown start (Path.join path piece) := by
  obtain ⟨names, hnames⟩ := h
  obtain ⟨more, hmore⟩ := exists_names (List.mem_singleton.not.2 (Ne.symm hup))
  exact ⟨names ++ more, by
    rw [components_join_piece hpath hslash, hnames, hmore, List.map_append, List.append_assoc]⟩

/-- Paths that go down from one start to one place have the same components. -/
theorem components_eq_of_runsDown {start : List PathComponent}
    (hpath : Path.RunsDown start path) (hother : Path.RunsDown start other)
    (h : Path.destination here path = Path.destination here other) :
    Path.components path = Path.components other := by
  obtain ⟨names, hnames⟩ := hpath
  obtain ⟨others, hothers⟩ := hother
  rw [Path.destination, Path.destination, hnames, hothers, List.foldl_append, List.foldl_append,
    foldl_follow_names, foldl_follow_names] at h
  rw [hnames, hothers, List.append_cancel_left h]

end ApiDocs
