import ApiDocs.Proofs.Command.Reading
import ApiDocs.Proofs.Files.Locations
import ApiDocs.Proofs.Selection
import ApiDocs.Proofs.Text.Lines
import Mathlib
/-!
# The files that inputs mention

An input mentions a file by its path, as a source file of a directory, or as one that a pattern
fits.  Mentions are compared by the components of their paths, and later ones with the same
components are dropped.  So each mentioned file is listed, in the order of the first mentions,
and it is listed once exactly if all of its mentions have the same components.  They do when
nothing goes up and all mentions start alike.  A dot at the start of the path of a file or of a
directory makes a difference, and one at the start of a pattern does not.

Main definitions:

- `LeadsToFile`: a path at whose destination there is a file.
- `goesUp`, `mentionStart`: whether an input can lead up, and how its mentions start.
- `Mentions`: what stands in a list of files.
- `ListsOnce`: each mentioned file is listed once, in the order of the first mentions.

Main results:

- `gives_filesOfInput`: what the mentions of one input look like.
- `inputFiles_lists_mentions`: what is listed, and when each file is listed once.
- `file_listed_twice`: two spellings of one path.
-/

namespace ApiDocs

open Host

variable {here : Location} {tree : FileTree} {base : List PathComponent}

/-! ### Files -/

/-- At the destination of the path there is a file. -/
def LeadsToFile (here : Location) (tree : FileTree) (path : Text) : Prop :=
  ∃ content, tree.locate here path = .ok (Path.destination here path, .file content)

/-- A path to an entry that is a file leads to a file. -/
theorem leadsToFile_of_kind {path : Text}
    (h : (tree.locate here path).toOption.map (·.2.kind) = some .file) :
    LeadsToFile here tree path := by
  cases hlocate : tree.locate here path with
  | error e => rw [hlocate] at h; cases h
  | ok found =>
    obtain ⟨place, entry⟩ := found
    rw [hlocate] at h
    cases entry with
    | dir => cases h
    | file content =>
      exact ⟨content, by rw [← destination_of_locate hlocate, hlocate]⟩

/-- The answer that there is a file is right. -/
theorem gives_isFile (path : Text) :
    Gives here tree (isFile path) fun b => b = true → LeadsToFile here tree path :=
  .ok ((Runs.kind path).bind (.pure _)) fun h => leadsToFile_of_kind (of_decide_eq_true h)

/-- The names of all entries can stand in a path. -/
def FileTree.WellNamed (tree : FileTree) : Prop :=
  ∀ entry ∈ tree.entries, ∀ name ∈ entry.1, isEntryName name = true ∧ '/' ∉ name

instance (tree : FileTree) : Decidable tree.WellNamed :=
  inferInstanceAs (Decidable (∀ entry ∈ tree.entries, ∀ name ∈ entry.1,
    FileTree.isEntryName name = true ∧ '/' ∉ name))

/-- A name that a directory lists leads down. -/
theorem FileTree.WellNamed.of_mem_namesIn (h : tree.WellNamed) {dir : Location} {name : Text}
    (hname : name ∈ tree.namesIn dir) : '/' ∉ name ∧ name ≠ ['.', '.'] := by
  obtain ⟨⟨place, entry⟩, hmem, hlast⟩ := List.mem_filterMap.1 hname
  dsimp only at hlast
  split at hlast
  · next last hplace =>
    split_ifs at hlast
    obtain rfl := Option.some.inj hlast
    obtain ⟨hentry, hslash⟩ := h _ hmem last (List.mem_of_getLast? hplace)
    refine ⟨hslash, fun hup => ?_⟩
    rw [hup] at hentry
    exact absurd hentry (by decide)
  · cases hlast

/-- What is listed are the names in a directory, at a path that is not empty. -/
theorem list_eq_ok {path : Text} {names : List Text} (h : tree.list here path = .ok names) :
    (∃ place, names = tree.namesIn place) ∧ path ≠ [] := by
  unfold FileTree.list at h
  obtain ⟨⟨place, entry⟩, hlocate, hnames⟩ := bind_eq_ok_iff.1 h
  refine ⟨?_, (FileTree.checkPath_eq_ok_iff.1 (locate_eq_ok_iff.1 hlocate).1).1⟩
  cases entry with
  | dir => exact ⟨place, (Except.ok.inj hnames).symm⟩
  | file content => cases hnames

/-! ### Searching downwards -/

/-- The path runs down from `base`, or it is the directory in which a search starts. -/
def Below (base : List PathComponent) (path : Text) : Prop :=
  base = [] ∧ Path.components path = [.here] ∨ Path.RunsDown base path

/-- A piece that does not go up runs down from nothing. -/
theorem below_piece {piece : Text} (hslash : '/' ∉ piece) (hup : piece ≠ ['.', '.']) :
    Below [] piece := by
  obtain ⟨names, hnames⟩ := exists_names (List.mem_singleton.not.2 (Ne.symm hup))
  rw [Below, Path.RunsDown, components_piece hslash]
  by_cases hdot : piece = ['.']
  · subst hdot
    exact .inl ⟨rfl, rfl⟩
  · rw [if_neg hdot]
    exact .inr ⟨names, hnames⟩

/-- Only from the current directory a search reaches it. -/
theorem Below.eq_nil_of_here {path : Text} (hbase : base ≠ [.here]) (h : Below base path)
    (hhere : Path.components path = [.here]) : base = [] := by
  rcases h with ⟨hnil, -⟩ | ⟨names, hnames⟩
  · exact hnil
  · rw [hhere] at hnames
    rcases base with _ | ⟨component, base⟩
    · rfl
    · obtain ⟨rfl, hrest⟩ := List.cons.inj hnames
      rw [(List.append_eq_nil_iff.1 hrest.symm).1] at hbase
      exact absurd rfl hbase

/-- Inside a path that a search reaches, it reaches the pieces that do not go up. -/
theorem below_join {path piece : Text} (h : Path.RunsDown base path) (hslash : '/' ∉ piece)
    (hup : piece ≠ ['.', '.']) : Below base (Path.join path piece) := by
  by_cases hpath : path = []
  · obtain ⟨names, hnames⟩ := h
    rw [hpath] at hnames ⊢
    have hbase : base = [] := (List.append_eq_nil_iff.1 hnames.symm).1
    have hjoin : Path.join [] piece = piece := if_pos (.inr rfl)
    rw [hbase, hjoin]
    exact below_piece hslash hup
  · exact .inr (h.join hpath hslash hup)

/-- The path of an entry runs down from where the search started. -/
theorem Below.entryPath {path piece : Text} (hbase : base ≠ [.here]) (h : Below base path)
    (hslash : '/' ∉ piece) (hup : piece ≠ ['.', '.']) : Below base (entryPath path piece) := by
  unfold ApiDocs.entryPath Path.isHere
  by_cases hhere : Path.components path = [.here]
  · rw [if_pos (decide_eq_true hhere), h.eq_nil_of_here hbase hhere]
    exact below_piece hslash hup
  · rw [if_neg fun hisHere => hhere (of_decide_eq_true hisHere)]
    exact below_join (h.resolve_left fun hdot => hhere hdot.2) hslash hup

/-- A dot stays where the search is. -/
theorem Below.join_dot {path : Text} (h : Below base path) :
    Below base (Path.join path ['.']) := by
  rcases h with ⟨hbase, hdot⟩ | hdown
  · have hpath : path ≠ [] := by
      rintro rfl
      cases hdot
    refine .inl ⟨hbase, ?_⟩
    rw [components_join_piece hpath (by decide), hdot]
    rfl
  · exact below_join hdown (by decide) (by decide)

/-- Whether a component of a pattern can lead up: two dots, or wildcards behind a dot that fit
them. -/
def GlobPart.goesUp (part : GlobPart) : Bool :=
  match part with
  | .literal name => name = ['.', '.']
  | .wild (.char '.' :: _) => part.fits ['.', '.']
  | _ => false

/-- A component that does not lead up and stands for single entries. -/
structure GlobPart.StaysBelow (part : GlobPart) : Prop where
  down : part.goesUp = false
  slashless : ∀ name, part = .literal name → '/' ∉ name

/-- Parts that are left are parts of the pattern. -/
theorem mem_of_mem_dropDirs {part : GlobPart} {parts : List GlobPart}
    (h : part ∈ dropDirs parts) : part ∈ parts := by
  induction parts with
  | nil => exact h
  | cons first parts ih =>
    cases first with
    | dirs => exact List.mem_cons_of_mem _ (ih h)
    | literal name => exact h
    | wild tokens => exact h

/-- Of the names `.` and `..` a component that does not lead up fits the first one only. -/
theorem path_of_mem_dotEntries {part : GlobPart} {place found : Found}
    (hdown : part.goesUp = false) (h : found ∈ dotEntries part place) :
    found.path = Path.join place.path ['.'] := by
  unfold dotEntries at h
  split at h
  · next tokens =>
    split at h
    · rw [List.mem_map] at h
      obtain ⟨name, hname, rfl⟩ := h
      rw [List.mem_reverse, List.mem_filter] at hname
      have hnames : name = ['.'] ∨ name = ['.', '.'] := by simpa [dotNames] using hname.1
      rcases hnames with rfl | rfl
      · rfl
      · exact absurd hname.2 (by simpa [GlobPart.goesUp] using hdown)
    · cases h
  · cases h

/-- A name that is looked up is put behind the path. -/
theorem gives_findLiteral (name : Text) (place : Found) :
    Gives here tree (findLiteral name place : RunM (Option Found))
      fun found => ∀ next, found = some next → next.path = entryPath place.path name := by
  have hpath : ∀ {next isDir}, some (⟨entryPath place.path name, isDir⟩ : Found) = some next →
      next.path = entryPath place.path name := fun h => by rw [← Option.some.inj h]
  unfold findLiteral
  dsimp only
  split
  · split
    · exact (ReadsOnly.isDir _).gives.bind fun isDir _ => .pure fun next => hpath
    · exact .pure fun next h => by cases h
  · refine (ReadsOnly.kind _).gives.bind fun kind _ => .pure fun next h => ?_
    obtain ⟨kind, -, hnext⟩ := Option.map_eq_some_iff.1 h
    exact hpath (congrArg some hnext)

/-- The entries of a place are names in a directory, each behind the path. -/
theorem gives_entriesOf (place : Found) :
    Gives here tree (entriesOf place : RunM (List (Text × Found))) fun entries =>
      ∀ entry ∈ entries, (∃ dir, entry.1 ∈ tree.namesIn dir) ∧
        entry.2.path = entryPath place.path entry.1 := by
  unfold entriesOf
  split
  · exact .pure (by simp)
  · refine (Gives.list place.path).bind fun names hnames => ?_
    cases names with
    | error e => exact .pure (by simp)
    | ok names =>
      obtain ⟨⟨dir, rfl⟩, -⟩ := list_eq_ok hnames.symm
      have hentry : ∀ name ∈ sortTexts (tree.namesIn dir),
          Gives here tree (do
            let path := entryPath place.path name
            return (name, ⟨path, ← isDir path⟩) : RunM (Text × Found))
            fun entry => entry.1 = name ∧ entry.2.path = entryPath place.path name :=
        fun name _ => (ReadsOnly.isDir _).gives.bind fun _ _ => .pure ⟨rfl, rfl⟩
      refine (Gives.mapM_mem hentry).imp fun entries hentries entry hmem => ?_
      obtain ⟨name, hname, rfl, hpath⟩ := hentries entry hmem
      exact ⟨⟨dir, List.mem_mergeSort.1 hname⟩, hpath⟩

/-- The entries of a directory below `base` lie below it. -/
theorem gives_entriesOf_below (hnames : tree.WellNamed) (hbase : base ≠ [.here]) {place : Found}
    (hplace : Below base place.path) :
    Gives here tree (entriesOf place : RunM (List (Text × Found))) fun entries =>
      ∀ entry ∈ entries, Below base entry.2.path := by
  refine (gives_entriesOf place).imp fun entries hentries entry hmem => ?_
  obtain ⟨⟨dir, hlisted⟩, hpath⟩ := hentries entry hmem
  obtain ⟨hslash, hup⟩ := hnames.of_mem_namesIn hlisted
  exact hpath ▸ hplace.entryPath hbase hslash hup

/-- From a place below `base` a search whose components stay below reaches such places only. -/
theorem gives_searchIn (hnames : tree.WellNamed) (hbase : base ≠ [.here]) (depth : Nat)
    {parts : List GlobPart} {place : Found} (hparts : ∀ part ∈ parts, part.StaysBelow)
    (hplace : Below base place.path) :
    Gives here tree (searchIn depth parts place : RunM (List Found))
      fun found => ∀ f ∈ found, Below base f.path := by
  induction depth generalizing parts place with
  | zero =>
    unfold searchIn
    exact .pure (by simp)
  | succ depth ih =>
    rcases parts with _ | ⟨part, parts⟩
    · exact .pure (by simpa using hplace)
    · rw [List.forall_mem_cons] at hparts
      cases part with
      | literal name =>
        have hname : '/' ∉ name ∧ name ≠ ['.', '.'] :=
          ⟨hparts.1.slashless name rfl, of_decide_eq_false hparts.1.down⟩
        refine (gives_findLiteral name place).bind fun found hfound => ?_
        cases found with
        | none => exact .pure (by simp)
        | some next =>
          exact ih hparts.2 (hfound next rfl ▸ hplace.entryPath hbase hname.1 hname.2)
      | dirs =>
        have hlater : ∀ part ∈ dropDirs parts, part.StaysBelow := fun part hmem =>
          hparts.2 part (mem_of_mem_dropDirs hmem)
        refine (gives_entriesOf_below hnames hbase hplace).bind fun entries hbelow => ?_
        refine (Gives.mapM_flatten fun entry hmem => ?_).bind fun inner hinner => .pure hinner
        have hplace' := hbelow entry hmem
        -- behind what a directory gives itself comes what is found in it
        have hown : ∀ own : List Found, (∀ f ∈ own, Below base f.path) →
            Gives here tree (do
              let below ← if entry.2.isDir then searchIn depth (.dirs :: dropDirs parts) entry.2
                else pure []
              return own ++ below : RunM (List Found))
              fun found => ∀ f ∈ found, Below base f.path := by
          intro own hown
          split
          · exact .append hown (ih (List.forall_mem_cons.2 ⟨hparts.1, hlater⟩) hplace')
          · exact .append hown (.pure (by simp))
        dsimp only
        split
        · refine (Gives.pure ?_).bind hown
          split
          · simpa using hplace'
          · simp
        · next part later hparts' =>
          rw [hparts', List.forall_mem_cons] at hlater
          split
          · exact (ih hlater.2 hplace').bind hown
          · exact (Gives.pure (by simp)).bind hown
      | wild tokens =>
        refine (Gives.mapM_flatten fun dot hmem => ih hparts.2 ?_).bind fun dots hdots => ?_
        · exact path_of_mem_dotEntries hparts.1.down hmem ▸ hplace.join_dot
        refine (gives_entriesOf_below hnames hbase hplace).bind fun entries hbelow => ?_
        refine (Gives.mapM_flatten fun entry hmem => ?_).bind fun inner hinner =>
          .pure (List.forall_mem_append.2 ⟨hdots, hinner⟩)
        dsimp only
        split
        · exact ih hparts.2 (hbelow entry hmem)
        · exact .pure (by simp)

/-! ### Mentions of one input -/

/-- A result that is collected is that of some entry. -/
theorem exists_of_mem_mapM {ε α β : Type} {f : α → Except ε β} {l : List α} {found : List β}
    (h : l.mapM f = .ok found) {b : β} (hb : b ∈ found) : ∃ a ∈ l, f a = .ok b := by
  induction l generalizing found with
  | nil =>
    obtain rfl := Except.ok.inj h
    cases hb
  | cons a l ih =>
    rw [List.mapM_cons, bind_eq_ok_iff] at h
    obtain ⟨first, hfirst, h⟩ := h
    obtain ⟨rest, hrest, h⟩ := bind_eq_ok_iff.1 h
    obtain rfl := Except.ok.inj h
    rcases List.mem_cons.1 hb with rfl | hb
    · exact ⟨a, List.mem_cons_self, hfirst⟩
    · obtain ⟨a', ha', heq⟩ := ih hrest hb
      exact ⟨a', List.mem_cons_of_mem _ ha', heq⟩

/-- A piece that is compiled to a name is that name. -/
theorem eq_of_compile_literal {piece name : Text}
    (h : GlobPart.compile piece = .ok (.literal name)) : name = piece := by
  unfold GlobPart.compile at h
  cases htokens : compileTokens piece with
  | error e => rw [htokens] at h; cases h
  | ok tokens =>
    rw [htokens, Except.map, Except.ok.injEq] at h
    split_ifs at h
    exact (GlobPart.literal.inj h).symm

/-- A pattern is searched from the root or from the current directory, and its components are
pieces between slashes. -/
theorem compile_eq_ok {pattern : Text} {glob : Glob} (h : Glob.compile pattern = .ok glob) :
    glob.scope = (if pattern.head? = some '/' then ['/'] else ['.']) ∧
      ∀ part ∈ glob.parts, ∀ name, part = .literal name → '/' ∉ name := by
  unfold Glob.compile at h
  obtain ⟨tokens, -, h⟩ := bind_eq_ok_iff.1 h
  obtain ⟨parts, hparts, h⟩ := bind_eq_ok_iff.1 h
  obtain rfl := Except.ok.inj h
  refine ⟨by simp, fun part hpart name hname => ?_⟩
  subst hname
  dsimp only at hpart
  generalize (if pattern.head? = some '/' then pattern.tail else pattern)
    = relative at hparts hpart
  split at hpart
  · obtain rfl := GlobPart.literal.inj (List.mem_singleton.1 hpart)
    simp
  · obtain ⟨piece, hpiece, hcompile⟩ := exists_of_mem_mapM hparts hpart
    rw [eq_of_compile_literal hcompile]
    have hfield : ∀ t : Text, piece ∈ partsOf t → piece ∈ Text.fields '/' t := by
      intro t hmem
      unfold partsOf at hmem
      dsimp only at hmem
      split at hmem
      · exact (List.dropLast_sublist _).subset hmem
      · exact hmem
    exact Text.not_mem_of_mem_fields (hfield _ hpiece)

/-- Whether an input can lead up: by two dots, or by a pattern that fits them. -/
def goesUp (input : Text) : Bool :=
  PathComponent.up ∈ Path.components input ||
    match Glob.compile input with
    | .ok glob => glob.parts.any GlobPart.goesUp
    | .error _ => false

/-- How paths start that a search finds: at the root, or with a name. -/
def searchStart (pattern : Text) : List PathComponent :=
  if pattern.head? = some '/' then [.root] else []

/-- How the mentions of an input start: those of a file or a directory like the input, those of
a pattern as a search finds them. -/
def mentionStart (here : Location) (tree : FileTree) (input : Text) : List PathComponent :=
  match tree.locate here input with
  | .ok _ => Path.start input
  | .error _ => searchStart input

/-- The sources of a directory are files in it. -/
theorem gives_sourcesIn (dir : Text) :
    Gives here tree (sourcesIn dir : RunM (List Text)) fun paths => ∀ path ∈ paths,
      LeadsToFile here tree path ∧ dir ≠ [] ∧
        ∃ place, ∃ name ∈ tree.namesIn place, path = Path.join dir name := by
  unfold sourcesIn
  refine (Gives.list dir).bind fun names hnames => ?_
  cases names with
  | error e => exact .throw _
  | ok names =>
    obtain ⟨⟨place, rfl⟩, hdir⟩ := list_eq_ok hnames.symm
    have htest : ∀ path, Gives here tree (do
        return Path.ending? path = some sourceEnding && (← isFile path) : RunM Bool)
        fun b => b = true → LeadsToFile here tree path := fun path =>
      (gives_isFile path).bind fun b hb => .pure fun h => hb (Bool.and_eq_true_iff.1 h).2
    refine (Gives.filterM htest _).imp fun paths hpaths path hmem => ?_
    obtain ⟨hpath, hfile⟩ := hpaths path hmem
    obtain ⟨name, hname, rfl⟩ := List.mem_map.1 hpath
    exact ⟨hfile, hdir, place, name, List.mem_mergeSort.1 hname, rfl⟩

/-- The paths that a search finds run down from its start. -/
theorem gives_search {pattern : Text} {glob : Glob} (h : Glob.compile pattern = .ok glob)
    (hnames : tree.WellNamed) (hdown : goesUp pattern = false) :
    Gives here tree (glob.search : RunM (List Text)) fun paths =>
      ∀ path ∈ paths, Below (searchStart pattern) path := by
  obtain ⟨hscope, hslashless⟩ := compile_eq_ok h
  have hbase : searchStart pattern ≠ [.here] := by
    unfold searchStart
    split_ifs <;> simp
  have hplace : Below (searchStart pattern) glob.scope := by
    rw [hscope]
    unfold searchStart
    split_ifs
    · exact .inr ⟨[], rfl⟩
    · exact .inl ⟨rfl, rfl⟩
  have hparts : ∀ part ∈ glob.parts, part.StaysBelow := fun part hpart => by
    have hup := (Bool.or_eq_false_iff.1 hdown).2
    rw [h] at hup
    exact ⟨by simpa using List.any_eq_false.1 hup part hpart, hslashless part hpart⟩
  refine (gives_searchIn hnames hbase _ hparts hplace).bind fun found hfound => .pure ?_
  intro path hpath
  obtain ⟨f, hf, rfl⟩ := List.mem_map.1 hpath
  exact hfound f (List.mem_filter.1 hf).1

/-- The files of a pattern are files, and run down from the start of the search. -/
theorem gives_filesMatching (pattern : Text) :
    Gives here tree (filesMatching pattern : RunM (List Text)) fun paths => ∀ path ∈ paths,
      LeadsToFile here tree path ∧
        (tree.WellNamed → goesUp pattern = false → Path.RunsDown (searchStart pattern) path) := by
  unfold filesMatching
  cases hcompile : Glob.compile pattern with
  | error e => exact .throw _
  | ok glob =>
    have hsearch : Gives here tree (glob.search : RunM (List Text)) fun paths =>
        tree.WellNamed → goesUp pattern = false →
          ∀ path ∈ paths, Below (searchStart pattern) path := by
      by_cases h : tree.WellNamed ∧ goesUp pattern = false
      · exact (gives_search hcompile h.1 h.2).imp fun _ hbelow _ _ => hbelow
      · have hreads : ReadsOnly here tree (glob.search : RunM (List Text)) :=
          (readsOnly_searchIn _ _ _).bind fun _ => .pure _
        exact hreads.gives.imp fun _ _ hnames hdown => absurd ⟨hnames, hdown⟩ h
    refine hsearch.bind fun found hfound => ?_
    refine (Gives.filterM gives_isFile found).imp fun paths hpaths path hmem => ?_
    obtain ⟨hpath, hfile⟩ := hpaths path hmem
    refine ⟨hfile, fun hnames hdown => ?_⟩
    -- the current directory itself is no file
    obtain ⟨content, hlocate⟩ := hfile
    exact (hfound hnames hdown path hpath).resolve_left fun hdot =>
      components_ne_here_of_locate hlocate hdot.2

/-- What an input mentions are files.  If nothing leads up, their paths go down from where the
mentions of the input start. -/
theorem gives_filesOfInput (input : Text) :
    Gives here tree (filesOfInput input : RunM (List Text)) fun paths => ∀ path ∈ paths,
      LeadsToFile here tree path ∧ (tree.WellNamed → goesUp input = false →
        Path.RunsDown (mentionStart here tree input) path) := by
  have hinput : goesUp input = false → Path.RunsDown (Path.start input) input := fun hdown =>
    runsDown_of_not_up (of_decide_eq_false (Bool.or_eq_false_iff.1 hdown).1)
  unfold filesOfInput
  refine (Gives.kind input).bind fun kind hkind => ?_
  cases hlocate : tree.locate here input with
  | error e =>
    rw [hlocate] at hkind
    subst hkind
    have hstart : mentionStart here tree input = searchStart input := by
      rw [mentionStart, hlocate]
    rw [hstart]
    refine (gives_filesMatching input).bind fun found hfound => ?_
    dsimp only
    split
    · exact (ReadsOnly.note _).gives.bind fun _ _ => .pure hfound
    · exact .pure hfound
  | ok found =>
    obtain ⟨place, entry⟩ := found
    rw [hlocate] at hkind
    have hstart : mentionStart here tree input = Path.start input := by
      rw [mentionStart, hlocate]
    rw [hstart]
    cases entry with
    | file content =>
      subst hkind
      refine .pure fun path hmem => ?_
      obtain rfl := List.mem_singleton.1 hmem
      exact ⟨leadsToFile_of_kind (by rw [hlocate]; rfl), fun _ => hinput⟩
    | dir =>
      subst hkind
      refine (gives_sourcesIn input).imp fun paths hpaths path hmem => ?_
      obtain ⟨hfile, hne, dir, name, hname, rfl⟩ := hpaths path hmem
      refine ⟨hfile, fun hnames hdown => ?_⟩
      have hentry := hnames.of_mem_namesIn hname
      exact (hinput hdown).join hne hentry.1 hentry.2

/-! ### The list of files -/

/-- The files among which each mentioned one is listed, no two of them with the same components,
and in the order of the first mentions. -/
structure ListsMentions (here : Location) (tree : FileTree) (mentions files : List Text) :
    Prop where
  leads : ∀ path ∈ mentions, LeadsToFile here tree path
  sublist : files.Sublist mentions
  distinct : (files.map Path.components).Nodup
  order : firstBy id (files.map (Path.destination here))
    = firstBy id (mentions.map (Path.destination here))

/-- Each mentioned file is listed once, in the order of the first mentions. -/
def ListsOnce (here : Location) (mentions files : List Text) : Prop :=
  files.map (Path.destination here) = firstBy id (mentions.map (Path.destination here))

/-- Dropping the mentions with the same components leaves what the list holds. -/
theorem listsMentions_firstBy {mentions : List Text}
    (h : ∀ path ∈ mentions, LeadsToFile here tree path) :
    ListsMentions here tree mentions (firstBy Path.components mentions) where
  leads := h
  sublist := firstBy_sublist Path.components mentions
  distinct := nodup_map_firstBy Path.components mentions
  order := by
    rw [firstBy_id_map, firstBy_id_map,
      firstBy_firstBy fun _ _ => destination_eq_of_components_eq]

/-- What is known of the mentions of each input is known of all of them. -/
theorem forall_mention {inputs : List Text} {mentions : List (List Text)}
    (h : List.Forall₂ (fun input paths => Runs here tree (filesOfInput input) (.ok paths) tree)
      inputs mentions) {path : Text} (hpath : path ∈ mentions.flatten) :
    ∃ input ∈ inputs, LeadsToFile here tree path ∧ (tree.WellNamed → goesUp input = false →
      Path.RunsDown (mentionStart here tree input) path) := by
  obtain ⟨paths, hpaths, hmem⟩ := List.mem_flatten.1 hpath
  obtain ⟨input, hinput, hruns⟩ := exists_of_mem_forall₂ h hpaths
  exact ⟨input, hinput, (gives_filesOfInput input).of_runs hruns path hmem⟩

/-- The files of a run are listed in the order of their first mentions.  Each of them is listed
once exactly if any two mentions of one file have the same components, and so it is if no input
leads up and all mentions start alike. -/
theorem inputFiles_lists_mentions {inputs files : List Text}
    (h : Runs here tree (inputFiles inputs) (.ok files) tree) :
    ∃ mentions : List (List Text),
      List.Forall₂ (fun input paths => Runs here tree (filesOfInput input) (.ok paths) tree)
        inputs mentions ∧
      ListsMentions here tree mentions.flatten files ∧
      (ListsOnce here mentions.flatten files ↔
        ∀ path ∈ mentions.flatten, ∀ other ∈ mentions.flatten,
          Path.destination here path = Path.destination here other →
            Path.components path = Path.components other) ∧
      (tree.WellNamed → (∀ input ∈ inputs, goesUp input = false) →
        (∀ input ∈ inputs, ∀ other ∈ inputs,
          mentionStart here tree input = mentionStart here tree other) →
        ListsOnce here mentions.flatten files) := by
  have hgives : Gives here tree (inputFiles inputs : RunM (List Text)) fun files =>
      ∃ mentions : List (List Text),
        List.Forall₂ (fun input paths => Runs here tree (filesOfInput input) (.ok paths) tree)
          inputs mentions ∧ files = firstBy Path.components mentions.flatten :=
    (Gives.mapM fun input _ => (readsOnly_filesOfInput input).gives).bind fun mentions hmentions =>
      .pure ⟨mentions, hmentions, rfl⟩
  obtain ⟨mentions, hmentions, rfl⟩ := hgives.of_runs h
  have honce : ListsOnce here mentions.flatten (firstBy Path.components mentions.flatten) ↔ _ :=
    map_firstBy_eq_iff (fun _ _ => destination_eq_of_components_eq) mentions.flatten
  refine ⟨mentions, hmentions, listsMentions_firstBy fun path hpath => ?_, honce,
    fun hnames hdown halike => honce.2 fun path hpath other hother heq => ?_⟩
  · obtain ⟨-, -, hfile, -⟩ := forall_mention hmentions hpath
    exact hfile
  · obtain ⟨input, hinput, -, hpath⟩ := forall_mention hmentions hpath
    obtain ⟨input', hinput', -, hother⟩ := forall_mention hmentions hother
    have hstart := halike input hinput input' hinput'
    exact components_eq_of_runsDown (hpath hnames (hdown input hinput))
      (hstart ▸ hother hnames (hdown input' hinput')) heq

/-- A session with three files, two of them in a directory. -/
def nestedFiles : Session where
  tree :=
    ⟨[(["src".toList], .dir), (["src".toList, "b.js".toList], .file (.text [])),
      (["src".toList, "a.js".toList], .file (.text [])), (["c.js".toList], .file (.text []))]⟩
  here := []

/-- Inputs that mention each of them two times or more. -/
def overlappingInputs : List Text :=
  ["src/b.js".toList, "src".toList, "src//a.js".toList, "src/*.js".toList, "./*.js".toList,
    "c.js".toList]

/-- Files, their directory and patterns that mention them again: each file is listed once. -/
theorem inputFiles_lists_mentions_of_overlap :
    Runs nestedFiles.here nestedFiles.tree (inputFiles overlappingInputs)
        (.ok ["src/b.js".toList, "src/a.js".toList, "c.js".toList]) nestedFiles.tree ∧
      nestedFiles.tree.WellNamed ∧ (∀ input ∈ overlappingInputs, goesUp input = false) ∧
      (∀ input ∈ overlappingInputs, ∀ other ∈ overlappingInputs,
        mentionStart nestedFiles.here nestedFiles.tree input
          = mentionStart nestedFiles.here nestedFiles.tree other) ∧
      ∃ mentions : List (List Text),
        List.Forall₂ (fun input paths => Runs nestedFiles.here nestedFiles.tree
          (filesOfInput input) (.ok paths) nestedFiles.tree) overlappingInputs mentions ∧
        ListsOnce nestedFiles.here mentions.flatten
          ["src/b.js".toList, "src/a.js".toList, "c.js".toList] := by
  have hvalue : ((inputFiles overlappingInputs : RunM (List Text)).run.run nestedFiles).1
      = .ok ["src/b.js".toList, "src/a.js".toList, "c.js".toList] := by cbv
  have hruns := (readsOnly_inputFiles overlappingInputs).runs hvalue
  have hnames : nestedFiles.tree.WellNamed := by decide +kernel
  have hdown : ∀ input ∈ overlappingInputs, goesUp input = false := by decide +kernel
  have halike : ∀ input ∈ overlappingInputs, ∀ other ∈ overlappingInputs,
      mentionStart nestedFiles.here nestedFiles.tree input
        = mentionStart nestedFiles.here nestedFiles.tree other := by decide +kernel
  obtain ⟨mentions, hmentions, -, -, honce⟩ := inputFiles_lists_mentions hruns
  exact ⟨hruns, hnames, hdown, halike, mentions, hmentions, honce hnames hdown halike⟩

/-- A session with one file, whose comment documents nothing that has a place. -/
def loneFile : Session where
  tree := ⟨[(["a.js".toList], .file (.text "/** @cfg b */".toList))]⟩
  here := []

/-- With and without a dot at the start, the path of one file is listed two times. -/
theorem file_listed_twice :
    Runs loneFile.here loneFile.tree (inputFiles ["a.js".toList, "./a.js".toList])
        (.ok ["a.js".toList, "./a.js".toList]) loneFile.tree ∧
      LeadsToFile loneFile.here loneFile.tree "a.js".toList ∧
      Path.destination loneFile.here "./a.js".toList
        = Path.destination loneFile.here "a.js".toList := by
  have hvalue : ((inputFiles ["a.js".toList, "./a.js".toList] : RunM (List Text)).run.run
      loneFile).1 = .ok ["a.js".toList, "./a.js".toList] := by cbv
  exact ⟨(readsOnly_inputFiles _).runs hvalue, ⟨.text "/** @cfg b */".toList, by rfl⟩,
    by decide +kernel⟩

end ApiDocs
