import ApiDocs.Proofs.Files.Runs
import Mathlib.Data.List.Forall2
/-!
# What a run reads

Before a run makes its pages it only reads: the options look at the output path, inputs are
looked up, listed and searched, and each input file is read once.  All this leaves the files as
they are, and what comes of the units depends on the sources alone.

Main definitions:

- `Segmented`: sources whose doc comments are all closed.
- `unitNodes`, `catalogOf`: the nodes of a source, and the catalog of all sources.

Main results:

- `readsOnly_check`, `readsOnly_inputFiles`: nothing is changed.
- `runs_readUnits`, `runs_readUnits_error`: what reading the units gives.
-/

namespace ApiDocs

open Host

variable {here : Location} {tree : FileTree}

/-! ### Options and inputs -/

/-- A check that fails stops the computation, and one that holds is passed. -/
theorem readsOnly_orThrow {α : Type} {c : Prop} {_ : Decidable c} {e : Failure} {rest : RunM α}
    (h : ReadsOnly here tree rest) :
    ReadsOnly here tree (do
      if c then throw e
      rest) := by
  dsimp only
  split
  · exact (ReadsOnly.throw e).bind fun _ => h
  · exact h

/-- Checking the options only reads. -/
theorem readsOnly_check (o : Options) : ReadsOnly here tree (o.check : RunM Request) := by
  unfold Options.check
  split
  · exact readsOnly_orThrow (.throw _)
  · refine readsOnly_orThrow ((ReadsOnly.kind _).bind fun kind => readsOnly_orThrow ?_)
    split
    · exact .throw _
    · exact .pure _

theorem readsOnly_findLiteral (name : Text) (place : Found) :
    ReadsOnly here tree (findLiteral name place : RunM (Option Found)) := by
  unfold findLiteral
  dsimp only
  split
  · split
    · exact (ReadsOnly.isDir _).bind fun _ => .pure _
    · exact .pure none
  · exact (ReadsOnly.kind _).bind fun _ => .pure _

theorem readsOnly_entriesOf (place : Found) :
    ReadsOnly here tree (entriesOf place : RunM (List (Text × Found))) := by
  unfold entriesOf
  split
  · exact .pure []
  · refine (ReadsOnly.list place.path).bind fun names => ?_
    cases names with
    | error e => exact .pure []
    | ok names => exact .mapM fun name _ => (ReadsOnly.isDir _).bind fun _ => .pure _

/-- Searching a place for a pattern only reads, however deep it goes. -/
theorem readsOnly_searchIn (depth : Nat) (parts : List GlobPart) (place : Found) :
    ReadsOnly here tree (searchIn depth parts place : RunM (List Found)) := by
  induction depth generalizing parts place with
  | zero =>
    unfold searchIn
    exact .pure []
  | succ depth ih =>
    rcases parts with _ | ⟨part, parts⟩
    · exact .pure [place]
    · cases part with
      | literal name =>
        refine (readsOnly_findLiteral name place).bind fun found => ?_
        cases found with
        | none => exact .pure []
        | some next => exact ih parts next
      | dirs =>
        refine (readsOnly_entriesOf place).bind fun entries => ?_
        refine (ReadsOnly.mapM fun entry _ => ?_).bind fun inner => .pure inner.flatten
        have hbelow : ∀ own, ReadsOnly here tree (do
            let below ← if entry.2.isDir then searchIn depth (.dirs :: dropDirs parts) entry.2
              else pure []
            return own ++ below : RunM (List Found)) := fun own => by
          split
          · exact (ih _ entry.2).bind fun _ => .pure _
          · exact .pure _
        dsimp only
        split
        · exact (ReadsOnly.pure _).bind hbelow
        · split
          · exact (ih _ entry.2).bind hbelow
          · exact (ReadsOnly.pure _).bind hbelow
      | wild chars =>
        refine (ReadsOnly.mapM fun dot _ => ih parts dot).bind fun dots => ?_
        refine (readsOnly_entriesOf place).bind fun entries => ?_
        refine (ReadsOnly.mapM fun entry _ => ?_).bind fun inner => .pure _
        dsimp only
        split
        · exact ih parts entry.2
        · exact .pure []

/-- Finding the files of a pattern only reads. -/
theorem readsOnly_filesMatching (pattern : Text) :
    ReadsOnly here tree (filesMatching pattern : RunM (List Text)) := by
  unfold filesMatching
  split
  · exact .throw _
  · refine ReadsOnly.bind ?_ fun paths => .filterM ReadsOnly.isFile paths
    exact (readsOnly_searchIn _ _ _).bind fun found => .pure _

theorem readsOnly_sourcesIn (dir : Text) :
    ReadsOnly here tree (sourcesIn dir : RunM (List Text)) := by
  unfold sourcesIn
  refine (ReadsOnly.list dir).bind fun names => ?_
  cases names with
  | error e => exact .throw _
  | ok names =>
    exact .filterM (fun path => (ReadsOnly.isFile path).bind fun _ => .pure _) _

/-- Finding the files of an input only reads. -/
theorem readsOnly_filesOfInput (input : Text) :
    ReadsOnly here tree (filesOfInput input : RunM (List Text)) := by
  unfold filesOfInput
  refine (ReadsOnly.kind input).bind fun kind => ?_
  rcases kind with _ | (_ | _)
  · refine (readsOnly_filesMatching input).bind fun found => ?_
    dsimp only
    split
    · exact (ReadsOnly.note _).bind fun _ => .pure found
    · exact .pure found
  · exact .pure [input]
  · exact readsOnly_sourcesIn input

/-- Looking up the inputs leaves the files as they are. -/
theorem readsOnly_inputFiles (inputs : List Text) :
    ReadsOnly here tree (inputFiles inputs : RunM (List Text)) :=
  (ReadsOnly.mapM fun input _ => readsOnly_filesOfInput input).bind fun _ => .pure _

/-! ### Units -/

/-- Every doc comment of the source is closed. -/
def Segmented (source : Text) : Prop :=
  ∀ line, docBlocks source ≠ .error (.unclosedComment line)

/-- The nodes of a source; none when it cannot be divided. -/
def unitNodes (source : Text) : List DocNode :=
  match UnitDocs.read source with
  | .ok unit => unit.nodes
  | .error _ => []

/-- The catalog of sources that can be divided. -/
def catalogOf (sources : List Text) : Catalog :=
  .ofUnits (sources.map unitNodes)

/-- The only fault of a source is a doc comment that is never closed. -/
theorem placeBlocks_error {line : Nat} {parts : List (DocMark × List Lexeme)} {fault : Fault}
    (h : placeBlocks line parts = .error fault) : ∃ opened, fault = .unclosedComment opened := by
  induction parts generalizing line with
  | nil => simp [placeBlocks] at h
  | cons part parts ih =>
    rcases part with ⟨body | body, code⟩
    · rw [placeBlocks] at h
      cases hlater : placeBlocks (line + Text.lineBreaks body + Text.lineBreaks (spell code)) parts
        with
      | ok later => simp [hlater, Except.map] at h
      | error fault' =>
        simp only [hlater, Except.map, Except.error.injEq] at h
        exact ih (h ▸ hlater)
    · simp only [placeBlocks, Except.error.injEq] at h
      exact ⟨line, h.symm⟩

/-- A source whose doc comments are closed is read. -/
theorem unitDocs_of_segmented {source : Text} (h : Segmented source) :
    ∃ unit, UnitDocs.read source = .ok unit := by
  unfold UnitDocs.read
  cases hblocks : docBlocks source with
  | ok blocks => exact ⟨_, rfl⟩
  | error fault =>
    obtain ⟨line, rfl⟩ := placeBlocks_error hblocks
    exact absurd hblocks (h line)

/-- A source with a doc comment that nothing closes is not read. -/
theorem unitDocs_of_not_segmented {source : Text} (h : ¬ Segmented source) :
    ∃ fault, UnitDocs.read source = .error fault := by
  obtain ⟨line, hline⟩ : ∃ line, docBlocks source = .error (.unclosedComment line) := by
    simpa [Segmented] using h
  exact ⟨.unclosedComment line, by rw [UnitDocs.read, hline]; rfl⟩

/-- A unit whose comments are closed gives its nodes. -/
theorem runs_readUnit {path source : Text} (hread : tree.read here path = .ok source)
    (h : Segmented source) :
    Runs here tree (readUnit path) (.ok (unitNodes source)) tree := by
  obtain ⟨unit, hunit⟩ := unitDocs_of_segmented h
  have hnodes : unitNodes source = unit.nodes := by rw [unitNodes, hunit]
  unfold readUnit
  refine (Runs.note _).bind ((Runs.read path).bind ?_)
  rw [hread]
  dsimp only
  rw [hunit, hnodes]
  exact (Runs.note _).bind ((Runs.notes _ unit.reports).bind (.pure unit.nodes))

/-- A unit with a comment that is never closed fails. -/
theorem runs_readUnit_error {path source : Text} (hread : tree.read here path = .ok source)
    (h : ¬ Segmented source) :
    ∃ failure, Runs here tree (readUnit path) (.error failure) tree := by
  obtain ⟨fault, hfault⟩ := unitDocs_of_not_segmented h
  refine ⟨.unparsable path fault, ?_⟩
  unfold readUnit
  refine (Runs.note _).bind ((Runs.read path).bind ?_)
  rw [hread]
  dsimp only
  rw [hfault]
  exact .throw _

/-- The files of a run hold these sources. -/
abbrev Holds (here : Location) (tree : FileTree) (paths sources : List Text) : Prop :=
  List.Forall₂ (fun path source => tree.read here path = .ok source) paths sources

/-- Units whose comments are all closed give their nodes, file by file. -/
theorem runs_readUnits {paths sources : List Text} (hread : Holds here tree paths sources)
    (h : ∀ source ∈ sources, Segmented source) :
    Runs here tree (paths.mapM readUnit) (.ok (sources.map unitNodes)) tree := by
  induction hread with
  | nil => exact .pure []
  | cons hpath hpaths ih =>
    obtain ⟨hsource, hsources⟩ := List.forall_mem_cons.1 h
    rw [List.mapM_cons]
    exact (runs_readUnit hpath hsource).bind ((ih hsources).bind (.pure _))

/-- One unit with a comment that is never closed makes all of them fail. -/
theorem runs_readUnits_error {paths sources : List Text} (hread : Holds here tree paths sources)
    (h : ∃ source ∈ sources, ¬ Segmented source) :
    ∃ failure, Runs here tree (paths.mapM readUnit) (.error failure) tree := by
  induction hread with
  | nil => simp at h
  | @cons path source paths sources hpath hpaths ih =>
    rw [List.mapM_cons]
    by_cases hsource : Segmented source
    · obtain ⟨bad, hbad, hopen⟩ := h
      have hlater : ∃ source ∈ sources, ¬ Segmented source := by
        rcases List.mem_cons.1 hbad with rfl | hbad
        · exact absurd hsource hopen
        · exact ⟨bad, hbad, hopen⟩
      obtain ⟨failure, hfailure⟩ := ih hlater
      exact ⟨failure, (runs_readUnit hpath hsource).bind (hfailure.bind_error _)⟩
    · obtain ⟨failure, hfailure⟩ := runs_readUnit_error hpath hsource
      exact ⟨failure, hfailure.bind_error _⟩

end ApiDocs
