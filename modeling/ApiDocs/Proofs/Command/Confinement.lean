import ApiDocs.Proofs.Class.Names
import ApiDocs.Proofs.Command.AllOrNothing
import ApiDocs.Proofs.Files.Locations
/-!
# A run stays in its output directory

The path of a page is made of the output path and the name of a class, and a slash in that name
would make it lead elsewhere.  Names from tags have no slash, and neither have the names that
code declares or assigns to.  Then the pages lie side by side in the output directory, each class
has a file of its own, and this holds however far a run gets: it fails before it changes anything,
or it writes the first ones of its files.  A key between quotes may have a slash, and a class that
takes its name from there may leave the output directory.

Main definitions:

- `PutsInto`: a computation that makes directories and then puts files into one of them.
- `StaysWithin`: the files that a run has put into its output directory.

Main results:

- `components_join`: a page is one component below the output path.
- `run_fails_or_reads`: a run fails early, or it reads all of its units.
- `putsInto_finish`: what happens after the units have been read.
- `outcome_stays_within`: the files after a run without slashes in keys.
- `page_outside_output_of_slashedKeys`: a run that leaves the output directory.
-/

namespace ApiDocs

open Host

variable {here dir : Location} {before after tree : FileTree} {output : Text}

/-! ### Paths of pages -/

/-- A file in a directory is one component below it. -/
theorem components_join (hout : output ≠ []) {name : Text} (hname : '/' ∉ name)
    (hentry : FileTree.isEntryName name = true) :
    Path.components (Path.join output name) = Path.components output ++ [.name name] := by
  rw [components_join_piece hout hname, List.filterMap_cons, component?_of_isEntryName hentry]
  rfl

/-! ### Reading -/

/-- A file that cannot be read is reported, and nothing changes. -/
theorem runs_readUnit_unreadable {path : Text} {e : FileError}
    (h : tree.read here path = .error e) :
    Runs here tree (readUnit path) (.error (.unreadable path e)) tree := by
  unfold readUnit
  refine (Runs.note _).bind ((Runs.read path).bind ?_)
  rw [h]
  exact .throw _

/-- Reading the units fails, or all of them can be read and have their comments closed. -/
theorem runs_readUnits_cases (here : Location) (tree : FileTree) (paths : List Text) :
    (∃ failure, Runs here tree (paths.mapM readUnit) (.error failure) tree) ∨
      ∃ sources, Holds here tree paths sources ∧ ∀ source ∈ sources, Segmented source := by
  induction paths with
  | nil => exact .inr ⟨[], .nil, fun _ h => by cases h⟩
  | cons path paths ih =>
    rw [List.mapM_cons]
    cases hread : tree.read here path with
    | error e => exact .inl ⟨_, (runs_readUnit_unreadable hread).bind_error _⟩
    | ok source =>
      by_cases hsource : Segmented source
      · have hunit := runs_readUnit hread hsource
        rcases ih with ⟨failure, hfailure⟩ | ⟨sources, hsources, hclosed⟩
        · exact .inl ⟨failure, hunit.bind (hfailure.bind_error _)⟩
        · exact .inr ⟨source :: sources, .cons hread hsources,
            List.forall_mem_cons.2 ⟨hsource, hclosed⟩⟩
      · obtain ⟨failure, hfailure⟩ := runs_readUnit_error hread hsource
        exact .inl ⟨failure, hfailure.bind_error _⟩

/-- A run fails before it has changed anything, or it reads all of its units. -/
theorem run_fails_or_reads (s : Session) (o : Options) :
    (∃ failure, Runs s.here s.tree (run o) (.error failure) s.tree) ∨
      ∃ req paths sources, Reads s o req paths sources ∧ ∀ source ∈ sources, Segmented source := by
  obtain ⟨checked, hcheck⟩ : ReadsOnly s.here s.tree (o.check : RunM Request) := readsOnly_check o
  cases checked with
  | error failure => exact .inl ⟨failure, hcheck.bind_error _⟩
  | ok req =>
    obtain ⟨expanded, hinputs⟩ :
        ReadsOnly s.here s.tree (inputFiles req.inputs : RunM (List Text)) :=
      readsOnly_inputFiles req.inputs
    cases expanded with
    | error failure => exact .inl ⟨failure, hcheck.bind (hinputs.bind_error _)⟩
    | ok paths =>
      cases paths with
      | nil =>
        exact .inl ⟨.nothingMatched, hcheck.bind (hinputs.bind ((Runs.throw _).bind_error _))⟩
      | cons path paths =>
        rcases runs_readUnits_cases s.here s.tree (path :: paths) with
          ⟨failure, hfailure⟩ | ⟨sources, hsources, hclosed⟩
        · exact .inl ⟨failure, hcheck.bind (hinputs.bind (hfailure.bind_error _))⟩
        · refine .inr ⟨req, path :: paths, sources,
            ⟨?_, ?_, List.cons_ne_nil _ _, hsources⟩, hclosed⟩
          · obtain ⟨later, hrun⟩ := hcheck s.records
            exact congrArg Prod.fst hrun
          · obtain ⟨later, hrun⟩ := hinputs s.records
            exact congrArg Prod.fst hrun

/-! ### Writing -/

/-- A file that cannot be written is reported, and nothing changes. -/
theorem runs_writeOutput_error {path content : Text} {e : FileError}
    (h : tree.write here path content = .error e) :
    Runs here tree (writeOutput ⟨path, content⟩) (.error (.unwritten path e)) tree :=
  (Runs.update_error h).bind (.throw _)

/-- Pages are written into one directory until one of them cannot be written. -/
theorem runs_writePages_until (hout : output ≠ []) {files : List (Text × Text)}
    (hnames : ∀ file ∈ files, '/' ∉ file.1) {other : Text}
    (hdir : WritesInto here before output dir other) :
    ∃ result written, written <+: files ∧
      Runs here before
        ((files.map fun file => ⟨Path.join output file.1, file.2⟩ : List OutputFile).forM writePage)
        result (before.putFiles dir written) ∧
      WritesInto here (before.putFiles dir written) output dir other := by
  induction files generalizing before with
  | nil => exact ⟨_, [], List.prefix_rfl, .pure (), hdir⟩
  | cons file files ih =>
    obtain ⟨hname, hnames⟩ := List.forall_mem_cons.1 hnames
    cases hwrite : before.write here (Path.join output file.1) file.2 with
    | error e =>
      exact ⟨_, [], List.nil_prefix,
        ((Runs.note _).bind (runs_writeOutput_error hwrite)).bind_error _, hdir⟩
    | ok after =>
      obtain ⟨found, hfile⟩ := writesInto_of_write hout hname hwrite
      obtain rfl := hdir.dir_unique hfile
      have hput := runs_writeOutput (hfile.write_eq hout hname file.2)
      obtain ⟨result, written, hprefix, hruns, hlater⟩ :=
        ih hnames (hdir.put hfile (.text file.2))
      exact ⟨result, file :: written, List.cons_prefix_cons.2 ⟨rfl, hprefix⟩,
        ((Runs.note _).bind hput).bind hruns, hlater⟩

theorem output_ne_nil_of_made (h : Runs here before (makeOutput output) (.ok ()) after) :
    output ≠ [] := by
  rintro rfl
  obtain ⟨later, hrun⟩ := h []
  have hfails := makeOutput_nil ⟨before, here, []⟩
  rw [hrun] at hfails
  cases hfails

/-- What happens after the pages have been made. -/
def writeAll (req : Request) (table : ClassTable) : RunM Unit := do
  makeOutput req.output
  writeOutput ⟨navigationPath req.output, navigation table⟩
  ((table.keys.map fun name => (pageName req.format name, pageText req table name)).map
    fun file => (⟨Path.join req.output file.1, file.2⟩ : OutputFile)).forM writePage

/-- The computation makes directories and then puts the first ones of some files into the
directory to which a path leads. -/
def PutsInto (here : Location) (before : FileTree) (output : Text) (files : List (Text × Text))
    (x : RunM Unit) : Prop :=
  ∃ result made dir written, AddsDirs before made ∧ written <+: files ∧
    Runs here before x result (made.putFiles dir written) ∧
    (written ≠ [] → output ≠ [] ∧
      (made.putFiles dir written).locate here output = .ok (dir, .dir))

/-- A run that only makes directories puts none of the files. -/
theorem putsInto_of_addsDirs {files : List (Text × Text)} {x : RunM Unit}
    {result : Except Failure Unit} (hadds : AddsDirs before after)
    (h : Runs here before x result after) : PutsInto here before output files x :=
  ⟨result, after, [], [], hadds, List.nil_prefix, h, fun hsome => absurd rfl hsome⟩

/-- A run writes its files into the output directory, up to one that cannot be written. -/
theorem putsInto_writeAll {req : Request} {table : ClassTable}
    (hplain : ∀ name ∈ table.keys, '/' ∉ name) :
    PutsInto here before req.output (outputFiles req table) (writeAll req table) := by
  obtain ⟨result, made, hmade, hadds⟩ : MakesDirs here before (makeOutput req.output) :=
    makesDirs_makeOutput req.output
  cases result with
  | error failure => exact putsInto_of_addsDirs hadds (hmade.bind_error _)
  | ok u =>
    have hout := output_ne_nil_of_made hmade
    cases hwrite : made.write here (Path.join req.output "tree.js".toList) (navigation table) with
    | error e =>
      exact putsInto_of_addsDirs hadds (hmade.bind ((runs_writeOutput_error hwrite).bind_error _))
    | ok after =>
      obtain ⟨dir, hscript⟩ := writesInto_of_write hout (by decide) hwrite
      have hput := runs_writeOutput (hscript.write_eq hout (by decide) (navigation table))
      have hnames : ∀ file ∈ table.keys.map fun name =>
          (pageName req.format name, pageText req table name), '/' ∉ file.1 := by
        refine List.forall_mem_map.2 fun name hname => ?_
        exact not_mem_of_mem_outputNames hplain
          (List.mem_cons_of_mem _ (List.mem_map.2 ⟨name, hname, rfl⟩))
      obtain ⟨result, written, hprefix, hruns, hdir⟩ := runs_writePages_until hout hnames
        (hscript.put hscript (.text (navigation table)))
      exact ⟨result, made, dir, ("tree.js".toList, navigation table) :: written, hadds,
        List.cons_prefix_cons.2 ⟨rfl, hprefix⟩, hmade.bind (hput.bind hruns),
        fun _ => ⟨hout, hdir.locate hout (by decide)⟩⟩

/-- The same holds for all that happens after the units have been read. -/
theorem putsInto_finish {req : Request} {c : Catalog}
    (hplain : ∀ name ∈ c.classes.keys, '/' ∉ name) :
    PutsInto here before req.output (outputFiles req c.classes) (finish req c) := by
  by_cases hcycle : ∀ name ∈ c.classes.keys, ¬ Revisits c.classes name
  · obtain ⟨result, made, dir, written, hadds, hprefix, hruns, hplace⟩ :
        PutsInto here before req.output (outputFiles req c.classes) (writeAll req c.classes) :=
      putsInto_writeAll hplain
    refine ⟨result, made, dir, written, hadds, hprefix, ?_, hplace⟩
    unfold writeAll at hruns
    rw [List.map_map] at hruns
    exact (runs_noteCatalog c).bind ((Runs.lift (makePages_eq_ok hcycle)).bind
      ((Runs.notes _ _).bind hruns))
  · have hrevisits : ∃ name ∈ c.classes.keys, Revisits c.classes name := by simpa using hcycle
    obtain ⟨failure, hfailure⟩ := runs_finish_error hrevisits
    exact putsInto_of_addsDirs (.refl before) hfailure

/-! ### A whole run -/

/-- The name of a page is no name for a directory itself. -/
theorem isEntryName_pageName (format : Format) (name : Text) :
    FileTree.isEntryName (pageName format name) = true := by
  have hlast : (pageName format name).getLast? ≠ none ∧
      (pageName format name).getLast? ≠ some '.' := by
    cases format <;> simp [pageName, Format.name, List.getLast?_append]
  have hne : ∀ other : Text, other.getLast? = none ∨ other.getLast? = some '.' →
      pageName format name ≠ other := by
    rintro other hother rfl
    exact hother.elim hlast.1 hlast.2
  simp only [FileTree.isEntryName, Bool.not_eq_true', Bool.or_eq_false_iff, decide_eq_false_iff_not]
  exact ⟨⟨hne [] (.inl rfl), hne ['.'] (.inr rfl)⟩, hne ['.', '.'] (.inr rfl)⟩

/-- The classes of a source have no slash in their names, unless one gets it from a key. -/
theorem slashless_unitNodes {source : Text} (h : hasSlashedKey source = false) {node : DocNode}
    (hnode : node ∈ unitNodes source) (hkind : node.kind = .cls) : Slashless node.name := by
  unfold unitNodes UnitDocs.read at hnode
  cases hblocks : docBlocks source with
  | error fault =>
    rw [hblocks] at hnode
    cases hnode
  | ok blocks =>
    rw [hblocks] at hnode
    obtain ⟨b, hb, rfl⟩ := List.mem_map.1 hnode
    rw [hasSlashedKey, hblocks, List.any_eq_false] at h
    exact slashless_read (by simpa using h b hb) hkind

/-- Without a slash in a quoted key, no class has a slash in its name. -/
theorem not_mem_of_mem_keys_catalogOf {sources : List Text}
    (h : ∀ source ∈ sources, hasSlashedKey source = false) {name : Text}
    (hname : name ∈ (catalogOf sources).classes.keys) : '/' ∉ name := by
  apply not_mem_of_mem_keys_ofUnits ?_ hname
  intro nodes hnodes node hnode hkind
  obtain ⟨source, hsource, rfl⟩ := List.mem_map.1 hnodes
  exact slashless_unitNodes (h source hsource) hnode hkind

/-- The files that a run has put into the directory `dir`: the first ones of its files, no two
of them with one name, in the directory to which the output path leads.  The paths of the pages
are one component longer than that path, and differ from class to class. -/
structure StaysWithin (after : Session) (req : Request) (table : ClassTable) (dir : Location)
    (written : List (Text × Text)) : Prop where
  files : written <+: outputFiles req table
  distinct : (written.map Prod.fst).Nodup
  place : after.tree.locate after.here req.output = .ok (dir, .dir)
  below : ∀ name ∈ table.keys, Path.components (pagePath req.output req.format name)
    = Path.components req.output ++ [.name (pageName req.format name)]
  apart : ∀ name ∈ table.keys, ∀ other ∈ table.keys, name ≠ other →
    Path.components (pagePath req.output req.format name)
      ≠ Path.components (pagePath req.output req.format other)

/-- Files with plain names stay within the output directory. -/
theorem staysWithin {after : Session} {req : Request} {table : ClassTable}
    {written : List (Text × Text)} (hplain : ∀ name ∈ table.keys, '/' ∉ name)
    (hout : req.output ≠ []) (hfiles : written <+: outputFiles req table)
    (hplace : after.tree.locate after.here req.output = .ok (dir, .dir)) :
    StaysWithin after req table dir written := by
  have hbelow : ∀ name ∈ table.keys, Path.components (pagePath req.output req.format name)
      = Path.components req.output ++ [.name (pageName req.format name)] := by
    intro name hname
    apply components_join hout
    · exact not_mem_of_mem_outputNames hplain
        (List.mem_cons_of_mem _ (List.mem_map.2 ⟨name, hname, rfl⟩))
    · exact isEntryName_pageName req.format name
  refine ⟨hfiles, ?_, hplace, hbelow, ?_⟩
  · have hnodup := nodup_outputNames req.format table
    rw [← map_fst_outputFiles] at hnodup
    exact hnodup.sublist (hfiles.sublist.map Prod.fst)
  · intro name hname other hother hne heq
    rw [hbelow name hname, hbelow other hother, List.append_cancel_left_eq, List.cons.injEq,
      PathComponent.name.injEq] at heq
    exact hne (pageName_injective req.format heq.1)

/-- Whatever a run reads and however it ends, all that it does to the files is to make
directories where nothing was and then to put files into the output directory, unless some class
takes a slash into its name from the key of a property. -/
theorem outcome_stays_within (s : Session) (o : Options)
    (hkeys : ∀ req paths sources, Reads s o req paths sources →
      ∀ source ∈ sources, hasSlashedKey source = false) :
    ∃ made dir written, AddsDirs s.tree made ∧
      ((outcome o : SessionM Outcome).run s).2.tree = made.putFiles dir written ∧
      (written ≠ [] → ∃ req paths sources, Reads s o req paths sources ∧
        StaysWithin ((outcome o : SessionM Outcome).run s).2 req (catalogOf sources).classes dir
          written) := by
  rcases run_fails_or_reads s o with ⟨failure, hruns⟩ | ⟨req, paths, sources, hreads, hclosed⟩
  · obtain ⟨later, hrun⟩ := outcome_of_runs hruns
    rw [hrun]
    exact ⟨s.tree, [], [], .refl s.tree, rfl, fun h => absurd rfl h⟩
  · have hplain : ∀ name ∈ (catalogOf sources).classes.keys, '/' ∉ name := by
      intro name hname
      exact not_mem_of_mem_keys_catalogOf (hkeys req paths sources hreads) hname
    obtain ⟨result, made, dir, written, hadds, hfiles, hfinish, hplace⟩ :
        PutsInto s.here s.tree req.output (outputFiles req (catalogOf sources).classes)
          (finish req (catalogOf sources)) :=
      putsInto_finish hplain
    have hruns := runs_run hreads ((runs_readUnits hreads.holds hclosed).bind hfinish)
    obtain ⟨later, hrun⟩ := outcome_of_runs hruns
    rw [hrun]
    refine ⟨made, dir, written, hadds, rfl, ?_⟩
    intro hsome
    obtain ⟨hout, hlocate⟩ := hplace hsome
    exact ⟨req, paths, sources, hreads, staysWithin hplain hout hfiles hlocate⟩

/-- What a run asks for and reads is determined by its session. -/
theorem Reads.unique {s : Session} {o : Options} {req req' : Request}
    {paths paths' sources sources' : List Text} (h : Reads s o req paths sources)
    (h' : Reads s o req' paths' sources') : req = req' ∧ paths = paths' ∧ sources = sources' := by
  obtain rfl : req = req' := Except.ok.inj (h.check.symm.trans h'.check)
  obtain rfl : paths = paths' := Except.ok.inj (h.inputs.symm.trans h'.inputs)
  have hread : Relator.RightUnique fun path source =>
      s.tree.read s.here path = Except.ok source := by
    intro path source source' hsource hsource'
    exact Except.ok.inj (hsource.symm.trans hsource')
  exact ⟨rfl, rfl, List.right_unique_forall₂' hread h.holds h'.holds⟩

/-- Of two classes without a slash in a quoted key, all files stay in one directory. -/
theorem outcome_stays_within_of_twoClasses :
    (∀ source ∈ twoClassesSources, hasSlashedKey source = false) ∧
      ∃ made dir written, AddsDirs twoClasses.tree made ∧
        ((outcome twoClassesOptions : SessionM Outcome).run twoClasses).2.tree
          = made.putFiles dir written ∧
        written ≠ [] ∧
        StaysWithin ((outcome twoClassesOptions : SessionM Outcome).run twoClasses).2
          twoClassesRequest (catalogOf twoClassesSources).classes dir written := by
  have hkeys : ∀ source ∈ twoClassesSources, hasSlashedKey source = false := by decide +kernel
  obtain ⟨made, dir, written, hadds, htree, hwithin⟩ :=
    outcome_stays_within twoClasses twoClassesOptions fun req paths sources hreads => by
      obtain ⟨-, -, rfl⟩ := hreads.unique reads_twoClasses
      exact hkeys
  have hsome : written ≠ [] := by
    rintro rfl
    have hscript := hadds ["docs".toList, "tree.js".toList]
    have hmade : made
        = ((outcome twoClassesOptions : SessionM Outcome).run twoClasses).2.tree := htree.symm
    rw [hmade] at hscript
    revert hscript
    decide +kernel
  obtain ⟨req, paths, sources, hreads, hstays⟩ := hwithin hsome
  obtain ⟨rfl, -, rfl⟩ := hreads.unique reads_twoClasses
  exact ⟨hkeys, made, dir, written, hadds, htree, hsome, hstays⟩

/-- A file with three classes, two of which take their names from property keys. -/
def slashedKeysSource : Text :=
  "/** Escapes. */\n\"../esc\": 1\n/** @class A */\n/** Hides it. */\n\"./A\": 2\n".toList

/-- A session with this file alone. -/
def slashedKeys : Session where
  tree := ⟨[(["a.js".toList], .file (.text slashedKeysSource))]⟩
  here := []

/-- A command line for this file. -/
def slashedKeysOptions : Options where
  inputs := ["a.js".toList]
  output := some "out".toList

/-- What it asks for. -/
def slashedKeysRequest : Request :=
  ⟨["a.js".toList], "out".toList, .html, false⟩

/-- With slashes in keys, the page of one class is written beside the output directory, and two
classes share one file in it. -/
theorem page_outside_output_of_slashedKeys :
    ∃ after table, ((outcome slashedKeysOptions : SessionM Outcome).run slashedKeys).2 = after ∧
      (catalogOf [slashedKeysSource]).classes = table ∧
      Reads slashedKeys slashedKeysOptions slashedKeysRequest ["a.js".toList]
        [slashedKeysSource] ∧
      table.keys = ["../esc".toList, "./A".toList, "A".toList] ∧
      after.tree.locate after.here "out".toList = .ok (["out".toList], .dir) ∧
      slashedKeys.tree.get? ["esc.html".toList] = none ∧
      (after.tree.locate after.here (pagePath "out".toList .html "../esc".toList)).map Prod.fst
        = .ok ["esc.html".toList] ∧
      ∀ name ∈ ["A".toList, "./A".toList],
        (after.tree.locate after.here (pagePath "out".toList .html name)).map Prod.fst
          = .ok ["out".toList, "A.html".toList] := by
  refine ⟨_, _, rfl, rfl, ⟨by decide +kernel, by decide +kernel, by decide, .cons rfl .nil⟩,
    by decide +kernel, by decide +kernel, by decide, by decide +kernel, by decide +kernel⟩

end ApiDocs
