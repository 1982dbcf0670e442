import ApiDocs.Proofs.Command.Output
import ApiDocs.Proofs.Command.Reading
import ApiDocs.Proofs.Json.Unambiguous
import ApiDocs.Proofs.Namespace.Leaves
/-!
# A run writes everything or nothing

A run reads all units and makes all pages before it writes its first file.  So it fails, without
a trace in the files, when a doc comment is never closed or the way up from some class comes back
to a class, and otherwise it writes the navigation and one page for each class, which are the
files that the navigation refers to.

The navigation is a script that gives its data to the pages.  Its text decides on the data, so the
files that it refers to can be read off the script that a run has left.

Main definitions:

- `scriptOf`: the text of a script that holds some data.
- `outputFiles`, `outputNames`: the files of a run and their names.
- `Reads`, `HasPlace`: inputs that can be read, and an output directory that can be written.
- `OutputWritten`: what a run leaves that has not failed.

Main results:

- `scriptOf_injective`: the data of a script.
- `nodup_outputNames`: no file of a run overwrites another one.
- `runs_finish`, `runs_finish_error`: a run after its units have been read.
- `outcome_all_or_nothing`: the outcome of a run and what it leaves.
-/

namespace ApiDocs

open Host

variable {here dir : Location} {before after tree : FileTree}

/-! ### The script of the navigation -/

/-- The text of a script that holds some data, and no icons. -/
def scriptOf (data : Json) : Text :=
  "Docs.classData = ".toList ++ data.write .compact ++ ";Docs.icons = \x7b\x7d;".toList

/-- A script holds the data of one value only. -/
theorem scriptOf_injective : Function.Injective scriptOf := by
  intro data other h
  have hdata : "Docs.classData = ".toList ++ data.write .compact
      = "Docs.classData = ".toList ++ other.write .compact := List.append_cancel_right h
  have hwrite : data.write .compact = other.write .compact := List.append_cancel_left hdata
  exact Json.write_injective Json.Layout.blank_compact hwrite

/-- The navigation of a table is the script of its items, below their root. -/
theorem navigation_eq_scriptOf (table : ClassTable) :
    navigation table = scriptOf (navRoot (navItems (.ofTable table))) :=
  rfl

/-! ### The files of a run -/

/-- The files that a run writes, by their names in the output directory. -/
def outputFiles (req : Request) (table : ClassTable) : List (Text × Text) :=
  ("tree.js".toList, navigation table)
    :: table.keys.map fun name => (pageName req.format name, pageText req table name)

/-- The names of these files. -/
def outputNames (format : Format) (table : ClassTable) : List Text :=
  "tree.js".toList :: table.keys.map (pageName format)

/-- The files of a run have the names that are listed. -/
theorem map_fst_outputFiles (req : Request) (table : ClassTable) :
    (outputFiles req table).map Prod.fst = outputNames req.format table := by
  simp [outputFiles, outputNames, Function.comp_def]

/-- The file of a page tells its class. -/
theorem pageName_injective (format : Format) : Function.Injective (pageName format) :=
  fun _ _ h => List.append_cancel_right h

/-- The pages have endings of their own. -/
theorem pageName_ne_navigation (format : Format) (name : Text) :
    pageName format name ≠ "tree.js".toList := fun h => by
  have hlast := congrArg List.getLast? h
  cases format <;> simp [pageName, Format.name, List.getLast?_append] at hlast

/-- No two files of a run have one name. -/
theorem nodup_outputNames (format : Format) (table : ClassTable) :
    (outputNames format table).Nodup := by
  rw [outputNames, List.nodup_cons]
  refine ⟨fun h => ?_, table.nodup_keys.map (pageName_injective format)⟩
  obtain ⟨name, -, heq⟩ := List.mem_map.1 h
  exact pageName_ne_navigation format name heq

/-- The names of the files are plain when those of the classes are. -/
theorem not_mem_of_mem_outputNames {format : Format} {table : ClassTable}
    (h : ∀ name ∈ table.keys, '/' ∉ name) {file : Text} (hfile : file ∈ outputNames format table) :
    '/' ∉ file := by
  rcases List.mem_cons.1 hfile with rfl | hfile
  · decide
  · obtain ⟨name, hname, rfl⟩ := List.mem_map.1 hfile
    have hending : '/' ∉ '.' :: format.name := by cases format <;> decide
    exact fun hin => (List.mem_append.1 hin).elim (h name hname) hending

/-! ### The parts of a run -/

/-- What happens after the units have been read. -/
def finish (req : Request) (c : Catalog) : RunM Unit := do
  noteCatalog c
  let (pages, reports) ← (makePages req c.classes : Except Failure _)
  reports.forM fun report => note { level := .warn, message := report.message }
  makeOutput req.output
  writeOutput ⟨navigationPath req.output, navigation c.classes⟩
  pages.forM writePage

theorem runs_noteCatalog (c : Catalog) : Runs here tree (noteCatalog c : RunM Unit) (.ok ()) tree :=
  (Runs.notes _ c.redefined).bind (Runs.notes _ c.orphans)

/-- With a way up that comes back to a class, nothing is written. -/
theorem runs_finish_error {req : Request} {c : Catalog}
    (h : ∃ name ∈ c.classes.keys, Revisits c.classes name) :
    ∃ failure, Runs here tree (finish req c) (.error failure) tree := by
  obtain ⟨failure, hfailure⟩ := makePages_eq_error h
  exact ⟨failure, (runs_noteCatalog c).bind ((Runs.lift hfailure).bind_error _)⟩

/-- Otherwise all files are written, once the output directory is there and can take them. -/
theorem runs_finish {req : Request} {c : Catalog}
    (h : ∀ name ∈ c.classes.keys, ¬ Revisits c.classes name)
    (hnames : ∀ name ∈ c.classes.keys, '/' ∉ name) (hout : req.output ≠ [])
    (hmade : Runs here before (makeOutput req.output) (.ok ()) after)
    (hinto : ∀ name ∈ outputNames req.format c.classes,
      WritesInto here after req.output dir name) :
    Runs here before (finish req c) (.ok ()) (after.putFiles dir (outputFiles req c.classes)) := by
  have hnavigation : WritesInto here after req.output dir "tree.js".toList :=
    hinto _ List.mem_cons_self
  have hpage : ∀ name ∈ c.classes.keys, WritesInto here after req.output dir
      (pageName req.format name) := fun name hname =>
    hinto _ (List.mem_cons_of_mem _ (List.mem_map.2 ⟨name, hname, rfl⟩))
  have hwrite := runs_writeOutput
    (hnavigation.write_eq hout (by decide) (navigation c.classes))
  have hnames' : ∀ file ∈ c.classes.keys.map fun name =>
      (pageName req.format name, pageText req c.classes name), '/' ∉ file.1 := by
    refine List.forall_mem_map.2 fun name hname => ?_
    exact not_mem_of_mem_outputNames hnames
      (List.mem_cons_of_mem _ (List.mem_map.2 ⟨name, hname, rfl⟩))
  have hpages := runs_writePages hout hnames' (List.forall_mem_map.2 fun name hname =>
    (hpage name hname).put hnavigation (.text (navigation c.classes)))
  rw [List.map_map] at hpages
  exact (runs_noteCatalog c).bind ((Runs.lift (makePages_eq_ok h)).bind
    ((Runs.notes _ _).bind (hmade.bind (hwrite.bind hpages))))

/-! ### A whole run -/

/-- The options make sense, and the inputs stand for files, at least one, that hold the
sources. -/
structure Reads (s : Session) (o : Options) (req : Request) (paths sources : List Text) :
    Prop where
  check : ((o.check : RunM Request).run.run s).1 = .ok req
  inputs : ((inputFiles req.inputs : RunM (List Text)).run.run s).1 = .ok paths
  nonempty : paths ≠ []
  holds : Holds s.here s.tree paths sources

/-- The output directory can be made, and then files with these names can be written into it. -/
structure CanWrite (s : Session) (output : Text) (names : List Text) : Prop where
  made : ((makeOutput output : RunM Unit).run.run s).1 = .ok ()
  files : ∀ name ∈ names, (((makeOutput output : RunM Unit).run.run s).2.tree.write s.here
    (Path.join output name) []).isOk = true

/-- The classes of a table have plain names, and all files for them can be written. -/
structure HasPlace (s : Session) (req : Request) (table : ClassTable) : Prop where
  plain : ∀ name ∈ table.keys, '/' ∉ name
  canWrite : CanWrite s req.output (outputNames req.format table)

/-- What a run leaves that has not failed: in the directory `dir`, to which the output path
leads, the script of the navigation and the page of each class, and everywhere else what was
there before, and new directories.  Whatever data the script holds there, the files that they
refer to are the pages. -/
structure OutputWritten (before after : Session) (req : Request) (table : ClassTable)
    (dir : Location) : Prop where
  place : after.tree.locate after.here req.output = .ok (dir, .dir)
  script : after.tree.get? (dir ++ ["tree.js".toList])
    = some (.file (.text (scriptOf (navRoot (navItems (.ofTable table))))))
  pages : ∀ name ∈ table.keys, ∃ page reports,
    Page.ofClass table name req.showPrivate = .ok (page, reports) ∧
      after.tree.get? (dir ++ [pageName req.format name])
        = some (.file (.text (req.format.render page)))
  others : ∀ place, (∀ file ∈ outputNames req.format table, place ≠ dir ++ [file]) →
    after.tree.get? place = before.tree.get? place ∨
      before.tree.get? place = none ∧ after.tree.get? place = some .dir
  hrefs : req.format = .html → ∀ data : Json,
    after.tree.get? (dir ++ ["tree.js".toList]) = some (.file (.text (scriptOf data))) →
      ∀ file, file ∈ table.keys.map (pageName req.format) ↔ file ∈ data.hrefs

section

variable {s : Session} {o : Options} {req : Request} {paths sources : List Text}

/-- A run starts with reading its units. -/
theorem runs_run (h : Reads s o req paths sources) {result : Except Failure Unit}
    (hunits : Runs s.here s.tree (paths.mapM readUnit >>= fun units => finish req (.ofUnits units))
      result after) :
    Runs s.here s.tree (run o) result after := by
  have hinputs := (readsOnly_inputFiles req.inputs).runs h.inputs
  have hany : ¬ paths.isEmpty = true := by simpa using h.nonempty
  unfold run
  refine ((readsOnly_check o).runs h.check).bind (hinputs.bind ?_)
  dsimp only
  rw [if_neg hany]
  exact hunits

/-- The session after a run, and its outcome. -/
theorem outcome_of_runs {result : Except Failure Unit}
    (h : Runs s.here s.tree (run o) result after) :
    ∃ later, (outcome o : SessionM Outcome).run s
      = (match result with
          | .ok () => ⟨0, []⟩
          | .error failure => ⟨1, failure.report⟩, ⟨after, s.here, later⟩) := by
  obtain ⟨later, hrun⟩ := h s.records
  refine ⟨later, ?_⟩
  unfold outcome
  rw [StateT.run_bind, hrun]
  cases result <;> rfl

/-- A directory needs a path. -/
theorem CanWrite.output_ne_nil {output : Text} {names : List Text} (h : CanWrite s output names) :
    output ≠ [] := by
  rintro rfl
  have hmade := h.made
  rw [makeOutput_nil] at hmade
  cases hmade

/-- All files go into one directory, which is made where nothing was. -/
theorem CanWrite.writesInto {output : Text} {names : List Text} (h : CanWrite s output names)
    (hplain : ∀ name ∈ names, '/' ∉ name) (hsome : names ≠ []) :
    ∃ after dir, Runs s.here s.tree (makeOutput output) (.ok ()) after ∧ AddsDirs s.tree after ∧
      ∀ name ∈ names, WritesInto s.here after output dir name := by
  obtain ⟨result, after, hruns, hadds⟩ : MakesDirs s.here s.tree (makeOutput output) :=
    makesDirs_makeOutput output
  obtain ⟨later, hrun⟩ := hruns s.records
  obtain ⟨hmade, hfiles⟩ := h
  have hout := CanWrite.output_ne_nil ⟨hmade, hfiles⟩
  rw [hrun] at hmade hfiles
  obtain rfl : result = .ok () := hmade
  have hinto : ∀ name ∈ names, ∃ dir, WritesInto s.here after output dir name := by
    intro name hname
    have hok : (after.write s.here (Path.join output name) []).isOk = true := hfiles name hname
    cases hwrite : after.write s.here (Path.join output name) [] with
    | ok tree => exact writesInto_of_write hout (hplain name hname) hwrite
    | error e =>
      rw [hwrite] at hok
      cases hok
  obtain ⟨first, hfirst⟩ := List.exists_mem_of_ne_nil names hsome
  obtain ⟨dir, hdir⟩ := hinto first hfirst
  refine ⟨after, dir, hruns, hadds, fun name hname => ?_⟩
  obtain ⟨other, hother⟩ := hinto name hname
  exact hdir.dir_unique hother ▸ hother

/-- The files of a run in the output directory. -/
theorem outputWritten {after : FileTree} {later : List Record} {table : ClassTable}
    (hout : req.output ≠ []) (hcycle : ∀ name ∈ table.keys, ¬ Revisits table name)
    (hadds : AddsDirs s.tree after)
    (hinto : ∀ name ∈ outputNames req.format table, WritesInto s.here after req.output dir name) :
    OutputWritten s ⟨after.putFiles dir (outputFiles req table), s.here, later⟩ req table dir := by
  have hnodup : ((outputFiles req table).map Prod.fst).Nodup := by
    rw [map_fst_outputFiles]
    exact nodup_outputNames req.format table
  have hfile : ∀ file ∈ outputFiles req table, (after.putFiles dir (outputFiles req table)).get?
      (dir ++ [file.1]) = some (.file (.text file.2)) := fun file hmem =>
    FileTree.get?_putFiles hnodup hmem
  have hscript : (after.putFiles dir (outputFiles req table)).get? (dir ++ ["tree.js".toList])
      = some (.file (.text (scriptOf (navRoot (navItems (.ofTable table)))))) := by
    rw [← navigation_eq_scriptOf]
    exact hfile _ List.mem_cons_self
  constructor
  case place =>
    have hnavigation : WritesInto s.here after req.output dir "tree.js".toList :=
      hinto _ List.mem_cons_self
    refine (hnavigation.putFiles fun file hmem => hinto file.1 ?_).locate hout (by decide)
    exact map_fst_outputFiles req table ▸ List.mem_map.2 ⟨file, hmem, rfl⟩
  case script => exact hscript
  case pages =>
    intro name hname
    obtain ⟨page, reports, hpage⟩ := ofClass_eq_ok hname (hcycle name hname) req.showPrivate
    have htext : pageText req table name = req.format.render page := by rw [pageText, hpage]
    refine ⟨page, reports, hpage, ?_⟩
    rw [← htext]
    exact hfile (pageName req.format name, pageText req table name)
      (List.mem_cons_of_mem _ (List.mem_map.2 ⟨name, hname, rfl⟩))
  case others =>
    intro place hplace
    have hne : ∀ file ∈ outputFiles req table, place ≠ dir ++ [file.1] := fun file hmem =>
      hplace file.1 (map_fst_outputFiles req table ▸ List.mem_map.2 ⟨file, hmem, rfl⟩)
    rw [FileTree.get?_putFiles_of_ne hne]
    exact hadds place
  case hrefs =>
    intro hformat data hdata file
    -- the script holds the data of the navigation and no others
    obtain rfl : data = navRoot (navItems (.ofTable table)) := by
      simp only [hscript, Option.some.injEq, Entry.file.injEq, Content.text.injEq] at hdata
      exact (scriptOf_injective hdata).symm
    rw [mem_hrefs_navigation, hformat]
    rfl

/-- A run writes all of its output or changes nothing.  It succeeds exactly when all doc comments
are closed and no way up in the catalog comes back to a class. -/
theorem outcome_all_or_nothing (hreads : Reads s o req paths sources)
    (hplace : (∀ source ∈ sources, Segmented source) →
      HasPlace s req (catalogOf sources).classes) :
    (((outcome o : SessionM Outcome).run s).1.code = 0 ↔
        (∀ source ∈ sources, Segmented source) ∧
          ∀ name ∈ (catalogOf sources).classes.keys, ¬ Revisits (catalogOf sources).classes name) ∧
      (((outcome o : SessionM Outcome).run s).1.code = 0 →
        ∃ dir, OutputWritten s ((outcome o : SessionM Outcome).run s).2 req
          (catalogOf sources).classes dir) ∧
      (((outcome o : SessionM Outcome).run s).1.code ≠ 0 →
        ((outcome o : SessionM Outcome).run s).1.code = 1 ∧
          ((outcome o : SessionM Outcome).run s).2.tree = s.tree) := by
  have hfail : ∀ failure, Runs s.here s.tree (run o) (.error failure) s.tree →
      ((outcome o : SessionM Outcome).run s).1.code = 1 ∧
        ((outcome o : SessionM Outcome).run s).2.tree = s.tree := fun failure hruns => by
    obtain ⟨later, hrun⟩ := outcome_of_runs hruns
    rw [hrun]
    exact ⟨rfl, rfl⟩
  by_cases hsources : ∀ source ∈ sources, Segmented source
  · by_cases hcycle : ∀ name ∈ (catalogOf sources).classes.keys,
        ¬ Revisits (catalogOf sources).classes name
    · obtain ⟨hplain, hcan⟩ := hplace hsources
      obtain ⟨after, dir, hmade, hadds, hinto⟩ := hcan.writesInto
        (fun _ => not_mem_of_mem_outputNames hplain) (List.cons_ne_nil _ _)
      have hout := hcan.output_ne_nil
      have hruns := runs_run hreads ((runs_readUnits hreads.holds hsources).bind
        (runs_finish hcycle hplain hout hmade hinto))
      obtain ⟨later, hrun⟩ := outcome_of_runs hruns
      rw [hrun]
      exact ⟨⟨fun _ => ⟨hsources, hcycle⟩, fun _ => rfl⟩,
        fun _ => ⟨dir, outputWritten hout hcycle hadds hinto⟩, fun h => absurd rfl h⟩
    · have hrevisits : ∃ name ∈ (catalogOf sources).classes.keys,
          Revisits (catalogOf sources).classes name := by simpa using hcycle
      obtain ⟨failure, hfinish⟩ := runs_finish_error hrevisits
      have hfailed := hfail failure (runs_run hreads
        ((runs_readUnits hreads.holds hsources).bind hfinish))
      rw [hfailed.1]
      exact ⟨⟨fun h => absurd h (by decide), fun h => absurd h.2 hcycle⟩,
        fun h => absurd h (by decide), fun _ => ⟨rfl, hfailed.2⟩⟩
  · have hopen : ∃ source ∈ sources, ¬ Segmented source := by simpa using hsources
    obtain ⟨failure, hunits⟩ := runs_readUnits_error hreads.holds hopen
    have hfailed := hfail failure (runs_run hreads (hunits.bind_error _))
    rw [hfailed.1]
    exact ⟨⟨fun h => absurd h (by decide), fun h => absurd h.1 hsources⟩,
      fun h => absurd h (by decide), fun _ => ⟨rfl, hfailed.2⟩⟩

end

/-- Two files with one class each, the second of which extends the first. -/
def twoClasses : Session where
  tree := ⟨[(["src".toList], .dir),
    (["src".toList, "a.js".toList], .file (.text "/** @class A */\n".toList)),
    (["src".toList, "b.js".toList], .file (.text "/**\n * @class B\n * @extends A\n */\n".toList))]⟩
  here := []

/-- A command line for these files. -/
def twoClassesOptions : Options where
  inputs := ["src/a.js".toList, "src/b.js".toList]
  output := some "docs".toList

/-- What it asks for. -/
def twoClassesRequest : Request :=
  ⟨["src/a.js".toList, "src/b.js".toList], "docs".toList, .html, false⟩

/-- What the files hold. -/
def twoClassesSources : List Text :=
  ["/** @class A */\n".toList, "/**\n * @class B\n * @extends A\n */\n".toList]

theorem reads_twoClasses :
    Reads twoClasses twoClassesOptions twoClassesRequest ["src/a.js".toList, "src/b.js".toList]
      twoClassesSources :=
  ⟨by decide +kernel, by decide +kernel, by decide, .cons rfl (.cons rfl .nil)⟩

/-- Both files are read, and the run writes the script and the pages of two classes. -/
theorem outcome_all_or_nothing_of_twoClasses :
    Reads twoClasses twoClassesOptions twoClassesRequest ["src/a.js".toList, "src/b.js".toList]
        twoClassesSources ∧
      HasPlace twoClasses twoClassesRequest (catalogOf twoClassesSources).classes ∧
      ∃ dir, OutputWritten twoClasses
        ((outcome twoClassesOptions : SessionM Outcome).run twoClasses).2 twoClassesRequest
        (catalogOf twoClassesSources).classes dir := by
  have hplace : HasPlace twoClasses twoClassesRequest (catalogOf twoClassesSources).classes :=
    ⟨by decide +kernel, by decide +kernel, by decide +kernel⟩
  exact ⟨reads_twoClasses, hplace,
    (outcome_all_or_nothing reads_twoClasses fun _ => hplace).2.1 (by decide +kernel)⟩

end ApiDocs
