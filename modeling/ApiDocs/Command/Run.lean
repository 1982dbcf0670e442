import ApiDocs.Class.Catalog
import ApiDocs.Command.Inputs
import ApiDocs.Command.Log
import ApiDocs.Command.Options
import ApiDocs.Files.Directory
import ApiDocs.Namespace.Navigation
import ApiDocs.Page.Format
import ApiDocs.Source.Unit
/-!
# A run of the command

A run checks its options, reads the units, and makes all pages before it writes anything, so
that a fault leaves no output behind.

Main definitions:

- `Request`, `Options.check`: a command line whose options make sense.
- `readUnit`: the documentation of one file.
- `makePages`: the pages of all classes.
- `run`: a whole run.
- `Outcome`, `outcome`: what the caller of the command sees.
-/

namespace ApiDocs

open Host

variable {m : Type → Type} [Monad m] [Host m]

/-! ### Options -/

/-- A command line whose options make sense. -/
structure Request where
  inputs : List Text
  output : Text
  format : Format
  showPrivate : Bool
  deriving DecidableEq, Repr

/-- The request of a command line: there are inputs, an output directory that is no file,
and a known format. -/
def Options.check (o : Options) : ExceptT Failure m Request := do
  if o.inputs.isEmpty then throw .noInputs
  match o.output with
  | none => throw .noOutput
  | some output =>
    if (← kind? output) = some .file then throw (.outputNotDirectory output)
    let name := o.format.getD Format.html.name
    match Format.ofName? name with
    | none => throw (.unknownFormat name)
    | some format => return ⟨o.inputs, output, format, o.showPrivate⟩

/-! ### Units -/

/-- The nodes of a file.  What its comments have wrong is reported. -/
def readUnit (path : Text) : ExceptT Failure m (List DocNode) := do
  note { level := .info, message := "Parsing ".toList ++ path ++ " ...".toList }
  match ← read path with
  | .error e => throw (.unreadable path e)
  | .ok source =>
    match UnitDocs.read source with
    | .error fault => throw (.unparsable path fault)
    | .ok unit =>
      note
        { level := .debug, origin := .parser, message := "segmented unit".toList
          fields := [("segments".toList, Text.ofNat unit.nodes.length)] }
      unit.reports.forM fun report =>
        note { level := .warn, message := path ++ ": ".toList ++ report.message }
      return unit.nodes

/-- Reports the classes that were documented more than once, and the orphans. -/
def noteCatalog (c : Catalog) : m Unit := do
  c.redefined.forM fun name =>
    note
      { level := .debug, origin := .catalog
        message := "class redefined, earlier definition replaced".toList
        fields := [("class".toList, name)] }
  c.orphans.forM fun orphan => note { level := .warn, message := orphan.report.message }

/-! ### Pages -/

/-- A file to be written. -/
structure OutputFile where
  path : Text
  content : Text
  deriving DecidableEq, Repr

/-- The file of the page of a class. -/
def pagePath (output : Text) (format : Format) (name : Text) : Text :=
  Path.join output (name ++ '.' :: format.name)

/-- The file of the navigation. -/
def navigationPath (output : Text) : Text :=
  Path.join output "tree.js".toList

/-- The page of a class as a file, with the reports on its ancestors. -/
def makePage (req : Request) (table : ClassTable) (name : Text) :
    Except Failure (OutputFile × List Report) :=
  match Page.ofClass table name req.showPrivate with
  | .error fault => .error (.unresolved name fault)
  | .ok (page, reports) =>
    .ok (⟨pagePath req.output req.format name, req.format.render page⟩, reports)

/-- The pages of all classes as files, with the reports on their ancestors, each once. -/
def makePages (req : Request) (table : ClassTable) :
    Except Failure (List OutputFile × List Report) := do
  let pages ← table.keys.mapM (makePage req table)
  return (pages.map Prod.fst, firstBy id (pages.flatMap Prod.snd))

/-! ### Output -/

/-- Writes a file. -/
def writeOutput (file : OutputFile) : ExceptT Failure m Unit := do
  match ← write file.path file.content with
  | .ok () => return
  | .error e => throw (.unwritten file.path e)

/-- Makes the output directory, and reports it if it is not there. -/
def makeOutput (dir : Text) : ExceptT Failure m Unit := do
  if (← kind? dir).isNone then
    note { level := .info, message := "Creating output directory ".toList ++ dir }
  match ← makeDirs dir with
  | .ok () => return
  | .error e => throw (.outputNotMade dir e)

/-- Writes the page of a class and reports it. -/
def writePage (file : OutputFile) : ExceptT Failure m Unit := do
  note { level := .info, message := "Writing to ".toList ++ file.path ++ " ...".toList }
  writeOutput file

/-! ### A whole run -/

/-- Runs a command line. -/
def run (o : Options) : ExceptT Failure m Unit := do
  let req ← o.check
  let inputs ← inputFiles req.inputs
  if inputs.isEmpty then throw .nothingMatched
  let units ← inputs.mapM readUnit
  let catalog := Catalog.ofUnits units
  noteCatalog catalog
  let (pages, reports) ← (makePages req catalog.classes : Except Failure _)
  reports.forM fun report => note { level := .warn, message := report.message }
  makeOutput req.output
  writeOutput ⟨navigationPath req.output, navigation catalog.classes⟩
  pages.forM writePage

/-- What the caller of the command sees beside its log: the exit code and the error text. -/
structure Outcome where
  code : Nat
  errorText : Text
  deriving DecidableEq, Repr

/-- The outcome of a command line that asks for no run. -/
def Usage.outcome : Usage → Outcome
  | .help => ⟨0, []⟩
  | .invalid => ⟨2, []⟩

/-- Runs a command line to its outcome. -/
def outcome (o : Options) : m Outcome := do
  match ← (run o).run with
  | .ok () => return ⟨0, []⟩
  | .error failure => return ⟨1, failure.report⟩

end ApiDocs
