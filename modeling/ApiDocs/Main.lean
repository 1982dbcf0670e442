import ApiDocs.Command.Run
/-!
# The command

The command runs on the disk: it writes the log to standard output as the run goes on, and
the report of a failure to standard error.
-/

namespace ApiDocs

/-- A run on the disk with the filter of its log. -/
abbrev DiskM := ReaderT LogFilter IO

/-- The error of an operation on the disk. -/
def fileErrorOf (e : IO.Error) : FileError :=
  match e with
  | .noFileOrDirectory .. => .notFound
  | .alreadyExists .. => .alreadyExists
  | .inappropriateType _ code _ => if code = 20 then .notDirectory else .isDirectory
  | e => .other e.toString.toList

/-- An operation on the disk with its error as a value. -/
def attempt {α : Type} (action : IO α) : DiskM (Except FileError α) := do
  try
    return .ok (← action)
  catch e =>
    return .error (fileErrorOf e)

/-- The entry of the disk that a path names. -/
def diskEntry (path : Text) : IO.FS.DirEntry where
  root := String.ofList path
  fileName := ""

/-- What a path of the disk leads to. -/
def diskKind? (path : Text) : IO (Option EntryKind) := do
  try
    let data ← (diskEntry path).root.metadata
    return some (if data.type == .dir then .dir else .file)
  catch _ =>
    return none

/-- The text of a file of the disk. -/
def diskText (path : Text) : DiskM (Except FileError Text) := do
  match ← attempt (IO.FS.readBinFile (diskEntry path).root) with
  | .error e => return .error e
  | .ok bytes =>
    match String.fromUTF8? bytes with
    | some s => return .ok s.toList
    | none => return .error .notText

instance : Host DiskM where
  kind? path := diskKind? path
  list path := attempt do
    return (← (diskEntry path).root.readDir).toList.map fun entry => entry.fileName.toList
  read path := diskText path
  makeDir path := attempt (IO.FS.createDir (diskEntry path).root)
  write path content :=
    attempt (IO.FS.writeFile (diskEntry path).root (String.ofList content))
  note record := do
    if (← read).passes record then
      let output ← IO.getStdout
      output.putStr (String.ofList record.line)
      output.flush

/-- How the command is called. -/
def usageText : String :=
  "Usage: extdoc [-o DIR] [-f html|json] [-v] [--show-private] [FILES]...\n"

/-- Runs the command with its arguments and the setting of its log. -/
def command (args : List String) (setting : Option String) : IO UInt32 := do
  match Options.parse (args.map String.toList) with
  | .error usage =>
    match usage with
    | .help => IO.print usageText
    | .invalid => IO.eprint usageText
    return usage.outcome.code.toUInt32
  | .ok options =>
    let filter := LogFilter.ofSettings options.verbose (setting.map String.toList)
    let result ← (outcome options : DiskM Outcome).run filter
    IO.eprint (String.ofList result.errorText)
    return result.code.toUInt32

end ApiDocs

/-- The command `extdoc`. -/
def main (args : List String) : IO UInt32 := do
  ApiDocs.command args (← IO.getEnv "RUST_LOG")
