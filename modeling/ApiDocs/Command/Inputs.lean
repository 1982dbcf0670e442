import ApiDocs.Command.Failure
import ApiDocs.Cut
import ApiDocs.Files.Glob.Search
/-!
# Input files

An input of the command line is a file, a directory whose source files are meant, or a
pattern of paths.  Each file is taken once, where it is mentioned first.

Main definitions:

- `filesOfInput`, `inputFiles`: the files that inputs stand for.
-/

namespace ApiDocs

open Host

variable {m : Type → Type} [Monad m] [Host m]

/-- The ending of source files. -/
def sourceEnding : Text := "js".toList

/-- The source files in a directory, in increasing order of their names. -/
def sourcesIn (dir : Text) : ExceptT Failure m (List Text) := do
  match ← list dir with
  | .error e => throw (.unreadableDirectory dir e)
  | .ok names =>
    let paths := (sortTexts names).map (Path.join dir)
    paths.filterM fun path => do
      return Path.ending? path = some sourceEnding && (← isFile path)

/-- The files that a pattern fits. -/
def filesMatching (pattern : Text) : ExceptT Failure m (List Text) := do
  match Glob.compile pattern with
  | .error e => throw (.invalidPattern pattern e)
  | .ok glob => (← glob.search).filterM fun path => isFile path

/-- The files that an input stands for.  A pattern without files is reported. -/
def filesOfInput (input : Text) : ExceptT Failure m (List Text) := do
  match ← kind? input with
  | some .file => return [input]
  | some .dir => sourcesIn input
  | none =>
    let found ← filesMatching input
    if found.isEmpty then
      note { level := .warn, message := "no files matched: ".toList ++ input }
    return found

/-- The files that inputs stand for, each once. -/
def inputFiles (inputs : List Text) : ExceptT Failure m (List Text) := do
  let found ← inputs.mapM filesOfInput
  return firstBy Path.components found.flatten

end ApiDocs
