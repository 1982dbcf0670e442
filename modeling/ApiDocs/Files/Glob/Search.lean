import ApiDocs.Files.Glob.Pattern
import ApiDocs.Files.Host
import ApiDocs.Files.Path
/-!
# Searching for the paths that a pattern fits

The components of a pattern are followed from the directory in which the search starts.  A
component without wildcards is looked up, any other one is compared with the names in a
directory, in increasing order.  Two asterisks go on in each directory, which itself comes
before what it holds.

Main definitions:

- `Found`: a path with the answer to whether it is a directory.
- `searchIn`: the paths that the components fit inside a directory.
- `Glob.search`: all paths that a pattern fits.
-/

namespace ApiDocs

open Host

variable {m : Type → Type} [Monad m] [Host m]

/-- A path that a search has reached. -/
structure Found where
  path : Text
  isDir : Bool
  deriving DecidableEq, Repr

/-- The names `.` and `..`, which no directory lists. -/
def dotNames : List Text :=
  [['.'], ['.', '.']]

/-- The path of an entry of a directory: entries of the current one go by their names. -/
def entryPath (dir name : Text) : Text :=
  if Path.isHere dir then name else Path.join dir name

/-- Texts in increasing order. -/
def sortTexts (l : List Text) : List Text :=
  l.mergeSort fun a b => !decide (b < a)

/-- The components after any number of `**` at the start. -/
def dropDirs : List GlobPart → List GlobPart
  | .dirs :: parts => dropDirs parts
  | parts => parts

/-- What a component without wildcards finds inside a path.  The names `.` and `..` are in
every directory. -/
def findLiteral (name : Text) (place : Found) : m (Option Found) := do
  let path := entryPath place.path name
  if name ∈ dotNames then
    if place.isDir then return some ⟨path, ← isDir path⟩ else return none
  else return (← kind? path).map fun kind => ⟨path, kind = .dir⟩

/-- The entries of a directory in increasing order of their names. -/
def entriesOf (place : Found) : m (List (Text × Found)) := do
  if !place.isDir then return []
  match ← list place.path with
  | .error _ => return []
  | .ok names => (sortTexts names).mapM fun name => do
      let path := entryPath place.path name
      return (name, ⟨path, ← isDir path⟩)

/-- The names `.` and `..` in a directory, the latter first, as far as a component with a
dot at its start fits them. -/
def dotEntries (part : GlobPart) (place : Found) : List Found :=
  match part with
  | .wild (.char '.' :: _) =>
    if place.isDir then
      (dotNames.filter (part.fits ·)).reverse.map fun name => ⟨Path.join place.path name, true⟩
    else []
  | _ => []

/-- The paths that the components fit inside a directory, in at most `depth` steps down. -/
def searchIn (depth : Nat) (parts : List GlobPart) (place : Found) : m (List Found) :=
  match depth, parts with
  | 0, _ => return []
  | _, [] => return [place]
  | depth + 1, .literal name :: parts => do
    match ← findLiteral name place with
    | none => return []
    | some next => searchIn depth parts next
  | depth + 1, .dirs :: parts => do
    let later := dropDirs parts
    let inner ← (← entriesOf place).mapM fun (name, entry) => do
      let own ← match later with
        | [] => pure (if entry.isDir then [entry] else [])
        | part :: parts => if part.fits name then searchIn depth parts entry else pure []
      let below ← if entry.isDir then searchIn depth (.dirs :: later) entry else pure []
      return own ++ below
    return inner.flatten
  | depth + 1, part :: parts => do
    let dots ← (dotEntries part place).mapM (searchIn depth parts)
    let entries ← (← entriesOf place).mapM fun (name, entry) =>
      if part.fits name then searchIn depth parts entry else pure []
    return dots.flatten ++ entries.flatten

/-- A bound for the steps of a search: no path has so many components. -/
def maxSteps : Nat := 4096

/-- The paths that a pattern fits. -/
def Glob.search (glob : Glob) : m (List Text) := do
  let found ← searchIn (glob.parts.length + maxSteps) glob.parts ⟨glob.scope, true⟩
  return (found.filter fun f => !glob.dirsOnly || f.isDir).map Found.path

end ApiDocs
