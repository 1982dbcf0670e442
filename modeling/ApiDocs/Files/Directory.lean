import ApiDocs.Files.Host
import ApiDocs.Files.Path
/-!
# Making directories with their parents

A directory is made together with the parents that it lacks.

Main definitions:

- `makeDirs`: makes a directory and the missing ones above it.
-/

namespace ApiDocs

open Host

variable {m : Type → Type} [Monad m] [Host m]

/-- Makes a directory unless it is there. -/
def ensureDir (path : Text) : m (Except FileError Unit) := do
  match ← makeDir path with
  | .ok () => return .ok ()
  | .error e => if ← isDir path then return .ok () else return .error e

/-- Makes a directory after at most `depth` missing ones above it. -/
def makeDirsWithin (depth : Nat) (path : Text) : m (Except FileError Unit) := do
  match ← ensureDir path with
  | .error .notFound =>
    match depth, Path.parent? path with
    | 0, _ => return .error .notFound
    | _, none => return .error .notFound
    | _, some [] => ensureDir path
    | depth + 1, some parent =>
      match ← makeDirsWithin depth parent with
      | .ok () => ensureDir path
      | .error e => return .error e
  | result => return result

/-- Makes a directory and the missing ones above it. -/
def makeDirs (path : Text) : m (Except FileError Unit) :=
  makeDirsWithin (Path.components path).length path

end ApiDocs
