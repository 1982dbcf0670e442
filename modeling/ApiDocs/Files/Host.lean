import ApiDocs.Text.Basic
/-!
# The host of a run

A run reads directories and files, writes others, and reports what it does.  It needs only
the operations below, so that it can be run on the disk and on a tree of files in memory.

Main definitions:

- `FileError`: why an operation fails.
- `Record`: a line of the report of a run.
- `Host`: the operations.
-/

namespace ApiDocs

/-- Why an operation on files fails. -/
inductive FileError
  | notFound
  | alreadyExists
  | notDirectory
  | isDirectory
  | nameTooLong
  /-- The path holds a NUL character. -/
  | invalidPath
  /-- The bytes of a file are no text. -/
  | notText
  /-- Any other reason, with its wording. -/
  | other (message : Text)
  deriving DecidableEq, Repr

/-- The wording of an error. -/
def FileError.message : FileError → Text
  | .notFound => "No such file or directory (os error 2)".toList
  | .alreadyExists => "File exists (os error 17)".toList
  | .notDirectory => "Not a directory (os error 20)".toList
  | .isDirectory => "Is a directory (os error 21)".toList
  | .nameTooLong => "File name too long (os error 36)".toList
  | .invalidPath => "file name contained an unexpected NUL byte".toList
  | .notText => "stream did not contain valid UTF-8".toList
  | .other message => message

/-- What a path leads to. -/
inductive EntryKind
  | file
  | dir
  deriving DecidableEq, Repr

/-- How much a record matters, the weightiest first. -/
inductive Level
  | error
  | warn
  | info
  | debug
  | trace
  deriving DecidableEq, Repr

/-- The part of the program that a record comes from. -/
inductive Origin
  | command
  | parser
  | catalog
  deriving DecidableEq, Repr

/-- A line of the report of a run: a message and further fields. -/
structure Record where
  level : Level
  origin : Origin := .command
  message : Text
  fields : List (Text × Text) := []
  deriving DecidableEq, Repr

/-- The operations that a run needs. -/
class Host (m : Type → Type) where
  /-- What a path leads to; nothing if it cannot be reached. -/
  kind? : Text → m (Option EntryKind)
  /-- The names in a directory. -/
  list : Text → m (Except FileError (List Text))
  /-- The text of a file. -/
  read : Text → m (Except FileError Text)
  /-- Makes one directory. -/
  makeDir : Text → m (Except FileError Unit)
  /-- Writes a file, in place of one that is there. -/
  write : Text → Text → m (Except FileError Unit)
  /-- Reports a record. -/
  note : Record → m Unit

namespace Host

variable {m : Type → Type} [Monad m] [Host m]

/-- Whether a path leads to a file. -/
def isFile (path : Text) : m Bool := do
  return (← kind? path) = some .file

/-- Whether a path leads to a directory. -/
def isDir (path : Text) : m Bool := do
  return (← kind? path) = some .dir

end Host

/-- A computation that may fail uses the host beneath it. -/
instance {ε : Type} {m : Type → Type} [Monad m] [Host m] : Host (ExceptT ε m) where
  kind? path := ExceptT.lift (Host.kind? path)
  list path := ExceptT.lift (Host.list path)
  read path := ExceptT.lift (Host.read path)
  makeDir path := ExceptT.lift (Host.makeDir path)
  write path content := ExceptT.lift (Host.write path content)
  note record := ExceptT.lift (Host.note record)

end ApiDocs
