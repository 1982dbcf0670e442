import ApiDocs.Files.Host
/-!
# Files in memory

A tree of files holds directories and files at locations, the lists of names that lead to
them from the root.  A path is followed piece by piece: each piece but the last must lead to
a directory, a dot stays, two dots go up.

Main definitions:

- `FileTree`: directories and files by location.
- `FileTree.locate`: where a path leads.
- `Session`: a tree with a current directory and the records of a run; runs can use it as
  their host.
-/

namespace ApiDocs

/-- The names that lead to an entry from the root. -/
abbrev Location := List Text

/-- What a file holds. -/
inductive Content
  | text (t : Text)
  /-- Bytes that are no text. -/
  | bytes (b : List UInt8)
  deriving DecidableEq, Repr

/-- An entry of a tree. -/
inductive Entry
  | dir
  | file (content : Content)
  deriving DecidableEq, Repr

/-- What an entry is. -/
def Entry.kind : Entry → EntryKind
  | .dir => .dir
  | .file _ => .file

/-- Directories and files by location, each location at most once.  The root is always a
directory and not listed. -/
structure FileTree where
  entries : List (Location × Entry) := []
  deriving Repr

namespace FileTree

/-- The entry at a location. -/
def get? (tree : FileTree) (place : Location) : Option Entry :=
  if place = [] then some .dir else tree.entries.lookup place

/-- Puts an entry at a location, in place of the one there. -/
def put (tree : FileTree) (place : Location) (entry : Entry) : FileTree :=
  ⟨(place, entry) :: tree.entries.filter (·.1 ≠ place)⟩

/-- The names of the entries in a directory. -/
def namesIn (tree : FileTree) (dir : Location) : List Text :=
  tree.entries.filterMap fun (place, _) =>
    match place.getLast? with
    | some name => if place.dropLast = dir then some name else none
    | none => none

/-- The greatest number of bytes in one name, and in a path. -/
def maxName : Nat := 255

/-- Paths of this number of bytes or more lead nowhere. -/
def maxPath : Nat := 4096

/-- The number of bytes of a text. -/
def byteLength (t : Text) : Nat :=
  t.foldr (fun c n => c.utf8Size + n) 0

/-- A directory that must be there. -/
def checkDir (tree : FileTree) (place : Location) : Except FileError Unit :=
  match tree.get? place with
  | some .dir => .ok ()
  | some (.file _) => .error .notDirectory
  | none => .error .notFound

/-- The location that a piece of a path leads to from a directory. -/
def step (tree : FileTree) (place : Location) (piece : Text) : Except FileError Location := do
  tree.checkDir place
  if piece = [] ∨ piece = ['.'] then .ok place
  else if piece = ['.', '.'] then .ok place.dropLast
  else if maxName < byteLength piece then .error .nameTooLong
  else .ok (place ++ [piece])

/-- The location that pieces of a path lead to, one after the other. -/
def walk (tree : FileTree) (place : Location) (pieces : List Text) : Except FileError Location :=
  pieces.foldlM tree.step place

/-- The paths that can be followed at all. -/
def checkPath (path : Text) : Except FileError Unit :=
  if path = [] then .error .notFound
  else if '\x00' ∈ path then .error .invalidPath
  else if maxPath ≤ byteLength path then .error .nameTooLong
  else .ok ()

/-- Where a path leads from the directory `here`: the location and the entry there. -/
def locate (tree : FileTree) (here : Location) (path : Text) :
    Except FileError (Location × Entry) := do
  checkPath path
  let start := if path.head? = some '/' then [] else here
  let place ← tree.walk start (Text.fields '/' path)
  match tree.get? place with
  | some entry => .ok (place, entry)
  | none => .error .notFound

/-- Where a path leads whose last piece need not be there: the directory that it lies in,
and that piece. -/
def locateNew (tree : FileTree) (here : Location) (path : Text) :
    Except FileError (Location × Text) := do
  checkPath path
  let start := if path.head? = some '/' then [] else here
  let pieces := Text.fields '/' path
  let dir ← tree.walk start pieces.dropLast
  tree.checkDir dir
  .ok (dir, pieces.getLast?.getD [])

/-- Whether a piece of a path names an entry of a directory. -/
def isEntryName (piece : Text) : Bool :=
  !(piece = [] || piece = ['.'] || piece = ['.', '.'])

/-- A path without the slashes at its end. -/
def dropSlashes (path : Text) : Text :=
  (path.reverse.dropWhile (· = '/')).reverse

/-- Makes one directory. -/
def makeDir (tree : FileTree) (here : Location) (path : Text) : Except FileError FileTree := do
  checkPath path
  let bare := dropSlashes path
  if bare = [] then .error .alreadyExists
  else
    let (dir, name) ← tree.locateNew here bare
    if !isEntryName name then .error .alreadyExists
    else
      let place ← tree.step dir name
      match tree.get? place with
      | some _ => .error .alreadyExists
      | none => .ok (tree.put place .dir)

/-- Writes a file. -/
def write (tree : FileTree) (here : Location) (path content : Text) :
    Except FileError FileTree := do
  let (dir, name) ← tree.locateNew here path
  if !isEntryName name then .error .isDirectory
  else
    let place ← tree.step dir name
    match tree.get? place with
    | some .dir => .error .isDirectory
    | _ => .ok (tree.put place (.file (.text content)))

/-- The text of a file. -/
def read (tree : FileTree) (here : Location) (path : Text) : Except FileError Text := do
  match (← tree.locate here path).2 with
  | .dir => .error .isDirectory
  | .file (.text t) => .ok t
  | .file (.bytes _) => .error .notText

/-- The names in a directory. -/
def list (tree : FileTree) (here : Location) (path : Text) : Except FileError (List Text) := do
  let (place, entry) ← tree.locate here path
  match entry with
  | .dir => .ok (tree.namesIn place)
  | .file _ => .error .notDirectory

end FileTree

/-! ### Sessions -/

/-- A tree with a current directory, and the records of a run in order. -/
structure Session where
  tree : FileTree
  here : Location
  records : List Record := []

/-- A computation on a session. -/
abbrev SessionM := StateM Session

/-- Changes the tree of a session by an operation, if the operation succeeds. -/
def Session.update (op : FileTree → Location → Except FileError FileTree) :
    SessionM (Except FileError Unit) := do
  let s ← get
  match op s.tree s.here with
  | .ok tree => set { s with tree := tree }; return .ok ()
  | .error e => return .error e

instance : Host SessionM where
  kind? path := do
    let s ← get
    return ((s.tree.locate s.here path).toOption.map (·.2.kind))
  list path := do
    let s ← get
    return s.tree.list s.here path
  read path := do
    let s ← get
    return s.tree.read s.here path
  makeDir path := Session.update fun tree here => tree.makeDir here path
  write path content := Session.update fun tree here => tree.write here path content
  note record := modify fun s => { s with records := s.records ++ [record] }

end ApiDocs
