import ApiDocs.Text.Basic
/-!
# Paths

A path is a text whose slashes divide it into pieces.  Two paths are taken for the same one
when they have the same components: repeated slashes, slashes at the end and single dots do
not count, except for a single dot at the start.

Main definitions:

- `Path.components`: what two equal paths share.
- `Path.join`, `Path.fileName?`, `Path.ending?`, `Path.parent?`: parts of paths.
-/

namespace ApiDocs

/-- A component of a path. -/
inductive PathComponent
  | root
  | here
  | up
  | name (name : Text)
  deriving DecidableEq, Repr

namespace Path

/-- The component that a piece between slashes is; none if it does not count. -/
def component? (piece : Text) : Option PathComponent :=
  if piece = [] ∨ piece = ['.'] then none
  else if piece = ['.', '.'] then some .up
  else some (.name piece)

/-- The components of a path. -/
def components (path : Text) : List PathComponent :=
  let pieces := Text.fields '/' path
  let start :=
    if path.head? = some '/' then [PathComponent.root]
    else if pieces.head? = some ['.'] then [.here]
    else []
  start ++ pieces.filterMap component?

/-- The text of a list of components. -/
def ofComponents : List PathComponent → Text
  | [] => []
  | .root :: rest => '/' :: Text.joinWith ['/'] (rest.map spelling)
  | components => Text.joinWith ['/'] (components.map spelling)
where
  /-- A component between slashes. -/
  spelling : PathComponent → Text
    | .root => []
    | .here => ['.']
    | .up => ['.', '.']
    | .name name => name

/-- Whether a path is the current directory. -/
def isHere (path : Text) : Bool :=
  components path = [.here]

/-- A path inside a directory.  A path that starts at the root stands for itself. -/
def join (dir path : Text) : Text :=
  if path.head? = some '/' ∨ dir = [] then path
  else if dir.getLast? = some '/' then dir ++ path
  else dir ++ '/' :: path

/-- The last component, if it is a name. -/
def fileName? (path : Text) : Option Text :=
  match (components path).getLast? with
  | some (.name name) => some name
  | _ => none

/-- What follows the last dot of a file name, if something precedes that dot. -/
def ending? (path : Text) : Option Text :=
  (fileName? path).bind fun name =>
    let ending := Text.lastField '.' name
    if ending.length + 1 < name.length then some ending else none

/-- The path without its last component, unless it has none or is the root. -/
def parent? (path : Text) : Option Text :=
  match (components path).reverse with
  | [] => none
  | .root :: _ => none
  | _ :: rest => some (ofComponents rest.reverse)

end Path

end ApiDocs
