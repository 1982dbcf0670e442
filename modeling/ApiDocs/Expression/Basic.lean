import ApiDocs.Expression.CharSet
/-!
# Regular expressions

An expression is a choice between branches, a branch a row of items, and an item an atom, a
set in brackets, a group in parentheses or a repetition of the item before it.  This module
says which texts are expressions; a repetition with its count in braces is none of them.

Main definitions:

- `GroupStart`, `readGroupStart?`: what may follow an opening parenthesis.
- `Body`, `readBody?`: an expression, or the inside of a group.
- `isExpression`: the texts that are expressions.
-/

namespace ApiDocs

/-! ### Groups -/

/-- What an opening parenthesis begins. -/
inductive GroupStart
  /-- Settings for the rest of the group around it. -/
  | settings (m : Mode)
  /-- A group with settings of its own. -/
  | group (m : Mode)
  /-- A group with a name. -/
  | named (name : Text)
  deriving DecidableEq, Repr

/-- The letters of settings, and the hyphen before those that are switched off. -/
def settingLetters : Text :=
  "imsUuRx-".toList

/-- Whether a text spells settings: each letter and the hyphen at most once, and no hyphen at
the end. -/
def isSettings (s : Text) : Bool :=
  s.all settingLetters.contains && decide s.Nodup && s.getLast? != some '-'

/-- The settings that a text of letters leaves. -/
def Mode.change (m : Mode) (letters : Text) : Mode :=
  let on := letters.takeWhile (· ≠ '-')
  let off := letters.drop on.length
  { unicode := !off.contains 'u' && (on.contains 'u' || m.unicode)
    spaced := !off.contains 'x' && (on.contains 'x' || m.spaced) }

/-- Whether a text can name a group. -/
def isGroupName : Text → Bool
  | [] => false
  | c :: s =>
    (c == '_' || isAlphabetic c)
      && s.all fun d => d == '_' || d == '.' || d == '[' || d == ']' || isAlphanumeric d

/-- A name up to the angle bracket that closes it. -/
def readGroupName? (s : Text) : Option (GroupStart × Text) :=
  let name := s.takeWhile (· ≠ '>')
  match s.drop name.length with
  | _ :: rest => if isGroupName name then some (.named name, rest) else none
  | [] => none

/-- What an opening parenthesis before a text begins, and what follows it. -/
def readGroupStart? (m : Mode) (s : Text) : Option (GroupStart × Text) :=
  match m.skip s with
  | '?' :: 'P' :: '<' :: rest => readGroupName? rest
  | '?' :: '<' :: rest => readGroupName? rest
  | '?' :: rest =>
    let letters := rest.takeWhile fun c => c != ':' && c != ')'
    if isSettings letters then
      match rest.drop letters.length with
      | ':' :: rest => some (.group (m.change letters), rest)
      | _ :: rest => if letters = [] then none else some (.settings (m.change letters), rest)
      | [] => none
    else none
  | rest => some (.group m, rest)

/-! ### Rows and branches -/

/-- An item of a branch. -/
structure Item where
  height : Nat := 0
  repeatable : Bool := true
  deriving DecidableEq, Repr

/-- What is read of an expression: the items of its last branch, the last one first, and the
heights of the branches before it. -/
structure Body where
  items : List Item := []
  branches : List Nat := []
  deriving DecidableEq, Repr

namespace Body

/-- The height of the last branch. -/
def branchHeight (b : Body) : Nat :=
  towerHeight (b.items.map Item.height)

/-- The height of what is read. -/
def height (b : Body) : Nat :=
  towerHeight (b.branchHeight :: b.branches)

/-- A further item. -/
def add (b : Body) (item : Item) : Body :=
  { b with items := item :: b.items }

/-- A further branch. -/
def choice (b : Body) : Body :=
  { items := [], branches := b.branchHeight :: b.branches }

/-- The last item repeated. -/
def repeatLast? (b : Body) : Option Body :=
  match b.items with
  | [] => none
  | item :: rest =>
    if item.repeatable then some { b with items := ⟨item.height + 1, true⟩ :: rest } else none

end Body

/-- The atom that begins with the character `c` outside of a set, and what follows it. -/
def readAtom? (m : Mode) (c : Char) (s : Text) : Option (Atom × Text) :=
  if c = '\\' then readEscape? m s
  else if c = '.' then some (.anyChar, s)
  else if c = '^' ∨ c = '$' then some (.place false, s)
  else some (.char c false, s)

/-- The height of an expression whose start is read, the names of its groups and what follows
it.  Inside a group it ends at the closing parenthesis, else at the end of the text.  Each of
the steps takes at least one character. -/
def readBody? (steps : Nat) (inGroup : Bool) (m : Mode) (names : List Text) (b : Body)
    (s : Text) : Option (Nat × List Text × Text) :=
  match steps with
  | 0 => none
  | steps + 1 =>
    match m.skip s with
    | [] => if inGroup then none else some (b.height, names, [])
    | ')' :: rest => if inGroup then some (b.height, names, rest) else none
    | '|' :: rest => readBody? steps inGroup m names b.choice rest
    | '(' :: inner =>
      let group (own : Mode) (names : List Text) (inner : Text) :=
        (readBody? steps true own names {} inner).bind fun (height, names, rest) =>
          readBody? steps inGroup m names (b.add ⟨height + 1, true⟩) rest
      match readGroupStart? m inner with
      | some (.settings own, rest) => readBody? steps inGroup own names (b.add ⟨0, false⟩) rest
      | some (.group own, rest) => group own names rest
      | some (.named name, rest) =>
        if name ∈ names then none else group m (name :: names) rest
      | none => none
    | '[' :: inner =>
      (openSet? m inner).bind fun (opened, rest) =>
        (readSet? m (rest.length + 1) opened rest).bind fun (height, rest) =>
          readBody? steps inGroup m names (b.add ⟨height, true⟩) rest
    | c :: rest =>
      if c = '\x7b' then none
      else if c = '?' ∨ c = '*' ∨ c = '+' then
        b.repeatLast?.bind fun b =>
          readBody? steps inGroup m names b (if rest.head? = some '?' then rest.tail else rest)
      else
        (readAtom? m c rest).bind fun (atom, rest) =>
          if atom.isAllowed m then readBody? steps inGroup m names (b.add {}) rest else none

/-- The greatest height of an expression. -/
def maxHeight : Nat := 250

/-- Whether a text is an expression. -/
def isExpression (s : Text) : Bool :=
  match readBody? (s.length + 1) false {} [] {} s with
  | some (height, _, _) => height ≤ maxHeight
  | none => false

end ApiDocs
