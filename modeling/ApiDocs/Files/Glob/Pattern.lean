import ApiDocs.Text.Basic
/-!
# Patterns of file names

In a pattern `?` stands for one character, `*` for any number of them, and brackets for one
of those inside, or for one of the others after an exclamation mark.  Two asterisks are one
whole component of a path and stand for any number of directories.

Main definitions:

- `GlobToken`, `compileTokens`: the tokens of a pattern.
- `PatternError`: why a text is no pattern.
- `matchesTokens`: the names that a pattern fits.
- `GlobPart`, `Glob`, `Glob.compile`: a pattern taken apart at its slashes.
-/

namespace ApiDocs

/-- Characters between brackets: single ones and ranges. -/
inductive CharSpan
  | single (c : Char)
  | range (low high : Char)
  deriving DecidableEq, Repr

/-- Whether a character is among those of a span. -/
def CharSpan.contains (c : Char) : CharSpan → Bool
  | .single d => c = d
  | .range low high => low ≤ c && c ≤ high

/-- A piece of a pattern. -/
inductive GlobToken
  | char (c : Char)
  | anyChar
  | anyText
  | anyDirs
  | oneOf (spans : List CharSpan)
  | noneOf (spans : List CharSpan)
  deriving DecidableEq, Repr

/-- What makes a text no pattern. -/
inductive PatternFault
  | tooManyStars
  | partialDirs
  | openBracket
  deriving DecidableEq, Repr

/-- Why and where a text is no pattern. -/
structure PatternError where
  position : Nat
  fault : PatternFault
  deriving DecidableEq, Repr

/-- The wording of an error in a pattern. -/
def PatternError.message (e : PatternError) : Text :=
  let reason := match e.fault with
    | .tooManyStars => "wildcards are either regular `*` or recursive `**`".toList
    | .partialDirs => "recursive wildcards must form a single path component".toList
    | .openBracket => "invalid range pattern".toList
  "Pattern syntax error near position ".toList ++ Text.ofNat e.position ++ ": ".toList ++ reason

/-! ### Reading patterns -/

/-- The spans of the characters between brackets. -/
def readSpans : Text → List CharSpan
  | low :: '-' :: high :: s => .range low high :: readSpans s
  | c :: s => .single c :: readSpans s
  | [] => []

/-- The token of the brackets whose first one has been read, and what follows it.  The first
character inside, after an exclamation mark or not, never closes them. -/
def readBrackets? : Text → Option (GlobToken × Text)
  | '!' :: c :: s => (Text.breakOn? "]".toList s).map fun (inner, rest) =>
    (.noneOf (readSpans (c :: inner)), rest)
  | '!' :: [] => none
  | c :: s => (Text.breakOn? "]".toList s).map fun (inner, rest) =>
    (.oneOf (readSpans (c :: inner)), rest)
  | [] => none

/-- A set in brackets takes at least one character. -/
theorem length_readBrackets?_lt {s rest : Text} {token : GlobToken}
    (h : readBrackets? s = some (token, rest)) : rest.length < s.length := by
  unfold readBrackets? at h
  split at h
  · simp only [Option.map_eq_some_iff, Prod.exists, Prod.mk.injEq] at h
    obtain ⟨b, a, hs, _, rfl⟩ := h
    have hlen := congrArg List.length (Text.eq_append_of_breakOn? hs)
    simp only [List.length_append, List.length_cons] at hlen ⊢
    omega
  · simp at h
  · simp only [Option.map_eq_some_iff, Prod.exists, Prod.mk.injEq] at h
    obtain ⟨b, a, hs, _, rfl⟩ := h
    have hlen := congrArg List.length (Text.eq_append_of_breakOn? hs)
    simp only [List.length_append, List.length_cons] at hlen ⊢
    omega
  · simp at h

/-- The tokens of a pattern from a position on; `start` says that a component starts there. -/
def compileFrom (position : Nat) (start : Bool) :
    Text → Except PatternError (List GlobToken)
  | [] => .ok []
  | '*' :: '*' :: '*' :: _ => .error ⟨position + 2, .tooManyStars⟩
  | '*' :: '*' :: s =>
    if !start then .error ⟨position - 1, .partialDirs⟩
    else
      match s with
      | [] => .ok [.anyDirs]
      | c :: s =>
        if c = '/' then (compileFrom (position + 3) true s).map (.anyDirs :: ·)
        else .error ⟨position + 2, .partialDirs⟩
  | '*' :: s => (compileFrom (position + 1) false s).map (.anyText :: ·)
  | '?' :: s => (compileFrom (position + 1) false s).map (.anyChar :: ·)
  | '[' :: s =>
    match _h : readBrackets? s with
    | some (token, rest) =>
      have := length_readBrackets?_lt _h
      (compileFrom (position + 1 + (s.length - rest.length)) false rest).map (token :: ·)
    | none => .error ⟨position, .openBracket⟩
  | c :: s => (compileFrom (position + 1) (c = '/') s).map (.char c :: ·)
termination_by s => s.length
decreasing_by
  all_goals simp only [List.length_cons]
  all_goals omega

/-- The tokens of a pattern. -/
def compileTokens (pattern : Text) : Except PatternError (List GlobToken) :=
  compileFrom 0 true pattern

/-! ### Names that a pattern fits -/

/-- A text and all that is left of it after each of its characters. -/
def suffixes : Text → List Text
  | [] => [[]]
  | c :: s => (c :: s) :: suffixes s

namespace GlobToken

/-- Whether a token for one character fits it. -/
def fits (c : Char) : GlobToken → Bool
  | char d => c = d
  | oneOf spans => spans.any (·.contains c)
  | noneOf spans => !spans.any (·.contains c)
  | _ => true

/-- What a token for one character leaves of a text that starts with such a character. -/
def dropOne? (token : GlobToken) : Text → Option Text
  | [] => none
  | c :: s => if token.fits c then some s else none

/-- What a token can leave of a name, given what the tokens before it can leave: ends of the
name, the longest first.  An asterisk leaves any end of the longest of them. -/
def advance (rests : List Text) (token : GlobToken) : List Text :=
  match token with
  | anyText | anyDirs => (rests.head?.map suffixes).getD []
  | _ => rests.filterMap token.dropOne?

end GlobToken

/-- Whether tokens fit the whole of a name: they can leave nothing of it. -/
def matchesTokens (tokens : List GlobToken) (name : Text) : Bool :=
  (tokens.foldl GlobToken.advance [name]).contains []

/-! ### Patterns of paths -/

/-- A component of a pattern. -/
inductive GlobPart
  /-- A name without wildcards. -/
  | literal (name : Text)
  /-- Any number of directories. -/
  | dirs
  | wild (tokens : List GlobToken)
  deriving DecidableEq, Repr

/-- The component that a text is. -/
def GlobPart.compile (part : Text) : Except PatternError GlobPart :=
  (compileTokens part).map fun tokens =>
    if tokens.contains .anyDirs then .dirs
    else if tokens = part.map .char then .literal part
    else .wild tokens

/-- Whether a component without wildcards for directories fits a name. -/
def GlobPart.fits (name : Text) : GlobPart → Bool
  | .literal n => n = name
  | .dirs => true
  | .wild tokens => matchesTokens tokens name

/-- A pattern: the directory in which the search starts, its components, and whether it
fits directories alone. -/
structure Glob where
  scope : Text
  parts : List GlobPart
  dirsOnly : Bool
  deriving DecidableEq, Repr

/-- The pieces between the slashes, none after the last slash. -/
def partsOf (pattern : Text) : List Text :=
  let pieces := Text.fields '/' pattern
  if pieces.getLast? = some [] then pieces.dropLast else pieces

/-- Compiles a pattern.  The whole of it is checked before its components. -/
def Glob.compile (pattern : Text) : Except PatternError Glob := do
  let _ ← compileTokens pattern
  let fromRoot := pattern.head? = some '/'
  let relative := if fromRoot then pattern.tail else pattern
  let parts ← (partsOf relative).mapM GlobPart.compile
  .ok
    { scope := if fromRoot then ['/'] else ['.']
      parts := if relative = [] then [.literal []] else parts
      dirsOnly := pattern.getLast? = some '/' }

end ApiDocs
