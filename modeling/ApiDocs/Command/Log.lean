import ApiDocs.Expression.Basic
import ApiDocs.Files.Host
import ApiDocs.Text.Blank
import ApiDocs.Text.Word
/-!
# The log of a run

Each record of a run may become a line of the log.  A filter decides which: its directives
set a threshold for all records or for those of a part of the program, and the directive for
the smallest part that a record belongs to counts.

Main definitions:

- `Origin.target`: the name of a part of the program.
- `Directive`, `Directive.parse?`, `Scope`: directives and their spelling.
- `LogFilter`, `LogFilter.parse?`: filters and their spelling.
- `LogFilter.passes`: the records that reach the log.
- `Record.line`: the line of a record.
-/

namespace ApiDocs

/-- The name of a part of the program; the name of a part of that one starts with it. -/
def Origin.target : Origin → Text
  | .command => "extdoc".toList
  | .parser => "extdoc::parser".toList
  | .catalog => "extdoc::assemble".toList

/-- The name of a level. -/
def Level.name : Level → Text
  | .error => "ERROR".toList
  | .warn => "WARN".toList
  | .info => "INFO".toList
  | .debug => "DEBUG".toList
  | .trace => "TRACE".toList

/-- The least threshold that lets a level pass. -/
def Level.rank : Level → Nat
  | .error => 1
  | .warn => 2
  | .info => 3
  | .debug => 4
  | .trace => 5

/-! ### Filters -/

/-- The records of a part of the program, or all of them, up to a threshold.  A directive may
be about the records with a certain field alone, or about those inside a span. -/
structure Directive where
  target : Option Text
  field : Option Text := none
  inSpan : Bool := false
  threshold : Nat
  deriving DecidableEq, Repr

/-- The directives of a log, in the order in which they were given. -/
abbrev LogFilter := List Directive

/-- The names of the thresholds, from the one that lets nothing pass. -/
def thresholdNames : List Text :=
  ["OFF".toList, "ERROR".toList, "WARN".toList, "INFO".toList, "DEBUG".toList, "TRACE".toList]

/-- The threshold that a text names, by its word in any case or by its number, which may
have a plus sign. -/
def readThreshold? (s : Text) : Option Nat :=
  let digits := if s.head? = some '+' then s.tail else s
  if digits ≠ [] ∧ digits.all Char.isDigit then
    let n := Nat.ofDigitChars 10 digits 0
    if n < thresholdNames.length then some n else none
  else thresholdNames.findIdx? (· = s.map Char.toUpper)

/-- The highest threshold. -/
def everything : Nat := 5

/-- The characters that a directive may start with, brackets apart. -/
def startsDirective (c : Char) : Bool :=
  isAlphanumeric c || c == '-' || c == ':' || c == '_'

/-- The brackets of a directive: whether they name a span, the field in braces inside them,
and what follows them.  The field is given by the text from its start on and the text from its
end on. -/
structure Scope where
  named : Bool
  field : Option (Text × Text)
  rest : Text

/-- The brackets whose opening one stands before a text. -/
def Scope.read? (s : Text) : Option Scope :=
  let span := s.takeWhile fun c => c != ']' && c != '\x7b'
  match s.drop span.length with
  | ']' :: rest => some ⟨true, none, rest⟩
  | _ :: inner =>
    let field := inner.takeWhile (· ≠ '\x7d')
    let after := inner.drop field.length
    if field = [] then none
    else (Text.dropStart? "\x7d]".toList after).map fun rest =>
      ⟨!span.isEmpty, some (inner, after), rest⟩
  | [] => none

/-- Whether a text is a number: digits with or without a point among them and a power of ten,
or a word for infinity or for no number, with or without a sign. -/
def isNumeral (s : Text) : Bool :=
  let unsigned (s : Text) := if s.head? = some '+' ∨ s.head? = some '-' then s.tail else s
  let s := (unsigned s).map Char.toLower
  let whole := s.takeWhile Char.isDigit
  let afterWhole := s.drop whole.length
  let fraction := if afterWhole.head? = some '.' then afterWhole.tail.takeWhile Char.isDigit else []
  let afterFraction :=
    if afterWhole.head? = some '.' then afterWhole.tail.drop fraction.length else afterWhole
  let power := unsigned afterFraction.tail
  s = "inf".toList || s = "infinity".toList || s = "nan".toList ||
    (!(whole.isEmpty && fraction.isEmpty) && (afterFraction.isEmpty ||
      (afterFraction.head? = some 'e' && !power.isEmpty && power.all Char.isDigit)))

/-- A field of a directive: its name, and whether a value follows it.  The value is a number
or an expression; what follows a second equals sign does not count. -/
def readField? (s : Text) : Option (Text × Bool) :=
  match Text.fields '=' s with
  | name :: value :: _ =>
    if isNumeral value || isExpression value then some (name, true) else none
  | [name] => some (name, false)
  | [] => none

/-- The threshold after an equals sign; without a word everything passes. -/
def readValue? (value : Text) : Option Nat :=
  if value = [] then some everything else readThreshold? value

/-- The directive that a text spells: a threshold, or a target and a scope, of which one may
be missing, with a threshold after an equals sign or none.  The form is that of the text
without the blanks around it, but its pieces are taken from the text itself, at the places in
bytes that they have in the form.  A field with a value can only belong to a span. -/
def Directive.parse? (s : Text) : Option Directive :=
  let form := Text.trim s
  let place (after : Text) : Nat := form.byteSize - after.byteSize
  let piece (start stop : Text) : Text := s.slice (place start) (place stop)
  let value (after : Text) : Option Nat := readValue? (s.dropBytes (place after))
  let afterTarget := form.dropWhile fun c => c != '=' && c != '['
  let target := piece form afterTarget
  if !(form.head?.map fun c => c == '[' || startsDirective c).getD false then none
  else
    match afterTarget with
    | '=' :: after => (value after).map fun n => { target := some target, threshold := n }
    | '[' :: inner =>
      (Scope.read? inner).bind fun scope =>
        let field : Option (Option (Text × Bool)) := match scope.field with
          | some (start, stop) => (readField? (piece start stop)).map some
          | none => some none
        let threshold := match scope.rest with
          | [] => some everything
          | '=' :: after => value after
          | _ => none
        field.bind fun field => threshold.map fun n =>
          { target := if target = [] then none else some target
            field := field.map Prod.fst
            inSpan := scope.named || (field.map Prod.snd).getD false
            threshold := n }
    | _ =>
      match readThreshold? s with
      | some n => some { target := none, threshold := n }
      | none => some { target := some s, threshold := everything }

namespace LogFilter

/-- The filter that a text spells: directives with commas between them.  Nothing between two
commas is no directive, and a text without directives lets errors pass. -/
def parse? (s : Text) : Option LogFilter :=
  match (Text.fields ',' s).filter (! ·.isEmpty) with
  | [] => some [{ target := none, threshold := Level.error.rank }]
  | pieces => pieces.mapM Directive.parse?

/-- The filter that lets records of the program up to a level pass. -/
def upTo (level : Level) : LogFilter :=
  [{ target := some Origin.command.target, threshold := level.rank }]

/-- The filter of a run: a verbose one lets information pass; else the setting of the
environment counts, and without one that is well formed, warnings pass. -/
def ofSettings (verbose : Bool) (setting : Option Text) : LogFilter :=
  if verbose then upTo .info else (setting.bind parse?).getD (upTo .warn)

/-- The names of the fields of a record. -/
def fieldNames (r : Record) : List Text :=
  "message".toList :: r.fields.map Prod.fst

/-- Whether a directive is about a record; no record of a run is inside a span. -/
def concerns (d : Directive) (r : Record) : Bool :=
  !d.inSpan && (d.target.map (·.isPrefixOf r.origin.target)).getD true
    && (d.field.map (fieldNames r).contains).getD true

/-- How small the part of the program is that a directive is about, and then whether it asks
for a field. -/
def narrowness (d : Directive) : Nat :=
  2 * (d.target.map (·.length + 1)).getD 0 + (if d.field.isSome then 1 else 0)

/-- Whether a later directive counts rather than an earlier one when both are about a record:
the narrower one counts, of two for one part that with the greater field, of equal ones the
later. -/
def overrides (earlier later : Directive) : Bool :=
  narrowness earlier < narrowness later ||
    (narrowness earlier = narrowness later &&
      !decide (later.field.getD [] < earlier.field.getD []))

/-- The directive that counts for a record. -/
def decisive? (filter : LogFilter) (r : Record) : Option Directive :=
  (filter.filter (concerns · r)).foldl (fun best d =>
    if (best.map (overrides · d)).getD true then some d else best) none

/-- Whether a record reaches the log. -/
def passes (filter : LogFilter) (r : Record) : Bool :=
  ((filter.decisive? r).map fun d => decide (r.level.rank ≤ d.threshold)).getD false

end LogFilter

/-! ### Lines -/

/-- The hexadecimal digits of a number. -/
def hexText (n : Nat) : Text :=
  Nat.toDigits 16 n

/-- A character of a message in the log: what controls a terminal is spelled out. -/
def logChar (c : Char) : Text :=
  if c ∈ ['\x1b', '\x07', '\x08', '\x0c', '\x7f'] then
    '\\' :: 'x' :: List.replicate (2 - (hexText c.toNat).length) '0' ++ hexText c.toNat
  else if 0x80 ≤ c.toNat ∧ c.toNat ≤ 0x9f then
    '\\' :: 'u' :: '\x7b' :: hexText c.toNat ++ ['\x7d']
  else [c]

/-- The line of a record: its level, five characters wide, its message and its fields. -/
def Record.line (r : Record) : Text :=
  let level := r.level.name
  List.replicate (5 - level.length) ' ' ++ level ++ ' ' :: r.message.flatMap logChar
    ++ r.fields.flatMap (fun (name, value) => ' ' :: name ++ '=' :: value) ++ ['\n']

/-- The log of a list of records. -/
def logText (filter : LogFilter) (records : List Record) : Text :=
  (records.filter filter.passes).flatMap Record.line

end ApiDocs
