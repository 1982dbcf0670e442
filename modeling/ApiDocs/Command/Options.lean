import ApiDocs.Text.Basic
/-!
# Options of the command line

Options and input files may stand in any order, and after a double dash everything is an
input file.  Switches may be grouped behind one dash.  A setting takes its value from the
rest of its argument, after an equals sign or not, or from the next argument, which must not
look like an option.  No option may be given twice.

Main definitions:

- `Options`: what a command line asks for.
- `Usage`: why it asks for no run.
- `Options.parse`: the options of a list of arguments.
-/

namespace ApiDocs

/-- What a command line asks for. -/
structure Options where
  inputs : List Text := []
  output : Option Text := none
  format : Option Text := none
  verbose : Bool := false
  showPrivate : Bool := false
  deriving DecidableEq, Repr

/-- Why a command line asks for no run. -/
inductive Usage
  | help
  | invalid
  deriving DecidableEq, Repr

/-- The options that are set or not. -/
inductive Switch
  | verbose
  | showPrivate
  | help
  deriving DecidableEq, Repr

/-- The options with a value. -/
inductive Setting
  | output
  | format
  deriving DecidableEq, Repr

/-- An option with its words: the long one after two dashes, the short one after one. -/
structure OptionWords where
  long : Text
  short : Option Char
  option : Switch ⊕ Setting

/-- All options. -/
def allOptions : List OptionWords :=
  [⟨"output".toList, some 'o', .inr .output⟩, ⟨"verbose".toList, some 'v', .inl .verbose⟩,
    ⟨"format".toList, some 'f', .inr .format⟩,
    ⟨"show-private".toList, none, .inl .showPrivate⟩, ⟨"help".toList, some 'h', .inl .help⟩]

/-- The option with a long word. -/
def longOption? (word : Text) : Option (Switch ⊕ Setting) :=
  (allOptions.find? (·.long = word)).map OptionWords.option

/-- The option with a short word. -/
def shortOption? (c : Char) : Option (Switch ⊕ Setting) :=
  (allOptions.find? (·.short = some c)).map OptionWords.option

/-- Whether an argument cannot be the value of the option before it. -/
def looksLikeOption (arg : Text) : Bool :=
  arg.head? = some '-' && arg != ['-']

namespace Options

/-- Turns a switch on, once. -/
def turnOn (o : Options) : Switch → Except Usage Options
  | .verbose => if o.verbose then .error .invalid else .ok { o with verbose := true }
  | .showPrivate => if o.showPrivate then .error .invalid else .ok { o with showPrivate := true }
  | .help => .error .help

/-- Gives a setting its value, once.  The output directory must not be empty. -/
def assign (o : Options) (value : Text) : Setting → Except Usage Options
  | .output =>
    if o.output.isSome ∨ value = [] then .error .invalid else .ok { o with output := some value }
  | .format =>
    if o.format.isSome then .error .invalid else .ok { o with format := some value }

/-- Reads the options behind one dash; the setting that is left still needs its value. -/
def readShorts (o : Options) : Text → Except Usage (Options × Option Setting)
  | [] => .ok (o, none)
  | c :: rest =>
    match shortOption? c with
    | none => .error .invalid
    | some (.inl switch) => do readShorts (← o.turnOn switch) rest
    | some (.inr setting) =>
      match rest with
      | [] => .ok (o, some setting)
      | '=' :: value => do return (← o.assign value setting, none)
      | value => do return (← o.assign value setting, none)

/-- Reads the option behind two dashes; the setting that is left still needs its value. -/
def readLong (o : Options) (arg : Text) : Except Usage (Options × Option Setting) :=
  match longOption? (arg.takeWhile (· ≠ '=')), arg.dropWhile (· ≠ '=') with
  | none, _ => .error .invalid
  | some (.inl switch), [] => do return (← o.turnOn switch, none)
  | some (.inl _), _ => .error .invalid
  | some (.inr setting), [] => .ok (o, some setting)
  | some (.inr setting), _ :: value => do return (← o.assign value setting, none)

/-- Reads one argument before a double dash. -/
def readArg (o : Options) (arg : Text) : Except Usage (Options × Option Setting) :=
  match arg with
  | '-' :: '-' :: long => o.readLong long
  | '-' :: c :: rest => o.readShorts (c :: rest)
  | _ => .ok ({ o with inputs := o.inputs ++ [arg] }, none)

/-- Reads arguments one after the other; `pending` is the setting that waits for its value. -/
def readArgs (o : Options) (pending : Option Setting) : List Text → Except Usage Options
  | [] => if pending.isSome then .error .invalid else .ok o
  | arg :: rest =>
    match pending with
    | some setting =>
      if looksLikeOption arg then .error .invalid
      else do readArgs (← o.assign arg setting) none rest
    | none =>
      if arg = ['-', '-'] then .ok { o with inputs := o.inputs ++ rest }
      else do
        let (o, pending) ← o.readArg arg
        readArgs o pending rest

/-- The options of a list of arguments. -/
def parse (args : List Text) : Except Usage Options :=
  readArgs {} none args

end Options

end ApiDocs
