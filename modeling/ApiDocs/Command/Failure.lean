import ApiDocs.Doc.Report
import ApiDocs.Files.Glob.Pattern
import ApiDocs.Files.Host
import ApiDocs.Page.Format
/-!
# Why a run fails

Main definitions:

- `Failure`: the reasons.
- `Failure.message`, `Failure.cause?`, `Failure.report`: their wording.
-/

namespace ApiDocs

/-- Why a run fails.  Texts are paths, and patterns or names where that is said. -/
inductive Failure
  | noInputs
  | noOutput
  | outputNotDirectory (dir : Text)
  | unknownFormat (name : Text)
  | unreadableDirectory (dir : Text) (error : FileError)
  | invalidPattern (pattern : Text) (error : PatternError)
  | nothingMatched
  | unreadable (path : Text) (error : FileError)
  | unparsable (path : Text) (fault : Fault)
  | unresolved (cls : Text) (fault : Fault)
  | outputNotMade (dir : Text) (error : FileError)
  | unwritten (path : Text) (error : FileError)
  deriving DecidableEq, Repr

namespace Failure

/-- What failed. -/
def message : Failure → Text
  | noInputs => "no input files given, nothing to document".toList
  | noOutput => "--output is required: the directory to write documentation to".toList
  | outputNotDirectory dir => "output path is not a directory: ".toList ++ dir
  | unknownFormat name => Format.unknownMessage name
  | unreadableDirectory dir _ => "failed to read directory: ".toList ++ dir
  | invalidPattern pattern _ => "invalid glob pattern: ".toList ++ pattern
  | nothingMatched => "no input files matched".toList
  | unreadable path _ => "failed to read ".toList ++ path
  | unparsable path _ => "failed to parse ".toList ++ path
  | unresolved cls _ => "failed to resolve class ".toList ++ cls
  | outputNotMade dir _ => "failed to create output directory: ".toList ++ dir
  | unwritten path _ => "failed to write ".toList ++ path

/-- Why it failed, where that is known. -/
def cause? : Failure → Option Text
  | noInputs | noOutput | outputNotDirectory _ | unknownFormat _ | nothingMatched => none
  | unreadableDirectory _ e | unreadable _ e | outputNotMade _ e | unwritten _ e =>
    some e.message
  | invalidPattern _ e => some e.message
  | unparsable _ fault | unresolved _ fault => some fault.message

/-- The blanks before each line of a cause. -/
def causeIndent : Text := "    ".toList

/-- The report of a failure: what failed and, on lines of its own, why. -/
def report (f : Failure) : Text :=
  "Error: ".toList ++ f.message ++
    (match f.cause? with
      | none => []
      | some cause =>
        "\n\nCaused by:\n".toList ++ causeIndent
          ++ Text.joinWith ('\n' :: causeIndent) (Text.fields '\n' cause)) ++ ['\n']

end Failure

end ApiDocs
