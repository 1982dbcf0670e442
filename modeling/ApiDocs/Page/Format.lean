import ApiDocs.Page.Html
import ApiDocs.Page.Json
/-!
# Page formats

Main definitions:

- `Format`, `Format.ofName?`: the formats and their names.
- `Format.render`: a page in a format.
-/

namespace ApiDocs

/-- The formats in which pages can be written. -/
inductive Format
  | html
  | json
  deriving DecidableEq, Repr

namespace Format

/-- The name of a format, which is also the ending of its files. -/
def name : Format → Text
  | html => "html".toList
  | json => "json".toList

/-- The format with a name. -/
def ofName? (name : Text) : Option Format :=
  if name = html.name then some html else if name = json.name then some json else none

/-- The report on a name that is no format. -/
def unknownMessage (name : Text) : Text :=
  "unknown format: ".toList ++ name ++ ". Use html or json".toList

/-- A page in a format. -/
def render : Format → Page → Text
  | html => Page.renderHtml
  | json => Page.renderJson

end Format

end ApiDocs
