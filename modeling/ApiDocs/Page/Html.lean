import ApiDocs.Page.Link
/-!
# Pages as HTML

A page shows the name of the class, its hierarchy and mixins, its description, its
constructor, and one table for each kind of member with a row for each of them.

Main definitions:

- `memberRow`, `memberTable`: the row of a member and the table of a kind.
- `Page.toMarkup`, `Page.renderHtml`: a page as markup and as text.
-/

namespace ApiDocs

open Markup (fixed newline plain styled separated)

/-- The rules for the look of a page. -/
def styleRules : List String :=
  ["body \x7b font-family: system-ui, sans-serif; max-width: 60em; margin: 2em auto; padding: 0 1em; \x7d",
    "code \x7b background: #f4f4f4; padding: 0.15em 0.3em; border-radius: 3px; \x7d",
    "table \x7b border-collapse: collapse; width: 100%; \x7d",
    "th, td \x7b text-align: left; vertical-align: top; padding: 0.4em; border-bottom: 1px solid #ddd; \x7d",
    "tr.inherited \x7b color: #666; \x7d",
    ".tag \x7b display: inline-block; font-size: 0.75em; padding: 0.1em 0.4em; border-radius: 3px; margin-left: 0.5em; background: #dea584; \x7d"]

/-- The heading of the table of a kind. -/
def MemberKind.title : MemberKind → String
  | .cfg => "Config Options"
  | .property => "Public Properties"
  | .method => "Public Methods"
  | .event => "Public Events"

/-! ### Parts of a page -/

/-- A link to the page of a class. -/
def linkToClass (name : Text) : Markup :=
  .element "a".toList [("href".toList, pageRef name)] [.text name]

/-- A label that follows a name. -/
def badge (label : String) : List Markup :=
  [fixed " ", styled "span" "tag" [fixed label]]

/-- A parameter in a heading: type and name, in brackets when it is optional. -/
def paramHeading (p : DocNode) : Text :=
  let shown := match p.type with
    | some type => type ++ ' ' :: p.label
    | none => p.label
  if p.isOptional then '[' :: shown ++ [']'] else shown

/-- The parameters in a heading. -/
def paramsText (params : List DocNode) : Markup :=
  .text (Text.joinWith ", ".toList (params.map paramHeading))

/-- The type that a method returns. -/
def returnType (node : DocNode) : Text :=
  (node.returns.bind Returns.type).getD "void".toList

/-- What heads the row of a member: its name with its type, or with its parameters. -/
def memberHeading (node : DocNode) : List Markup :=
  let name := plain "code" [.text node.label]
  match node.kind with
  | .member .method =>
    [name, fixed "( ", paramsText node.params, fixed " ) : ", .text (returnType node)]
  | .member .event => [name, fixed " : ( ", paramsText node.params, fixed " )"]
  | _ =>
    match node.type with
    | some type => [name, fixed " : ", .text type]
    | none => [name]

/-- The entry of a parameter in a list of parameters. -/
def paramEntry (table : ClassTable) (context : Text) (p : DocNode) : List Markup :=
  let optional := if p.isOptional then [fixed " (optional)"] else []
  let term := plain "dt"
    ([plain "code" [.text p.label], fixed " : ", .text (p.type.getD "Mixed".toList)] ++ optional)
  if p.description.isEmpty then [term]
  else [term, plain "dd" (expandReferences table context p.description)]

/-- The list of parameters; nothing without parameters. -/
def paramEntries (table : ClassTable) (context : Text) (params : List DocNode) : List Markup :=
  if params.isEmpty then []
  else [styled "dl" "params" (params.flatMap (paramEntry table context))]

/-- A description; nothing when it is empty. -/
def descriptionBlock (table : ClassTable) (context description : Text) : List Markup :=
  if description.isEmpty then []
  else [styled "div" "description" (expandReferences table context description)]

/-- What a method returns; nothing when its comment does not say. -/
def returnsBlock (table : ClassTable) (context : Text) (node : DocNode) : List Markup :=
  match node.returns with
  | none => []
  | some r =>
    [styled "p" "returns"
      ([fixed "Returns: ", plain "code" [.text (returnType node)], fixed " "]
        ++ expandReferences table context r.description)]

/-! ### Tables -/

/-- The mark of the row of a member. -/
def rowId (r : OwnedMember) : Text :=
  memberMark r.node.kind r.node.label

/-- The row of a member on the page of the class `subject`. -/
def memberRow (table : ClassTable) (subject : Text) (r : OwnedMember) : Markup :=
  let style := if r.owner = subject then [] else [("class".toList, "inherited".toList)]
  let params := if r.node.kind.isCalled then r.node.params else []
  .element "tr".toList (("id".toList, rowId r) :: style)
    [newline,
      plain "td" (memberHeading r.node ++ (if r.node.isPrivate then badge "private" else [])
        ++ descriptionBlock table r.owner r.node.description
        ++ paramEntries table r.owner params
        ++ returnsBlock table r.owner r.node),
      newline, plain "td" [linkToClass r.owner], newline]

/-- The table of a kind; nothing without members of that kind. -/
def memberTable (page : Page) (kind : MemberKind) : List Markup :=
  let members := page.members.ofKind kind
  let title := fixed kind.title
  if members.isEmpty then []
  else
    [plain "h2" [title], newline,
      plain "table"
        ([newline, plain "tr" [plain "th" [title], plain "th" [fixed "Defined By"]], newline]
          ++ members.flatMap fun r => [memberRow page.table page.subject.name r, newline]),
      newline]

/-! ### The page -/

namespace Page

/-- The name of the class. -/
def heading (page : Page) : List Markup :=
  [plain "h1" (.text page.subject.name ::
      if page.subject.doc.isSingleton then badge "singleton" else []), newline]

/-- The way from the topmost ancestor to the class; nothing when it has no ancestor. -/
def hierarchyBlock (page : Page) : List Markup :=
  let entry (name : Text) : Markup :=
    if name = page.subject.name then plain "strong" [.text name] else linkToClass name
  if page.hierarchy.length ≤ 1 then []
  else [styled "p" "hierarchy" (separated (fixed " > ") (page.hierarchy.map entry)), newline]

/-- The mixins of the class; nothing when it has none. -/
def mixinsBlock (page : Page) : List Markup :=
  let names := page.subject.doc.mixins.entries
  if names.isEmpty then []
  else
    [styled "p" "mixins" (fixed "Mixins: " :: separated (fixed ", ") (names.map linkToClass)),
      newline]

/-- The description of the class; nothing when it is empty. -/
def aboutBlock (page : Page) : List Markup :=
  match descriptionBlock page.table page.subject.name page.subject.doc.description with
  | [] => []
  | blocks => blocks ++ [newline]

/-- The constructor that the comment of the class describes by its parameters. -/
def constructorBlock (page : Page) : List Markup :=
  let params := page.subject.doc.params
  if params.isEmpty then []
  else
    [plain "h2" [fixed "Constructor"], newline,
      plain "p" [plain "code"
        [fixed "new ", .text page.subject.name, fixed "(", paramsText params, fixed ")"]],
      newline] ++ paramEntries page.table page.subject.name params

/-- The head of a page. -/
def head (page : Page) : Markup :=
  plain "head"
    [newline, .raw "<meta charset=\"utf-8\">\n".toList,
      plain "title" [.text page.subject.name], newline,
      plain "style" (newline :: styleRules.flatMap fun rule => [.raw rule.toList, newline]),
      newline]

/-- The body of a page. -/
def body (page : Page) : Markup :=
  plain "body"
    (newline :: (page.heading ++ page.hierarchyBlock ++ page.mixinsBlock ++ page.aboutBlock
      ++ page.constructorBlock ++ MemberKind.all.flatMap (memberTable page)))

/-- A page as markup. -/
def toMarkup (page : Page) : List Markup :=
  [.raw "<!DOCTYPE html>\n".toList,
    plain "html" [newline, page.head, newline, page.body, newline], newline]

/-- A page as HTML text. -/
def renderHtml (page : Page) : Text :=
  Markup.renderAll page.toMarkup

end Page

end ApiDocs
