import ApiDocs.Class.Basic
import ApiDocs.Class.Catalog
import ApiDocs.Class.Lineage
import ApiDocs.Code.Fill
import ApiDocs.Code.Literal
import ApiDocs.Code.Signature
import ApiDocs.Code.Trivia
import ApiDocs.Command.Failure
import ApiDocs.Command.Inputs
import ApiDocs.Command.Log
import ApiDocs.Command.Options
import ApiDocs.Command.Run
import ApiDocs.Comment.Node
import ApiDocs.Comment.Parts
import ApiDocs.Comment.Section
import ApiDocs.Comment.Tag
import ApiDocs.Cut
import ApiDocs.Doc.Kind
import ApiDocs.Doc.Node
import ApiDocs.Doc.Report
import ApiDocs.Expression.Atom
import ApiDocs.Expression.Basic
import ApiDocs.Expression.CharSet
import ApiDocs.Files.Directory
import ApiDocs.Files.Glob.Pattern
import ApiDocs.Files.Glob.Search
import ApiDocs.Files.Host
import ApiDocs.Files.Path
import ApiDocs.Files.Tree
import ApiDocs.Json.Basic
import ApiDocs.Main
import ApiDocs.Markup.Basic
import ApiDocs.Namespace.Basic
import ApiDocs.Namespace.Navigation
import ApiDocs.Page.Basic
import ApiDocs.Page.Format
import ApiDocs.Page.Html
import ApiDocs.Page.Json
import ApiDocs.Page.Link
import ApiDocs.Sorted
import ApiDocs.Source.DocBlock
import ApiDocs.Source.Lexeme
import ApiDocs.Source.Unit
import ApiDocs.Text.Basic
import ApiDocs.Text.Blank
import ApiDocs.Text.Word
import ApiDocs.Proofs.Source.Lossless
import ApiDocs.Proofs.Source.TokenStream
import ApiDocs.Proofs.Source.Origins
import ApiDocs.Proofs.Comment.Canonical
import ApiDocs.Proofs.Class.Filing
import ApiDocs.Proofs.Class.Composition
import ApiDocs.Proofs.Command.AllOrNothing
import ApiDocs.Proofs.Class.Ancestors
import ApiDocs.Proofs.Class.Inheritance
import ApiDocs.Proofs.Page.Shadowing
import ApiDocs.Proofs.Page.Privacy
import ApiDocs.Proofs.Namespace.Prefixes
import ApiDocs.Proofs.Namespace.Arrangement
import ApiDocs.Proofs.Page.Marks
import ApiDocs.Proofs.Page.References
import ApiDocs.Proofs.Page.JsonContent
import ApiDocs.Proofs.Command.Confinement
import ApiDocs.Proofs.Comment.Origins
import ApiDocs.Proofs.Command.MissingParents
import ApiDocs.Proofs.Namespace.Ids
import ApiDocs.Proofs.Page.Rows
import ApiDocs.Proofs.Source.UnitLineEndings
import ApiDocs.Proofs.Comment.TypeTags
import ApiDocs.Proofs.Comment.BareTags
import ApiDocs.Proofs.Comment.Description
import ApiDocs.Proofs.Comment.Recovery
import ApiDocs.Proofs.Source.Divisions
import ApiDocs.Proofs.Comment.Reports
import ApiDocs.Proofs.Source.ByteSafety
import ApiDocs.Proofs.Comment.Decoration
import ApiDocs.Proofs.Code.Trivia
import ApiDocs.Proofs.Code.Forms
import ApiDocs.Proofs.Code.Parameters
import ApiDocs.Proofs.Code.Functions
import ApiDocs.Proofs.Code.Values
import ApiDocs.Proofs.Page.Expansion
import ApiDocs.Proofs.Page.Injection
import ApiDocs.Proofs.Comment.Defaults
import ApiDocs.Proofs.Page.Dependence
import ApiDocs.Proofs.Code.Filling
import ApiDocs.Proofs.Files.Locations
import ApiDocs.Proofs.Source.RegexLiterals
import ApiDocs.Proofs.Command.Mentions
import ApiDocs.Proofs.Comment.Braces
import ApiDocs.Proofs.Markup.Replacement
