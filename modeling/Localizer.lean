import Localizer.Api.Export
import Localizer.Api.Scope
import Localizer.Command
import Localizer.Config
import Localizer.Config.Loading
import Localizer.Config.Reading
import Localizer.Config.Validation
import Localizer.Coverage
import Localizer.Decimal.Shortest
import Localizer.Description
import Localizer.Encoding
import Localizer.Extraction
import Localizer.Failure
import Localizer.FileTree
import Localizer.Fragment
import Localizer.Glob.Pattern
import Localizer.Glob.Search
import Localizer.Interchange.Files
import Localizer.Interchange.Reading
import Localizer.Interchange.Xlb
import Localizer.Interchange.Xliff
import Localizer.Issue
import Localizer.Json
import Localizer.Json.Fault
import Localizer.Json.Reader
import Localizer.LocaleModule
import Localizer.LocaleOutput
import Localizer.Localization
import Localizer.Main
import Localizer.Markup.Token
import Localizer.Markup.Tree
import Localizer.Message
import Localizer.Message.Unique
import Localizer.MessageCall
import Localizer.Outcome
import Localizer.Patch
import Localizer.Path
import Localizer.Project
import Localizer.Project.Build
import Localizer.Project.Extract
import Localizer.Proofs.Api.Agreement
import Localizer.Proofs.Api.Frames
import Localizer.Proofs.Config.RoundTrip
import Localizer.Proofs.Config.Validation
import Localizer.Proofs.Coverage.Names
import Localizer.Proofs.Coverage.Placeholders
import Localizer.Proofs.Coverage.Validation
import Localizer.Proofs.Description
import Localizer.Proofs.Encoding.Gate
import Localizer.Proofs.Encoding.Insertion
import Localizer.Proofs.Encoding.Parts
import Localizer.Proofs.Encoding.Runs
import Localizer.Proofs.Encoding.Segments
import Localizer.Proofs.Encoding.Sentinels
import Localizer.Proofs.Encoding.Signs
import Localizer.Proofs.Except
import Localizer.Proofs.Extraction.Descriptions
import Localizer.Proofs.Extraction.Messages
import Localizer.Proofs.Extraction.Walk
import Localizer.Proofs.FileTree
import Localizer.Proofs.FileTree.Places
import Localizer.Proofs.FileTree.Writing
import Localizer.Proofs.Fragment
import Localizer.Proofs.Glob.Pattern
import Localizer.Proofs.Glob.Search
import Localizer.Proofs.Interchange.Contents
import Localizer.Proofs.Interchange.Files
import Localizer.Proofs.Interchange.Rewriting
import Localizer.Proofs.Interchange.Xlb
import Localizer.Proofs.Interchange.Xliff
import Localizer.Proofs.Json.Reading
import Localizer.Proofs.LocaleModule.Completeness
import Localizer.Proofs.LocaleModule.Entry
import Localizer.Proofs.LocaleModule.Sharing
import Localizer.Proofs.Localization.Absorbing
import Localizer.Proofs.Localization.Aliases
import Localizer.Proofs.Localization.Calls
import Localizer.Proofs.Localization.Dangling
import Localizer.Proofs.Localization.Discarding
import Localizer.Proofs.Localization.Emptying
import Localizer.Proofs.Localization.Finishing
import Localizer.Proofs.Localization.Flow
import Localizer.Proofs.Localization.Following
import Localizer.Proofs.Localization.Losing
import Localizer.Proofs.Localization.Making
import Localizer.Proofs.Localization.Reading
import Localizer.Proofs.Localization.References
import Localizer.Proofs.Localization.Shadowing
import Localizer.Proofs.Markup.Exact
import Localizer.Proofs.Markup.Order
import Localizer.Proofs.Markup.Place
import Localizer.Proofs.Markup.RawText
import Localizer.Proofs.Markup.Skeleton
import Localizer.Proofs.Markup.Slices
import Localizer.Proofs.Markup.WellFormed
import Localizer.Proofs.Message.Unique
import Localizer.Proofs.MessageCall.Contents
import Localizer.Proofs.MessageCall.References
import Localizer.Proofs.MessageCall.Translation
import Localizer.Proofs.Option
import Localizer.Proofs.Patch.Results
import Localizer.Proofs.Patch.Termination
import Localizer.Proofs.Path
import Localizer.Proofs.Project.Keeping
import Localizer.Proofs.Project.Placing
import Localizer.Proofs.Project.Repeating
import Localizer.Proofs.Project.Running
import Localizer.Proofs.Report.Caret
import Localizer.Proofs.Saving
import Localizer.Proofs.Scan
import Localizer.Proofs.Scan.Names
import Localizer.Proofs.Script.Declarations
import Localizer.Proofs.Script.Elements
import Localizer.Proofs.Script.FreeNames
import Localizer.Proofs.Script.Hoisting
import Localizer.Proofs.Script.Outside
import Localizer.Proofs.Script.Parsed
import Localizer.Proofs.Script.Parser.Classes
import Localizer.Proofs.Script.Parser.Expressions
import Localizer.Proofs.Script.Parser.Jsx
import Localizer.Proofs.Script.Parser.Modules
import Localizer.Proofs.Script.Parser.Patterns
import Localizer.Proofs.Script.Parser.Rules
import Localizer.Proofs.Script.Parser.Statements
import Localizer.Proofs.Script.Parser.Types
import Localizer.Proofs.Script.Parser.Yields
import Localizer.Proofs.Script.Regular
import Localizer.Proofs.Script.Sorts
import Localizer.Proofs.Script.Sorts.Expressions
import Localizer.Proofs.Script.Sorts.Patterns
import Localizer.Proofs.Script.Sorts.Statements
import Localizer.Proofs.Script.TemplateLiteral
import Localizer.Proofs.Session
import Localizer.Proofs.Source.Position
import Localizer.Proofs.Template.Cooked
import Localizer.Proofs.Template.Pieces
import Localizer.Proofs.Template.Quoted
import Localizer.Proofs.Template.Seams
import Localizer.Proofs.Template.Signs
import Localizer.Proofs.Template.Substitutions
import Localizer.Proofs.Text.Bytes
import Localizer.Proofs.Text.Occurrence
import Localizer.Proofs.Text.Search
import Localizer.Proofs.Text.Utf16
import Localizer.Proofs.Text.Width
import Localizer.Proofs.Translations
import Localizer.Proofs.Xml.Document
import Localizer.Proofs.Xml.Entities
import Localizer.Report
import Localizer.Run
import Localizer.Scan
import Localizer.Script.Fault
import Localizer.Script.Letter
import Localizer.Script.Lexer
import Localizer.Script.Literal
import Localizer.Script.Names
import Localizer.Script.Outline
import Localizer.Script.Output
import Localizer.Script.Parser.Classes
import Localizer.Script.Parser.Expressions
import Localizer.Script.Parser.Jsx
import Localizer.Script.Parser.Modules
import Localizer.Script.Parser.Patterns
import Localizer.Script.Parser.Rules
import Localizer.Script.Parser.State
import Localizer.Script.Parser.Statements
import Localizer.Script.Parser.Types
import Localizer.Script.Printer
import Localizer.Script.Printer.Expressions
import Localizer.Script.Printer.Part
import Localizer.Script.Printer.Statements
import Localizer.Script.Printer.Types
import Localizer.Script.Token
import Localizer.Script.Tree
import Localizer.Session
import Localizer.Source.Location
import Localizer.Source.Position
import Localizer.Template.Escape
import Localizer.Template.Piece
import Localizer.Template.Quoted
import Localizer.Text.Blank
import Localizer.Text.Bytes
import Localizer.Text.FileName
import Localizer.Text.InvisibleRanges
import Localizer.Text.Quoted
import Localizer.Text.Ranges
import Localizer.Text.Search
import Localizer.Text.Width
import Localizer.Text.WidthRanges
import Localizer.Xml.Entity
import Localizer.Xml.Event
import Localizer.Xml.Fault
