import AgentPrompt.Text.Blank
import AgentPrompt.Text.Lines
import AgentPrompt.Text.Search
import AgentPrompt.Text.Printable
import AgentPrompt.Text.Quoted
import AgentPrompt.Number.Binary64
import AgentPrompt.Number.Shortest
import AgentPrompt.Json.Basic
import AgentPrompt.Json.Printer
import AgentPrompt.Json.Reader
import AgentPrompt.Error
import AgentPrompt.Markup
import AgentPrompt.Tool.ParamType
import AgentPrompt.Tool.Basic
import AgentPrompt.Tool.Schema
import AgentPrompt.Tool.Block
import AgentPrompt.Tool.Registry
import AgentPrompt.Bindings
import AgentPrompt.Instant
import AgentPrompt.Locale
import AgentPrompt.Template.Piece
import AgentPrompt.Template.Compile
import AgentPrompt.Prompt.Context
import AgentPrompt.Prompt.Builtin
import AgentPrompt.Audit.Report
import AgentPrompt.Audit.Section
import AgentPrompt.Audit.ToolList
import AgentPrompt.Audit.Prompt
import AgentPrompt.Yaml.Fault
import AgentPrompt.Yaml.Source
import AgentPrompt.Yaml.Scalar
import AgentPrompt.Yaml.Token
import AgentPrompt.Yaml.Token.Lexer
import AgentPrompt.Yaml.Node
import AgentPrompt.Yaml.Decode
import AgentPrompt.Tool.Catalog
import AgentPrompt.Yaml.Implicit
import AgentPrompt.Yaml.Printer
import AgentPrompt.Path
import AgentPrompt.Settings
import AgentPrompt.CommandLine.Request
import AgentPrompt.CommandLine.FileTree
import AgentPrompt.CommandLine.Inquiry
import AgentPrompt.CommandLine.Inputs
import AgentPrompt.CommandLine.Ending
import AgentPrompt.CommandLine.Run
import AgentPrompt.Main
import AgentPrompt.Proofs.Except
import AgentPrompt.Proofs.Text.Trim
import AgentPrompt.Proofs.Text.Lines
import AgentPrompt.Proofs.Number.Rounding
import AgentPrompt.Proofs.Number.Scaling
import AgentPrompt.Proofs.Number.ShortestBound
import AgentPrompt.Proofs.Json.Numeral
import AgentPrompt.Proofs.Json.NumberText
import AgentPrompt.Proofs.Json.Reread
import AgentPrompt.Proofs.Json.Printed
import AgentPrompt.Proofs.Json.Members
import AgentPrompt.Proofs.Template.Grammar
import AgentPrompt.Proofs.Template.Layout
import AgentPrompt.Proofs.Template.Names
import AgentPrompt.Proofs.Audit.Soundness
import AgentPrompt.Proofs.Audit.HeaderSearch
import AgentPrompt.Proofs.Tool.Schema
import AgentPrompt.Proofs.Tool.BlockLines
import AgentPrompt.Proofs.Tool.RegistryRuns
import AgentPrompt.Proofs.Audit.Agreement
import AgentPrompt.Proofs.CommandLine.Check
import AgentPrompt.Proofs.Audit.Placeholders
import AgentPrompt.Proofs.Prompt.Variables
import AgentPrompt.Proofs.CommandLine.Agreement
import AgentPrompt.Proofs.Json.Canonical
import AgentPrompt.Proofs.Json.Nesting
import AgentPrompt.Proofs.Tool.SchemaReading
import AgentPrompt.Proofs.Tool.Selection
import AgentPrompt.Proofs.CommandLine.Endings
import AgentPrompt.Proofs.CommandLine.Arguments
import AgentPrompt.Proofs.CommandLine.SharedTools
import AgentPrompt.Proofs.CommandLine.Writing
import AgentPrompt.Proofs.CommandLine.Effects
import AgentPrompt.Proofs.Template.Boundary
import AgentPrompt.Proofs.Prompt.Builtin
import AgentPrompt.Proofs.Text.Infix
import AgentPrompt.Proofs.Json.Texts
import AgentPrompt.Proofs.Prompt.Facts
import AgentPrompt.Proofs.Tool.LegacyMarkup
import AgentPrompt.Proofs.Tool.SampleCall
import AgentPrompt.Proofs.Yaml.Styles
import AgentPrompt.Proofs.Yaml.Quoted
import AgentPrompt.Proofs.Yaml.Bare
import AgentPrompt.Proofs.Yaml.Literal
import AgentPrompt.Proofs.Yaml.Fields
import AgentPrompt.Proofs.Yaml.Steps
import AgentPrompt.Proofs.Yaml.Document
import AgentPrompt.Proofs.Settings
import AgentPrompt.Proofs.Tool.Faults
import AgentPrompt.Proofs.Json.Unambiguous
import AgentPrompt.Proofs.Tool.SchemaDistinct
import AgentPrompt.Proofs.Audit.Offsets
import AgentPrompt.Proofs.Audit.ToolOrder
import AgentPrompt.Proofs.Template.Straddling
import AgentPrompt.Proofs.Template.Concatenation
import AgentPrompt.Proofs.Tool.ForbiddenMarkup
import AgentPrompt.Proofs.Bindings
import AgentPrompt.Proofs.Json.IntegerToken
import AgentPrompt.Proofs.Json.IntegerLayout
import AgentPrompt.Proofs.Tool.IntegerDefaults
import AgentPrompt.Proofs.Audit.FirstFence
import AgentPrompt.Proofs.Instant.Calendar
import AgentPrompt.Proofs.Instant.Text
import AgentPrompt.Proofs.CommandLine.Overriding
import AgentPrompt.Proofs.Paths
