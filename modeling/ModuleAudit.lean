import ModuleAudit.Analysis
import ModuleAudit.CommandLine.Arguments
import ModuleAudit.CommandLine.Printed
import ModuleAudit.CommandLine.Run
import ModuleAudit.CommandLine.Style
import ModuleAudit.Config
import ModuleAudit.Decimal.Binary64
import ModuleAudit.Decimal.Shortest
import ModuleAudit.Decimal.Written
import ModuleAudit.Disk.Basic
import ModuleAudit.Disk.Fault
import ModuleAudit.Event
import ModuleAudit.Glob
import ModuleAudit.Grammar.Action
import ModuleAudit.Grammar.Automaton
import ModuleAudit.Grammar.Parse
import ModuleAudit.Grammar.Place
import ModuleAudit.Grammar.Reading
import ModuleAudit.Grammar.Rule
import ModuleAudit.Grammar.State
import ModuleAudit.Grammar.TokenSet
import ModuleAudit.Grammar.Tree
import ModuleAudit.Graph.Basic
import ModuleAudit.Graph.Build
import ModuleAudit.Graph.Cycle
import ModuleAudit.Graph.Reach
import ModuleAudit.Graph.Workbench
import ModuleAudit.Imports
import ModuleAudit.Json.Basic
import ModuleAudit.Json.Fault
import ModuleAudit.Json.Parser
import ModuleAudit.Main
import ModuleAudit.Manifest
import ModuleAudit.Outline.Basic
import ModuleAudit.Outline.Unfolding
import ModuleAudit.Package
import ModuleAudit.Path.Basic
import ModuleAudit.Pattern.Basic
import ModuleAudit.Pattern.Script
import ModuleAudit.Scan
import ModuleAudit.Script.Character
import ModuleAudit.Script.Construct
import ModuleAudit.Script.Contextual
import ModuleAudit.Script.Dialect
import ModuleAudit.Script.Language
import ModuleAudit.Script.Lexeme
import ModuleAudit.Script.Lexicon
import ModuleAudit.Script.Program
import ModuleAudit.Script.Rules.Basic
import ModuleAudit.Script.Rules.Class
import ModuleAudit.Script.Rules.Declaration
import ModuleAudit.Script.Rules.Element
import ModuleAudit.Script.Rules.Exchange
import ModuleAudit.Script.Rules.Expression
import ModuleAudit.Script.Rules.Literal
import ModuleAudit.Script.Rules.Statement
import ModuleAudit.Script.Rules.Types
import ModuleAudit.Script.Semicolon
import ModuleAudit.Script.Token
import ModuleAudit.Script.Tree
import ModuleAudit.Session
import ModuleAudit.Specifier.Basic
import ModuleAudit.Specifier.Resolve
import ModuleAudit.Specifier.Textual
import ModuleAudit.Strategy
import ModuleAudit.Table
import ModuleAudit.TestFile
import ModuleAudit.Text.Blank
import ModuleAudit.Text.Printable
import ModuleAudit.Text.Quoted
import ModuleAudit.Text.Ranges
import ModuleAudit.Text.Utf8
import ModuleAudit.Text.Word
import ModuleAudit.TextCache
import ModuleAudit.Verdict
import ModuleAudit.Proofs.Table
import ModuleAudit.Proofs.Graph.Edge
import ModuleAudit.Proofs.Cycle.Search
import ModuleAudit.Proofs.Cycle.Record
import ModuleAudit.Proofs.Cycle.Complete
import ModuleAudit.Proofs.Cycle.Run
import ModuleAudit.Proofs.Path.Extend
import ModuleAudit.Proofs.Disk
import ModuleAudit.Proofs.Scan
import ModuleAudit.Proofs.TextCache
import ModuleAudit.Proofs.Session
import ModuleAudit.Proofs.Specifier
import ModuleAudit.Proofs.Imports
import ModuleAudit.Proofs.Graph.Build
import ModuleAudit.Proofs.Graph.Trace
import ModuleAudit.Proofs.Package
import ModuleAudit.Proofs.Analysis.Findings
import ModuleAudit.Proofs.Manifest
import ModuleAudit.Proofs.Analysis.Verdict
import ModuleAudit.Proofs.Outline
import ModuleAudit.Proofs.Path.Relative
import ModuleAudit.Proofs.Rendering
import ModuleAudit.Proofs.Circular
import ModuleAudit.Proofs.Graph.Workbench
import ModuleAudit.Proofs.Analysis.Direct
import ModuleAudit.Proofs.Analysis.Progress
import ModuleAudit.Proofs.Disk.Blanked
import ModuleAudit.Proofs.Analysis.Isolation
import ModuleAudit.Proofs.Scan.Order
import ModuleAudit.Proofs.Specifier.Identity
import ModuleAudit.Proofs.Graph.Importers
import ModuleAudit.Proofs.Graph.Worklist
import ModuleAudit.Proofs.Scan.Listing
import ModuleAudit.Proofs.Specifier.Relocation
import ModuleAudit.Proofs.TextCache.History
import ModuleAudit.Proofs.Outline.Drawing
import ModuleAudit.Proofs.Rendering.Nodes
import ModuleAudit.Proofs.Unfolding.Chains
import ModuleAudit.Proofs.Pattern.Words
import ModuleAudit.Proofs.Specifier.Printed
import ModuleAudit.Proofs.Specifier.Naming
import ModuleAudit.Proofs.TestFile
import ModuleAudit.Proofs.TestFile.Marked
import ModuleAudit.Proofs.Strategy
import ModuleAudit.Proofs.CommandLine.Arguments
import ModuleAudit.Proofs.Manifest.Entry
import ModuleAudit.Proofs.Specifier.Quoted
import ModuleAudit.Proofs.Analysis.Shown
import ModuleAudit.Proofs.Script.Preorder
import ModuleAudit.Proofs.Rendering.Growth
