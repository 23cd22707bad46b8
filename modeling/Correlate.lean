import Correlate.TypeName
import Correlate.ReservedName
import Correlate.Position
import Correlate.ElementKind
import Correlate.Diagnostic
import Correlate.Grouping
import Correlate.Rounding
import Correlate.Json.Reader
import Correlate.Json.Decode
import Correlate.Json.Writer
import Correlate.Compiled.Modifier
import Correlate.Compiled.Element
import Correlate.Compiled.Pool
import Correlate.Compiled.Builder
import Correlate.Compiled.Script
import Correlate.Compiled.Model
import Correlate.Source.File
import Correlate.Source.Script
import Correlate.Source.Resolver
import Correlate.Source.FrontEnd
import Correlate.Matching.State
import Correlate.Matching.Type
import Correlate.Files.Path
import Correlate.Files.Disk
import Correlate.Files.Tree
import Correlate.Compiled.Hierarchy
import Correlate.Facts.Relation
import Correlate.Facts.Directory
import Correlate.Matching.Run
import Correlate.Report.Percentage
import Correlate.Report.Statistics
import Correlate.Report.Element
import Correlate.Report.Basic
import Correlate.Report.Document
import Correlate.CommandLine.Arguments
import Correlate.CommandLine.Config
import Correlate.CommandLine.Discovery
import Correlate.CommandLine.Run
import Correlate.CommandLine.Terminal
import Correlate.Main
import Correlate.Proofs.Consumption
import Correlate.Proofs.Scope
import Correlate.Proofs.Position
import Correlate.Proofs.Disclosure
import Correlate.Proofs.Compatibility
import Correlate.Proofs.Entries
import Correlate.Proofs.Order
import Correlate.Proofs.Isolation
import Correlate.Proofs.Lossiness
import Correlate.Proofs.StandIns
import Correlate.Proofs.Attempts
import Correlate.Proofs.Compiled.Contents
import Correlate.Proofs.Compiled.Naming
import Correlate.Proofs.Compiled.Loading
import Correlate.Proofs.Compiled.Signatures
import Correlate.Proofs.Compiled.Hierarchy
import Correlate.Proofs.Source.Consistency
import Correlate.Proofs.Source.Documents
import Correlate.Proofs.Source.Candidates
import Correlate.Proofs.Source.Resolution
import Correlate.Proofs.Nesting
import Correlate.Proofs.Preservation
import Correlate.Proofs.Constructors
import Correlate.Proofs.Bridges
import Correlate.Proofs.LambdaSites
import Correlate.Proofs.Aliases
import Correlate.Proofs.LocalCopies
import Correlate.Proofs.VariableArity
import Correlate.Proofs.Source.NestedAccess
import Correlate.Proofs.Synthesis
import Correlate.Proofs.LineInversions
import Correlate.Proofs.Simplification
import Correlate.Proofs.Compiled.VariableIds
import Correlate.Proofs.Source.ArgumentCounts
import Correlate.Proofs.WordArithmetic
