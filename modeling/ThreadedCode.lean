import ThreadedCode.Main
import ThreadedCode.Table.Flat
import ThreadedCode.Proofs.Body
import ThreadedCode.Proofs.Definition
import ThreadedCode.Proofs.Session
import ThreadedCode.Proofs.Layout
import ThreadedCode.Proofs.Pending
import ThreadedCode.Proofs.Resolution
import ThreadedCode.Proofs.Dictionary
import ThreadedCode.Proofs.BinaryForm
import ThreadedCode.Proofs.Simulation
import ThreadedCode.Proofs.Parallel
import ThreadedCode.Proofs.Recasting
import ThreadedCode.Proofs.FailedDefinitions
import ThreadedCode.Proofs.Problems
import ThreadedCode.Proofs.Extension
import ThreadedCode.Proofs.Reading
import ThreadedCode.Proofs.UnitRange
import ThreadedCode.Proofs.Failures
import ThreadedCode.Proofs.Outcome
import ThreadedCode.Proofs.Loading
import ThreadedCode.Proofs.Rows
import ThreadedCode.Proofs.References
import ThreadedCode.Proofs.Disassembly
import ThreadedCode.Proofs.WellFormed
import ThreadedCode.Proofs.WordConstants
import ThreadedCode.Proofs.Truncation
import ThreadedCode.Proofs.OrderIndependence
import ThreadedCode.Proofs.AcceptedWords
import ThreadedCode.Proofs.FirstMatch
import ThreadedCode.Proofs.Sections
import ThreadedCode.Proofs.Spelling
import ThreadedCode.Proofs.Origins
import ThreadedCode.Proofs.SourceLines
import ThreadedCode.Proofs.Unplaced
import ThreadedCode.Proofs.Joining
import ThreadedCode.Proofs.Comments
import ThreadedCode.Proofs.Columns
import ThreadedCode.Proofs.Labels
import ThreadedCode.Proofs.WideLiterals
import ThreadedCode.Proofs.CommandOutcome
import ThreadedCode.Proofs.EscapingErrors
import ThreadedCode.Proofs.Nesting
import ThreadedCode.Proofs.SymbolDependence
import ThreadedCode.Proofs.BootstrapLookup
import ThreadedCode.Proofs.Partition
import ThreadedCode.Proofs.Packing
import ThreadedCode.Proofs.Documentation
import ThreadedCode.Proofs.ReferencedConstants
import ThreadedCode.Proofs.BlockComments
import ThreadedCode.Proofs.Literals
import ThreadedCode.Proofs.StringLiterals
import ThreadedCode.Proofs.CodeRows
import ThreadedCode.Proofs.Headers
import ThreadedCode.Proofs.Slots
import ThreadedCode.Proofs.Numbers
import ThreadedCode.Proofs.BodyLines
import ThreadedCode.Proofs.Flattening
