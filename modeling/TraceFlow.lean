import TraceFlow.Main
import TraceFlow.Session
import TraceFlow.Proofs.Graph.Edges
import TraceFlow.Proofs.Graph.Passes
import TraceFlow.Proofs.Graph.Mirror
import TraceFlow.Proofs.Graph.Traversals
import TraceFlow.Proofs.Graph.Reach
import TraceFlow.Proofs.Graph.Catalogue
import TraceFlow.Proofs.BlockName
import TraceFlow.Proofs.Recorder.Steps
import TraceFlow.Proofs.Recorder.Sound
import TraceFlow.Proofs.Recorder.Finish
import TraceFlow.Proofs.Graph.Absorb
import TraceFlow.Proofs.Graph.Chains
import TraceFlow.Proofs.Graph.Claimable
import TraceFlow.Proofs.Graph.Claimed
import TraceFlow.Proofs.Graph.Division
import TraceFlow.Proofs.Graph.StraightLines
import TraceFlow.Proofs.FunctionMap
import TraceFlow.Proofs.FunctionMap.Entries
import TraceFlow.Proofs.FunctionMap.Promotion
import TraceFlow.Proofs.Graph.Markers
import TraceFlow.Proofs.Graph.Kinds
import TraceFlow.Proofs.Recorder.Arrival
import TraceFlow.Proofs.Profile
import TraceFlow.Proofs.Recorder.Balance
import TraceFlow.Proofs.Recorder.Backtrace
import TraceFlow.Proofs.Recorder.Kinds
import TraceFlow.Proofs.Recorder.Accounts
import TraceFlow.Proofs.Recorder.Interrupts
import TraceFlow.Proofs.Recorder.Resumption
import TraceFlow.Proofs.Recorder.Padding
import TraceFlow.Proofs.Path
import TraceFlow.Proofs.Volume
import TraceFlow.Proofs.Volume.Writes
import TraceFlow.Proofs.Session
import TraceFlow.Proofs.Session.Endings
import TraceFlow.Proofs.TraceLine.Form
import TraceFlow.Proofs.TraceLine
import TraceFlow.Proofs.Comparison
import TraceFlow.Proofs.Recorder.Executed
import TraceFlow.Proofs.Graph.Totals
import TraceFlow.Proofs.Graph.CallSites
import TraceFlow.Proofs.Recorder.Counts
import TraceFlow.Proofs.Text.Utf8
import TraceFlow.Proofs.Json.Reader
import TraceFlow.Proofs.Json.Documents
import TraceFlow.Proofs.Archive
import TraceFlow.Proofs.Archive.Built
import TraceFlow.Proofs.TraceFile
import TraceFlow.Proofs.Traversal.Search
import TraceFlow.Proofs.Graph.DepthFirst
import TraceFlow.Proofs.Comparison.Symmetry
import TraceFlow.Proofs.Comparison.OneSided
import TraceFlow.Proofs.Graph.Assembled
import TraceFlow.Proofs.Graph.Settling
import TraceFlow.Proofs.Graph.Index
import TraceFlow.Proofs.Graph.BasicBlocks
import TraceFlow.Proofs.Text.Lines
import TraceFlow.Proofs.Mnemonic
import TraceFlow.Proofs.Mnemonic.Wording
import TraceFlow.Proofs.Listing
import TraceFlow.Proofs.Listing.Limit
import TraceFlow.Proofs.Graph.Legible
import TraceFlow.Proofs.Text.Scanner
import TraceFlow.Proofs.Sheet.Outline
import TraceFlow.Proofs.Sheet.Quoting
import TraceFlow.Proofs.Sheet.Table
import TraceFlow.Proofs.Sheet.Plain
import TraceFlow.Proofs.Sheet.Document
import TraceFlow.Proofs.Sheet.Dot
import TraceFlow.Proofs.Sheet
import TraceFlow.Proofs.Command.Writing
import TraceFlow.Proofs.Command.Maps
import TraceFlow.Proofs.Command.Directories
import TraceFlow.Proofs.Command.TwoLogs
import TraceFlow.Proofs.Command
