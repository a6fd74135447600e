import OpalRepair.Proofs.Token
import OpalRepair.Report.Tally
import OpalRepair.Repairer
import OpalRepair.Settings.File
import OpalRepair.Proofs.Bytes.Slice
import OpalRepair.Proofs.Layout
import OpalRepair.Proofs.Bytes.Scan
import OpalRepair.Proofs.Bytes.Bracket
import OpalRepair.Proofs.Bytes.Edit
import OpalRepair.Proofs.Bytes.Fragment
import OpalRepair.Proofs.Bytes.Stage
import OpalRepair.Proofs.Bytes.Check
import OpalRepair.Proofs.Bytes.Count
import OpalRepair.Proofs.Selection
import OpalRepair.Proofs.Bytes.Metric
import OpalRepair.Proofs.Bytes.Repairer
import OpalRepair.Proofs.Alike
import OpalRepair.Proofs.Calls
import OpalRepair.Proofs.Join
import OpalRepair.Proofs.Verdict
import OpalRepair.Proofs.Content
import OpalRepair.Proofs.Compose
import OpalRepair.Proofs.Clause.Basic
import OpalRepair.Proofs.Clause.Fragment
import OpalRepair.Proofs.Clause.Checks
import OpalRepair.Proofs.Clause.Stage
import OpalRepair.Proofs.Clause.Count
import OpalRepair.Proofs.Clause.Flag
import OpalRepair.Proofs.Clause.Repair
import OpalRepair.Proofs.Rounds
import OpalRepair.Proofs.Sound
import OpalRepair.Proofs.Report
import OpalRepair.Proofs.Account
import OpalRepair.Proofs.Counting.Call
import OpalRepair.Proofs.Counting.Replaced
import OpalRepair.Proofs.Rescan
import OpalRepair.Proofs.Aligning
import OpalRepair.Proofs.Counting.Operate
import OpalRepair.Proofs.Counting.Repaint
import OpalRepair.Proofs.Counting.Again
import OpalRepair.Proofs.Template.Basic
import OpalRepair.Proofs.Template.Fragment
import OpalRepair.Proofs.Template.Path
import OpalRepair.Proofs.Template.Key
import OpalRepair.Proofs.Template.Splice
import OpalRepair.Proofs.Template.Count
import OpalRepair.Proofs.Template.Blind
import OpalRepair.Proofs.Dropping.Grammar
import OpalRepair.Proofs.Dropping.Rejoin
import OpalRepair.Proofs.Dropping.Exact
import OpalRepair.Proofs.Dropping.Accepted
import OpalRepair.Proofs.Sorting.Items
import OpalRepair.Proofs.Sorting.Key
import OpalRepair.Proofs.Sorting.Written
import OpalRepair.Proofs.Sorting.InPlace
import OpalRepair.Proofs.Quoting.Rows
import OpalRepair.Proofs.Quoting.Again
import OpalRepair.Proofs.Quoting.Neutral
import OpalRepair.Proofs.Stagewise
import OpalRepair.Proofs.Searching
import OpalRepair.Proofs.Callees
import OpalRepair.Proofs.Firing
import OpalRepair.Proofs.Expanding.Rows
import OpalRepair.Proofs.Expanding.Stages
import OpalRepair.Proofs.Nesting
import OpalRepair.Proofs.Partition
import OpalRepair.Proofs.Suggestions
import OpalRepair.Proofs.Json.Spelling
import OpalRepair.Proofs.Json.Settings
import OpalRepair.Proofs.Tally
import OpalRepair.Proofs.Edits
import OpalRepair.Proofs.Matching
import OpalRepair.Proofs.Keeping.WellFormed
import OpalRepair.Proofs.Keeping.Sorted
import OpalRepair.Proofs.Keeping.Aligned
import OpalRepair.Proofs.Keeping.Expanded
import OpalRepair.Proofs.Keeping.Run
import OpalRepair.Proofs.Settling.Calm
import OpalRepair.Proofs.Settling.Marks
import OpalRepair.Proofs.Settling.Stages
import OpalRepair.Proofs.Settling.Flags
import OpalRepair.Proofs.Settling.Expanded
import OpalRepair.Proofs.Settling.Round
