import Retrace.Machine.Direct
import Retrace.Reader.Display
import Retrace.Session
import Retrace.Proofs.Operator.Grouping
import Retrace.Proofs.Token.Items
import Retrace.Proofs.Token.Shown
import Retrace.Proofs.Reader.Climbing
import Retrace.Proofs.Reader.RoundTrip
import Retrace.Proofs.Reader.WellFormed
import Retrace.Proofs.Reader.Concatenation
import Retrace.Proofs.Reader.Broken
import Retrace.Proofs.Value.Display
import Retrace.Proofs.Machine.Enumeration
import Retrace.Proofs.Machine.Limit
import Retrace.Proofs.Machine.Undoing
import Retrace.Proofs.Machine.Uniform
import Retrace.Proofs.Machine.Choices
import Retrace.Proofs.Machine.Withdrawal
import Retrace.Proofs.Machine.WellFormed
import Retrace.Proofs.Machine.Places
import Retrace.Proofs.Machine.Data
import Retrace.Proofs.Session.Concatenation
import Retrace.Proofs.Session.Display
import Retrace.Proofs.Session.Arithmetic
import Retrace.Proofs.Session.Countdown
import Retrace.Proofs.Reader.Calls
import Retrace.Proofs.Reader.Recovery
import Retrace.Proofs.Reader.Sealed
import Retrace.Proofs.Reader.Semicolons
import Retrace.Proofs.Reader.Separators
import Retrace.Proofs.Reader.Leaves
import Retrace.Proofs.Reader.Places
import Retrace.Proofs.Token.Layout
import Retrace.Proofs.Session.Layout
import Retrace.Proofs.Machine.Naming
import Retrace.Proofs.Machine.Scoping
import Retrace.Proofs.Session.Operators
import Retrace.Proofs.Session.Renumbering
import Retrace.Proofs.Reader.Display
import Retrace.Proofs.Token.Tiling
import Retrace.Proofs.Reader.Earliest
import Retrace.Proofs.Reader.Progress
import Retrace.Proofs.Machine.Lookup
import Retrace.Proofs.Machine.TailCalls
import Retrace.Proofs.Text.Distance
import Retrace.Proofs.Report.Snippet
import Retrace.Proofs.Reader.Spans
import Retrace.Proofs.Report.Suggestion
import Retrace.Proofs.Machine.Numbering
import Retrace.Proofs.Reader.Lookahead
