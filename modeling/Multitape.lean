import Multitape.Main
import Multitape.Machine.Operation
import Multitape.Proofs.Run
import Multitape.Proofs.Limit
import Multitape.Proofs.Trace
import Multitape.Proofs.Locality
import Multitape.Proofs.Tape
import Multitape.Proofs.History
import Multitape.Proofs.WellFormed
import Multitape.Proofs.Solid
import Multitape.Proofs.Settings
import Multitape.Proofs.Proper
import Multitape.Proofs.Simulation
import Multitape.Proofs.Diagnostic
import Multitape.Proofs.Reachable
import Multitape.Proofs.DeadRules
import Multitape.Proofs.StateFindings
import Multitape.Proofs.ForeignInput
import Multitape.Proofs.Sections
import Multitape.Proofs.Spelling
import Multitape.Proofs.Reader
import Multitape.Proofs.SpelledValues
import Multitape.Proofs.SpelledLines
import Multitape.Proofs.ListValues
import Multitape.Proofs.Views
import Multitape.Proofs.Catalog
import Multitape.Proofs.ZeroNOneN
import Multitape.Proofs.ZeroNOneNZeroN
import Multitape.Proofs.Refusal
import Multitape.Proofs.Window
import Multitape.Proofs.ByteLines
import Multitape.Proofs.Printed
import Multitape.Proofs.Inputs
import Multitape.Proofs.Messages
import Multitape.Proofs.LineLayout
import Multitape.Proofs.WrittenForms
import Multitape.Proofs.AssignmentOrder
import Multitape.Proofs.ReportNumbers
import Multitape.Proofs.StartFinding
import Multitape.Proofs.Drawing
import Multitape.Proofs.QuotedValues
import Multitape.Proofs.IdleRules
import Multitape.Proofs.Brackets
import Multitape.Proofs.OpenValues
import Multitape.Proofs.Paths
import Multitape.Proofs.Loading
import Multitape.Proofs.Columns
import Multitape.Proofs.Growth
