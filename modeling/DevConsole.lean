import DevConsole.Frame
import DevConsole.Proofs.Run.Law
import DevConsole.Proofs.Run.Printed
import DevConsole.Proofs.Run.Submission
import DevConsole.Proofs.Pipeline.Filter
import DevConsole.Proofs.Pipeline.Typed
import DevConsole.Proofs.Pipeline.Stages
import DevConsole.Proofs.Pipeline.Run
import DevConsole.Proofs.Table.Trie
import DevConsole.Proofs.Table.Registry
import DevConsole.Proofs.Table.Map
import DevConsole.Proofs.Table.Variables
import DevConsole.Proofs.Table.History
import DevConsole.Proofs.Config.Loading
import DevConsole.Proofs.Config.Scan
import DevConsole.Proofs.Config.Writing
import DevConsole.Proofs.Disk.Written
import DevConsole.Proofs.Config.RoundTrip
import DevConsole.Proofs.Run.Kept
import DevConsole.Proofs.Run.Reachable
import DevConsole.Proofs.Run.Names
import DevConsole.Proofs.Run.Obeying
import DevConsole.Proofs.Run.Nesting
import DevConsole.Proofs.Run.Termination
import DevConsole.Proofs.Run.Changes
import DevConsole.Proofs.Run.Captured
import DevConsole.Proofs.Run.Recorded
import DevConsole.Proofs.Script.RoundTrip
import DevConsole.Proofs.Run.Echoed
import DevConsole.Proofs.Run.Sequencing
import DevConsole.Proofs.Run.Expansion
import DevConsole.Proofs.Table.Handles
import DevConsole.Proofs.Config.Rendering
import DevConsole.Proofs.Editor.Sides
import DevConsole.Proofs.Run.Queues
import DevConsole.Proofs.Frame.Delivery
import DevConsole.Proofs.Config.Assigning
import DevConsole.Proofs.Run.Registration
import DevConsole.Proofs.Run.Listings
import DevConsole.Proofs.Config.Seam
import DevConsole.Proofs.Disk.Appended
import DevConsole.Proofs.Config.Appending
import DevConsole.Proofs.Config.LeftOpen
import DevConsole.Proofs.Number.RoundTrip
import DevConsole.Proofs.Variable.Reset
import DevConsole.Proofs.Editor.Candidates
import DevConsole.Proofs.Editor.Cuts
import DevConsole.Proofs.Number.Saturation
import DevConsole.Proofs.Number.Numeral
import DevConsole.Proofs.Run.TablesReachable
import DevConsole.Proofs.Editor.Completing
import DevConsole.Proofs.Editor.Circle
import DevConsole.Proofs.Config.Pieces
import DevConsole.Proofs.Config.Lines
import DevConsole.Proofs.Run.Leads
