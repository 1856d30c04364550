import ThreeAddress.Checked.Write
import ThreeAddress.Generator.Request
import ThreeAddress.Main
import ThreeAddress.Proofs.Except
import ThreeAddress.Proofs.Code.Labels
import ThreeAddress.Proofs.Control.Outline
import ThreeAddress.Proofs.Lowering.Closed
import ThreeAddress.Proofs.Control.Layout
import ThreeAddress.Proofs.Program.Labels
import ThreeAddress.Proofs.Code.Shift
import ThreeAddress.Proofs.Lowering.Parallel
import ThreeAddress.Proofs.Lowering.Safety
import ThreeAddress.Proofs.Program.Independence
import ThreeAddress.Proofs.Machine.Basic
import ThreeAddress.Proofs.Machine.Evaluation
import ThreeAddress.Proofs.Machine.Realise
import ThreeAddress.Proofs.Machine.Fragment
import ThreeAddress.Proofs.Machine.Expression
import ThreeAddress.Proofs.Control.Execution
import ThreeAddress.Proofs.Lowering.Mention
import ThreeAddress.Proofs.Machine.Embedding
import ThreeAddress.Proofs.Control.Footprint
import ThreeAddress.Proofs.Control.Simulation
import ThreeAddress.Proofs.Control.Rounds
import ThreeAddress.Proofs.Program.Linearisation
import ThreeAddress.Proofs.Lowering.Audit
import ThreeAddress.Proofs.Program.Defects
import ThreeAddress.Proofs.Control.Bounds
import ThreeAddress.Proofs.Control.Cursor
import ThreeAddress.Proofs.Machine.Division
import ThreeAddress.Proofs.Control.Site
import ThreeAddress.Proofs.Control.Survey
import ThreeAddress.Proofs.Control.Access
import ThreeAddress.Proofs.Control.Inventory
import ThreeAddress.Proofs.Control.Coverage
import ThreeAddress.Proofs.Program.Faults
import ThreeAddress.Proofs.Program.Division
import ThreeAddress.Proofs.Program.Bounds
import ThreeAddress.Proofs.Control.Variables
import ThreeAddress.Proofs.Program.Temporaries
import ThreeAddress.Proofs.Code.Flow
import ThreeAddress.Proofs.Lowering.Supply
import ThreeAddress.Proofs.Program.Supply
import ThreeAddress.Proofs.Code.Group
import ThreeAddress.Proofs.Lowering.Calls
import ThreeAddress.Proofs.Control.Calls
import ThreeAddress.Proofs.Program.Calls
import ThreeAddress.Proofs.Text.Quoted
import ThreeAddress.Proofs.Code.Listing
import ThreeAddress.Proofs.Json.Lexing
import ThreeAddress.Proofs.Json.Parsing
import ThreeAddress.Proofs.Json.Reading
import ThreeAddress.Proofs.Json.Source
import ThreeAddress.Proofs.Json.Spelling
import ThreeAddress.Proofs.Checked.RoundTrip
import ThreeAddress.Proofs.Checked.Spelling
import ThreeAddress.Proofs.Checked.Bare
import ThreeAddress.Proofs.Lowering.Echo
import ThreeAddress.Proofs.Program.Annotations
import ThreeAddress.Proofs.Lowering.Trace
import ThreeAddress.Proofs.Program.Trace
import ThreeAddress.Proofs.Command.Log
import ThreeAddress.Proofs.Command.Verdict
import ThreeAddress.Proofs.Checked.Hierarchy
import ThreeAddress.Proofs.Machine.Cast
import ThreeAddress.Proofs.Command.Files
import ThreeAddress.Proofs.Command.Effects
import ThreeAddress.Proofs.Machine.Allocation
import ThreeAddress.Proofs.Machine.Copies
import ThreeAddress.Proofs.Generator.History
import ThreeAddress.Proofs.Generator.Session
