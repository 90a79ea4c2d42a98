import Formulary.Destination.Cache
import Formulary.Expr.Construct
import Formulary.Expr.Message
import Formulary.Expr.Parser
import Formulary.Expr.Sequence
import Formulary.GoldenCase
import Formulary.Log
import Formulary.Program.Trace
import Formulary.Proofs.Expr.Message
import Formulary.Proofs.Expr.PrintParse
import Formulary.Proofs.Program.Meaning
import Formulary.Proofs.Program.Message
import Formulary.Session
import Formulary.Proofs.Token.Grammar
import Formulary.Proofs.Form.Balance
import Formulary.Proofs.Destination.Basic
import Formulary.Proofs.Destination.Step
import Formulary.Proofs.Destination.Fuel
import Formulary.Proofs.Destination.Conformance
import Formulary.Proofs.Number.Order
import Formulary.Proofs.Expr.Written
import Formulary.Proofs.Number.Whole
import Formulary.Proofs.Expr.Canonical
import Formulary.Proofs.Program.Conditional
import Formulary.Proofs.Program.ReadBack
import Formulary.Proofs.Form.Failure
import Formulary.Proofs.Expr.Failure
import Formulary.Proofs.Expr.Fault
import Formulary.Proofs.Program.Grammar
import Formulary.Proofs.Destination.Source
import Formulary.Proofs.Destination.Termination
import Formulary.Proofs.Expr.Grammar
import Formulary.Proofs.Message.Codec
import Formulary.Proofs.Program.Source
import Formulary.Proofs.Position
import Formulary.Proofs.Token.Concatenation
import Formulary.Proofs.Form.Reader
import Formulary.Proofs.Form.Requests
import Formulary.Proofs.Expr.Built
import Formulary.Proofs.Form.Concatenation
import Formulary.Proofs.Environment
import Formulary.Proofs.Evaluation.Arithmetic
import Formulary.Proofs.Standard
import Formulary.Proofs.Evaluation.Integer
import Formulary.Proofs.Program.Fault
import Formulary.Proofs.Program.Trace
import Formulary.Proofs.Destination.Window
import Formulary.Proofs.Equality
import Formulary.Proofs.Expr.Placement
import Formulary.Proofs.Evaluation.Fault
import Formulary.Proofs.Expr.Conversion
import Formulary.Proofs.Form.Order
import Formulary.Proofs.Program.Placement
import Formulary.Proofs.Number.Exact
import Formulary.Proofs.Destination.Registry
import Formulary.Proofs.Form.Unit
import Formulary.Proofs.Native
import Formulary.Proofs.Destination.Cache
import Formulary.Proofs.GoldenCase
import Formulary.Proofs.Number.Nest
import Formulary.Proofs.Settings
