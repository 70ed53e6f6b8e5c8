import TensorEval.Main
import TensorEval.Proofs.Case.Reload
import TensorEval.Proofs.Run.Form
import TensorEval.Proofs.Run.Limit
import TensorEval.Proofs.Run.Storage
import TensorEval.Proofs.Run.Acceptance
import TensorEval.Proofs.Float.Exact
import TensorEval.Proofs.Json.Layout
import TensorEval.Proofs.Run.Slice
import TensorEval.Proofs.Tensor.Report
import TensorEval.Proofs.Command.Arguments
import TensorEval.Proofs.Command.Directory
import TensorEval.Proofs.Command.Report
import TensorEval.Proofs.Tensor.Elementwise
import TensorEval.Proofs.Tensor.Selection
import TensorEval.Proofs.Tensor.Narrowing
import TensorEval.Proofs.Attribute.Splat
import TensorEval.Proofs.Tensor.Literal
import TensorEval.Proofs.Kernel.Elementwise
import TensorEval.Proofs.Case.WellFormed
import TensorEval.Proofs.Case.Wiring
import TensorEval.Proofs.Run.Failure
import TensorEval.Proofs.Attribute.Untyped
import TensorEval.Proofs.Attribute.Listed
import TensorEval.Proofs.Attribute.Bits
import TensorEval.Proofs.Attribute.ListLiteral
import TensorEval.Proofs.Tensor.Widening
import TensorEval.Proofs.Tensor.Text
import TensorEval.Proofs.Run.Bits
import TensorEval.Proofs.Tensor.Bytes
import TensorEval.Proofs.Tensor.Constant
import TensorEval.Proofs.Attribute.Items
import TensorEval.Proofs.Attribute.RowMajor
