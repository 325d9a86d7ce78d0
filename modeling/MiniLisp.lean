import MiniLisp.CommandLine.Outcome
import MiniLisp.Main
import MiniLisp.Proofs.Eval.Context
import MiniLisp.Proofs.Eval.Meaning
import MiniLisp.Proofs.RoundTrip
import MiniLisp.Proofs.Eval.Blame
import MiniLisp.Proofs.Token.Faults
import MiniLisp.Proofs.Token.Positions
import MiniLisp.Proofs.Reader.Nesting
import MiniLisp.Proofs.Token.Cut
import MiniLisp.Proofs.Reader.Completion
import MiniLisp.Proofs.Primitive.Call
import MiniLisp.Proofs.Eval.Origin
import MiniLisp.Proofs.Reader.Backtracking
import MiniLisp.Proofs.Reader.Composition
import MiniLisp.Proofs.Reader.Expressible
import MiniLisp.Proofs.Eval.Transparency
import MiniLisp.Proofs.Reader.Layout
import MiniLisp.Proofs.CommandLine.Invocation
import MiniLisp.Proofs.Token.Diagnosis
import MiniLisp.Proofs.Reader.Earliest
import MiniLisp.Proofs.Primitive.Precedence
import MiniLisp.Proofs.Eval.Settling
import MiniLisp.Proofs.Rereading
import MiniLisp.Proofs.Primitive.TextOrder
import MiniLisp.Proofs.Decimal
import MiniLisp.Proofs.Primitive.Chains
import MiniLisp.Proofs.Primitive.Integers
import MiniLisp.Proofs.Primitive.Grouping
import MiniLisp.Proofs.Primitive.Remainders
import MiniLisp.Proofs.Reader.Descent
import MiniLisp.Proofs.Reader.Accounting
import MiniLisp.Proofs.Token.Tracking
