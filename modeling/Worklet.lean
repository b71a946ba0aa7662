import Worklet.Command.Files
import Worklet.Main
import Worklet.Proofs.Canonical.Erasure
import Worklet.Proofs.Canonical.Hash
import Worklet.Proofs.Config
import Worklet.Proofs.Convert.Closed
import Worklet.Proofs.Convert.Comments
import Worklet.Proofs.Convert.Described
import Worklet.Proofs.Convert.Detection
import Worklet.Proofs.Convert.Members
import Worklet.Proofs.Convert.Splicing
import Worklet.Proofs.Convert.Unmarked
import Worklet.Proofs.Convert.Untouched
import Worklet.Proofs.Convert.Verdicts
import Worklet.Proofs.Expectation
import Worklet.Proofs.Scope.Arena
import Worklet.Proofs.Scope.Conformity
import Worklet.Proofs.Scope.Order
