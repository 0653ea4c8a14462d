import Arbor.Handle
import Arbor.Main
import Arbor.Mutation
import Arbor.Proofs.Allocation
import Arbor.Proofs.Atomicity
import Arbor.Proofs.Buildable
import Arbor.Proofs.Built
import Arbor.Proofs.Completeness
import Arbor.Proofs.Copy
import Arbor.Proofs.Effect
import Arbor.Proofs.Extension
import Arbor.Proofs.Handles
import Arbor.Proofs.InRange
import Arbor.Proofs.Independence
import Arbor.Proofs.Insertion
import Arbor.Proofs.Locality
import Arbor.Proofs.RawForm
import Arbor.Proofs.Reached
import Arbor.Proofs.Recursion
import Arbor.Proofs.References
import Arbor.Proofs.Renumbering
import Arbor.Proofs.Required
import Arbor.Proofs.Serialized
import Arbor.Proofs.Shape
import Arbor.Proofs.Stepwise
import Arbor.Proofs.Symbols
import Arbor.Proofs.Traversal
import Arbor.Proofs.TypeExpr
import Arbor.Proofs.Validity
