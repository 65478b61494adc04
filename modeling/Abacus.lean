import Abacus.Batch
import Abacus.Proofs.Domain
import Abacus.Proofs.Fault
import Abacus.Proofs.Misfit
import Abacus.Proofs.Position
import Abacus.Proofs.Renaming
import Abacus.Proofs.RoundTrip
import Abacus.Proofs.Substitution
import Abacus.Proofs.Tolerance
import Abacus.Proofs.Finality
import Abacus.Proofs.Spacing
import Abacus.Proofs.ZeroSign
import Abacus.Proofs.Batch
import Abacus.Proofs.Words
import Abacus.Proofs.Nesting
import Abacus.Proofs.Closure
import Abacus.Proofs.FirstFailure
import Abacus.Proofs.Location
import Abacus.Proofs.Numbers
import Abacus.Proofs.Readability
import Abacus.Proofs.Chain
import Abacus.Proofs.Internal
import Abacus.Proofs.Trace
import Abacus.Proofs.Validation
