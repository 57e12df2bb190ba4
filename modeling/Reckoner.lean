import Reckoner.Main
import Reckoner.Number.Interchange
import Reckoner.Proofs.Nearest
import Reckoner.Proofs.Cuts
import Reckoner.Proofs.Reading
import Reckoner.Proofs.Stages
import Reckoner.Proofs.Headroom
import Reckoner.Proofs.Outcomes
import Reckoner.Proofs.ReadBack
import Reckoner.Proofs.Rejections
import Reckoner.Proofs.Events
import Reckoner.Proofs.Parts
import Reckoner.Proofs.Canonical
import Reckoner.Proofs.Transcript
import Reckoner.Proofs.Acceptance
import Reckoner.Proofs.Arithmetic
import Reckoner.Proofs.Rounding
import Reckoner.Proofs.Quotients
import Reckoner.Proofs.Symmetry
import Reckoner.Proofs.Undoing
import Reckoner.Proofs.Blanks
import Reckoner.Proofs.Separators
import Reckoner.Proofs.Limits
import Reckoner.Proofs.Traps
import Reckoner.Proofs.FrontEnds
import Reckoner.Proofs.Logs
import Reckoner.Proofs.Runs
import Reckoner.Proofs.Assembly
import Reckoner.Proofs.Order
import Reckoner.Proofs.Operands
import Reckoner.Proofs.Mirrors
import Reckoner.Proofs.Rescaling
import Reckoner.Proofs.Texts
import Reckoner.Proofs.Grouping
