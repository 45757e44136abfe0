import Formulary.Main
import Formulary.Proofs.Backends
import Formulary.Proofs.Canonical
import Formulary.Proofs.Mentions
import Formulary.Proofs.Nesting
import Formulary.Proofs.PlainValues
import Formulary.Proofs.Priorities
import Formulary.Proofs.Resolution
import Formulary.Proofs.Strictness
import Formulary.Proofs.Positions
import Formulary.Proofs.Room
import Formulary.Proofs.Stumbles
import Formulary.Proofs.Failures
import Formulary.Proofs.Backtracking
import Formulary.Proofs.Slices
import Formulary.Proofs.Navigation
import Formulary.Proofs.Replay
import Formulary.Proofs.Spines
import Formulary.Proofs.Viability
import Formulary.Proofs.Termination
import Formulary.Proofs.Constants
import Formulary.Proofs.Transparency
import Formulary.Proofs.Slots
import Formulary.Proofs.Cache
import Formulary.Proofs.Extremes
import Formulary.Proofs.Comparisons
import Formulary.Proofs.Remainder
import Formulary.Proofs.Clamping
import Formulary.Proofs.Scanning
import Formulary.Proofs.Spacing
import Formulary.Proofs.Conversion
import Formulary.Proofs.Containers
import Formulary.Proofs.Documents
