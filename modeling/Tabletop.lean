import Tabletop.Binary.Bits
import Tabletop.Main
import Tabletop.Reckoning
import Tabletop.Proofs.Kept
import Tabletop.Proofs.Consistency
import Tabletop.Proofs.Progress
import Tabletop.Proofs.Meaning
import Tabletop.Proofs.Chronicle
import Tabletop.Proofs.Counting
import Tabletop.Proofs.Accounts
import Tabletop.Proofs.Cancellation
import Tabletop.Proofs.LifeCycle
import Tabletop.Proofs.Lines
import Tabletop.Proofs.Splitting
import Tabletop.Proofs.Moment
import Tabletop.Proofs.Rounding
import Tabletop.Proofs.Timing
import Tabletop.Proofs.Attaining
import Tabletop.Proofs.Returning
import Tabletop.Proofs.Clock
import Tabletop.Proofs.Chronology
import Tabletop.Proofs.Pairing
import Tabletop.Proofs.Lapse
import Tabletop.Proofs.Numerals
import Tabletop.Proofs.Words
import Tabletop.Proofs.Grammar
import Tabletop.Proofs.Rereading
import Tabletop.Proofs.Tokens
import Tabletop.Proofs.Documents
import Tabletop.Proofs.Coding
import Tabletop.Proofs.Leftover
import Tabletop.Proofs.Placement
import Tabletop.Proofs.Edge
import Tabletop.Proofs.Addressing
import Tabletop.Proofs.Consecutive
import Tabletop.Proofs.Planning
import Tabletop.Proofs.Sessions
import Tabletop.Proofs.Walking
import Tabletop.Proofs.Commitment
import Tabletop.Proofs.Reports
import Tabletop.Proofs.Listings
import Tabletop.Proofs.Neighbours
import Tabletop.Proofs.Fractions
import Tabletop.Proofs.Heading
import Tabletop.Proofs.Keys
import Tabletop.Proofs.Overlay
