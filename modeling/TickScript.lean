import TickScript.Host.Describe
import TickScript.Main
import TickScript.Tree.Listing
import TickScript.Proofs.Bound
import TickScript.Proofs.Callees
import TickScript.Proofs.Sessions
import TickScript.Proofs.Changes
import TickScript.Proofs.Parsing
import TickScript.Proofs.Recompile
import TickScript.Proofs.Soundness
import TickScript.Proofs.Authority
import TickScript.Proofs.Closures
import TickScript.Proofs.Tiling
import TickScript.Proofs.OnlyCalled
import TickScript.Proofs.Signals
import TickScript.Proofs.Redefinition
import TickScript.Proofs.HostNames
import TickScript.Proofs.DeclaredTypes
import TickScript.Proofs.Recovery
import TickScript.Proofs.Scopes
import TickScript.Proofs.CurrentScope
import TickScript.Proofs.Spacing
import TickScript.Proofs.Progress.Positions
import TickScript.Proofs.Integers
import TickScript.Proofs.Equality
import TickScript.Proofs.Numbering
import TickScript.Proofs.Hoisting
import TickScript.Proofs.Printing
import TickScript.Proofs.Integral
