import NameRegistry.Registry.Command
import NameRegistry.Dialect.Presets
import NameRegistry.Dialect.Listing
import NameRegistry.Stored.Tables
import NameRegistry.Proofs.Setup
import NameRegistry.Proofs.Review
import NameRegistry.Proofs.Choice
import NameRegistry.Proofs.Assignment
import NameRegistry.Proofs.Reachable
import NameRegistry.Proofs.Refusal
import NameRegistry.Proofs.Uniqueness
import NameRegistry.Proofs.Stability
import NameRegistry.Proofs.Greedy
import NameRegistry.Proofs.VerbatimLabel
import NameRegistry.Proofs.WellFormed
import NameRegistry.Proofs.Separation
import NameRegistry.Proofs.Builtins
import NameRegistry.Proofs.Lookup
import NameRegistry.Proofs.Layout
import NameRegistry.Proofs.Interning
import NameRegistry.Proofs.VerbatimFamily
import NameRegistry.Proofs.Footprint
import NameRegistry.Proofs.Bounds
import NameRegistry.Proofs.Room
import NameRegistry.Proofs.Registration
import NameRegistry.Proofs.Declarations
import NameRegistry.Proofs.SetupLabels
import NameRegistry.Proofs.SharedLabels
import NameRegistry.Proofs.TypeTable
import NameRegistry.Proofs.OperationTables
import NameRegistry.Proofs.Reservation
import NameRegistry.Proofs.AppendOnly
import NameRegistry.Proofs.Records
import NameRegistry.Proofs.VerbatimContract
import NameRegistry.Proofs.CursorWalk
import NameRegistry.Proofs.LastDeclaration
