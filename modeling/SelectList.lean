import SelectList.Json.Settings
import SelectList.Proofs.Accounts.Run
import SelectList.Proofs.Composition
import SelectList.Proofs.Freshness
import SelectList.Proofs.Callbacks
import SelectList.Proofs.Recency.Hits
import SelectList.Proofs.Rendering
import SelectList.Proofs.Route.Columns
import SelectList.Proofs.WellFormed
import SelectList.Source.Standard
import SelectList.Projector
import SelectList.Proofs.Exposure
import SelectList.Proofs.Route.Cuts
import SelectList.Proofs.Capacity
import SelectList.Proofs.Cycle
import SelectList.Proofs.Violations
import SelectList.Proofs.Derivable
import SelectList.Proofs.Stack
import SelectList.Proofs.Level
import SelectList.Proofs.Prefix
import SelectList.Proofs.Derivation
import SelectList.Proofs.Json.Lexing
import SelectList.Proofs.Json.RoundTrip
import SelectList.Proofs.Observers
import SelectList.Proofs.Derivation.Spelling
import SelectList.Proofs.Indirection
import SelectList.Proofs.SnakeCase.Stable
import SelectList.Proofs.Standard
import SelectList.Proofs.Tag
