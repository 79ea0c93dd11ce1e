import DialectTypes.Adapter.Dependencies
import DialectTypes.Adapter.Json
import DialectTypes.Adapter.Lookup
import DialectTypes.Adapter.Validation
import DialectTypes.DefaultAdapter
import DialectTypes.Json.Written
import DialectTypes.Options.Toml
import DialectTypes.Proofs.AliasedNeeds
import DialectTypes.Proofs.AlikeDocuments
import DialectTypes.Proofs.CanonicalText
import DialectTypes.Proofs.ChangeLog
import DialectTypes.Proofs.Closedness
import DialectTypes.Proofs.Composition
import DialectTypes.Proofs.CycleReport
import DialectTypes.Proofs.Defects
import DialectTypes.Proofs.Dependencies
import DialectTypes.Proofs.Emission
import DialectTypes.Proofs.EveryNode
import DialectTypes.Proofs.Formats
import DialectTypes.Proofs.OptionReading
import DialectTypes.Proofs.Override
import DialectTypes.Proofs.PropertyOrder
import DialectTypes.Proofs.Resolution
import DialectTypes.Proofs.Respelling
import DialectTypes.Proofs.RoundTrip
import DialectTypes.Proofs.SafeChanges
import DialectTypes.Proofs.Spelling
import DialectTypes.Proofs.Splitting
import DialectTypes.Proofs.StepCounts
import DialectTypes.Proofs.Surfacing
import DialectTypes.Proofs.Unrecognized
import DialectTypes.Proofs.WalkOrder
import DialectTypes.Proofs.WrittenOptions
