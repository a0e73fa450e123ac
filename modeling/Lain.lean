import Lain.Federation.Durability
import Lain.Graph.WalCodec
import Lain.Snapshots.Residency
import Lain.Contracts.SurfaceConsumers
import Lain.Contracts.CoverageLedger
import Lain.Graph.ReplaceCallers
import Lain.Joiner.ConfirmedAlone
import Lain.Joiner.FieldCertainty
import Lain.Graph.ReadOnlyOpen
import Lain.Federation.ImpactPaths
import Lain.Graph.EdgeInterleaving
import Lain.Server.Lifecycle
import Lain.Server.OverlayInterleaving
import Lain.Server.ClaimsExact
import Lain.Server.EventsLogRuns
import Lain.Server.Reload
import Lain.Server.JobStore
import Lain.Server.RuntimeTrace
import Lain.Joiner.Assignment
import Lain.Contracts.UrlResolution
import Lain.Joiner.ProviderFacts
import Lain.Joiner.SchemaLinks
import Lain.Federation.MintRuns
import Lain.Sync
import Lain.Server.EnvSensor
import Lain.Server.GitCoverage
import Lain.Server.Watcher
import Lain.Server.SharedPresence
import Lain.Server.Coordination
import Lain.Server.Sidecar
import Lain.Query.Connect
import Lain.Contracts.FieldChanges
import Lain.Contracts.TemplateForm
import Lain.Snapshots.Mirrors
import Lain.Server.RateLimit
import Lain.Federation.LineSpans
import Lain.Server.SchemaRequired
import Lain.Query.Traversal
import Lain.Snapshots.Eviction
import Lain.Snapshots.PrepareInput
import Lain.Server.IntentNotes
import Lain.Server.AnnotationListing
import Lain.Server.Evaluation
import Lain.Server.PathContainment
import Lain.Server.LineIndexExactness
import Lain.Server.StrippingExactness
import Lain.Server.Codeowners
import Lain.Server.LspBreaker
import Lain.Server.WatchFilter
import Lain.Server.StreamFraming
import Lain.Server.HandleResolution
import Lain.Graph.Healing
import Lain.Server.AuditLogRuns
import Lain.Joiner.KindSafety
import Lain.Federation.RemovedRepos
import Lain.Federation.EdgeReconcile
import Lain.Ingest.StaticEdges
import Mathlib
