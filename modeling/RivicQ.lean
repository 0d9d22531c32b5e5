import RivicQ.Properties.Profile
import RivicQ.Properties.Rotation
import RivicQ.Properties.Reuse
import RivicQ.Properties.Eviction
import RivicQ.Properties.Disablement
import RivicQ.Properties.Enrolment
import RivicQ.Properties.Consumption
import RivicQ.Properties.Routes
import RivicQ.Properties.Viewers
import RivicQ.Properties.Gate
import RivicQ.Properties.Sockets
import RivicQ.Properties.Agreement
import RivicQ.Properties.Confinement
import RivicQ.Properties.Endpoints
import RivicQ.Properties.Estates
import RivicQ.Properties.Reading
import RivicQ.Properties.Tenants
import RivicQ.Properties.Excludes
import RivicQ.Properties.Verdicts
import RivicQ.Properties.Dedup
import RivicQ.Properties.Administrators
import RivicQ.Properties.Replays
import RivicQ.Properties.Indexes
import RivicQ.Properties.Overlaps
import RivicQ.Properties.Fabrication
import RivicQ.Properties.Isolation
import RivicQ.Properties.Writes
import RivicQ.Properties.Payments
import RivicQ.Properties.States
import RivicQ.Properties.APIKeys
import RivicQ.Properties.IntelHex
import RivicQ.Properties.Encodings
import RivicQ.Properties.Containers
import RivicQ.Properties.Extraction
import RivicQ.Properties.Comparisons
import RivicQ.Properties.KeyNames
import RivicQ.Properties.Readiness
import RivicQ.Properties.Attestations
import RivicQ.Properties.Exports
import RivicQ.Properties.ScanJobs
import RivicQ.Properties.GoMods
import RivicQ.Properties.Manifests
import RivicQ.Properties.Graphs
import RivicQ.Properties.Migration
import RivicQ.Properties.Lifecycle
import RivicQ.Properties.Editions
import RivicQ.Properties.Configuration
import RivicQ.Properties.Windows
import RivicQ.Properties.Members
import RivicQ.Properties.Retries
import RivicQ.Properties.Resumption
import RivicQ.Properties.Aggregation
import RivicQ.Properties.Secrets
import RivicQ.Properties.Partition
import RivicQ.Properties.WeakKeys
import RivicQ.Properties.Priorities
import RivicQ.Properties.Discretion
import RivicQ.Properties.FileOrders
import RivicQ.Properties.ScanRuns
import RivicQ.Properties.Failures
import RivicQ.Properties.Completions
import RivicQ.Properties.Projects
import RivicQ.Properties.CargoLocks
import RivicQ.Properties.Caps
import RivicQ.Properties.DialStrings
import RivicQ.Properties.Redirects
import RivicQ.Properties.Merges
import RivicQ.Properties.Checksums
import RivicQ.Properties.Identities
import RivicQ.Properties.KeyPairs
import RivicQ.Properties.Plugins
import RivicQ.Properties.Risks
import RivicQ.Properties.RateLimits
import RivicQ.Properties.Detections
import RivicQ.Properties.Threats
import RivicQ.Properties.WebhookUpdates
import RivicQ.Properties.Drift
import RivicQ.Properties.ScanStreams
import RivicQ.Properties.StoredRows
import RivicQ.Properties.Redactions
