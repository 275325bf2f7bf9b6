import LogCatalog.ActiveController
import LogCatalog.Bench
import LogCatalog.Cache
import LogCatalog.Cache.Timeline
import LogCatalog.Catalog
import LogCatalog.Catalog.Schedule
import LogCatalog.Catalog.Session
import LogCatalog.Clockwork
import LogCatalog.Counters
import LogCatalog.Decimal.Shortest
import LogCatalog.Error
import LogCatalog.Fetch
import LogCatalog.FetchError
import LogCatalog.Json.Basic
import LogCatalog.Json.Numeral
import LogCatalog.Json.Reader
import LogCatalog.Json.Writer
import LogCatalog.Key
import LogCatalog.Log.Event
import LogCatalog.Log.Threshold
import LogCatalog.Pool
import LogCatalog.Pool.Schedule
import LogCatalog.Registry
import LogCatalog.Registry.Desk
import LogCatalog.Remote
import LogCatalog.Remote.Script
import LogCatalog.Settings.Assignment
import LogCatalog.Settings.Basic
import LogCatalog.Settings.Configuration
import LogCatalog.Settings.Direct
import LogCatalog.Settings.Environment
import LogCatalog.Settings.Error
import LogCatalog.Settings.File
import LogCatalog.Startup.Launch
import LogCatalog.Startup.Surroundings
import LogCatalog.Text.Blank
import LogCatalog.Text.Digit
import LogCatalog.Workspace
import LogCatalog.Yaml.Node
import LogCatalog.Yaml.Read
import LogCatalog.Yaml.Scalar.Block
import LogCatalog.Yaml.Scalar.Meaning
import LogCatalog.Yaml.Scalar.Quoted
import LogCatalog.Yaml.Scalar.Unquoted
import LogCatalog.Yaml.Scan
import LogCatalog.Yaml.Spot
import LogCatalog.Yaml.Tag
import LogCatalog.Yaml.Token
import LogCatalog.Yaml.Tokens
import LogCatalog.Yaml.Value
import LogCatalog.Proofs.Cache.Fill
import LogCatalog.Proofs.Registry.Rulings
import LogCatalog.Proofs.Workspace.Finish
import LogCatalog.Proofs.Pool.Step
import LogCatalog.Proofs.Pool.Outstanding
import LogCatalog.Proofs.Catalog.History
import LogCatalog.Proofs.Catalog.LookUp
import LogCatalog.Proofs.Catalog.Act
import LogCatalog.Proofs.Catalog.Sound
import LogCatalog.Proofs.Catalog.Traffic
import LogCatalog.Proofs.Catalog.Breaker
import LogCatalog.Proofs.Catalog.InFlight
import LogCatalog.Proofs.Catalog.Recall
import LogCatalog.Proofs.Catalog.Batch
import LogCatalog.Proofs.Catalog.Stopped
import LogCatalog.Proofs.Catalog.Accounts
import LogCatalog.Proofs.Pool.Permits
import LogCatalog.Proofs.Pool.Shift
import LogCatalog.Proofs.Pool.Deadline
import LogCatalog.Proofs.Pool.Order
import LogCatalog.Proofs.Pool.Loss
import LogCatalog.Proofs.Catalog.Stranded
import LogCatalog.Proofs.Catalog.Settled
import LogCatalog.Proofs.Cache.Archive
import LogCatalog.Proofs.Cache.LastWrite
import LogCatalog.Proofs.Json.Canonical
import LogCatalog.Proofs.Settings.Fields
import LogCatalog.Proofs.Settings.Sources
import LogCatalog.Proofs.Settings.Layers
import LogCatalog.Proofs.Catalog.Sweeps
import LogCatalog.Proofs.Workspace.Course
import LogCatalog.Proofs.Catalog.Apart
import LogCatalog.Proofs.Catalog.Unnoticed
import LogCatalog.Proofs.Cache.Interrupted
import LogCatalog.Proofs.Cache.Unordered
import LogCatalog.Proofs.Registry.Failures
import LogCatalog.Proofs.Registry.Markers
import LogCatalog.Proofs.Catalog.Lifecycle
import LogCatalog.Proofs.Catalog.Refused
import LogCatalog.Proofs.Catalog.Remembered
import LogCatalog.Proofs.Settings.Readers
import LogCatalog.Proofs.Key.WellFormed
import LogCatalog.Proofs.Settings.Variables
import LogCatalog.Proofs.Catalog.Opening
import LogCatalog.Proofs.Clockwork.Rest
import LogCatalog.Proofs.Bench.Tickets
import LogCatalog.Proofs.Bench.Rest
