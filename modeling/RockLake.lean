import RockLake.System.Fencing
import RockLake.Catalog.PgMigrate
import RockLake.System.SnapshotIds
import RockLake.System.Initialization
import RockLake.PgWire.Extensions
import RockLake.PgWire.Updates
import RockLake.PgWire.Retirements
import RockLake.PgWire.Persistence
import RockLake.PgWire.LiteralTexts
import RockLake.Catalog.SessionEffect
import RockLake.System.Collection
import RockLake.PgWire.ChangeFeed
import RockLake.PgWire.Rollback
import RockLake.System.Bootstrap
import RockLake.Catalog.Cleanup
import RockLake.Catalog.Streaming
import RockLake.Catalog.RoundTrip
import RockLake.Catalog.Retry
import RockLake.PgWire.RowIds
import RockLake.System.Endpoint
import RockLake.Catalog.Intervals
import RockLake.Catalog.Pruning
import RockLake.Catalog.FileRanges
import RockLake.PgWire.InlinedRows
import RockLake.Catalog.Tailing
import RockLake.Catalog.Cascade
import RockLake.Catalog.ColumnVersions
import RockLake.Catalog.SchemaHistory
import RockLake.Catalog.Tags
import RockLake.PgWire.Scram
import RockLake.PgWire.SnapshotQueries
import RockLake.PgWire.CopyOut
import RockLake.PgWire.Notifications
import RockLake.Sql.TableReferences
import RockLake.Catalog.Numbers
import RockLake.Catalog.Diagnosis
import RockLake.Client.Listings
import RockLake.Catalog.DryRun
import RockLake.Catalog.Paths
import RockLake.Catalog.Rebuild
import RockLake.Sql.QuotedNames
import RockLake.Catalog.Encryption
import RockLake.Catalog.Continuity
import RockLake.Core.KeyBytes
import RockLake.System.Clients
