import Arco.Flow.Planning
import Arco.Flow.Cancellation
import Arco.Flow.Durability
import Arco.Core.Fencing
import Arco.Flow.Rebuild
import Arco.Delta.Log
import Arco.Catalog.Snapshots
import Arco.Catalog.Batching
import Arco.Catalog.AntiEntropy
import Arco.Catalog.Application
import Arco.Authz.Decision
import Arco.Iceberg.WellFormed
import Arco.Governance.Vending
import Arco.Metastore.Completeness
import Arco.Governance.Creation
import Arco.Flow.Timers
import Arco.Flow.Backfills
import Arco.Flow.Projection
import Arco.Flow.Redispatch
import Arco.Flow.RunKeys
import Arco.Core.ScopedStorage
