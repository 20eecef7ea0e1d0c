import Tio.Shadow.NullFree
import Tio.Shadow.Convergence
import Tio.Shadow.History
import Tio.Shadow.Interleaving
import Tio.Thing.Acl
import Tio.Job.Deadlock
import Tio.Job.Terminal
import Tio.Job.Forgotten
import Tio.Job.TaskEnd
import Tio.Job.Conservation
import Tio.Presence.Startup
import Tio.Presence.Order
import Tio.Presence.Cache
import Tio.Thing.Publisher
import Tio.Presence.Isolation
import Tio.Auth.Revoke
import Tio.Rule.Delivery
import Tio.Presence.Retained
import Tio.Presence.NilTime
import Tio.Job.Home
import Tio.Job.Once
import Tio.Shadow.Wakeup
import Tio.Shadow.Link
import Tio.Job.Withdrawn
import Tio.Job.Restart
import Tio.Shadow.Twice
import Tio.Shadow.DeltaMeaning
import Tio.Shadow.Sharing
import Tio.Job.Sweep
import Tio.Job.Drain
import Tio.Job.Delete
import Tio.Job.RateLimit
import Tio.Shadow.Projection
import Tio.Thing.Query
import Tio.Web.Agreement
import Tio.Job.Steady
import Tio.Job.Window
import Tio.Thing.Lifecycle
import Tio.Thing.Batch
import Tio.Mqtt.Client
import Tio.Topic.Match
import Tio.Rule.Boot
import Tio.Rule.Sink
import Tio.Job.Valid
import Tio.Job.Stranded
import Tio.Sql.RoundTrip
import Tio.Presence.Init
