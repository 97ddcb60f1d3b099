import Gopherd.Config.Exclude
import Gopherd.Config.Scheduled
import Gopherd.Control.Address
import Gopherd.Cron.Exact
import Gopherd.Daemon.Accept
import Gopherd.Daemon.Cascade
import Gopherd.Daemon.CheckOwner
import Gopherd.Daemon.Consistent
import Gopherd.Daemon.Dependents
import Gopherd.Daemon.Failure
import Gopherd.Daemon.ReloadAtomic
import Gopherd.Daemon.Requirers
import Gopherd.Daemon.RunTimeout
import Gopherd.Daemon.ScheduledExit
import Gopherd.Daemon.Signals
import Gopherd.Daemon.StaleCheck
import Gopherd.Daemon.Status
import Gopherd.Daemon.Suppressed
import Gopherd.Daemon.Unchanged
import Gopherd.Cron.Later
import Gopherd.Logger.Failures
import Gopherd.Logger.Follow
import Gopherd.Logger.History
import Gopherd.Logger.Labels
import Gopherd.Reaper.Routing
import Gopherd.Service.DotEnvText
import Gopherd.Service.Environment
import Gopherd.Service.KillTimer
import Gopherd.Service.Notify
import Gopherd.Service.Privileges
import Gopherd.Service.SinglePass
import Gopherd.Sys.Cpu
import Gopherd.Yaml.Columns
import Gopherd.Yaml.Comments
import Gopherd.Yaml.Depth
import Gopherd.Yaml.Forms
import Gopherd.Yaml.Literals
import Gopherd.Yaml.Placed
import Gopherd.Yaml.RoundTrip
