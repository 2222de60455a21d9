import PgRouter.Authdb.RoundTrip
import PgRouter.Config.Grammar
import PgRouter.Config.Keywords
import PgRouter.Config.Numbers
import PgRouter.Config.Quotes
import PgRouter.Config.Reload
import PgRouter.Config.RoundTrip
import PgRouter.Config.Sections
import PgRouter.Daemon.Launch
import PgRouter.Daemon.Pidfile
import PgRouter.Foundation.Atomicity
import PgRouter.Login.Authentication
import PgRouter.Login.Compose
import PgRouter.Login.Confinement
import PgRouter.Login.Connect
import PgRouter.Login.Password
import PgRouter.Login.Salt
import PgRouter.Login.Segmentation
import PgRouter.Login.Startup
import PgRouter.Login.ToldApart
import PgRouter.Monitor.Report
import PgRouter.Net.Endpoint
import PgRouter.Text.FinalNewline
import PgRouter.Text.Rejection
import PgRouter.Text.Termination
import PgRouter.Threads.Discipline
import PgRouter.Threads.Seen
import PgRouter.Watcher.Definedness
import PgRouter.Watcher.Lag
import PgRouter.Watcher.Viability
import PgRouter.Watcher.Xlog
import PgRouter.Wire.Accessors
import PgRouter.Wire.Bounds
import PgRouter.Wire.Drain
import PgRouter.Wire.ErrorResponse
import PgRouter.Wire.Recognition
import PgRouter.Wire.ReturnCodes
import PgRouter.Wire.ShortWrites
import PgRouter.Wire.Starvation
import PgRouter.Wire.Stream
import PgRouter.Worker.Answer
import PgRouter.Worker.Conservation
import PgRouter.Worker.Copy
import PgRouter.Worker.Descriptors
import PgRouter.Worker.DetermineBackends
import PgRouter.Worker.Flow
import PgRouter.Worker.Pinning
import PgRouter.Worker.Replay
import PgRouter.Worker.Routing
import PgRouter.Worker.Secrecy
import PgRouter.Worker.Segmentation
import PgRouter.Worker.Serve
import PgRouter.Worker.Termination
