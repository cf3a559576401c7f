import Borehole.Conc.Lts
import Borehole.Conc.Tasks
import Borehole.Conc.Lifetimes
import Borehole.Conc.Rendezvous
import Borehole.Conc.Custody
import Borehole.Conc.Drain
import Borehole.Conc.Framing
import Borehole.Conc.Ownership
import Borehole.Conc.LockOrder
import Borehole.Conc.Broadcast
import Borehole.Conc.Reader
import Borehole.Common.Utf8
import Borehole.Common.Json
import Borehole.Common.Proto
import Borehole.Common.Frames
import Borehole.Common.Grammar
import Borehole.Common.Accepted
import Borehole.Common.Cut
import Borehole.Common.Lines
import Borehole.Common.Recent
import Borehole.Common.Html
import Borehole.Server.Ports
import Borehole.Server.Routes
import Borehole.Server.Handshake
import Borehole.Server.Forward
import Borehole.Server.Ids
import Borehole.Server.Orders
import Borehole.Server.Lifecycle
import Borehole.Server.Records
import Borehole.Server.Devices
import Borehole.Server.Api
import Borehole.Server.Placement
import Borehole.Server.Pages
import Borehole.Server.Locks
import Borehole.Server.Load
import Borehole.Server.Departures
import Borehole.Server.Closing
import Borehole.Server.Table
import Borehole.Server.Tokens
import Borehole.Conc.Replay
import Borehole.Dashboard.Store
import Borehole.Dashboard.Feed
import Borehole.Dashboard.Rows
import Borehole.Server.Pairing
import Borehole.Server.Notices
import Borehole.Node.Pending
import Borehole.Node.Pairing
import Borehole.Node.Reports
import Borehole.Node.Tunnels
import Borehole.Conc.Wires
import Borehole.Conc.Erasure
import Borehole.Server.Streams
import Borehole.Server.Refusals
import Borehole.Conc.Network
import Borehole.Cli.Control
import Borehole.Cli.Steps
import Borehole.Cli.Login
import Borehole.Server.LoginPage
import Borehole.Cli.Records
import Borehole.Cli.Retry
import Borehole.Cli.Visitors
import Borehole.Cli.Worker
import Borehole.Cli.Stop
import Borehole.World.Control
import Borehole.World.Cut
import Borehole.World.Lines
import Borehole.World.Reconnect
import Borehole.World.Delivery
import Borehole.Server.Directions
import Borehole.Server.Drain
import Borehole.World.Directions
import Borehole.Server.Grants
import Borehole.World.Registration
import Borehole.Server.Events
import Borehole.Dashboard.Lag
import Borehole.Common.Base64
import Borehole.Server.Auth
import Borehole.Dashboard.Session
import Borehole.Common.Pretty
import Borehole.Cli.Config
import Borehole.World.Login
import Borehole.World.Page
import Borehole.Server.Http
import Borehole.Conc.Relay
import Borehole.Conc.Copying
import Borehole.World.DataPlane
import Borehole.World.Announcement
import Borehole.World.Transfer
import Borehole.World.Progress
