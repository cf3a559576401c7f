/-
  Borehole.Server.Control

  The control flow of the server's tasks (crates/server/src/control.rs and the
  DELETE handler of api/tunnels.rs).

  Each async function of the source is a program counter type with a transition
  function of the same name.  A program counter is a point between two
  operations, named after the operation the code performs next; the transition
  function says which operations are possible there and where each leads.  A
  call is a program counter that contains the callee's, and `Flow.ret` is the
  callee's return.  Where an operation has arguments that the code computes, a
  transition to it is guarded by their values.
-/

import Borehole.Server.State
import Borehole.Conc.Tasks

namespace Borehole

/-- Where a function goes after one operation: on to a program counter, or back
    to its caller. -/
inductive Flow (Pc : Type) where
  | at (pc : Pc)
  | ret

namespace Flow

/-- Resumes the caller: `wrap` while the callee runs, `back` once it returns. -/
def resume {Pc Pc' : Type} (wrap : Pc → Pc') (back : Pc') : Flow Pc → Pc'
  | .at pc => wrap pc
  | .ret => back

end Flow

/-- Renders a `Protocol` as its lowercase wire name. -/
def protocolStr : Protocol → String
  | .tcp => "tcp"
  | .http => "http"

/-- The part of `TunnelCtx` that is fixed when a tunnel gets its port and id. -/
structure TunnelCtx where
  tunnelId : String
  port : UInt16
  deriving DecidableEq, Repr

/-- The session a transition function belongs to: its task, which also names its
    stream's writer and its `Notify`, and its `Register`. -/
structure SessionCtx where
  task : Tid
  register : Register
  deriving DecidableEq, Repr

/-! ## `serve_tunnel` -/

namespace ServeTunnel

/-- Where `serve_tunnel` is. -/
inductive Pc where
  /-- At the `select!`. -/
  | select
  | insertPending (v : Tid) (visitor : Visitor)
  | notify (v : Tid) (visitor : Visitor)
  /-- The notice failed: take the entry out again. -/
  | removePending (v : Tid) (visitor : Visitor)
  | drop (v : Tid)
  | connectedAt (v : Tid)
  | spawn (v : Tid) (connectedAt : DateTime)

/-- The `NewConn` of a visitor the server accepted itself. -/
def notice (visitor : Visitor) : Message :=
  .newConn { connId := visitor.connId, nodeHost := none, nodePort := none }

end ServeTunnel

open ServeTunnel in
/-- Concurrently handles incoming visitors and detects control-channel close
    for one open tunnel. -/
def serveTunnel (s : SessionCtx) (ctx : TunnelCtx) :
    ServeTunnel.Pc → Op → Option (Flow ServeTunnel.Pc)
  -- The three branches of the `select!`: the dashboard's close, a visitor, the CLI.
  | .select, .notified => some .ret
  | .select, .accept none => some (.at .select)
  | .select, .accept (some (v, visitor)) =>
      if visitor.tunnelId = ctx.tunnelId then some (.at (.insertPending v visitor)) else none
  | .select, .readLine none => some .ret
  | .select, .readLine (some _) => some (.at .select)
  -- The sender is in `pending` before the CLI is told of the visitor.
  | .insertPending v visitor, .insertPending connId v' =>
      if connId = visitor.connId ∧ v' = v then some (.at (.notify v visitor)) else none
  | .notify v visitor, .send w m true =>
      if w = s.task ∧ m = notice visitor then some (.at (.connectedAt v)) else none
  | .notify v visitor, .send w m false =>
      if w = s.task ∧ m = notice visitor then some (.at (.removePending v visitor)) else none
  | .removePending v visitor, .removePending connId _ =>
      if connId = visitor.connId then some (.at (.drop v)) else none
  | .drop v, .dropVisitor v' => if v' = v then some .ret else none
  | .connectedAt v, .now t => some (.at (.spawn v t))
  | .spawn v t, .spawn v' t' => if v' = v ∧ t' = t then some (.at .select) else none
  | _, _ => none

/-! ## `serve_cli_direct` -/

namespace ServeCliDirect

/-- Where `serve_cli_direct` is. -/
inductive Pc where
  | bind
  | reject
  | registered
  | startedAt
  | record (startedAt : DateTime)
  | publish (startedAt : DateTime)
  | serve (pc : ServeTunnel.Pc)

/-- The answer to the CLI. -/
def registeredMsg (ctx : TunnelCtx) : Message :=
  .registered { remotePort := ctx.port, nodeHost := none, nodePort := none }

/-- The dashboard entry of a tunnel the server serves itself. -/
def entry (s : SessionCtx) (ctx : TunnelCtx) (startedAt : DateTime) : TunnelEntry where
  protocol := s.register.protocol
  localPort := s.register.localPort
  remotePort := ctx.port
  node := none
  hostname := s.register.hostname
  startedAt := startedAt
  route := none
  close := s.task

/-- The event of the tunnel, with no node. -/
def opened (s : SessionCtx) (ctx : TunnelCtx) (startedAt : DateTime) : BhEvent :=
  .tunnelOpened ctx.tunnelId (protocolStr s.register.protocol) s.register.localPort ctx.port ""
    startedAt

end ServeCliDirect

open ServeCliDirect in
/-- Single-node (v1) path: the server binds the public port and proxies visitor
    traffic to the CLI directly. -/
def serveCliDirect (s : SessionCtx) (ctx : TunnelCtx) :
    ServeCliDirect.Pc → Op → Option (Flow ServeCliDirect.Pc)
  | .bind, .bind port true => if port = ctx.port then some (.at .registered) else none
  | .bind, .bind port false => if port = ctx.port then some (.at .reject) else none
  | .reject, .send w m _ =>
      if w = s.task ∧ m = .error ⟨"failed to open tunnel port"⟩ then some .ret else none
  | .registered, .send w m true =>
      if w = s.task ∧ m = registeredMsg ctx then some (.at .startedAt) else none
  -- No entry and no event for a CLI that cannot be told.
  | .registered, .send w m false =>
      if w = s.task ∧ m = registeredMsg ctx then some .ret else none
  | .startedAt, .now t => some (.at (.record t))
  | .record t, .insertTunnel id e =>
      if id = ctx.tunnelId ∧ e = entry s ctx t then some (.at (.publish t)) else none
  | .publish t, .publish e =>
      if e = opened s ctx t then some (.at (.serve .select)) else none
  | .serve pc, op => (serveTunnel s ctx pc op).map (Flow.resume (fun pc => .at (.serve pc)) .ret)
  | _, _ => none

/-! ## `serve_cli_via_node` -/

namespace ServeCliViaNode

/-- Where `serve_cli_via_node` is. -/
inductive Pc where
  | lockNode
  | openTunnel
  /-- The node is unreachable: lock the CLI's own writer for the direct path. -/
  | lockFallback
  | fallback (pc : ServeCliDirect.Pc)
  | unlockFallback
  | startedAt
  | record (startedAt : DateTime)
  | increment (startedAt : DateTime)
  | publish (startedAt : DateTime)
  | lockCli
  | registered
  /-- At the `select!`. -/
  | select
  | lockClose
  | closeTunnel
  | decrement

/-- The order to open the tunnel. -/
def openMsg (ctx : TunnelCtx) : Message :=
  .openTunnel { tunnelId := ctx.tunnelId, remotePort := ctx.port }

/-- The order to close it. -/
def closeMsg (ctx : TunnelCtx) : Message :=
  .closeTunnel { tunnelId := ctx.tunnelId }

/-- The answer to the CLI, with the address of the node. -/
def registeredMsg (ctx : TunnelCtx) (node : NodeInfo) : Message :=
  .registered
    { remotePort := ctx.port, nodeHost := some node.host, nodePort := some node.dataPort }

/-- The dashboard entry of a tunnel routed through `node`. -/
def entry (s : SessionCtx) (ctx : TunnelCtx) (node : NodeInfo) (startedAt : DateTime) :
    TunnelEntry where
  protocol := s.register.protocol
  localPort := s.register.localPort
  remotePort := ctx.port
  node := some node.name
  hostname := s.register.hostname
  startedAt := startedAt
  route := some { writer := s.task, host := node.host, port := node.dataPort }
  close := s.task

/-- The event of the tunnel, with the name of its node. -/
def opened (s : SessionCtx) (ctx : TunnelCtx) (node : NodeInfo) (startedAt : DateTime) : BhEvent :=
  .tunnelOpened ctx.tunnelId (protocolStr s.register.protocol) s.register.localPort ctx.port
    node.name startedAt

end ServeCliViaNode

open ServeCliViaNode in
/-- Multi-node (v2) path: tell the chosen node to open the public port,
    advertise the node to the CLI, and record the tunnel so the node can route
    visitors back. -/
def serveCliViaNode (s : SessionCtx) (ctx : TunnelCtx) (node : NodeInfo) :
    ServeCliViaNode.Pc → Op → Option (Flow ServeCliViaNode.Pc)
  | .lockNode, .lockWriter w => if w = node.tx then some (.at .openTunnel) else none
  | .openTunnel, .sendUnlock w m true =>
      if w = node.tx ∧ m = openMsg ctx then some (.at .startedAt) else none
  -- The guard is dropped before the CLI's own writer is locked for the direct path.
  | .openTunnel, .sendUnlock w m false =>
      if w = node.tx ∧ m = openMsg ctx then some (.at .lockFallback) else none
  | .lockFallback, .lockWriter w => if w = s.task then some (.at (.fallback .bind)) else none
  | .fallback pc, op =>
      (serveCliDirect s ctx pc op).map
        (Flow.resume (fun pc => .at (.fallback pc)) (.at .unlockFallback))
  | .unlockFallback, .unlockWriter w => if w = s.task then some .ret else none
  | .startedAt, .now t => some (.at (.record t))
  | .record t, .insertTunnel id e =>
      if id = ctx.tunnelId ∧ e = entry s ctx node t then some (.at (.increment t)) else none
  | .increment t, .incrementTunnels id =>
      if id = node.nodeId then some (.at (.publish t)) else none
  | .publish t, .publish e => if e = opened s ctx node t then some (.at .lockCli) else none
  | .lockCli, .lockWriter w => if w = s.task then some (.at .registered) else none
  -- Whether or not the CLI could be told, the session goes on to the `select!`.
  | .registered, .sendUnlock w m _ =>
      if w = s.task ∧ m = registeredMsg ctx node then some (.at .select) else none
  | .select, .notified => some (.at .lockClose)
  | .select, .readLine none => some (.at .lockClose)
  | .select, .readLine (some _) => some (.at .select)
  -- Tunnel gone: ask the node to release the port, and take it off its load.
  | .lockClose, .lockWriter w => if w = node.tx then some (.at .closeTunnel) else none
  | .closeTunnel, .sendUnlock w m _ =>
      if w = node.tx ∧ m = closeMsg ctx then some (.at .decrement) else none
  | .decrement, .decrementTunnels id => if id = node.nodeId then some .ret else none
  | _, _ => none

/-! ## `handle_cli` -/

namespace HandleCli

/-- Where `handle_cli` is. -/
inductive Pc where
  | validate
  | reject (reason : String)
  | deviceNow (hostname : String)
  | device (hostname : String) (now : DateTime)
  | acquire
  | tunnelId (port : UInt16)
  | pick (ctx : TunnelCtx)
  | direct (ctx : TunnelCtx) (pc : ServeCliDirect.Pc)
  | viaNode (ctx : TunnelCtx) (node : NodeInfo) (pc : ServeCliViaNode.Pc)
  /-- The central cleanup. -/
  | remove (ctx : TunnelCtx)
  | endedAt (ctx : TunnelCtx) (entry : TunnelEntry)
  | archive (ctx : TunnelCtx) (entry : TunnelEntry) (endedAt : DateTime)
  | closed (ctx : TunnelCtx)
  | release (ctx : TunnelCtx)
  /-- The session has ended; `ctx` if it had a tunnel. -/
  | done (ctx : Option TunnelCtx)

/-- The history record of a tunnel that ended at `endedAt`. -/
def history (ctx : TunnelCtx) (entry : TunnelEntry) (endedAt : DateTime) : TunnelHistory where
  tunnelId := ctx.tunnelId
  protocol := protocolStr entry.protocol
  localPort := entry.localPort
  remotePort := entry.remotePort
  node := entry.node
  startedAt := entry.startedAt
  endedAt := endedAt
  durationSecs := durationSecs entry.startedAt endedAt

end HandleCli

open HandleCli in
/-- Handles a CLI connection: token check, port assignment, one of the two
    serving paths, and the central cleanup. -/
def handleCli (tokens : List String) (s : SessionCtx) : HandleCli.Pc → Op → Option HandleCli.Pc
  | .validate, .compute =>
      if s.register.token ∉ tokens then some (.reject "invalid token")
      else match s.register.hostname with
        | some hostname => some (.deviceNow hostname)
        | none => some .acquire
  | .reject reason, .send w m _ =>
      if w = s.task ∧ m = .error ⟨reason⟩ then some (.done none) else none
  -- The device is recorded before anything that might bail out.
  | .deviceNow hostname, .now t => some (.device hostname t)
  | .device hostname t, .upsertDevice hostname' t' _ =>
      if hostname' = hostname ∧ t' = t then some .acquire else none
  -- The requested port, or a random one from the pool.
  | .acquire, .acquireSpecific port (some p) =>
      if s.register.remotePort = some port then some (.tunnelId p) else none
  | .acquire, .acquireSpecific port none =>
      if s.register.remotePort = some port then some (.reject "no port available") else none
  | .acquire, .acquire (some p) =>
      if s.register.remotePort = none then some (.tunnelId p) else none
  | .acquire, .acquire none =>
      if s.register.remotePort = none then some (.reject "no port available") else none
  | .tunnelId port, .uuid id => some (.pick ⟨id, port⟩)
  | .pick ctx, .pick name (some node) =>
      if name = s.register.node then some (.viaNode ctx node .lockNode) else none
  | .pick ctx, .pick name none =>
      if name = s.register.node then some (.direct ctx .bind) else none
  | .direct ctx pc, op => (serveCliDirect s ctx pc op).map (Flow.resume (.direct ctx) (.remove ctx))
  | .viaNode ctx node pc, op =>
      (serveCliViaNode s ctx node pc op).map (Flow.resume (.viaNode ctx node) (.remove ctx))
  -- Only a tunnel that had an entry is archived and announced as closed.
  | .remove ctx, .removeTunnel id (some entry) =>
      if id = ctx.tunnelId then some (.endedAt ctx entry) else none
  | .remove ctx, .removeTunnel id none =>
      if id = ctx.tunnelId then some (.release ctx) else none
  | .endedAt ctx entry, .now t => some (.archive ctx entry t)
  | .archive ctx entry t, .recordTunnel h =>
      if h = history ctx entry t then some (.closed ctx) else none
  | .closed ctx, .publish e =>
      if e = .tunnelClosed ctx.tunnelId then some (.release ctx) else none
  | .release ctx, .release port => if port = ctx.port then some (.done (some ctx)) else none
  | _, _ => none

/-! ## `forward_visitor` -/

namespace ForwardVisitor

/-- Where `forward_visitor` is. -/
inductive Pc where
  | lookup
  | lockCli (route : TunnelRoute)
  | send (route : TunnelRoute)

/-- The `NewConn` of a visitor that a node accepted. -/
def notice (connId : String) (route : TunnelRoute) : Message :=
  .newConn { connId := connId, nodeHost := some route.host, nodePort := some route.port }

end ForwardVisitor

open ForwardVisitor in
/-- Forwards a node's `VisitorConn` to the CLI that owns the tunnel. -/
def forwardVisitor (report : VisitorConn) :
    ForwardVisitor.Pc → Op → Option (Flow ForwardVisitor.Pc)
  | .lookup, .getRoute id (some route) =>
      if id = report.tunnelId then some (.at (.lockCli route)) else none
  | .lookup, .getRoute id none => if id = report.tunnelId then some .ret else none
  | .lockCli route, .lockWriter w => if w = route.writer then some (.at (.send route)) else none
  | .send route, .sendUnlock w m _ =>
      if w = route.writer ∧ m = notice report.connId route then some .ret else none
  | _, _ => none

/-! ## `handle_node` -/

namespace HandleNode

/-- Where `handle_node` is. -/
inductive Pc where
  | validate
  | reject (reason : String)
  | nodeId
  | register (nodeId : String)
  | lockAck (nodeId : String)
  | ack (nodeId : String)
  /-- The acknowledgement failed: unregister, still holding the writer. -/
  | ackFailed (nodeId : String)
  | unlockFailed (nodeId : String)
  | connected (nodeId : String)
  | read (nodeId : String)
  | forward (nodeId : String) (report : VisitorConn) (pc : ForwardVisitor.Pc)
  | remove (nodeId : String)
  | left (nodeId : String)
  /-- The session has ended; `nodeId` if it had registered. -/
  | done (nodeId : Option String)

/-- The registry entry of a node that has just registered. -/
def info (task : Tid) (host : String) (reg : RegisterNode) (nodeId : String) : NodeInfo where
  nodeId := nodeId
  name := reg.name
  host := host
  dataPort := reg.dataPort
  tunnelCount := 0
  tx := task

end HandleNode

open HandleNode in
/-- Handles an edge node connection: token check, registration, and a loop that
    forwards `VisitorConn` reports to the owning CLI. -/
def handleNode (tokens : List String) (task : Tid) (host : String) (reg : RegisterNode) :
    HandleNode.Pc → Op → Option HandleNode.Pc
  | .validate, .compute =>
      if reg.token ∉ tokens then some (.reject "invalid token") else some .nodeId
  | .reject reason, .send w m _ =>
      if w = task ∧ m = .error ⟨reason⟩ then some (.done none) else none
  | .nodeId, .uuid id => some (.register id)
  -- The node is in the registry before it is acknowledged.
  | .register id, .registerNode i => if i = info task host reg id then some (.lockAck id) else none
  | .lockAck id, .lockWriter w => if w = task then some (.ack id) else none
  | .ack id, .sendUnlock w m true =>
      if w = task ∧ m = .nodeRegistered ⟨id⟩ then some (.connected id) else none
  | .ack id, .send w m false =>
      if w = task ∧ m = .nodeRegistered ⟨id⟩ then some (.ackFailed id) else none
  -- A node that cannot be acknowledged leaves without an event.
  | .ackFailed id, .removeNode id' => if id' = id then some (.unlockFailed id) else none
  | .unlockFailed id, .unlockWriter w => if w = task then some (.done (some id)) else none
  | .connected id, .publish e =>
      if e = .nodeConnected id reg.name then some (.read id) else none
  -- Lines that are no report are skipped.
  | .read id, .readLine none => some (.remove id)
  | .read id, .readLine (some (some (.visitorConn report))) => some (.forward id report .lookup)
  | .read id, .readLine (some _) => some (.read id)
  | .forward id report pc, op =>
      (forwardVisitor report pc op).map (Flow.resume (.forward id report) (.read id))
  | .remove id, .removeNode id' => if id' = id then some (.left id) else none
  | .left id, .publish e => if e = .nodeLeft id then some (.done (some id)) else none
  | _, _ => none

/-! ## The visitor task that `serve_tunnel` spawns -/

namespace VisitorTask

/-- Where the task of a visitor is. -/
inductive Pc where
  /-- Not spawned yet: socket, sender and receiver are in `serve_tunnel`'s hands. -/
  | accepted
  /-- Not spawned yet, but its sender is in `pending`. -/
  | notifying
  | waiting (connectedAt : DateTime)
  | proxying (d : Tid) (connectedAt : DateTime)
  | endedAt (d : Tid) (connectedAt : DateTime)
  | record (d : Tid) (connectedAt endedAt : DateTime)
  /-- The wait ended without a data socket: take the entry out of `pending`. -/
  | removePending
  /-- The handling of the visitor is over; the data socket it was spliced to. -/
  | done (d : Option Tid)

/-- The history record of a visitor whose proxy ended at `endedAt`. -/
def history (visitor : Visitor) (connectedAt endedAt : DateTime) : ConnectionHistory where
  tunnelId := visitor.tunnelId
  connId := visitor.connId
  sourceIp := visitor.addr.ip
  sourcePort := visitor.addr.port
  connectedAt := connectedAt
  durationSecs := durationSecs connectedAt endedAt

end VisitorTask

open VisitorTask in
/-- Waits (bounded) for the paired data socket, proxies, and archives the
    connection. -/
def visitorTask (visitor : Visitor) : VisitorTask.Pc → Op → Option VisitorTask.Pc
  | .waiting t, .received d => some (.proxying d t)
  | .waiting _, .elapsed => some .removePending
  | .proxying d t, .proxied => some (.endedAt d t)
  | .endedAt d t, .now t' => some (.record d t t')
  | .record d t t', .recordConnection h =>
      if h = history visitor t t' then some (.done (some d)) else none
  | .removePending, .removePending connId _ =>
      if connId = visitor.connId then some (.done none) else none
  | _, _ => none

/-! ## `handle_data_conn` -/

namespace HandleDataConn

/-- Where `handle_data_conn` is. -/
inductive Pc where
  | readFrame
  | claim (connId : String)
  | deliver (connId : String) (v : Tid)
  /-- The handler has returned; the `conn_id` that the connection announced. -/
  | done (connId : Option String)

end HandleDataConn

/-- Reads the opening `DataConn` frame and delivers the socket to the waiting
    visitor via the oneshot registered under its `conn_id`. -/
def handleDataConn : HandleDataConn.Pc → Op → Option HandleDataConn.Pc
  | .readFrame, .readFrame (some (some (.dataConn m))) => some (.claim m.connId)
  | .readFrame, .readFrame _ => some (.done none)
  | .claim connId, .removePending connId' (some v) =>
      if connId' = connId then some (.deliver connId v) else none
  | .claim connId, .removePending connId' none =>
      if connId' = connId then some (.done (some connId)) else none
  | .deliver connId v, .deliver v' _ => if v' = v then some (.done (some connId)) else none
  | _, _ => none

/-! ## `DELETE /api/tunnels/:id` -/

namespace Close

/-- Where a DELETE is. -/
inductive Pc where
  | lookup (tunnelId : String)
  | notify (tunnelId : String) (w : Tid)
  /-- Answered: 204 when `found`, else 404. -/
  | answered (tunnelId : String) (found : Bool)

end Close

/-- Signals the owning task to tear the tunnel down. -/
def tunnelsClose : Close.Pc → Op → Option Close.Pc
  | .lookup id, .getClose id' (some w) => if id' = id then some (.notify id w) else none
  | .lookup id, .getClose id' none => if id' = id then some (.answered id false) else none
  | .notify id w, .notifyOne w' => if w' = w then some (.answered id true) else none
  | _, _ => none

/-! ## All tasks -/

/-- A task of the server. -/
inductive ServerTask where
  /-- Not started. -/
  | idle
  /-- A control connection that closed or failed before its first frame. -/
  | gone
  /-- `handle_client` rejects a first frame that opens no session. -/
  | refuse (reason : String)
  | cli (register : Register) (pc : HandleCli.Pc)
  | node (host : String) (reg : RegisterNode) (pc : HandleNode.Pc)
  | visitor (vis : Visitor) (pc : VisitorTask.Pc)
  | dataConn (pc : HandleDataConn.Pc)
  | close (pc : Close.Pc)

/-- Dispatches a control connection on its first frame. -/
def handleClient (peer : String) : Option Line → ServerTask
  | none => .gone
  | some (some (.register reg)) => .cli reg .validate
  | some (some (.registerNode reg)) => .node peer reg .validate
  | some (some _) => .refuse "expected register or register_node"
  | some none => .refuse "malformed first message"

/-- Where a task goes after one operation of its own. -/
def ServerTask.next (tokens : List String) (t : Tid) : ServerTask → Op → Option ServerTask
  | .idle, .connect peer first => some (handleClient peer first)
  | .idle, .dataConnect => some (.dataConn .readFrame)
  | .idle, .delete id => some (.close (.lookup id))
  | .refuse reason, .send w m _ =>
      if w = t ∧ m = .error ⟨reason⟩ then some .gone else none
  | .cli register pc, op => (handleCli tokens ⟨t, register⟩ pc op).map (.cli register)
  | .node host reg pc, op => (handleNode tokens t host reg pc op).map (.node host reg)
  | .visitor vis pc, op => (visitorTask vis pc op).map (.visitor vis)
  | .dataConn pc, op => (handleDataConn pc op).map .dataConn
  | .close pc, op => (tunnelsClose pc op).map .close
  | _, _ => none

/-- What an operation does to the visitor it is about. -/
def ServerTask.adopt : Op → ServerTask → Option ServerTask
  | .accept (some (_, vis)), .idle => some (.visitor vis .accepted)
  | .insertPending _ _, .visitor vis .accepted => some (.visitor vis .notifying)
  | .spawn _ t, .visitor vis .notifying => some (.visitor vis (.waiting t))
  | .dropVisitor _, .visitor vis .notifying => some (.visitor vis (.done none))
  | _, _ => none

/-- The visitor an operation of another task is about. -/
def Op.child : Op → Option Tid
  | .accept (some (v, _)) | .insertPending _ v | .spawn v _ | .dropVisitor v => some v
  | _ => none

/-- The server's configuration. -/
structure ServerConfig where
  portRange : UInt16 × UInt16
  tokens : List String

/-- The server's tasks over its shared state. -/
def serverTasks (cfg : ServerConfig) : Conc.Tasks Tid ServerTask Op ServerState where
  next := ServerTask.next cfg.tokens
  exec := ServerState.exec
  child := Op.child
  adopt := fun _ => ServerTask.adopt

/-- A configuration of the server. -/
abbrev Server := Conc.Conf Tid ServerTask ServerState

/-- The server before its first connection. -/
def Server.start (cfg : ServerConfig) : Server where
  shared := ServerState.new cfg.portRange.1 cfg.portRange.2
  task := fun _ => .idle

/-- Every interleaving of the server's tasks. -/
def server (cfg : ServerConfig) : Conc.Lts Server (Tid × Op) :=
  (serverTasks cfg).lts (Server.start cfg)

end Borehole
