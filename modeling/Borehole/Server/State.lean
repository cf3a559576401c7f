/-
  Borehole.Server.State

  The state shared by every server task (`ServerState` in
  crates/server/src/control.rs) and the operations that tasks perform on it and
  on the outside world.

  One operation is one critical section, one system call or one read of the
  clock: between two operations of a task any other task may run.  Whatever the
  code does not decide (the port a random choice returns, the clock, a fresh
  UUID, the outcome of a write, what a peer sends) is an argument of the
  operation.  Three kinds of objects that the source keeps behind `Arc`s get an
  entry per task id:

    * `writer w`   — who holds the mutex around the writer of control stream `w`;
    * `permit w`   — the stored permit of the `Notify` of tunnel session `w`
                     (`notify_one` with no waiter stores it, and a waiter that
                     is dropped after being woken passes it on, so the permit is
                     there until the close branch of a `select!` takes it);
    * `oneshot v`  — the channel that hands visitor `v` its data socket.

  A line or frame read from a peer is what `proto::from_line` makes of it:
  `none` when it does not decode.
-/

import Borehole.Common.Proto
import Borehole.Server.PortMgr
import Borehole.Server.NodeManager
import Borehole.Server.History
import Mathlib.Logic.Function.Basic

namespace Borehole

/-- What `proto::from_line` makes of a line. -/
abbrev Line := Option Message

/-- A live tunnel routed through an edge node: the CLI's writer and the node's
    host and data port. -/
structure TunnelRoute where
  writer : Tid
  host : String
  port : UInt16
  deriving DecidableEq, Repr

/-- A live tunnel. -/
structure TunnelEntry where
  protocol : Protocol
  localPort : UInt16
  remotePort : UInt16
  node : Option String
  hostname : Option String
  startedAt : DateTime
  route : Option TunnelRoute
  /-- The session whose `Notify` closes this tunnel. -/
  close : Tid
  deriving DecidableEq, Repr

/-- `std::net::SocketAddr` of a visitor. -/
structure SocketAddr where
  ip : String
  port : UInt16
  deriving DecidableEq, Repr

/-- What the serving loop captures of an accepted visitor. -/
structure Visitor where
  tunnelId : String
  connId : String
  addr : SocketAddr
  deriving DecidableEq, Repr

/-- A oneshot channel: the data socket in it, and whether the receiver is still
    there. -/
structure Oneshot where
  value : Option Tid
  receiver : Bool
  deriving DecidableEq, Repr

namespace Oneshot

/-- Nothing has been sent, and the receiver is there. -/
def new : Oneshot := ⟨none, true⟩

end Oneshot

/-- State shared across every server task. -/
structure ServerState where
  portMgr : PortManager
  /-- `conn_id` -> the visitor whose oneshot sender is waiting there. -/
  pending : Finmap (fun _ : String => Tid)
  nodeManager : NodeManager
  activeTunnels : Finmap (fun _ : String => TunnelEntry)
  devices : List DeviceRecord
  history : History
  writer : Tid → Option Tid
  permit : Tid → Bool
  oneshot : Tid → Oneshot

/-- The operations of server tasks. -/
inductive Op where
  /-- A control connection: the peer's address and the first frame (`none` when
      the peer closes or fails before one). -/
  | connect (peer : String) (first : Option Line)
  /-- A connection to the data port. -/
  | dataConnect
  /-- `DELETE /api/tunnels/:id`. -/
  | delete (tunnelId : String)
  /-- Code between two awaits that touches nothing shared. -/
  | compute
  /-- `Utc::now()` -/
  | now (t : DateTime)
  /-- `Uuid::new_v4()` -/
  | uuid (id : String)
  | upsertDevice (hostname : String) (now : DateTime) (id : String)
  | acquire (got : Option UInt16)
  | acquireSpecific (port : UInt16) (got : Option UInt16)
  | release (port : UInt16)
  | pick (name : Option String) (got : Option NodeInfo)
  | registerNode (info : NodeInfo)
  | removeNode (nodeId : String)
  | incrementTunnels (nodeId : String)
  | decrementTunnels (nodeId : String)
  | lockWriter (w : Tid)
  | unlockWriter (w : Tid)
  /-- `send` through an exclusive borrow of the writer: whether it returned `Ok`. -/
  | send (w : Tid) (m : Message) (ok : Bool)
  /-- `send` through a mutex guard that is dropped when it returns. -/
  | sendUnlock (w : Tid) (m : Message) (ok : Bool)
  | insertTunnel (tunnelId : String) (entry : TunnelEntry)
  | removeTunnel (tunnelId : String) (got : Option TunnelEntry)
  | getRoute (tunnelId : String) (got : Option TunnelRoute)
  | getClose (tunnelId : String) (got : Option Tid)
  | notifyOne (w : Tid)
  /-- The close branch of a `select!` wins. -/
  | notified
  | publish (event : BhEvent)
  | recordTunnel (entry : TunnelHistory)
  | recordConnection (entry : ConnectionHistory)
  /-- `TcpListener::bind` -/
  | bind (port : UInt16) (ok : Bool)
  /-- `listener.accept()`: `none` on an accept error. -/
  | accept (got : Option (Tid × Visitor))
  /-- A line of the control stream: `none` at end of stream or on an I/O error. -/
  | readLine (line : Option Line)
  /-- The opening frame of a data connection. -/
  | readFrame (line : Option Line)
  | insertPending (connId : String) (v : Tid)
  | removePending (connId : String) (got : Option Tid)
  /-- `tokio::spawn` of the visitor's task. -/
  | spawn (v : Tid) (connectedAt : DateTime)
  /-- The serving loop gives up on visitor `v`: its socket and receiver drop. -/
  | dropVisitor (v : Tid)
  /-- `oneshot::Sender::send`: fails when the receiver is gone. -/
  | deliver (v : Tid) (ok : Bool)
  /-- The bounded wait of a visitor ends with a data socket. -/
  | received (d : Tid)
  /-- The bounded wait of a visitor ends without one. -/
  | elapsed
  /-- `proxy::run` returns. -/
  | proxied

namespace ServerState

/-- The tables are empty, and every port of the range is free. -/
def new (start stop : UInt16) : ServerState where
  portMgr := PortManager.new start stop
  pending := ∅
  nodeManager := NodeManager.new
  activeTunnels := ∅
  devices := []
  history := History.new
  writer := fun _ => none
  permit := fun _ => false
  oneshot := fun _ => Oneshot.new

/-- What an operation of task `t` does to the shared state; `none` if it cannot
    have the result it carries. -/
def exec (s : ServerState) (t : Tid) : Op → Option ServerState
  | .upsertDevice hostname now id =>
      some { s with devices := Borehole.upsertDevice hostname now id s.devices }
  | .acquire got => (s.portMgr.acquire got).map fun pm => { s with portMgr := pm }
  | .acquireSpecific port got =>
      if (s.portMgr.acquireSpecific port).1 = got then
        some { s with portMgr := (s.portMgr.acquireSpecific port).2 }
      else none
  | .release port => some { s with portMgr := s.portMgr.release port }
  | .pick name got => if s.nodeManager.picks name got then some s else none
  | .registerNode info => some { s with nodeManager := s.nodeManager.register info }
  | .removeNode nodeId => some { s with nodeManager := s.nodeManager.remove nodeId }
  | .incrementTunnels nodeId =>
      some { s with nodeManager := s.nodeManager.incrementTunnels nodeId }
  | .decrementTunnels nodeId =>
      some { s with nodeManager := s.nodeManager.decrementTunnels nodeId }
  -- A mutex is taken when it is free, and released by its holder.
  | .lockWriter w =>
      if s.writer w = none then some { s with writer := Function.update s.writer w (some t) }
      else none
  | .unlockWriter w | .sendUnlock w _ _ =>
      if s.writer w = some t then some { s with writer := Function.update s.writer w none }
      else none
  | .insertTunnel id entry => some { s with activeTunnels := s.activeTunnels.insert id entry }
  | .removeTunnel id got =>
      if s.activeTunnels.lookup id = got then
        some { s with activeTunnels := s.activeTunnels.erase id }
      else none
  | .getRoute id got =>
      if (s.activeTunnels.lookup id).bind TunnelEntry.route = got then some s else none
  | .getClose id got =>
      if (s.activeTunnels.lookup id).map TunnelEntry.close = got then some s else none
  -- `Notify` keeps one permit, which `notified` takes.
  | .notifyOne w => some { s with permit := Function.update s.permit w true }
  | .notified =>
      if s.permit t then some { s with permit := Function.update s.permit t false } else none
  | .recordTunnel entry => some { s with history := s.history.recordTunnel entry }
  | .recordConnection entry => some { s with history := s.history.recordConnection entry }
  | .accept (some (v, _)) => some { s with oneshot := Function.update s.oneshot v Oneshot.new }
  | .insertPending connId v => some { s with pending := s.pending.insert connId v }
  | .removePending connId got =>
      if s.pending.lookup connId = got then
        some { s with pending := s.pending.erase connId }
      else none
  -- The receiver of a oneshot goes when it is dropped, or has received, or has given up.
  | .dropVisitor v => some { s with oneshot := Function.update s.oneshot v ⟨none, false⟩ }
  | .deliver v ok =>
      if (s.oneshot v).receiver = ok then
        some { s with
          oneshot := Function.update s.oneshot v
            (if ok then ⟨some t, true⟩ else s.oneshot v) }
      else none
  | .received d =>
      if (s.oneshot t).value = some d then
        some { s with oneshot := Function.update s.oneshot t ⟨none, false⟩ }
      else none
  | .elapsed => some { s with oneshot := Function.update s.oneshot t ⟨none, false⟩ }
  | .connect .. | .dataConnect | .delete _ | .compute | .now _ | .uuid _ | .send .. |
    .publish _ | .bind .. | .accept none | .readLine _ | .readFrame _ | .spawn .. |
    .proxied => some s

end ServerState
end Borehole
