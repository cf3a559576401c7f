/-
  Borehole.Node.Control

  The control flow of an edge node's tasks (crates/node/src/main.rs), in the
  form of `Borehole.Server.Control`: a program counter type for each async
  function and a transition function of the same name.

  The main task runs one session after another.  Its `tunnels` map holds the
  handle of the accept loop of each open tunnel; aborting a handle only marks
  the loop, which is dropped at an await point it is at or comes to.
-/

import Borehole.Node.State
import Borehole.Conc.Tasks

namespace Borehole.Node

/-! ## `run_session`, `serve_orders` and `open_tunnel` -/

/-- `tunnels`: the accept loop of each open tunnel. -/
abbrev Tunnels := Finmap (fun _ : String => Tid)

namespace RunSession

/-- Where `run_session` is, in which session. -/
inductive Pc where
  | connect (s : Nat)
  | register (s : Nat)
  | verdict (s : Nat)
  | orders (s : Nat) (tunnels : Tunnels)
  | bind (s : Nat) (tunnels : Tunnels) (order : OpenTunnel)
  | spawn (s : Nat) (tunnels : Tunnels) (order : OpenTunnel)
  | close (s : Nat) (tunnels : Tunnels) (tunnelId : String) (l : Tid)
  /-- The session is over: abort every loop that is left. -/
  | teardown (s : Nat) (tunnels : Tunnels)
  | sleep (s : Nat)

end RunSession

open RunSession in
/-- Dispatches one line of the control stream. -/
def serveOrder (s : Nat) (tunnels : Tunnels) : Option Line → RunSession.Pc
  | none => .teardown s tunnels
  | some (some (.openTunnel order)) => .bind s tunnels order
  | some (some (.closeTunnel order)) =>
      match tunnels.lookup order.tunnelId with
      | some l => .close s (tunnels.erase order.tunnelId) order.tunnelId l
      | none => .orders s tunnels
  -- Other messages, and lines that do not decode, are skipped.
  | some _ => .orders s tunnels

open RunSession in
/-- Runs one server session after another: connect, register, act on orders
    until the control channel closes, tear all tunnels down, reconnect. -/
def runSession : RunSession.Pc → Op → Option RunSession.Pc
  | .connect s, .connect true => some (.register s)
  | .connect s, .connect false => some (.sleep s)
  | .register s, .sendRegister true => some (.verdict s)
  | .register s, .sendRegister false => some (.sleep s)
  -- Any other answer ends the session.
  | .verdict s, .readVerdict (some (some (.nodeRegistered _))) => some (.orders s ∅)
  | .verdict s, .readVerdict _ => some (.sleep s)
  | .orders s tunnels, .readOrder s' line =>
      if s' = s then some (serveOrder s tunnels line) else none
  | .bind s tunnels order, .bind port true =>
      if port = order.remotePort then some (.spawn s tunnels order) else none
  -- A port that cannot be bound is logged, and the server is not told.
  | .bind s tunnels order, .bind port false =>
      if port = order.remotePort then some (.orders s tunnels) else none
  | .spawn s tunnels order, .spawnLoop l ctx =>
      if ctx = ⟨s, order.tunnelId, order.remotePort⟩ then
        some (.orders s (tunnels.insert order.tunnelId l))
      else none
  | .close s tunnels tunnelId l, .abort tunnelId' l' =>
      if tunnelId' = tunnelId ∧ l' = l then some (.orders s tunnels) else none
  -- The map is drained in whatever order it iterates in.
  | .teardown s tunnels, .abort tunnelId l =>
      if tunnels.lookup tunnelId = some l then some (.teardown s (tunnels.erase tunnelId)) else none
  | .teardown s tunnels, .compute => if tunnels = ∅ then some (.sleep s) else none
  | .sleep s, .sleep => some (.connect (s + 1))
  | _, _ => none

/-! ## `tunnel_accept_loop` -/

namespace TunnelAcceptLoop

/-- Where `tunnel_accept_loop` is. -/
inductive Pc where
  | accept
  | insertPending (v : Tid) (connId : String)
  | encode (v : Tid) (connId : String)
  | encodeFailed (v : Tid) (connId : String)
  | lockWriter (v : Tid) (connId : String) (frame : List UInt8)
  /-- In `write_all`: what is left to write. -/
  | write (v : Tid) (connId : String) (rest : List UInt8)
  | flush (v : Tid) (connId : String)
  /-- The write failed: take the entry out, still holding the writer. -/
  | removePending (v : Tid) (connId : String)
  | unlockFailed (v : Tid)
  | drop (v : Tid)
  | unlock (v : Tid)
  | spawn (v : Tid)
  /-- Cancelled; what it had left to write, and of which visitor's frame. -/
  | cancelled (unwritten : Option (String × List UInt8))

/-- The frame that reports a visitor of tunnel `tunnelId`. -/
def frame? (tunnelId connId : String) : Option (List UInt8) :=
  (toLine (.visitorConn ⟨tunnelId, connId⟩)).map asBytes

end TunnelAcceptLoop

open TunnelAcceptLoop in
/-- Accepts visitors on a tunnel's public port until the task is aborted: reports
    each as a `VisitorConn` and spawns the task that waits for its `DataConn`. -/
def tunnelAcceptLoop (ctx : LoopCtx) (aborted : Bool) :
    TunnelAcceptLoop.Pc → Op → Option TunnelAcceptLoop.Pc
  | .accept, .accept none => some .accept
  | .accept, .accept (some (v, visitor)) =>
      if visitor.tunnelId = ctx.tunnelId then some (.insertPending v visitor.connId) else none
  -- An aborted loop is dropped at its next await: what it owns is dropped with it.
  | .accept, .cancelAccept port =>
      if aborted ∧ port = ctx.port then some (.cancelled none) else none
  | .insertPending v connId, .insertPending connId' v' =>
      if connId' = connId ∧ v' = v then some (.encode v connId) else none
  | .encode v connId, .compute =>
      match frame? ctx.tunnelId connId with
      | some frame => some (.lockWriter v connId frame)
      | none => some (.encodeFailed v connId)
  | .encodeFailed v connId, .removePending connId' _ =>
      if connId' = connId then some (.drop v) else none
  | .lockWriter v connId frame, .lockWriter s' =>
      if s' = ctx.session then some (.write v connId frame) else none
  | .lockWriter v _ _, .cancelLock port v' =>
      if aborted ∧ port = ctx.port ∧ v' = v then some (.cancelled none) else none
  -- `write_all` writes in pieces.
  | .write v connId rest, .write s' bytes =>
      if s' = ctx.session ∧ bytes ≠ [] ∧ bytes <+: rest then
        match rest.drop bytes.length with
        | [] => some (.flush v connId)
        | rest' => some (.write v connId rest')
      else none
  | .write v connId _, .writeFailed s' =>
      if s' = ctx.session then some (.removePending v connId) else none
  | .write v connId rest, .cancelWrite port s' v' =>
      if aborted ∧ port = ctx.port ∧ s' = ctx.session ∧ v' = v then
        some (.cancelled (some (connId, rest)))
      else none
  | .flush v _, .flush s' true => if s' = ctx.session then some (.unlock v) else none
  | .flush v connId, .flush s' false =>
      if s' = ctx.session then some (.removePending v connId) else none
  | .flush v connId, .cancelWrite port s' v' =>
      if aborted ∧ port = ctx.port ∧ s' = ctx.session ∧ v' = v then
        some (.cancelled (some (connId, [])))
      else none
  -- The failed write is undone, and the visitor dropped.
  | .removePending v connId, .removePending connId' _ =>
      if connId' = connId then some (.unlockFailed v) else none
  | .unlockFailed v, .unlockWriter s' => if s' = ctx.session then some (.drop v) else none
  | .drop v, .dropVisitor v' => if v' = v then some .accept else none
  | .unlock v, .unlockWriter s' => if s' = ctx.session then some (.spawn v) else none
  | .spawn v, .spawn v' => if v' = v then some .accept else none
  | _, _ => none

/-! ## The visitor task that `tunnel_accept_loop` spawns -/

namespace VisitorTask

/-- Where the task of a visitor is. -/
inductive Pc where
  /-- Not spawned yet: socket, sender and receiver are in the loop's hands. -/
  | accepted
  /-- Not spawned yet, but its sender is in `pending`. -/
  | reporting
  | waiting
  | piping (d : Tid)
  /-- The wait ended without a data socket: take the entry out of `pending`. -/
  | removePending
  /-- The handling of the visitor is over; the data socket it was spliced to. -/
  | done (d : Option Tid)

end VisitorTask

/-- Waits (bounded) for the CLI's data socket, then splices. -/
def visitorTask (visitor : VisitorConn) : VisitorTask.Pc → Op → Option VisitorTask.Pc
  | .waiting, .received d => some (.piping d)
  | .waiting, .elapsed => some .removePending
  | .piping d, .piped => some (.done (some d))
  | .removePending, .removePending connId _ =>
      if connId = visitor.connId then some (.done none) else none
  | _, _ => none

/-! ## `handle_data_conn` -/

namespace HandleDataConn

/-- Where `handle_data_conn` is. -/
inductive Pc where
  | readFrame
  | claim (connId : String)
  | deliver (connId : String) (v : Tid)
  /-- The handler has returned; the `conn_id` that the connection announced. -/
  | done (connId : Option String)

end HandleDataConn

/-- Reads the opening `DataConn` frame and hands the socket to the visitor task
    waiting on that `conn_id`. -/
def handleDataConn : HandleDataConn.Pc → Op → Option HandleDataConn.Pc
  | .readFrame, .readFrame (some (some (.dataConn m))) => some (.claim m.connId)
  | .readFrame, .readFrame _ => some (.done none)
  | .claim connId, .removePending connId' (some v) =>
      if connId' = connId then some (.deliver connId v) else none
  | .claim connId, .removePending connId' none =>
      if connId' = connId then some (.done (some connId)) else none
  | .deliver connId v, .deliver v' _ => if v' = v then some (.done (some connId)) else none
  | _, _ => none

/-! ## All tasks -/

/-- A task of a node. -/
inductive NodeTask where
  /-- Not started. -/
  | idle
  | session (pc : RunSession.Pc)
  | loop (ctx : LoopCtx) (aborted : Bool) (pc : TunnelAcceptLoop.Pc)
  | visitor (vis : VisitorConn) (pc : VisitorTask.Pc)
  | dataConn (pc : HandleDataConn.Pc)

/-- Where a task goes after one operation of its own. -/
def NodeTask.next : NodeTask → Op → Option NodeTask
  | .idle, .dataConnect => some (.dataConn .readFrame)
  | .session pc, op => (runSession pc op).map .session
  | .loop ctx aborted pc, op => (tunnelAcceptLoop ctx aborted pc op).map (.loop ctx aborted)
  | .visitor vis pc, op => (visitorTask vis pc op).map (.visitor vis)
  | .dataConn pc, op => (handleDataConn pc op).map .dataConn
  | _, _ => none

/-- The other task that an operation is about. -/
def Op.child : Op → Option Tid
  | .spawnLoop l _ | .abort _ l => some l
  | .accept (some (v, _)) | .insertPending _ v | .spawn v | .dropVisitor v | .cancelLock _ v
  | .cancelWrite _ _ v => some v
  | _ => none

/-- What an operation does to the other task that it is about. -/
def NodeTask.adopt : Op → NodeTask → Option NodeTask
  | .spawnLoop _ ctx, .idle => some (.loop ctx false .accept)
  | .abort _ _, .loop ctx _ pc => some (.loop ctx true pc)
  | .accept (some (_, vis)), .idle => some (.visitor vis .accepted)
  | .insertPending _ _, .visitor vis .accepted => some (.visitor vis .reporting)
  | .spawn _, .visitor vis .reporting => some (.visitor vis .waiting)
  | .dropVisitor _, .visitor vis .reporting | .cancelLock _ _, .visitor vis .reporting
  | .cancelWrite _ _ _, .visitor vis .reporting => some (.visitor vis (.done none))
  | _, _ => none

/-- The node's tasks over its shared state. -/
def nodeTasks : Conc.Tasks Tid NodeTask Op NodeState where
  next := fun _ => NodeTask.next
  exec := NodeState.exec
  child := Op.child
  adopt := fun _ => NodeTask.adopt

/-- A configuration of the node. -/
abbrev NodeConf := Conc.Conf Tid NodeTask NodeState

/-- The node at startup: its main task is about to open the first session. -/
def NodeConf.start : NodeConf where
  shared := NodeState.new
  task := fun t => if t = 0 then .session (.connect 0) else .idle

/-- Every interleaving of the node's tasks. -/
def node : Conc.Lts NodeConf (Tid × Op) :=
  nodeTasks.lts NodeConf.start

end Borehole.Node
