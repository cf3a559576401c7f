/-
  Borehole.Cli.Control

  The control flow of a `borehole start` process (crates/cli/src/main.rs and
  tunnel.rs), in the form of `Borehole.Server.Control`.

  The main task runs `run_tunnel_loop`: one call of `tunnel::run` after another,
  each with its own control connection.  For every `NewConn` it spawns a task
  that serves one visitor.
-/

import Borehole.Server.State
import Borehole.Conc.Tasks

namespace Borehole.Cli

/-- The arguments of the start command. -/
structure Start where
  localPort : UInt16
  remotePort : Option UInt16
  protocol : Protocol
  node : Option String
  deriving DecidableEq, Repr

/-- What `run` takes from the configuration file. -/
structure Config where
  serverAddr : String
  token : String
  deriving DecidableEq, Repr

/-- Where a data connection goes: an edge node, or the server's data port, which
    is one above the control port of its address. -/
inductive Endpoint where
  | node (host : String) (port : UInt16)
  | server (addr : String)
  deriving DecidableEq, Repr

/-- What the task that serves a visitor captures. -/
structure DataCtx where
  serverAddr : String
  connId : String
  localPort : UInt16
  node : Option (String × UInt16)
  deriving DecidableEq, Repr

/-- The operations of the process. -/
inductive Op where
  /-- The configuration and the TLS connector: `none` if one of them cannot be
      had. -/
  | load (cfg : Option Config)
  | connect (addr : String) (ok : Bool)
  | handshake (ok : Bool)
  /-- `hostname::get()` -/
  | hostname (name : Option String)
  | sendRegister (register : Register) (ok : Bool)
  /-- A line of the control stream: `none` at end of stream or on an I/O error. -/
  | readLine (line : Option Line)
  | ctrlC
  /-- The pause before the next attempt. -/
  | sleep
  /-- `tokio::spawn` of the task that serves a visitor. -/
  | spawn (d : Tid) (ctx : DataCtx)
  | dial (endpoint : Endpoint) (ok : Bool)
  | announce (m : Message) (ok : Bool)
  | dialLocal (port : UInt16) (ok : Bool)
  /-- `copy_bidirectional` returns. -/
  | copied
  deriving DecidableEq, Repr

/-! ## `tunnel::run` -/

namespace Run

/-- Where `run` is. -/
inductive Pc where
  | load
  | connect (cfg : Config)
  | handshake (cfg : Config)
  | hostname (cfg : Config)
  | register (cfg : Config) (hostname : Option String)
  | verdict (cfg : Config)
  /-- At the `select!`. -/
  | serve (cfg : Config)
  | spawn (cfg : Config) (notice : NewConn)
  deriving DecidableEq, Repr

/-- On to a program counter, or back to the loop with `Ok` or `Err`. -/
inductive Outcome where
  | at (pc : Pc)
  | ok
  | err

/-- The `Register` of an attempt. -/
def registerMsg (start : Start) (cfg : Config) (hostname : Option String) : Register where
  token := cfg.token
  protocol := start.protocol
  localPort := start.localPort
  remotePort := start.remotePort
  node := start.node
  hostname := hostname

/-- What the task for a `NewConn` captures. -/
def dataCtx (start : Start) (cfg : Config) (notice : NewConn) : DataCtx where
  serverAddr := cfg.serverAddr
  connId := notice.connId
  localPort := start.localPort
  node := notice.nodeHost.bind fun host => notice.nodePort.map fun port => (host, port)

end Run

open Run in
/-- Opens the tunnel and runs the control loop until the server disconnects. -/
def run (start : Start) : Run.Pc → Op → Option Outcome
  | .load, .load (some cfg) => some (.at (.connect cfg))
  | .load, .load none => some .err
  | .connect cfg, .connect addr true =>
      if addr = cfg.serverAddr then some (.at (.handshake cfg)) else none
  | .connect cfg, .connect addr false => if addr = cfg.serverAddr then some .err else none
  | .handshake cfg, .handshake true => some (.at (.hostname cfg))
  | .handshake _, .handshake false => some .err
  | .hostname cfg, .hostname name => some (.at (.register cfg name))
  | .register cfg name, .sendRegister r true =>
      if r = registerMsg start cfg name then some (.at (.verdict cfg)) else none
  | .register cfg name, .sendRegister r false =>
      if r = registerMsg start cfg name then some .err else none
  | .verdict cfg, .readLine (some (some (.registered _))) => some (.at (.serve cfg))
  | .verdict _, .readLine _ => some .err
  | .serve _, .ctrlC => some .ok
  | .serve cfg, .readLine (some (some (.newConn notice))) => some (.at (.spawn cfg notice))
  | .serve cfg, .readLine (some _) => some (.at (.serve cfg))
  -- an unexpected close, so that the loop tries again
  | .serve _, .readLine none => some .err
  | .spawn cfg notice, .spawn _ ctx =>
      if ctx = dataCtx start cfg notice then some (.at (.serve cfg)) else none
  | _, _ => none

/-! ## `run_tunnel_loop` -/

namespace RunTunnelLoop

/-- Where `run_tunnel_loop` is, in which attempt. -/
inductive Pc where
  | running (attempts : Nat) (pc : Run.Pc)
  | backoff (attempts : Nat)
  /-- The loop has returned, with `Ok` or `Err`. -/
  | exited (ok : Bool)
  deriving DecidableEq, Repr

/-- What the loop makes of the result of `run`. -/
def resume (attempts : Nat) : Run.Outcome → Pc
  | .at pc => .running attempts pc
  | .ok => .exited true
  | .err => if attempts < 3 then .backoff attempts else .exited false

end RunTunnelLoop

open RunTunnelLoop in
/-- Runs a tunnel, retrying up to 3 times on unexpected disconnects. -/
def runTunnelLoop (start : Start) : RunTunnelLoop.Pc → Op → Option RunTunnelLoop.Pc
  | .running attempts pc, op => (run start pc op).map (resume attempts)
  | .backoff attempts, .sleep => some (.running (attempts + 1) .load)
  | _, _ => none

/-! ## `handle_data_conn` -/

namespace HandleDataConn

/-- Where `handle_data_conn` is. -/
inductive Pc where
  | connect
  | announce
  | dialLocal
  | piping
  | done
  deriving DecidableEq, Repr

/-- Where the data connection goes: to the node if there is one. -/
def endpoint (ctx : DataCtx) : Endpoint :=
  match ctx.node with
  | some (host, port) => .node host port
  | none => .server ctx.serverAddr

end HandleDataConn

open HandleDataConn in
/-- Serves a single visitor: connects to the data endpoint, announces the
    `conn_id`, dials the local service and splices both ends. -/
def handleDataConn (ctx : DataCtx) : HandleDataConn.Pc → Op → Option HandleDataConn.Pc
  | .connect, .dial e ok =>
      if e = endpoint ctx then some (if ok then .announce else .done) else none
  | .announce, .announce m ok =>
      if m = .dataConn ⟨ctx.connId⟩ then some (if ok then .dialLocal else .done) else none
  | .dialLocal, .dialLocal port ok =>
      if port = ctx.localPort then some (if ok then .piping else .done) else none
  | .piping, .copied => some .done
  | _, _ => none

/-! ## The process -/

/-- A task of the process: the loop of attempts, or one for a visitor. -/
inductive CliTask where
  /-- Not started. -/
  | idle
  | main (pc : RunTunnelLoop.Pc)
  | data (ctx : DataCtx) (pc : HandleDataConn.Pc)
  deriving DecidableEq, Repr

/-- The task after an operation. -/
def CliTask.next (start : Start) : CliTask → Op → Option CliTask
  | .main pc, op => (runTunnelLoop start pc op).map .main
  | .data ctx pc, op => (handleDataConn ctx pc op).map (.data ctx)
  | .idle, _ => none

/-- What becomes of a task that another one starts. -/
def CliTask.adopt : Op → CliTask → Option CliTask
  | .spawn _ ctx, .idle => some (.data ctx .connect)
  | _, _ => none

/-- The task that an operation starts. -/
def Op.child : Op → Option Tid
  | .spawn d _ => some d
  | _ => none

/-- The tasks of the process, which share nothing. -/
def cliTasks (start : Start) : Conc.Tasks Tid CliTask Op Unit where
  next := fun _ => CliTask.next start
  exec := fun _ _ _ => some ()
  child := Op.child
  adopt := fun _ => CliTask.adopt

/-- A state of the process. -/
abbrev Process := Conc.Conf Tid CliTask Unit

/-- The main task is task 0. -/
def Process.start : Process where
  shared := ()
  task := fun t => if t = 0 then .main (.running 0 .load) else .idle

/-- The process of one start command. -/
def cli (start : Start) : Conc.Lts Process (Tid × Op) :=
  (cliTasks start).lts Process.start

end Borehole.Cli
