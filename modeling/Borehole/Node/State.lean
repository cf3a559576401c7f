/-
  Borehole.Node.State

  What the tasks of an edge node share (crates/node/src/main.rs): the `pending`
  map, which outlives sessions, and for each session the writer to the server
  control stream.

  Sessions are numbered.  `bound` are the public ports that a listener of this
  node occupies: a bind succeeds only on a port that is not among them, and a
  listener is closed when the accept loop that owns it is dropped.  `wire s` is what
  has been written to the stream of session `s` since it registered: one `write`
  operation is one poll of `write_all`, which may take any nonempty part of what is
  left.  A task can be cancelled at an await point only, and what it held is dropped
  there: the mutex guard, the visitor's socket and its receiver, but nothing that is
  in `pending` or on the wire.
-/

import Borehole.Server.State

namespace Borehole.Node

/-- The accept loop of a tunnel: its session, its tunnel and the public port. -/
structure LoopCtx where
  session : Nat
  tunnelId : String
  port : UInt16
  deriving DecidableEq, Repr

/-- State shared by the tasks of a node. -/
structure NodeState where
  /-- `conn_id` -> the visitor whose oneshot sender is waiting there. -/
  pending : Finmap (fun _ : String => Tid)
  bound : UInt16 → Bool
  writer : Nat → Option Tid
  wire : Nat → List UInt8
  /-- A write to the stream has failed. -/
  failed : Nat → Bool
  oneshot : Tid → Oneshot

/-- The operations of a node's tasks. -/
inductive Op where
  /-- TCP connect and TLS handshake. -/
  | connect (ok : Bool)
  | sendRegister (ok : Bool)
  | readVerdict (line : Option Line)
  /-- A line of the control stream: `none` at end of stream or on an I/O error. -/
  | readOrder (s : Nat) (line : Option Line)
  | bind (port : UInt16) (ok : Bool)
  /-- `tokio::spawn` of the accept loop of a tunnel. -/
  | spawnLoop (l : Tid) (ctx : LoopCtx)
  /-- `JoinHandle::abort` -/
  | abort (tunnelId : String) (l : Tid)
  | sleep
  /-- `listener.accept()` and the fresh `conn_id`: `none` on an accept error. -/
  | accept (got : Option (Tid × VisitorConn))
  /-- Code between two awaits that touches nothing shared. -/
  | compute
  | insertPending (connId : String) (v : Tid)
  | removePending (connId : String) (got : Option Tid)
  | lockWriter (s : Nat)
  | unlockWriter (s : Nat)
  | write (s : Nat) (bytes : List UInt8)
  | writeFailed (s : Nat)
  | flush (s : Nat) (ok : Bool)
  | spawn (v : Tid)
  /-- The accept loop gives up on visitor `v`: its socket and receiver drop. -/
  | dropVisitor (v : Tid)
  /-- An aborted accept loop is dropped while it awaits a visitor, ... -/
  | cancelAccept (port : UInt16)
  /-- ... while it awaits the writer, ... -/
  | cancelLock (port : UInt16) (v : Tid)
  /-- ... or while it awaits a write or a flush and holds the writer. -/
  | cancelWrite (port : UInt16) (s : Nat) (v : Tid)
  /-- A connection to the data port. -/
  | dataConnect
  /-- The opening frame of a data connection. -/
  | readFrame (line : Option Line)
  /-- `oneshot::Sender::send`: fails when the receiver is gone. -/
  | deliver (v : Tid) (ok : Bool)
  /-- The bounded wait of a visitor ends with a data socket. -/
  | received (d : Tid)
  /-- The bounded wait of a visitor ends without one. -/
  | elapsed
  /-- `proxy::pipe` returns. -/
  | piped

namespace NodeState

/-- Nothing is pending, bound, locked or written. -/
def new : NodeState where
  pending := ∅
  bound := fun _ => false
  writer := fun _ => none
  wire := fun _ => []
  failed := fun _ => false
  oneshot := fun _ => Oneshot.new

/-- What an operation of task `t` does to the shared state; `none` if it cannot
    have the result it carries. -/
def exec (n : NodeState) (t : Tid) : Op → Option NodeState
  | .bind port true =>
      if n.bound port = false then some { n with bound := Function.update n.bound port true }
      else none
  | .accept (some (v, _)) => some { n with oneshot := Function.update n.oneshot v Oneshot.new }
  | .insertPending connId v => some { n with pending := n.pending.insert connId v }
  | .removePending connId got =>
      if n.pending.lookup connId = got then
        some { n with pending := n.pending.erase connId }
      else none
  | .lockWriter s =>
      if n.writer s = none then some { n with writer := Function.update n.writer s (some t) }
      else none
  | .unlockWriter s =>
      if n.writer s = some t then some { n with writer := Function.update n.writer s none }
      else none
  | .write s bytes =>
      if n.writer s = some t then
        some { n with wire := Function.update n.wire s (n.wire s ++ bytes) }
      else none
  | .writeFailed s | .flush s false =>
      if n.writer s = some t then some { n with failed := Function.update n.failed s true }
      else none
  | .flush s true => if n.writer s = some t then some n else none
  | .dropVisitor v =>
      some { n with oneshot := Function.update n.oneshot v ⟨none, false⟩ }
  | .cancelAccept port => some { n with bound := Function.update n.bound port false }
  | .cancelLock port v =>
      some { n with
        bound := Function.update n.bound port false
        oneshot := Function.update n.oneshot v ⟨none, false⟩ }
  | .cancelWrite port s v =>
      if n.writer s = some t then
        some { n with
          bound := Function.update n.bound port false
          writer := Function.update n.writer s none
          oneshot := Function.update n.oneshot v ⟨none, false⟩ }
      else none
  | .deliver v ok =>
      if (n.oneshot v).receiver = ok then
        some { n with
          oneshot := Function.update n.oneshot v
            (if ok then ⟨some t, true⟩ else n.oneshot v) }
      else none
  | .received d =>
      if (n.oneshot t).value = some d then
        some { n with oneshot := Function.update n.oneshot t ⟨none, false⟩ }
      else none
  | .elapsed => some { n with oneshot := Function.update n.oneshot t ⟨none, false⟩ }
  | .connect _ | .sendRegister _ | .readVerdict _ | .readOrder _ _ | .bind _ false |
    .spawnLoop _ _ | .abort _ _ | .sleep | .accept none | .compute | .spawn _ | .dataConnect |
    .readFrame _ | .piped => some n

end NodeState

end Borehole.Node
