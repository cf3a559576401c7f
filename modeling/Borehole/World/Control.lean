/-
  Borehole.World.Control

  One server, any number of edge nodes and any number of `borehole start`
  processes, connected by a network.

  Each program is the one of its own modules; a step of the whole is a step of
  one program, together with what it does on the network, or the arrival of a
  connection at a listening port.  A connection to a data port may also come
  from a stranger, who is no party and sends what it likes.

  Only what binds the programs together is decided here: that a line which
  decodes is a frame the other end wrote, and which connections reach which
  tasks.  A connection that a process opens for a visitor may end up at any
  data port, whatever address the process was given.
-/

import Borehole.Conc.Network
import Borehole.Cli.Control
import Borehole.Node.Steps
import Borehole.Server.Steps

namespace Borehole

open Conc

/-- Where a connection is accepted. -/
inductive Host where
  | server
  | node (n : Nat)
  deriving DecidableEq

/-- Who opens a connection. -/
inductive Party where
  /-- The control connection of an attempt of a CLI process. -/
  | cli (p : Nat) (attempt : Nat)
  /-- The control connection of a session of a node. -/
  | node (n : Nat) (s : Nat)
  /-- The data connection that a task of a CLI process opens for a visitor. -/
  | data (p : Nat) (k : Tid)
  deriving DecidableEq

/-- Whether the connection goes to the server's control port. -/
def Party.control : Party → Bool
  | .cli _ _ | .node _ _ => true
  | .data _ _ => false

/-- An accepted connection and the task that serves it. -/
structure Connection where
  party : Party
  host : Host
  task : Tid
  deriving DecidableEq

/-- The programs, the network between them and the connections that they have accepted. -/
structure World where
  server : Server
  node : Nat → Node.NodeConf
  cli : Nat → Cli.Process
  net : Network Party Message
  /-- The accepted connections, latest first. -/
  conns : List Connection
  /-- The tunnels whose DELETE was answered with 204. -/
  answered : List String

namespace World

/-- What is configured. -/
structure Setup where
  server : ServerConfig
  node : Nat → RegisterNode
  cli : Nat → Cli.Start

/-- Who is at the other end of the connection that a task serves. -/
def peer (w : World) (h : Host) (t : Tid) : Option Party :=
  (w.conns.find? fun x => x.host = h ∧ x.task = t).map Connection.party

/-! ## What the programs do on the network -/

/-- What a step does on the network. -/
abbrev NetAct := Act Party Message

/-- A read from the connection with `peer`; a stranger sends anything. -/
def receive (peer : Option Party) (line : Option Line) : NetAct :=
  match peer with
  | some party => .get (.up party) line
  | none => .quiet

/-- The server's tasks read from their own connection, and write on that of any. -/
def serverAct (peer : Tid → Option Party) (t : Tid) : Op → NetAct
  | .connect _ line | .readLine line | .readFrame line => receive (peer t) line
  | .send u m _ | .sendUnlock u m _ =>
      match peer u with
      | some party => .put (.down party) m
      | none => .quiet
  | _ => .quiet

/-- A node's sessions use the connection that they have opened; the loops write on it as
    well. -/
def nodeAct (reg : RegisterNode) (n : Nat) (peer : Tid → Option Party) (t : Tid) :
    Node.NodeTask → Node.Op → NetAct
  | .session (.connect s), .connect true => .dial (.node n s)
  | .session (.register s), .sendRegister _ => .put (.up (.node n s)) (.registerNode reg)
  | .session (.verdict s), .readVerdict line => .get (.down (.node n s)) line
  | .session _, .readOrder s line => .get (.down (.node n s)) line
  -- the frame is on its way with its last byte
  | .loop ctx _ (.write _ connId rest), .write s bytes =>
      if bytes = rest then .put (.up (.node n s)) (.visitorConn ⟨ctx.tunnelId, connId⟩) else .quiet
  | .dataConn _, .readFrame line => receive (peer t) line
  | _, _ => .quiet

/-- The main task of a process uses the connection of its attempt, the others those that
    they open for a visitor. -/
def cliAct (p : Nat) (k : Tid) : Cli.CliTask → Cli.Op → NetAct
  | .main (.running a _), .connect _ true => .dial (.cli p a)
  | .main (.running a _), .sendRegister r _ => .put (.up (.cli p a)) (.register r)
  | .main (.running a _), .readLine line => .get (.down (.cli p a)) line
  | .data _ _, .dial _ true => .dial (.data p k)
  | .data _ _, .announce m _ => .put (.up (.data p k)) m
  | _, _ => .quiet

/-- What the server does on the network. -/
inductive ServerActs (peer : Tid → Option Party) (t : Tid) : Op → NetAct → Prop where
  | connect {host : String} {line : Option Line} {party : Party} (hp : peer t = some party) :
      ServerActs peer t (.connect host line) (.get (.up party) line)
  | readLine {line : Option Line} {party : Party} (hp : peer t = some party) :
      ServerActs peer t (.readLine line) (.get (.up party) line)
  | readFrame {line : Option Line} {party : Party} (hp : peer t = some party) :
      ServerActs peer t (.readFrame line) (.get (.up party) line)
  | send {u : Tid} {m : Message} {ok : Bool} {party : Party} (hp : peer u = some party) :
      ServerActs peer t (.send u m ok) (.put (.down party) m)
  | sendUnlock {u : Tid} {m : Message} {ok : Bool} {party : Party} (hp : peer u = some party) :
      ServerActs peer t (.sendUnlock u m ok) (.put (.down party) m)
  | quiet {op : Op} : ServerActs peer t op .quiet

theorem serverAct_acts (peer : Tid → Option Party) (t : Tid) (op : Op) :
    ServerActs peer t op (serverAct peer t op) := by
  unfold serverAct receive
  split
  · split
    · exact .connect ‹_›
    · exact .quiet
  · split
    · exact .readLine ‹_›
    · exact .quiet
  · split
    · exact .readFrame ‹_›
    · exact .quiet
  · split
    · exact .send ‹_›
    · exact .quiet
  · split
    · exact .sendUnlock ‹_›
    · exact .quiet
  · exact .quiet

/-- What node `n` does on the network. -/
inductive NodeActs (reg : RegisterNode) (n : Nat) (peer : Tid → Option Party) (t : Tid)
    (k : Node.NodeTask) : Node.Op → NetAct → Prop where
  | dial {s : Nat} (hk : k = .session (.connect s)) :
      NodeActs reg n peer t k (.connect true) (.dial (.node n s))
  | register {s : Nat} {ok : Bool} (hk : k = .session (.register s)) :
      NodeActs reg n peer t k (.sendRegister ok) (.put (.up (.node n s)) (.registerNode reg))
  | verdict {s : Nat} {line : Option Line} (hk : k = .session (.verdict s)) :
      NodeActs reg n peer t k (.readVerdict line) (.get (.down (.node n s)) line)
  | order {pc : Node.RunSession.Pc} {s : Nat} {line : Option Line} (hk : k = .session pc) :
      NodeActs reg n peer t k (.readOrder s line) (.get (.down (.node n s)) line)
  | report {ctx : Node.LoopCtx} {aborted : Bool} {v : Tid} {connId : String}
      {rest : List UInt8} {s : Nat} (hk : k = .loop ctx aborted (.write v connId rest)) :
      NodeActs reg n peer t k (.write s rest)
        (.put (.up (.node n s)) (.visitorConn ⟨ctx.tunnelId, connId⟩))
  | frame {line : Option Line} {party : Party} (hp : peer t = some party) :
      NodeActs reg n peer t k (.readFrame line) (.get (.up party) line)
  | quiet {op : Node.Op} : NodeActs reg n peer t k op .quiet

theorem nodeAct_acts (reg : RegisterNode) (n : Nat) (peer : Tid → Option Party) (t : Tid)
    (k : Node.NodeTask) (op : Node.Op) :
      NodeActs reg n peer t k op (nodeAct reg n peer t k op) := by
  unfold nodeAct receive
  split
  · exact .dial rfl
  · exact .register rfl
  · exact .verdict rfl
  · exact .order rfl
  · split
    · rename_i hbytes
      rw [hbytes]
      exact .report rfl
    · exact .quiet
  · split
    · exact .frame ‹_›
    · exact .quiet
  · exact .quiet

/-- What task `k` of process `p` does on the network. -/
inductive CliActs (p : Nat) (k : Tid) (task : Cli.CliTask) : Cli.Op → NetAct → Prop where
  | dial {a : Nat} {pc : Cli.Run.Pc} {addr : String} (hk : task = .main (.running a pc)) :
      CliActs p k task (.connect addr true) (.dial (.cli p a))
  | register {a : Nat} {pc : Cli.Run.Pc} {r : Register} {ok : Bool}
      (hk : task = .main (.running a pc)) :
      CliActs p k task (.sendRegister r ok) (.put (.up (.cli p a)) (.register r))
  | readLine {a : Nat} {pc : Cli.Run.Pc} {line : Option Line} (hk : task = .main (.running a pc)) :
      CliActs p k task (.readLine line) (.get (.down (.cli p a)) line)
  | dialData {ctx : Cli.DataCtx} {pc : Cli.HandleDataConn.Pc} {e : Cli.Endpoint}
      (hk : task = .data ctx pc) : CliActs p k task (.dial e true) (.dial (.data p k))
  | announce {ctx : Cli.DataCtx} {pc : Cli.HandleDataConn.Pc} {m : Message} {ok : Bool}
      (hk : task = .data ctx pc) : CliActs p k task (.announce m ok) (.put (.up (.data p k)) m)
  | quiet {op : Cli.Op} : CliActs p k task op .quiet

theorem cliAct_acts (p : Nat) (k : Tid) (task : Cli.CliTask) (op : Cli.Op) :
    CliActs p k task op (cliAct p k task op) := by
  unfold cliAct
  split
  · exact .dial rfl
  · exact .register rfl
  · exact .readLine rfl
  · exact .dialData rfl
  · exact .announce rfl
  · exact .quiet

/-! ## Connections -/

/-- Whether the server may start a connection task: a control connection is one
    that a party opened, a data connection may be a stranger's. -/
def admits (peer : Option Party) : Op → Bool
  | .connect _ _ => peer.any Party.control
  | .dataConnect => peer.all fun party => !party.control
  | _ => true

/-- The same for a node, which accepts data connections only. -/
def nodeAdmits (peer : Option Party) : Node.Op → Bool
  | .dataConnect => peer.all fun party => !party.control
  | _ => true

/-- A task that has not been started. -/
def free (w : World) : Host → Tid → Bool
  | .server, t =>
      match w.server.task t with
      | .idle => true
      | _ => false
  | .node n, t =>
      match (w.node n).task t with
      | .idle => true
      | _ => false

/-- The DELETE that an operation answers with 204. -/
def answers : ServerTask → Op → List String
  | .close (.notify id _), .notifyOne _ => [id]
  | _, _ => []

/-! ## Steps -/

/-- A step of one program, or the arrival of a connection. -/
inductive Label where
  | server (t : Tid) (op : Op)
  | node (n : Nat) (t : Tid) (op : Node.Op)
  | cli (p : Nat) (k : Tid) (op : Cli.Op)
  /-- A connection of `party` is accepted; task `t` of `h` is to serve it. -/
  | accept (h : Host) (t : Tid) (party : Party)

/-- What a step does on the network. -/
def act (d : Setup) (w : World) : Label → NetAct
  | .server t op => serverAct (w.peer .server) t op
  | .node n t op => nodeAct (d.node n) n (w.peer (.node n)) t ((w.node n).task t) op
  | .cli p k op => cliAct p k ((w.cli p).task k) op
  | .accept _ _ party => .accept party

/-- What a step does on the network, program by program. -/
inductive Acts (d : Setup) (w : World) : Label → NetAct → Prop where
  | server {t : Tid} {op : Op} {a : NetAct} (h : ServerActs (w.peer .server) t op a) :
      Acts d w (.server t op) a
  | node {n : Nat} {t : Tid} {op : Node.Op} {a : NetAct}
      (h : NodeActs (d.node n) n (w.peer (.node n)) t ((w.node n).task t) op a) :
      Acts d w (.node n t op) a
  | cli {p : Nat} {k : Tid} {op : Cli.Op} {a : NetAct}
      (h : CliActs p k ((w.cli p).task k) op a) : Acts d w (.cli p k op) a
  | accept {h : Host} {t : Tid} {party : Party} : Acts d w (.accept h t party) (.accept party)

theorem act_acts (d : Setup) (w : World) (l : Label) : Acts d w l (act d w l) := by
  cases l with
  | server t op => exact .server (serverAct_acts _ t op)
  | node n t op => exact .node (nodeAct_acts _ n _ t _ op)
  | cli p k op => exact .cli (cliAct_acts p k _ op)
  | accept => exact .accept

/-- What a step does to the programs and to the connections. -/
def programs (d : Setup) (w : World) : Label → Option World
  | .server t op =>
      if admits (w.peer .server t) op then
        ((Borehole.server d.server).step w.server (t, op)).map fun s =>
          { w with server := s, answered := answers (w.server.task t) op ++ w.answered }
      else none
  | .node n t op =>
      if nodeAdmits (w.peer (.node n) t) op then
        (Node.node.step (w.node n) (t, op)).map fun c =>
          { w with node := Function.update w.node n c }
      else none
  | .cli p k op =>
      ((Cli.cli (d.cli p)).step (w.cli p) (k, op)).map fun c =>
        { w with cli := Function.update w.cli p c }
  | .accept h t party =>
      if w.peer h t = none ∧ w.free h t = true then
        some { w with conns := ⟨party, h, t⟩ :: w.conns }
      else none

/-- A step of a program together with what it does on the network. -/
def step (d : Setup) (w : World) (l : Label) : Option World :=
  (programs d w l).bind fun w' => (w.net.exec (act d w l)).map fun n => { w' with net := n }

/-- All programs at their start, and no connection. -/
def start (d : Setup) : World where
  server := Server.start d.server
  node := fun _ => Node.NodeConf.start
  cli := fun _ => Cli.Process.start
  net := Network.empty
  conns := []
  answered := []

end World

/-- Every interleaving of the server, the nodes and the CLI processes. -/
def world (d : World.Setup) : Lts World World.Label where
  init := World.start d
  step := World.step d

namespace World

variable {d : Setup} {w w' : World} {l : Label}

/-- A step of the whole: what it does to the programs, and on the network. -/
theorem step_some (h : (world d).step w l = some w') :
    ∃ w₁, programs d w l = some w₁ ∧ w' = { w₁ with net := w'.net } ∧
      w.net.exec (act d w l) = some w'.net := by
  obtain ⟨w₁, hp, h⟩ := Option.bind_eq_some_iff.mp h
  obtain ⟨n, hn, rfl⟩ := Option.map_eq_some_iff.mp h
  exact ⟨w₁, hp, rfl, hn⟩

theorem step_net (h : (world d).step w l = some w') : w.net.exec (act d w l) = some w'.net := by
  obtain ⟨_, _, _, hn⟩ := step_some h
  exact hn

/-- What a step does to everything but the network. -/
inductive Step (d : Setup) (w : World) : Label → World → Prop where
  | server {t op s net} : admits (w.peer .server t) op = true →
      (Borehole.server d.server).step w.server (t, op) = some s →
      Step d w (.server t op)
        { w with server := s, net := net, answered := answers (w.server.task t) op ++ w.answered }
  | node {n t op c net} : nodeAdmits (w.peer (.node n) t) op = true →
      Node.node.step (w.node n) (t, op) = some c →
      Step d w (.node n t op) { w with node := Function.update w.node n c, net := net }
  | cli {p k op c net} : (Cli.cli (d.cli p)).step (w.cli p) (k, op) = some c →
      Step d w (.cli p k op) { w with cli := Function.update w.cli p c, net := net }
  | accept {h t party net} : w.peer h t = none → w.free h t = true →
      Step d w (.accept h t party) { w with conns := ⟨party, h, t⟩ :: w.conns, net := net }

theorem world_step (h : (world d).step w l = some w') : Step d w l w' := by
  obtain ⟨w₁, hp, he, _⟩ := step_some h
  rw [he]
  cases l with
  | server t op =>
      simp only [programs, Option.ite_none_right_eq_some, Option.map_eq_some_iff] at hp
      obtain ⟨ha, s, hs, rfl⟩ := hp
      exact .server ha hs
  | node n t op =>
      simp only [programs, Option.ite_none_right_eq_some, Option.map_eq_some_iff] at hp
      obtain ⟨ha, c, hs, rfl⟩ := hp
      exact .node ha hs
  | cli p k op =>
      simp only [programs, Option.map_eq_some_iff] at hp
      obtain ⟨c, hs, rfl⟩ := hp
      exact .cli hs
  | accept host t party =>
      simp only [programs, Option.ite_none_right_eq_some, Option.some.injEq] at hp
      obtain ⟨⟨hp, hf⟩, rfl⟩ := hp
      exact .accept hp hf

/-! ## The programs in a run -/

/-- A step of the server. -/
def Label.server? : Label → Option (Tid × Op)
  | .server t op => some (t, op)
  | _ => none

/-- A step of node `n`. -/
def Label.node? (n : Nat) : Label → Option (Tid × Node.Op)
  | .node m t op => if m = n then some (t, op) else none
  | _ => none

/-- A step of process `p`. -/
def Label.cli? (p : Nat) : Label → Option (Tid × Cli.Op)
  | .cli q k op => if q = p then some (k, op) else none
  | _ => none

theorem server_projection :
    Projection (world d) (Borehole.server d.server) World.server Label.server? where
  init := rfl
  own := by
    intro w l w' b hs hb
    cases world_step hs <;> cases hb
    assumption
  other := by
    intro w l w' hs hb
    cases world_step hs <;> first | rfl | cases hb

theorem node_projection (n : Nat) :
    Projection (world d) Node.node (fun w => w.node n) (Label.node? n) where
  init := rfl
  own := by
    intro w l w' b hs hb
    cases world_step hs with
    | @node m t op c _ _ hn =>
        simp only [Label.node?, Option.ite_none_right_eq_some, Option.some.injEq] at hb
        obtain ⟨rfl, rfl⟩ := hb
        simpa using hn
    | _ => cases hb
  other := by
    intro w l w' hs hb
    cases world_step hs with
    | @node m t op c _ _ _ =>
        simp only [Label.node?, ite_eq_right_iff, reduceCtorEq, imp_false] at hb
        exact Function.update_of_ne (Ne.symm hb) _ _
    | _ => rfl

theorem cli_projection (p : Nat) :
    Projection (world d) (Cli.cli (d.cli p)) (fun w => w.cli p) (Label.cli? p) where
  init := rfl
  own := by
    intro w l w' b hs hb
    cases world_step hs with
    | @cli q k op c _ hc =>
        simp only [Label.cli?, Option.ite_none_right_eq_some, Option.some.injEq] at hb
        obtain ⟨rfl, rfl⟩ := hb
        simpa using hc
    | _ => cases hb
  other := by
    intro w l w' hs hb
    cases world_step hs with
    | @cli q k op c _ _ =>
        simp only [Label.cli?, ite_eq_right_iff, reduceCtorEq, imp_false] at hb
        exact Function.update_of_ne (Ne.symm hb) _ _
    | _ => rfl

theorem step_server (hs : (world d).step w l = some w') : w'.server = w.server ∨
    ∃ t op, l = .server t op ∧
      (Borehole.server d.server).step w.server (t, op) = some w'.server := by
  obtain he | ⟨⟨t, op⟩, hl, hstep⟩ := server_projection.step hs
  · exact Or.inl he
  · cases l <;> cases hl
    exact Or.inr ⟨t, op, rfl, hstep⟩

theorem step_node (n : Nat) (hs : (world d).step w l = some w') : w'.node n = w.node n ∨
    ∃ t op, l = .node n t op ∧ Node.node.step (w.node n) (t, op) = some (w'.node n) := by
  obtain he | ⟨⟨t, op⟩, hl, hstep⟩ := (node_projection n).step hs
  · exact Or.inl he
  · cases l with
    | node m u op' =>
        simp only [Label.node?, Option.ite_none_right_eq_some, Option.some.injEq] at hl
        obtain ⟨rfl, he⟩ := hl
        cases he
        exact Or.inr ⟨t, op, rfl, hstep⟩
    | _ => cases hl

theorem step_cli (p : Nat) (hs : (world d).step w l = some w') : w'.cli p = w.cli p ∨
    ∃ k op, l = .cli p k op ∧ (Cli.cli (d.cli p)).step (w.cli p) (k, op) = some (w'.cli p) := by
  obtain he | ⟨⟨k, op⟩, hl, hstep⟩ := (cli_projection p).step hs
  · exact Or.inl he
  · cases l with
    | cli q u op' =>
        simp only [Label.cli?, Option.ite_none_right_eq_some, Option.some.injEq] at hl
        obtain ⟨rfl, he⟩ := hl
        cases he
        exact Or.inr ⟨k, op, rfl, hstep⟩
    | _ => cases hl

/-! ## Connections stay -/

theorem peer_cons {h h' : Host} {t t' : Tid} {party party' : Party} {net : Network Party Message}
    (hn : w.peer h t = none) (hp : w.peer h' t' = some party') :
    ({ w with conns := ⟨party, h, t⟩ :: w.conns, net := net } : World).peer h' t' =
      some party' := by
  have hne : ¬(h = h' ∧ t = t') := by
    rintro ⟨rfl, rfl⟩
    rw [hn] at hp
    cases hp
  rw [peer, List.find?_cons_of_neg (by simpa using hne)]
  exact hp

theorem step_peer {h : Host} {t : Tid} {party : Party} (hs : (world d).step w l = some w')
    (hp : w.peer h t = some party) : w'.peer h t = some party := by
  cases world_step hs with
  | accept hn _ => exact peer_cons hn hp
  | _ => exact hp

/-- A connection is there before its task starts. -/
theorem step_stranger {h : Host} {t : Tid} (hs : (world d).step w l = some w')
    (hp : w.peer h t = none) (hf : w.free h t = false) : w'.peer h t = none := by
  cases world_step hs with
  | @accept h' t' party net hn hfree =>
      have hne : ¬(h' = h ∧ t' = t) := by
        rintro ⟨rfl, rfl⟩
        rw [hf] at hfree
        cases hfree
      rw [peer, List.find?_cons_of_neg (by simpa using hne)]
      exact hp
  | _ => exact hp

/-- A connection is there for its task, and no other one is. -/
theorem conns_peer {ls : List Label} (hr : (world d).Run ls w) {x : Connection}
    (hx : x ∈ w.conns) : w.peer x.host x.task = some x.party := by
  refine Lts.Run.induct (L := world d)
    (P := fun _ w => ∀ x ∈ w.conns, w.peer x.host x.task = some x.party) nofun ?_ hr x hx
  intro ls w l w' _ ih hs x hx
  cases world_step hs with
  | @accept h t party net hn _ =>
      obtain rfl | hx := List.mem_cons.mp hx
      · rw [peer, List.find?_cons_of_pos (by simp)]
        rfl
      · exact peer_cons hn (ih x hx)
  | _ => exact ih x hx

theorem peer_mem {h : Host} {t : Tid} {party : Party} (hp : w.peer h t = some party) :
    ⟨party, h, t⟩ ∈ w.conns := by
  obtain ⟨x, hfind, rfl⟩ := Option.map_eq_some_iff.mp hp
  have hx := List.find?_some hfind
  obtain ⟨rfl, rfl⟩ := of_decide_eq_true hx
  exact List.mem_of_find?_eq_some hfind

theorem step_conns {x : Connection} (hs : (world d).step w l = some w') (hx : x ∈ w.conns) :
    x ∈ w'.conns := by
  cases world_step hs with
  | accept _ _ => exact List.mem_cons_of_mem _ hx
  | _ => exact hx

theorem free_server {t : Tid} : w.free .server t = false ↔ w.server.task t ≠ .idle := by
  rw [free]
  split
  · exact ⟨nofun, fun h => absurd ‹_› h⟩
  · exact ⟨fun _ => ‹_›, fun _ => rfl⟩

theorem free_node {n : Nat} {t : Tid} : w.free (.node n) t = false ↔ (w.node n).task t ≠ .idle := by
  rw [free]
  split
  · exact ⟨nofun, fun h => absurd ‹_› h⟩
  · exact ⟨fun _ => ‹_›, fun _ => rfl⟩

/-- A task that has started does not start again. -/
theorem step_started {h : Host} {t : Tid} (hs : (world d).step w l = some w')
    (hf : w.free h t = false) : w'.free h t = false := by
  cases h with
  | server =>
      rw [free_server] at hf ⊢
      obtain he | ⟨_, _, _, hstep⟩ := step_server hs
      · rwa [he]
      · exact server_not_idle hstep hf
  | node n =>
      rw [free_node] at hf ⊢
      obtain he | ⟨_, _, _, hstep⟩ := step_node n hs
      · rwa [he]
      · exact Node.node_not_idle hstep hf

/-- The connection of a task that has started stays the same. -/
theorem step_peer_eq {h : Host} {t : Tid} (hs : (world d).step w l = some w')
    (hf : w.free h t = false) : w'.peer h t = w.peer h t := by
  cases hpeer : w.peer h t with
  | none => exact step_stranger hs hpeer hf
  | some party => exact step_peer hs hpeer

end World
end Borehole
