/-
  Borehole.Server.Locks

  The mutexes of the server one by one: who waits for which, and who holds it.

  `Borehole.Server.Control` makes each critical section one operation.  Here a
  task first gets the mutex that its next operation locks, and performs the
  operation, which lets go of it, later.  The mutex of a writer is held from one
  operation to another in either system.  The requests of the dashboard lock one
  table after another.
-/

import Borehole.Conc.LockOrder
import Borehole.Conc.Network
import Borehole.Server.Ports
import Borehole.Server.Writers

namespace Borehole

/-- The tables of the server that have a mutex. -/
inductive Table where
  | portPool
  | activeTunnels
  | pending
  /-- The node registry. -/
  | nodes
  | devices
  | tunnelHistory
  | connectionHistory
  | apiTokens
  deriving DecidableEq

/-- The async mutexes of the server. -/
inductive Mutex where
  | table (m : Table)
  /-- The mutex around the writer of control stream `w`. -/
  | writer (w : Tid)
  deriving DecidableEq

/-! ## Who locks what -/

/-- The mutex that an operation has to get first.  A port out of range is refused,
    and not given back, without the pool's mutex. -/
def Op.locks? (pool : PortManager) : Op → Option Mutex
  | .acquire _ => some (.table .portPool)
  | .acquireSpecific port _ | .release port =>
      if pool.inRange port then some (.table .portPool) else none
  | .pick _ _ | .registerNode _ | .removeNode _ | .incrementTunnels _ | .decrementTunnels _ =>
      some (.table .nodes)
  | .insertTunnel _ _ | .removeTunnel _ _ | .getRoute _ _ | .getClose _ _ =>
      some (.table .activeTunnels)
  | .insertPending _ _ | .removePending _ _ => some (.table .pending)
  | .upsertDevice _ _ _ => some (.table .devices)
  | .recordTunnel _ => some (.table .tunnelHistory)
  | .recordConnection _ => some (.table .connectionHistory)
  | .lockWriter w => some (.writer w)
  | _ => none

/-- The mutex that the next operation of `serve_tunnel` needs. -/
def ServeTunnel.Pc.locks? : ServeTunnel.Pc → Option Mutex
  | .insertPending _ _ | .removePending _ _ => some (.table .pending)
  | _ => none

/-- The mutex that the next operation of `serve_cli_direct` needs. -/
def ServeCliDirect.Pc.locks? : ServeCliDirect.Pc → Option Mutex
  | .record _ => some (.table .activeTunnels)
  | .serve pc => pc.locks?
  | _ => none

/-- The mutex that the next operation of `serve_cli_via_node` needs. -/
def ServeCliViaNode.Pc.locks? (t : Tid) (node : NodeInfo) : ServeCliViaNode.Pc → Option Mutex
  | .lockNode | .lockClose => some (.writer node.tx)
  | .lockFallback | .lockCli => some (.writer t)
  | .fallback pc => pc.locks?
  | .record _ => some (.table .activeTunnels)
  | .increment _ | .decrement => some (.table .nodes)
  | _ => none

/-- The mutex that the next operation of `handle_cli` needs; a port out of range is refused
    without a look at the pool. -/
def HandleCli.Pc.locks? (pool : PortManager) (s : SessionCtx) : HandleCli.Pc → Option Mutex
  | .device _ _ => some (.table .devices)
  | .acquire =>
      match s.register.remotePort with
      | some port => if pool.inRange port then some (.table .portPool) else none
      | none => some (.table .portPool)
  | .pick _ => some (.table .nodes)
  | .direct _ pc => pc.locks?
  | .viaNode _ node pc => pc.locks? s.task node
  | .remove _ => some (.table .activeTunnels)
  | .archive _ _ _ => some (.table .tunnelHistory)
  | .release ctx => if pool.inRange ctx.port then some (.table .portPool) else none
  | _ => none

/-- The mutex that the forwarding of a visitor needs next. -/
def ForwardVisitor.Pc.locks? : ForwardVisitor.Pc → Option Mutex
  | .lookup => some (.table .activeTunnels)
  | .lockCli route => some (.writer route.writer)
  | .send _ => none

/-- The mutex that the next operation of `handle_node` needs. -/
def HandleNode.Pc.locks? (t : Tid) : HandleNode.Pc → Option Mutex
  | .register _ | .ackFailed _ | .remove _ => some (.table .nodes)
  | .lockAck _ => some (.writer t)
  | .forward _ _ pc => pc.locks?
  | _ => none

/-- The mutex that the task of a visitor needs next. -/
def VisitorTask.Pc.locks? : VisitorTask.Pc → Option Mutex
  | .record _ _ _ => some (.table .connectionHistory)
  | .removePending => some (.table .pending)
  | _ => none

/-- The mutex that task `t` gets next, if it stands before one. -/
def ServerTask.locks? (pool : PortManager) (t : Tid) : ServerTask → Option Mutex
  | .cli register pc => pc.locks? pool ⟨t, register⟩
  | .node _ _ pc => pc.locks? t
  | .visitor _ pc => pc.locks?
  | .dataConn (.claim _) => some (.table .pending)
  | .close (.lookup _) => some (.table .activeTunnels)
  | _ => none

section Steps

variable {tokens : List String} {s : SessionCtx} {ctx : TunnelCtx} {node : NodeInfo} {op : Op}
  {pool : PortManager}

theorem ServeCliDirect.Step.locks {pc : Pc} {fl : Flow Pc} (h : Step s ctx pc op fl) :
    op.locks? pool = pc.locks? := by
  cases h with
  | serve h | served h => cases h <;> rfl
  | _ => rfl

theorem ServeCliViaNode.Step.locks {pc : Pc} {fl : Flow Pc} (h : Step s ctx node pc op fl) :
    op.locks? pool = pc.locks? s.task node := by
  cases h with
  | fallback h | fellBack h => exact h.locks
  | _ => rfl

theorem HandleCli.Step.locks {pc pc' : Pc} (h : Step tokens s pc op pc') :
    op.locks? pool = pc.locks? pool s := by
  cases h with
  | acquireSpecific hp | taken hp | acquire hp | exhausted hp =>
      simp only [Op.locks?, Pc.locks?, hp]
  | direct h | directRet h => exact h.locks
  | viaNode h | viaNodeRet h => exact h.locks
  | _ => rfl

theorem HandleNode.Step.locks {t : Tid} {host : String} {reg : RegisterNode} {pc pc' : Pc}
    (h : Step tokens t host reg pc op pc') : op.locks? pool = pc.locks? t := by
  cases h with
  | forward h | forwarded h => cases h <;> rfl
  | _ => rfl

/-- A task locks the mutex that its program counter says and no other. -/
theorem ServerTask.Step.locks {t : Tid} {k k' : ServerTask} (h : Step tokens t k op k') :
    op.locks? pool = k.locks? pool t := by
  cases h with
  | cli h => exact h.locks
  | node h => exact h.locks
  | visitor h | dataConn h | close h => cases h <;> rfl
  | _ => rfl

/-- A visitor is handed something before it stands before a mutex. -/
theorem ServerTask.Adopt.locks {u : Tid} {k k' : ServerTask} (h : Adopt op k k') :
    k.locks? pool u = none := by
  cases h <;> rfl

theorem ServeCliDirect.Pc.locks_table (pc : ServeCliDirect.Pc) (w : Tid) :
    pc.locks? ≠ some (.writer w) := by
  cases pc with
  | serve pc => cases pc <;> nofun
  | _ => nofun

/-- A task that holds a writer gets no other. -/
theorem ServerTask.locks_of_holds {t w w' : Tid} {k : ServerTask} (h : k.holds? t = some w) :
    k.locks? pool t ≠ some (.writer w') := by
  cases k with
  | cli register pc =>
      cases pc with
      | viaNode ctx node pc =>
          cases pc with
          | openTunnel | closeTunnel | registered | unlockFallback => nofun
          | fallback pc => exact pc.locks_table w'
          | _ => cases h
      | _ => cases h
  | node host reg pc =>
      cases pc with
      | ack | ackFailed | unlockFailed => nofun
      | forward id report pc =>
          cases pc with
          | send route => nofun
          | _ => cases h
      | _ => cases h
  | _ => cases h

/-- A task that is about to write stands before no mutex. -/
theorem ServerTask.locks_of_frame {t : Tid} {f : Tid × Message} {k : ServerTask}
    (h : k.frame? t = some f) : k.locks? pool t = none := by
  have hdirect : ∀ {s : SessionCtx} {ctx : TunnelCtx} {pc : ServeCliDirect.Pc},
      pc.frame? s ctx = some f → pc.locks? = none := by
    intro s ctx pc hf
    cases pc with
    | reject | registered => rfl
    | serve pc =>
        cases pc with
        | notify => rfl
        | _ => cases hf
    | _ => cases hf
  cases k with
  | cli register pc =>
      cases pc with
      | reject => rfl
      | direct ctx pc => exact hdirect h
      | viaNode ctx node pc =>
          cases pc with
          | openTunnel | registered | closeTunnel => rfl
          | fallback pc => exact hdirect h
          | _ => cases h
      | _ => cases h
  | node host reg pc =>
      cases pc with
      | reject | ack => rfl
      | forward id report pc =>
          cases pc with
          | send route => rfl
          | _ => cases h
      | _ => cases h
  | refuse reason => rfl
  | _ => cases h

end Steps

/-! ## The system with its mutexes -/

/-- The requests of the dashboard that lock a table, other than the DELETE of a
    tunnel, which is a task of the server. -/
inductive ApiRequest where
  | tunnels
  | nodes
  | devices
  | historyTunnels
  | historyConnections
  | tokens
  /-- Whether the name and the scope are accepted. -/
  | createToken (valid : Bool)
  | revokeToken

/-- The tables that a request locks one after another. -/
def ApiRequest.tables : ApiRequest → List Table
  | .tunnels => [.activeTunnels]
  | .nodes => [.nodes]
  | .devices => [.activeTunnels, .devices]
  | .historyTunnels => [.tunnelHistory]
  | .historyConnections => [.connectionHistory]
  | .tokens | .revokeToken => [.apiTokens]
  | .createToken valid => if valid then [.apiTokens] else []

/-- Who can hold a mutex. -/
inductive Client where
  | task (t : Tid)
  | request (r : Nat)
  deriving DecidableEq

/-- The server, who is inside the critical section of each table, and the tables
    that each request has still to lock. -/
structure Locking where
  server : Server
  inside : Table → Option Client
  request : Nat → List Table

namespace Locking

/-- What happens to the server with its queued mutexes. -/
inductive Label where
  /-- A client gets the mutex of a table. -/
  | lock (c : Client) (m : Table)
  /-- An operation of the server, which lets go of the mutex that it needs. -/
  | server (t : Tid) (op : Op)
  | arrive (r : Nat) (request : ApiRequest)
  /-- A request has read or changed its table. -/
  | leave (r : Nat)

/-- The port pool, as far as it says which ports are in range. -/
def pool (cfg : ServerConfig) : PortManager :=
  PortManager.new cfg.portRange.1 cfg.portRange.2

/-- The mutex that a client gets next, or is inside of already. -/
def next? (cfg : ServerConfig) (s : Locking) : Client → Option Mutex
  | .task t => (s.server.task t).locks? (pool cfg) t
  | .request r => (s.request r).head?.map .table

/-- A task or request gets a mutex, goes on or arrives. -/
def step (cfg : ServerConfig) (s : Locking) : Label → Option Locking
  | .lock c m =>
      if s.next? cfg c = some (.table m) ∧ s.inside m = none then
        some { s with inside := Function.update s.inside m (some c) }
      else none
  | .server t op =>
      match op.locks? (pool cfg) with
      | some (.table m) =>
          if s.inside m = some (.task t) then
            ((Borehole.server cfg).step s.server (t, op)).map fun c =>
              { s with server := c, inside := Function.update s.inside m none }
          else none
      | _ => ((Borehole.server cfg).step s.server (t, op)).map fun c => { s with server := c }
  | .arrive r request =>
      if s.request r = [] then
        some { s with request := Function.update s.request r request.tables }
      else none
  | .leave r =>
      match s.request r with
      | m :: rest =>
          if s.inside m = some (.request r) then
            some { s with
              inside := Function.update s.inside m none
              request := Function.update s.request r rest }
          else none
      | [] => none

end Locking

/-- Every interleaving of the server's tasks and of any number of requests, with
    its mutexes. -/
def locking (cfg : ServerConfig) : Conc.Lts Locking Locking.Label where
  init := ⟨Server.start cfg, fun _ => none, fun _ => []⟩
  step := Locking.step cfg

/-- A client has come to a mutex and does not have it. -/
def Locking.Waits (cfg : ServerConfig) (s : Locking) (c : Client) : Mutex → Prop
  | .table m => s.next? cfg c = some (.table m) ∧ s.inside m ≠ some c
  | .writer w => s.next? cfg c = some (.writer w)

/-- Whose mutex it is. -/
def Locking.Holds (s : Locking) : Client → Mutex → Prop
  | c, .table m => s.inside m = some c
  | .task t, .writer w => s.server.shared.writer w = some t
  | .request _, .writer _ => False

namespace Locking

variable {cfg : ServerConfig} {s s' : Locking} {a : Label} {ls : List Label}

/-- The transitions of the system. -/
inductive Step (cfg : ServerConfig) (s : Locking) : Label → Locking → Prop where
  | lock {c m} : s.next? cfg c = some (.table m) → s.inside m = none →
      Step cfg s (.lock c m) { s with inside := Function.update s.inside m (some c) }
  | unlocks {t op m c} : op.locks? (pool cfg) = some (.table m) → s.inside m = some (.task t) →
      (Borehole.server cfg).step s.server (t, op) = some c →
      Step cfg s (.server t op)
        { s with server := c, inside := Function.update s.inside m none }
  | server {t op c} : (∀ m, op.locks? (pool cfg) ≠ some (.table m)) →
      (Borehole.server cfg).step s.server (t, op) = some c →
      Step cfg s (.server t op) { s with server := c }
  | arrive {r request} : s.request r = [] →
      Step cfg s (.arrive r request)
        { s with request := Function.update s.request r request.tables }
  | leave {r m rest} : s.request r = m :: rest → s.inside m = some (.request r) →
      Step cfg s (.leave r)
        { s with
          inside := Function.update s.inside m none
          request := Function.update s.request r rest }

theorem step_some (h : (locking cfg).step s a = some s') : Step cfg s a s' := by
  have h : step cfg s a = some s' := h
  cases a with
  | lock c m =>
      obtain ⟨⟨hn, hi⟩, he⟩ := Option.ite_none_right_eq_some.mp h
      rw [← Option.some.inj he]
      exact .lock hn hi
  | server t op =>
      rw [step] at h
      split at h
      · rename_i m hop
        obtain ⟨hi, he⟩ := Option.ite_none_right_eq_some.mp h
        obtain ⟨c, hc, rfl⟩ := Option.map_eq_some_iff.mp he
        exact .unlocks hop hi hc
      · rename_i hop
        obtain ⟨c, hc, rfl⟩ := Option.map_eq_some_iff.mp h
        exact .server hop hc
  | arrive r request =>
      obtain ⟨hr, he⟩ := Option.ite_none_right_eq_some.mp h
      rw [← Option.some.inj he]
      exact .arrive hr
  | leave r =>
      rw [step] at h
      split at h
      · rename_i m rest hr
        obtain ⟨hi, he⟩ := Option.ite_none_right_eq_some.mp h
        rw [← Option.some.inj he]
        exact .leave hr hi
      · cases h

/-- The server's part of a step. -/
def Label.server? : Label → Option (Tid × Op)
  | .server t op => some (t, op)
  | _ => none

/-- The server's part of a run is a run of the server. -/
theorem projection : Conc.Projection (locking cfg) (Borehole.server cfg) Locking.server
    Label.server? where
  init := rfl
  own := by
    intro s a s' b h hb
    cases step_some h with
    | unlocks _ _ hs | server _ hs => cases hb; exact hs
    | _ => cases hb
  other := by
    intro s a s' h hb
    cases step_some h with
    | unlocks | server => cases hb
    | _ => rfl

/-- With nobody inside a critical section, an operation is possible if it is
    possible for the server. -/
theorem step_quiet {c c' : Server} {t : Tid} {op : Op}
    (h : (Borehole.server cfg).step c (t, op) = some c') :
    ∃ ls', (locking cfg).runFrom ⟨c, fun _ => none, fun _ => []⟩ ls' =
      some ⟨c', fun _ => none, fun _ => []⟩ ∧ ls'.filterMap Label.server? = [(t, op)] := by
  have hlocks : op.locks? (pool cfg) = (c.task t).locks? (pool cfg) t := (server_step_self h).locks
  by_cases hm : ∃ m, op.locks? (pool cfg) = some (.table m)
  · obtain ⟨m, hm⟩ := hm
    refine ⟨[.lock (.task t) m, .server t op], ?_, rfl⟩
    have hlock : (locking cfg).step ⟨c, fun _ => none, fun _ => []⟩ (.lock (.task t) m) =
        some ⟨c, Function.update (fun _ => none) m (some (.task t)), fun _ => []⟩ :=
      if_pos ⟨hlocks.symm.trans hm, rfl⟩
    have hop : (locking cfg).step
        ⟨c, Function.update (fun _ => none) m (some (.task t)), fun _ => []⟩
        (.server t op) = some ⟨c', fun _ => none, fun _ => []⟩ := by
      simp [locking, step, hm, h]
    simp [Conc.Lts.runFrom, hlock, hop]
  · refine ⟨[.server t op], ?_, rfl⟩
    have hop : (locking cfg).step ⟨c, fun _ => none, fun _ => []⟩ (.server t op) =
        some ⟨c', fun _ => none, fun _ => []⟩ := by
      have hnone : ∀ m, op.locks? (pool cfg) = some (.table m) → False := fun m hop => hm ⟨m, hop⟩
      -- no mutex of a table is needed, which the match reads off `hnone`
      simp only [locking, step]
      rw [h]
      rfl
    simp [Conc.Lts.runFrom, hop]

/-- Every run of the server is the server's part of a run with mutexes. -/
theorem locked_run {cs : List (Tid × Op)} {c : Server} (hr : (Borehole.server cfg).Run cs c) :
    ∃ ls, (locking cfg).Run ls ⟨c, fun _ => none, fun _ => []⟩ ∧
      ls.filterMap Label.server? = cs := by
  refine Conc.Lts.Run.induct (P := fun cs c => ∃ ls,
    (locking cfg).Run ls ⟨c, fun _ => none, fun _ => []⟩ ∧ ls.filterMap Label.server? = cs) ?_ ?_ hr
  · exact ⟨[], rfl, rfl⟩
  · rintro cs c ⟨t, op⟩ c' _ ⟨ls, hls, rfl⟩ hs
    obtain ⟨ls', hls', he⟩ := step_quiet hs
    exact ⟨ls ++ ls', Conc.Lts.run_append.mpr ⟨_, hls, hls'⟩, by rw [List.filterMap_append, he]⟩

/-- Whoever is inside a critical section stands before an operation on its table. -/
def Inside (cfg : ServerConfig) (s : Locking) : Prop :=
  ∀ m c, s.inside m = some c → s.next? cfg c = some (.table m)

/-- A task that stands before a mutex stays there while another task steps. -/
theorem next_other {c : Server} {t u : Tid} {op : Op} {m : Mutex} {inside : Table → Option Client}
    (h : (Borehole.server cfg).step s.server (t, op) = some c) (hu : u ≠ t)
    (hn : s.next? cfg (.task u) = some m) :
    ({ s with server := c, inside := inside } : Locking).next? cfg (.task u) = some m := by
  have hn : (s.server.task u).locks? (pool cfg) u = some m := hn
  change (c.task u).locks? (pool cfg) u = some m
  obtain he | ⟨_, ha⟩ := server_step_other h hu
  · rw [he]
    exact hn
  · rw [ha.locks] at hn
    cases hn

theorem inside_step (hi : Inside cfg s) (h : (locking cfg).step s a = some s') :
    Inside cfg s' := by
  intro m' c' hin
  cases step_some h with
  | @lock c m hn hfree =>
      simp only [Function.update_apply] at hin
      split at hin
      · rename_i hm
        cases hin
        rw [hm]
        exact hn
      · exact hi m' c' hin
  | @unlocks t op m c hop hheld hs =>
      simp only [Function.update_apply] at hin
      split at hin
      · cases hin
      · rename_i hm
        have hn := hi m' c' hin
        cases c' with
        | request r => exact hn
        | task u =>
            refine next_other hs ?_ hn
            rintro rfl
            -- it stands before one mutex only
            have hself : (s.server.task u).locks? (pool cfg) u = some (.table m') := hn
            rw [← (server_step_self hs).locks, hop] at hself
            cases hself
            exact hm rfl
  | @server t op c hop hs =>
      have hn := hi m' c' hin
      cases c' with
      | request r => exact hn
      | task u =>
          refine next_other hs ?_ hn
          rintro rfl
          have hself : (s.server.task u).locks? (pool cfg) u = some (.table m') := hn
          rw [← (server_step_self hs).locks] at hself
          exact hop m' hself
  | @arrive r request hr =>
      have hn := hi m' c' hin
      cases c' with
      | task u => exact hn
      | request r' =>
          have hne : r' ≠ r := by
            rintro rfl
            have hn : (s.request r').head?.map Mutex.table = some (.table m') := hn
            rw [hr] at hn
            cases hn
          change (Function.update s.request r _ r').head?.map _ = _
          rw [Function.update_of_ne hne]
          exact hn
  | @leave r m rest hr hheld =>
      simp only [Function.update_apply] at hin
      split at hin
      · cases hin
      · rename_i hm
        have hn := hi m' c' hin
        cases c' with
        | task u => exact hn
        | request r' =>
            have hne : r' ≠ r := by
              rintro rfl
              have hn : (s.request r').head?.map Mutex.table = some (.table m') := hn
              rw [hr] at hn
              cases hn
              exact hm rfl
            change (Function.update s.request r _ r').head?.map _ = _
            rw [Function.update_of_ne hne]
            exact hn

theorem insideInv (hr : (locking cfg).Run ls s) : Inside cfg s := by
  refine Conc.Lts.Run.induct (P := fun _ s => Inside cfg s) ?_ ?_ hr
  · intro m c hin
    cases hin
  · intro _ s a s' _ hi hs
    exact inside_step hi hs

/-! ## The order of the mutexes -/

/-- A writer comes before the tables. -/
def rank : Mutex → Nat
  | .writer _ => 0
  | .table _ => 1

/-- Whoever holds a mutex waits only for one that comes after it. -/
theorem inOrder (hr : (locking cfg).Run ls s) :
    Conc.InOrder rank (s.Waits cfg) s.Holds := by
  intro c m m' hh hw
  cases m with
  | table m =>
      -- inside the critical section of a table nothing is waited for
      exfalso
      have hn := insideInv hr m c hh
      cases m' with
      | table m' =>
          obtain ⟨hn', hne⟩ := hw
          rw [hn] at hn'
          cases hn'
          exact hne hh
      | writer w =>
          have hw : s.next? cfg c = some (.writer w) := hw
          rw [hn] at hw
          cases hw
  | writer w =>
      cases c with
      | request r => exact hh.elim
      | task t =>
          have hholds := (writerInv (projection.run hr) w t).mp hh
          cases m' with
          | table m' => exact Nat.zero_lt_one
          | writer w' => exact absurd hw (ServerTask.locks_of_holds hholds)

/-- Nobody is inside the critical section of a table while waiting for a writer, or
    while writing to the network. -/
theorem outside (hr : (locking cfg).Run ls s) {t : Tid}
    (h : (∃ w, s.Waits cfg (.task t) (.writer w)) ∨ ∃ f, (s.server.task t).frame? t = some f)
    (m : Table) : ¬ s.Holds (.task t) (.table m) := by
  intro hh
  have hn : (s.server.task t).locks? (pool cfg) t = some (.table m) := insideInv hr m _ hh
  obtain ⟨w, hw⟩ | ⟨f, hf⟩ := h
  · have hw : (s.server.task t).locks? (pool cfg) t = some (.writer w) := hw
    rw [hn] at hw
    cases hw
  · rw [ServerTask.locks_of_frame hf] at hn
    cases hn

end Locking

/-- No tasks and requests wait for each other's mutexes in a circle, and who waits
    for a writer or writes to the network holds the mutex of no table. -/
theorem no_deadlock {cfg : ServerConfig} {ls : List Locking.Label} {s : Locking}
    (hr : (locking cfg).Run ls s) :
    (∀ c, ¬ Relation.TransGen (Conc.WaitsOn (s.Waits cfg) s.Holds) c c) ∧
    ∀ t, (∃ w, s.Waits cfg (.task t) (.writer w)) ∨ (∃ f, (s.server.task t).frame? t = some f) →
      ∀ m, ¬ s.Holds (.task t) (.table m) :=
  ⟨(Locking.inOrder hr).acyclic, fun _ h => Locking.outside hr h⟩

/-- Session 2 waits for the writer of node 3, through which session 1 writes, and
    request 0 for the tunnels, among which a DELETE is looking. -/
def queues : List Locking.Label :=
  [.server 3 (.connect "10.0.0.9" (some (some (.registerNode ⟨"secret", "fra", 7836⟩)))),
   .server 3 .compute, .server 3 (.uuid "n"), .lock (.task 3) .nodes,
   .server 3 (.registerNode ⟨"n", "fra", "10.0.0.9", 7836, 0, 3⟩), .server 3 (.lockWriter 3),
   .server 3 (.sendUnlock 3 (.nodeRegistered ⟨"n"⟩) true),
   .server 1 (.connect "10.0.0.1" (some (some (.register anyPort)))), .server 1 .compute,
   .lock (.task 1) .portPool, .server 1 (.acquire (some 7000)), .server 1 (.uuid "t"),
   .lock (.task 1) .nodes, .server 1 (.pick none (some ⟨"n", "fra", "10.0.0.9", 7836, 0, 3⟩)),
   .server 1 (.lockWriter 3),
   .server 2 (.connect "10.0.0.2" (some (some (.register anyPort)))), .server 2 .compute,
   .lock (.task 2) .portPool, .server 2 (.acquire (some 7001)), .server 2 (.uuid "u"),
   .lock (.task 2) .nodes, .server 2 (.pick none (some ⟨"n", "fra", "10.0.0.9", 7836, 0, 3⟩)),
   .server 4 (.delete "t"), .lock (.task 4) .activeTunnels, .arrive 0 .devices]

theorem no_deadlock_queues : ∃ s, (locking ⟨(7000, 7001), ["secret"]⟩).Run queues s ∧
    s.Waits ⟨(7000, 7001), ["secret"]⟩ (.task 2) (.writer 3) ∧ s.Holds (.task 1) (.writer 3) ∧
    ∀ c, ¬ Relation.TransGen (Conc.WaitsOn (s.Waits ⟨(7000, 7001), ["secret"]⟩) s.Holds) c c := by
  obtain ⟨s, hr, hw, hh⟩ : ∃ s, (locking ⟨(7000, 7001), ["secret"]⟩).Run queues s ∧
      s.next? ⟨(7000, 7001), ["secret"]⟩ (.task 2) = some (.writer 3) ∧
      s.server.shared.writer 3 = some 1 := Conc.Lts.exists_run (by decide)
  exact ⟨s, hr, hw, hh, (no_deadlock hr).1⟩

end Borehole
