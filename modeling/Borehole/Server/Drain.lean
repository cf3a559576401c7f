/-
  Borehole.Server.Drain

  The server comes to rest.

  Suppose that nobody connects any more, no visitor comes and no peer sends another
  line; connections may still close, writes fail and waits end at any time.  Then
  every task has boundedly many operations left, and none is stuck before its last:
  the mutex it stands before has a holder that can go on, and a visitor whose task
  is not spawned yet is in the hands of a loop that can.  What the sessions have
  taken is given back by then.
-/

import Borehole.Conc.Drain
import Borehole.Server.Load
import Borehole.Server.Locks
import Borehole.Server.Visitors

namespace Borehole

open Conc

/-! ## The work that is left -/

/-- Whether an operation belongs to what is under way.  The others bring something
    new: a connection, a visitor, or a line on a control stream. -/
def Op.own : Op → Bool
  | .connect _ _ | .dataConnect | .delete _ | .accept _ | .readLine (some _) => false
  | _ => true

/-- What a call has left to do before it returns. -/
def Flow.work {Pc : Type} (work : Pc → Nat) : Flow Pc → Nat
  | .at pc => work pc
  | .ret => 0

/-- A bound on the operations of its own that `serve_tunnel` has left. -/
def ServeTunnel.Pc.work : ServeTunnel.Pc → Nat
  | .select | .drop _ => 1
  | .spawn _ _ | .removePending _ _ => 2
  | .connectedAt _ => 3
  | .notify _ _ => 4
  | .insertPending _ _ => 5

/-- The same of `serve_cli_direct`. -/
def ServeCliDirect.Pc.work : ServeCliDirect.Pc → Nat
  | .reject => 1
  | .serve pc => pc.work
  | .publish _ => 2
  | .record _ => 3
  | .startedAt => 4
  | .registered => 5
  | .bind => 6

/-- The same of `serve_cli_via_node`, which may fall back to the direct path. -/
def ServeCliViaNode.Pc.work : ServeCliViaNode.Pc → Nat
  | .unlockFallback | .decrement => 1
  | .closeTunnel => 2
  | .lockClose => 3
  | .select => 4
  | .registered => 5
  | .lockCli => 6
  | .publish _ => 7
  | .increment _ => 8
  | .record _ => 9
  | .startedAt => 10
  | .fallback pc => pc.work + 1
  | .lockFallback => 8
  | .openTunnel => 11
  | .lockNode => 12

/-- The same of `handle_cli`, which ends on one of the two paths. -/
def HandleCli.Pc.work : HandleCli.Pc → Nat
  | .done _ => 0
  | .reject _ | .release _ => 1
  | .closed _ => 2
  | .archive _ _ _ => 3
  | .endedAt _ _ => 4
  | .remove _ => 5
  | .direct _ pc => pc.work + 5
  | .viaNode _ _ pc => pc.work + 5
  | .pick _ => 18
  | .tunnelId _ => 19
  | .acquire => 20
  | .device _ _ => 21
  | .deviceNow _ => 22
  | .validate => 23

/-- The same of the forwarding of a visitor. -/
def ForwardVisitor.Pc.work : ForwardVisitor.Pc → Nat
  | .send _ => 1
  | .lockCli _ => 2
  | .lookup => 3

/-- The same of `handle_node`. -/
def HandleNode.Pc.work : HandleNode.Pc → Nat
  | .done _ => 0
  | .reject _ | .unlockFailed _ | .left _ => 1
  | .ackFailed _ | .remove _ => 2
  | .read _ => 3
  | .forward _ _ pc => pc.work + 3
  | .connected _ => 4
  | .ack _ => 5
  | .lockAck _ => 6
  | .register _ => 7
  | .nodeId => 8
  | .validate => 9

/-- The same of the task of a visitor. -/
def VisitorTask.Pc.work : VisitorTask.Pc → Nat
  | .done _ => 0
  | .removePending | .record _ _ _ => 1
  | .endedAt _ _ => 2
  | .proxying _ _ => 3
  | .waiting _ => 4
  | .notifying => 5
  | .accepted => 6

/-- The same of `handle_data_conn`. -/
def HandleDataConn.Pc.work : HandleDataConn.Pc → Nat
  | .done _ => 0
  | .deliver _ _ => 1
  | .claim _ => 2
  | .readFrame => 3

/-- The same of a DELETE. -/
def Close.Pc.work : Close.Pc → Nat
  | .answered _ _ => 0
  | .notify _ _ => 1
  | .lookup _ => 2

/-- A bound on the operations of its own that a task has left. -/
def ServerTask.work : ServerTask → Nat
  | .idle | .gone => 0
  | .refuse _ => 1
  | .cli _ pc => pc.work
  | .node _ _ pc => pc.work
  | .visitor _ pc => pc.work
  | .dataConn pc => pc.work
  | .close pc => pc.work

section Work

variable {tokens : List String} {s : SessionCtx} {ctx : TunnelCtx} {node : NodeInfo} {t : Tid}
  {op : Op}

theorem ServeTunnel.Pc.work_pos (pc : ServeTunnel.Pc) : 0 < pc.work := by
  cases pc <;> simp [work]

theorem ServeCliDirect.Pc.work_pos (pc : ServeCliDirect.Pc) : 0 < pc.work := by
  cases pc with
  | serve pc => exact pc.work_pos
  | _ => simp [work]

theorem ServeCliViaNode.Pc.work_pos (pc : ServeCliViaNode.Pc) : 0 < pc.work := by
  cases pc <;> simp [work]

theorem ServeTunnel.Step.work_lt {pc : Pc} {f : Flow Pc} (h : Step s ctx pc op f)
    (ho : op.own = true) : f.work Pc.work < pc.work := by
  cases h with
  | acceptError | accept | ignored => cases ho
  | _ => simp [Flow.work, Pc.work]

theorem ServeCliDirect.Step.work_lt {pc : Pc} {f : Flow Pc} (h : Step s ctx pc op f)
    (ho : op.own = true) : f.work Pc.work < pc.work := by
  cases h with
  | serve h => exact h.work_lt ho
  | served h => exact ServeTunnel.Pc.work_pos _
  | _ => simp [Flow.work, Pc.work, ServeTunnel.Pc.work]

theorem ServeCliViaNode.Step.work_lt {pc : Pc} {f : Flow Pc} (h : Step s ctx node pc op f)
    (ho : op.own = true) : f.work Pc.work < pc.work := by
  cases h with
  | ignored => cases ho
  | fallback h => exact Nat.add_lt_add_right (h.work_lt ho) 1
  | fellBack h => exact Nat.add_lt_add_right (ServeCliDirect.Pc.work_pos _) 1
  | _ => simp [Flow.work, Pc.work, ServeCliDirect.Pc.work]

theorem HandleCli.Step.work_lt {pc pc' : Pc} (h : Step tokens s pc op pc') (ho : op.own = true) :
    pc'.work < pc.work := by
  cases h with
  | direct h => exact Nat.add_lt_add_right (h.work_lt ho) 5
  | directRet h => exact Nat.add_lt_add_right (ServeCliDirect.Pc.work_pos _) 5
  | viaNode h => exact Nat.add_lt_add_right (h.work_lt ho) 5
  | viaNodeRet h => exact Nat.add_lt_add_right (ServeCliViaNode.Pc.work_pos _) 5
  | _ => simp [Pc.work, ServeCliDirect.Pc.work, ServeCliViaNode.Pc.work]

theorem HandleNode.Step.work_lt {host : String} {reg : RegisterNode} {pc pc' : Pc}
    (h : Step tokens t host reg pc op pc') (ho : op.own = true) : pc'.work < pc.work := by
  cases h with
  | report | ignored => cases ho
  | forward h | forwarded h => cases h <;> simp [Pc.work, ForwardVisitor.Pc.work]
  | _ => simp [Pc.work]

/-- An operation of its own brings a task closer to its end. -/
theorem ServerTask.Step.work_lt {k k' : ServerTask} (h : Step tokens t k op k')
    (ho : op.own = true) : k'.work < k.work := by
  cases h with
  | connect | dataConnect | delete => cases ho
  | refused => exact Nat.zero_lt_one
  | cli h => exact h.work_lt ho
  | node h => exact h.work_lt ho
  | visitor h => cases h <;> simp [work, VisitorTask.Pc.work]
  | dataConn h => cases h <;> simp [work, HandleDataConn.Pc.work]
  | close h => cases h <;> simp [work, Close.Pc.work]

theorem ServerTask.Adopt.work_le {k k' : ServerTask} (h : Adopt op k k') (ho : op.own = true) :
    k'.work ≤ k.work := by
  cases h with
  | accept => cases ho
  | _ => simp [work, VisitorTask.Pc.work]

theorem ServeTunnel.Pc.work_le (pc : ServeTunnel.Pc) : pc.work ≤ 5 := by
  cases pc <;> simp [work]

theorem ServeCliDirect.Pc.work_le (pc : ServeCliDirect.Pc) : pc.work ≤ 6 := by
  cases pc with
  | serve pc => exact pc.work_le.trans (by decide)
  | _ => simp [work]

theorem ServeCliViaNode.Pc.work_le (pc : ServeCliViaNode.Pc) : pc.work ≤ 12 := by
  cases pc with
  | fallback pc => exact (Nat.add_le_add_right pc.work_le 1).trans (by decide)
  | _ => simp [work]

/-- No task has more than 23 operations of its own left. -/
theorem ServerTask.work_le (k : ServerTask) : k.work ≤ 23 := by
  cases k with
  | cli register pc =>
      cases pc with
      | direct ctx pc => exact (Nat.add_le_add_right pc.work_le 5).trans (by decide)
      | viaNode ctx node pc => exact (Nat.add_le_add_right pc.work_le 5).trans (by decide)
      | _ => simp [work, HandleCli.Pc.work]
  | node host reg pc =>
      cases pc with
      | forward id report pc => cases pc <;> simp [work, HandleNode.Pc.work, ForwardVisitor.Pc.work]
      | _ => simp [work, HandleNode.Pc.work]
  | visitor vis pc => cases pc <;> simp [work, VisitorTask.Pc.work]
  | dataConn pc => cases pc <;> simp [work, HandleDataConn.Pc.work]
  | close pc => cases pc <;> simp [work, Close.Pc.work]
  | _ => simp [work]

end Work

theorem serverTasks_winds (cfg : ServerConfig) :
    Tasks.Winds (serverTasks cfg) Op.own ServerTask.work where
  next := fun _ _ _ _ ho h => (next_step h).work_lt ho
  adopt := fun _ _ _ _ ho h => (adopt_step h).work_le ho

/-- The server starts with nothing to do. -/
theorem start_busy (cfg : ServerConfig) :
    ∃ ts, Tasks.Busy ServerTask.work (Server.start cfg) ts :=
  ⟨[], fun _ _ => rfl⟩

/-! ## What a task can do next -/

/-- A visitor whose task is not spawned yet. -/
def ServerTask.unspawned : ServerTask → Bool
  | .visitor _ .accepted | .visitor _ .notifying => true
  | _ => false

/-- An operation of its own that a task with `hand` in its hands can perform on the
    shared state. -/
structure Op.Ready (sh : ServerState) (t : Tid) (hand : Option Handling) (op : Op) : Prop where
  own : op.own = true
  exec : (sh.exec t op).isSome = true
  child : ∀ v, op.child = some v → ∃ x, hand = some x ∧ x.visitor = v ∧
    ∀ k, x.Has k → (ServerTask.adopt op k).isSome = true

section Ready

variable {tokens : List String} {sh : ServerState} {s : SessionCtx} {ctx : TunnelCtx}
  {node : NodeInfo} {t : Tid} {op : Op} {hand : Option Handling}

/-- An operation that is about no visitor. -/
theorem Op.Ready.alone (ho : op.own = true) (hx : (sh.exec t op).isSome = true)
    (hc : op.child = none) : op.Ready sh t hand := by
  refine ⟨ho, hx, fun v hv => ?_⟩
  rw [hc] at hv
  cases hv

theorem exec_lockWriter_isSome {w : Tid} (h : sh.writer w = none) :
    (sh.exec t (.lockWriter w)).isSome = true := by
  simp [ServerState.exec, h]

theorem exec_sendUnlock_isSome {w : Tid} {m : Message} {ok : Bool} (h : sh.writer w = some t) :
    (sh.exec t (.sendUnlock w m ok)).isSome = true := by
  simp [ServerState.exec, h]

theorem exec_unlockWriter_isSome {w : Tid} (h : sh.writer w = some t) :
    (sh.exec t (.unlockWriter w)).isSome = true := by
  simp [ServerState.exec, h]

/-- Some node or none can be picked. -/
theorem NodeManager.exists_picks {nm : NodeManager}
    (hkey : ∀ id info, nm.nodes.lookup id = some info → info.nodeId = id) (name : Option String) :
    ∃ got, nm.picks name got := by
  by_cases hnone : nm.picks name none
  · exact ⟨none, hnone⟩
  · simp only [picks, not_forall] at hnone
    obtain ⟨id, -, info, hl, hc⟩ := hnone
    have hc : candidate name info = true := by simpa using hc
    -- the counts that candidates have
    obtain ⟨n, ⟨best, hb, hbc, rfl⟩, hmin⟩ := wellFounded_lt.has_min
      {n | ∃ info, nm.nodes.lookup info.nodeId = some info ∧ candidate name info = true ∧
        info.tunnelCount = n}
      ⟨info.tunnelCount, info, by rw [hkey id info hl]; exact hl, hc, rfl⟩
    refine ⟨some best, hb, hbc, fun id' _ other ho hoc => ?_⟩
    refine Nat.le_of_not_lt (hmin other.tunnelCount ⟨other, ?_, hoc, rfl⟩)
    rw [hkey id' other ho]
    exact ho

theorem ServeTunnel.ready (sh : ServerState) (s : SessionCtx) (ctx : TunnelCtx)
    (pc : ServeTunnel.Pc) :
    ∃ op, (serveTunnel s ctx pc op).isSome = true ∧ op.Ready sh s.task pc.handling? := by
  cases pc with
  | select => exact ⟨.readLine none, rfl, .alone rfl rfl rfl⟩
  | insertPending v vis =>
      refine ⟨.insertPending vis.connId v, by simp [serveTunnel], rfl, rfl, ?_⟩
      intro u hu
      refine ⟨_, rfl, Option.some.inj hu, fun k hk => ?_⟩
      cases hk
      rfl
  | notify v vis =>
      exact ⟨.send s.task (notice vis) true, by simp [serveTunnel], .alone rfl rfl rfl⟩
  | removePending v vis =>
      refine ⟨.removePending vis.connId (sh.pending.lookup vis.connId), by simp [serveTunnel], ?_⟩
      exact .alone rfl (by simp [ServerState.exec]) rfl
  | drop v =>
      refine ⟨.dropVisitor v, by simp [serveTunnel], rfl, rfl, ?_⟩
      intro u hu
      refine ⟨_, rfl, Option.some.inj hu, fun k hk => ?_⟩
      cases hk
      rfl
  | connectedAt v => exact ⟨.now 0, rfl, .alone rfl rfl rfl⟩
  | spawn v now =>
      refine ⟨.spawn v now, by simp [serveTunnel], rfl, rfl, ?_⟩
      intro u hu
      refine ⟨_, rfl, Option.some.inj hu, fun k hk => ?_⟩
      cases hk
      rfl

theorem ServeCliDirect.ready (sh : ServerState) (s : SessionCtx) (ctx : TunnelCtx)
    (pc : ServeCliDirect.Pc) :
    ∃ op, (serveCliDirect s ctx pc op).isSome = true ∧ op.Ready sh s.task pc.handling? := by
  cases pc with
  | bind => exact ⟨.bind ctx.port true, by simp [serveCliDirect], .alone rfl rfl rfl⟩
  | reject =>
      exact ⟨.send s.task (.error ⟨"failed to open tunnel port"⟩) true, by simp [serveCliDirect],
        .alone rfl rfl rfl⟩
  | registered =>
      exact ⟨.send s.task (registeredMsg ctx) true, by simp [serveCliDirect], .alone rfl rfl rfl⟩
  | startedAt => exact ⟨.now 0, rfl, .alone rfl rfl rfl⟩
  | record now =>
      exact ⟨.insertTunnel ctx.tunnelId (entry s ctx now), by simp [serveCliDirect],
        .alone rfl rfl rfl⟩
  | publish now =>
      exact ⟨.publish (opened s ctx now), by simp [serveCliDirect], .alone rfl rfl rfl⟩
  | serve pc =>
      obtain ⟨op, hn, hr⟩ := ServeTunnel.ready sh s ctx pc
      exact ⟨op, by rw [serveCliDirect, Option.isSome_map]; exact hn, hr⟩

/-- The writer that is locked next is free, and the one that is held is held. -/
structure WritersSuit (sh : ServerState) (t : Tid) (next : Option Mutex) (held : Option Tid) :
    Prop where
  free : ∀ w, next = some (.writer w) → sh.writer w = none
  held : ∀ w, held = some w → sh.writer w = some t

theorem ServeCliViaNode.ready (ctx : TunnelCtx) (pc : ServeCliViaNode.Pc)
    (hw : WritersSuit sh s.task (pc.locks? s.task node) (pc.holds? s.task node)) :
    ∃ op, (serveCliViaNode s ctx node pc op).isSome = true ∧ op.Ready sh s.task pc.handling? := by
  cases pc with
  | lockNode =>
      exact ⟨.lockWriter node.tx, by simp [serveCliViaNode],
        .alone rfl (exec_lockWriter_isSome (hw.free _ rfl)) rfl⟩
  | openTunnel =>
      exact ⟨.sendUnlock node.tx (openMsg ctx) true, by simp [serveCliViaNode],
        .alone rfl (exec_sendUnlock_isSome (hw.held _ rfl)) rfl⟩
  | lockFallback =>
      exact ⟨.lockWriter s.task, by simp [serveCliViaNode],
        .alone rfl (exec_lockWriter_isSome (hw.free _ rfl)) rfl⟩
  | fallback pc =>
      obtain ⟨op, hn, hr⟩ := ServeCliDirect.ready sh s ctx pc
      exact ⟨op, by rw [serveCliViaNode, Option.isSome_map]; exact hn, hr⟩
  | unlockFallback =>
      exact ⟨.unlockWriter s.task, by simp [serveCliViaNode],
        .alone rfl (exec_unlockWriter_isSome (hw.held _ rfl)) rfl⟩
  | startedAt => exact ⟨.now 0, rfl, .alone rfl rfl rfl⟩
  | record now =>
      exact ⟨.insertTunnel ctx.tunnelId (entry s ctx node now), by simp [serveCliViaNode],
        .alone rfl rfl rfl⟩
  | increment now =>
      exact ⟨.incrementTunnels node.nodeId, by simp [serveCliViaNode], .alone rfl rfl rfl⟩
  | publish now =>
      exact ⟨.publish (opened s ctx node now), by simp [serveCliViaNode], .alone rfl rfl rfl⟩
  | lockCli =>
      exact ⟨.lockWriter s.task, by simp [serveCliViaNode],
        .alone rfl (exec_lockWriter_isSome (hw.free _ rfl)) rfl⟩
  | registered =>
      exact ⟨.sendUnlock s.task (registeredMsg ctx node) true, by simp [serveCliViaNode],
        .alone rfl (exec_sendUnlock_isSome (hw.held _ rfl)) rfl⟩
  | select => exact ⟨.readLine none, rfl, .alone rfl rfl rfl⟩
  | lockClose =>
      exact ⟨.lockWriter node.tx, by simp [serveCliViaNode],
        .alone rfl (exec_lockWriter_isSome (hw.free _ rfl)) rfl⟩
  | closeTunnel =>
      exact ⟨.sendUnlock node.tx (closeMsg ctx) true, by simp [serveCliViaNode],
        .alone rfl (exec_sendUnlock_isSome (hw.held _ rfl)) rfl⟩
  | decrement =>
      exact ⟨.decrementTunnels node.nodeId, by simp [serveCliViaNode], .alone rfl rfl rfl⟩

/-- A port is given or refused. -/
theorem HandleCli.ready_acquire (tokens : List String) (sh : ServerState) (s : SessionCtx) :
    ∃ op, (handleCli tokens s .acquire op).isSome = true ∧ op.Ready sh s.task hand := by
  cases hp : s.register.remotePort with
  | some port =>
      refine ⟨.acquireSpecific port (sh.portMgr.acquireSpecific port).1, ?_, ?_⟩
      · cases (sh.portMgr.acquireSpecific port).1 <;> simp [handleCli, hp]
      · exact .alone rfl (by simp [ServerState.exec]) rfl
  | none =>
      by_cases hfree : sh.portMgr.available = ∅
      · refine ⟨.acquire none, by simp [handleCli, hp], .alone rfl ?_ rfl⟩
        simp [ServerState.exec, PortManager.acquire, hfree]
      · obtain ⟨port, hport⟩ := Finset.nonempty_iff_ne_empty.mpr hfree
        refine ⟨.acquire (some port), by simp [handleCli, hp], .alone rfl ?_ rfl⟩
        simp [ServerState.exec, PortManager.acquire, hport]

theorem HandleCli.ready_validate (tokens : List String) (sh : ServerState) (s : SessionCtx) :
    ∃ op, (handleCli tokens s .validate op).isSome = true ∧ op.Ready sh s.task hand := by
  refine ⟨.compute, ?_, .alone rfl rfl rfl⟩
  rw [handleCli]
  split
  · rfl
  · split <;> rfl

theorem HandleCli.ready (tokens : List String) (pc : HandleCli.Pc) {pool : PortManager}
    (hkey : ∀ id info, sh.nodeManager.nodes.lookup id = some info → info.nodeId = id)
    (hw : WritersSuit sh s.task (pc.locks? pool s) (pc.holds? s.task)) (hpc : pc.work ≠ 0) :
    ∃ op, (handleCli tokens s pc op).isSome = true ∧ op.Ready sh s.task pc.handling? := by
  cases pc with
  | validate => exact ready_validate tokens sh s
  | reject reason =>
      exact ⟨.send s.task (.error ⟨reason⟩) true, by simp [handleCli], .alone rfl rfl rfl⟩
  | deviceNow hostname => exact ⟨.now 0, rfl, .alone rfl rfl rfl⟩
  | device hostname now =>
      exact ⟨.upsertDevice hostname now "", by simp [handleCli], .alone rfl rfl rfl⟩
  | acquire => exact ready_acquire tokens sh s
  | tunnelId port => exact ⟨.uuid "", rfl, .alone rfl rfl rfl⟩
  | pick ctx =>
      obtain ⟨got, hgot⟩ := NodeManager.exists_picks hkey s.register.node
      refine ⟨.pick s.register.node got, ?_, .alone rfl (by simp [ServerState.exec, hgot]) rfl⟩
      cases got <;> simp [handleCli]
  | direct ctx pc =>
      obtain ⟨op, hn, hr⟩ := ServeCliDirect.ready sh s ctx pc
      exact ⟨op, by rw [handleCli, Option.isSome_map]; exact hn, hr⟩
  | viaNode ctx node pc =>
      obtain ⟨op, hn, hr⟩ := ServeCliViaNode.ready ctx pc hw
      exact ⟨op, by rw [handleCli, Option.isSome_map]; exact hn, hr⟩
  | remove ctx =>
      refine ⟨.removeTunnel ctx.tunnelId (sh.activeTunnels.lookup ctx.tunnelId), ?_,
        .alone rfl (by simp [ServerState.exec]) rfl⟩
      cases sh.activeTunnels.lookup ctx.tunnelId <;> simp [handleCli]
  | endedAt ctx entry => exact ⟨.now 0, rfl, .alone rfl rfl rfl⟩
  | archive ctx entry now =>
      exact ⟨.recordTunnel (history ctx entry now), by simp [handleCli], .alone rfl rfl rfl⟩
  | closed ctx =>
      exact ⟨.publish (.tunnelClosed ctx.tunnelId), by simp [handleCli], .alone rfl rfl rfl⟩
  | release ctx => exact ⟨.release ctx.port, by simp [handleCli], .alone rfl rfl rfl⟩
  | done ctx => exact absurd rfl hpc

theorem ForwardVisitor.ready (report : VisitorConn) (pc : ForwardVisitor.Pc)
    (hw : WritersSuit sh t pc.locks? (HandleNode.Pc.holds? t (.forward "" report pc))) :
    ∃ op, (forwardVisitor report pc op).isSome = true ∧ op.Ready sh t none := by
  cases pc with
  | lookup =>
      refine ⟨.getRoute report.tunnelId
        ((sh.activeTunnels.lookup report.tunnelId).bind TunnelEntry.route), ?_,
        .alone rfl (by simp [ServerState.exec]) rfl⟩
      cases (sh.activeTunnels.lookup report.tunnelId).bind TunnelEntry.route <;>
        simp [forwardVisitor]
  | lockCli route =>
      exact ⟨.lockWriter route.writer, by simp [forwardVisitor],
        .alone rfl (exec_lockWriter_isSome (hw.free _ rfl)) rfl⟩
  | send route =>
      exact ⟨.sendUnlock route.writer (notice report.connId route) true, by simp [forwardVisitor],
        .alone rfl (exec_sendUnlock_isSome (hw.held _ rfl)) rfl⟩

theorem HandleNode.ready (tokens : List String) (host : String) (reg : RegisterNode)
    (pc : HandleNode.Pc) (hw : WritersSuit sh t (pc.locks? t) (pc.holds? t)) (hpc : pc.work ≠ 0) :
    ∃ op, (handleNode tokens t host reg pc op).isSome = true ∧ op.Ready sh t none := by
  cases pc with
  | validate =>
      refine ⟨.compute, ?_, .alone rfl rfl rfl⟩
      rw [handleNode]
      split <;> rfl
  | reject reason =>
      exact ⟨.send t (.error ⟨reason⟩) true, by simp [handleNode], .alone rfl rfl rfl⟩
  | nodeId => exact ⟨.uuid "", rfl, .alone rfl rfl rfl⟩
  | register id =>
      exact ⟨.registerNode (info t host reg id), by simp [handleNode], .alone rfl rfl rfl⟩
  | lockAck id =>
      exact ⟨.lockWriter t, by simp [handleNode],
        .alone rfl (exec_lockWriter_isSome (hw.free _ rfl)) rfl⟩
  | ack id =>
      exact ⟨.sendUnlock t (.nodeRegistered ⟨id⟩) true, by simp [handleNode],
        .alone rfl (exec_sendUnlock_isSome (hw.held _ rfl)) rfl⟩
  | ackFailed id => exact ⟨.removeNode id, by simp [handleNode], .alone rfl rfl rfl⟩
  | unlockFailed id =>
      exact ⟨.unlockWriter t, by simp [handleNode],
        .alone rfl (exec_unlockWriter_isSome (hw.held _ rfl)) rfl⟩
  | connected id =>
      exact ⟨.publish (.nodeConnected id reg.name), by simp [handleNode], .alone rfl rfl rfl⟩
  | read id => exact ⟨.readLine none, rfl, .alone rfl rfl rfl⟩
  | forward id report pc =>
      have hheld : WritersSuit sh t pc.locks? (HandleNode.Pc.holds? t (.forward "" report pc)) := by
        cases pc <;> exact hw
      obtain ⟨op, hn, hr⟩ := ForwardVisitor.ready report pc hheld
      exact ⟨op, by rw [handleNode, Option.isSome_map]; exact hn, hr⟩
  | remove id => exact ⟨.removeNode id, by simp [handleNode], .alone rfl rfl rfl⟩
  | left id => exact ⟨.publish (.nodeLeft id), by simp [handleNode], .alone rfl rfl rfl⟩
  | done id => exact absurd rfl hpc

theorem VisitorTask.ready (sh : ServerState) (t : Tid) (vis : Visitor) (pc : VisitorTask.Pc)
    (hpc : pc.work ≠ 0) (hs : ServerTask.unspawned (.visitor vis pc) = false) :
    ∃ op, (visitorTask vis pc op).isSome = true ∧ op.Ready sh t none := by
  cases pc with
  | accepted | notifying => cases hs
  | waiting now => exact ⟨.elapsed, rfl, .alone rfl rfl rfl⟩
  | proxying d now => exact ⟨.proxied, rfl, .alone rfl rfl rfl⟩
  | endedAt d now => exact ⟨.now 0, rfl, .alone rfl rfl rfl⟩
  | record d now ended =>
      exact ⟨.recordConnection (history vis now ended), by simp [visitorTask], .alone rfl rfl rfl⟩
  | removePending =>
      exact ⟨.removePending vis.connId (sh.pending.lookup vis.connId), by simp [visitorTask],
        .alone rfl (by simp [ServerState.exec]) rfl⟩
  | done d => exact absurd rfl hpc

theorem HandleDataConn.ready (sh : ServerState) (t : Tid) (pc : HandleDataConn.Pc)
    (hpc : pc.work ≠ 0) : ∃ op, (handleDataConn pc op).isSome = true ∧ op.Ready sh t none := by
  cases pc with
  | readFrame => exact ⟨.readFrame none, rfl, .alone rfl rfl rfl⟩
  | claim connId =>
      refine ⟨.removePending connId (sh.pending.lookup connId), ?_,
        .alone rfl (by simp [ServerState.exec]) rfl⟩
      cases sh.pending.lookup connId <;> simp [handleDataConn]
  | deliver connId v =>
      exact ⟨.deliver v (sh.oneshot v).receiver, by simp [handleDataConn],
        .alone rfl (by simp [ServerState.exec]) rfl⟩
  | done connId => exact absurd rfl hpc

theorem Close.ready (sh : ServerState) (t : Tid) (pc : Close.Pc) (hpc : pc.work ≠ 0) :
    ∃ op, (tunnelsClose pc op).isSome = true ∧ op.Ready sh t none := by
  cases pc with
  | lookup id =>
      refine ⟨.getClose id ((sh.activeTunnels.lookup id).map TunnelEntry.close), ?_,
        .alone rfl (by simp [ServerState.exec]) rfl⟩
      cases (sh.activeTunnels.lookup id).map TunnelEntry.close <;> simp [tunnelsClose]
  | notify id w => exact ⟨.notifyOne w, by simp [tunnelsClose], .alone rfl rfl rfl⟩
  | answered id found => exact absurd rfl hpc

/-- A task with work left can go on, unless it is a visitor that is not spawned, or
    the writer that it stands before is locked. -/
theorem ServerTask.ready (tokens : List String) (k : ServerTask) {pool : PortManager}
    (hkey : ∀ id info, sh.nodeManager.nodes.lookup id = some info → info.nodeId = id)
    (hw : WritersSuit sh t (k.locks? pool t) (k.holds? t)) (hk : k.work ≠ 0)
    (hs : k.unspawned = false) :
    ∃ op, (k.next tokens t op).isSome = true ∧ op.Ready sh t k.handling? := by
  cases k with
  | idle | gone => exact absurd rfl hk
  | refuse reason => exact ⟨.send t (.error ⟨reason⟩) true, by simp [next], .alone rfl rfl rfl⟩
  | cli register pc =>
      have hw' : WritersSuit sh t (pc.locks? pool ⟨t, register⟩) (pc.holds? t) := hw
      obtain ⟨op, hn, hr⟩ := HandleCli.ready (s := ⟨t, register⟩) tokens pc hkey hw' hk
      exact ⟨op, by rw [next, Option.isSome_map]; exact hn, hr⟩
  | node host reg pc =>
      obtain ⟨op, hn, hr⟩ := HandleNode.ready tokens host reg pc hw hk
      exact ⟨op, by rw [next, Option.isSome_map]; exact hn, hr⟩
  | visitor vis pc =>
      obtain ⟨op, hn, hr⟩ := VisitorTask.ready sh t vis pc hk hs
      exact ⟨op, by rw [next, Option.isSome_map]; exact hn, hr⟩
  | dataConn pc =>
      obtain ⟨op, hn, hr⟩ := HandleDataConn.ready sh t pc hk
      exact ⟨op, by rw [next, Option.isSome_map]; exact hn, hr⟩
  | close pc =>
      obtain ⟨op, hn, hr⟩ := Close.ready sh t pc hk
      exact ⟨op, by rw [next, Option.isSome_map]; exact hn, hr⟩

end Ready

/-! ## Visitors that are not spawned yet -/

section Steps

variable {tokens : List String} {s : SessionCtx} {ctx : TunnelCtx} {node : NodeInfo} {t v : Tid}
  {op : Op} {k k' kv kv' : ServerTask}

/-- A task becomes an unspawned visitor by being accepted only. -/
theorem ServerTask.Step.unspawned (h : Step tokens t k op k') (hk : k'.unspawned = true) :
    k.unspawned = true := by
  cases h with
  | @connect peer first =>
      have hd := handleClient_dispatched peer first
      generalize handleClient peer first = k' at hd hk
      cases hd <;> cases hk
  | visitor h => cases h <;> cases hk
  | _ => cases hk

/-- The loop that moves an unspawned visitor has it in its hands. -/
theorem ServerTask.Meets.keeps (h : Meets t k op k') (hc : op.child = some v)
    (ha : ServerTask.Adopt op kv kv') (hv : kv'.unspawned = true) :
    ∃ x, k'.handling? = some x ∧ x.visitor = v := by
  cases h with
  | loop hs _ _ =>
      generalize k.handling? = o at hs
      generalize k'.handling? = o' at hs ⊢
      cases ha with
      | accept =>
          cases hc
          cases hs with
          | accept => exact ⟨_, rfl, rfl⟩
          | quiet hop => cases hop
      | insertPending =>
          cases hc
          cases hs with
          | insertPending => exact ⟨_, rfl, rfl⟩
          | quiet hop => cases hop
      | spawn | drop => cases hv
  | visitor _ _ hs => cases hs <;> cases hc
  | dataConn _ _ hs => cases hs <;> cases hc

/-- A loop keeps its visitor until it acts on it. -/
theorem ServerTask.Meets.still {x : Handling} (h : Meets t k op k') (hx : k.handling? = some x)
    (hc : op.child ≠ some x.visitor) : ∃ y, k'.handling? = some y ∧ y.visitor = x.visitor := by
  cases h with
  | loop hs _ _ =>
      rw [hx] at hs
      generalize k'.handling? = o' at hs ⊢
      cases hs with
      | insertPending | drop | spawn => exact absurd rfl hc
      | _ => exact ⟨_, rfl, rfl⟩
  | visitor hk _ _ =>
      rw [hk] at hx
      cases hx
  | dataConn hk _ _ =>
      rw [hk] at hx
      cases hx

/-- A loop with a visitor in its hands is not done and waits for no writer. -/
theorem ServerTask.of_handling {pool : PortManager} {x : Handling} (h : k.handling? = some x) :
    k.work ≠ 0 ∧ k.unspawned = false ∧ ∀ w, k.locks? pool t ≠ some (.writer w) := by
  cases k with
  | cli register pc =>
      cases pc with
      | direct ctx pc => exact ⟨Nat.succ_ne_zero _, rfl, pc.locks_table⟩
      | viaNode ctx node pc =>
          cases pc with
          | fallback pc => exact ⟨Nat.succ_ne_zero _, rfl, pc.locks_table⟩
          | _ => cases h
      | _ => cases h
  | _ => cases h

/-- Whoever holds a writer is not done. -/
theorem ServerTask.of_holds {w : Tid} (h : k.holds? t = some w) :
    k.work ≠ 0 ∧ k.unspawned = false := by
  cases k with
  | cli register pc =>
      cases pc with
      | viaNode ctx node pc => exact ⟨Nat.succ_ne_zero _, rfl⟩
      | _ => cases h
  | node host reg pc =>
      cases pc with
      | ack | ackFailed | unlockFailed | forward => exact ⟨Nat.succ_ne_zero _, rfl⟩
      | _ => cases h
  | _ => cases h

/-! ## Nodes that are in the registry -/

/-- The id that a node session has registered and not removed. -/
def HandleNode.Pc.registered? : HandleNode.Pc → Option String
  | .lockAck id | .ack id | .ackFailed id | .connected id | .read id | .forward id _ _
  | .remove id => some id
  | _ => none

/-- The id that a task has registered and not removed. -/
def ServerTask.registered? : ServerTask → Option String
  | .node _ _ pc => pc.registered?
  | _ => none

/-- What an operation does to the registry and to the session that performs it. -/
def RegistryStep (t : Tid) (before : Option String) (op : Op) (after : Option String) : Prop :=
  match op with
  | .registerNode info => before = none ∧ after = some info.nodeId ∧ info.tx = t
  | .removeNode id => before = some id ∧ after = none
  | _ => after = before

theorem ServeCliDirect.Step.registry {pc : Pc} {f : Flow Pc} {id : Option String}
    (h : Step s ctx pc op f) : RegistryStep t id op id := by
  cases h with
  | serve h | served h => cases h <;> rfl
  | _ => rfl

theorem ServeCliViaNode.Step.registry {pc : Pc} {f : Flow Pc} {id : Option String}
    (h : Step s ctx node pc op f) : RegistryStep t id op id := by
  cases h with
  | fallback h | fellBack h => exact h.registry
  | _ => rfl

theorem HandleCli.Step.registry {pc pc' : Pc} {id : Option String}
    (h : Step tokens s pc op pc') : RegistryStep t id op id := by
  cases h with
  | direct h | directRet h => exact h.registry
  | viaNode h | viaNodeRet h => exact h.registry
  | _ => rfl

theorem HandleNode.Step.registry {host : String} {reg : RegisterNode} {pc pc' : Pc}
    (h : Step tokens t host reg pc op pc') :
    RegistryStep t pc.registered? op pc'.registered? := by
  cases h with
  | register => exact ⟨rfl, rfl, rfl⟩
  | unregister | remove => exact ⟨rfl, rfl⟩
  | forward h | forwarded h => cases h <;> rfl
  | _ => rfl

theorem ServerTask.Step.registry (h : Step tokens t k op k') :
    RegistryStep t k.registered? op k'.registered? := by
  cases h with
  | @connect peer first =>
      have hd := handleClient_dispatched peer first
      generalize handleClient peer first = k' at hd ⊢
      cases hd <;> rfl
  | cli h => exact h.registry
  | node h => exact h.registry
  | visitor h => cases h <;> rfl
  | dataConn h => cases h <;> rfl
  | close h => cases h <;> rfl
  | _ => rfl

/-- A task with nothing left to do has given back what it had taken. -/
theorem ServerTask.released (h : k.work = 0) :
    k.port? = none ∧ k.tunnel? = none ∧ k.registered? = none ∧ (∀ t, k.holds? t = none) ∧
      ∀ key, k.place ≠ .offered key := by
  cases k with
  | idle | gone => exact ⟨rfl, rfl, rfl, fun _ => rfl, nofun⟩
  | refuse reason => simp [work] at h
  | cli register pc =>
      cases pc with
      | done ctx => exact ⟨rfl, rfl, rfl, fun _ => rfl, nofun⟩
      | _ => simp [work, HandleCli.Pc.work] at h
  | node host reg pc =>
      cases pc with
      | done id => exact ⟨rfl, rfl, rfl, fun _ => rfl, nofun⟩
      | _ => simp [work, HandleNode.Pc.work] at h
  | visitor vis pc =>
      cases pc with
      | done d =>
          refine ⟨rfl, rfl, rfl, fun _ => rfl, fun key hp => ?_⟩
          cases d <;> cases hp
      | _ => simp [work, VisitorTask.Pc.work] at h
  | dataConn pc => exact ⟨rfl, rfl, rfl, fun _ => rfl, nofun⟩
  | close pc => exact ⟨rfl, rfl, rfl, fun _ => rfl, nofun⟩

end Steps

/-! ## Runs -/

/-- Nothing goes on, and nothing is left of what went on but the records. -/
structure Server.Drained (cfg : ServerConfig) (c : Server) : Prop where
  rests : ∀ t, (c.task t).work = 0
  portMgr : c.shared.portMgr = PortManager.new cfg.portRange.1 cfg.portRange.2
  activeTunnels : c.shared.activeTunnels = ∅
  pending : c.shared.pending = ∅
  nodeManager : c.shared.nodeManager = NodeManager.new
  writer : ∀ w, c.shared.writer w = none

/-- The task has an operation of its own that is possible. -/
def GoesOn (cfg : ServerConfig) (c : Server) (t : Tid) : Prop :=
  ∃ op, op.own = true ∧ ((serverTasks cfg).step c (t, op)).isSome = true

/-- Whether a task can go on, or which one must before it. -/
inductive HeldUp (cfg : ServerConfig) (c : Server) (t : Tid) : Prop where
  | free (hgo : GoesOn cfg c t)
  /-- Another task holds the writer that it stands before, and can go on. -/
  | waits {w u : Tid} (hlocks : (c.task t).locks? (Locking.pool cfg) t = some (.writer w))
      (hholder : c.shared.writer w = some u) (hgo : GoesOn cfg c u)
  /-- It is a visitor whose task is not spawned yet, and the loop that has it can go on. -/
  | unspawned {u : Tid} {x : Handling} (htask : (c.task t).unspawned = true)
      (hloop : (c.task u).handling? = some x) (hvisitor : x.visitor = t) (hgo : GoesOn cfg c u)

/-- A node in the registry is there for a session that will remove it. -/
def RegistryInv (c : Server) : Prop :=
  ∀ id info, c.shared.nodeManager.nodes.lookup id = some info →
    (c.task info.tx).registered? = some id

section Runs

variable {cfg : ServerConfig} {ls : List (Tid × Op)} {c c' : Server} {t : Tid} {op : Op}

theorem keptInv (h : (server cfg).Run ls c) : serverCustody.Kept ServerTask.unspawned c := by
  refine Lts.Run.induct (P := fun _ c => serverCustody.Kept ServerTask.unspawned c) ?_ ?_ h
  · intro v hv
    cases hv
  · rintro ls c ⟨t, op⟩ c' - hi hs
    have hself := server_step_self hs
    refine hi.step hs (fun u hu => ?_) hself.unspawned (fun v hc hv => ?_) fun x hx hc => ?_
    · exact server_step_attr (f := ServerTask.handling?) (fun _ _ => rfl) hs hu
    · exact hself.meets.keeps hc (server_step_child hs hc).2 hv
    · exact hself.meets.still hx hc

theorem registryInv_step (hi : RegistryInv c) (h : (server cfg).step c (t, op) = some c') :
    RegistryInv c' := by
  intro id info hl
  have hx := server_step_exec h
  have hself := (server_step_self h).registry
  by_cases hnew : op = .registerNode info ∧ id = info.nodeId
  · obtain ⟨rfl, rfl⟩ := hnew
    obtain ⟨-, hafter, htx⟩ := hself
    rw [htx]
    exact hafter
  · have hold :
        ∃ n, c.shared.nodeManager.nodes.lookup id = some { info with tunnelCount := n } := by
      obtain rfl | hold := ServerState.exec_registry hx hl
      · rw [ServerState.exec_registerNode hx, if_neg fun hid => hnew ⟨rfl, hid⟩] at hl
        exact ⟨_, hl⟩
      · exact hold
    obtain ⟨n, hold⟩ := hold
    have hbefore : (c.task info.tx).registered? = some id :=
      hi id { info with tunnelCount := n } hold
    by_cases htx : info.tx = t
    · rw [htx] at hbefore ⊢
      cases op with
      | registerNode other =>
          rw [hself.1] at hbefore
          cases hbefore
      | removeNode other =>
          -- the session removes its own node, which is gone then
          rw [hself.1] at hbefore
          rw [← Option.some.inj hx, NodeManager.lookup_remove,
            if_pos (Option.some.inj hbefore).symm] at hl
          cases hl
      | _ => exact hself.trans hbefore
    · rw [server_step_attr (f := ServerTask.registered?) (fun _ _ => rfl) h htx]
      exact hbefore

theorem registryInv (h : (server cfg).Run ls c) : RegistryInv c := by
  refine Lts.Run.induct (P := fun _ c => RegistryInv c) ?_
    (fun _ _ _ _ _ hi hs => registryInv_step hi hs) h
  intro id info hl
  cases hl

/-- A task with work left goes on, if it is spawned and waits for no writer. -/
theorem goes_on (h : (server cfg).Run ls c) (hk : (c.task t).work ≠ 0)
    (hs : (c.task t).unspawned = false)
    (hfree : ∀ w, (c.task t).locks? (Locking.pool cfg) t = some (.writer w) →
      c.shared.writer w = none) :
    GoesOn cfg c t := by
  obtain ⟨op, hn, ho⟩ := ServerTask.ready cfg.tokens (c.task t) (countedInv h).key
    ⟨hfree, fun w hw => (writerInv h w t).mpr hw⟩ hk hs
  refine ⟨op, ho.own, Tasks.step_isSome hn ho.exec fun v hv => ?_⟩
  obtain ⟨x, hx, rfl, ha⟩ := ho.child v hv
  have hhas := (visitorInv h).loop.has t x hx
  refine ⟨?_, ha _ hhas⟩
  -- a visitor is no loop
  intro he
  rw [he] at hhas
  generalize c.task t = k at hhas hx
  cases hhas <;> cases hx

/-- What a task with work left is at: it can go on, or it waits for a writer whose
    holder can, or it is a visitor that is not spawned yet and in the hands of a loop
    that can. -/
theorem held_up (h : (server cfg).Run ls c) (hk : (c.task t).work ≠ 0) : HeldUp cfg c t := by
  by_cases hs : (c.task t).unspawned = true
  · obtain ⟨u, x, hx, hv⟩ := keptInv h t hs
    obtain ⟨hwork, hspawned, hlocks⟩ := ServerTask.of_handling hx
    exact .unspawned hs hx hv (goes_on h hwork hspawned fun w hw => absurd hw (hlocks w))
  · by_cases hwait : ∃ w u, (c.task t).locks? (Locking.pool cfg) t = some (.writer w) ∧
        c.shared.writer w = some u
    · obtain ⟨w, u, hlocks, hu⟩ := hwait
      have hholds := (writerInv h w u).mp hu
      obtain ⟨hwork, hspawned⟩ := ServerTask.of_holds hholds
      -- a task that holds a writer waits for no other
      exact .waits hlocks hu (goes_on h hwork hspawned fun w' hw' =>
        absurd hw' (ServerTask.locks_of_holds hholds))
    · refine .free (goes_on h hk (Bool.eq_false_iff.mpr hs) fun w hw => ?_)
      cases hwriter : c.shared.writer w with
      | none => rfl
      | some u => exact absurd ⟨w, u, hw, hwriter⟩ hwait

/-- As long as a task has work left, some task goes on. -/
theorem not_stuck (h : (server cfg).Run ls c) (hk : (c.task t).work ≠ 0) :
    ∃ u, GoesOn cfg c u := by
  cases held_up h hk with
  | free hgo => exact ⟨_, hgo⟩
  | waits _ _ hgo => exact ⟨_, hgo⟩
  | unspawned _ _ _ hgo => exact ⟨_, hgo⟩

theorem done_of_atRest (h : (server cfg).Run ls c) (hrest : Tasks.AtRest (serverTasks cfg) Op.own c)
    (t : Tid) : (c.task t).work = 0 := by
  by_contra hk
  obtain ⟨u, op, ho, hs⟩ := not_stuck h hk
  rw [hrest u op ho] at hs
  cases hs

/-- When all tasks are done, the server is where it started, but for its records. -/
theorem drained_of_done (h : (server cfg).Run ls c) (hdone : ∀ t, (c.task t).work = 0) :
    c.Drained cfg := by
  have hreleased := fun t => ServerTask.released (hdone t)
  have hports := portInv h
  constructor
  case rests => exact hdone
  case portMgr =>
    have hfree :
        c.shared.portMgr.available = PortManager.ports cfg.portRange.1 cfg.portRange.2 := by
      ext port
      rw [PortManager.mem_ports, ← hports.range, ← PortManager.inRange_iff]
      constructor
      · exact hports.free_inRange port
      · intro hin
        obtain hfree | ⟨t, ht⟩ := hports.free_or_held port hin
        · exact hfree
        · rw [(hreleased t).1] at ht
          cases ht
    have heta : c.shared.portMgr = ⟨c.shared.portMgr.available, c.shared.portMgr.range⟩ := rfl
    rw [heta, hfree, hports.range]
    rfl
  case activeTunnels =>
    refine Finmap.ext_lookup fun id => ?_
    rw [Finmap.lookup_empty]
    cases hl : c.shared.activeTunnels.lookup id with
    | none => rfl
    | some e =>
        have htunnel := tunnelInv h id e hl
        rw [(hreleased e.close).2.1] at htunnel
        cases htunnel
  case pending =>
    refine Finmap.ext_lookup fun key => ?_
    rw [Finmap.lookup_empty]
    cases hl : c.shared.pending.lookup key with
    | none => rfl
    | some v => exact absurd ((visitorInv h).tidy key v hl) ((hreleased v).2.2.2.2 key)
  case nodeManager =>
    have hnodes : c.shared.nodeManager.nodes = ∅ := by
      refine Finmap.ext_lookup fun id => ?_
      rw [Finmap.lookup_empty]
      cases hl : c.shared.nodeManager.nodes.lookup id with
      | none => rfl
      | some info =>
          have hnode := registryInv h id info hl
          rw [(hreleased info.tx).2.2.1] at hnode
          cases hnode
    exact congrArg NodeManager.mk hnodes
  case writer =>
    intro w
    cases hl : c.shared.writer w with
    | none => rfl
    | some t =>
        have hholds := (writerInv h w t).mp hl
        rw [(hreleased t).2.2.2.1] at hholds
        cases hholds

/-- From every reachable state, when nothing new arrives, only boundedly many
    operations follow, 23 of a task at most.  No task is stuck before its last.  Where
    none is possible any more, all ports are free, no tunnel, node or visitor is in a
    table and no writer is locked; and the server gets there. -/
theorem drains (h : (server cfg).Run ls c) :
    (∀ t, (c.task t).work ≠ 0 → HeldUp cfg c t) ∧
    (∃ n, ∀ ls' c', (server cfg).runFrom c ls' = some c' → (∀ a ∈ ls', a.2.own = true) →
      ls'.length ≤ n ∧ (∀ t, (Tasks.opsOf t ls').length ≤ 23) ∧
      (Tasks.AtRest (serverTasks cfg) Op.own c' → c'.Drained cfg)) ∧
    ∃ ls' c', (server cfg).runFrom c ls' = some c' ∧ (∀ a ∈ ls', a.2.own = true) ∧
      c'.Drained cfg := by
  have hwinds := serverTasks_winds cfg
  obtain ⟨ts, hbusy⟩ := Tasks.run_busy (start_busy cfg) h
  have hdrained : ∀ ls' c', (server cfg).runFrom c ls' = some c' →
      Tasks.AtRest (serverTasks cfg) Op.own c' → c'.Drained cfg := by
    intro ls' c' hr hrest
    have hrun : (server cfg).Run (ls ++ ls') c' := Lts.run_append.mpr ⟨c, h, hr⟩
    exact drained_of_done hrun (done_of_atRest hrun hrest)
  refine ⟨fun t => held_up h,
    ⟨Tasks.left ServerTask.work c ts, fun ls' c' hr ho => ⟨?_, fun t => ?_, ?_⟩⟩, ?_⟩
  · have hlen := hwinds.length_le hbusy hr ho
    omega
  · have heach := hwinds.opsOf_length_le hr ho t
    have hmost := (c.task t).work_le
    omega
  · exact hdrained ls' c' hr
  · obtain ⟨ls', c', hr, ho, hrest⟩ := hwinds.exists_rest hbusy
    exact ⟨ls', c', hr, ho, hdrained ls' c' hr hrest⟩

/-- A node and a tunnel through it, which end. -/
theorem drains_exposed :
    ∃ c, (server onePort).Run (nodeVisible ++ nodeAnswered ++ cliOrdered ++ cliExposed) c ∧
      (c.task 1).port? = some 7000 ∧ ∃ ls' c', (server onePort).runFrom c ls' = some c' ∧
        c'.shared.portMgr = PortManager.new 7000 7000 := by
  obtain ⟨c, h, hport⟩ : ∃ c,
      (server onePort).Run (nodeVisible ++ nodeAnswered ++ cliOrdered ++ cliExposed) c ∧
      (c.task 1).port? = some 7000 := ⟨_, rfl, rfl⟩
  obtain ⟨-, -, ls', c', hr, -, hd⟩ := drains h
  exact ⟨c, h, hport, ls', c', hr, hd.portMgr⟩

end Runs

end Borehole
