/-
  Borehole.World.Directions

  A process is sent to where its visitor waits.

  The address goes a long way: a node registers with its data port, a session of
  the server picks the node and orders the tunnel from it, the node reports a
  visitor of that tunnel, the report is forwarded with the address of the node
  that the tunnel's session has picked, and the process dials it.  The invariant
  follows the tunnel's id along that way: whoever has to do with a tunnel at a
  node was ordered to by a session that has picked the node.
-/

import Borehole.Server.Directions
import Borehole.World.Delivery

namespace Borehole

open Conc

/-! ## What tasks of a node have to do with -/

namespace Node

/-- The tunnel that a task is for, or is about to open. -/
def NodeTask.tunnel? : NodeTask → Option String
  | .session (.bind _ _ order) | .session (.spawn _ _ order) => some order.tunnelId
  | .loop ctx _ _ => some ctx.tunnelId
  | .visitor vis _ => some vis.tunnelId
  | _ => none

section Steps

variable {k k' : NodeTask} {op : Op} {id : String} {c c' : NodeConf} {t u : Tid}

/-- A task keeps to its tunnel, or has just read the order to open it. -/
theorem NodeTask.Step.tunnel (h : Step k op k') (hk : k'.tunnel? = some id) :
    k.tunnel? = some id ∨ (∃ pc, k = .session pc) ∧
      ∃ s order, op = .readOrder s (some (some (.openTunnel order))) ∧ order.tunnelId = id := by
  cases h with
  | session h =>
      cases h with
      | @order s tunnels line =>
          refine Or.inr ⟨⟨_, rfl⟩, ?_⟩
          unfold serveOrder at hk
          split at hk
          · cases hk
          · exact ⟨s, _, rfl, Option.some.inj hk⟩
          · split at hk <;> cases hk
          · cases hk
      | bound => exact Or.inl hk
      | _ => cases hk
  | loop | visitor => exact Or.inl hk
  | dataConn | dataConnect => cases hk

/-- What a task is started for is the tunnel of the task that starts it. -/
theorem node_step_tunnel (h : node.step c (t, op) = some c')
    (hk : (c'.task u).tunnel? = some id) :
    (∃ v, (c.task v).tunnel? = some id) ∨ (∃ pc, c.task t = .session pc) ∧
      ∃ s order, op = .readOrder s (some (some (.openTunnel order))) ∧ order.tunnelId = id := by
  have hself := node_step_self h
  by_cases hut : u = t
  · subst hut
    exact (hself.tunnel hk).imp_left fun hk => ⟨u, hk⟩
  · obtain he | ⟨-, ha⟩ := node_step_other h hut
    · exact Or.inl ⟨u, he ▸ hk⟩
    · left
      generalize hu : c.task u = ku at ha
      generalize c'.task u = ku' at ha hk
      cases ha with
      | spawnLoop =>
          refine ⟨t, ?_⟩
          generalize c.task t = kt at hself ⊢
          generalize c'.task t = kt' at hself
          cases hself with
          | session hself =>
              cases hself with
              | spawnLoop => exact hk
          | loop hself => cases hself
          | visitor hself => cases hself
          | dataConn hself => cases hself
      | accept =>
          refine ⟨t, ?_⟩
          generalize c.task t = kt at hself ⊢
          generalize c'.task t = kt' at hself
          cases hself with
          | session hself => cases hself
          | loop hself =>
              cases hself with
              | accept hid =>
                  cases hk
                  exact congrArg some hid.symm
          | visitor hself => cases hself
          | dataConn hself => cases hself
      | _ => exact ⟨u, by rw [hu]; exact hk⟩

end Steps

end Node

/-! ## What tasks of a process are told -/

namespace Cli

/-- The data endpoint that a notice names. -/
def dataNode (notice : NewConn) : Option (String × UInt16) :=
  notice.nodeHost.bind fun host => notice.nodePort.map fun port => (host, port)

/-- The `conn_id` that a task has been told of, and where to connect for it. -/
def CliTask.led? : CliTask → Option (String × Option (String × UInt16))
  | .main (.running _ (.spawn _ notice)) => some (notice.connId, dataNode notice)
  | .data ctx _ => some (ctx.connId, ctx.node)
  | _ => none

/-- The configuration that a task goes by. -/
def CliTask.addr? : CliTask → Option String
  | .main (.running _ (.handshake cfg)) | .main (.running _ (.hostname cfg))
  | .main (.running _ (.register cfg _)) | .main (.running _ (.verdict cfg))
  | .main (.running _ (.serve cfg)) | .main (.running _ (.spawn cfg _)) => some cfg.serverAddr
  | .data ctx _ => some ctx.serverAddr
  | _ => none

section Steps

variable {start : Start} {k k' : CliTask} {op : Op} {c c' : Process} {ls : List (Tid × Op)}
  {t u : Tid} {led : String × Option (String × UInt16)} {addr : String}

theorem CliTask.Step.leads (h : Step start k op k') (hk : k'.led? = some led) :
    k.led? = some led ∨ ∃ notice, led = (notice.connId, dataNode notice) ∧
      op = .readLine (some (some (.newConn notice))) ∧ ∃ a pc, k = .main (.running a pc) := by
  cases h with
  | data => exact Or.inl hk
  | main h =>
      cases h with
      | again => cases hk
      | @run a pc _ o h =>
          cases h with
          | visitor =>
              cases hk
              exact Or.inr ⟨_, rfl, rfl, _, _, rfl⟩
          | unconfigured | unreachable | insecure | registerFailed | rejected | disconnected =>
              rw [RunTunnelLoop.resume] at hk
              split at hk <;> cases hk
          | _ => cases hk

theorem CliTask.Step.address (h : Step start k op k') (hk : k'.addr? = some addr) :
    k.addr? = some addr ∨ op = .connect addr true := by
  cases h with
  | data => exact Or.inl hk
  | main h =>
      cases h with
      | again => cases hk
      | @run a pc _ o h =>
          cases h with
          | connected =>
              cases hk
              exact Or.inr rfl
          | unconfigured | unreachable | insecure | registerFailed | rejected | disconnected =>
              rw [RunTunnelLoop.resume] at hk
              split at hk <;> cases hk
          | loaded | ctrlC => cases hk
          | _ => exact Or.inl hk

/-- The task of a visitor has what the task that spawns it has read. -/
theorem CliTask.Step.hands {d : Tid} {ctx : DataCtx} (h : Step start k (.spawn d ctx) k') :
    k.led? = some (ctx.connId, ctx.node) ∧ k.addr? = some ctx.serverAddr := by
  cases h with
  | main h =>
      cases h with
      | run h =>
          cases h
          exact ⟨rfl, rfl⟩
  | data h => cases h

theorem cli_step_led (h : (cli start).step c (t, op) = some c')
    (hk : (c'.task u).led? = some led) :
    (∃ v, (c.task v).led? = some led) ∨ ∃ notice, led = (notice.connId, dataNode notice) ∧
      op = .readLine (some (some (.newConn notice))) ∧
        ∃ a pc, c.task t = .main (.running a pc) := by
  by_cases hut : u = t
  · subst hut
    exact ((cli_step_self h).leads hk).imp_left fun hk => ⟨u, hk⟩
  · obtain he | ⟨ctx, rfl, _, he⟩ := cli_step_other h hut
    · exact Or.inl ⟨u, he ▸ hk⟩
    · rw [he] at hk
      rw [← Option.some.inj hk]
      exact Or.inl ⟨t, (cli_step_self h).hands.1⟩

/-- Every task goes by the address that a control connection was opened to. -/
theorem addr_connected (h : (cli start).Run ls c) (hk : (c.task u).addr? = some addr) :
    ∃ t, (t, .connect addr true) ∈ ls := by
  refine Lts.Run.induct (P := fun ls c => ∀ u, (c.task u).addr? = some addr →
    ∃ t, (t, Op.connect addr true) ∈ ls) ?_ ?_ h u hk
  · intro u hk
    simp only [cli, Tasks.lts, Process.start] at hk
    split at hk <;> cases hk
  · rintro ls c ⟨t, op⟩ c' - ih hs u hk
    have hold : ∀ v, (c.task v).addr? = some addr →
        ∃ v, (v, Op.connect addr true) ∈ ls ++ [(t, op)] := by
      intro v hk
      obtain ⟨v, hm⟩ := ih v hk
      exact ⟨v, List.mem_append_left _ hm⟩
    by_cases hut : u = t
    · subst hut
      obtain hk | rfl := (cli_step_self hs).address hk
      · exact hold u hk
      · exact ⟨u, List.mem_append_right _ (List.mem_singleton.mpr rfl)⟩
    · obtain he | ⟨ctx, rfl, _, he⟩ := cli_step_other hs hut
      · exact hold u (he ▸ hk)
      · rw [he] at hk
        exact hold t ((cli_step_self hs).hands.2.trans hk)

/-- A data connection is dialled to the endpoint that its task was handed. -/
theorem dial_data {e : Endpoint} {ok : Bool} (h : (cli start).Run ls c)
    (hop : (u, .dial e ok) ∈ ls) :
    ∃ ctx, (c.task u).data? = some ctx ∧ e = HandleDataConn.endpoint ctx := by
  refine Lts.Run.induct (P := fun ls c => (u, .dial e ok) ∈ ls →
    ∃ ctx, (c.task u).data? = some ctx ∧ e = HandleDataConn.endpoint ctx) ?_ ?_ h hop
  · intro hop
    cases hop
  · rintro ls c ⟨t, op⟩ c' - ih hs hop
    obtain hop | hop := List.mem_append.mp hop
    · obtain ⟨ctx, hctx, he⟩ := ih hop
      exact ⟨ctx, cli_step_data hs hctx, he⟩
    · cases List.mem_singleton.mp hop
      have hself := cli_step_self hs
      generalize c.task u = k at hself
      generalize c'.task u = k' at hself ⊢
      cases hself with
      | main hself =>
          cases hself with
          | run hself => cases hself
      | @data ctx pc _ pc' hself =>
          cases hself
          exact ⟨ctx, rfl, rfl⟩

end Steps

end Cli

namespace World

/-! ## What is claimed of a run -/

/-- What the server does in a run. -/
def serverRun (ls : List Label) : List (Tid × Op) :=
  ls.filterMap Label.server?

/-- The data endpoint of a host, as a process is told of it: none for the server, and
    for a node the address that one of its sessions has connected from, with the
    port it has registered. -/
def Reaches (d : Setup) (ls : List Label) (w : World) : Host → Option (String × UInt16) → Prop
  | .server, e => e = none
  | .node n, e => ∃ t s host, w.peer .server t = some (.node n s) ∧
      .server t (.connect host (some (some (.registerNode (d.node n))))) ∈ ls ∧
      e = some (host, (d.node n).dataPort)

/-- A visitor of a tunnel that process `p` has created waits where `e` leads. -/
def Led (d : Setup) (ls : List Label) (w : World) (p : Nat) (connId : String)
    (e : Option (String × UInt16)) : Prop :=
  ∃ h v x t, w.visitor? h v = some x ∧ x.connId = connId ∧ w.Created p t x.tunnelId ∧
    Reaches d ls w h e

/-- Node `n` was ordered to open the tunnel, by the session that has it and has picked
    that node. -/
def Ordered (ls : List Label) (w : World) (n : Nat) (tunnelId : String) : Prop :=
  ∃ t info s, Picked (serverRun ls) t info ∧ w.peer .server info.tx = some (.node n s) ∧
    w.server.Serves t tunnelId

section Runs

variable {d : Setup} {w w' : World} {l : Label} {ls : List Label} {t u : Tid} {p k n : Nat}
  {id : String} {party : Party} {e : Option (String × UInt16)}

/-! ## What stays true -/

theorem serverRun_snoc (ls : List Label) (l : Label) :
    serverRun (ls ++ [l]) = serverRun ls ++ l.server?.toList := by
  rw [serverRun, List.filterMap_append, serverRun]
  cases h : l.server? <;> simp [h]

/-- What a program has done is a step of the whole. -/
theorem server_label {op : Op} (h : (t, op) ∈ ls.filterMap Label.server?) : .server t op ∈ ls := by
  obtain ⟨l, hl, hlabel⟩ := List.mem_filterMap.mp h
  cases l <;> cases hlabel
  exact hl

theorem cli_label {op : Cli.Op} (h : (k, op) ∈ ls.filterMap (Label.cli? p)) : .cli p k op ∈ ls := by
  obtain ⟨l, hl, hlabel⟩ := List.mem_filterMap.mp h
  cases l with
  | cli q u op' =>
      obtain ⟨rfl, he⟩ := Option.ite_none_right_eq_some.mp hlabel
      cases he
      exact hl
  | _ => cases hlabel

theorem Reaches.step {h : Host} (hr : Reaches d ls w h e) (hs : (world d).step w l = some w') :
    Reaches d (ls ++ [l]) w' h e := by
  cases h with
  | server => exact hr
  | node n =>
      obtain ⟨t, s, host, hp, hm, he⟩ := hr
      exact ⟨t, s, host, step_peer hs hp, List.mem_append_left _ hm, he⟩

theorem Led.step (hl : Led d ls w p id e) (hs : (world d).step w l = some w') :
    Led d (ls ++ [l]) w' p id e := by
  obtain ⟨h, v, x, t, hv, hid, hc, hr⟩ := hl
  exact ⟨h, v, x, t, step_visitor hs hv, hid, hc.step hs, hr.step hs⟩

theorem serves_step (hv : w.server.Serves t id) (hs : (world d).step w l = some w') :
    w'.server.Serves t id := by
  obtain he | ⟨_, _, _, hstep⟩ := step_server hs
  · rwa [he]
  · exact hv.step hstep

theorem Ordered.step (ho : Ordered ls w n id) (hs : (world d).step w l = some w') :
    Ordered (ls ++ [l]) w' n id := by
  obtain ⟨t, info, s, hp, hpeer, hv⟩ := ho
  refine ⟨t, info, s, ?_, step_peer hs hpeer, serves_step hv hs⟩
  rw [serverRun_snoc]
  exact hp.append _

/-- What every message has when it is written, and keeps, holds of what is under way. -/
theorem stream_induct {P : List Label → World → Way Party → Message → Prop}
    (hkeep : ∀ ls w l w' way m, (world d).step w l = some w' → P ls w way m →
      P (ls ++ [l]) w' way m)
    (hput : ∀ ls w l w' way m, (world d).Run ls w → (world d).step w l = some w' →
      act d w l = .put way m → P ls w way m)
    (hr : (world d).Run ls w) {way : Way Party} {m : Message} (hm : m ∈ w.net.stream way) :
    P ls w way m := by
  refine Lts.Run.induct (L := world d) (P := fun ls w => ∀ way m, m ∈ w.net.stream way →
    P ls w way m) ?_ ?_ hr way m hm
  · intro way m hm
    cases hm
  · intro ls w l w' hr ih hs way m hm
    apply hkeep ls w l w' way m hs
    obtain hm | hact := Network.exec_stream (step_net hs) hm
    · exact ih way m hm
    · exact hput ls w l w' way m hr hs hact

/-! ## Who writes what -/

/-- Only the server writes to a party, on the stream of the task that serves it. -/
theorem act_put_down {m : Message} (h : act d w l = .put (.down party) m) :
    ∃ t op u ok, l = .server t op ∧ op.frame? = some (u, m, ok) ∧
      w.peer .server u = some party := by
  have hact := act_acts d w l
  rw [h] at hact
  cases hact with
  | server h =>
      cases h with
      | send hp | sendUnlock hp => exact ⟨_, _, _, _, rfl, rfl, hp⟩
  | node h => cases h
  | cli h => cases h

/-- Only nodes register as nodes, each with its own configuration. -/
theorem registerNode_said {reg : RegisterNode} (hr : (world d).Run ls w)
    (hm : .registerNode reg ∈ w.net.stream (.up party)) :
    ∃ n s, party = .node n s ∧ reg = d.node n := by
  have hway := stream_induct (d := d) (P := fun _ _ way m => ∀ party reg, way = .up party →
    m = .registerNode reg → ∃ n s, party = .node n s ∧ reg = d.node n)
    (fun _ _ _ _ _ _ _ h => h) ?_ hr hm
  · exact hway party reg rfl rfl
  rintro ls w l w' way m hr hs hact party reg rfl rfl
  have hacts := act_acts d w l
  rw [hact] at hacts
  cases hacts with
  | server h => cases h
  | node h =>
      cases h with
      | register => exact ⟨_, _, rfl, rfl⟩
  | @cli q k op _ h =>
      -- what a task of a process says besides its `Register` is its `DataConn`
      have hlabel : Label.cli? q (.cli q k op) = some (k, op) := if_pos rfl
      have hself := Cli.cli_step_self ((cli_projection q).own hs hlabel)
      cases h with
      | announce hk =>
          rw [hk] at hself
          generalize (w'.cli q).task k = task' at hself
          cases hself with
          | data h => cases h

/-- A node session of the server serves a node that has registered over its
    connection, and knows it by the address it has connected from. -/
theorem session_node {host : String} {reg : RegisterNode} (hr : (world d).Run ls w)
    (hk : (w.server.task t).node? = some (host, reg)) :
    ∃ n s, w.peer .server t = some (.node n s) ∧ reg = d.node n ∧
      .server t (.connect host (some (some (.registerNode reg)))) ∈ ls := by
  refine Lts.Run.induct (L := world d) (P := fun ls w => ∀ t host reg,
    (w.server.task t).node? = some (host, reg) → ∃ n s, w.peer .server t = some (.node n s) ∧
      reg = d.node n ∧ .server t (.connect host (some (some (.registerNode reg)))) ∈ ls)
    ?_ ?_ hr t host reg hk
  · intro t host reg hk
    cases hk
  · intro ls w l w' hr ih hs t host reg hk
    have hold : (w.server.task t).node? = some (host, reg) →
        ∃ n s, w'.peer .server t = some (.node n s) ∧ reg = d.node n ∧
          .server t (.connect host (some (some (.registerNode reg)))) ∈ ls ++ [l] := by
      intro hk
      obtain ⟨n, s, hp, hreg, hm⟩ := ih t host reg hk
      exact ⟨n, s, step_peer hs hp, hreg, List.mem_append_left _ hm⟩
    have hnet := step_net hs
    cases world_step hs with
    | @server u op c net hadmits hstep =>
        by_cases htu : t = u
        · subst htu
          obtain hk | rfl := (server_step_self hstep).enters hk
          · exact hold hk
          -- the session has just started
          · change (w.peer .server t).any Party.control = true at hadmits
            obtain ⟨party, hp, -⟩ := (Option.any_eq_true _ _).mp hadmits
            change w.net.exec (receive (w.peer .server t) _) = _ at hnet
            rw [hp] at hnet
            obtain ⟨n, s, rfl, hreg⟩ := registerNode_said hr (Network.exec_get hnet)
            exact ⟨n, s, hp, hreg, List.mem_append_right _ (List.mem_singleton.mpr rfl)⟩
        · have he := server_step_attr (f := ServerTask.node?) (fun _ _ => rfl) hstep htu
          exact hold (he.symm.trans hk)
    | _ => exact hold hk

/-- A node that a session has picked can be reached where it registered. -/
theorem picked_reaches {info : NodeInfo} (hr : (world d).Run ls w)
    (hp : Picked (serverRun ls) t info) :
    ∃ n s, w.peer .server info.tx = some (.node n s) ∧
      Reaches d ls w (.node n) (some (info.host, info.dataPort)) := by
  obtain ⟨reg, hk, -, hport⟩ := picked_at (server_projection.run hr) hp
  obtain ⟨n, s, hpeer, rfl, hm⟩ := session_node hr hk
  exact ⟨n, s, hpeer, info.tx, s, info.host, hpeer, hm, by rw [hport]⟩

theorem openTunnel_said {order : OpenTunnel} {s : Nat} (hr : (world d).Run ls w)
    (hm : .openTunnel order ∈ w.net.stream (.down (.node n s))) :
      Ordered ls w n order.tunnelId := by
  have hway := stream_induct (d := d) (P := fun ls w way m => ∀ n s order,
    way = .down (.node n s) → m = .openTunnel order → Ordered ls w n order.tunnelId) ?_ ?_ hr hm
  · exact hway n s order rfl rfl
  · intro ls w l w' way m hs ih n s order hway hm
    exact (ih n s order hway hm).step hs
  · rintro ls w l w' way m hr hs hact n s order rfl rfl
    obtain ⟨t, op, u, ok, rfl, hf, hp⟩ := act_put_down hact
    have hrun := server_projection.run hr
    have hstep := server_projection.own hs rfl
    obtain ⟨ctx, info, hctx, hrouted, rfl, rfl⟩ :=
      ServerTask.frame_openTunnel ((server_step_self hstep).frame hf)
    exact ⟨t, info, s, picked_of_routed hrun hrouted, hp, ctx, hctx, rfl⟩

/-- Whatever a task of a node has to do with was ordered from the node. -/
theorem tunnel_ordered (hr : (world d).Run ls w) (hk : ((w.node n).task u).tunnel? = some id) :
    Ordered ls w n id := by
  refine Lts.Run.induct (L := world d)
    (P := fun ls w => ∀ u, ((w.node n).task u).tunnel? = some id →
    Ordered ls w n id) ?_ ?_ hr u hk
  · intro u hk
    change (if u = 0 then _ else _ : Node.NodeTask).tunnel? = some id at hk
    split at hk <;> cases hk
  · intro ls w l w' hr ih hs u hk
    obtain he | ⟨t, op, rfl, hstep⟩ := step_node n hs
    · rw [he] at hk
      exact (ih u hk).step hs
    · obtain ⟨v, hv⟩ | ⟨⟨pc, hpc⟩, s, order, rfl, rfl⟩ := Node.node_step_tunnel hstep hk
      · exact (ih v hv).step hs
      · have hnet := step_net hs
        change w.net.exec (nodeAct _ n _ t ((w.node n).task t) _) = _ at hnet
        rw [hpc, show nodeAct _ n _ t (.session pc) (.readOrder s _) =
          .get (.down (.node n s)) (some (some (.openTunnel order))) by cases pc <;> rfl] at hnet
        exact (openTunnel_said hr (Network.exec_get hnet)).step hs

/-! ## Where a process is led -/

/-- A `NewConn` is about a visitor of the process it is written to, and leads to where
    that visitor waits. -/
theorem newConn_said {notice : NewConn} {a : Nat} (hr : (world d).Run ls w)
    (hids : (births ls).Nodup) (hm : .newConn notice ∈ w.net.stream (.down (.cli p a))) :
    Led d ls w p notice.connId (Cli.dataNode notice) := by
  have hway := stream_induct (d := d) (P := fun ls w way m => (births ls).Nodup →
    ∀ p a notice, way = .down (.cli p a) → m = .newConn notice →
      Led d ls w p notice.connId (Cli.dataNode notice)) ?_ ?_ hr hm
  · exact hway hids p a notice rfl rfl
  · intro ls w l w' way m hs ih hids p a notice hway hm
    rw [births_snoc] at hids
    exact (ih hids.of_append_left p a notice hway hm).step hs
  · rintro ls w l w' way m hr hs hact hids p a notice rfl rfl
    obtain ⟨t, op, u, ok, rfl, hf, hp⟩ := act_put_down hact
    have hrun := server_projection.run hr
    have hstep := server_projection.own hs rfl
    have hnd := hids.sublist (uuids_sublist ls)
    obtain ⟨v, x, hv, hid, hserves, hhost, -⟩ |
        ⟨x, info, hx, hid, hserves, hpicked, hhost, hport⟩ :=
      newConn_leads hrun hnd hstep hf
    · refine ⟨.server, v, x, u, hv, hid, ⟨⟨a, hp⟩, hserves⟩, ?_⟩
      rw [Cli.dataNode, hhost]
      rfl
    -- the node that reports the visitor is the one that the tunnel's session has picked
    · obtain ⟨n, v, hv⟩ := (told hr).report t x hx
      have htunnel : ((w.node n).task v).tunnel? = some x.tunnelId := by
        change ((w.node n).task v).visitor? = some x at hv
        generalize (w.node n).task v = k at hv ⊢
        cases k <;> cases hv
        rfl
      obtain ⟨t', info', s, hpicked', hpeer, hserves'⟩ := tunnel_ordered hr htunnel
      obtain ⟨ctx, hctx, hctxId⟩ := hserves
      obtain ⟨ctx', hctx', hctxId'⟩ := hserves'
      obtain rfl := ctx_unique hrun hnd hctx hctx' (hctxId.trans hctxId'.symm)
      obtain rfl := picked_unique hrun hpicked hpicked'
      obtain ⟨n', s', hpeer', hreach⟩ := picked_reaches hr hpicked
      rw [hpeer] at hpeer'
      cases hpeer'
      refine ⟨.node n, v, x, u, hv, hid, ⟨⟨a, hp⟩, ctx, hctx, hctxId⟩, ?_⟩
      rw [Cli.dataNode, hhost, hport]
      exact hreach

theorem led_of_task (hr : (world d).Run ls w) (hids : (births ls).Nodup)
    (hk : ((w.cli p).task k).led? = some (id, e)) : Led d ls w p id e := by
  refine Lts.Run.induct (L := world d) (P := fun ls w => (births ls).Nodup →
    ∀ k id e, ((w.cli p).task k).led? = some (id, e) → Led d ls w p id e) ?_ ?_ hr hids k id e hk
  · intro _ k id e hk
    change (if k = 0 then _ else _ : Cli.CliTask).led? = some (id, e) at hk
    split at hk <;> cases hk
  · intro ls w l w' hr ih hs hids k id e hk
    rw [births_snoc] at hids
    have hnd := hids.of_append_left
    obtain he | ⟨t, op, rfl, hstep⟩ := step_cli p hs
    · rw [he] at hk
      exact (ih hnd k id e hk).step hs
    · obtain ⟨v, hv⟩ | ⟨notice, hled, rfl, a, pc, hpc⟩ := Cli.cli_step_led hstep hk
      · exact (ih hnd v id e hv).step hs
      · cases hled
        have hnet := step_net hs
        change w.net.exec (cliAct p t ((w.cli p).task t) _) = _ at hnet
        rw [hpc] at hnet
        exact (newConn_said hr hnd (Network.exec_get hnet)).step hs

/-- What a data connection of a process is dialled for. -/
def DialledFor (d : Setup) (ls : List Label) (w : World) (p k : Nat) (e : Cli.Endpoint) : Prop :=
  ∃ ctx h v x t, ((w.cli p).task k).data? = some ctx ∧ w.visitor? h v = some x ∧
    x.connId = ctx.connId ∧ w.Created p t x.tunnelId ∧
    match h with
    | .server => e = .server ctx.serverAddr ∧ ∃ t, .cli p t (.connect ctx.serverAddr true) ∈ ls
    | .node n => ∃ t s host, w.peer .server t = some (.node n s) ∧
        .server t (.connect host (some (some (.registerNode (d.node n))))) ∈ ls ∧
        e = .node host (d.node n).dataPort

/-- A process is sent to where its visitor waits.  Where the generated ids are
    distinct, every data connection that a process dials is for a visitor of a
    tunnel that one of its own sessions has created, and goes to the host that has
    accepted this visitor: to the server that the process is connected to, or to
    the address from which that very node has connected to the server, at the data
    port of its configuration. -/
theorem dials_host {endpoint : Cli.Endpoint} {ok : Bool} (hr : (world d).Run ls w)
    (hids : (births ls).Nodup) (hop : .cli p k (.dial endpoint ok) ∈ ls) :
    DialledFor d ls w p k endpoint := by
  have hrun := (cli_projection p).run hr
  have hmem : (k, .dial endpoint ok) ∈ ls.filterMap (Label.cli? p) :=
    List.mem_filterMap.mpr ⟨_, hop, if_pos rfl⟩
  obtain ⟨ctx, hdata, rfl⟩ := Cli.dial_data hrun hmem
  have hfacts : ((w.cli p).task k).led? = some (ctx.connId, ctx.node) ∧
      ((w.cli p).task k).addr? = some ctx.serverAddr := by
    generalize (w.cli p).task k = task at hdata ⊢
    cases task <;> cases hdata
    exact ⟨rfl, rfl⟩
  obtain ⟨h, v, x, t, hv, hid, hc, hreach⟩ := led_of_task hr hids hfacts.1
  refine ⟨ctx, h, v, x, t, hdata, hv, hid, hc, ?_⟩
  rw [Cli.HandleDataConn.endpoint]
  cases h with
  | server =>
      obtain ⟨u, hm⟩ := Cli.addr_connected hrun hfacts.2
      rw [show ctx.node = none from hreach]
      exact ⟨rfl, u, cli_label hm⟩
  | node n =>
      obtain ⟨t, s, host, hpeer, hm, he⟩ := hreach
      rw [he]
      exact ⟨t, s, host, hpeer, hm, rfl⟩

/-- The process connects to the node at which the visitor waits. -/
theorem dials_host_viaNode :
    ∃ w, (world oneProcess).Run (nodeJoins ++ tunnelRouted ++ visitorConnected) w ∧
      DialledFor oneProcess (nodeJoins ++ tunnelRouted ++ visitorConnected) w 0 1
        (.node "10.0.0.9" 7001) := by
  obtain ⟨w, hr⟩ : ∃ w, (world oneProcess).Run (nodeJoins ++ tunnelRouted ++ visitorConnected) w :=
    ⟨_, rfl⟩
  have hop : (.cli 0 1 (.dial (.node "10.0.0.9" 7001) true)) ∈
      nodeJoins ++ tunnelRouted ++ visitorConnected := by simp [visitorConnected]
  exact ⟨w, hr, dials_host hr (by decide) hop⟩

end Runs

end World

end Borehole
