/-
  Borehole.Server.Departures

  What becomes of the tunnels of a node that leaves.

  A session picks its node from the registry once and keeps what it got.  The
  registry entry belongs to the node's own session, which takes it out when the
  control stream ends and does nothing else: the tunnels that are routed through
  the node stay in `active_tunnels`, with their ports, for as long as the CLI
  sessions behind them run.
-/

import Borehole.Server.Load

namespace Borehole

section Steps

variable {tokens : List String} {t : Tid} {op : Op} {k k' : ServerTask} {id : String}
  {e : TunnelEntry} {info : NodeInfo}

theorem ServeCliDirect.Step.not_removes {s : SessionCtx} {ctx : TunnelCtx} {pc : Pc}
    {f : Flow Pc} (h : Step s ctx pc op f) : op ≠ .removeNode id := by
  cases h with
  | serve h | served h => cases h <;> exact nofun
  | _ => exact nofun

/-- A node is removed by the session that has registered it. -/
theorem ServerTask.Step.removes (h : Step tokens t k (.removeNode id) k') :
    k.enrolled? = some id := by
  cases h with
  | cli h =>
      cases h with
      | direct h | directRet h => exact absurd rfl h.not_removes
      | viaNode h =>
          cases h with
          | fallback h | fellBack h => exact absurd rfl h.not_removes
      | viaNodeRet h => cases h
  | node h =>
      cases h with
      | unregister | remove => rfl
      | forward h | forwarded h => cases h
  | visitor h => cases h
  | dataConn h => cases h
  | close h => cases h

/-- An entry with a route carries the name of the session's node. -/
theorem ServerTask.Step.inserts_name (h : Step tokens t k (.insertTunnel id e) k')
    (hk : k.routed? = some info) (hr : e.route.isSome = true) : e.node = some info.name := by
  cases h with
  | cli h =>
      cases h with
      | direct h | directRet h => cases hk
      | viaNode h =>
          cases h with
          | record => cases hk; rfl
          | fallback h | fellBack h => rw [h.inserts rfl] at hr; cases hr
      | viaNodeRet h => cases h
  | node h => cases hk
  | visitor h => cases h
  | dataConn h => cases h
  | close h => cases h

/-- All that a node session changes of the tunnels and the ports. -/
theorem ServerTask.Step.node_quiet {x : String × RegisterNode} (h : Step tokens t k op k')
    (hk : k.node? = some x) :
    op.onTunnels = false ∧ op.onPool = false ∧ op.mark? = none ∧ op.child = none := by
  cases h with
  | node h =>
      cases h with
      | forward h | forwarded h => cases h <;> exact ⟨rfl, rfl, rfl, rfl⟩
      | _ => exact ⟨rfl, rfl, rfl, rfl⟩
  | _ => cases hk

end Steps

/-! ## The nodes that sessions have picked -/

/-- A node that was once in the registry: its session, and its entry unless that
    session has taken it out. -/
structure NodeInfo.Known (ls : List (Tid × Op)) (c : Server) (info : NodeInfo) : Prop where
  session : (c.task info.tx).enrolled? = some info.nodeId
  stays : (c.shared.nodeManager.nodes.lookup info.nodeId).isSome = true ∨
    (info.tx, .removeNode info.nodeId) ∈ ls

/-- Session `t` has picked the node, and the route leads there. -/
def TunnelEntry.Via (ls : List (Tid × Op)) (e : TunnelEntry) (r : TunnelRoute)
    (info : NodeInfo) : Prop :=
  (∃ name, (e.close, .pick name (some info)) ∈ ls) ∧ r = ⟨e.close, info.host, info.dataPort⟩ ∧
    e.node = some info.name

/-- Where the nodes of sessions and entries come from. -/
structure PickInv (ls : List (Tid × Op)) (c : Server) : Prop where
  registry : ∀ id info, c.shared.nodeManager.nodes.lookup id = some info → info.Known ls c
  picked : ∀ t name info, (t, .pick name (some info)) ∈ ls → info.Known ls c
  routed : ∀ t info, (c.task t).routed? = some info → ∃ name, (t, .pick name (some info)) ∈ ls
  entry : ∀ id e r, c.shared.activeTunnels.lookup id = some e → e.route = some r →
    ∃ info, e.Via ls r info

section Runs

variable {cfg : ServerConfig} {ls : List (Tid × Op)} {c c' : Server} {t : Tid} {op : Op}
  {id : String} {info : NodeInfo}

theorem NodeInfo.Known.step (hi : info.Known ls c) (hr : (server cfg).Run ls c)
    (hnd : (uuids ls).Nodup) (h : (server cfg).step c (t, op) = some c') :
    info.Known (ls ++ [(t, op)]) c' := by
  refine ⟨server_step_enrolled h hi.session, ?_⟩
  rw [List.mem_append, List.mem_singleton]
  obtain hl | hm := hi.stays
  · obtain hl | rfl := ServerState.exec_nodeGone (server_step_exec h) hl
    · exact Or.inl hl
    · have ht := ServerTask.ident_of_enrolled (server_step_self h).removes
      rw [ident_unique hr hnd (ServerTask.ident_of_enrolled hi.session) ht]
      exact Or.inr (Or.inr rfl)
  · exact Or.inr (Or.inl hm)

theorem TunnelEntry.Via.snoc {e : TunnelEntry} {r : TunnelRoute} (h : e.Via ls r info)
    (a : Tid × Op) : e.Via (ls ++ [a]) r info := by
  obtain ⟨⟨name, hm⟩, hroute⟩ := h
  exact ⟨⟨name, List.mem_append_left _ hm⟩, hroute⟩

theorem PickInv.step (hi : PickInv ls c) (hr : (server cfg).Run ls c) (hnd : (uuids ls).Nodup)
    (h : (server cfg).step c (t, op) = some c') : PickInv (ls ++ [(t, op)]) c' := by
  have hx := server_step_exec h
  have hself := server_step_self h
  have hrouted : ∀ u info, (c'.task u).routed? = some info →
      ∃ name, (u, .pick name (some info)) ∈ ls ++ [(t, op)] := by
    intro u info hu
    have hold : (c.task u).routed? = some info →
        ∃ name, (u, .pick name (some info)) ∈ ls ++ [(t, op)] := by
      intro hu
      obtain ⟨name, hm⟩ := hi.routed u info hu
      exact ⟨name, List.mem_append_left _ hm⟩
    by_cases hut : u = t
    · subst hut
      obtain hu | ⟨_, name, rfl⟩ := hself.routed hu
      · exact hold hu
      · exact ⟨name, by simp⟩
    · rw [server_step_attr (f := ServerTask.routed?) (fun _ _ => rfl) h hut] at hu
      exact hold hu
  refine ⟨?_, ?_, hrouted, ?_⟩
  · intro id info hl
    obtain rfl | ⟨n, hl⟩ := ServerState.exec_registry hx hl
    -- A node that has just been registered.
    · obtain ⟨_, hop⟩ | ⟨_, info', hop, _, _, hnow⟩ := hself.enrolled
      · cases hop
      · cases hop
        obtain ⟨htx, _⟩ := hself.registers rfl
        refine ⟨by rw [htx]; exact hnow, Or.inl ?_⟩
        rw [ServerState.exec_registerNode hx, if_pos rfl]
        rfl
    · have hknown := (hi.registry id _ hl).step hr hnd h
      exact ⟨hknown.session, hknown.stays⟩
  · intro u name info hm
    obtain hm | hm := List.mem_append.mp hm
    · exact (hi.picked u name info hm).step hr hnd h
    -- A node that is picked is in the registry.
    · cases List.mem_singleton.mp hm
      exact (hi.registry _ _ (ServerState.exec_pick hx)).step hr hnd h
  · intro id e r hl hroute
    obtain rfl | hl := ServerState.exec_entry hx hl
    -- An entry is inserted by the session that has picked its node.
    · obtain ⟨hclose, _, info, hinfo, rfl⟩ := hself.inserts rfl hroute
      obtain ⟨name, hm⟩ := hi.routed t info hinfo
      refine ⟨info, ⟨name, ?_⟩, by rw [hclose], hself.inserts_name hinfo (by rw [hroute]; rfl)⟩
      rw [hclose]
      exact List.mem_append_left _ hm
    · obtain ⟨info, hvia⟩ := hi.entry id e r hl hroute
      exact ⟨info, hvia.snoc _⟩

theorem pickInv (h : (server cfg).Run ls c) (hnd : (uuids ls).Nodup) : PickInv ls c := by
  refine Conc.Lts.Run.induct (P := fun ls c => (uuids ls).Nodup → PickInv ls c) ?_ ?_ h hnd
  · intro _
    refine ⟨?_, nofun, ?_, ?_⟩
    · intro id info hl
      cases hl
    · intro t info hk
      cases hk
    · intro id e r hl
      cases hl
  · intro ls c a c' hr hi hs hnd
    have hnd := (nodup_of_snoc hnd).1
    exact (hi hnd).step hr hnd hs

/-! ## The departure of a node -/

/-- A tunnel leaves the table by a step of its own session. -/
theorem entry_stays {e : TunnelEntry} (hr : (server cfg).Run ls c) (hnd : (uuids ls).Nodup)
    (h : (server cfg).step c (t, op) = some c') (hl : c.shared.activeTunnels.lookup id = some e)
    (ht : t ≠ e.close) : c'.shared.activeTunnels.lookup id = some e := by
  have hx := server_step_exec h
  have hident := ServerTask.ident_of_ctx (ServerTask.ctx_of_tunnel (tunnelInv hr id e hl))
  have hsub : op.subject? ≠ some id := by
    intro hs
    obtain hn | hk := (server_step_self h).subject
    · rw [hn] at hs
      cases hs
    · exact ht (ident_unique hr hnd (hk ▸ hs) hident)
  by_cases hop : op.onTunnels = true
  · cases op with
    | insertTunnel id' e' =>
        rw [ServerState.exec_insertTunnel hx, if_neg]
        · exact hl
        · rintro rfl
          exact hsub rfl
    | removeTunnel id' got =>
        rw [(ServerState.exec_removeTunnel hx).2, if_neg]
        · exact hl
        · rintro rfl
          exact hsub rfl
    | _ => cases hop
  · rw [ServerState.exec_activeTunnels hx (Bool.eq_false_iff.mpr hop)]
    exact hl

/-- An entry with a route leads to the node that its session picked, which is
    still registered unless its own session has removed it.  That session, as it
    leaves or at any other step, changes no entry, port or tunnel event and no
    other task, and a tunnel leaves the table only by a step of its own session. -/
theorem node_departure (h : (server cfg).Run ls c) (hnd : (uuids ls).Nodup) :
    (∀ id e r, c.shared.activeTunnels.lookup id = some e → e.route = some r →
      ∃ info, e.Via ls r info ∧ ((c.shared.nodeManager.nodes.lookup info.nodeId).isSome = true ∨
        (info.tx, .removeNode info.nodeId) ∈ ls)) ∧
    (∀ n x op c', (c.task n).node? = some x → (server cfg).step c (n, op) = some c' →
      c'.shared.activeTunnels = c.shared.activeTunnels ∧ c'.shared.portMgr = c.shared.portMgr ∧
        op.mark? = none ∧ ∀ u, u ≠ n → c'.task u = c.task u) ∧
    ∀ t op c' id e, (server cfg).step c (t, op) = some c' →
      c.shared.activeTunnels.lookup id = some e →
      c'.shared.activeTunnels.lookup id ≠ some e → t = e.close := by
  have hi := pickInv h hnd
  refine ⟨?_, ?_, ?_⟩
  · intro id e r hl hroute
    obtain ⟨info, hvia⟩ := hi.entry id e r hl hroute
    obtain ⟨name, hm⟩ := hvia.1
    exact ⟨info, hvia, (hi.picked _ name info hm).stays⟩
  · intro n x op c' hk hs
    have hx := server_step_exec hs
    obtain ⟨htunnels, hpool, hmark, hchild⟩ := (server_step_self hs).node_quiet hk
    exact ⟨ServerState.exec_activeTunnels hx htunnels, ServerState.exec_portMgr hx hpool, hmark,
      fun u hu => Conc.Tasks.step_others hs hchild hu⟩
  · intro t op c' id e hs hl hne
    by_contra ht
    exact hne (entry_stays h hnd hs hl ht)

/-- The node leaves while tunnel `t` is served through it. -/
def nodeGone : List (Tid × Op) :=
  nodeVisible ++ nodeAnswered ++ cliOrdered ++ cliExposed ++ cliAnswered ++
    [(2, .readLine none), (2, .removeNode "n"), (2, .publish (.nodeLeft "n"))]

theorem node_departure_nodeGone :
    ∃ c info, (server onePort).Run nodeGone c ∧
      (ServeCliViaNode.entry ⟨1, anyPort⟩ ⟨"t", 7000⟩ fra 0).Via nodeGone
        ⟨1, "10.0.0.9", 7001⟩ info ∧
      (info.tx, .removeNode info.nodeId) ∈ nodeGone := by
  obtain ⟨c, h, hl, hgone⟩ : ∃ c, (server onePort).Run nodeGone c ∧
      c.shared.activeTunnels.lookup "t" =
        some (ServeCliViaNode.entry ⟨1, anyPort⟩ ⟨"t", 7000⟩ fra 0) ∧
      c.shared.nodeManager.nodes.lookup "n" = none :=
    Conc.Lts.exists_run (by decide)
  obtain ⟨info, hvia, hstays⟩ := (node_departure h (by decide)).1 "t" _ _ hl rfl
  obtain hreg | hm := hstays
  -- only node `n` has been picked
  · obtain ⟨name, hm⟩ := hvia.1
    have hinfo : info = fra := by
      simp [nodeGone, nodeVisible, nodeAnswered, cliOrdered, cliExposed, cliAnswered] at hm
      exact hm.2.2
    rw [hinfo, show fra.nodeId = "n" from rfl, hgone] at hreg
    cases hreg
  · exact ⟨c, info, h, hvia, hm⟩

/-- The tunnel of a node that has left is still listed, with its port taken and
    its session serving. -/
theorem tunnel_outlives_node :
    ∃ c, (server onePort).Run nodeGone c ∧ (uuids nodeGone).Nodup ∧
      c.task 1 = .cli anyPort (.viaNode ⟨"t", 7000⟩ fra .select) ∧
      c.task 2 = .node "10.0.0.9" ⟨"secret", "fra", 7001⟩ (.done (some "n")) ∧
      (∃ e ∈ c.shared.activeTunnels.lookup "t", e.route.isSome = true) ∧
      picks 1 nodeGone = ["n"] ∧ c.shared.nodeManager.nodes.lookup "n" = none ∧
      (7000 : UInt16) ∉ c.shared.portMgr.available ∧
      Conc.Mark.closed "t" ∉ announcements nodeGone := by
  exact ⟨_, rfl, by decide, rfl, rfl, ⟨_, rfl, rfl⟩, by decide, rfl, by decide, by decide⟩

end Runs

end Borehole
