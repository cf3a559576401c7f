/-
  Borehole.Server.Routes

  What the handles that tasks pass around point to.

  A CLI session gets a node's writer, host and data port from the registry, and
  a node session gets a CLI's writer from `active_tunnels`.  The invariant is
  that the first is a node session with that host and port, and the second the
  CLI session that inserted the entry.
-/

import Borehole.Server.Ports

namespace Borehole

/-! ## What a task is and what it points to -/

/-- The peer host and the `RegisterNode` of a node session. -/
def ServerTask.node? : ServerTask → Option (String × RegisterNode)
  | .node host reg _ => some (host, reg)
  | _ => none

/-- The `Register` of a CLI session. -/
def ServerTask.cli? : ServerTask → Option Register
  | .cli register _ => some register
  | _ => none

/-- The node a CLI session is served through. -/
def ServerTask.routed? : ServerTask → Option NodeInfo
  | .cli _ (.viaNode _ info _) => some info
  | _ => none

/-- The route a node session forwards a visitor along. -/
def ServerTask.route? : ServerTask → Option TunnelRoute
  | .node _ _ (.forward _ _ (.lockCli route)) | .node _ _ (.forward _ _ (.send route)) => some route
  | _ => none

/-- The registry entry of a node is about a session of that node. -/
def NodeInfo.At (c : Server) (info : NodeInfo) : Prop :=
  ∃ reg, (c.task info.tx).node? = some (info.host, reg) ∧ reg.name = info.name ∧
    reg.dataPort = info.dataPort

section Steps

variable {tokens : List String} {s : SessionCtx} {ctx : TunnelCtx} {info node : NodeInfo}
  {t : Tid} {k k' : ServerTask} {op : Op}

/-- A node session stays the session of that node. -/
theorem ServerTask.Step.keeps_node {x : String × RegisterNode} (h : Step tokens t k op k')
    (hk : k.node? = some x) : k'.node? = some x := by
  cases h with
  | node h => exact hk
  | _ => cases hk

/-- A CLI session stays the session of its `Register`. -/
theorem ServerTask.Step.keeps_cli {x : Register} (h : Step tokens t k op k')
    (hk : k.cli? = some x) : k'.cli? = some x := by
  cases h with
  | cli h => exact hk
  | _ => cases hk

/-- A session gets its node from the registry. -/
theorem ServerTask.Step.routed (h : Step tokens t k op k') (hk : k'.routed? = some info) :
    k.routed? = some info ∨ k.tunnel? = none ∧ ∃ name, op = .pick name (some info) := by
  cases h with
  | @connect peer first =>
      have hd := handleClient_dispatched peer first
      generalize handleClient peer first = k' at hd hk
      cases hd <;> cases hk
  | cli h =>
      cases h with
      | picked => cases hk; exact Or.inr ⟨rfl, _, rfl⟩
      | viaNode h => exact Or.inl hk
      | _ => cases hk
  | _ => cases hk

/-- A node session gets a route from `active_tunnels`. -/
theorem ServerTask.Step.route {r : TunnelRoute} (h : Step tokens t k op k')
    (hk : k'.route? = some r) : k.route? = some r ∨ ∃ id, op = .getRoute id (some r) := by
  cases h with
  | @connect peer first =>
      have hd := handleClient_dispatched peer first
      generalize handleClient peer first = k' at hd hk
      cases hd <;> cases hk
  | node h =>
      cases h with
      | forward h =>
          cases h with
          | routed => cases hk; exact Or.inr ⟨_, rfl⟩
          | lockCli => exact Or.inl hk
      | _ => cases hk
  | _ => cases hk

theorem ServeCliDirect.Step.not_registers {pc : Pc} {f : Flow Pc} (h : Step s ctx pc op f) :
    op ≠ .registerNode info := by
  cases h with
  | serve h | served h => cases h <;> exact nofun
  | _ => exact nofun

theorem HandleCli.Step.not_registers {pc pc' : Pc} (h : Step tokens s pc op pc') :
    op ≠ .registerNode info := by
  cases h with
  | direct h | directRet h => exact h.not_registers
  | viaNode h =>
      cases h with
      | fallback h | fellBack h => exact h.not_registers
      | _ => exact nofun
  | viaNodeRet h => cases h <;> exact nofun
  | _ => exact nofun

/-- A node enters the registry as the session that registers it. -/
theorem ServerTask.Step.registers (h : Step tokens t k op k') (hop : op = .registerNode info) :
    info.tx = t ∧ ∃ reg, k.node? = some (info.host, reg) ∧ reg.name = info.name ∧
      reg.dataPort = info.dataPort := by
  cases h with
  | node h =>
      cases h with
      | register => cases hop; exact ⟨rfl, _, rfl, rfl, rfl⟩
      | forward h | forwarded h => cases h <;> cases hop
      | _ => cases hop
  | cli h => exact absurd hop h.not_registers
  | visitor h => cases h <;> cases hop
  | dataConn h => cases h <;> cases hop
  | close h => cases h <;> cases hop
  | _ => cases hop

/-- A tunnel that the server serves itself has no route. -/
theorem ServeCliDirect.Step.inserts {pc : Pc} {f : Flow Pc} {id : String} {e : TunnelEntry}
    (h : Step s ctx pc op f) (hop : op = .insertTunnel id e) : e.route = none := by
  cases h with
  | record => cases hop; rfl
  | serve h | served h => cases h <;> cases hop
  | _ => cases hop

/-- The route of a tunnel served through a node is the session's own writer and
    the node's address. -/
theorem ServeCliViaNode.Step.inserts {pc : Pc} {f : Flow Pc} {id : String} {e : TunnelEntry}
    {r : TunnelRoute} (h : Step s ctx node pc op f) (hop : op = .insertTunnel id e)
    (hr : e.route = some r) : r = ⟨s.task, node.host, node.dataPort⟩ ∧ e.close = s.task := by
  cases h with
  | record => cases hop; cases hr; exact ⟨rfl, rfl⟩
  | fallback h | fellBack h => rw [h.inserts hop] at hr; cases hr
  | _ => cases hop

/-- The route of an entry is the session that inserts it and its node. -/
theorem ServerTask.Step.inserts {id : String} {e : TunnelEntry} {r : TunnelRoute}
    (h : Step tokens t k op k') (hop : op = .insertTunnel id e) (hr : e.route = some r) :
    e.close = t ∧ k.cli?.isSome = true ∧
      ∃ info, k.routed? = some info ∧ r = ⟨t, info.host, info.dataPort⟩ := by
  cases h with
  | cli h =>
      cases h with
      | viaNode h | viaNodeRet h =>
          obtain ⟨rfl, hc⟩ := h.inserts hop hr
          exact ⟨hc, rfl, _, rfl, rfl⟩
      | direct h | directRet h => rw [h.inserts hop] at hr; cases hr
      | _ => cases hop
  | node h =>
      cases h with
      | forward h | forwarded h => cases h <;> cases hop
      | _ => cases hop
  | visitor h => cases h <;> cases hop
  | dataConn h => cases h <;> cases hop
  | close h => cases h <;> cases hop
  | _ => cases hop

end Steps

section Server

variable {cfg : ServerConfig} {ls : List (Tid × Op)} {c c' : Server} {t u : Tid} {op : Op}

theorem server_step_node {x : String × RegisterNode} (h : (server cfg).step c (t, op) = some c')
    (hk : (c.task u).node? = some x) : (c'.task u).node? = some x := by
  by_cases hu : u = t
  · subst hu
    exact (server_step_self h).keeps_node hk
  · rw [server_step_attr (f := ServerTask.node?) (fun _ _ => rfl) h hu, hk]

theorem server_step_cli {x : Register} (h : (server cfg).step c (t, op) = some c')
    (hk : (c.task u).cli? = some x) : (c'.task u).cli? = some x := by
  by_cases hu : u = t
  · subst hu
    exact (server_step_self h).keeps_cli hk
  · rw [server_step_attr (f := ServerTask.cli?) (fun _ _ => rfl) h hu, hk]

theorem NodeInfo.At.step {info : NodeInfo} (hi : info.At c)
    (h : (server cfg).step c (t, op) = some c') : info.At c' := by
  obtain ⟨reg, hk, hreg⟩ := hi
  exact ⟨reg, server_step_node h hk, hreg⟩

/-! ## The invariant -/

/-- Handles point to the sessions they were made from. -/
structure RouteInv (c : Server) : Prop where
  registry : ∀ id info, c.shared.nodeManager.nodes.lookup id = some info → info.At c
  routed : ∀ t info, (c.task t).routed? = some info → info.At c
  entry : ∀ id e r, c.shared.activeTunnels.lookup id = some e → e.route = some r →
    r.writer = e.close ∧ (c.task r.writer).cli?.isSome = true ∧
      ∀ info, (c.task e.close).routed? = some info → r.host = info.host ∧ r.port = info.dataPort
  forward : ∀ t r, (c.task t).route? = some r → (c.task r.writer).cli?.isSome = true

theorem routeInv_step (hr : (server cfg).Run ls c) (hi : RouteInv c)
    (h : (server cfg).step c (t, op) = some c') : RouteInv c' := by
  have hx := server_step_exec h
  have hself := server_step_self h
  have hcli : ∀ u, (c.task u).cli?.isSome = true → (c'.task u).cli?.isSome = true := by
    intro u hu
    obtain ⟨x, hx⟩ := Option.isSome_iff_exists.mp hu
    rw [server_step_cli h hx]
    rfl
  -- A session has its node from before, or picks it now.
  have hrouted : ∀ u info, (c'.task u).routed? = some info → (c.task u).routed? = some info ∨
      u = t ∧ (c.task u).tunnel? = none ∧ ∃ name, op = .pick name (some info) := by
    intro u info hu
    by_cases hut : u = t
    · subst hut
      exact (hself.routed hu).imp_right fun h => ⟨rfl, h⟩
    · rw [server_step_attr (f := ServerTask.routed?) (fun _ _ => rfl) h hut] at hu
      exact Or.inl hu
  constructor
  case registry =>
    intro id info hl
    obtain rfl | ⟨n, hl⟩ := ServerState.exec_registry hx hl
    -- A node session registers itself.
    · obtain ⟨htx, reg, hk, hreg⟩ := hself.registers rfl
      refine ⟨reg, ?_, hreg⟩
      rw [htx]
      exact hself.keeps_node hk
    · have hat := hi.registry id _ hl
      exact NodeInfo.At.step (show info.At c from hat) h
  case routed =>
    intro u info hu
    obtain hu | ⟨_, _, name, rfl⟩ := hrouted u info hu
    · exact (hi.routed u info hu).step h
    · exact (hi.registry _ _ (ServerState.exec_pick hx)).step h
  case entry =>
    intro id e r hl hroute
    obtain rfl | hl := ServerState.exec_entry hx hl
    -- A new entry routes to the node of the session that inserts it.
    · obtain ⟨hclose, hk, info, hinfo, rfl⟩ := hself.inserts rfl hroute
      refine ⟨hclose.symm, hcli t hk, ?_⟩
      intro info' hinfo'
      rw [hclose] at hinfo'
      obtain hinfo' | ⟨_, _, _, hop⟩ := hrouted t info' hinfo'
      · rw [hinfo] at hinfo'
        cases hinfo'
        exact ⟨rfl, rfl⟩
      · cases hop
    · obtain ⟨hw, hk, hinfo⟩ := hi.entry id e r hl hroute
      refine ⟨hw, hcli _ hk, ?_⟩
      intro info hn
      obtain hn | ⟨_, hnone, _⟩ := hrouted _ _ hn
      · exact hinfo info hn
      -- a session that is only now picking a node has no entry yet
      · rw [tunnelInv hr id e hl] at hnone
        cases hnone
  case forward =>
    intro u r hu
    -- A report is forwarded on a route that is looked up in the dashboard's entries.
    have hcase : (c.task u).route? = some r ∨ ∃ id, op = .getRoute id (some r) := by
      by_cases hut : u = t
      · subst hut
        exact hself.route hu
      · rw [server_step_attr (f := ServerTask.route?) (fun _ _ => rfl) h hut] at hu
        exact Or.inl hu
    obtain hu | ⟨id, rfl⟩ := hcase
    · exact hcli _ (hi.forward u r hu)
    · obtain ⟨e, he, hroute⟩ := Option.bind_eq_some_iff.mp (ServerState.exec_getRoute hx).1
      exact hcli _ (hi.entry id e r he hroute).2.1

/-- Every handle that a task holds points to the session it was made from. -/
theorem routeInv (h : (server cfg).Run ls c) : RouteInv c := by
  refine Conc.Lts.Run.induct (P := fun _ c => RouteInv c) ?_
    (fun _ _ _ _ hr hi hs => routeInv_step hr hi hs) h
  constructor
  case registry =>
    intro id info hl
    cases hl
  case routed =>
    intro t info hk
    cases hk
  case entry =>
    intro id e r hl
    cases hl
  case forward =>
    intro t r hk
    cases hk

end Server

end Borehole
