/-
  Borehole.Server.Forward

  What becomes of a visitor that a node reports.

  A node session looks the tunnel up once, locks the writer it found and writes
  one `NewConn` there.  A CLI session orders the node to open the port before it
  records the tunnel, so a report may be looked up too early; it reaches the
  CLI exactly when the lookup finds the entry that the CLI session recorded.
-/

import Borehole.Server.Handshake

namespace Borehole

open Conc Tasks

/-- The stream and the content of a `NewConn` that an operation writes. -/
def Op.newConn? (op : Op) : Option (Tid × NewConn) :=
  match op.frame? with
  | some (w, .newConn n, _) => some (w, n)
  | _ => none

/-- The `NewConn` frames that a list of operations writes. -/
def newConns (ops : List Op) : List (Tid × NewConn) :=
  ops.filterMap Op.newConn?

/-- Where a node session is with a report after the lookup, by what it has done. -/
inductive Reporting (host : String) (reg : RegisterNode) (id : String) (report : VisitorConn)
    (route : TunnelRoute) : ServerTask → List Op → Prop where
  | found : Reporting host reg id report route
      (.node host reg (.forward id report (.lockCli route))) []
  | locked : Reporting host reg id report route
      (.node host reg (.forward id report (.send route))) [.lockWriter route.writer]
  | sent {ok} : Reporting host reg id report route (.node host reg (.read id))
      [.lockWriter route.writer,
       .sendUnlock route.writer (ForwardVisitor.notice report.connId route) ok]

section Forward

variable {cfg : ServerConfig} {ls ls' : List (Tid × Op)} {c c₁ c' : Server} {u : Tid}
  {host : String} {reg : RegisterNode} {id : String} {report : VisitorConn} {route : TunnelRoute}

/-- A node session is left alone by the steps of other tasks. -/
theorem node_step_other {t : Tid} {op : Op} {pc : HandleNode.Pc}
    (h : (server cfg).step c (t, op) = some c') (hu : u ≠ t)
    (hk : c.task u = .node host reg pc) : c'.task u = c.task u := by
  obtain he | ⟨_, ha⟩ := server_step_other h hu
  · exact he
  · rw [hk] at ha
    cases ha

/-- The steps of a node session on a report that found a route. -/
theorem reporting_run (hroute : c.task u = .node host reg (.forward id report (.lockCli route)))
    (h : (server cfg).runFrom c ls' = some c')
    (hread : ∀ line, .readLine line ∉ opsOf u ls') :
    Reporting host reg id report route (c'.task u) (opsOf u ls') := by
  refine Lts.runFrom_induct (P := fun ls' c' => (∀ line, .readLine line ∉ opsOf u ls') →
    Reporting host reg id report route (c'.task u) (opsOf u ls')) ?_ ?_ h hread
  · intro _
    rw [hroute]
    exact .found
  · rintro ls c ⟨t, op⟩ c' - ih hs hread
    have hr := ih fun line hl => hread line (by rw [opsOf_append]; exact List.mem_append_left _ hl)
    by_cases ht : u = t
    · subst ht
      rw [opsOf_append, opsOf_singleton_self] at hread ⊢
      have hstep := server_step_self hs
      generalize c'.task u = k' at hstep ⊢
      generalize c.task u = k at hr hstep
      generalize opsOf u ls = ops at hr
      cases hr with
      | found =>
          -- Each point of the forwarding has one step to go on with.
          cases hstep with
          | node h =>
              cases h with
              | forward h => cases h; exact .locked
              | forwarded h => cases h
      | locked =>
          cases hstep with
          | node h =>
              cases h with
              | forward h => cases h
              | forwarded h => cases h; exact .sent
      | sent =>
          cases hstep with
          | node h =>
              cases h <;>
                exact absurd (List.mem_append_right _ (List.mem_singleton.mpr rfl)) (hread _)
    · rw [opsOf_append, opsOf_singleton_ne _ (Ne.symm ht), List.append_nil]
      -- Nobody starts or stops the task of a node session.
      have he : c'.task u = c.task u := by
        generalize hk : c.task u = k at hr
        generalize opsOf u ls = ops at hr
        cases hr <;> exact (node_step_other hs ht hk).trans hk
      rwa [he]

/-- A node session that waits for the next line does nothing until it reads one. -/
theorem reading_run (hk : c.task u = .node host reg (.read id))
    (h : (server cfg).runFrom c ls' = some c')
    (hread : ∀ line, .readLine line ∉ opsOf u ls') : opsOf u ls' = [] := by
  refine (Lts.runFrom_induct (P := fun ls' c' => (∀ line, .readLine line ∉ opsOf u ls') →
    c'.task u = .node host reg (.read id) ∧ opsOf u ls' = []) (fun _ => ⟨hk, rfl⟩) ?_ h hread).2
  rintro ls c ⟨t, op⟩ c' - ih hs hread
  obtain ⟨hk, hnil⟩ := ih fun line hl =>
    hread line (by rw [opsOf_append]; exact List.mem_append_left _ hl)
  by_cases ht : u = t
  · subst ht
    rw [opsOf_append, opsOf_singleton_self] at hread
    have hstep := server_step_self hs
    rw [hk] at hstep
    generalize c'.task u = k' at hstep
    cases hstep with
    | node h =>
        cases h <;> exact absurd (List.mem_append_right _ (List.mem_singleton.mpr rfl)) (hread _)
  · rw [node_step_other hs ht hk, opsOf_append, opsOf_singleton_ne _ (Ne.symm ht), hnil]
    exact ⟨hk, rfl⟩

/-- `active_tunnels` holds the entry that session `w` recorded for a tunnel it
    serves through a node. -/
def Recorded (c : Server) (tunnelId : String) (w : Tid) : Prop :=
  ∃ e, c.shared.activeTunnels.lookup tunnelId = some e ∧ e.close = w ∧ e.route.isSome = true

/-- A report that node session `u` looks up for a tunnel that session `w` serves
    through it becomes exactly one `NewConn`, on that session's stream and with
    the node's address, if and only if the lookup finds what `w` recorded. -/
theorem visitor_forwarded {w : Tid} {register : Register} {ctx : TunnelCtx} {node : NodeInfo}
    {pc : ServeCliViaNode.Pc} {connId : String} {got : Option TunnelRoute}
    (h : (server cfg).Run ls c)
    (howner : c.task w = .cli register (.viaNode ctx node pc)) (hnode : node.tx = u)
    (hreport : c.task u = .node host reg (.forward id ⟨ctx.tunnelId, connId⟩ .lookup))
    (hlookup : (server cfg).step c (u, .getRoute ctx.tunnelId got) = some c₁)
    (hrun : (server cfg).runFrom c₁ ls' = some c')
    (hread : ∀ line, .readLine line ∉ opsOf u ls')
    (hdone : c'.task u = .node host reg (.read id)) :
    newConns (opsOf u ls') = [(w, ⟨connId, some host, some reg.dataPort⟩)] ↔
      Recorded c ctx.tunnelId w := by
  have hi := routeInv h
  obtain ⟨hgot, -⟩ := ServerState.exec_getRoute (server_step_exec hlookup)
  have hstep := server_step_self hlookup
  rw [hreport] at hstep
  -- the node session's address is the one in the owner's hands
  have haddr : node.host = host ∧ node.dataPort = reg.dataPort := by
    obtain ⟨reg', hn, _, hport⟩ := hi.routed w node (by rw [howner]; rfl)
    rw [hnode, hreport] at hn
    cases hn
    exact ⟨rfl, hport.symm⟩
  have hentry : ∀ e r, c.shared.activeTunnels.lookup ctx.tunnelId = some e → e.route = some r →
      e.close = r.writer ∧ (r.writer = w → r.host = host ∧ r.port = reg.dataPort) := by
    intro e r he hr
    obtain ⟨hw, _, hinfo⟩ := hi.entry _ e r he hr
    refine ⟨hw.symm, ?_⟩
    rintro rfl
    obtain ⟨hh, hp⟩ := hinfo node (by rw [← hw, howner]; rfl)
    exact ⟨hh.trans haddr.1, hp.trans haddr.2⟩
  cases got with
  | none =>
      have hk : c₁.task u = .node host reg (.read id) := by
        generalize c₁.task u = k' at hstep
        cases hstep with
        | node h =>
            cases h with
            | forward h => cases h
            | forwarded h => rfl
      rw [reading_run hk hrun hread]
      constructor
      · intro hnew
        cases hnew
      · rintro ⟨e, he, _, hr⟩
        rw [he, Option.bind_some] at hgot
        rw [hgot] at hr
        cases hr
  | some r =>
      have hk : c₁.task u = .node host reg (.forward id ⟨ctx.tunnelId, connId⟩ (.lockCli r)) := by
        generalize c₁.task u = k' at hstep
        cases hstep with
        | node h =>
            cases h with
            | forward h => cases h; rfl
            | forwarded h => cases h
      have hops := reporting_run hk hrun hread
      rw [hdone] at hops
      obtain ⟨e, he, hr⟩ := Option.bind_eq_some_iff.mp hgot
      obtain ⟨hclose, hcontent⟩ := hentry e r he hr
      have hnew : newConns (opsOf u ls') = [(r.writer, ⟨connId, some r.host, some r.port⟩)] := by
        generalize opsOf u ls' = ops at hops ⊢
        cases hops
        rfl
      rw [hnew]
      constructor
      · intro heq
        have hw : r.writer = w := congrArg Prod.fst (List.cons.inj heq).1
        exact ⟨e, he, hclose.trans hw, by rw [hr]; rfl⟩
      · rintro ⟨e', he', hw, _⟩
        rw [he] at he'
        cases he'
        have hw : r.writer = w := hclose.symm.trans hw
        obtain ⟨hh, hp⟩ := hcontent hw
        rw [hw, hh, hp]

/-- A report is read. -/
def visitorRead : List (Tid × Op) :=
  [(2, .readLine (some (some (.visitorConn ⟨"t", "c"⟩))))]

/-- The lookup found a route, and the report is passed on. -/
def visitorSent : List (Tid × Op) :=
  [(2, .lockWriter 1), (2, .sendUnlock 1 (.newConn ⟨"c", some "10.0.0.9", some 7001⟩) true)]

theorem visitor_forwarded_late :
    newConns (opsOf 2 visitorSent) = [(1, ⟨"c", some "10.0.0.9", some 7001⟩)] := by
  obtain ⟨c, c₁, c', h, hcli, hnode, hrec, hlookup, hrun, hdone⟩ : ∃ c c₁ c',
      (server onePort).Run
        (nodeVisible ++ nodeAnswered ++ cliOrdered ++ cliExposed ++ cliAnswered ++ visitorRead) c ∧
      c.task 1 = .cli anyPort (.viaNode ⟨"t", 7000⟩ fra .select) ∧
      c.task 2 = .node "10.0.0.9" ⟨"secret", "fra", 7001⟩ (.forward "n" ⟨"t", "c"⟩ .lookup) ∧
      Recorded c "t" 1 ∧
      (server onePort).step c (2, .getRoute "t" (some ⟨1, "10.0.0.9", 7001⟩)) = some c₁ ∧
      (server onePort).runFrom c₁ visitorSent = some c' ∧
      c'.task 2 = .node "10.0.0.9" ⟨"secret", "fra", 7001⟩ (.read "n") :=
    ⟨_, _, _, rfl, rfl, rfl, ⟨_, rfl, rfl, rfl⟩, rfl, rfl, rfl⟩
  exact (visitor_forwarded h hcli rfl hnode hlookup hrun (by simp [opsOf, visitorSent]) hdone).mpr
    hrec

/-- A report that is looked up after the order to open the port but before the
    tunnel is recorded is dropped. -/
theorem visitor_forwarded_early :
    ∃ c c₁, (server onePort).Run (nodeVisible ++ nodeAnswered ++ cliOrdered ++ visitorRead) c ∧
      .openTunnel ⟨"t", 7000⟩ ∈
        written 2 (nodeVisible ++ nodeAnswered ++ cliOrdered ++ visitorRead) ∧
      c.task 1 = .cli anyPort (.viaNode ⟨"t", 7000⟩ fra .startedAt) ∧
      c.task 2 = .node "10.0.0.9" ⟨"secret", "fra", 7001⟩ (.forward "n" ⟨"t", "c"⟩ .lookup) ∧
      (server onePort).step c (2, .getRoute "t" none) = some c₁ ∧
      c₁.task 2 = .node "10.0.0.9" ⟨"secret", "fra", 7001⟩ (.read "n") ∧
      newConns (opsOf 2 []) ≠ [(1, ⟨"c", some "10.0.0.9", some 7001⟩)] :=
  ⟨_, _, rfl, by decide, rfl, rfl, rfl, rfl, nofun⟩

end Forward

end Borehole
