/-
  Borehole.Server.Directions

  Where a session sends its CLI.

  A session picks one node at most, and keeps to it: its `Registered` names the
  data endpoint of that node, its `OpenTunnel` goes out on that node's stream,
  and so does a `NewConn` that is forwarded on the route of its entry.  A session
  that serves its tunnel itself names no node in either message.
-/

import Borehole.Server.Departures
import Borehole.Server.Notices
import Borehole.Server.Orders

namespace Borehole

open Conc

/-- Session `t` has picked the node. -/
def Picked (ls : List (Tid × Op)) (t : Tid) (info : NodeInfo) : Prop :=
  ∃ name, (t, .pick name (some info)) ∈ ls

theorem Picked.append {ls : List (Tid × Op)} {t : Tid} {info : NodeInfo} (h : Picked ls t info)
    (ls' : List (Tid × Op)) : Picked (ls ++ ls') t info := by
  obtain ⟨name, hm⟩ := h
  exact ⟨name, List.mem_append_left _ hm⟩

/-- A session that picks no node any more. -/
def HandleCli.Pc.chosen : HandleCli.Pc → Bool
  | .direct _ _ | .viaNode _ _ _ | .remove _ | .endedAt _ _ | .archive _ _ _ | .closed _
  | .release _ | .done _ => true
  | _ => false

/-- The task has chosen the path of its tunnel. -/
def ServerTask.chosen : ServerTask → Bool
  | .cli _ pc => pc.chosen
  | _ => false

/-! ## What a task is about to write -/

section Frames

variable {t w : Tid} {k : ServerTask} {o : OpenTunnel} {n : NewConn} {m : Registered}

theorem ServeCliDirect.Pc.frame_cases {s : SessionCtx} {ctx : TunnelCtx} {pc : Pc} {m : Message}
    (h : pc.frame? s ctx = some (w, m)) : w = s.task ∧
      ((∃ e, m = .error e) ∨ (pc.bound = true ∧ m = registeredMsg ctx) ∨
        ∃ v vis, pc = .serve (.notify v vis) ∧ m = ServeTunnel.notice vis) := by
  cases pc with
  | reject =>
      cases h
      exact ⟨rfl, Or.inl ⟨_, rfl⟩⟩
  | registered =>
      cases h
      exact ⟨rfl, Or.inr (Or.inl ⟨rfl, rfl⟩)⟩
  | serve pc =>
      cases pc with
      | notify v vis =>
          cases h
          exact ⟨rfl, Or.inr (Or.inr ⟨v, vis, rfl, rfl⟩)⟩
      | _ => cases h
  | _ => cases h

/-- An order goes to the node that the session has picked. -/
theorem ServerTask.frame_openTunnel (h : k.frame? t = some (w, .openTunnel o)) :
    ∃ ctx info, k.ctx? = some ctx ∧ k.routed? = some info ∧ w = info.tx ∧
      o = ⟨ctx.tunnelId, ctx.port⟩ := by
  have hdirect : ∀ {s : SessionCtx} {ctx : TunnelCtx} {pc : ServeCliDirect.Pc},
      pc.frame? s ctx ≠ some (w, .openTunnel o) := by
    intro s ctx pc h
    obtain ⟨_, ⟨_, he⟩ | ⟨_, he⟩ | ⟨_, _, _, he⟩⟩ := ServeCliDirect.Pc.frame_cases h <;> cases he
  cases k with
  | cli r pc =>
      cases pc with
      | direct ctx pc => exact absurd h hdirect
      | viaNode ctx info pc =>
          cases pc with
          | openTunnel =>
              cases h
              exact ⟨ctx, info, rfl, rfl, rfl, rfl⟩
          | fallback pc => exact absurd h hdirect
          | _ => cases h
      | _ => cases h
  | node host reg pc =>
      cases pc with
      | forward id report pc => cases pc <;> cases h
      | _ => cases h
  | _ => cases h

/-- A `NewConn` is the notice of a serving loop, on its own session's stream and
    with no node, or it is forwarded along a route and carries the route's
    endpoint. -/
theorem ServerTask.frame_newConn (h : k.frame? t = some (w, .newConn n)) :
    (∃ v vis, k.handling? = some (.noticing v vis) ∧ w = t ∧ n = ⟨vis.connId, none, none⟩) ∨
    ∃ report route, k.report? = some report ∧ k.route? = some route ∧ w = route.writer ∧
      n = ⟨report.connId, some route.host, some route.port⟩ := by
  cases k with
  | cli r pc =>
      cases pc with
      | direct ctx pc =>
          obtain ⟨rfl, ⟨_, he⟩ | ⟨_, he⟩ | ⟨v, vis, rfl, he⟩⟩ := ServeCliDirect.Pc.frame_cases h
          · cases he
          · cases he
          · cases he
            exact Or.inl ⟨v, vis, rfl, rfl, rfl⟩
      | viaNode ctx info pc =>
          cases pc with
          | fallback pc =>
              obtain ⟨rfl, ⟨_, he⟩ | ⟨_, he⟩ | ⟨v, vis, rfl, he⟩⟩ := ServeCliDirect.Pc.frame_cases h
              · cases he
              · cases he
              · cases he
                exact Or.inl ⟨v, vis, rfl, rfl, rfl⟩
          | _ => cases h
      | _ => cases h
  | node host reg pc =>
      cases pc with
      | forward id report pc =>
          cases pc with
          | send route =>
              cases h
              exact Or.inr ⟨report, route, rfl, rfl, rfl, rfl⟩
          | _ => cases h
      | _ => cases h
  | _ => cases h

/-- A `Registered` names the session's port; the port is bound here and no node is
    named, or it has been ordered from the node that is named. -/
theorem ServerTask.frame_registered (h : k.frame? t = some (w, .registered m)) :
    w = t ∧ ∃ ctx, k.ctx? = some ctx ∧ m.remotePort = ctx.port ∧
      ((k.listening? = some ctx.port ∧ m.nodeHost = none ∧ m.nodePort = none) ∨
        ∃ info, k.routed? = some info ∧ k.opened? = some (ctx, info.tx) ∧
          m.nodeHost = some info.host ∧ m.nodePort = some info.dataPort) := by
  cases k with
  | cli r pc =>
      cases pc with
      | direct ctx pc =>
          obtain ⟨rfl, ⟨_, he⟩ | ⟨hb, he⟩ | ⟨_, _, _, he⟩⟩ := ServeCliDirect.Pc.frame_cases h
          · cases he
          · cases he
            exact ⟨rfl, ctx, rfl, rfl, Or.inl ⟨if_pos hb, rfl, rfl⟩⟩
          · cases he
      | viaNode ctx info pc =>
          cases pc with
          | fallback pc =>
              obtain ⟨rfl, ⟨_, he⟩ | ⟨hb, he⟩ | ⟨_, _, _, he⟩⟩ := ServeCliDirect.Pc.frame_cases h
              · cases he
              · cases he
                exact ⟨rfl, ctx, rfl, rfl, Or.inl ⟨if_pos hb, rfl, rfl⟩⟩
              · cases he
          | registered =>
              cases h
              exact ⟨rfl, ctx, rfl, rfl, Or.inr ⟨info, rfl, rfl, rfl, rfl⟩⟩
          | _ => cases h
      | _ => cases h
  | node host reg pc =>
      cases pc with
      | forward id report pc => cases pc <;> cases h
      | _ => cases h
  | _ => cases h

end Frames

section Steps

variable {tokens : List String} {t w : Tid} {op : Op} {k k' : ServerTask} {ctx : TunnelCtx}

/-- A node session starts with the `RegisterNode` that it is for. -/
theorem ServerTask.Step.enters {host : String} {reg : RegisterNode} (h : Step tokens t k op k')
    (hk : k'.node? = some (host, reg)) :
    k.node? = some (host, reg) ∨ op = .connect host (some (some (.registerNode reg))) := by
  cases h with
  | connect =>
      rename_i first
      rcases first with _ | _ | m <;> try cases m
      case registerNode =>
          cases hk
          exact Or.inr rfl
      all_goals cases hk
  | node => exact Or.inl hk
  | _ => cases hk

theorem ServerTask.Step.chosen (h : Step tokens t k op k') (hk : k.chosen = true) :
    k'.chosen = true := by
  cases h with
  | cli h => cases h <;> first | rfl | cases hk
  | _ => cases hk

/-- A session picks a node while it has not chosen yet. -/
theorem ServerTask.Step.chooses {name : Option String} {info : NodeInfo}
    (h : Step tokens t k (.pick name (some info)) k') : k.chosen = false ∧ k'.chosen = true := by
  cases h with
  | cli h =>
      cases h with
      | picked => exact ⟨rfl, rfl⟩
      | direct h | directRet h => exact absurd h.no_pick nofun
      | viaNode h =>
          cases h with
          | fallback h | fellBack h => exact absurd h.no_pick nofun
      | viaNodeRet h => cases h
  | node h =>
      cases h with
      | forward h | forwarded h => cases h
  | visitor h => cases h
  | dataConn h => cases h
  | close h => cases h

/-- A session has a tunnel open at a node since it has written the order. -/
theorem ServerTask.Step.opened (h : Step tokens t k op k') (hk : k'.opened? = some (ctx, w)) :
    k.opened? = some (ctx, w) ∨
      op.frame? = some (w, .openTunnel ⟨ctx.tunnelId, ctx.port⟩, true) := by
  cases h.order with
  | opens hf _ _ _ ho =>
      rw [ho, Option.ite_none_right_eq_some] at hk
      obtain ⟨rfl, hk⟩ := hk
      cases hk
      exact Or.inr hf
  | closes _ _ _ _ ho =>
      rw [ho] at hk
      cases hk
  | none _ ho => exact Or.inl (ho ▸ hk)

end Steps

section Runs

variable {cfg : ServerConfig} {ls : List (Tid × Op)} {c c' : Server} {t u w : Tid} {op : Op}
  {info info' : NodeInfo} {ctx : TunnelCtx} {n : NewConn}

/-! ## The node of a session -/

theorem chosen_of_picked (hr : (server cfg).Run ls c) (hp : Picked ls t info) :
    (c.task t).chosen = true := by
  refine Lts.Run.induct (P := fun ls c => ∀ t info, Picked ls t info → (c.task t).chosen = true)
    ?_ ?_ hr t info hp
  · rintro t info ⟨_, hm⟩
    cases hm
  · rintro ls c ⟨u, op⟩ c' - ih hs t info ⟨name, hm⟩
    have hself := server_step_self hs
    obtain hm | hm := List.mem_append.mp hm
    · have hold := ih t info ⟨name, hm⟩
      by_cases htu : t = u
      · subst htu
        exact hself.chosen hold
      · rw [server_step_attr (f := ServerTask.chosen) (fun _ _ => rfl) hs htu]
        exact hold
    · cases List.mem_singleton.mp hm
      exact hself.chooses.2

/-- A session picks one node at most. -/
theorem picked_unique (hr : (server cfg).Run ls c) (hp : Picked ls t info)
    (hp' : Picked ls t info') : info = info' := by
  refine Lts.Run.induct (P := fun ls _ => ∀ info info', Picked ls t info → Picked ls t info' →
    info = info') ?_ ?_ hr info info' hp hp'
  · rintro info info' ⟨_, hm⟩
    cases hm
  · rintro ls c ⟨u, op⟩ c' hr ih hs info info' ⟨name, hm⟩ ⟨name', hm'⟩
    -- a session that has picked before does not pick again
    have hlate : ∀ {name name' : Option String} {info info' : NodeInfo},
        (t, Op.pick name (some info)) ∈ ls → (t, .pick name' (some info')) ∉ [(u, op)] := by
      intro name name' info info' hbefore hnow
      cases List.mem_singleton.mp hnow
      have hnot := (server_step_self hs).chooses.1
      rw [chosen_of_picked hr ⟨name, hbefore⟩] at hnot
      cases hnot
    obtain hm | hm := List.mem_append.mp hm <;> obtain hm' | hm' := List.mem_append.mp hm'
    · exact ih info info' ⟨name, hm⟩ ⟨name', hm'⟩
    · exact absurd hm' (hlate hm)
    · exact absurd hm (hlate hm')
    · cases List.mem_singleton.mp hm
      cases List.mem_singleton.mp hm'
      rfl

/-- The node that was picked is the node of a session. -/
theorem picked_at (hr : (server cfg).Run ls c) (hp : Picked ls t info) : info.At c := by
  refine Lts.Run.induct (P := fun ls c => ∀ t info, Picked ls t info → info.At c)
    ?_ ?_ hr t info hp
  · rintro t info ⟨_, hm⟩
    cases hm
  · rintro ls c ⟨u, op⟩ c' hr ih hs t info ⟨name, hm⟩
    obtain hm | hm := List.mem_append.mp hm
    · exact (ih t info ⟨name, hm⟩).step hs
    · cases List.mem_singleton.mp hm
      exact ((routeInv hr).registry _ _ (ServerState.exec_pick (server_step_exec hs))).step hs

theorem picked_of_routed (hr : (server cfg).Run ls c) (hk : (c.task t).routed? = some info) :
    Picked ls t info := by
  refine Lts.Run.induct (P := fun ls c => ∀ t info, (c.task t).routed? = some info →
    Picked ls t info) ?_ ?_ hr t info hk
  · intro t info hk
    cases hk
  · rintro ls c ⟨u, op⟩ c' - ih hs t info hk
    by_cases htu : t = u
    · subst htu
      obtain hk | ⟨-, name, rfl⟩ := (server_step_self hs).routed hk
      · exact (ih t info hk).append _
      · exact ⟨name, List.mem_append_right _ (List.mem_singleton.mpr rfl)⟩
    · rw [server_step_attr (f := ServerTask.routed?) (fun _ _ => rfl) hs htu] at hk
      exact (ih t info hk).append _

/-- The order of a tunnel that is open at a node has been written. -/
theorem ordered_of_opened (hr : (server cfg).Run ls c)
    (hk : (c.task t).opened? = some (ctx, w)) :
    ∃ op, (t, op) ∈ ls ∧ op.frame? = some (w, .openTunnel ⟨ctx.tunnelId, ctx.port⟩, true) := by
  refine Lts.Run.induct (P := fun ls c => (c.task t).opened? = some (ctx, w) →
    ∃ op, (t, op) ∈ ls ∧ op.frame? = some (w, .openTunnel ⟨ctx.tunnelId, ctx.port⟩, true))
    ?_ ?_ hr hk
  · intro hk
    cases hk
  · rintro ls c ⟨u, op⟩ c' - ih hs hk
    have hold : (c.task t).opened? = some (ctx, w) →
        ∃ op', (t, op') ∈ ls ++ [(u, op)] ∧
          op'.frame? = some (w, .openTunnel ⟨ctx.tunnelId, ctx.port⟩, true) := by
      intro hk
      obtain ⟨op', hm, hf⟩ := ih hk
      exact ⟨op', List.mem_append_left _ hm, hf⟩
    by_cases htu : t = u
    · subst htu
      obtain hk | hf := (server_step_self hs).opened hk
      · exact hold hk
      · exact ⟨op, List.mem_append_right _ (List.mem_singleton.mpr rfl), hf⟩
    · rw [server_step_attr (f := ServerTask.opened?) (fun _ _ => rfl) hs htu] at hk
      exact hold hk

/-! ## Where messages lead -/

/-- A route that a task forwards along leads to the node that its session has
    picked. -/
theorem route_picked (hr : (server cfg).Run ls c) (hnd : (uuids ls).Nodup) {r : TunnelRoute}
    (hk : (c.task t).route? = some r) :
    ∃ info, Picked ls r.writer info ∧ r.host = info.host ∧ r.port = info.dataPort := by
  refine Lts.Run.induct (P := fun ls c => (uuids ls).Nodup → ∀ t r, (c.task t).route? = some r →
    ∃ info, Picked ls r.writer info ∧ r.host = info.host ∧ r.port = info.dataPort)
    ?_ ?_ hr hnd t r hk
  · intro _ t r hk
    cases hk
  · rintro ls c ⟨u, op⟩ c' hr ih hs hids t r hk
    have hnd := (nodup_of_snoc hids).1
    have hold : (c.task t).route? = some r → ∃ info, Picked (ls ++ [(u, op)]) r.writer info ∧
        r.host = info.host ∧ r.port = info.dataPort := by
      intro hk
      obtain ⟨info, hp, hends⟩ := ih hnd t r hk
      exact ⟨info, hp.append _, hends⟩
    by_cases htu : t = u
    · subst htu
      obtain hk | ⟨id, rfl⟩ := (server_step_self hs).route hk
      · exact hold hk
      -- the route is looked up in the table now
      · have hx := server_step_exec hs
        obtain ⟨e, he, hroute⟩ := Option.bind_eq_some_iff.mp (ServerState.exec_getRoute hx).1
        obtain ⟨info, hp, rfl, -⟩ := (pickInv hr hnd).entry id e r he hroute
        exact ⟨info, Picked.append hp _, rfl, rfl⟩
    · rw [server_step_attr (f := ServerTask.route?) (fun _ _ => rfl) hs htu] at hk
      exact hold hk

/-- A `NewConn` goes out on the stream of the session whose visitor it is about, and
    names the node that this session has picked, or none if the server has
    accepted the visitor itself. -/
theorem newConn_leads {ok : Bool} (hr : (server cfg).Run ls c) (hnd : (uuids ls).Nodup)
    (h : (server cfg).step c (t, op) = some c') (hop : op.frame? = some (w, .newConn n, ok)) :
    (∃ v x, (c.task v).visitor? = some x ∧ x.connId = n.connId ∧ c.Serves w x.tunnelId ∧
      n.nodeHost = none ∧ n.nodePort = none) ∨
    ∃ x info, (c.task t).report? = some x ∧ x.connId = n.connId ∧ c.Serves w x.tunnelId ∧
      Picked ls w info ∧ n.nodeHost = some info.host ∧ n.nodePort = some info.dataPort := by
  obtain ⟨v, vis, hv, rfl, rfl⟩ | ⟨report, route, hk, hroute, rfl, rfl⟩ :=
    ServerTask.frame_newConn ((server_step_self h).frame hop)
  · have hhas := (visitorInv hr).loop.has w _ hv
    change Handling.Has _ (c.task v) at hhas
    have hvis : (c.task v).visitor? = some ⟨vis.tunnelId, vis.connId⟩ := by
      generalize c.task v = k at hhas ⊢
      cases hhas
      rfl
    exact Or.inl ⟨v, _, hvis, rfl, (noticeInv hr).visitor w vis (by rw [hv]; rfl), rfl, rfl⟩
  · obtain ⟨info, hp, hhost, hport⟩ := route_picked hr hnd hroute
    refine Or.inr ⟨report, info, hk, rfl, (noticeInv hr).route t report route hk hroute, hp, ?_, ?_⟩
    · rw [hhost]
    · rw [hport]

end Runs

end Borehole
