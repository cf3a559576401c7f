/-
  Borehole.Server.Notices

  Whose visitor a `NewConn` is about.

  A `NewConn` goes out on the stream of the session whose tunnel the visitor is
  of: a serving loop announces visitors it has accepted for its own tunnel, and a
  node session looks up the session of the tunnel that a report names.
-/

import Borehole.Server.Pairing

namespace Borehole

open Conc

/-! ## Visitors and reports that tasks have at hand -/

/-- The visitor that a loop has accepted and not spawned, as long as it still needs
    the whole of it. -/
def Handling.visitor? : Handling → Option Visitor
  | .inserting _ vis | .noticing _ vis | .removing _ vis => some vis
  | .noticed _ | .spawning _ _ | .dropping _ => none

/-- The visitor that a task handles, as a node would report it. -/
def ServerTask.visitor? : ServerTask → Option VisitorConn
  | .visitor vis _ => some ⟨vis.tunnelId, vis.connId⟩
  | _ => none

/-- The report that a node session forwards. -/
def ServerTask.report? : ServerTask → Option VisitorConn
  | .node _ _ (.forward _ report _) => some report
  | _ => none

/-- Whether the task is a session, of a CLI or of a node. -/
def ServerTask.isSession : ServerTask → Bool
  | .cli _ _ | .node _ _ _ => true
  | _ => false

theorem ServerTask.visits_of_offered {k : ServerTask} {id : String}
    (h : k.place.offered? = some id) : ∃ x, k.visitor? = some x ∧ x.connId = id := by
  obtain ⟨vis, pc, rfl, rfl⟩ := visitor_of_offered h
  exact ⟨_, rfl, rfl⟩

section Steps

variable {tokens : List String} {s : SessionCtx} {ctx : TunnelCtx} {node : NodeInfo}
  {t v w : Tid} {op : Op} {k k' : ServerTask} {vis : Visitor} {n : NewConn} {r : Register}

theorem ServeTunnel.Step.accepts {pc : Pc} {f : Flow Pc} (h : Step s ctx pc op f)
    (hop : op = .accept (some (v, vis))) : vis.tunnelId = ctx.tunnelId := by
  cases h with
  | accept hid =>
      cases hop
      exact hid
  | _ => cases hop

theorem ServeCliDirect.Step.accepts {pc : Pc} {f : Flow Pc} (h : Step s ctx pc op f)
    (hop : op = .accept (some (v, vis))) : vis.tunnelId = ctx.tunnelId := by
  cases h with
  | serve h | served h => exact h.accepts hop
  | _ => cases hop

theorem ServeCliViaNode.Step.accepts {pc : Pc} {f : Flow Pc} (h : Step s ctx node pc op f)
    (hop : op = .accept (some (v, vis))) : vis.tunnelId = ctx.tunnelId := by
  cases h with
  | fallback h | fellBack h => exact h.accepts hop
  | _ => cases hop

/-- A session accepts visitors of its own tunnel. -/
theorem ServerTask.Step.accepts (h : Step tokens t k op k') (hop : op = .accept (some (v, vis))) :
    ∃ ctx, k.ctx? = some ctx ∧ vis.tunnelId = ctx.tunnelId := by
  cases h with
  | cli h =>
      cases h with
      | direct h | directRet h => exact ⟨_, rfl, h.accepts hop⟩
      | viaNode h | viaNodeRet h => exact ⟨_, rfl, h.accepts hop⟩
      | _ => cases hop
  | node h =>
      cases h with
      | forward h | forwarded h => cases h <;> cases hop
      | _ => cases hop
  | visitor h => cases h <;> cases hop
  | dataConn h => cases h <;> cases hop
  | close h => cases h <;> cases hop
  | _ => cases hop

/-- A loop has its visitor from the operation that accepts it. -/
theorem Handling.Step.visitor {o o' : Option Handling} (h : Handling.Step t o op o')
    (ho : o'.bind Handling.visitor? = some vis) :
    o.bind Handling.visitor? = some vis ∨ ∃ v, op = .accept (some (v, vis)) := by
  cases h with
  | accept =>
      cases ho
      exact Or.inr ⟨_, rfl⟩
  | insertPending | notifyFailed | quiet => exact Or.inl ho
  | _ => cases ho

theorem ServerTask.Step.handled (h : Step tokens t k op k')
    (hk : k'.handling?.bind Handling.visitor? = some vis) :
    k.handling?.bind Handling.visitor? = some vis ∨ ∃ v, op = .accept (some (v, vis)) := by
  cases h.meets with
  | loop hs _ _ => exact hs.visitor hk
  | visitor _ hk' _ =>
      rw [hk'] at hk
      cases hk
  | dataConn _ hk' _ =>
      rw [hk'] at hk
      cases hk

/-- A node session forwards what it has read. -/
theorem ServerTask.Step.report {x : VisitorConn} (h : Step tokens t k op k')
    (hk : k'.report? = some x) :
    k.report? = some x ∨ op = .readLine (some (some (.visitorConn x))) := by
  cases h with
  | @connect peer first =>
      have hd := handleClient_dispatched peer first
      generalize handleClient peer first = k' at hd hk
      cases hd <;> cases hk
  | node h =>
      cases h with
      | report =>
          cases hk
          exact Or.inr rfl
      | forward => exact Or.inl hk
      | _ => cases hk
  | _ => cases hk

/-- What a node session looks up is the tunnel of the report. -/
theorem ServerTask.Step.looksUp {route : TunnelRoute} {x : VisitorConn} (h : Step tokens t k op k')
    (hroute : k'.route? = some route) (hk : k'.report? = some x) :
    k.route? = some route ∧ k.report? = some x ∨ op = .getRoute x.tunnelId (some route) := by
  cases h with
  | @connect peer first =>
      have hd := handleClient_dispatched peer first
      generalize handleClient peer first = k' at hd hk
      cases hd <;> cases hk
  | node h =>
      cases h with
      | forward h =>
          cases h with
          | routed =>
              cases hroute
              cases hk
              exact Or.inr rfl
          | lockCli => exact Or.inl ⟨hroute, hk⟩
      | report => cases hroute
      | _ => cases hk
  | _ => cases hk

theorem ServeCliDirect.Step.sendsUnlocked {pc : Pc} {f : Flow Pc} {m : Message} {ok : Bool}
    (h : Step s ctx pc op f) : op ≠ .sendUnlock w m ok := by
  cases h with
  | serve h | served h => cases h <;> nofun
  | _ => nofun

/-- A `NewConn` through a mutex guard is about the visitor of a report. -/
theorem ServerTask.Step.forwards {ok : Bool} (h : Step tokens t k op k')
    (hop : op = .sendUnlock w (.newConn n) ok) :
    ∃ report route, k.report? = some report ∧ k.route? = some route ∧ w = route.writer ∧
      n.connId = report.connId := by
  cases h with
  | cli h =>
      cases h with
      | direct h | directRet h => exact absurd hop h.sendsUnlocked
      | viaNode h =>
          cases h with
          | fallback h | fellBack h => exact absurd hop h.sendsUnlocked
          | _ => cases hop
      | viaNodeRet h => cases h <;> cases hop
      | _ => cases hop
  | node h =>
      cases h with
      | forward h => cases h <;> cases hop
      | forwarded h =>
          cases h with
          | send =>
              cases hop
              exact ⟨_, _, rfl, rfl, rfl, rfl⟩
          | _ => cases hop
      | _ => cases hop
  | visitor h => cases h <;> cases hop
  | dataConn h => cases h <;> cases hop
  | close h => cases h <;> cases hop
  | _ => cases hop

/-- A data connection names a `conn_id` in its first frame. -/
theorem ServerTask.Step.calls {id : String} (h : Step tokens t k op k')
    (hk : k'.call.named? = some id) :
    k.call.named? = some id ∨ op = .readFrame (some (some (.dataConn ⟨id⟩))) := by
  cases h with
  | @connect peer first =>
      have hd := handleClient_dispatched peer first
      generalize handleClient peer first = k' at hd hk
      cases hd <;> cases hk
  | dataConn h =>
      cases h with
      | announced =>
          cases hk
          exact Or.inr rfl
      | unexpected => cases hk
      | _ => exact Or.inl hk
  | _ => cases hk

/-- A session starts with the frame that opens it. -/
theorem ServerTask.Step.opens (h : Step tokens t k op k') (hk : k'.isSession = true) :
    k.isSession = true ∨ ∃ peer line, op = .connect peer line := by
  cases h with
  | connect => exact Or.inr ⟨_, _, rfl⟩
  | cli | node => exact Or.inl rfl
  | _ => cases hk

theorem ServerTask.Step.registered (h : Step tokens t k op k') (hk : k'.cli? = some r) :
    k.cli? = some r ∨ ∃ peer, op = .connect peer (some (some (.register r))) := by
  cases h with
  | connect =>
      rename_i first
      rcases first with _ | _ | m <;> try cases m
      case register =>
          cases hk
          exact Or.inr ⟨_, rfl⟩
      all_goals cases hk
  | cli => exact Or.inl hk
  | _ => cases hk

end Steps

/-! ## The invariant -/

section Server

variable {cfg : ServerConfig} {ls : List (Tid × Op)} {c c' : Server} {t u v d w : Tid} {op : Op}
  {n : NewConn}

theorem server_step_visits {x : VisitorConn} (h : (server cfg).step c (t, op) = some c')
    (hv : (c.task v).visitor? = some x) : (c'.task v).visitor? = some x := by
  generalize hk : c.task v = k at hv
  cases k with
  | visitor vis pc =>
      obtain ⟨pc', hk'⟩ := server_step_visitor h hk
      rw [hk']
      exact hv
  | _ => cases hv

/-- A visitor comes with the operation that accepts it. -/
theorem server_step_arrival {x : VisitorConn} (h : (server cfg).step c (t, op) = some c')
    (hv : (c'.task v).visitor? = some x) :
    (c.task v).visitor? = some x ∨
      ∃ vis, op = .accept (some (v, vis)) ∧ x = ⟨vis.tunnelId, vis.connId⟩ := by
  by_cases hvt : v = t
  · subst hvt
    have hself := server_step_self h
    generalize c.task v = k at hself ⊢
    generalize c'.task v = k' at hself hv
    cases hself with
    | @connect peer first =>
        have hd := handleClient_dispatched peer first
        generalize handleClient peer first = k' at hd hv
        cases hd <;> cases hv
    | visitor => exact Or.inl hv
    | _ => cases hv
  · obtain he | ⟨hc, ha⟩ := server_step_other h hvt
    · exact Or.inl (he ▸ hv)
    · generalize c.task v = k at ha ⊢
      generalize c'.task v = k' at ha hv
      cases ha with
      | accept =>
          cases hv
          cases hc
          exact Or.inr ⟨_, rfl, rfl⟩
      | _ => exact Or.inl hv

/-- The session whose tunnel has this id. -/
def Server.Serves (c : Server) (t : Tid) (tunnelId : String) : Prop :=
  ∃ ctx, (c.task t).ctx? = some ctx ∧ ctx.tunnelId = tunnelId

theorem Server.Serves.step {id : String} (hu : c.Serves u id)
    (h : (server cfg).step c (t, op) = some c') : c'.Serves u id := by
  obtain ⟨ctx, hctx, hid⟩ := hu
  refine ⟨ctx, ?_, hid⟩
  by_cases hut : u = t
  · subst hut
    obtain he | ⟨hn, _⟩ := (server_step_self h).ctx
    · rw [he, hctx]
    · rw [hctx] at hn
      cases hn
  · rw [server_step_attr (f := ServerTask.ctx?) (fun _ _ => rfl) h hut, hctx]

/-- The visitors in a loop's hands are of the session's tunnel, and a route is to
    the session of the tunnel that was reported. -/
structure NoticeInv (c : Server) : Prop where
  visitor : ∀ t vis, (c.task t).handling?.bind Handling.visitor? = some vis →
    c.Serves t vis.tunnelId
  route : ∀ t report route, (c.task t).report? = some report → (c.task t).route? = some route →
    c.Serves route.writer report.tunnelId

theorem noticeInv_step (hr : (server cfg).Run ls c) (hi : NoticeInv c)
    (h : (server cfg).step c (t, op) = some c') : NoticeInv c' := by
  have hself := server_step_self h
  constructor
  case visitor =>
    intro u vis hu
    by_cases hut : u = t
    · subst hut
      obtain hu | ⟨v, hop⟩ := hself.handled hu
      · exact (hi.visitor u vis hu).step h
      · obtain ⟨ctx, hctx, hid⟩ := hself.accepts hop
        exact Server.Serves.step ⟨ctx, hctx, hid.symm⟩ h
    · rw [server_step_attr (f := ServerTask.handling?) (fun _ _ => rfl) h hut] at hu
      exact (hi.visitor u vis hu).step h
  case route =>
    intro u report route hu hroute
    by_cases hut : u = t
    · subst hut
      obtain ⟨hroute, hu⟩ | hop := hself.looksUp hroute hu
      · exact (hi.route u report route hu hroute).step h
      · have hx := server_step_exec h
        rw [hop] at hx
        obtain ⟨e, he, hroute⟩ := Option.bind_eq_some_iff.mp (ServerState.exec_getRoute hx).1
        have hctx := ServerTask.ctx_of_tunnel (tunnelInv hr _ e he)
        rw [← ((routeInv hr).entry _ e route he hroute).1] at hctx
        exact Server.Serves.step ⟨_, hctx, rfl⟩ h
    · rw [server_step_attr (f := ServerTask.report?) (fun _ _ => rfl) h hut] at hu
      rw [server_step_attr (f := ServerTask.route?) (fun _ _ => rfl) h hut] at hroute
      exact (hi.route u report route hu hroute).step h

theorem noticeInv (h : (server cfg).Run ls c) : NoticeInv c := by
  refine Lts.Run.induct (P := fun _ c => NoticeInv c) ?_
    (fun _ _ _ _ hr hi hs => noticeInv_step hr hi hs) h
  constructor
  case visitor =>
    intro t vis hk
    cases hk
  case route =>
    intro t report route hk
    cases hk

/-! ## What a `NewConn` says -/

/-- The session on whose stream a `NewConn` goes out has the tunnel of the visitor
    it is about: one that the session has accepted itself, or one that is being
    reported. -/
theorem newConn_about {ok : Bool} (hr : (server cfg).Run ls c)
    (h : (server cfg).step c (t, op) = some c') (hop : op.frame? = some (w, .newConn n, ok)) :
    ∃ x, ((∃ v, (c.task v).visitor? = some x) ∨ (c.task t).report? = some x) ∧
      x.connId = n.connId ∧ c.Serves w x.tunnelId := by
  have hself := server_step_self h
  cases op with
  | send w' m ok' =>
      cases hop
      obtain ⟨rfl, v, vis, hv, rfl⟩ := hself.notice rfl
      refine ⟨⟨vis.tunnelId, vis.connId⟩, Or.inl ⟨v, ?_⟩, rfl,
        (noticeInv hr).visitor w vis (by rw [hv]; rfl)⟩
      have hhas := (visitorInv hr).loop.has w _ hv
      change Handling.Has _ (c.task v) at hhas
      generalize c.task v = k at hhas ⊢
      cases hhas
      rfl
  | sendUnlock w' m ok' =>
      cases hop
      obtain ⟨report, route, hk, hroute, rfl, hid⟩ := hself.forwards rfl
      exact ⟨report, Or.inr hk, hid.symm, (noticeInv hr).route t report route hk hroute⟩
  | _ => cases hop

end Server

end Borehole
