/-
  Borehole.World.Delivery

  No visitor is delivered to another tenant.

  What a message says stays true: that a visitor with some `conn_id` came to some
  tunnel, that a `Register` of some process created that tunnel.  So the invariant
  is that every message under way is true of the parties it is between, and every
  task acts on what it has been told.  It needs no order among messages and
  nothing about ports; only that ids are not generated twice, and that nobody else
  finds an entry of `pending`.
-/

import Borehole.Cli.Visitors
import Borehole.Node.Pairing
import Borehole.Node.Reports
import Borehole.Server.Notices
import Borehole.World.Reconnect

namespace Borehole

open Conc

namespace World

/-! ## What is claimed of a run -/

/-- The ids generated in a run, by the server and by the nodes. -/
def Label.uuid? : Label → Option String
  | .server _ op => op.uuid?
  | .node _ _ (.accept (some (_, vis))) => some vis.connId
  | _ => none

/-- The `conn_id`s that are drawn in a run, on any host. -/
def births (ls : List Label) : List String :=
  ls.filterMap Label.uuid?

@[simp] theorem births_snoc (ls : List Label) (l : Label) :
    births (ls ++ [l]) = births ls ++ l.uuid?.toList := by
  rw [births, List.filterMap_append, births]
  cases h : l.uuid? <;> simp [h]

/-- The visitor that is accepted, at which host and for which task. -/
def Label.arrival? : Label → Option (Host × Tid × VisitorConn)
  | .server _ (.accept (some (v, vis))) => some (.server, v, ⟨vis.tunnelId, vis.connId⟩)
  | .node n _ (.accept (some (v, x))) => some (.node n, v, x)
  | _ => none

/-- A data connection that no party has opened finds nothing in `pending` under the
    `conn_id` it announces. -/
def StrangersMiss (w : World) : Label → Prop
  | .server t (.removePending _ (some _)) =>
      (w.server.task t).call.named?.isSome = true → (w.peer .server t).isSome = true
  | .node n t (.removePending _ (some _)) =>
      ((w.node n).task t).call.named?.isSome = true → (w.peer (.node n) t).isSome = true
  | _ => True

instance (w : World) (l : Label) : Decidable (w.StrangersMiss l) := by
  unfold StrangersMiss
  split <;> infer_instance

/-- The visitor that task `v` of a host handles: the tunnel on whose public port it
    was accepted, and its `conn_id`. -/
def visitor? (w : World) : Host → Tid → Option VisitorConn
  | .server, v => (w.server.task v).visitor?
  | .node n, v => ((w.node n).task v).visitor?

/-- The rendezvous of visitors and data connections at a host. -/
def rendezvous (w : World) : Host → Rendezvous String Tid Tid
  | .server => w.server.rendezvous
  | .node n => Node.rendezvousOf (w.node n)

/-- Visitor `v` has been spliced to the data connection that task `s` serves. -/
def Spliced (w : World) (h : Host) (v s : Tid) : Prop :=
  ∃ connId, ((w.rendezvous h).waiter v) = .met connId s

/-- Session `t` is one of process `p` and has created the tunnel. -/
def Created (w : World) (p : Nat) (t : Tid) (tunnelId : String) : Prop :=
  (∃ a, w.peer .server t = some (.cli p a)) ∧ w.server.Serves t tunnelId

/-- Process `p` is the one to serve the visitor with this `conn_id`. -/
def Owed (w : World) (p : Nat) (connId : String) : Prop :=
  ∃ h v x t, w.visitor? h v = some x ∧ x.connId = connId ∧ w.Created p t x.tunnelId

/-- A message on its way is true. -/
def Said (d : Setup) (w : World) : Way Party → Message → Prop
  | .up (.cli p _), m => ∃ r, m = .register r ∧ r.localPort = (d.cli p).localPort
  | .up (.node n _), m =>
      (∃ reg, m = .registerNode reg) ∨ ∃ x v, m = .visitorConn x ∧ w.visitor? (.node n) v = some x
  | .up (.data p k), m =>
      ∃ ctx, m = .dataConn ⟨ctx.connId⟩ ∧ ((w.cli p).task k).data? = some ctx
  | .down (.cli p _), m => ∀ notice, m = .newConn notice → w.Owed p notice.connId
  | .down _, _ => True

section Runs

variable {d : Setup} {w w' : World} {l : Label} {ls : List Label} {h : Host} {t v s : Tid}
  {p k : Nat} {x : VisitorConn} {id : String}

/-! ## What stays true -/

theorem step_visitor (hs : (world d).step w l = some w') (hv : w.visitor? h v = some x) :
    w'.visitor? h v = some x := by
  cases h with
  | server =>
      obtain he | ⟨_, _, _, hstep⟩ := step_server hs
      · rwa [visitor?, he]
      · exact server_step_visits hstep hv
  | node n =>
      obtain he | ⟨_, _, _, hstep⟩ := step_node n hs
      · rwa [visitor?, he]
      · exact Node.node_step_visitor hstep hv

theorem Created.step (hc : w.Created p t id) (hs : (world d).step w l = some w') :
    w'.Created p t id := by
  obtain ⟨⟨a, hpeer⟩, hserves⟩ := hc
  refine ⟨⟨a, step_peer hs hpeer⟩, ?_⟩
  obtain he | ⟨_, _, _, hstep⟩ := step_server hs
  · rwa [he]
  · exact hserves.step hstep

theorem Owed.step (ho : w.Owed p id) (hs : (world d).step w l = some w') : w'.Owed p id := by
  obtain ⟨h, v, x, t, hv, hid, hc⟩ := ho
  exact ⟨h, v, x, t, step_visitor hs hv, hid, hc.step hs⟩

theorem step_data {ctx : Cli.DataCtx} (hs : (world d).step w l = some w')
    (hk : ((w.cli p).task k).data? = some ctx) : ((w'.cli p).task k).data? = some ctx := by
  obtain he | ⟨_, _, _, hstep⟩ := step_cli p hs
  · rwa [he]
  · exact Cli.cli_step_data hstep hk

theorem Said.step {way : Way Party} {m : Message} (hm : Said d w way m)
    (hs : (world d).step w l = some w') : Said d w' way m := by
  rcases way with (⟨p, a⟩ | ⟨n, a⟩ | ⟨p, k⟩) | (⟨p, a⟩ | ⟨n, a⟩ | ⟨p, k⟩)
  · exact hm
  · obtain hm | ⟨x, v, hm, hv⟩ := hm
    · exact Or.inl hm
    · exact Or.inr ⟨x, v, hm, step_visitor hs hv⟩
  · obtain ⟨ctx, hm, hk⟩ := hm
    exact ⟨ctx, hm, step_data hs hk⟩
  · exact fun notice hn => (hm notice hn).step hs
  · trivial
  · trivial

/-! ## Who says what -/

theorem Said.register {party : Party} {r : Register} (hm : Said d w (.up party) (.register r)) :
    ∃ p a, party = .cli p a ∧ r.localPort = (d.cli p).localPort := by
  cases party with
  | cli p a =>
      obtain ⟨r', hr, hport⟩ := hm
      cases hr
      exact ⟨p, a, rfl, hport⟩
  | node n a => obtain ⟨_, he⟩ | ⟨_, _, he, _⟩ := hm <;> cases he
  | data p k =>
      obtain ⟨_, he, _⟩ := hm
      cases he

theorem Said.visitorConn {party : Party} (hm : Said d w (.up party) (.visitorConn x)) :
    ∃ n v, w.visitor? (.node n) v = some x := by
  cases party with
  | cli p a =>
      obtain ⟨_, he, _⟩ := hm
      cases he
  | node n a =>
      obtain ⟨_, he⟩ | ⟨_, v, he, hv⟩ := hm
      · cases he
      · cases he
        exact ⟨n, v, hv⟩
  | data p k =>
      obtain ⟨_, he, _⟩ := hm
      cases he

theorem Said.dataConn {party : Party} (hm : Said d w (.up party) (.dataConn ⟨id⟩)) :
    ∃ p k ctx, party = .data p k ∧ ((w.cli p).task k).data? = some ctx ∧ ctx.connId = id := by
  cases party with
  | cli p a =>
      obtain ⟨_, he, _⟩ := hm
      cases he
  | node n a => obtain ⟨_, he⟩ | ⟨_, _, he, _⟩ := hm <;> cases he
  | data p k =>
      obtain ⟨ctx, he, hk⟩ := hm
      cases he
      exact ⟨p, k, ctx, rfl, hk, rfl⟩

/-! ## The invariant -/

/-- What every party has been told is true, and so is every message under way. -/
structure Told (d : Setup) (w : World) : Prop where
  /-- A session is served over a connection that a party has opened. -/
  session : ∀ t, (w.server.task t).isSession = true → ∃ party, w.peer .server t = some party
  /-- A CLI session has the `Register` of its process. -/
  register : ∀ t r, (w.server.task t).cli? = some r →
    ∃ p a, w.peer .server t = some (.cli p a) ∧ r.localPort = (d.cli p).localPort
  /-- A report is about a visitor of a node. -/
  report : ∀ t x, (w.server.task t).report? = some x → ∃ n v, w.visitor? (.node n) v = some x
  /-- A process is told of visitors that it is to serve. -/
  owed : ∀ p k connId, ((w.cli p).task k).told? = some connId → w.Owed p connId
  /-- A party names the `conn_id` it has been told of. -/
  named : ∀ h s connId party, ((w.rendezvous h).socket s).named? = some connId →
    w.peer h s = some party →
    ∃ p k ctx, party = .data p k ∧ ((w.cli p).task k).data? = some ctx ∧ ctx.connId = connId
  stream : ∀ way m, m ∈ w.net.stream way → Said d w way m

/-- A line that decodes, read off a connection that a party has opened, is true. -/
theorem Told.received {party : Party} {m : Message} {peer : Option Party} (hi : Told d w)
    (hnet : w.net.exec (receive peer (some (some m))) = some w'.net) (hp : peer = some party) :
    Said d w (.up party) m := by
  subst hp
  exact hi.stream _ m (Network.exec_get hnet)

theorem Told.session_step (hi : Told d w) (hs : (world d).step w l = some w')
    (ht : (w'.server.task t).isSession = true) : ∃ party, w'.peer .server t = some party := by
  have hold : (w.server.task t).isSession = true → ∃ party, w'.peer .server t = some party := by
    intro ht
    obtain ⟨party, hp⟩ := hi.session t ht
    exact ⟨party, step_peer hs hp⟩
  cases world_step hs with
  | @server u op c net hadmits hstep =>
      by_cases htu : t = u
      · subst htu
        obtain ht | ⟨peer, line, rfl⟩ := (server_step_self hstep).opens ht
        · exact hold ht
        · change (w.peer .server t).any Party.control = true at hadmits
          obtain ⟨party, hp, -⟩ := (Option.any_eq_true _ _).mp hadmits
          exact ⟨party, hp⟩
      · have he := server_step_attr (f := ServerTask.isSession) (fun _ _ => rfl) hstep htu
        exact hold (he.symm.trans ht)
  | _ => exact hold ht

theorem Told.register_step (hi : Told d w) (hs : (world d).step w l = some w') {r : Register}
    (ht : (w'.server.task t).cli? = some r) :
    ∃ p a, w'.peer .server t = some (.cli p a) ∧ r.localPort = (d.cli p).localPort := by
  have hold : (w.server.task t).cli? = some r →
      ∃ p a, w'.peer .server t = some (.cli p a) ∧ r.localPort = (d.cli p).localPort := by
    intro ht
    obtain ⟨p, a, hp, hport⟩ := hi.register t r ht
    exact ⟨p, a, step_peer hs hp, hport⟩
  have hnet := step_net hs
  cases world_step hs with
  | @server u op c net hadmits hstep =>
      by_cases htu : t = u
      · subst htu
        obtain ht | ⟨peer, rfl⟩ := (server_step_self hstep).registered ht
        · exact hold ht
        · change (w.peer .server t).any Party.control = true at hadmits
          obtain ⟨party, hp, -⟩ := (Option.any_eq_true _ _).mp hadmits
          obtain ⟨p, a, rfl, hport⟩ := (hi.received hnet hp).register
          exact ⟨p, a, hp, hport⟩
      · have he := server_step_attr (f := ServerTask.cli?) (fun _ _ => rfl) hstep htu
        exact hold (he.symm.trans ht)
  | _ => exact hold ht

theorem Told.report_step (hi : Told d w) (hs : (world d).step w l = some w')
    (ht : (w'.server.task t).report? = some x) : ∃ n v, w'.visitor? (.node n) v = some x := by
  have hold : (w.server.task t).report? = some x → ∃ n v, w'.visitor? (.node n) v = some x := by
    intro ht
    obtain ⟨n, v, hv⟩ := hi.report t x ht
    exact ⟨n, v, step_visitor hs hv⟩
  obtain he | ⟨u, op, rfl, hstep⟩ := step_server hs
  · exact hold (he ▸ ht)
  by_cases htu : t = u
  · subst htu
    have hself := server_step_self hstep
    obtain ht' | rfl := hself.report ht
    · exact hold ht'
    · have hsession : (w.server.task t).isSession = true := by
        have hafter : (w'.server.task t).isSession = true := by
          generalize w'.server.task t = k at ht ⊢
          cases k <;> first | rfl | cases ht
        obtain h | ⟨_, _, he⟩ := hself.opens hafter
        · exact h
        · cases he
      obtain ⟨party, hp⟩ := hi.session t hsession
      obtain ⟨n, v, hv⟩ := (hi.received (step_net hs) hp).visitorConn
      exact ⟨n, v, step_visitor hs hv⟩
  · have he := server_step_attr (f := ServerTask.report?) (fun _ _ => rfl) hstep htu
    exact hold (he.symm.trans ht)

theorem Told.owed_step (hi : Told d w) (hs : (world d).step w l = some w')
    (hk : ((w'.cli p).task k).told? = some id) : w'.Owed p id := by
  obtain he | ⟨u, op, rfl, hstep⟩ := step_cli p hs
  · rw [he] at hk
    exact (hi.owed p k id hk).step hs
  · obtain ⟨u', hu'⟩ | ⟨notice, rfl, rfl, a, pc, hu⟩ := Cli.cli_step_told hstep hk
    · exact (hi.owed p u' id hu').step hs
    -- what it has been told is read off its control connection
    · have hnet := step_net hs
      change w.net.exec (cliAct p u ((w.cli p).task u) _) = _ at hnet
      rw [hu] at hnet
      exact (hi.stream _ _ (Network.exec_get hnet) notice rfl).step hs

/-- A socket names a `conn_id` by the frame that its task reads. -/
theorem step_named (hs : (world d).step w l = some w')
    (hn : ((w'.rendezvous h).socket s).named? = some id) :
    ((w.rendezvous h).socket s).named? = some id ∨
      w.free h s = false ∧ act d w l = receive (w.peer h s) (some (some (.dataConn ⟨id⟩))) := by
  cases h with
  | server =>
      change (w'.server.task s).call.named? = some id at hn
      obtain he | ⟨u, op, rfl, hstep⟩ := step_server hs
      · rw [he] at hn
        exact Or.inl hn
      -- A data connection that names an id has just read it.
      by_cases hsu : s = u
      · subst hsu
        have hself := server_step_self hstep
        obtain hn | rfl := hself.calls hn
        · exact Or.inl hn
        · refine Or.inr ⟨free_server.mpr fun hidle => ?_, rfl⟩
          rw [hidle] at hself
          cases hself
      · rw [server_step_attr (f := ServerTask.call) (fun _ _ => rfl) hstep hsu] at hn
        exact Or.inl hn
  | node n =>
      change ((w'.node n).task s).call.named? = some id at hn
      obtain he | ⟨u, op, rfl, hstep⟩ := step_node n hs
      · rw [he] at hn
        exact Or.inl hn
      by_cases hsu : s = u
      · subst hsu
        obtain hn | rfl := (Node.node_step_self hstep).calls hn
        · exact Or.inl hn
        · obtain ⟨pc, hk⟩ := (Node.node_step_self hstep).reads_dataConn
          refine Or.inr ⟨free_node.mpr (by rw [hk]; nofun), ?_⟩
          change nodeAct _ n _ s ((w.node n).task s) _ = _
          rw [hk]
          rfl
      · rw [Node.node_step_call hstep hsu] at hn
        exact Or.inl hn

theorem free_of_named (hn : ((w.rendezvous h).socket s).named? = some id) :
    w.free h s = false := by
  cases h with
  | server =>
      refine free_server.mpr fun hidle => ?_
      change (w.server.task s).call.named? = some id at hn
      rw [hidle] at hn
      cases hn
  | node n =>
      refine free_node.mpr fun hidle => ?_
      change ((w.node n).task s).call.named? = some id at hn
      rw [hidle] at hn
      cases hn

theorem Told.named_step (hi : Told d w) (hs : (world d).step w l = some w') {party : Party}
    (hn : ((w'.rendezvous h).socket s).named? = some id) (hp : w'.peer h s = some party) :
    ∃ p k ctx, party = .data p k ∧ ((w'.cli p).task k).data? = some ctx ∧ ctx.connId = id := by
  suffices hnow : ∃ p k ctx, party = .data p k ∧ ((w.cli p).task k).data? = some ctx ∧
      ctx.connId = id by
    obtain ⟨p, k, ctx, hparty, hk, hid⟩ := hnow
    exact ⟨p, k, ctx, hparty, step_data hs hk, hid⟩
  obtain hn | ⟨hfree, hact⟩ := step_named hs hn
  · rw [step_peer_eq hs (free_of_named hn)] at hp
    exact hi.named h s id party hn hp
  · rw [step_peer_eq hs hfree] at hp
    have hnet := step_net hs
    rw [hact] at hnet
    exact (hi.received hnet hp).dataConn

/-! ## What is written is true -/

theorem Told.server_says (hr : (world d).Run ls w) (hi : Told d w) {op : Op} {u : Tid}
    {m : Message} {ok : Bool} {party : Party}
    (hs : (world d).step w (.server t op) = some w') (hop : op.frame? = some (u, m, ok))
    (hp : w.peer .server u = some party) : Said d w (.down party) m := by
  cases party with
  | cli p a =>
      rintro notice rfl
      have hrun := server_projection.run hr
      obtain ⟨x, hx, hid, hserves⟩ := newConn_about hrun (server_projection.own hs rfl) hop
      obtain ⟨h, v, hv⟩ : ∃ h v, w.visitor? h v = some x := by
        obtain ⟨v, hv⟩ | hreport := hx
        · exact ⟨.server, v, hv⟩
        · obtain ⟨n, v, hv⟩ := hi.report t x hreport
          exact ⟨.node n, v, hv⟩
      exact ⟨h, v, x, u, hv, hid, ⟨a, hp⟩, hserves⟩
  | _ => trivial

theorem Told.stream_step (hr : (world d).Run ls w) (hi : Told d w)
    (hs : (world d).step w l = some w') {way : Way Party} {m : Message}
    (hm : m ∈ w'.net.stream way) : Said d w' way m := by
  suffices hnow : Said d w way m from hnow.step hs
  obtain hm | hput := Network.exec_stream (step_net hs) hm
  · exact hi.stream way m hm
  -- A message that has just been sent: who writes it knows that it is true.
  · have hact := act_acts d w l
    rw [hput] at hact
    cases hact with
    | server h =>
        cases h with
        | send hp | sendUnlock hp => exact hi.server_says hr hs rfl hp
    | node h =>
        cases h with
        | register => exact Or.inl ⟨_, rfl⟩
        | report hk =>
            exact Or.inr ⟨_, _, rfl, Node.writing_visitor ((node_projection _).run hr) hk⟩
    | @cli q u op _ h =>
        have hlabel : Label.cli? q (.cli q u op) = some (u, op) := if_pos rfl
        have hself := Cli.cli_step_self ((cli_projection q).own hs hlabel)
        cases h with
        | register hk =>
            rw [hk] at hself
            generalize (w'.cli q).task u = k' at hself
            cases hself with
            | main h =>
                cases h with
                | run h =>
                    cases h <;> exact ⟨_, rfl, rfl⟩
        | announce hk =>
            rw [hk] at hself
            generalize (w'.cli q).task u = k' at hself
            cases hself with
            | data h =>
                cases h
                exact ⟨_, rfl, congrArg Cli.CliTask.data? hk⟩

/-- Every party is told the truth, in every run. -/
theorem told (hr : (world d).Run ls w) : Told d w := by
  refine Lts.Run.induct (L := world d) (P := fun _ w => Told d w) ?_ ?_ hr
  -- At the start no task serves anyone, no connection is open and nothing has been sent.
  · constructor
    case session =>
      intro t ht
      cases ht
    case register =>
      intro t r ht
      cases ht
    case report =>
      intro t x ht
      cases ht
    case owed =>
      intro p k connId hk
      change (if k = 0 then _ else _ : Cli.CliTask).told? = some connId at hk
      split at hk <;> cases hk
    case named =>
      intro h s connId party hn hp
      cases hp
    case stream =>
      intro way m hm
      cases hm
  · intro ls w l w' hr hi hs
    exact ⟨fun t => hi.session_step hs, fun t r => hi.register_step hs,
      fun t x => hi.report_step hs, fun p k id => hi.owed_step hs,
      fun h s id party => hi.named_step hs, fun way m => hi.stream_step hr hs⟩

/-! ## Visitors are told apart -/

theorem step_arrival (hs : (world d).step w l = some w') (hv : w'.visitor? h v = some x) :
    w.visitor? h v = some x ∨ l.arrival? = some (h, v, x) := by
  cases h with
  | server =>
      obtain he | ⟨_, _, rfl, hstep⟩ := step_server hs
      · rw [visitor?, he] at hv
        exact Or.inl hv
      · obtain hv | ⟨vis, rfl, rfl⟩ := server_step_arrival hstep hv
        · exact Or.inl hv
        · exact Or.inr rfl
  | node n =>
      obtain he | ⟨_, _, rfl, hstep⟩ := step_node n hs
      · rw [visitor?, he] at hv
        exact Or.inl hv
      · obtain hv | rfl := Node.node_step_arrival hstep hv
        · exact Or.inl hv
        · exact Or.inr rfl

theorem Label.uuid_of_arrival (hl : l.arrival? = some (h, v, x)) : l.uuid? = some x.connId := by
  unfold Label.arrival? at hl
  split at hl <;> cases hl <;> rfl

theorem visitor_born (hr : (world d).Run ls w) (hv : w.visitor? h v = some x) :
    x.connId ∈ births ls := by
  refine Lts.Run.induct (L := world d)
    (P := fun ls w => ∀ h v x, w.visitor? h v = some x → x.connId ∈ births ls) ?_ ?_ hr h v x hv
  · intro h v x hv
    cases h with
    | server => cases hv
    | node n =>
        change (if v = 0 then _ else _ : Node.NodeTask).visitor? = some x at hv
        split at hv <;> cases hv
  · rintro ls w l w' - ih hs h v x hv
    rw [births_snoc, List.mem_append, Option.mem_toList]
    obtain hv | hl := step_arrival hs hv
    · exact Or.inl (ih h v x hv)
    · exact Or.inr (Label.uuid_of_arrival hl)

/-- Where the generated ids are distinct, visitors of one `conn_id` are the same
    visitor, at the same host. -/
theorem visitor_unique (hr : (world d).Run ls w) (hids : (births ls).Nodup) {h' : Host} {v' : Tid}
    {x' : VisitorConn} (hv : w.visitor? h v = some x) (hv' : w.visitor? h' v' = some x')
    (hid : x.connId = x'.connId) : h = h' ∧ v = v' := by
  refine Lts.Run.induct (L := world d) (P := fun ls w => (births ls).Nodup → ∀ h v x h' v' x',
    w.visitor? h v = some x → w.visitor? h' v' = some x' → x.connId = x'.connId →
      h = h' ∧ v = v') ?_ ?_ hr hids h v x h' v' x' hv hv' hid
  · intro _ h v x _ _ _ hv
    have hstart : (world d).Run [] (world d).init := rfl
    exact absurd (visitor_born hstart hv) List.not_mem_nil
  · intro ls w l w' hr ih hs hids h v x h' v' x' hv hv' hid
    rw [births_snoc, List.nodup_append] at hids
    obtain ⟨hids, -, hfresh⟩ := hids
    -- a visitor that has just come has a `conn_id` that nobody had before
    have hnew : ∀ {h v x h' v' x'}, l.arrival? = some (h, v, x) → w.visitor? h' v' = some x' →
        x.connId ≠ x'.connId := by
      intro h v x h' v' x' hl hv' hid
      have hborn := visitor_born hr hv'
      rw [← hid] at hborn
      exact hfresh _ hborn _ (Option.mem_toList.mpr (Label.uuid_of_arrival hl)) rfl
    obtain hv | hl := step_arrival hs hv <;> obtain hv' | hl' := step_arrival hs hv'
    · exact ih hids h v x h' v' x' hv hv' hid
    · exact absurd hid.symm (hnew hl' hv)
    · exact absurd hid (hnew hl hv')
    · rw [hl] at hl'
      cases hl'
      exact ⟨rfl, rfl⟩

theorem uuids_sublist (ls : List Label) :
    (uuids (ls.filterMap Label.server?)).Sublist (births ls) := by
  induction ls with
  | nil => exact List.Sublist.refl _
  | cons l ls ih =>
      cases l with
      | server t op =>
          change (uuids ((t, op) :: ls.filterMap Label.server?)).Sublist
            ((Label.server t op :: ls).filterMap Label.uuid?)
          cases hop : op.uuid? with
          | none => simpa [uuids, births, Label.uuid?, hop] using ih
          | some id => simpa [uuids, births, Label.uuid?, hop] using ih
      | node n t op =>
          change (uuids (ls.filterMap Label.server?)).Sublist
            ((Label.node n t op :: ls).filterMap Label.uuid?)
          cases hop : Label.uuid? (.node n t op) with
          | none => simpa [births, hop] using ih
          | some id => simpa [births, hop] using ih.cons id
      | _ => exact ih

/-! ## Splices -/

theorem exclusive (hr : (world d).Run ls w) (h : Host) : (w.rendezvous h).Exclusive := by
  cases h with
  | server => exact (visitorInv (server_projection.run hr)).exclusive
  | node n => exact (Node.visitorInv ((node_projection n).run hr)).exclusive

/-- Nobody but a party takes a visitor's sender. -/
theorem step_taken (hr : (world d).Run ls w) (hs : (world d).step w l = some w')
    (hok : w.StrangersMiss l) (ht : (w'.rendezvous h).Taken v s) :
    (w.rendezvous h).Taken v s ∨ (w.peer h s).isSome = true := by
  cases h with
  | server =>
      obtain he | ⟨_, _, rfl, hstep⟩ := step_server hs
      · rw [rendezvous, he] at ht
        exact Or.inl ht
      · obtain ht | ⟨rfl, id, hk, rfl⟩ := taken_step (server_projection.run hr) hstep ht
        · exact Or.inl ht
        · exact Or.inr (hok (by rw [hk]; rfl))
  | node n =>
      obtain he | ⟨_, _, rfl, hstep⟩ := step_node n hs
      · rw [rendezvous, he] at ht
        exact Or.inl ht
      · obtain ht | ⟨rfl, id, hk, rfl⟩ := Node.taken_step ((node_projection n).run hr) hstep ht
        · exact Or.inl ht
        · exact Or.inr (hok (by rw [hk]; rfl))

theorem taken_party (hr : (world d).Run ls w) (hok : (world d).Along StrangersMiss ls)
    (ht : (w.rendezvous h).Taken v s) : ∃ party, w.peer h s = some party := by
  refine Lts.Run.induct_along (L := world d) (P := fun _ w => ∀ h v s,
    (w.rendezvous h).Taken v s → ∃ party, w.peer h s = some party) ?_ ?_ hr hok h v s ht
  · intro h v s ht
    have hstart : (world d).Run [] (world d).init := rfl
    obtain ⟨id, -, hlook⟩ := (exclusive hstart h).taken v s ht
    cases h with
    | server => cases hlook
    | node n =>
        change (if s = 0 then _ else _ : Node.NodeTask).call.looked? = some id at hlook
        split at hlook <;> cases hlook
  · intro ls w l w' hr ih hok hs h v s ht
    obtain ht | hp := step_taken hr hs hok ht
    · obtain ⟨party, hp⟩ := ih h v s ht
      exact ⟨party, step_peer hs hp⟩
    · obtain ⟨party, hp⟩ := Option.isSome_iff_exists.mp hp
      exact ⟨party, step_peer hs hp⟩

theorem spliced_visitor (hr : (world d).Run ls w) (hs : w.Spliced h v s) :
    ∃ x, w.visitor? h v = some x ∧ ((w.rendezvous h).socket s).named? = some x.connId := by
  obtain ⟨id, hmet⟩ := hs
  obtain ⟨id', hoff, hlook⟩ := (exclusive hr h).taken v s (.met hmet)
  have hx : ∃ x, w.visitor? h v = some x ∧ x.connId = id' := by
    cases h with
    | server => exact ServerTask.visits_of_offered hoff
    | node n => exact Node.NodeTask.visits_of_offered hoff
  obtain ⟨x, hx, rfl⟩ := hx
  exact ⟨x, hx, Calling.named_of_looked hlook⟩

/-- No visitor is delivered to another tenant.  Where the generated ids are distinct
    and strangers find no entry of `pending`, a visitor that has been spliced is
    spliced to a connection that was opened for its own `conn_id` by the process
    whose `Register` created its tunnel, and that process dials the port of that
    `Register` for it. -/
theorem no_cross_delivery (hr : (world d).Run ls w) (hids : (births ls).Nodup)
    (hok : (world d).Along StrangersMiss ls) (hs : w.Spliced h v s) :
    ∃ x t p a r k ctx, w.visitor? h v = some x ∧
      w.server.Serves t x.tunnelId ∧ (∀ u, w.server.Serves u x.tunnelId → u = t) ∧
      w.peer .server t = some (.cli p a) ∧ (w.server.task t).cli? = some r ∧
      w.peer h s = some (.data p k) ∧ ((w.cli p).task k).data? = some ctx ∧
      ctx.connId = x.connId ∧ ctx.localPort = r.localPort ∧
      ∀ port ok, .cli p k (.dialLocal port ok) ∈ ls → port = r.localPort := by
  have hi := told hr
  obtain ⟨x, hx, hnamed⟩ := spliced_visitor hr hs
  obtain ⟨id, hmet⟩ := hs
  -- the connection is a party's, which was told of the `conn_id` it named
  obtain ⟨party, hparty⟩ := taken_party hr hok (.met hmet)
  obtain ⟨p, k, ctx, rfl, hdata, hconn⟩ := hi.named h s _ _ hnamed hparty
  have htold : ((w.cli p).task k).told? = some x.connId := by
    rw [← hconn]
    generalize (w.cli p).task k = task at hdata ⊢
    cases task with
    | data ctx' pc =>
        cases hdata
        rfl
    | _ => cases hdata
  -- what it was told is about this visitor
  obtain ⟨h', v', x', t, hx', hid, ⟨a, hpeer⟩, hserves⟩ := hi.owed p k _ htold
  obtain ⟨rfl, rfl⟩ := visitor_unique hr hids hx' hx hid
  obtain rfl : x' = x := Option.some.inj (hx'.symm.trans hx)
  obtain ⟨tunnel, htunnel, hserved⟩ := hserves
  obtain ⟨r, hreg⟩ : ∃ r, (w.server.task t).cli? = some r := by
    generalize w.server.task t = task at htunnel ⊢
    cases task with
    | cli r pc => exact ⟨r, rfl⟩
    | _ => cases htunnel
  obtain ⟨p', a', hpeer', hport⟩ := hi.register t r hreg
  rw [hpeer] at hpeer'
  cases hpeer'
  have hrun := (cli_projection p).run hr
  have hlocal := Cli.data_localPort hrun hdata
  refine ⟨x', t, p, a, r, k, ctx, hx', ⟨tunnel, htunnel, hserved⟩, ?_, hpeer, hreg, hparty, hdata,
    hconn, hlocal.trans hport.symm, ?_⟩
  · rintro u ⟨tunnel', htunnel', hserved'⟩
    exact ctx_unique (server_projection.run hr) (hids.sublist (uuids_sublist ls)) htunnel' htunnel
      (hserved'.trans hserved.symm)
  · intro port ok hop
    have hmem : (k, .dialLocal port ok) ∈ ls.filterMap (Label.cli? p) :=
      List.mem_filterMap.mpr ⟨_, hop, if_pos rfl⟩
    obtain ⟨ctx', hdata', rfl⟩ := Cli.dialLocal_data hrun hmem
    rw [hdata] at hdata'
    cases hdata'
    exact hlocal.trans hport.symm

/-! ## A visitor of a node -/

/-- Steps of the server. -/
def onServer (ls : List (Tid × Op)) : List Label :=
  ls.map fun a => .server a.1 a.2

/-- Steps of node `n`. -/
def onNode (n : Nat) (ls : List (Tid × Node.Op)) : List Label :=
  ls.map fun a => .node n a.1 a.2

/-- The node registers. -/
def nodeJoins : List Label :=
  [.node 0 0 (.connect true), .accept .server 2 (.node 0 0), .node 0 0 (.sendRegister true)] ++
  onServer (nodeVisible ++ nodeAnswered) ++
  [.node 0 0 (.readVerdict (some (some (.nodeRegistered ⟨"n"⟩))))]

/-- The process has its tunnel opened at the node. -/
def tunnelRouted : List Label :=
  registers 0 1 ++ onServer (cliOrdered.tail ++ cliExposed ++ cliAnswered) ++
  [.cli 0 0 (.readLine (some (some (ServeCliViaNode.registeredMsg ⟨"t", 7000⟩ fra))))] ++
  onNode 0 (Node.tunnelOpened.drop 3)

/-- A visitor comes to the node, and the process connects. -/
def visitorConnected : List Label :=
  onNode 0 (Node.visitorAccepted ++ Node.reportedInParts) ++ onServer visitorForwarded ++
  [.cli 0 0 (.readLine (some (some (.newConn ⟨"c", some "10.0.0.9", some 7001⟩)))),
   .cli 0 0 (.spawn 1 ⟨"example.org:7000", "c", 3000, some ("10.0.0.9", 7001)⟩),
   .cli 0 1 (.dial (.node "10.0.0.9" 7001) true), .accept (.node 0) 3 (.data 0 1),
   .cli 0 1 (.announce (.dataConn ⟨"c"⟩) true)] ++
  onNode 0 (Node.dataConnected ++ [(3, .deliver 2 true), (2, .received 3)]) ++
  [.cli 0 1 (.dialLocal 3000 true)]

theorem no_cross_delivery_viaNode :
    ∃ w, (world oneProcess).Run (nodeJoins ++ tunnelRouted ++ visitorConnected) w ∧
      ∃ x p k ctx, w.visitor? (.node 0) 2 = some x ∧ w.peer (.node 0) 3 = some (.data p k) ∧
        ((w.cli p).task k).data? = some ctx ∧ ctx.connId = x.connId := by
  obtain ⟨w, hr, hs⟩ :
      ∃ w, (world oneProcess).Run (nodeJoins ++ tunnelRouted ++ visitorConnected) w ∧
      w.Spliced (.node 0) 2 3 := ⟨_, rfl, "c", rfl⟩
  obtain ⟨x, _, p, _, _, k, ctx, hx, -, -, -, -, hp, hk, hid, -⟩ :=
    no_cross_delivery hr (by decide) (by decide) hs
  exact ⟨w, hr, x, p, k, ctx, hx, hp, hk, hid⟩

end Runs

end World

end Borehole
