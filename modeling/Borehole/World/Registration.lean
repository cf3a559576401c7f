/-
  Borehole.World.Registration

  What a process is told of its tunnel is so.

  The `Registered` that a process reads was written by the one session that the
  server has for the control connection of that attempt.  The session has the
  `Register` of the process, and the port that it has written is its own.
-/

import Borehole.Server.Grants
import Borehole.World.Directions

namespace Borehole

open Conc

namespace Cli

/-- Attempt `a` may still open its control connection. -/
def CliTask.before (a : Nat) : CliTask → Bool
  | .main (.running n .load) | .main (.running n (.connect _)) => decide (n ≤ a)
  | .main (.running n _) | .main (.backoff n) => decide (n < a)
  | _ => false

/-- A `Register` with the arguments of the start command. -/
def Asks (start : Start) (r : Register) : Prop :=
  r.protocol = start.protocol ∧ r.localPort = start.localPort ∧ r.remotePort = start.remotePort ∧
    r.node = start.node

section Steps

variable {start : Start} {k k' : CliTask} {op : Op} {a : Nat}

theorem RunTunnelLoop.before_resume {n : Nat} (hn : ¬n < a) :
    CliTask.before a (.main (resume n .err)) = false := by
  rw [resume]
  split
  · exact decide_eq_false hn
  · rfl

/-- An attempt that has had its connection does not come back to it. -/
theorem CliTask.Step.before (h : Step start k op k') (hk : k.before a = false) :
    k'.before a = false := by
  cases h with
  | data => rfl
  | main h =>
      cases h with
      | @again n =>
          have hn : ¬n < a := of_decide_eq_false hk
          exact decide_eq_false (by omega)
      | @run n pc _ o h =>
          cases h with
          | ctrlC => rfl
          | loaded => exact hk
          | unconfigured | unreachable =>
              have hn : ¬n ≤ a := of_decide_eq_false hk
              exact RunTunnelLoop.before_resume (by omega)
          | connected =>
              have hn : ¬n ≤ a := of_decide_eq_false hk
              exact decide_eq_false (by omega)
          | insecure | registerFailed | rejected | disconnected =>
              exact RunTunnelLoop.before_resume (of_decide_eq_false hk)
          | _ => exact hk

/-- An attempt opens its connection once. -/
theorem CliTask.Step.dials {pc : Run.Pc} {addr : String}
    (h : Step start (.main (.running a pc)) (.connect addr true) k') :
    (CliTask.main (.running a pc)).before a = true ∧ k'.before a = false := by
  cases h with
  | main h =>
      cases h with
      | run h =>
          cases h
          exact ⟨decide_eq_true (Nat.le_refl a), decide_eq_false (Nat.lt_irrefl a)⟩

/-- What a process registers with is what it was started with. -/
theorem CliTask.Step.asks {r : Register} {ok : Bool} (h : Step start k (.sendRegister r ok) k') :
    Asks start r := by
  cases h with
  | main h =>
      cases h with
      | run h => cases h <;> exact ⟨rfl, rfl, rfl, rfl⟩
  | data h => cases h

end Steps

end Cli

namespace World

section Runs

variable {d : Setup} {w w' : World} {l : Label} {ls : List Label} {t u : Tid} {p a : Nat}
  {party : Party}

/-! ## One connection for each attempt -/

/-- The control connection of an attempt, from when it is opened. -/
structure Single (w : World) (p a : Nat) : Prop where
  /-- An attempt that has not opened it has none. -/
  fresh : ((w.cli p).task 0).before a = true →
    w.net.waiting (.cli p a) = false ∧ ∀ x ∈ w.conns, x.party ≠ .cli p a
  /-- What waits has not been accepted. -/
  waiting : w.net.waiting (.cli p a) = true → ∀ x ∈ w.conns, x.party ≠ .cli p a
  /-- It is accepted once. -/
  unique : ∀ x ∈ w.conns, ∀ y ∈ w.conns, x.party = .cli p a → y.party = .cli p a → x = y

theorem act_dial (h : act d w l = .dial party) (hp : party = .cli p a) :
    ∃ k addr pc, l = .cli p k (.connect addr true) ∧ (w.cli p).task k = .main (.running a pc) := by
  subst hp
  have hact := act_acts d w l
  rw [h] at hact
  cases hact with
  | server h => cases h
  | node h => cases h
  | cli h =>
      cases h with
      | dial hk => exact ⟨_, _, _, rfl, hk⟩

theorem before_step (hs : (world d).step w l = some w')
    (hk : ((w.cli p).task 0).before a = false) : ((w'.cli p).task 0).before a = false := by
  obtain he | ⟨k, op, rfl, hstep⟩ := step_cli p hs
  · rw [he]
    exact hk
  · by_cases hk0 : 0 = k
    · subst hk0
      exact (Cli.cli_step_self hstep).before hk
    · obtain he | ⟨ctx, _, _, he⟩ := Cli.cli_step_other hstep hk0
      · rw [he]
        exact hk
      · rw [he]
        rfl

theorem Single.step (hr : (world d).Run ls w) (hi : Single w p a)
    (hs : (world d).step w l = some w') : Single w' p a := by
  have hnet := step_net hs
  have hbefore : ((w'.cli p).task 0).before a = true → ((w.cli p).task 0).before a = true := by
    intro h
    by_contra hn
    rw [before_step hs (Bool.eq_false_iff.mpr hn)] at h
    cases h
  -- the connection is opened by this step, or it waits since before
  have hdial : w'.net.waiting (.cli p a) = true → w.net.waiting (.cli p a) = true ∨
      (((w.cli p).task 0).before a = true ∧ ((w'.cli p).task 0).before a = false ∧
        w'.conns = w.conns) := by
    intro hw
    obtain hw | hact := Network.exec_waiting hnet hw
    · exact Or.inl hw
    · obtain ⟨k, addr, pc, rfl, hk⟩ := act_dial hact rfl
      have hplaced := Cli.placed ((cli_projection p).run hr) k
      rw [hk] at hplaced
      obtain ⟨rfl, -⟩ := hplaced
      have hself := Cli.cli_step_self ((cli_projection p).own hs (if_pos rfl))
      rw [hk] at hself
      obtain ⟨hb, hb'⟩ := hself.dials
      refine Or.inr ⟨by rw [hk]; exact hb, hb', ?_⟩
      cases world_step hs with
      | cli => rfl
  cases world_step hs with
  | @accept h t party net hn hf =>
      have hwait := Network.exec_accept hnet
      refine ⟨?_, ?_, ?_⟩
      · intro hb
        obtain ⟨hw, hc⟩ := hi.fresh (hbefore hb)
        have hne : party ≠ .cli p a := by
          rintro rfl
          rw [hw] at hwait
          cases hwait
        refine ⟨?_, List.forall_mem_cons.mpr ⟨hne, hc⟩⟩
        by_contra hw'
        obtain hw' | hact := Network.exec_waiting hnet (Bool.eq_true_of_not_eq_false hw')
        · rw [hw] at hw'
          cases hw'
        · cases hact
      · intro hw'
        obtain hw | ⟨-, -, hconns⟩ := hdial hw'
        · have hne : party ≠ .cli p a := by
            rintro rfl
            simp only [act, Network.exec, Option.ite_none_right_eq_some, Option.some.injEq] at hnet
            rw [← hnet.2] at hw'
            simp at hw'
          exact List.forall_mem_cons.mpr ⟨hne, hi.waiting hw⟩
        · exact absurd hconns (List.cons_ne_self _ _)
      · intro x hx y hy hxp hyp
        -- two of them would have waited with one accepted
        have hnew : ∀ z ∈ w.conns, party = .cli p a → z.party ≠ .cli p a := by
          intro z hz hp
          rw [hp] at hwait
          exact hi.waiting hwait z hz
        obtain rfl | hx := List.mem_cons.mp hx <;> obtain rfl | hy := List.mem_cons.mp hy
        · rfl
        · exact absurd hyp (hnew y hy hxp)
        · exact absurd hxp (hnew x hx hyp)
        · exact hi.unique x hx y hy hxp hyp
  | _ =>
      refine ⟨?_, ?_, hi.unique⟩
      · intro hb
        obtain ⟨hw, hc⟩ := hi.fresh (hbefore hb)
        refine ⟨?_, hc⟩
        by_contra hw'
        obtain hw' | ⟨-, hb', -⟩ := hdial (Bool.eq_true_of_not_eq_false hw')
        · rw [hw] at hw'
          cases hw'
        · rw [hb] at hb'
          cases hb'
      · intro hw'
        obtain hw | ⟨hb, -, -⟩ := hdial hw'
        · exact hi.waiting hw
        · exact (hi.fresh hb).2

theorem single (hr : (world d).Run ls w) (p a : Nat) : Single w p a := by
  refine Lts.Run.induct (L := world d) (P := fun _ w => Single w p a) ?_ ?_ hr
  · exact ⟨fun _ => ⟨rfl, nofun⟩, nofun, nofun⟩
  · exact fun _ _ _ _ hr hi hs => hi.step hr hs

/-- The server has one task at most for the control connection of an attempt. -/
theorem attempt_task (hr : (world d).Run ls w) (ht : w.peer .server t = some (.cli p a))
    (hu : w.peer .server u = some (.cli p a)) : t = u := by
  have he := (single hr p a).unique _ (peer_mem ht) _ (peer_mem hu) rfl rfl
  cases he
  rfl

/-! ## Who registers -/

theorem register_said {r : Register} (hr : (world d).Run ls w)
    (hm : .register r ∈ w.net.stream (.up party)) :
    ∃ p a, party = .cli p a ∧ Cli.Asks (d.cli p) r := by
  obtain ⟨p, a, rfl, -⟩ := ((told hr).stream _ _ hm).register
  have hway := stream_induct (d := d) (P := fun _ _ way m => ∀ p a r, way = .up (.cli p a) →
    m = .register r → Cli.Asks (d.cli p) r) (fun _ _ _ _ _ _ _ h => h) ?_ hr hm
  · exact ⟨p, a, rfl, hway p a r rfl rfl⟩
  · rintro ls w l w' way m hr hs hact p a r rfl rfl
    obtain ⟨k, r', ok, pc, rfl, hk⟩ := act_put hact
    have hself := Cli.cli_step_self ((cli_projection p).own hs (if_pos rfl))
    change cliAct p k ((w.cli p).task k) _ = _ at hact
    rw [hk] at hact
    cases hact
    exact hself.asks

/-- A CLI session has the `Register` of the process at the other end. -/
theorem session_cli {r : Register} (hr : (world d).Run ls w)
    (hk : (w.server.task t).cli? = some r) :
    ∃ p a, w.peer .server t = some (.cli p a) ∧ Cli.Asks (d.cli p) r := by
  refine Lts.Run.induct (L := world d) (P := fun _ w => ∀ t r, (w.server.task t).cli? = some r →
    ∃ p a, w.peer .server t = some (.cli p a) ∧ Cli.Asks (d.cli p) r) ?_ ?_ hr t r hk
  · intro t r hk
    cases hk
  · intro ls w l w' hr ih hs t r hk
    have hold : (w.server.task t).cli? = some r →
        ∃ p a, w'.peer .server t = some (.cli p a) ∧ Cli.Asks (d.cli p) r := by
      intro hk
      obtain ⟨p, a, hp, hasks⟩ := ih t r hk
      exact ⟨p, a, step_peer hs hp, hasks⟩
    have hnet := step_net hs
    cases world_step hs with
    | @server u op c net hadmits hstep =>
        by_cases htu : t = u
        · subst htu
          obtain hk | ⟨peer, rfl⟩ := (server_step_self hstep).registered hk
          · exact hold hk
          · change (w.peer .server t).any Party.control = true at hadmits
            obtain ⟨party, hp, -⟩ := (Option.any_eq_true _ _).mp hadmits
            change w.net.exec (receive (w.peer .server t) _) = _ at hnet
            rw [hp] at hnet
            obtain ⟨p, a, rfl, hasks⟩ := register_said hr (Network.exec_get hnet)
            exact ⟨p, a, hp, hasks⟩
        · have he := server_step_attr (f := ServerTask.cli?) (fun _ _ => rfl) hstep htu
          exact hold (he.symm.trans hk)
    | _ => exact hold hk

/-! ## What a process is told -/

/-- Process `p` has read the message off the control connection of attempt `a`. -/
def Hears (d : Setup) (ls : List Label) (p a : Nat) (m : Message) : Prop :=
  ∃ pre post w pc, ls = pre ++ .cli p 0 (.readLine (some (some m))) :: post ∧
    (world d).Run pre w ∧ (w.cli p).task 0 = .main (.running a pc)

/-- Where the public port of a tunnel is: bound by the server, or ordered from the
    node that can be reached where `m` says. -/
def Placed (d : Setup) (ls : List Label) (w : World) (t : Tid) (tunnelId : String)
    (m : Registered) : Prop :=
  (.server t (.bind m.remotePort true) ∈ ls ∧ m.nodeHost = none ∧ m.nodePort = none) ∨
  ∃ n s v op host port, m.nodeHost = some host ∧ m.nodePort = some port ∧
    Reaches d ls w (.node n) (some (host, port)) ∧ w.peer .server v = some (.node n s) ∧
    .server t op ∈ ls ∧ op.frame? = some (v, .openTunnel ⟨tunnelId, m.remotePort⟩, true)

/-- Session `t` has the tunnel that attempt `a` of process `p` is told of. -/
structure Holds (d : Setup) (ls : List Label) (w : World) (p a : Nat) (m : Registered)
    (t : Tid) (r : Register) (tunnelId : String) : Prop where
  peer : w.peer .server t = some (.cli p a)
  register : (w.server.task t).cli? = some r
  asks : Cli.Asks (d.cli p) r
  tunnel : (w.server.task t).ctx? = some ⟨tunnelId, m.remotePort⟩
  range : m.remotePort ∈ d.server.ports
  granted : ∀ port, (d.cli p).remotePort = some port → m.remotePort = port
  placed : Placed d ls w t tunnelId m

theorem Placed.step {id : String} {m : Registered} (hp : Placed d ls w t id m)
    (hs : (world d).step w l = some w') : Placed d (ls ++ [l]) w' t id m := by
  obtain ⟨hbind, hnode⟩ | ⟨n, s, v, op, host, port, hhost, hport, hreach, hpeer, hop, hf⟩ := hp
  · exact Or.inl ⟨List.mem_append_left _ hbind, hnode⟩
  · exact Or.inr ⟨n, s, v, op, host, port, hhost, hport, hreach.step hs, step_peer hs hpeer,
      List.mem_append_left _ hop, hf⟩

theorem Holds.step {id : String} {m : Registered} {r : Register} (hi : Holds d ls w p a m t r id)
    (hs : (world d).step w l = some w') : Holds d (ls ++ [l]) w' p a m t r id where
  peer := step_peer hs hi.peer
  register := by
    obtain he | ⟨_, _, _, hstep⟩ := step_server hs
    · rw [he]
      exact hi.register
    · exact server_step_cli hstep hi.register
  asks := hi.asks
  tunnel := by
    obtain he | ⟨u, op, _, hstep⟩ := step_server hs
    · rw [he]
      exact hi.tunnel
    · exact server_step_keeps_ctx hstep hi.tunnel
  range := hi.range
  granted := hi.granted
  placed := hi.placed.step hs

/-- What is written on the stream of a process is so. -/
theorem registered_said {m : Registered} (hr : (world d).Run ls w)
    (hm : .registered m ∈ w.net.stream (.down (.cli p a))) :
    ∃ t r id, Holds d ls w p a m t r id := by
  have hway := stream_induct (d := d) (P := fun ls w way msg => ∀ p a m,
    way = .down (.cli p a) → msg = .registered m → ∃ t r id, Holds d ls w p a m t r id) ?_ ?_ hr hm
  · exact hway p a m rfl rfl
  · intro ls w l w' way msg hs ih p a m hway hmsg
    obtain ⟨t, r, id, hi⟩ := ih p a m hway hmsg
    exact ⟨t, r, id, hi.step hs⟩
  · rintro ls w l w' way msg hr hs hact p a m rfl rfl
    obtain ⟨t, op, u, ok, rfl, hf, hp⟩ := act_put_down hact
    have hrun := server_projection.run hr
    have hself := server_step_self (server_projection.own hs rfl)
    obtain ⟨rfl, ctx, hctx, hport, hplace⟩ := ServerTask.frame_registered (hself.frame hf)
    obtain ⟨r, hreg⟩ : ∃ r, (w.server.task u).cli? = some r := by
      generalize w.server.task u = k at hctx ⊢
      cases k with
      | cli r pc => exact ⟨r, rfl⟩
      | _ => cases hctx
    obtain ⟨p', a', hp', hasks⟩ := session_cli hr hreg
    rw [hp] at hp'
    cases hp'
    obtain ⟨hrange, hgranted⟩ := Borehole.granted hrun hreg (ServerTask.assigned_of_ctx hctx)
    rw [← hport] at hrange hgranted
    refine ⟨u, r, ctx.tunnelId, hp, hreg, hasks, ?_, hrange, ?_, ?_⟩
    · rw [hctx, hport]
    · intro port hask
      exact hgranted port (hasks.2.2.1.trans hask)
    · obtain ⟨hlistens, hnode⟩ | ⟨info, hrouted, hopened, hhost, hend⟩ := hplace
      · rw [← hport] at hlistens
        exact Or.inl ⟨server_label (bound_of_listening hrun hlistens), hnode⟩
      · obtain ⟨op', hop, hord⟩ := ordered_of_opened hrun hopened
        obtain ⟨n, s, hpeer, hreach⟩ := picked_reaches hr (picked_of_routed hrun hrouted)
        rw [← hport] at hord
        exact Or.inr ⟨n, s, info.tx, op', info.host, info.dataPort, hhost, hend, hreach, hpeer,
          server_label hop, hord⟩

/-- What a process has been told of its tunnel is so.  After every run in which it
    has read `Registered` in some attempt, the server has exactly one session for
    the control connection of that attempt; this session has the arguments of the
    start command and the tunnel at the port that was told, which is the one asked
    for, if one was; that port was bound by the server, or ordered from the node at
    the address that was told; and as long as the session has not released it,
    nobody else has it and every row of the dashboard at that port is this tunnel. -/
theorem registered_holds {m : Registered} (hr : (world d).Run ls w)
    (hh : Hears d ls p a (.registered m)) :
    ∃ t r id, Holds d ls w p a m t r id ∧
      (∀ u, w.peer .server u = some (.cli p a) → u = t) ∧
      ((w.server.task t).port?.isSome = true →
        (∀ u, (w.server.task u).port? = some m.remotePort → u = t) ∧
        ∀ id' e, w.server.shared.activeTunnels.lookup id' = some e → e.remotePort = m.remotePort →
          id' = id ∧ e.close = t ∧ e.localPort = (d.cli p).localPort ∧
            e.protocol = (d.cli p).protocol) := by
  obtain ⟨pre, post, w₀, pc, rfl, hr₀, hk⟩ := hh
  obtain ⟨w₁, hr₁, hfrom⟩ := Lts.run_append.mp hr
  obtain rfl := hr₁.functional hr₀
  -- the message was under way to this attempt, and stays true
  obtain ⟨t, r, id, hi⟩ : ∃ t r id,
      Holds d (pre ++ .cli p 0 (.readLine (some (some (.registered m)))) :: post) w p a m t r
        id := by
    obtain ⟨w₂, hs, -⟩ := Option.bind_eq_some_iff.mp hfrom
    have hnet := step_net hs
    change w₁.net.exec (cliAct p 0 ((w₁.cli p).task 0) _) = _ at hnet
    rw [hk] at hnet
    obtain ⟨t, r, id, hi⟩ := registered_said hr₁ (Network.exec_get hnet)
    refine ⟨t, r, id, ?_⟩
    refine Lts.runFrom_induct (L := world d) (P := fun ls w => Holds d (pre ++ ls) w p a m t r id)
      ?_ ?_ hfrom
    · rw [List.append_nil]
      exact hi
    · intro ls s₁ l s₂ _ hi hs
      rw [← List.append_assoc]
      exact hi.step hs
  have hrun := server_projection.run hr
  refine ⟨t, r, id, hi, fun u hu => attempt_task hr hu hi.peer, ?_⟩
  intro hheld
  have hport : (w.server.task t).port? = some m.remotePort :=
    ServerTask.port_of_held hi.tunnel hheld
  refine ⟨fun u hu => (portInv hrun).unique u t _ hu hport, ?_⟩
  intro id' e hl he
  have htunnel := tunnelInv hrun id' e hl
  have hclose := (portInv hrun).unique e.close t _
    ((ServerTask.port?_of_tunnel? htunnel).trans (congrArg some he)) hport
  obtain ⟨r', hreg, hshows⟩ := entry_shows hrun hl
  rw [hclose] at htunnel hreg
  have hctx := ServerTask.ctx_of_tunnel htunnel
  rw [hi.tunnel] at hctx
  rw [hi.register] at hreg
  have hid : id' = id := (congrArg TunnelCtx.tunnelId (Option.some.inj hctx)).symm
  cases hreg
  exact ⟨hid, hclose, hshows.2.1.trans hi.asks.2.1, hshows.1.trans hi.asks.1⟩

/-- The process is told of the node at which its tunnel has been opened. -/
theorem registered_holds_viaNode :
    ∃ w, (world oneProcess).Run (nodeJoins ++ tunnelRouted) w ∧ ∃ t r id,
      Holds oneProcess (nodeJoins ++ tunnelRouted) w 0 0 ⟨7000, some "10.0.0.9", some 7001⟩ t r
        id := by
  obtain ⟨w, hr⟩ : ∃ w, (world oneProcess).Run (nodeJoins ++ tunnelRouted) w := ⟨_, rfl⟩
  have hh : Hears oneProcess (nodeJoins ++ tunnelRouted) 0 0
      (.registered ⟨7000, some "10.0.0.9", some 7001⟩) :=
    ⟨nodeJoins ++ (registers 0 1 ++ onServer (cliOrdered.tail ++ cliExposed ++ cliAnswered)),
      onNode 0 (Node.tunnelOpened.drop 3), _, .verdict ⟨"example.org:7000", "secret"⟩, rfl,
        rfl, rfl⟩
  obtain ⟨t, r, id, hi, -⟩ := registered_holds hr hh
  exact ⟨w, hr, t, r, id, hi⟩

end Runs

end World

end Borehole
