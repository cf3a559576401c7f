/-
  Borehole.World.Reconnect

  A tunnel that is closed from the dashboard, and the process whose tunnel it was.

  The server ends the session of a closed tunnel by dropping its control stream.
  The process takes the end of that stream for a lost connection and, as long as
  it has retries left, comes back with a new `Register`.  It stays away exactly
  where it does not get to retry: after its third retry, or when it is ended
  before it reads the end of the stream.
-/

import Borehole.Cli.Steps
import Borehole.Server.Refusals
import Borehole.World.Control

namespace Borehole

open Conc

/-! ## The process -/

namespace Cli

/-- The process waits on a control connection that its `Register` has been written
    to, or it has ended. -/
def CliTask.waits : CliTask → Bool
  | .main (.running _ (.verdict _)) | .main (.running _ (.serve _))
  | .main (.running _ (.spawn _ _)) | .main (.exited _) => true
  | _ => false

/-- The operations at which an attempt fails and another one follows. -/
def CliTask.retries : CliTask → Op → Bool
  | .main (.running _ (.verdict _)), .readLine (some (some (.registered _))) => false
  | .main (.running a (.verdict _)), .readLine _ => a < 3
  | .main (.running a (.serve _)), .readLine none => a < 3
  | _, _ => false

/-- The loop runs in task 0 alone, for four attempts at most. -/
def CliTask.Placed (t : Tid) : CliTask → Prop
  | .main (.running a _) => t = 0 ∧ a ≤ 3
  | .main (.backoff a) => t = 0 ∧ a < 3
  | .main (.exited _) => t = 0
  | _ => True

section Steps

variable {start : Start} {k k' : CliTask} {op : Op} {t : Tid}

theorem RunTunnelLoop.waits_resume {a : Nat} (ha : ¬a < 3) :
    CliTask.waits (.main (resume a .err)) = true := by
  rw [resume, if_neg ha]
  rfl

/-- A process that waits and does not retry goes on waiting, and writes no
    `Register`. -/
theorem CliTask.Step.waits (h : CliTask.Step start k op k') (hk : k.waits = true)
    (hretry : k.retries op = false) : k'.waits = true ∧ ∀ r ok, op ≠ .sendRegister r ok := by
  cases h with
  | data => cases hk
  | main h =>
      cases h with
      | again => cases hk
      | @run a _ _ _ h =>
          cases h with
          | registered | visitor | ignored | spawn | ctrlC => exact ⟨rfl, nofun⟩
          | disconnected =>
              have ha : ¬a < 3 := of_decide_eq_false hretry
              exact ⟨RunTunnelLoop.waits_resume ha, nofun⟩
          | @rejected cfg line hline =>
              have ha : ¬a < 3 := by
                rcases line with _ | _ | m
                · exact of_decide_eq_false hretry
                · exact of_decide_eq_false hretry
                · cases m with
                  | registered r => exact absurd rfl (hline r)
                  | _ => exact of_decide_eq_false hretry
              exact ⟨RunTunnelLoop.waits_resume ha, nofun⟩
          | _ => cases hk

theorem CliTask.Step.placed (h : CliTask.Step start k op k') (hk : k.Placed t) : k'.Placed t := by
  cases h with
  | data => trivial
  | main h =>
      cases h with
      | again => exact ⟨hk.1, hk.2⟩
      | @run a _ _ o h =>
          obtain ⟨ht, ha⟩ := hk
          cases o with
          | «at» pc => exact ⟨ht, ha⟩
          | ok => exact ht
          | err =>
              show CliTask.Placed t (.main (RunTunnelLoop.resume a .err))
              rw [RunTunnelLoop.resume]
              split
              · exact ⟨ht, ‹_›⟩
              · exact ht

theorem CliTask.Step.registers {r : Register} {ok : Bool}
    (h : CliTask.Step start k (.sendRegister r ok) k') : ∃ a pc, k = .main (.running a pc) := by
  cases h with
  | main h =>
      cases h with
      | run => exact ⟨_, _, rfl⟩
  | data h => cases h

theorem placed {ls : List (Tid × Op)} {c : Process} (hr : (cli start).Run ls c) (t : Tid) :
    (c.task t).Placed t := by
  refine Tasks.run_history (P := fun t _ k => CliTask.Placed t k) hr ?_ ?_ ?_ t
  · intro t
    change CliTask.Placed t (if t = 0 then _ else _)
    split
    · exact ⟨‹_›, Nat.zero_le 3⟩
    · trivial
  · intro t ops k op k' hk h
    exact (cliTask_step h).placed hk
  · intro t u ops k op k' hk _ h
    cases op with
    | spawn d ctx =>
        cases k with
        | idle => cases h; trivial
        | _ => cases h
    | _ => cases h

end Steps

end Cli

/-! ## Its sessions -/

/-- On the direct path, the session will not enter a tunnel in `active_tunnels` any more. -/
def ServeCliDirect.Pc.settled : ServeCliDirect.Pc → Bool
  | .bind | .registered | .startedAt | .record _ => false
  | _ => true

/-- Through a node, the session will not enter a tunnel in `active_tunnels` any more. -/
def ServeCliViaNode.Pc.settled : ServeCliViaNode.Pc → Bool
  | .lockNode | .openTunnel | .lockFallback | .startedAt | .record _ => false
  | .fallback pc => pc.settled
  | _ => true

/-- The session will not enter a tunnel in `active_tunnels` any more. -/
def HandleCli.Pc.settled : HandleCli.Pc → Bool
  | .validate | .deviceNow _ | .device _ _ | .acquire | .tunnelId _ | .pick _ => false
  | .direct _ pc => pc.settled
  | .viaNode _ _ pc => pc.settled
  | _ => true

/-- The task will not enter another tunnel in `active_tunnels`. -/
def ServerTask.settled : ServerTask → Bool
  | .cli _ pc => pc.settled
  | _ => true

/-- The operation makes a tunnel active. -/
def Op.activates : Op → Bool
  | .insertTunnel _ _ => true
  | _ => false

section Sessions

variable {tokens : List String} {t : Tid} {k k' : ServerTask} {op : Op} {s : SessionCtx}
  {ctx : TunnelCtx}

theorem ServeTunnel.Step.activates {pc : ServeTunnel.Pc} {f : Flow ServeTunnel.Pc}
    (h : ServeTunnel.Step s ctx pc op f) : op.activates = false := by
  cases h <;> rfl

theorem ServeCliDirect.Step.settled {pc : ServeCliDirect.Pc} {f : Flow ServeCliDirect.Pc}
    (h : ServeCliDirect.Step s ctx pc op f) (hpc : pc.settled = true) :
    op.activates = false ∧ ∀ pc', f = .at pc' → pc'.settled = true := by
  cases h with
  | rejected => exact ⟨rfl, nofun⟩
  | publish => exact ⟨rfl, fun _ h => by cases h; rfl⟩
  | serve h => exact ⟨h.activates, fun _ h => by cases h; rfl⟩
  | served h => exact ⟨h.activates, nofun⟩
  | _ => cases hpc

theorem ServeCliViaNode.Step.settled {node : NodeInfo} {pc : ServeCliViaNode.Pc}
    {f : Flow ServeCliViaNode.Pc} (h : ServeCliViaNode.Step s ctx node pc op f)
    (hpc : pc.settled = true) :
    op.activates = false ∧ ∀ pc', f = .at pc' → pc'.settled = true := by
  cases h with
  | fallback h =>
      obtain ⟨hop, hsettled⟩ := h.settled hpc
      exact ⟨hop, fun _ h => by cases h; exact hsettled _ rfl⟩
  | fellBack h => exact ⟨(h.settled hpc).1, fun _ h => by cases h; rfl⟩
  | lockNode | opened | unreachable | lockFallback | startedAt | record => cases hpc
  | unlockFallback | decrement => exact ⟨rfl, nofun⟩
  | _ => exact ⟨rfl, fun _ h => by cases h; rfl⟩

theorem HandleCli.Step.settled {pc pc' : HandleCli.Pc} (h : HandleCli.Step tokens s pc op pc')
    (hpc : pc.settled = true) : op.activates = false ∧ pc'.settled = true := by
  cases h with
  | direct h => exact ⟨(h.settled hpc).1, (h.settled hpc).2 _ rfl⟩
  | directRet h => exact ⟨(h.settled hpc).1, rfl⟩
  | viaNode h => exact ⟨(h.settled hpc).1, (h.settled hpc).2 _ rfl⟩
  | viaNodeRet h => exact ⟨(h.settled hpc).1, rfl⟩
  | rejected | removed | notRecorded | endedAt | archive | closed | release => exact ⟨rfl, rfl⟩
  | _ => cases hpc

/-- A settled task stays so, unless it is a new one that reads a `Register`. -/
theorem ServerTask.Step.settled (h : ServerTask.Step tokens t k op k') (hk : k.settled = true)
    (hop : ∀ peer r, op ≠ .connect peer (some (some (.register r)))) :
    op.activates = false ∧ k'.settled = true := by
  cases h with
  | @connect peer first =>
      refine ⟨rfl, ?_⟩
      rcases first with _ | _ | m
      · rfl
      · rfl
      · cases m with
        | register r => exact absurd rfl (hop peer r)
        | _ => rfl
  | cli h => exact h.settled hk
  | node h =>
      refine ⟨?_, rfl⟩
      cases h with
      | forward h | forwarded h => cases h <;> rfl
      | _ => rfl
  | visitor h => cases h <;> exact ⟨rfl, rfl⟩
  | dataConn h => cases h <;> exact ⟨rfl, rfl⟩
  | close h => cases h <;> exact ⟨rfl, rfl⟩
  | _ => exact ⟨rfl, rfl⟩

theorem ServerTask.Adopt.settled (h : ServerTask.Adopt op k k') : k'.settled = true := by
  cases h <;> rfl

end Sessions

/-! ## Closed tunnels -/

/-- The process whose control connection this is, at the server. -/
def Connection.process? : Connection → Option Nat
  | ⟨.cli p _, .server, _⟩ => some p
  | _ => none

/-- The message is a `Register`. -/
def Message.isRegister : Message → Bool
  | .register _ => true
  | _ => false

namespace World

/-- The tunnel of this session was closed from the dashboard, which answered 204,
    and the server has torn it down. -/
def closed (w : World) (x : Connection) : Bool :=
  match w.server.task x.task with
  | .cli _ (.done (some ctx)) => ctx.tunnelId ∈ w.answered
  | _ => false

/-- Process `p` is not on its way to another tunnel: it waits or has ended, none of
    its `Register`s is unread, and none of its sessions is about to open one. -/
def AtRest (w : World) (p : Nat) : Prop :=
  ((w.cli p).task 0).waits = true ∧
  (∀ a < 4, ∀ m ∈ w.net.stream (.up (.cli p a)), m.isRegister = false) ∧
  ∀ x ∈ w.conns, x.process? = some p → (w.server.task x.task).settled = true

instance (w : World) (p : Nat) : Decidable (w.AtRest p) :=
  inferInstanceAs (Decidable (_ ∧ _ ∧ _))

/-- A close is completed while the process is at rest, and from then on the process
    does not retry. -/
def ClosedForGood (d : Setup) (w : World) (l : Label) : Prop :=
  (∀ w' ∈ step d w l, ∀ x ∈ w.conns, ∀ p ∈ x.process?, w'.closed x = true →
    w.closed x = true ∨ w.AtRest p) ∧
  match l with
  | .cli p k op =>
      (∃ x ∈ w.conns, x.process? = some p ∧ w.closed x = true) →
        ((w.cli p).task k).retries op = false
  | _ => True

instance (d : Setup) (w : World) (l : Label) : Decidable (ClosedForGood d w l) := by
  unfold ClosedForGood
  cases l <;> infer_instance

/-! ## A process at rest stays at rest -/

/-- `AtRest`, for any number of attempts. -/
structure Quiet (w : World) (p : Nat) : Prop where
  waits : ((w.cli p).task 0).waits = true
  unread : ∀ a, ∀ m ∈ w.net.stream (.up (.cli p a)), m.isRegister = false
  settled : ∀ x ∈ w.conns, x.process? = some p → (w.server.task x.task).settled = true

section Runs

variable {d : Setup} {w w' w₁ w₂ : World} {l : Label} {ls ls₁ ls₂ : List Label} {p : Nat}
  {x : Connection}

theorem process_eq (h : x.process? = some p) : ∃ a, x.party = .cli p a ∧ x.host = .server := by
  obtain ⟨party, host, t⟩ := x
  cases party with
  | cli q a =>
      cases host with
      | server => exact ⟨a, by rw [Option.some.inj h], rfl⟩
      | node => cases h
  | _ => cases h

/-- Only the process itself writes on its control connections, and only `Register`s. -/
theorem act_put {a : Nat} {m : Message} (h : act d w l = .put (.up (.cli p a)) m) :
    ∃ k r ok pc, l = .cli p k (.sendRegister r ok) ∧ (w.cli p).task k = .main (.running a pc) := by
  have hact := act_acts d w l
  rw [h] at hact
  cases hact with
  | server h => cases h
  | node h => cases h
  | cli h =>
      cases h with
      | register hk => exact ⟨_, _, _, _, rfl, hk⟩

theorem attempt_lt (hr : (world d).Run ls w) {a : Nat} {m : Message}
    (hm : m ∈ w.net.stream (.up (.cli p a))) : a < 4 := by
  refine Lts.Run.induct (L := world d)
    (P := fun _ w => ∀ a m, m ∈ w.net.stream (.up (.cli p a)) → a < 4) nofun ?_ hr a m hm
  intro ls w l w' hr ih hs a m hm
  obtain hm | hput := Network.exec_stream (step_net hs) hm
  · exact ih a m hm
  · obtain ⟨k, r, ok, pc, -, hk⟩ := act_put hput
    have hplaced := Cli.placed ((cli_projection p).run hr) k
    rw [hk] at hplaced
    exact Nat.lt_succ_of_le hplaced.2

theorem AtRest.quiet (hr : (world d).Run ls w) (h : w.AtRest p) : Quiet w p where
  waits := h.1
  unread a m hm := h.2.1 a (attempt_lt hr hm) m hm
  settled := h.2.2

theorem Quiet.waits_step (hr : (world d).Run ls w) (hq : Quiet w p)
    (hs : (world d).step w l = some w')
    (hretry : ∀ k op, l = .cli p k op → ((w.cli p).task k).retries op = false) :
    ((w'.cli p).task 0).waits = true ∧ ∀ k r ok, l ≠ .cli p k (.sendRegister r ok) := by
  cases world_step hs with
  | @cli q k op c net hstep =>
      by_cases hqp : q = p
      · subst hqp
        have hself := Cli.cli_step_self hstep
        have hret := hretry k op rfl
        refine ⟨?_, ?_⟩
        · change ((Function.update w.cli q c q).task 0).waits = true
          rw [Function.update_self]
          by_cases hk : k = 0
          · subst hk
            exact (hself.waits hq.waits hret).1
          · obtain he | ⟨ctx, _, hidle, _⟩ := Cli.cli_step_other hstep (Ne.symm hk)
            · rw [he]
              exact hq.waits
            · have hwaits := hq.waits
              rw [hidle] at hwaits
              cases hwaits
        · rintro k' r ok he
          obtain ⟨-, rfl, rfl⟩ := Label.cli.inj he
          -- only task 0 writes a `Register`
          obtain ⟨a, pc, htask⟩ := hself.registers
          have hplaced := Cli.placed ((cli_projection q).run hr) k
          rw [htask] at hplaced
          obtain rfl := hplaced.1
          exact (hself.waits hq.waits hret).2 r ok rfl
      · refine ⟨?_, fun _ _ _ he => hqp (Label.cli.inj he).1⟩
        change ((Function.update w.cli q c p).task 0).waits = true
        rw [Function.update_of_ne (Ne.symm hqp)]
        exact hq.waits
  | _ => exact ⟨hq.waits, nofun⟩

/-- No `Register` is read off a connection of the process. -/
theorem Quiet.not_read (hr : (world d).Run ls w) (hq : Quiet w p)
    (hs : (world d).step w l = some w') (hx : x ∈ w.conns) (hp : x.process? = some p)
    (peer : String) (r : Register) :
    l ≠ .server x.task (.connect peer (some (some (.register r)))) := by
  rintro rfl
  obtain ⟨a, hparty, hhost⟩ := process_eq hp
  have hpeer := conns_peer hr hx
  rw [hparty, hhost] at hpeer
  have hget := step_net hs
  change w.net.exec (receive (w.peer .server x.task) _) = _ at hget
  rw [hpeer] at hget
  have hmem := hq.unread a _ (Network.exec_get hget)
  cases hmem

theorem Quiet.sessions_step (hr : (world d).Run ls w) (hq : Quiet w p)
    (hs : (world d).step w l = some w') :
    (∀ x ∈ w'.conns, x.process? = some p → (w'.server.task x.task).settled = true) ∧
      ∀ x ∈ w.conns, x.process? = some p → ∀ id e, l ≠ .server x.task (.insertTunnel id e) := by
  have hnoread := fun x hx hp => hq.not_read (x := x) hr hs hx hp
  cases world_step hs with
  | @server t op s net _ hstep =>
      have hself := server_step_self hstep
      refine ⟨?_, ?_⟩
      · intro x hx hp
        have hsettled := hq.settled x hx hp
        by_cases ht : x.task = t
        · subst ht
          exact (hself.settled hsettled fun peer r he => hnoread x hx hp peer r (by rw [he])).2
        · obtain he | ⟨_, ha⟩ := server_step_other hstep ht
          · exact he ▸ hsettled
          · exact ha.settled
      · rintro x hx hp id e he
        obtain ⟨rfl, rfl⟩ := Label.server.inj he
        have hop := (hself.settled (hq.settled x hx hp) nofun).1
        cases hop
  | @accept h t party net _ hfree =>
      refine ⟨?_, nofun⟩
      intro x hx hp
      obtain rfl | hx := List.mem_cons.mp hx
      -- nothing has been read off the new connection
      · obtain ⟨a, _, hhost⟩ := process_eq hp
        change h = .server at hhost
        subst hhost
        have hidle : w.server.task t = .idle := by
          by_contra hne
          rw [free_server.mpr hne] at hfree
          cases hfree
        change (w.server.task t).settled = true
        rw [hidle]
        rfl
      · exact hq.settled x hx hp
  | _ => exact ⟨hq.settled, nofun⟩

/-- A process at rest stays at rest as long as it does not retry. -/
theorem Quiet.step (hr : (world d).Run ls w) (hq : Quiet w p) (hs : (world d).step w l = some w')
    (hretry : ∀ k op, l = .cli p k op → ((w.cli p).task k).retries op = false) : Quiet w' p := by
  obtain ⟨hwaits, hnoreg⟩ := hq.waits_step hr hs hretry
  refine ⟨hwaits, ?_, (hq.sessions_step hr hs).1⟩
  intro a m hm
  obtain hm | hput := Network.exec_stream (step_net hs) hm
  · exact hq.unread a m hm
  · obtain ⟨k, r, ok, -, rfl, -⟩ := act_put hput
    exact absurd rfl (hnoreg k r ok)

/-! ## A closed tunnel stays closed -/

theorem closed_step (hs : (world d).step w l = some w') (hc : w.closed x = true) :
    w'.closed x = true := by
  cases world_step hs with
  | @server t op s net _ hstep =>
      -- the session is over, and what was answered stays answered
      obtain ⟨reg, ctx, hk, hid⟩ : ∃ reg ctx,
          w.server.task x.task = .cli reg (.done (some ctx)) ∧ ctx.tunnelId ∈ w.answered := by
        rw [closed] at hc
        split at hc
        · exact ⟨_, _, ‹_›, of_decide_eq_true hc⟩
        · cases hc
      have hk' : s.task x.task = .cli reg (.done (some ctx)) := by
        by_cases ht : x.task = t
        · subst ht
          have hself := server_step_self hstep
          rw [hk] at hself
          generalize s.task x.task = k' at hself
          cases hself with
          | cli h => cases h
        · obtain he | ⟨_, ha⟩ := server_step_other hstep ht
          · rw [he, hk]
          · rw [hk] at ha
            generalize s.task x.task = k' at ha
            cases ha
      show (match s.task x.task with | .cli _ (.done (some ctx)) => _ | _ => _) = true
      rw [hk']
      exact decide_eq_true (List.mem_append_right _ hid)
  | _ => exact hc

/-- A close is completed by the server. -/
theorem closed_server (hs : (world d).step w l = some w') (hc : w'.closed x = true) :
    w.closed x = true ∨ ∃ t op, l = .server t op := by
  cases world_step hs with
  | server => exact Or.inr ⟨_, _, rfl⟩
  | _ => exact Or.inl hc

/-- A closed session has been one of a connection for as long as it has run. -/
theorem closed_conns (hs : (world d).step w l = some w') (hx : x ∈ w'.conns)
    (hp : x.process? = some p) (hc : w'.closed x = true) : x ∈ w.conns := by
  cases world_step hs with
  | @accept h t party net _ hfree =>
      obtain rfl | hx := List.mem_cons.mp hx
      · obtain ⟨a, _, hhost⟩ := process_eq hp
        change h = .server at hhost
        subst hhost
        change w.closed _ = true at hc
        rw [closed] at hc
        split at hc
        · rename_i hk
          change w.server.task t = _ at hk
          rw [free_server.mpr (by rw [hk]; nofun)] at hfree
          cases hfree
        · cases hc
      · exact hx
  | _ => exact hx

/-- Where each close is completed for good, the process of a closed tunnel is at rest. -/
theorem quiet_of_closed (hr : (world d).Run ls w) (hok : (world d).Along (ClosedForGood d) ls)
    (hx : x ∈ w.conns) (hp : x.process? = some p) (hc : w.closed x = true) : Quiet w p := by
  refine Lts.Run.induct_along (L := world d)
    (P := fun _ w => ∀ x ∈ w.conns, x.process? = some p → w.closed x = true → Quiet w p)
    nofun ?_ hr hok x hx hp hc
  intro ls w l w' hr ih hok hs x hx hp hc
  obtain ⟨hrest, hretry⟩ := hok
  by_cases hold : ∃ x ∈ w.conns, x.process? = some p ∧ w.closed x = true
  · obtain ⟨x', hx', hp', hc'⟩ := hold
    refine (ih x' hx' hp' hc').step hr hs ?_
    rintro k op rfl
    exact hretry ⟨x', hx', hp', hc'⟩
  -- this step completes the close
  · have hx₀ := closed_conns hs hx hp hc
    have hnot : ¬w.closed x = true := fun h => hold ⟨x, hx₀, hp, h⟩
    have hquiet := ((hrest w' hs x hx₀ p hp hc).resolve_left hnot).quiet hr
    obtain ⟨t, op, rfl⟩ := (closed_server hs hc).resolve_left hnot
    exact hquiet.step hr hs nofun

/-- What has entered a tunnel in `active_tunnels` is a task that serves no
    connection of process `p`. -/
def OthersOnly (p : Nat) (w : World) (ls : List Label) : Prop :=
  ∀ t id e, .server t (.insertTunnel id e) ∈ ls →
    w.free .server t = false ∧ ∀ a, w.peer .server t ≠ some (.cli p a)

theorem OthersOnly.step (hr : (world d).Run ls₁ w) (hq : Quiet w p) (h : OthersOnly p w ls)
    (hs : (world d).step w l = some w') : OthersOnly p w' (ls ++ [l]) := by
  intro t id e hmem
  have hw : w.free .server t = false ∧ ∀ a, w.peer .server t ≠ some (.cli p a) := by
    obtain hmem | hmem := List.mem_append.mp hmem
    · exact h t id e hmem
    · obtain rfl := List.mem_singleton.mp hmem
      refine ⟨free_server.mpr fun hidle => ?_, fun a hpeer => ?_⟩
      · have hself := server_step_self (server_projection.own hs rfl)
        rw [hidle] at hself
        cases hself
      · exact (hq.sessions_step hr hs).2 _ (peer_mem hpeer) rfl id e rfl
  refine ⟨step_started hs hw.1, ?_⟩
  rw [step_peer_eq hs hw.1]
  exact hw.2

/-- A tunnel closed from the dashboard stays closed: in a run in which every close
    is completed for good, the process of a closed tunnel writes no `Register` and
    none of its sessions enters a tunnel in `active_tunnels` any more. -/
theorem closed_stays_closed (h₁ : (world d).Run ls₁ w₁) (hx : x ∈ w₁.conns)
    (hp : x.process? = some p) (hc : w₁.closed x = true) (h₂ : (world d).runFrom w₁ ls₂ = some w₂)
    (hok : (world d).Along (ClosedForGood d) (ls₁ ++ ls₂)) :
    (∀ k r ok, .cli p k (.sendRegister r ok) ∉ ls₂) ∧
      ∀ a t id e, w₂.peer .server t = some (.cli p a) → .server t (.insertTunnel id e) ∉ ls₂ := by
  suffices hinv : (x ∈ w₂.conns ∧ w₂.closed x = true) ∧
      (∀ k r ok, .cli p k (.sendRegister r ok) ∉ ls₂) ∧ OthersOnly p w₂ ls₂ from
    ⟨hinv.2.1, fun a t id e hpeer hmem => (hinv.2.2 t id e hmem).2 a hpeer⟩
  refine Lts.runFrom_induct (L := world d)
    (P := fun ls w => (world d).Along (ClosedForGood d) (ls₁ ++ ls) →
      (x ∈ w.conns ∧ w.closed x = true) ∧ (∀ k r ok, .cli p k (.sendRegister r ok) ∉ ls) ∧
        OthersOnly p w ls) (fun _ => ⟨⟨hx, hc⟩, nofun, nofun⟩) ?_ h₂ hok
  intro ls w l w' hls ih hs hok
  have hr : (world d).Run (ls₁ ++ ls) w := Lts.run_append.mpr ⟨w₁, h₁, hls⟩
  rw [← List.append_assoc] at hok
  obtain ⟨hok, hl⟩ := (Lts.alongFrom_snoc hr).mp hok
  obtain ⟨⟨hx, hc⟩, hnoreg, hothers⟩ := ih hok
  have hq := quiet_of_closed hr hok hx hp hc
  have hretry : ∀ k op, l = .cli p k op → ((w.cli p).task k).retries op = false := by
    rintro k op rfl
    exact hl.2 ⟨x, hx, hp, hc⟩
  refine ⟨⟨step_conns hs hx, closed_step hs hc⟩, ?_, hothers.step hr hq hs⟩
  intro k r ok hmem
  obtain hmem | hmem := List.mem_append.mp hmem
  · exact hnoreg k r ok hmem
  · exact (hq.waits_step hr hs hretry).2 k r ok (List.mem_singleton.mp hmem).symm

end Runs

/-! ## A process that retries -/

/-- No failure of the network and the server up: what is written arrives whole and
    in order, connections and writes succeed, and a process reads the end of a
    control stream only when the server's side of it has ended and nothing is left
    to read. -/
def Faultless (d : Setup) (w : World) (l : Label) : Prop :=
  w.net.InOrder (act d w l) ∧
  match l with
  | .cli p k (.readLine none) =>
      ∃ x ∈ w.conns, x.process? = some p ∧ (w.server.task x.task).returned = true ∧
        (match (w.cli p).task k with
          | .main (.running a _) =>
              x.party = .cli p a ∧ w.net.stream (.down (.cli p a)) = []
          | _ => False)
  | .cli _ _ (.load none) | .cli _ _ (.connect _ false) | .cli _ _ (.handshake false)
  | .cli _ _ (.sendRegister _ false) | .cli _ _ (.dial _ false) | .cli _ _ (.announce _ false)
  | .server _ (.send _ _ false) | .server _ (.sendUnlock _ _ false) | .server _ (.readLine none)
  | .server _ (.connect _ none) | .node .. => False
  | _ => True

instance (d : Setup) (w : World) (l : Label) : Decidable (Faultless d w l) := by
  unfold Faultless
  have hread : ∀ p k, Decidable (∃ x ∈ w.conns, x.process? = some p ∧
      (w.server.task x.task).returned = true ∧ (match (w.cli p).task k with
        | .main (.running a _) => x.party = .cli p a ∧ w.net.stream (.down (.cli p a)) = []
        | _ => False)) := by
    intro p k
    generalize (w.cli p).task k = task
    refine @List.decidableBEx _ _ (fun x => ?_) w.conns
    split <;> infer_instance
  split <;> infer_instance

/-- One process that asks for any port. -/
def oneProcess : Setup where
  server := onePort
  node := fun _ => ⟨"secret", "fra", 7001⟩
  cli := fun _ => ⟨3000, none, .tcp, none⟩

/-- An attempt of the process up to its `Register`, at the server task `t`. -/
def registers (a : Nat) (t : Tid) : List Label :=
  [.cli 0 0 (.load (some ⟨"example.org:7000", "secret"⟩)),
   .cli 0 0 (.connect "example.org:7000" true), .accept .server t (.cli 0 a),
   .cli 0 0 (.handshake true), .cli 0 0 (.hostname none), .cli 0 0 (.sendRegister anyPort true),
   .server t (.connect "10.0.0.1" (some (some (.register anyPort))))]

/-- The session serves the tunnel `id`. -/
def serves (t : Tid) (id : String) : List Label :=
  [.server t .compute, .server t (.acquire (some 7000)), .server t (.uuid id),
   .server t (.pick none none), .server t (.bind 7000 true),
   .server t (.send t (.registered ⟨7000, none, none⟩) true),
   .cli 0 0 (.readLine (some (some (.registered ⟨7000, none, none⟩)))), .server t (.now 10),
   .server t (.insertTunnel id ⟨.tcp, 3000, 7000, none, none, 10, none, t⟩),
   .server t (.publish (.tunnelOpened id "tcp" 3000 7000 "" 10))]

/-- The dashboard closes the tunnel, and the server tears it down. -/
def closes (t : Tid) (id : String) : List Label :=
  [.server 9 (.delete id), .server 9 (.getClose id (some t)), .server 9 (.notifyOne t),
   .server t .notified,
   .server t (.removeTunnel id (some ⟨.tcp, 3000, 7000, none, none, 10, none, t⟩)),
   .server t (.now 20), .server t (.recordTunnel ⟨id, "tcp", 3000, 7000, none, 10, 20, 0⟩),
   .server t (.publish (.tunnelClosed id)), .server t (.release 7000)]

/-- The process reads the end of its stream and starts over. -/
def comesBack : List Label :=
  [.cli 0 0 (.readLine none), .cli 0 0 .sleep] ++ registers 1 2 ++ serves 2 "u"

/-- A tunnel is closed, torn down, and opened anew by the same start command, with
    no failure anywhere. -/
theorem closed_stays_closed_not :
    ∃ w₁ w₂, (world oneProcess).Run (registers 0 1 ++ serves 1 "t" ++ closes 1 "t") w₁ ∧
      (∃ x ∈ w₁.conns, x.process? = some 0 ∧ w₁.closed x = true) ∧
      (world oneProcess).runFrom w₁ comesBack = some w₂ ∧
      (world oneProcess).Along (Faultless oneProcess)
        (registers 0 1 ++ serves 1 "t" ++ closes 1 "t" ++ comesBack) ∧
      .cli 0 0 (.sendRegister anyPort true) ∈ comesBack ∧
      w₂.peer .server 2 = some (.cli 0 1) ∧
      .server 2 (.insertTunnel "u" ⟨.tcp, 3000, 7000, none, none, 10, none, 2⟩) ∈ comesBack := by
  refine ⟨_, _, rfl, ?_, rfl, ?_, ?_, ?_, ?_⟩
  · exact ⟨⟨.cli 0 0, .server, 1⟩, by decide, rfl, by decide⟩
  · decide
  · simp [comesBack, registers]
  · rfl
  · simp [comesBack, serves]

/-- Three attempts do not reach the server, and the fourth has its tunnel closed. -/
def lastAttempt : List Label :=
  (List.replicate 3 [.cli 0 0 (.load (some ⟨"example.org:7000", "secret"⟩)),
    .cli 0 0 (.connect "example.org:7000" false), .cli 0 0 .sleep]).flatten ++
  registers 3 1 ++ serves 1 "t" ++ closes 1 "t"

theorem closed_stays_closed_last :
    ∃ w₁ w₂, (world oneProcess).Run lastAttempt w₁ ∧
      (world oneProcess).runFrom w₁ [.cli 0 0 (.readLine none)] = some w₂ ∧
      (w₂.cli 0).task 0 = .main (.exited false) ∧
      (∀ k r ok, .cli 0 k (.sendRegister r ok) ∉ [Label.cli 0 0 (.readLine none)]) ∧
      ∀ a t id e, w₂.peer .server t = some (.cli 0 a) →
        .server t (.insertTunnel id e) ∉ [Label.cli 0 0 (.readLine none)] := by
  obtain ⟨w₁, w₂, h₁, hx, hc, h₂, hend⟩ : ∃ w₁ w₂, (world oneProcess).Run lastAttempt w₁ ∧
      ⟨.cli 0 3, .server, 1⟩ ∈ w₁.conns ∧ w₁.closed ⟨.cli 0 3, .server, 1⟩ = true ∧
      (world oneProcess).runFrom w₁ [.cli 0 0 (.readLine none)] = some w₂ ∧
      (w₂.cli 0).task 0 = .main (.exited false) :=
    ⟨_, _, rfl, by decide, by decide, rfl, rfl⟩
  exact ⟨w₁, w₂, h₁, h₂, hend, closed_stays_closed h₁ hx rfl hc h₂ (by decide)⟩

end World

end Borehole
