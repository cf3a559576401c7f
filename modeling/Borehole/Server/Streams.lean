/-
  Borehole.Server.Streams

  The bytes on the server's control streams.

  `send` is a `write_all` of the frame and a flush, so a frame goes out in any
  number of parts, between which other tasks run.  A session writes on its own
  stream through an exclusive borrow until it has put its writer behind the mutex
  for other sessions to find; from then on every frame, its own included, is
  written by whoever holds the mutex.
-/

import Borehole.Server.Handshake
import Borehole.Conc.Wires

namespace Borehole

open Conc

/-! ## Sessions whose writer others can find -/

/-- The session has handed out a handle to its writer. -/
def ServeCliViaNode.Pc.shared : ServeCliViaNode.Pc → Bool
  | .increment _ | .publish _ | .lockCli | .registered | .select | .lockClose | .closeTunnel
  | .decrement => true
  | _ => false

/-- The session has let other tasks have its writer. -/
def HandleCli.Pc.shared : HandleCli.Pc → Bool
  | .viaNode _ _ pc => pc.shared
  | .remove _ | .endedAt .. | .archive .. | .closed _ | .release _ | .done (some _) => true
  | _ => false

/-- The node is in the registry, or has been. -/
def HandleNode.Pc.shared : HandleNode.Pc → Bool
  | .validate | .reject _ | .nodeId | .register _ | .done none => false
  | _ => true

/-- Other sessions may have a handle to the writer of this one. -/
def ServerTask.shared : ServerTask → Bool
  | .cli _ pc => pc.shared
  | .node _ _ pc => pc.shared
  | _ => false

section Steps

variable {tokens : List String} {s : SessionCtx} {ctx : TunnelCtx} {node : NodeInfo} {t w : Tid}
  {k k' : ServerTask} {op : Op} {m : Message}

/-- A handle that has been handed out stays out. -/
theorem HandleCli.Step.shared {pc pc' : Pc} (h : Step tokens s pc op pc')
    (hs : pc.shared = true) : pc'.shared = true := by
  cases h with
  | viaNode h =>
      cases h with
      | lockNode | opened | unreachable | lockFallback | fallback | fellBack | startedAt
      | record => cases hs
      | _ => rfl
  | removed | notRecorded | endedAt | archive | closed | release | directRet | viaNodeRet => rfl
  | _ => cases hs

theorem HandleNode.Step.shared {host : String} {reg : RegisterNode} {pc pc' : Pc}
    (h : Step tokens t host reg pc op pc') (hs : pc.shared = true) : pc'.shared = true := by
  cases h with
  | badToken | accepted | rejected | nodeId => cases hs
  | _ => rfl

theorem ServerTask.Step.shared (h : Step tokens t k op k') (hs : k.shared = true) :
    k'.shared = true := by
  cases h with
  | cli h => exact HandleCli.Step.shared h hs
  | node h => exact HandleNode.Step.shared h hs
  | _ => cases hs

/-- A session whose writer others can find writes through the mutex. -/
theorem ServerTask.holds_of_shared (hs : k.shared = true) (hf : k.frame? t = some (w, m)) :
    k.holds? t = some w := by
  cases k with
  | cli register pc =>
      cases pc with
      | viaNode ctx node pc =>
          cases pc with
          | registered | closeTunnel => cases hf; rfl
          | fallback | openTunnel => cases hs
          | _ => cases hf
      | reject reason => cases hs
      | direct ctx pc => cases hs
      | _ => cases hf
  | node host reg pc =>
      cases pc with
      | ack id => cases hf; rfl
      | forward id report pc =>
          cases pc with
          | send route => cases hf; rfl
          | _ => cases hf
      | reject reason => cases hs
      | _ => cases hf
  | _ => cases hs

/-- A session that others have just come to find has handed its writer out. -/
theorem ServerTask.shared_of_exposed (he : k.exposed = true) : k.shared = true := by
  cases k with
  | cli register pc =>
      cases pc with
      | viaNode ctx node pc =>
          cases pc with
          | increment | publish | lockCli => rfl
          | _ => cases he
      | _ => cases he
  | node host reg pc =>
      cases pc with
      | lockAck id => rfl
      | _ => cases he
  | _ => cases he

/-! ## Sends are not cancelled -/

theorem ServeTunnel.Step.sends {pc : Pc} {fl : Flow Pc} (h : Step s ctx pc op fl)
    (hf : pc.frame? s = some (w, m)) : ∃ ok, op.frame? = some (w, m, ok) := by
  cases h with
  | notified | notifyFailed => cases hf; exact ⟨_, rfl⟩
  | _ => cases hf

theorem ServeCliDirect.Step.sends {pc : Pc} {fl : Flow Pc} (h : Step s ctx pc op fl)
    (hf : pc.frame? s ctx = some (w, m)) : ∃ ok, op.frame? = some (w, m, ok) := by
  cases h with
  | rejected | registered | registerFailed => cases hf; exact ⟨_, rfl⟩
  | serve h | served h => exact h.sends hf
  | _ => cases hf

theorem ServeCliViaNode.Step.sends {pc : Pc} {fl : Flow Pc} (h : Step s ctx node pc op fl)
    (hf : pc.frame? s ctx node = some (w, m)) : ∃ ok, op.frame? = some (w, m, ok) := by
  cases h with
  | opened | unreachable | registered | closeTunnel => cases hf; exact ⟨_, rfl⟩
  | fallback h | fellBack h => exact h.sends hf
  | _ => cases hf

theorem HandleCli.Step.sends {pc pc' : Pc} (h : Step tokens s pc op pc')
    (hf : pc.frame? s = some (w, m)) : ∃ ok, op.frame? = some (w, m, ok) := by
  cases h with
  | rejected => cases hf; exact ⟨_, rfl⟩
  | direct h | directRet h => exact h.sends hf
  | viaNode h | viaNodeRet h => exact h.sends hf
  | _ => cases hf

theorem HandleNode.Step.sends {host : String} {reg : RegisterNode} {pc pc' : Pc}
    (h : Step tokens t host reg pc op pc') (hf : pc.frame? t = some (w, m)) :
    ∃ ok, op.frame? = some (w, m, ok) := by
  cases h with
  | rejected | acked | ackFailed => cases hf; exact ⟨_, rfl⟩
  | forward h => cases h <;> cases hf
  | forwarded h =>
      cases h with
      | unknown => cases hf
      | send => cases hf; exact ⟨_, rfl⟩
  | _ => cases hf

/-- A task that has a frame to write does nothing else before `send` returns: no
    `send` stands in a branch that a `select!` can drop. -/
theorem ServerTask.Step.sends (h : Step tokens t k op k') (hf : k.frame? t = some (w, m)) :
    ∃ ok, op.frame? = some (w, m, ok) := by
  cases h with
  | refused => cases hf; exact ⟨_, rfl⟩
  | cli h => exact h.sends hf
  | node h => exact h.sends hf
  | _ => cases hf

end Steps

/-! ## One writer on a stream -/

/-- Handles to a writer are handles to a session that has handed it out. -/
structure ShareInv (c : Server) : Prop where
  registry : ∀ id info, c.shared.nodeManager.nodes.lookup id = some info →
    (c.task info.tx).shared = true
  routed : ∀ t info, (c.task t).routed? = some info → (c.task info.tx).shared = true
  entry : ∀ id e r, c.shared.activeTunnels.lookup id = some e → e.route = some r →
    (c.task r.writer).shared = true
  forward : ∀ t r, (c.task t).route? = some r → (c.task r.writer).shared = true

section Server

variable {cfg : ServerConfig} {ls : List (Tid × Op)} {c c' : Server} {t u w : Tid} {op : Op}

theorem server_step_shared (h : (server cfg).step c (t, op) = some c')
    (hu : (c.task u).shared = true) : (c'.task u).shared = true := by
  by_cases hut : u = t
  · subst hut
    exact (server_step_self h).shared hu
  · rw [server_step_attr (f := ServerTask.shared) (fun _ _ => rfl) h hut, hu]

theorem shareInv_step (hi : ShareInv c) (h : (server cfg).step c (t, op) = some c') :
    ShareInv c' := by
  have hx := server_step_exec h
  have hself := server_step_self h
  refine ⟨fun id info hl => ?_, fun u info hu => ?_, fun id e r hl hr => ?_, fun u r hu => ?_⟩
  · obtain rfl | ⟨n, hl⟩ := ServerState.exec_registry hx hl
    · rw [(hself.registers rfl).1]
      exact ServerTask.shared_of_exposed (hself.exposes (Or.inl ⟨info, rfl⟩))
    · have hold := hi.registry id _ hl
      exact server_step_shared h hold
  · by_cases hut : u = t
    · subst hut
      obtain hold | ⟨_, name, rfl⟩ := hself.routed hu
      · exact server_step_shared h (hi.routed u info hold)
      · exact server_step_shared h (hi.registry _ _ (ServerState.exec_pick hx))
    · rw [server_step_attr (f := ServerTask.routed?) (fun _ _ => rfl) h hut] at hu
      exact server_step_shared h (hi.routed u info hu)
  · obtain rfl | hold := ServerState.exec_entry hx hl
    · obtain ⟨_, _, info, _, rfl⟩ := hself.inserts rfl hr
      exact ServerTask.shared_of_exposed (hself.exposes (Or.inr ⟨id, e, _, rfl, hr⟩))
    · exact server_step_shared h (hi.entry id e r hold hr)
  · by_cases hut : u = t
    · subst hut
      obtain hold | ⟨id, rfl⟩ := hself.route hu
      · exact server_step_shared h (hi.forward u r hold)
      · obtain ⟨e, he, hr⟩ := Option.bind_eq_some_iff.mp (ServerState.exec_getRoute hx).1
        exact server_step_shared h (hi.entry id e r he hr)
    · rw [server_step_attr (f := ServerTask.route?) (fun _ _ => rfl) h hut] at hu
      exact server_step_shared h (hi.forward u r hu)

theorem shareInv (h : (server cfg).Run ls c) : ShareInv c := by
  refine Lts.Run.induct (P := fun _ c => ShareInv c) ⟨?_, ?_, ?_, ?_⟩
    (fun _ _ _ _ _ hi hs => shareInv_step hi hs) h
  all_goals
    intros
    contradiction

/-- What a task refers to has been handed out. -/
theorem shared_of_refs (h : (server cfg).Run ls c) (hr : (c.task t).refs? = some w) :
    (c.task w).shared = true := by
  have hi := shareInv h
  obtain ⟨info, hinfo, rfl⟩ | ⟨route, hroute, rfl⟩ := ServerTask.refs_iff.mp hr
  · exact hi.routed t info hinfo
  · exact hi.forward t route hroute

/-- No two tasks are writing on the same stream. -/
theorem writers_exclusive {m m' : Message} (h : (server cfg).Run ls c)
    (ht : (c.task t).frame? t = some (w, m)) (hu : (c.task u).frame? u = some (w, m')) :
    t = u := by
  -- whoever writes on a stream that is not its own holds its mutex, and then so
  -- does the session of the stream if it writes
  have hholds : ∀ {v v' : Tid} {n n' : Message}, (c.task v).frame? v = some (w, n) →
      (c.task v').frame? v' = some (w, n') → v' ≠ w → c.shared.writer w = some v := by
    intro v v' n n' hv hv' hne
    refine (writerInv h w v).mpr ?_
    by_cases hvw : w = v
    · subst hvw
      exact ServerTask.holds_of_shared
        (shared_of_refs h (ServerTask.frame_other hv' (Ne.symm hne)).2) hv
    · exact (ServerTask.frame_other hv hvw).1
  by_cases htw : t = w
  · by_cases huw : u = w
    · rw [htw, huw]
    · exact Option.some.inj ((hholds ht hu huw).symm.trans (hholds hu hu huw))
  · exact Option.some.inj ((hholds ht ht htw).symm.trans (hholds hu ht htw))

end Server

/-! ## The streams -/

/-- Which frames the server's tasks write. -/
def serverWiring : Wiring Server (Tid × Op) Tid Tid UInt8 where
  who := fun a => a.1
  frame? := fun c t =>
    ((c.task t).frame? t).bind fun (w, m) => (sendBytes m).map fun frame => (w, frame)
  ends? := fun a =>
    a.2.frame?.bind fun (w, m, ok) => (sendBytes m).map fun frame => (w, frame, ok)

/-- The server with the bytes of its control streams. -/
abbrev WiredServer := Wired Server Tid Tid UInt8

/-- Every interleaving of the server's tasks, and every way their frames are
    split into partial writes. -/
def wiredServer (cfg : ServerConfig) : Lts WiredServer (WireOp (Tid × Op) Tid UInt8) :=
  serverWiring.lts (server cfg)

section Wired

variable {cfg : ServerConfig}

theorem serverWiring_frame {c : Server} {t w : Tid} {frame : List UInt8} :
    serverWiring.frame? c t = some (w, frame) ↔
      ∃ m, (c.task t).frame? t = some (w, m) ∧ sendBytes m = some frame := by
  simp only [serverWiring, Option.bind_eq_some_iff, Option.map_eq_some_iff, Prod.mk.injEq]
  constructor
  · rintro ⟨⟨w', m⟩, hm, frame', hs, rfl, rfl⟩
    exact ⟨m, hm, hs⟩
  · rintro ⟨m, hm, hs⟩
    exact ⟨(w, m), hm, frame, hs, rfl, rfl⟩

theorem serverWiring_ends {a : Tid × Op} {w : Tid} {frame : List UInt8} {ok : Bool} :
    serverWiring.ends? a = some (w, frame, ok) ↔
      ∃ m, a.2.frame? = some (w, m, ok) ∧ sendBytes m = some frame := by
  simp only [serverWiring, Option.bind_eq_some_iff, Option.map_eq_some_iff, Prod.mk.injEq]
  constructor
  · rintro ⟨⟨w', m, ok'⟩, hm, frame', hs, rfl, rfl, rfl⟩
    exact ⟨m, hm, hs⟩
  · rintro ⟨m, hm, hs⟩
    exact ⟨(w, m, ok), hm, frame, hs, rfl, rfl, rfl⟩

theorem serverWiring_orderly : serverWiring.Orderly (server cfg) := by
  constructor
  case ends =>
    rintro c ⟨t, op⟩ c' w frame h hf
    obtain ⟨m, hm, hs⟩ := serverWiring_frame.mp hf
    obtain ⟨ok, hop⟩ := (server_step_self h).sends hm
    exact ⟨ok, serverWiring_ends.mpr ⟨m, hop, hs⟩⟩
  case begun =>
    rintro c ⟨t, op⟩ c' w frame ok h he
    obtain ⟨m, hm, hs⟩ := serverWiring_ends.mp he
    exact serverWiring_frame.mpr ⟨m, (server_step_self h).frame hm, hs⟩
  case others =>
    rintro c ⟨t, op⟩ c' u h hu
    have hsame := server_step_attr (f := ServerTask.frame? u) (fun _ _ => rfl) h hu
    simp only [serverWiring, hsame]

theorem serverWiring_exclusive {ls : List (Tid × Op)} {c : Server} (h : (server cfg).Run ls c) :
    serverWiring.Exclusive c := by
  intro t u w f f' ht hu
  obtain ⟨m, hm, _⟩ := serverWiring_frame.mp ht
  obtain ⟨m', hm', _⟩ := serverWiring_frame.mp hu
  exact writers_exclusive h hm hm'

/-- The frames on a stream are those of its successful `send`s. -/
theorem serverWiring_sends (w : Tid) (ls : List (WireOp (Tid × Op) Tid UInt8)) :
    serverWiring.sends w ls = (written w (ls.filterMap WireOp.step?)).filterMap sendBytes := by
  rw [written, List.filterMap_filterMap, List.filterMap_filterMap, Wiring.sends]
  congr 1
  funext l
  cases l with
  | part t bytes => rfl
  | step a =>
      simp only [WireOp.step?, Option.bind_some, serverWiring, Op.writtenOn]
      cases a.2.frame? with
      | none => rfl
      | some f =>
          obtain ⟨w', m, ok⟩ := f
          obtain ⟨frame, hs⟩ := sendBytes_some m
          simp only [Option.bind_some, hs, Option.map_some]
          split
          · rw [Option.bind_some, hs]
          · rfl

/-- The bytes on a stream are the frames of the `send`s that have succeeded, in
    order, and a part of the frame that one task is writing.  That task does
    nothing else before its `send` returns. -/
def Intact (cfg : ServerConfig) (ls : List (WireOp (Tid × Op) Tid UInt8)) (c : WiredServer)
    (w : Tid) : Prop :=
  ∃ part, c.stream w =
      ((written w (ls.filterMap WireOp.step?)).filterMap sendBytes).flatten ++ part ∧
    (part = [] ∨ ∃ t m frame, (c.state.task t).frame? t = some (w, m) ∧
      sendBytes m = some frame ∧ part = c.sent t ∧ part <+: frame ∧
      ∀ op c', (server cfg).step c.state (t, op) = some c' → ∃ ok, op.frame? = some (w, m, ok))

/-- Frames neither interleave nor are they cut short on a control stream on which
    no write has failed. -/
theorem frame_integrity {ls : List (WireOp (Tid × Op) Tid UInt8)} {c : WiredServer} {w : Tid}
    (h : (wiredServer cfg).Run ls c) (hw : c.failed w = false) : Intact cfg ls c w := by
  obtain ⟨part, hs, hpart⟩ := Wiring.framed serverWiring_orderly
    (fun _ _ hr => serverWiring_exclusive hr) h hw
  refine ⟨part, by rw [hs, serverWiring_sends], hpart.imp_right ?_⟩
  rintro ⟨t, frame, hf, hp, hpre⟩
  obtain ⟨m, hm, hbytes⟩ := serverWiring_frame.mp hf
  exact ⟨t, m, frame, hm, hbytes, hp, hpre, fun op c' hstep => (server_step_self hstep).sends hm⟩

/-- A node's stream while its session and a CLI session write on it: the
    acknowledgement in two parts and the beginning of an order. -/
def splitWrites : List (WireOp (Tid × Op) Tid UInt8) :=
  let ack := (sendBytes (.nodeRegistered ⟨"n"⟩)).getD []
  let order := (sendBytes (.openTunnel ⟨"t", 7000⟩)).getD []
  (nodeVisible ++ [(2, Op.lockWriter 2)]).map .step ++ [.part 2 (ack.take 10)] ++
    (cliOrdered.take 5).map .step ++ [.part 2 (ack.drop 10)] ++
    [.step (2, .sendUnlock 2 (.nodeRegistered ⟨"n"⟩) true), .step (1, .lockWriter 2),
     .part 1 (order.take 7)]

theorem frame_integrity_splitWrites :
    ∃ c, (wiredServer onePort).Run splitWrites c ∧ Intact onePort splitWrites c 2 := by
  obtain ⟨c, hc, hw⟩ : ∃ c, (wiredServer onePort).Run splitWrites c ∧ c.failed 2 = false :=
    Lts.exists_run (by decide)
  exact ⟨c, hc, frame_integrity hc hw⟩

end Wired

end Borehole
