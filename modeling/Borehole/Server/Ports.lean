/-
  Borehole.Server.Ports

  Who holds which public port.

  The pool records only the free ports, and `release` inserts whatever it is
  given.  A session holds a port from the `acquire` that returned it to its own
  `release`; the invariant says that the pool and the sessions partition the
  configured range, and ties every dashboard entry and every listener to the
  session that holds its port.
-/

import Borehole.Conc.Ownership
import Borehole.Server.Writers
import Mathlib.Order.CompletePartialOrder

namespace Borehole

/-! ## The port a session holds -/

/-- The port a session has acquired and not yet released. -/
def HandleCli.Pc.port? : HandleCli.Pc → Option UInt16
  | .tunnelId port => some port
  | .pick ctx | .direct ctx _ | .viaNode ctx _ _ | .remove ctx | .endedAt ctx _
  | .archive ctx _ _ | .closed ctx | .release ctx => some ctx.port
  | _ => none

/-- The port that a task holds. -/
def ServerTask.port? : ServerTask → Option UInt16
  | .cli _ pc => pc.port?
  | _ => none

/-- The tunnel a session may have an entry of in `active_tunnels`: from the
    start of one of the serving paths to the central removal. -/
def HandleCli.Pc.tunnel? : HandleCli.Pc → Option TunnelCtx
  | .direct ctx _ | .viaNode ctx _ _ | .remove ctx => some ctx
  | _ => none

/-- The tunnel that a task has in the table. -/
def ServerTask.tunnel? : ServerTask → Option TunnelCtx
  | .cli _ pc => pc.tunnel?
  | _ => none

/-- Whether `serve_cli_direct` has its listener bound. -/
def ServeCliDirect.Pc.bound : ServeCliDirect.Pc → Bool
  | .bind | .reject => false
  | _ => true

/-- The public port the server listens on for a session: `tunnel_listener` lives
    from its bind to the return of `serve_cli_direct`. -/
def HandleCli.Pc.listening? : HandleCli.Pc → Option UInt16
  | .direct ctx pc | .viaNode ctx _ (.fallback pc) => if pc.bound then some ctx.port else none
  | _ => none

/-- The port that a task listens on. -/
def ServerTask.listening? : ServerTask → Option UInt16
  | .cli _ pc => pc.listening?
  | _ => none

theorem ServerTask.port?_of_tunnel? {k : ServerTask} {ctx : TunnelCtx} (h : k.tunnel? = some ctx) :
    k.port? = some ctx.port := by
  cases k with
  | cli register pc =>
      cases pc <;> simp_all [tunnel?, port?, HandleCli.Pc.tunnel?, HandleCli.Pc.port?]
  | _ => simp [tunnel?] at h

theorem ServerTask.port?_of_listening? {k : ServerTask} {port : UInt16}
    (h : k.listening? = some port) : k.port? = some port := by
  cases k with
  | cli register pc =>
      simp only [listening?, HandleCli.Pc.listening?] at h
      split at h
      all_goals simp_all [port?, HandleCli.Pc.port?]
  | _ => simp [listening?] at h

/-! ## What a session's steps do to its port -/

/-- A session that takes a port holds none before, one that gives its port back
    holds that port, and nothing else changes what it holds. -/
def PortStep (before : Option UInt16) (op : Op) (after : Option UInt16) : Prop :=
  match op.takes?, op.gives? with
  | some port, _ => before = none ∧ after = some port
  | none, some port => before = some port ∧ after = none
  | none, none => after = before

theorem portStep_of_not_onPool {port : Option UInt16} {op : Op} (h : op.onPool = false) :
    PortStep port op port := by
  cases op <;> simp_all [PortStep, Op.onPool, Op.takes?, Op.gives?]

section Steps

variable {tokens : List String} {s : SessionCtx} {ctx : TunnelCtx} {node : NodeInfo} {op : Op}

theorem ServeTunnel.Step.not_onPool {pc : Pc} {f : Flow Pc} (h : Step s ctx pc op f) :
    op.onPool = false := by
  cases h <;> rfl

theorem ServeCliDirect.Step.not_onPool {pc : Pc} {f : Flow Pc} (h : Step s ctx pc op f) :
    op.onPool = false := by
  cases h with
  | serve h | served h => exact h.not_onPool
  | _ => rfl

theorem ServeCliViaNode.Step.not_onPool {pc : Pc} {f : Flow Pc} (h : Step s ctx node pc op f) :
    op.onPool = false := by
  cases h with
  | fallback h | fellBack h => exact h.not_onPool
  | _ => rfl

theorem HandleCli.Step.port {pc pc' : Pc} (h : Step tokens s pc op pc') :
    PortStep pc.port? op pc'.port? := by
  cases h with
  | direct h | directRet h => exact portStep_of_not_onPool h.not_onPool
  | viaNode h | viaNodeRet h => exact portStep_of_not_onPool h.not_onPool
  | _ => simp [PortStep, Op.takes?, Op.gives?, Pc.port?]

theorem HandleNode.Step.not_onPool {t : Tid} {host : String} {reg : RegisterNode} {pc pc' : Pc}
    (h : Step tokens t host reg pc op pc') : op.onPool = false := by
  cases h with
  | forward h | forwarded h => cases h <;> rfl
  | _ => rfl

theorem ServerTask.Step.port {t : Tid} {k k' : ServerTask} (h : Step tokens t k op k') :
    PortStep k.port? op k'.port? := by
  cases h with
  | @connect peer first =>
      have hd := handleClient_dispatched peer first
      generalize handleClient peer first = k' at hd ⊢
      cases hd <;> exact portStep_of_not_onPool rfl
  | cli h => exact h.port
  | node h => exact portStep_of_not_onPool h.not_onPool
  | visitor h => exact portStep_of_not_onPool (by cases h <;> rfl)
  | dataConn h => exact portStep_of_not_onPool (by cases h <;> rfl)
  | close h => exact portStep_of_not_onPool (by cases h <;> rfl)
  | _ => exact portStep_of_not_onPool rfl

/-! ## What a session's steps do to its entry -/

/-- A session inserts and removes entries under its own id only, an entry it
    inserts has its own port and close handle, and it keeps its claim on the
    entry until it removes it. -/
def TunnelStep (t : Tid) (before : Option TunnelCtx) (op : Op) (after : Option TunnelCtx) : Prop :=
  match op with
  | .insertTunnel id e => ∃ ctx, before = some ctx ∧ after = some ctx ∧
      id = ctx.tunnelId ∧ e.close = t ∧ e.remotePort = ctx.port
  | .removeTunnel id _ => ∃ ctx, before = some ctx ∧ after = none ∧ id = ctx.tunnelId
  | _ => before = none ∨ after = before

theorem tunnelStep_of_not_onTunnels {t : Tid} {a b : Option TunnelCtx} {op : Op}
    (h : op.onTunnels = false) (hab : a = none ∨ b = a) : TunnelStep t a op b := by
  cases op <;> first | exact hab | cases h

theorem ServeTunnel.Step.not_onTunnels {pc : Pc} {f : Flow Pc} (h : Step s ctx pc op f) :
    op.onTunnels = false := by
  cases h <;> rfl

theorem ServeCliDirect.Step.tunnel {pc : Pc} {f : Flow Pc} (h : Step s ctx pc op f) :
    TunnelStep s.task (some ctx) op (some ctx) := by
  cases h with
  | record => exact ⟨ctx, rfl, rfl, rfl, rfl, rfl⟩
  | serve h | served h => exact tunnelStep_of_not_onTunnels h.not_onTunnels (Or.inr rfl)
  | _ => exact Or.inr rfl

theorem ServeCliViaNode.Step.tunnel {pc : Pc} {f : Flow Pc} (h : Step s ctx node pc op f) :
    TunnelStep s.task (some ctx) op (some ctx) := by
  cases h with
  | record => exact ⟨ctx, rfl, rfl, rfl, rfl, rfl⟩
  | fallback h | fellBack h => exact h.tunnel
  | _ => exact Or.inr rfl

theorem HandleCli.Step.tunnel {pc pc' : Pc} (h : Step tokens s pc op pc') :
    TunnelStep s.task pc.tunnel? op pc'.tunnel? := by
  cases h with
  | direct h | directRet h => exact h.tunnel
  | viaNode h | viaNodeRet h => exact h.tunnel
  | removed | notRecorded => exact ⟨_, rfl, rfl, rfl⟩
  | _ => first | exact Or.inr rfl | exact Or.inl rfl

theorem HandleNode.Step.not_onTunnels {t : Tid} {host : String} {reg : RegisterNode} {pc pc' : Pc}
    (h : Step tokens t host reg pc op pc') : op.onTunnels = false := by
  cases h with
  | forward h | forwarded h => cases h <;> rfl
  | _ => rfl

theorem ServerTask.Step.tunnel {t : Tid} {k k' : ServerTask} (h : Step tokens t k op k') :
    TunnelStep t k.tunnel? op k'.tunnel? := by
  cases h with
  | cli h => exact h.tunnel
  | node h => exact tunnelStep_of_not_onTunnels h.not_onTunnels (Or.inr rfl)
  | visitor h => cases h <;> exact Or.inr rfl
  | dataConn h => cases h <;> exact Or.inr rfl
  | close h => cases h <;> exact Or.inr rfl
  | _ => exact Or.inl rfl

end Steps

/-! ## The invariants -/

/-- The pool and the sessions partition the configured range. -/
structure PortInv (cfg : ServerConfig) (c : Server) : Prop where
  range : c.shared.portMgr.range = cfg.portRange
  free_inRange : ∀ port ∈ c.shared.portMgr.available, c.shared.portMgr.inRange port = true
  held_inRange : ∀ t port, (c.task t).port? = some port → c.shared.portMgr.inRange port = true
  held_not_free : ∀ t port, (c.task t).port? = some port → port ∉ c.shared.portMgr.available
  free_or_held : ∀ port, c.shared.portMgr.inRange port = true →
    port ∈ c.shared.portMgr.available ∨ ∃ t, (c.task t).port? = some port
  unique : ∀ t t' port, (c.task t).port? = some port → (c.task t').port? = some port → t = t'

/-- An entry of the dashboard belongs to the session that its close handle
    names, which still holds its port and will remove it. -/
def TunnelInv (c : Server) : Prop :=
  ∀ id e, c.shared.activeTunnels.lookup id = some e →
    (c.task e.close).tunnel? = some ⟨id, e.remotePort⟩

section Invariants

variable {cfg : ServerConfig} {c c' : Server} {t : Tid} {op : Op}

theorem portInv_start : PortInv cfg (Server.start cfg) where
  range := rfl
  free_inRange port hp := by
    rw [PortManager.inRange_iff]
    exact PortManager.mem_ports.mp hp
  held_inRange t port h := by cases h
  held_not_free t port h := by cases h
  free_or_held port h := Or.inl (PortManager.mem_ports.mpr (PortManager.inRange_iff.mp h))
  unique t t' port h := by cases h

/-- The ports of the range that the pool does not have. -/
def PortManager.used (pm : PortManager) (port : UInt16) : Bool :=
  pm.inRange port && decide (port ∉ pm.available)

theorem PortManager.used_iff {pm : PortManager} {port : UInt16} :
    pm.used port = true ↔ pm.inRange port = true ∧ port ∉ pm.available := by
  rw [used, Bool.and_eq_true, decide_eq_true_iff]

/-- The pool is right about the sessions if the ports that it does not have are
    owned by one session each. -/
theorem portInv_iff : PortInv cfg c ↔ c.shared.portMgr.range = cfg.portRange ∧
    (∀ port ∈ c.shared.portMgr.available, c.shared.portMgr.inRange port = true) ∧
      Conc.Owned c.shared.portMgr.used fun t => (c.task t).port? := by
  constructor
  · intro hi
    refine ⟨hi.range, hi.free_inRange, fun port hu => ?_, fun t port ht => ?_, hi.unique⟩
    · obtain ⟨hin, hfree⟩ := PortManager.used_iff.mp hu
      exact (hi.free_or_held port hin).resolve_left hfree
    · exact PortManager.used_iff.mpr ⟨hi.held_inRange t port ht, hi.held_not_free t port ht⟩
  · rintro ⟨hrange, hfree, ho⟩
    refine ⟨hrange, hfree, fun t port ht => (PortManager.used_iff.mp (ho.used t port ht)).1,
      fun t port ht => (PortManager.used_iff.mp (ho.used t port ht)).2,
      fun port hin => ?_, ho.unique⟩
    by_cases hp : port ∈ c.shared.portMgr.available
    · exact Or.inl hp
    · exact Or.inr (ho.owner port (PortManager.used_iff.mpr ⟨hin, hp⟩))

theorem portInv_step (hi : PortInv cfg c) (h : (server cfg).step c (t, op) = some c') :
    PortInv cfg c' := by
  have hx := server_step_exec h
  have hrange := ServerState.exec_range hx
  have hin : ∀ port, c'.shared.portMgr.inRange port = c.shared.portMgr.inRange port := by
    intro port
    simp only [PortManager.inRange, hrange]
  have hself := (server_step_self h).port
  have hown : ∀ p, (c'.task t).port? = p → (fun u => (c'.task u).port?) =
      Function.update (fun u => (c.task u).port?) t p := by
    intro p hp
    funext u
    by_cases hu : u = t
    · rw [hu, Function.update_self, hp]
    · rw [Function.update_of_ne hu]
      exact server_step_attr (fun _ _ => rfl) h hu
  obtain ⟨hcfg, hfree, ho⟩ := portInv_iff.mp hi
  refine portInv_iff.mpr ⟨hrange.trans hcfg, ?_⟩
  rcases ht : op.takes? with _ | p
  · rcases hg : op.gives? with _ | p
    -- The step neither takes nor gives a port.
    · simp only [PortStep, ht, hg] at hself
      rw [ServerState.exec_keeps hx ht hg, hown _ hself, Function.update_eq_self]
      exact ⟨hfree, ho⟩
    -- Session `t` releases `p`.
    · simp only [PortStep, ht, hg] at hself
      obtain ⟨hb, ha⟩ := hself
      have hp := hi.held_inRange t p hb
      have hav := ServerState.exec_gives hx hg hp
      have hused : c'.shared.portMgr.used = Function.update c.shared.portMgr.used p false := by
        funext q
        rw [PortManager.used, hin, hav, Function.update_apply]
        by_cases hq : q = p <;> simp [hq, PortManager.used]
      rw [hused, hown _ ha]
      refine ⟨fun q hq => ?_, ho.release hb⟩
      rw [hin]
      rw [hav, Finset.mem_insert] at hq
      obtain rfl | hq := hq
      · exact hp
      · exact hfree q hq
  -- Session `t` takes `p`, which was free.
  · simp only [PortStep, ht] at hself
    obtain ⟨hb, ha⟩ := hself
    obtain ⟨hp, hav⟩ := ServerState.exec_takes hx ht
    have hused : c'.shared.portMgr.used = Function.update c.shared.portMgr.used p true := by
      funext q
      rw [PortManager.used, hin, hav, Function.update_apply]
      by_cases hq : q = p
      · simp [hq, hfree p hp]
      · simp [hq, PortManager.used]
    rw [hused, hown _ ha]
    refine ⟨fun q hq => ?_, ho.acquire ?_ hb⟩
    · rw [hin]
      rw [hav] at hq
      exact hfree q (Finset.mem_of_mem_erase hq)
    · simp [PortManager.used, hp]

theorem tunnelInv_step (hi : TunnelInv c) (h : (server cfg).step c (t, op) = some c') :
    TunnelInv c' := by
  have hx := server_step_exec h
  have hself := (server_step_self h).tunnel
  have hother : ∀ u, u ≠ t → (c'.task u).tunnel? = (c.task u).tunnel? := fun u hu =>
    server_step_attr (fun _ _ => rfl) h hu
  intro id e he
  by_cases hop : op.onTunnels = true
  · cases op with
    | insertTunnel id' e' =>
        obtain ⟨ctx, hb, ha, rfl, hclose, hport⟩ := hself
        rw [ServerState.exec_insertTunnel hx] at he
        split at he
        · rename_i hid
          obtain rfl := Option.some.inj he
          rw [hclose, ha, hid, hport]
        · have hold := hi id e he
          by_cases hu : e.close = t
          · rw [hu, hb] at hold
            rw [hu, ha, hold]
          · rw [hother _ hu, hold]
    | removeTunnel id' got =>
        obtain ⟨ctx, hb, ha, rfl⟩ := hself
        rw [(ServerState.exec_removeTunnel hx).2] at he
        split at he
        · cases he
        · rename_i hid
          have hold := hi id e he
          by_cases hu : e.close = t
          · rw [hu, hb] at hold
            cases hold
            exact absurd rfl hid
          · rw [hother _ hu, hold]
    | _ => cases hop
  · rw [Bool.not_eq_true] at hop
    rw [ServerState.exec_activeTunnels hx hop] at he
    have hold := hi id e he
    by_cases hu : e.close = t
    · have hkeep : (c.task t).tunnel? = none ∨ (c'.task t).tunnel? = (c.task t).tunnel? := by
        cases op <;> first | exact hself | cases hop
      rw [hu] at hold ⊢
      obtain hn | hk := hkeep
      · rw [hn] at hold
        cases hold
      · rw [hk, hold]
    · rw [hother _ hu, hold]

/-- The pool and the sessions partition the range in every reachable state. -/
theorem portInv {ls : List (Tid × Op)} (h : (server cfg).Run ls c) : PortInv cfg c :=
  Conc.Lts.Run.induct (P := fun _ c => PortInv cfg c) portInv_start
    (fun _ _ _ _ _ hi hs => portInv_step hi hs) h

theorem tunnelInv {ls : List (Tid × Op)} (h : (server cfg).Run ls c) : TunnelInv c := by
  refine Conc.Lts.Run.induct (P := fun _ c => TunnelInv c) ?_
    (fun _ _ _ _ _ hi hs => tunnelInv_step hi hs) h
  intro id e he
  cases he

end Invariants

/-! ## Refused sessions -/

/-- The ports that live sessions hold. -/
def Server.held (c : Server) : Set UInt16 :=
  {port | ∃ t, (c.task t).port? = some port}

/-- The configured range `[start, end]`. -/
def ServerConfig.ports (cfg : ServerConfig) : Set UInt16 :=
  {port | cfg.portRange.1 ≤ port ∧ port ≤ cfg.portRange.2}

/-- No port can be given to a session that asks for `remotePort`. -/
def Server.Exhausted (cfg : ServerConfig) (c : Server) : Option UInt16 → Prop
  | some port => port ∉ cfg.ports ∨ port ∈ c.held
  | none => cfg.ports ⊆ c.held

/-- Session `t` asked for a port in a state of the run that had none for it. -/
def RefusedWithin (cfg : ServerConfig) (ls : List (Tid × Op)) (t : Tid) : Prop :=
  ∃ ls₁ op ls₂ c register, ls = ls₁ ++ (t, op) :: ls₂ ∧ (server cfg).Run ls₁ c ∧
    c.task t = .cli register .acquire ∧ c.Exhausted cfg register.remotePort

/-- The refusal when no port is free. -/
def noPortMsg : Message := .error ⟨"no port available"⟩

theorem RefusedWithin.append {cfg : ServerConfig} {ls : List (Tid × Op)} {t : Tid}
    (h : RefusedWithin cfg ls t) (a : Tid × Op) : RefusedWithin cfg (ls ++ [a]) t := by
  obtain ⟨ls₁, op, ls₂, c, register, rfl, h⟩ := h
  exact ⟨ls₁, op, ls₂ ++ [a], c, register, by simp, h⟩

theorem ServeCliDirect.Pc.frame_ne_noPort {s : SessionCtx} {ctx : TunnelCtx} {pc : Pc} {w : Tid} :
    pc.frame? s ctx ≠ some (w, noPortMsg) := by
  cases pc with
  | serve pc => cases pc <;> simp [frame?, ServeTunnel.Pc.frame?, ServeTunnel.notice, noPortMsg]
  | _ => simp [frame?, registeredMsg, noPortMsg]

theorem ServeCliViaNode.Pc.frame_ne_noPort {s : SessionCtx} {ctx : TunnelCtx} {node : NodeInfo}
    {pc : Pc} {w : Tid} : pc.frame? s ctx node ≠ some (w, noPortMsg) := by
  cases pc with
  | fallback pc => exact ServeCliDirect.Pc.frame_ne_noPort
  | _ => simp [frame?, openMsg, closeMsg, registeredMsg, noPortMsg]

/-- Only a session whose `acquire` failed goes on to write the refusal. -/
theorem ServerTask.Step.noPort {tokens : List String} {t w : Tid} {k k' : ServerTask} {op : Op}
    (h : Step tokens t k op k') (hf : k'.frame? t = some (w, noPortMsg)) :
    w = t ∧ ∃ register, k = .cli register .acquire ∧
      (register.remotePort = none ∧ op = .acquire none ∨
        ∃ port, register.remotePort = some port ∧ op = .acquireSpecific port none) := by
  cases h with
  | connect =>
      rename_i first
      rcases first with _ | _ | m <;> try cases m
      all_goals simp [handleClient, frame?, HandleCli.Pc.frame?, HandleNode.Pc.frame?, noPortMsg]
        at hf
  | cli h =>
      cases h with
      | taken hr => cases hf; exact ⟨rfl, _, rfl, Or.inr ⟨_, hr, rfl⟩⟩
      | exhausted hr => cases hf; exact ⟨rfl, _, rfl, Or.inl ⟨hr, rfl⟩⟩
      | direct h => exact absurd hf ServeCliDirect.Pc.frame_ne_noPort
      | viaNode h => exact absurd hf ServeCliViaNode.Pc.frame_ne_noPort
      | _ => simp [frame?, HandleCli.Pc.frame?, ServeCliDirect.Pc.frame?,
          ServeCliViaNode.Pc.frame?, noPortMsg] at hf
  | node h =>
      cases h with
      | forward h =>
          cases h <;>
            simp [frame?, HandleNode.Pc.frame?, ForwardVisitor.notice, noPortMsg] at hf
      | _ => simp [frame?, HandleNode.Pc.frame?, noPortMsg] at hf
  | _ => cases hf

/-- Whoever is about to write the refusal, or has written it, was refused. -/
structure RefusalInv (cfg : ServerConfig) (ls : List (Tid × Op)) (c : Server) : Prop where
  next : ∀ t w, (c.task t).frame? t = some (w, noPortMsg) → w = t ∧ RefusedWithin cfg ls t
  sent : ∀ t, noPortMsg ∈ messages t ls → RefusedWithin cfg ls t

section Refusals

variable {cfg : ServerConfig} {ls : List (Tid × Op)} {c c' : Server} {t : Tid} {op : Op}

/-- A port of the range that is not in the pool is held. -/
theorem PortInv.held_of_not_free (hi : PortInv cfg c) {port : UInt16} (hp : port ∈ cfg.ports)
    (hf : port ∉ c.shared.portMgr.available) : port ∈ c.held := by
  have hr : c.shared.portMgr.inRange port = true := by
    rw [PortManager.inRange_iff, hi.range]
    exact hp
  exact (hi.free_or_held port hr).resolve_left hf

theorem exhausted_of_refused (hi : PortInv cfg c) {register : Register}
    (hx : c.shared.exec t op = some c'.shared)
    (hop : register.remotePort = none ∧ op = .acquire none ∨
      ∃ port, register.remotePort = some port ∧ op = .acquireSpecific port none) :
    c.Exhausted cfg register.remotePort := by
  obtain ⟨hr, rfl⟩ | ⟨port, hr, rfl⟩ := hop
  · rw [hr]
    intro port hp
    refine hi.held_of_not_free hp ?_
    simp [ServerState.exec_acquire_none hx]
  · rw [hr]
    by_cases hp : port ∈ cfg.ports
    · refine Or.inr (hi.held_of_not_free hp ?_)
      obtain hn | hn := ServerState.exec_acquireSpecific_none hx
      · rw [← Bool.not_eq_true, PortManager.inRange_iff, hi.range] at hn
        exact absurd hp hn
      · exact hn
    · exact Or.inl hp

theorem refusalInv_step (hr : (server cfg).Run ls c) (hi : RefusalInv cfg ls c)
    (h : (server cfg).step c (t, op) = some c') : RefusalInv cfg (ls ++ [(t, op)]) c' := by
  constructor
  case next =>
    intro u w hf
    by_cases hu : u = t
    · subst hu
      obtain ⟨hw, register, hk, hop⟩ := (server_step_self h).noPort hf
      exact ⟨hw, ls, op, [], c, register, rfl, hr, hk,
        exhausted_of_refused (portInv hr) (server_step_exec h) hop⟩
    · have he : (c'.task u).frame? u = (c.task u).frame? u :=
        server_step_attr (f := ServerTask.frame? u) (fun _ _ => rfl) h hu
      rw [he] at hf
      obtain ⟨hw, hrw⟩ := hi.next u w hf
      exact ⟨hw, hrw.append _⟩
  case sent =>
    intro u hm
    obtain hm | ⟨ok, hf⟩ := mem_messages_snoc.mp hm
    · exact (hi.sent u hm).append _
    · obtain ⟨rfl, hrw⟩ := hi.next t u ((server_step_self h).frame hf)
      exact hrw.append _

theorem refusalInv (h : (server cfg).Run ls c) : RefusalInv cfg ls c := by
  refine Conc.Lts.Run.induct (P := RefusalInv cfg) ⟨?_, nofun⟩
    (fun _ _ _ _ hr hi hs => refusalInv_step hr hi hs) h
  intro t w hf
  cases hf

end Refusals

/-! ## Port accounting -/

/-- In every reachable state the pool and the ports held by live sessions
    partition the configured range, every dashboard entry and every listener is
    on the port that its own live session holds, and whoever was told that no
    port is available asked when there was none for it. -/
theorem port_accounting {cfg : ServerConfig} {ls : List (Tid × Op)} {c : Server}
    (h : (server cfg).Run ls c) :
    Disjoint (c.shared.portMgr.available : Set UInt16) c.held ∧
    (c.shared.portMgr.available : Set UInt16) ∪ c.held = cfg.ports ∧
    (∀ t t' port, (c.task t).port? = some port → (c.task t').port? = some port → t = t') ∧
    (∀ id e, c.shared.activeTunnels.lookup id = some e →
      (c.task e.close).tunnel? = some ⟨id, e.remotePort⟩ ∧
      (c.task e.close).port? = some e.remotePort) ∧
    (∀ id id' e e', c.shared.activeTunnels.lookup id = some e →
      c.shared.activeTunnels.lookup id' = some e' → e.remotePort = e'.remotePort → id = id') ∧
    (∀ t port, (c.task t).listening? = some port →
      (c.task t).port? = some port ∧ port ∉ c.shared.portMgr.available) ∧
    (∀ t, noPortMsg ∈ messages t ls → RefusedWithin cfg ls t) := by
  have hp := portInv h
  have ht := tunnelInv h
  have hin : ∀ port, c.shared.portMgr.inRange port = true ↔ port ∈ cfg.ports := by
    intro port
    rw [PortManager.inRange_iff, hp.range]
    rfl
  have hentry : ∀ id e, c.shared.activeTunnels.lookup id = some e →
      (c.task e.close).port? = some e.remotePort := fun id e he =>
    ServerTask.port?_of_tunnel? (ht id e he)
  refine ⟨?_, ?_, hp.unique, fun id e he => ⟨ht id e he, hentry id e he⟩, ?_, ?_,
    (refusalInv h).sent⟩
  · rw [Set.disjoint_left]
    rintro port hf ⟨t, hheld⟩
    exact hp.held_not_free t port hheld hf
  · ext port
    constructor
    · rintro (hf | ⟨t, hheld⟩)
      · exact (hin port).mp (hp.free_inRange port hf)
      · exact (hin port).mp (hp.held_inRange t port hheld)
    · intro hr
      exact hp.free_or_held port ((hin port).mpr hr)
  -- Two entries on one port have one session, which has one entry.
  · intro id id' e e' he he' hport
    have hclose : e.close = e'.close :=
      hp.unique _ _ _ (hentry id e he) (hport ▸ hentry id' e' he')
    have heq := ht id e he
    rw [hclose, ht id' e' he'] at heq
    exact (TunnelCtx.mk.inj (Option.some.inj heq)).1.symm
  · intro t port hl
    have hheld := ServerTask.port?_of_listening? hl
    exact ⟨hheld, hp.held_not_free t port hheld⟩

/-- A server with a single public port. -/
def onePort : ServerConfig := ⟨(7000, 7000), ["secret"]⟩

/-- A CLI that asks for any port. -/
def anyPort : Register := ⟨"secret", .tcp, 3000, none, none, none⟩

/-- The second of two sessions finds the only port taken. -/
def takenRun : List (Tid × Op) :=
  [(1, .connect "10.0.0.1" (some (some (.register anyPort)))), (1, .compute),
   (2, .connect "10.0.0.2" (some (some (.register anyPort)))), (2, .compute),
   (1, .acquire (some 7000)), (1, .uuid "t"), (2, .acquire none), (1, .pick none none),
   (2, .send 2 noPortMsg true)]

theorem port_accounting_taken :
    ∃ c, (server onePort).Run takenRun c ∧
      (c.shared.portMgr.available : Set UInt16) ∪ c.held = onePort.ports ∧
      RefusedWithin onePort takenRun 2 := by
  obtain ⟨c, hc, -⟩ : ∃ c, (server onePort).Run takenRun c ∧ True :=
    Conc.Lts.exists_run (by decide)
  obtain ⟨_, hunion, _, _, _, _, hrefused⟩ := port_accounting hc
  exact ⟨c, hc, hunion, hrefused 2 (by decide)⟩

end Borehole
