/-
  Borehole.Server.Grants

  The port that a session is given.

  It is the one its `Register` asks for, or any port of the pool, and always one
  of the configured range.  The session listens on it or orders it from a node,
  and its entry shows it together with the rest of the `Register`.
-/

import Borehole.Server.Ids

namespace Borehole

open Conc

/-- The port that a session has been given, also once it has given it back. -/
def ServerTask.assigned? : ServerTask → Option UInt16
  | .cli _ (.tunnelId port) => some port
  | .cli _ pc => pc.ctx?.map TunnelCtx.port
  | _ => none

theorem ServerTask.assigned_of_ctx {k : ServerTask} {ctx : TunnelCtx} (h : k.ctx? = some ctx) :
    k.assigned? = some ctx.port := by
  cases k with
  | cli r pc =>
      have hpc : pc.ctx? = some ctx := h
      cases pc <;> cases hpc <;> rfl
  | _ => cases h

theorem ServerTask.port_of_held {k : ServerTask} {ctx : TunnelCtx} (h : k.ctx? = some ctx)
    (hheld : k.port?.isSome = true) : k.port? = some ctx.port := by
  cases k with
  | cli r pc =>
      have hpc : pc.ctx? = some ctx := h
      cases pc <;> cases hpc <;> first | rfl | cases hheld
  | _ => cases h

section Steps

variable {tokens : List String} {s : SessionCtx} {ctx : TunnelCtx} {node : NodeInfo} {t : Tid}
  {op : Op} {k k' : ServerTask} {port : UInt16} {id : String} {e : TunnelEntry}

/-- A session is given the port it has asked for, if it has asked for one. -/
theorem ServerTask.Step.assigned {r : Register} (h : Step tokens t k op k')
    (hr : k'.cli? = some r) (hk : k'.assigned? = some port) :
    k.assigned? = some port ∨
      op.takes? = some port ∧ ∀ q, r.remotePort = some q → op = .acquireSpecific q (some port) := by
  cases h with
  | @connect peer first =>
      have hd := handleClient_dispatched peer first
      generalize handleClient peer first = k' at hd hk
      cases hd <;> cases hk
  | cli h =>
      cases hr
      cases h with
      | @acquireSpecific q p hp =>
          have hask : r.remotePort = some q := hp
          cases hk
          refine Or.inr ⟨rfl, ?_⟩
          intro q' hq
          rw [hask] at hq
          cases hq
          rfl
      | acquire hp =>
          have hask : r.remotePort = none := hp
          cases hk
          refine Or.inr ⟨rfl, ?_⟩
          intro q hq
          rw [hask] at hq
          cases hq
      | rejected | taken | exhausted | badToken | hostname | anonymous | deviceNow | device =>
          cases hk
      | _ => exact Or.inl hk
  | _ => cases hr

/-- A session listens on its port since it has bound it. -/
theorem ServeCliDirect.Step.binds {pc pc' : Pc} (h : Step s ctx pc op (.at pc'))
    (hb : pc'.bound = true) : pc.bound = true ∨ op = .bind ctx.port true := by
  cases h with
  | bound => exact Or.inr rfl
  | bindFailed => cases hb
  | _ => exact Or.inl rfl

theorem ServerTask.Step.listens (h : Step tokens t k op k') (hk : k'.listening? = some port) :
    k.listening? = some port ∨ op = .bind port true := by
  cases h with
  | @connect peer first =>
      have hd := handleClient_dispatched peer first
      generalize handleClient peer first = k' at hd hk
      cases hd <;> cases hk
  | cli h =>
      cases h with
      | @direct ctx pc op pc' h =>
          obtain ⟨hb, hport⟩ := Option.ite_none_right_eq_some.mp hk
          cases hport
          exact (h.binds hb).imp_left fun hb => if_pos hb
      | viaNode h =>
          cases h with
          | @fallback pc op pc' h =>
              obtain ⟨hb, hport⟩ := Option.ite_none_right_eq_some.mp hk
              cases hport
              exact (h.binds hb).imp_left fun hb => if_pos hb
          | lockFallback => cases hk
          | _ => cases hk
      | _ => cases hk
  | _ => cases hk

/-- What an entry shows of its tunnel. -/
def TunnelEntry.Shows (e : TunnelEntry) (r : Register) : Prop :=
  e.protocol = r.protocol ∧ e.localPort = r.localPort ∧ e.hostname = r.hostname

/-- A session inserts an entry of its own, that shows its `Register`. -/
theorem ServeCliDirect.Step.records {pc : Pc} {f : Flow Pc}
    (h : Step s ctx pc (.insertTunnel id e) f) : e.close = s.task ∧ e.Shows s.register := by
  cases h with
  | record => exact ⟨rfl, rfl, rfl, rfl⟩
  | serve h | served h => cases h

theorem ServerTask.Step.records (h : Step tokens t k (.insertTunnel id e) k') :
    e.close = t ∧ ∃ r, k.cli? = some r ∧ e.Shows r := by
  cases h with
  | cli h =>
      cases h with
      | direct h | directRet h =>
          obtain ⟨hclose, hshows⟩ := h.records
          exact ⟨hclose, _, rfl, hshows⟩
      | viaNode h =>
          cases h with
          | record => exact ⟨rfl, _, rfl, rfl, rfl, rfl⟩
          | fallback h | fellBack h =>
              obtain ⟨hclose, hshows⟩ := h.records
              exact ⟨hclose, _, rfl, hshows⟩
      | viaNodeRet h => cases h
  | node h =>
      cases h with
      | forward h | forwarded h => cases h
  | visitor h | dataConn h | close h => cases h

end Steps

section Runs

variable {cfg : ServerConfig} {ls : List (Tid × Op)} {c c' : Server} {t : Tid} {port : UInt16}
  {r : Register} {id : String} {e : TunnelEntry}

/-- A session is given a port of the configured range, and the one it asks for. -/
theorem granted (hr : (server cfg).Run ls c) (hk : (c.task t).cli? = some r)
    (ha : (c.task t).assigned? = some port) :
    port ∈ cfg.ports ∧ ∀ q, r.remotePort = some q → port = q := by
  refine Lts.Run.induct (P := fun _ c => ∀ t r port, (c.task t).cli? = some r →
    (c.task t).assigned? = some port → port ∈ cfg.ports ∧ ∀ q, r.remotePort = some q → port = q)
    ?_ ?_ hr t r port hk ha
  · intro t r port hk
    cases hk
  · rintro ls c ⟨u, op⟩ c' hr ih hs t r port hk ha
    by_cases htu : t = u
    · subst htu
      have hself := server_step_self hs
      obtain ha | ⟨htakes, hask⟩ := hself.assigned hk ha
      · have hcli : (c.task t).cli? = some r := by
          cases hold : (c.task t).cli? with
          | some r' => rw [← hk, server_step_cli hs hold]
          | none =>
              generalize c.task t = k at ha hold
              cases k <;> first | cases ha | cases hold
        exact ih t r port hcli ha
      -- the port is taken out of the pool now
      · have hx := server_step_exec hs
        have hpool := (ServerState.exec_takes hx htakes).1
        have hrange := (portInv hr).free_inRange port hpool
        rw [PortManager.inRange_iff, (portInv hr).range] at hrange
        refine ⟨hrange, ?_⟩
        intro q hq
        have hop := hask q hq
        subst hop
        obtain ⟨hgot, -⟩ := Option.ite_none_right_eq_some.mp hx
        exact (PortManager.acquireSpecific_some hgot).1
    · rw [server_step_attr (f := ServerTask.cli?) (fun _ _ => rfl) hs htu] at hk
      rw [server_step_attr (f := ServerTask.assigned?) (fun _ _ => rfl) hs htu] at ha
      exact ih t r port hk ha

theorem bound_of_listening (hr : (server cfg).Run ls c)
    (hk : (c.task t).listening? = some port) : (t, .bind port true) ∈ ls := by
  refine Lts.Run.induct (P := fun ls c => (c.task t).listening? = some port →
    (t, .bind port true) ∈ ls) ?_ ?_ hr hk
  · intro hk
    cases hk
  · rintro ls c ⟨u, op⟩ c' - ih hs hk
    by_cases htu : t = u
    · subst htu
      obtain hk | rfl := (server_step_self hs).listens hk
      · exact List.mem_append_left _ (ih hk)
      · exact List.mem_append_right _ (List.mem_singleton.mpr rfl)
    · rw [server_step_attr (f := ServerTask.listening?) (fun _ _ => rfl) hs htu] at hk
      exact List.mem_append_left _ (ih hk)

/-- An entry shows the `Register` of the session that it names. -/
theorem entry_shows (hr : (server cfg).Run ls c)
    (hl : c.shared.activeTunnels.lookup id = some e) :
    ∃ r, (c.task e.close).cli? = some r ∧ e.Shows r := by
  refine Lts.Run.induct (P := fun _ c => ∀ id e, c.shared.activeTunnels.lookup id = some e →
    ∃ r, (c.task e.close).cli? = some r ∧ e.Shows r) ?_ ?_ hr id e hl
  · intro id e hl
    cases hl
  · rintro ls c ⟨u, op⟩ c' - ih hs id e hl
    obtain rfl | hl := ServerState.exec_entry (server_step_exec hs) hl
    · obtain ⟨rfl, r, hk, hshows⟩ := (server_step_self hs).records
      exact ⟨r, server_step_cli hs hk, hshows⟩
    · obtain ⟨r, hk, hshows⟩ := ih id e hl
      exact ⟨r, server_step_cli hs hk, hshows⟩

end Runs

end Borehole
