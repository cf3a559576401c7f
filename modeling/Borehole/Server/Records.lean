/-
  Borehole.Server.Records

  The history of closed tunnels.

  A record keeps two readings of the clock: one taken before the tunnel was
  recorded, one after its entry was removed, both by the session that held the
  port.  The next session on the port gets it only after the record is written,
  so it reads the clock for its own start later than both.
-/

import Borehole.Server.Lifecycle
import Borehole.Server.Orders
import Borehole.Server.Pages

namespace Borehole

/-! ## What a run records and when -/

/-- The clock reading of an operation. -/
def Op.now? : Op → Option DateTime
  | .now t => some t
  | _ => none

/-- The record that an operation adds to the history. -/
def Op.record? : Op → Option TunnelHistory
  | .recordTunnel h => some h
  | _ => none

/-- The entry that an operation adds to `active_tunnels`. -/
def Op.insert? : Op → Option TunnelEntry
  | .insertTunnel _ e => some e
  | _ => none

/-- The clock readings of a run, in order. -/
def clock (ls : List (Tid × Op)) : List DateTime :=
  ls.filterMap fun a => a.2.now?

/-- The tunnels that a run archives, in order. -/
def archive (ls : List (Tid × Op)) : List TunnelHistory :=
  ls.filterMap fun a => a.2.record?

theorem clock_snoc (ls : List (Tid × Op)) (t : Tid) (op : Op) :
    clock (ls ++ [(t, op)]) = clock ls ++ op.now?.toList := by
  rw [clock, List.filterMap_append, clock]
  cases h : op.now? <;> simp [h]

theorem archive_snoc (ls : List (Tid × Op)) (t : Tid) (op : Op) :
    archive (ls ++ [(t, op)]) = archive ls ++ op.record?.toList := by
  rw [archive, List.filterMap_append, archive]
  cases h : op.record? <;> simp [h]

/-- `a` was read from the clock before `b` was. -/
def ReadBefore (ls : List (Tid × Op)) (a b : DateTime) : Prop :=
  [a, b].Sublist (clock ls)

section Readings

variable {ls : List (Tid × Op)} {a b : DateTime} {t : Tid} {op : Op}

theorem clock_sublist : (clock ls).Sublist (clock (ls ++ [(t, op)])) := by
  rw [clock_snoc]
  exact List.sublist_append_left _ _

theorem ReadBefore.snoc (h : ReadBefore ls a b) : ReadBefore (ls ++ [(t, op)]) a b :=
  h.trans clock_sublist

theorem mem_clock_snoc (h : a ∈ clock ls) : a ∈ clock (ls ++ [(t, op)]) :=
  clock_sublist.subset h

/-- A new reading comes after all others. -/
theorem readBefore_now (h : a ∈ clock ls) (hop : op.now? = some b) :
    ReadBefore (ls ++ [(t, op)]) a b := by
  have hsub : [a].Sublist (clock ls) := List.singleton_sublist.mpr h
  rw [ReadBefore, clock_snoc, hop]
  exact hsub.append (List.Sublist.refl [b])

theorem ReadBefore.le (h : ReadBefore ls a b) (hclock : (clock ls).Pairwise (· ≤ ·)) : a ≤ b :=
  List.pairwise_pair.mp (hclock.sublist h)

theorem ReadBefore.lt (h : ReadBefore ls a b) (hclock : (clock ls).Pairwise (· < ·)) : a < b :=
  List.pairwise_pair.mp (hclock.sublist h)

end Readings

/-! ## What a session knows about its record -/

/-- When the tunnel that is about to enter the table on the direct path was started. -/
def ServeCliDirect.Pc.starting? : ServeCliDirect.Pc → Option DateTime
  | .record t => some t
  | _ => none

/-- When the tunnel that is about to enter the table through a node was started. -/
def ServeCliViaNode.Pc.starting? : ServeCliViaNode.Pc → Option DateTime
  | .record t => some t
  | .fallback pc => pc.starting?
  | _ => none

/-- The start that a session has read and not recorded yet, with its port. -/
def ServerTask.starting? : ServerTask → Option (UInt16 × DateTime)
  | .cli _ (.direct ctx pc) => pc.starting?.map fun t => (ctx.port, t)
  | .cli _ (.viaNode ctx _ pc) => pc.starting?.map fun t => (ctx.port, t)
  | _ => none

/-- The entry that a session has removed and not archived yet. -/
def ServerTask.removed? : ServerTask → Option (TunnelCtx × TunnelEntry)
  | .cli _ (.endedAt ctx e) | .cli _ (.archive ctx e _) => some (ctx, e)
  | _ => none

/-- The entry that a session is about to archive, with its end. -/
def ServerTask.ended? : ServerTask → Option (TunnelEntry × DateTime)
  | .cli _ (.archive _ e t) => some (e, t)
  | _ => none

/-- What a step does to a session's record. -/
inductive RecordStep (k : ServerTask) (op : Op) (k' : ServerTask) : Prop where
  | starts {port t} : op = .now t → k'.starting? = some (port, t) → k'.removed? = .none →
      k'.ended? = .none → RecordStep k op k'
  | records {id e} : op = .insertTunnel id e → k.starting? = some (e.remotePort, e.startedAt) →
      k'.starting? = .none → k'.removed? = .none → k'.ended? = .none → RecordStep k op k'
  | removes {ctx e} : op = .removeTunnel ctx.tunnelId (some e) → k.tunnel? = some ctx →
      k'.starting? = .none → k'.removed? = some (ctx, e) → k'.ended? = .none → RecordStep k op k'
  | ends {ctx e t} : op = .now t → k.removed? = some (ctx, e) → k'.starting? = .none →
      k'.removed? = some (ctx, e) → k'.ended? = some (e, t) → RecordStep k op k'
  | archives {ctx e t h} : op = .recordTunnel h → k.removed? = some (ctx, e) →
      k.ended? = some (e, t) → h.remotePort = e.remotePort → h.startedAt = e.startedAt →
      h.endedAt = t → k'.starting? = .none → k'.removed? = .none → k'.ended? = .none →
      RecordStep k op k'
  | none : op.record? = .none → op.insert? = .none →
      k'.starting? = k.starting? → k'.removed? = k.removed? → k'.ended? = k.ended? →
      RecordStep k op k'

/-- What a step of `serve_cli_direct` does to the start it has read. -/
inductive StartStep (ctx : TunnelCtx) (before : Option DateTime) (op : Op)
    (after : Option DateTime) : Prop where
  | starts {now} : op = .now now → after = some now → StartStep ctx before op after
  | records {id e} : op = .insertTunnel id e → before = some e.startedAt →
      e.remotePort = ctx.port → after = .none → StartStep ctx before op after
  | none : op.record? = .none → op.insert? = .none → after = before →
      StartStep ctx before op after

section Steps

variable {tokens : List String} {s : SessionCtx} {ctx : TunnelCtx} {node : NodeInfo} {t : Tid}
  {k k' : ServerTask} {op : Op}

theorem ServeCliDirect.Step.start {pc pc' : Pc} (h : Step s ctx pc op (.at pc')) :
    StartStep ctx pc.starting? op pc'.starting? := by
  cases h with
  | startedAt => exact .starts rfl rfl
  | record => exact .records rfl rfl rfl rfl
  | serve h => cases h <;> exact .none rfl rfl rfl
  | _ => exact .none rfl rfl rfl

/-- A return leaves nothing to record. -/
theorem ServeCliDirect.Step.start_ret {pc : Pc} (h : Step s ctx pc op .ret) :
    pc.starting? = none ∧ op.record? = none ∧ op.insert? = none := by
  cases h with
  | served h => cases h <;> exact ⟨rfl, rfl, rfl⟩
  | _ => exact ⟨rfl, rfl, rfl⟩

theorem ServeCliViaNode.Step.start {pc pc' : Pc} (h : Step s ctx node pc op (.at pc')) :
    StartStep ctx pc.starting? op pc'.starting? := by
  cases h with
  | startedAt => exact .starts rfl rfl
  | record => exact .records rfl rfl rfl rfl
  | fallback h => exact h.start
  | fellBack h =>
      obtain ⟨hs, hr, hi⟩ := h.start_ret
      exact .none hr hi hs.symm
  | _ => exact .none rfl rfl rfl

theorem ServeCliViaNode.Step.start_ret {pc : Pc} (h : Step s ctx node pc op .ret) :
    pc.starting? = none ∧ op.record? = none ∧ op.insert? = none := by
  cases h <;> exact ⟨rfl, rfl, rfl⟩

theorem StartStep.recordStep {before after : Option DateTime} (h : StartStep ctx before op after)
    (hk : k.starting? = before.map fun t => (ctx.port, t))
    (hk' : k'.starting? = after.map fun t => (ctx.port, t)) (hr : k.removed? = .none)
    (hr' : k'.removed? = .none) (he : k.ended? = .none) (he' : k'.ended? = .none) :
    RecordStep k op k' := by
  cases h with
  | starts hop ha => exact .starts hop (by rw [hk', ha]; rfl) hr' he'
  | records hop hb hp ha =>
      exact .records hop (by rw [hk, hb, ← hp]; rfl) (by rw [hk', ha]; rfl) hr' he'
  | none hop hi ha =>
      exact .none hop hi (by rw [hk, hk', ha]) (hr'.trans hr.symm) (he'.trans he.symm)

theorem ServerTask.Step.record (h : Step tokens t k op k') : RecordStep k op k' := by
  cases h with
  | @connect peer first =>
      have hd := handleClient_dispatched peer first
      generalize handleClient peer first = k' at hd ⊢
      cases hd <;> exact .none rfl rfl rfl rfl rfl
  | cli h =>
      cases h with
      | direct h => exact h.start.recordStep rfl rfl rfl rfl rfl rfl
      | directRet h =>
          obtain ⟨hs, hr, hi⟩ := h.start_ret
          exact .none hr hi (by simp [starting?, hs]) rfl rfl
      | viaNode h => exact h.start.recordStep rfl rfl rfl rfl rfl rfl
      | viaNodeRet h =>
          obtain ⟨hs, hr, hi⟩ := h.start_ret
          exact .none hr hi (by simp [starting?, hs]) rfl rfl
      | removed => exact .removes rfl rfl rfl rfl rfl
      | endedAt => exact .ends rfl rfl rfl rfl rfl
      | archive => exact .archives rfl rfl rfl rfl rfl rfl rfl rfl rfl
      | _ => exact .none rfl rfl rfl rfl rfl
  | node h =>
      cases h with
      | forward h | forwarded h => cases h <;> exact .none rfl rfl rfl rfl rfl
      | _ => exact .none rfl rfl rfl rfl rfl
  | visitor h => cases h <;> exact .none rfl rfl rfl rfl rfl
  | dataConn h => cases h <;> exact .none rfl rfl rfl rfl rfl
  | close h => cases h <;> exact .none rfl rfl rfl rfl rfl
  | _ => exact .none rfl rfl rfl rfl rfl

/-- A session that has read its start holds the port it read it for. -/
theorem ServerTask.port_of_starting {port : UInt16} {at' : DateTime}
    (h : k.starting? = some (port, at')) : k.port? = some port := by
  cases k with
  | cli register pc =>
      cases pc with
      | direct ctx pc | viaNode ctx node pc =>
          obtain ⟨_, _, h⟩ := Option.map_eq_some_iff.mp h
          cases h
          rfl
      | _ => cases h
  | _ => cases h

theorem ServerTask.of_removed {e : TunnelEntry} (h : k.removed? = some (ctx, e)) :
    k.port? = some ctx.port ∧ k.tunnel? = none ∧ k.starting? = none := by
  cases k with
  | cli register pc =>
      cases pc with
      | endedAt | archive => cases h; exact ⟨rfl, rfl, rfl⟩
      | _ => cases h
  | _ => cases h

end Steps

/-! ## The invariant -/

/-- What is archived, what is in the table and what the sessions are about to
    record or to archive. -/
structure RecordInv (ls : List (Tid × Op)) (c : Server) : Prop where
  removed : ∀ t ctx e, (c.task t).removed? = some (ctx, e) → e.remotePort = ctx.port ∧
    e.startedAt ∈ clock ls ∧
    ∀ h ∈ archive ls, h.remotePort = e.remotePort → ReadBefore ls h.endedAt e.startedAt
  starting : ∀ t port at', (c.task t).starting? = some (port, at') → at' ∈ clock ls ∧
    ∀ h ∈ archive ls, h.remotePort = port → ReadBefore ls h.endedAt at'
  entry : ∀ id e, c.shared.activeTunnels.lookup id = some e → e.startedAt ∈ clock ls ∧
    ∀ h ∈ archive ls, h.remotePort = e.remotePort → ReadBefore ls h.endedAt e.startedAt
  ended : ∀ t e at', (c.task t).ended? = some (e, at') → ReadBefore ls e.startedAt at'
  interval : ∀ h ∈ archive ls, ReadBefore ls h.startedAt h.endedAt
  apart : (archive ls).Pairwise fun h h' =>
    h.remotePort = h'.remotePort → ReadBefore ls h.endedAt h'.startedAt

section Runs

variable {cfg : ServerConfig} {ls : List (Tid × Op)} {c c' : Server} {t : Tid} {op : Op}

theorem ReadBefore.right_mem {a b : DateTime} (h : ReadBefore ls a b) : b ∈ clock ls :=
  h.subset (by simp)

/-- A step that archives nothing keeps what it does not replace. -/
theorem RecordInv.quiet (hi : RecordInv ls c) (h : (server cfg).step c (t, op) = some c')
    (hop : op.record? = none)
    (hremoved : ∀ ctx e, (c'.task t).removed? = some (ctx, e) → e.remotePort = ctx.port ∧
      e.startedAt ∈ clock ls ∧
      ∀ h ∈ archive ls, h.remotePort = e.remotePort → ReadBefore ls h.endedAt e.startedAt)
    (hstarting : ∀ port at', (c'.task t).starting? = some (port, at') →
      at' ∈ clock (ls ++ [(t, op)]) ∧
      ∀ h ∈ archive ls, h.remotePort = port → ReadBefore (ls ++ [(t, op)]) h.endedAt at')
    (hentry : ∀ id e, c'.shared.activeTunnels.lookup id = some e →
      e.startedAt ∈ clock ls ∧
      ∀ h ∈ archive ls, h.remotePort = e.remotePort → ReadBefore ls h.endedAt e.startedAt)
    (hended : ∀ e at', (c'.task t).ended? = some (e, at') →
      ReadBefore (ls ++ [(t, op)]) e.startedAt at') :
    RecordInv (ls ++ [(t, op)]) c' := by
  have harchive : archive (ls ++ [(t, op)]) = archive ls := by
    rw [archive_snoc, hop, Option.toList_none, List.append_nil]
  constructor
  case removed =>
    intro u ctx e hu
    -- Who has taken its entry out is the session that steps, or has done it before.
    have hold : e.remotePort = ctx.port ∧ e.startedAt ∈ clock ls ∧
        ∀ h ∈ archive ls, h.remotePort = e.remotePort → ReadBefore ls h.endedAt e.startedAt := by
      by_cases hut : u = t
      · subst hut
        exact hremoved ctx e hu
      · rw [server_step_attr (f := ServerTask.removed?) (fun _ _ => rfl) h hut] at hu
        exact hi.removed u ctx e hu
    rw [harchive]
    exact ⟨hold.1, mem_clock_snoc hold.2.1, fun h hh hp => (hold.2.2 h hh hp).snoc⟩
  case starting =>
    intro u port at' hu
    rw [harchive]
    by_cases hut : u = t
    · subst hut
      exact hstarting port at' hu
    · rw [server_step_attr (f := ServerTask.starting?) (fun _ _ => rfl) h hut] at hu
      obtain ⟨hm, hb⟩ := hi.starting u port at' hu
      exact ⟨mem_clock_snoc hm, fun h hh hp => (hb h hh hp).snoc⟩
  case entry =>
    intro id e he
    rw [harchive]
    obtain ⟨hm, hb⟩ := hentry id e he
    exact ⟨mem_clock_snoc hm, fun h hh hp => (hb h hh hp).snoc⟩
  case ended =>
    intro u e at' hu
    by_cases hut : u = t
    · subst hut
      exact hended e at' hu
    · rw [server_step_attr (f := ServerTask.ended?) (fun _ _ => rfl) h hut] at hu
      exact (hi.ended u e at' hu).snoc
  case interval =>
    intro h hh
    rw [harchive] at hh
    exact (hi.interval h hh).snoc
  case apart =>
    rw [harchive]
    exact hi.apart.imp fun hb hp => (hb hp).snoc

/-- An archived tunnel leaves no other trace of its port. -/
theorem recordInv_archives {ctx : TunnelCtx} {e : TunnelEntry} {at' : DateTime} {h : TunnelHistory}
    (hr : (server cfg).Run ls c) (hi : RecordInv ls c)
    (hs : (server cfg).step c (t, .recordTunnel h) = some c')
    (hk : (c.task t).removed? = some (ctx, e)) (hend : (c.task t).ended? = some (e, at'))
    (hport : h.remotePort = e.remotePort) (hstart : h.startedAt = e.startedAt)
    (hat : h.endedAt = at') (hk₁ : (c'.task t).starting? = none)
    (hk₂ : (c'.task t).removed? = none) (hk₃ : (c'.task t).ended? = none) :
    RecordInv (ls ++ [(t, .recordTunnel h)]) c' := by
  obtain ⟨heport, hem, heb⟩ := hi.removed t ctx e hk
  obtain ⟨hheld, htunnel, _⟩ := ServerTask.of_removed hk
  have harchive : archive (ls ++ [(t, .recordTunnel h)]) = archive ls ++ [h] := archive_snoc ..
  have htable : c'.shared.activeTunnels = c.shared.activeTunnels :=
    ServerState.exec_activeTunnels (server_step_exec hs) rfl
  -- whoever else has the port would hold it together with `t`
  have hother : ∀ u port, (c.task u).port? = some port → h.remotePort = port → u = t := by
    rintro u port hu rfl
    rw [hport, heport] at hu
    exact (portInv hr).unique u t _ hu hheld
  constructor
  case removed =>
    intro u ctx' e' hu
    have hut : u ≠ t := by
      rintro rfl
      rw [hk₂] at hu
      cases hu
    rw [server_step_attr (f := ServerTask.removed?) (fun _ _ => rfl) hs hut] at hu
    obtain ⟨hp, hm, hb⟩ := hi.removed u ctx' e' hu
    refine ⟨hp, mem_clock_snoc hm, fun g hg hgp => ?_⟩
    rw [harchive, List.mem_append] at hg
    obtain hg | hg := hg
    · exact (hb g hg hgp).snoc
    · rw [List.mem_singleton.mp hg] at hgp
      exact absurd (hother u _ (ServerTask.of_removed hu).1 (hgp.trans hp)) hut
  case starting =>
    intro u port s hu
    have hut : u ≠ t := by
      rintro rfl
      rw [hk₁] at hu
      cases hu
    rw [server_step_attr (f := ServerTask.starting?) (fun _ _ => rfl) hs hut] at hu
    obtain ⟨hm, hb⟩ := hi.starting u port s hu
    refine ⟨mem_clock_snoc hm, fun g hg hgp => ?_⟩
    rw [harchive, List.mem_append] at hg
    obtain hg | hg := hg
    · exact (hb g hg hgp).snoc
    · rw [List.mem_singleton.mp hg] at hgp
      exact absurd (hother u _ (ServerTask.port_of_starting hu) hgp) hut
  case entry =>
    intro id e' he'
    rw [htable] at he'
    obtain ⟨hm, hb⟩ := hi.entry id e' he'
    refine ⟨mem_clock_snoc hm, fun g hg hgp => ?_⟩
    rw [harchive, List.mem_append] at hg
    obtain hg | hg := hg
    · exact (hb g hg hgp).snoc
    · rw [List.mem_singleton.mp hg] at hgp
      have hclose := tunnelInv hr id e' he'
      have hut := hother e'.close _ (ServerTask.port?_of_tunnel? hclose) hgp
      rw [hut, htunnel] at hclose
      cases hclose
  case ended =>
    intro u e' s hu
    have hut : u ≠ t := by
      rintro rfl
      rw [hk₃] at hu
      cases hu
    rw [server_step_attr (f := ServerTask.ended?) (fun _ _ => rfl) hs hut] at hu
    exact (hi.ended u e' s hu).snoc
  case interval =>
    intro g hg
    rw [harchive, List.mem_append] at hg
    obtain hg | hg := hg
    · exact (hi.interval g hg).snoc
    · rw [List.mem_singleton.mp hg, hstart, hat]
      exact (hi.ended t e at' hend).snoc
  case apart =>
    rw [harchive, List.pairwise_append]
    refine ⟨hi.apart.imp fun hb hp => (hb hp).snoc, List.pairwise_singleton _ _, ?_⟩
    intro g hg h' hh' hgp
    rw [List.mem_singleton.mp hh'] at hgp ⊢
    rw [hstart]
    exact (heb g hg (hgp.trans hport)).snoc

theorem RecordInv.archive_clock (hi : RecordInv ls c) {h : TunnelHistory} (hh : h ∈ archive ls) :
    h.endedAt ∈ clock ls :=
  (hi.interval h hh).right_mem

theorem recordInv_step (hr : (server cfg).Run ls c) (hi : RecordInv ls c)
    (hnd : (uuids ls).Nodup) (h : (server cfg).step c (t, op) = some c') :
    RecordInv (ls ++ [(t, op)]) c' := by
  have hx := server_step_exec h
  have htable : op.insert? = none → ∀ id e, c'.shared.activeTunnels.lookup id = some e →
      c.shared.activeTunnels.lookup id = some e := by
    intro hop id e he
    obtain rfl | he := ServerState.exec_entry hx he
    · cases hop
    · exact he
  cases (server_step_self h).record with
  | @starts port now hop hs hrem hend =>
      subst hop
      refine hi.quiet h rfl ?_ ?_ ?_ ?_
      · intro ctx e hk
        rw [hrem] at hk
        cases hk
      · intro port' at' hk
        rw [hs] at hk
        cases hk
        have hm : now ∈ clock (ls ++ [(t, .now now)]) := by
          rw [clock_snoc]
          simp [Op.now?]
        exact ⟨hm, fun g hg _ => readBefore_now (hi.archive_clock hg) rfl⟩
      · exact fun id e he => hi.entry id e (htable rfl id e he)
      · intro e at' hk
        rw [hend] at hk
        cases hk
  | @records id e hop hk hs hrem hend =>
      subst hop
      refine hi.quiet h rfl ?_ ?_ ?_ ?_
      · intro ctx e hk
        rw [hrem] at hk
        cases hk
      · intro port' at' hk
        rw [hs] at hk
        cases hk
      · intro id' e' he'
        obtain hnew | hold := ServerState.exec_entry hx he'
        · cases hnew
          exact hi.starting t _ _ hk
        · exact hi.entry id' e' hold
      · intro e at' hk
        rw [hend] at hk
        cases hk
  | @removes ctx e hop hk hs hrem hend =>
      subst hop
      have he := (ServerState.exec_removeTunnel hx).1
      -- the entry under the session's id is the session's own
      have hport : e.remotePort = ctx.port := by
        have hclose := tunnelInv hr _ e he
        have hut : e.close = t :=
          ctx_unique hr hnd (ServerTask.ctx_of_tunnel hclose) (ServerTask.ctx_of_tunnel hk) rfl
        rw [hut, hk] at hclose
        exact (congrArg TunnelCtx.port (Option.some.inj hclose)).symm
      refine hi.quiet h rfl ?_ ?_ ?_ ?_
      · intro ctx' e' hk'
        rw [hrem] at hk'
        cases hk'
        exact ⟨hport, hi.entry _ e he⟩
      · intro port' at' hk'
        rw [hs] at hk'
        cases hk'
      · exact fun id e he => hi.entry id e (htable rfl id e he)
      · intro e at' hk'
        rw [hend] at hk'
        cases hk'
  | @ends ctx e now hop hk hs hrem hend =>
      subst hop
      obtain ⟨hport, hm, hb⟩ := hi.removed t ctx e hk
      refine hi.quiet h rfl ?_ ?_ ?_ ?_
      · intro ctx' e' hk'
        rw [hrem] at hk'
        cases hk'
        exact ⟨hport, hm, hb⟩
      · intro port' at' hk'
        rw [hs] at hk'
        cases hk'
      · exact fun id e he => hi.entry id e (htable rfl id e he)
      · intro e' at' hk'
        rw [hend] at hk'
        cases hk'
        exact readBefore_now hm rfl
  | @archives ctx e now g hop hk hend hport hstart hat hs' hrem' hend' =>
      subst hop
      exact recordInv_archives hr hi h hk hend hport hstart hat hs' hrem' hend'
  | none hop hins hs hrem hend =>
      refine hi.quiet h hop ?_ ?_ ?_ ?_
      · exact fun ctx e hk => hi.removed t ctx e (hrem ▸ hk)
      · intro port' at' hk
        obtain ⟨hm, hb⟩ := hi.starting t port' at' (hs ▸ hk)
        exact ⟨mem_clock_snoc hm, fun g hg hp => (hb g hg hp).snoc⟩
      · exact fun id e he => hi.entry id e (htable hins id e he)
      · exact fun e at' hk => (hi.ended t e at' (hend ▸ hk)).snoc

theorem recordInv (h : (server cfg).Run ls c) (hnd : (uuids ls).Nodup) : RecordInv ls c := by
  refine Conc.Lts.Run.induct (P := fun ls c => (uuids ls).Nodup → RecordInv ls c) ?_ ?_ h hnd
  · intro _
    refine ⟨?_, ?_, ?_, ?_, nofun, List.Pairwise.nil⟩
    · intro t ctx e hk
      cases hk
    · intro t port at' hk
      cases hk
    · intro id e he
      cases he
    · intro t e at' hk
      cases hk
  · intro ls c a c' hr hi hs hnd
    have hnd := (nodup_of_snoc hnd).1
    exact recordInv_step hr (hi hnd) hnd hs

/-- The dashboard sees the newest of what the run archived. -/
theorem history_tunnels (h : (server cfg).Run ls c) :
    c.shared.history.tunnels = (archive ls).rtake maxTunnels := by
  rw [(history_recorded h).tunnels]
  congr 1
  refine List.filterMap_congr fun a _ => ?_
  cases a.2 <;> rfl

end Runs

/-! ## Events, history and port reuse -/

/-- A finished session has produced nothing or its events once each and in
    order, the tunnels announced as open at any time have distinct ports, and
    the records of one port are intervals one after the other. -/
theorem lifecycle {cfg : ServerConfig} {ls : List (Tid × Op)} {c : Server}
    (h : (server cfg).Run ls c) (hnd : (uuids ls).Nodup) :
    (∀ t register ctx, c.task t = .cli register (.done (some ctx)) →
      lives ctx.tunnelId ls = [] ∨ lives ctx.tunnelId ls = [.opened, .archived, .closed]) ∧
    (∀ t host reg id, c.task t = .node host reg (.done (some id)) →
      lives id ls = [] ∨ lives id ls = [.connected, .left]) ∧
    Conc.Lifetimes.Exclusive (announcements ls) ∧
    c.shared.history.tunnels = (archive ls).rtake maxTunnels ∧
    (∀ e ∈ archive ls, ReadBefore ls e.startedAt e.endedAt) ∧
    (archive ls).Pairwise (fun e e' =>
      e.remotePort = e'.remotePort → ReadBefore ls e.endedAt e'.startedAt) ∧
    ((clock ls).Pairwise (· ≤ ·) → (archive ls).Pairwise fun e e' =>
      e.remotePort = e'.remotePort → e.startedAt ≤ e.endedAt ∧ e.endedAt ≤ e'.startedAt) := by
  have hlife := lifeInv h hnd
  have hrec := recordInv h hnd
  refine ⟨?_, ?_, (announceInv h hnd).exclusive, history_tunnels h, hrec.interval, hrec.apart, ?_⟩
  · intro t register ctx hk
    have hover := hlife t ctx.tunnelId (by rw [hk]; rfl)
    rw [hk] at hover
    exact hover.2
  · intro t host reg id hk
    have hdown := hlife t id (by rw [hk]; rfl)
    rw [hk] at hdown
    exact hdown.2
  · intro hclock
    refine hrec.apart.imp_of_mem ?_
    intro e e' he _ hb hp
    exact ⟨(hrec.interval e he).le hclock, (hb hp).le hclock⟩

theorem lifecycle_portReused : ∃ c, (server onePort).Run portReused c ∧
    Conc.Lifetimes.Exclusive (announcements portReused) ∧
    lives "t" portReused = [.opened, .archived, .closed] ∧
    c.shared.history.tunnels.map TunnelHistory.tunnelId = ["t"] := by
  obtain ⟨c, h, -⟩ : ∃ c, (server onePort).Run portReused c ∧ True :=
    Conc.Lts.exists_run (by decide)
  obtain ⟨_, _, hexclusive, hhistory, _⟩ := lifecycle h (by decide)
  refine ⟨c, h, hexclusive, by decide, ?_⟩
  rw [hhistory]
  decide

end Borehole
