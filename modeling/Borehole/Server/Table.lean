/-
  Borehole.Server.Table

  `active_tunnels` as the dashboard sees it: the rows of `GET /api/tunnels`
  (crates/server/src/api/tunnels.rs) and the events of the bus.

  A session inserts its entry before it publishes `TunnelOpened` and removes it
  before it publishes `TunnelClosed`, each once.  So what was published about an
  id says whether it has an entry, except while a session is between the two.
-/

import Borehole.Conc.Replay
import Borehole.Server.Lifecycle
import Borehole.Server.Departures

namespace Borehole

open Conc

/-! ## Rows and events -/

/-- One row of `GET /api/tunnels`. -/
structure TunnelDto where
  tunnelId : String
  protocol : String
  localPort : UInt16
  remotePort : UInt16
  /-- Edge node name, or `null` for the direct path. -/
  node : Option String
  /-- CLI host machine name, or `null` if the CLI didn't report one. -/
  device : Option String
  startedAt : DateTime
  deriving DecidableEq, Repr

/-- The row of an entry. -/
def TunnelDto.of (id : String) (e : TunnelEntry) : TunnelDto where
  tunnelId := id
  protocol := protocolStr e.protocol
  localPort := e.localPort
  remotePort := e.remotePort
  node := e.node
  device := e.hostname
  startedAt := e.startedAt

/-- What `list` may answer: the rows of all entries, in the unspecified order of
    the hash map. -/
def Lists (tunnels : Finmap (fun _ : String => TunnelEntry)) (rows : List TunnelDto) : Prop :=
  (rows.map TunnelDto.tunnelId).Nodup ∧ (rows.map TunnelDto.tunnelId).toFinset = tunnels.keys ∧
    ∀ row ∈ rows, ∃ e ∈ tunnels.lookup row.tunnelId, row = TunnelDto.of row.tunnelId e

instance (tunnels : Finmap (fun _ : String => TunnelEntry)) (rows : List TunnelDto) :
    Decidable (Lists tunnels rows) :=
  inferInstanceAs (Decidable (_ ∧ _ ∧ _))

/-- The event that an operation publishes. -/
def Op.event? : Op → Option BhEvent
  | .publish e => some e
  | _ => none

/-- The events that a run publishes, in order. -/
def published (ls : List (Tid × Op)) : List BhEvent :=
  ls.filterMap fun a => a.2.event?

@[simp] theorem published_append (ls ls' : List (Tid × Op)) :
    published (ls ++ ls') = published ls ++ published ls' :=
  List.filterMap_append

theorem published_snoc (ls : List (Tid × Op)) (t : Tid) (op : Op) :
    published (ls ++ [(t, op)]) = published ls ++ op.event?.toList := by
  rw [published_append, published, published]
  cases h : op.event? <;> simp [h]

theorem lives_append (id : String) (ls ls' : List (Tid × Op)) :
    lives id (ls ++ ls') = lives id ls ++ lives id ls' :=
  List.filterMap_append

section Rows

variable {tunnels : Finmap (fun _ : String => TunnelEntry)} {rows : List TunnelDto} {id : String}

/-- The row of a snapshot under an id is that of its entry. -/
theorem Lists.rowsAt (h : Lists tunnels rows) : Replay.rowsAt TunnelDto.tunnelId id rows =
    ((tunnels.lookup id).map (TunnelDto.of id)).toList := by
  obtain ⟨hnd, hkeys, hrows⟩ := h
  have hmem : id ∈ rows.map TunnelDto.tunnelId ↔ (tunnels.lookup id).isSome = true := by
    rw [← List.mem_toFinset, hkeys, Finmap.mem_keys, Finmap.lookup_isSome]
  cases hl : tunnels.lookup id with
  | none =>
      rw [Replay.rowsAt_of_not_mem]
      · rfl
      · rw [hmem, hl]
        exact Bool.false_ne_true
  | some e =>
      obtain ⟨row, hr, rfl⟩ := List.mem_map.mp (hmem.mpr (by rw [hl]; rfl))
      obtain ⟨e', he', hrow⟩ := hrows row hr
      rw [hl] at he'
      cases he'
      rw [Replay.rowsAt_of_mem hnd hr, Option.map_some, ← hrow]
      rfl

end Rows

/-! ## Between a table update and its event -/

/-- The session has updated the table and not published the matching event. -/
def ServerTask.midUpdate (k : ServerTask) : Bool :=
  match k.stage with
  | .recorded | .removed | .archived => true
  | _ => false

section Runs

variable {cfg : ServerConfig} {ls ls' : List (Tid × Op)} {c c₁ c' : Server} {t : Tid} {op : Op}
  {id : String} {e : TunnelEntry}

/-- An id with events belongs to a session. -/
theorem lives_owner {x : Life} (h : (server cfg).Run ls c) (hx : x ∈ lives id ls) :
    ∃ t, (c.task t).ident? = some id := by
  refine Conc.Lts.Run.induct
    (P := fun ls c => ∀ x ∈ lives id ls, ∃ t, (c.task t).ident? = some id) nofun ?_ h x hx
  rintro ls c ⟨t, op⟩ c' hr hi hs x hx
  rw [lives_snoc, List.mem_append, Option.mem_toList] at hx
  obtain hx | hx := hx
  · obtain ⟨u, hu⟩ := hi x hx
    exact ⟨u, server_step_keeps_ident hs hu⟩
  · have hsub := Op.subject_of_life (Op.lifeOf_some.mp hx)
    obtain hn | hk := (server_step_self hs).subject
    · rw [hn] at hsub
      cases hsub
    · exact ⟨t, server_step_keeps_ident hs (hk ▸ hsub)⟩

/-- What was published about an id and whether it has an entry. -/
theorem life_of (h : (server cfg).Run ls c) (hnd : (uuids ls).Nodup) (id : String) :
    (∃ t, (c.task t).stage.Holds (c.shared.activeTunnels.lookup id).isSome (lives id ls)) ∨
      c.shared.activeTunnels.lookup id = none ∧ lives id ls = [] := by
  by_cases hid : ∃ t, (c.task t).ident? = some id
  · obtain ⟨t, ht⟩ := hid
    exact Or.inl ⟨t, lifeInv h hnd t id ht⟩
  · refine Or.inr ⟨?_, ?_⟩
    · cases hl : c.shared.activeTunnels.lookup id with
      | none => rfl
      | some e =>
          exact absurd ⟨_, ServerTask.ident_of_ctx (ServerTask.ctx_of_tunnel (tunnelInv h id e hl))⟩
            hid
    · rw [List.eq_nil_iff_forall_not_mem]
      exact fun x hx => hid (lives_owner h hx)

/-- An entry whose session is not between update and event is that of a tunnel
    that was announced and not closed. -/
theorem settled_entry (h : (server cfg).Run ls c) (hnd : (uuids ls).Nodup)
    (hq : ∀ t, (c.task t).midUpdate = false) (hl : c.shared.activeTunnels.lookup id = some e) :
    lives id ls = [.opened] := by
  obtain ⟨t, ht⟩ | ⟨hn, _⟩ := life_of h hnd id
  · have hqt := hq t
    rw [hl] at ht
    unfold ServerTask.midUpdate at hqt
    generalize (c.task t).stage = st at ht hqt
    cases st with
    | announced => exact ht.2
    | closing =>
        obtain ⟨_, hev⟩ | ⟨hn, _⟩ := ht
        · exact hev
        · cases hn
    | recorded => cases hqt
    | fresh | removed | archived | «over» | up | down => exact absurd ht.1 nofun
  · rw [hl] at hn
    cases hn

/-- Without an entry, and with no session between update and event, a tunnel that
    was announced has been closed. -/
theorem settled_absent (h : (server cfg).Run ls c) (hnd : (uuids ls).Nodup)
    (hq : ∀ t, (c.task t).midUpdate = false) (hl : c.shared.activeTunnels.lookup id = none) :
    .opened ∉ lives id ls ∧ .closed ∉ lives id ls ∨
      lives id ls = [.opened, .archived, .closed] := by
  obtain ⟨t, ht⟩ | ⟨_, hn⟩ := life_of h hnd id
  · have hqt := hq t
    rw [hl] at ht
    unfold ServerTask.midUpdate at hqt
    generalize (c.task t).stage = st at ht hqt
    cases st with
    | fresh => rw [ht.2]; exact Or.inl ⟨nofun, nofun⟩
    | closing =>
        obtain ⟨hn, _⟩ | ⟨_, hev⟩ := ht
        · cases hn
        · rw [hev]
          exact Or.inl ⟨nofun, nofun⟩
    | «over» =>
        obtain ⟨_, hev | hev⟩ := ht
        · rw [hev]
          exact Or.inl ⟨nofun, nofun⟩
        · exact Or.inr hev
    | up => rw [ht.2]; exact Or.inl (by decide)
    | down =>
        obtain ⟨_, hev | hev⟩ := ht <;> rw [hev]
        · exact Or.inl ⟨nofun, nofun⟩
        · exact Or.inl (by decide)
    | recorded | announced => exact absurd ht.1 nofun
    | removed | archived => cases hqt
  · rw [hn]
    exact Or.inl ⟨nofun, nofun⟩

/-- A closed tunnel has no entry. -/
theorem closed_absent (h : (server cfg).Run ls c) (hnd : (uuids ls).Nodup)
    (hx : .closed ∈ lives id ls) : c.shared.activeTunnels.lookup id = none := by
  obtain ⟨t, ht⟩ | ⟨hn, _⟩ := life_of h hnd id
  · generalize (c.task t).stage = st at ht
    have hentry : (c.shared.activeTunnels.lookup id).isSome = false := by
      cases st with
      | closing =>
          obtain ⟨_, hev⟩ | ⟨hn, _⟩ := ht
          · rw [hev] at hx
            exact absurd hx (by decide)
          · exact hn
      | recorded | announced => rw [ht.2] at hx; exact absurd hx (by decide)
      | fresh | removed | archived | «over» | up | down => exact ht.1
    exact Option.isNone_iff_eq_none.mp (by rw [← Option.not_isSome, hentry]; rfl)
  · exact hn

theorem ServerTask.Step.inserts_fresh {tokens : List String} {k k' : ServerTask}
    (h : Step tokens t k (.insertTunnel id e) k') : k.stage = .fresh := by
  cases h with
  | cli h =>
      cases h with
      | direct h =>
          cases h with
          | record => rfl
          | serve h => cases h
      | directRet h =>
          cases h with
          | served h => cases h
      | viaNode h =>
          cases h with
          | record => rfl
          | fallback h =>
              cases h with
              | record => rfl
              | serve h => cases h
          | fellBack h =>
              cases h with
              | served h => cases h
      | viaNodeRet h => cases h
  | node h =>
      cases h with
      | forward h | forwarded h => cases h
  | visitor h => cases h
  | dataConn h => cases h
  | close h => cases h

theorem ServeCliDirect.Step.not_takes_out {s : SessionCtx} {ctx : TunnelCtx} {pc : Pc}
    {f : Flow Pc} {got : Option TunnelEntry} (h : Step s ctx pc op f) :
    op ≠ .removeTunnel id got := by
  cases h with
  | serve h | served h => cases h <;> exact nofun
  | _ => exact nofun

theorem ServerTask.Step.removes_closing {tokens : List String} {k k' : ServerTask}
    {got : Option TunnelEntry} (h : Step tokens t k (.removeTunnel id got) k') :
    k.stage = .closing := by
  cases h with
  | cli h =>
      cases h with
      | removed | notRecorded => rfl
      | direct h | directRet h => exact absurd rfl h.not_takes_out
      | viaNode h =>
          cases h with
          | fallback h | fellBack h => exact absurd rfl h.not_takes_out
      | viaNodeRet h => cases h
  | node h =>
      cases h with
      | forward h | forwarded h => cases h
  | visitor h => cases h
  | dataConn h => cases h
  | close h => cases h

/-- Nothing has been published about an id that is inserted. -/
theorem insert_fresh (hr : (server cfg).Run ls c) (hnd : (uuids ls).Nodup)
    (h : (server cfg).step c (t, .insertTunnel id e) = some c') : lives id ls = [] := by
  have hself := server_step_self h
  have hident : (c.task t).ident? = some id := by
    obtain hn | hk := hself.subject
    · cases hn
    · exact hk.symm
  have hlife := lifeInv hr hnd t id hident
  rw [hself.inserts_fresh] at hlife
  exact hlife.2

/-- What a step does to the entry of `id`. -/
theorem entry_step (hr : (server cfg).Run ls c) (hnd : (uuids ls).Nodup)
    (h : (server cfg).step c (t, op) = some c') :
    c'.shared.activeTunnels.lookup id = c.shared.activeTunnels.lookup id ∨
      lives id ls = [] ∧ (c'.shared.activeTunnels.lookup id).isSome = true ∨
      c'.shared.activeTunnels.lookup id = none := by
  have hx := server_step_exec h
  by_cases hop : op.onTunnels = true
  · cases op with
    | insertTunnel id' e' =>
        rw [ServerState.exec_insertTunnel hx]
        split
        · rename_i hid
          rw [hid]
          exact Or.inr (Or.inl ⟨insert_fresh hr hnd h, rfl⟩)
        · exact Or.inl rfl
    | removeTunnel id' got =>
        rw [(ServerState.exec_removeTunnel hx).2]
        split
        · exact Or.inr (Or.inr rfl)
        · exact Or.inl rfl
    | _ => cases hop
  · rw [ServerState.exec_activeTunnels hx (Bool.eq_false_iff.mpr hop)]
    exact Or.inl rfl

/-- The entry that a step takes out is that of a tunnel that was announced. -/
theorem opened_of_removal (hr : (server cfg).Run ls c) (hnd : (uuids ls).Nodup)
    (h : (server cfg).step c (t, op) = some c')
    (hl : (c.shared.activeTunnels.lookup id).isSome = true)
    (hl' : c'.shared.activeTunnels.lookup id = none) : .opened ∈ lives id ls := by
  have hx := server_step_exec h
  by_cases hop : op.onTunnels = true
  · cases op with
    | insertTunnel id' e' =>
        rw [ServerState.exec_insertTunnel hx] at hl'
        split at hl'
        · cases hl'
        · rw [hl'] at hl
          cases hl
    | removeTunnel id' got =>
        rw [(ServerState.exec_removeTunnel hx).2] at hl'
        split at hl'
        · rename_i hid
          have hident : (c.task t).ident? = some id := by
            obtain hn | hk := (server_step_self h).subject
            · cases hn
            · rw [← hk, hid]
              rfl
          have hlife := lifeInv hr hnd t id hident
          rw [(server_step_self h).removes_closing, hl] at hlife
          -- A session that removes its entry has announced it.
          obtain ⟨_, hev⟩ | ⟨hn, _⟩ := hlife
          · rw [hev]
            exact List.mem_singleton_self _
          · cases hn
        · rw [hl'] at hl
          cases hl
    | _ => cases hop
  · rw [ServerState.exec_activeTunnels hx (Bool.eq_false_iff.mpr hop)] at hl'
    rw [hl'] at hl
    cases hl

/-- A tunnel that has been announced keeps its entry until it loses it for good. -/
theorem entry_after_opened (h₁ : (server cfg).Run ls c₁) (h : (server cfg).runFrom c₁ ls' = some c)
    (hnd : (uuids (ls ++ ls')).Nodup) (hx : .opened ∈ lives id ls) :
    c.shared.activeTunnels.lookup id = c₁.shared.activeTunnels.lookup id ∨
      c.shared.activeTunnels.lookup id = none := by
  refine Conc.Lts.runFrom_induct (P := fun ls' c => (uuids (ls ++ ls')).Nodup →
    c.shared.activeTunnels.lookup id = c₁.shared.activeTunnels.lookup id ∨
      c.shared.activeTunnels.lookup id = none) (fun _ => Or.inl rfl) ?_ h hnd
  rintro ls' c ⟨t, op⟩ c' hr ih hs hnd
  rw [← List.append_assoc] at hnd
  obtain ⟨hnd, _⟩ := nodup_of_snoc hnd
  have hrun : (server cfg).Run (ls ++ ls') c := Conc.Lts.run_append.mpr ⟨c₁, h₁, hr⟩
  obtain he | ⟨hnil, _⟩ | hn := entry_step hrun hnd hs
  · rw [he]
    exact ih hnd
  · rw [lives_append, List.append_eq_nil_iff] at hnil
    rw [hnil.1] at hx
    cases hx
  · exact Or.inr hn

/-- An entry that is gone is that of a tunnel that was announced. -/
theorem opened_of_gone (h₁ : (server cfg).Run ls c₁) (h : (server cfg).runFrom c₁ ls' = some c)
    (hnd : (uuids (ls ++ ls')).Nodup) (hl : (c₁.shared.activeTunnels.lookup id).isSome = true) :
    (c.shared.activeTunnels.lookup id).isSome = true ∨ .opened ∈ lives id (ls ++ ls') := by
  refine Conc.Lts.runFrom_induct (P := fun ls' c => (uuids (ls ++ ls')).Nodup →
    (c.shared.activeTunnels.lookup id).isSome = true ∨ .opened ∈ lives id (ls ++ ls'))
    (fun _ => Or.inl hl) ?_ h hnd
  rintro ls' c ⟨t, op⟩ c' hr ih hs hnd
  rw [← List.append_assoc] at hnd ⊢
  have hrun : (server cfg).Run (ls ++ ls') c := Conc.Lts.run_append.mpr ⟨c₁, h₁, hr⟩
  obtain ⟨hnd, _⟩ := nodup_of_snoc hnd
  rw [lives_append, List.mem_append]
  obtain hold | hx := ih hnd
  · cases hl' : c'.shared.activeTunnels.lookup id with
    | some e => exact Or.inl rfl
    | none => exact Or.inr (Or.inl (opened_of_removal hrun hnd hs hold hl'))
  · exact Or.inr (Or.inl hx)

end Runs

/-! ## The events of entries -/

/-- The entry that a session has recorded and not announced. -/
def ServeCliDirect.Pc.announces? (s : SessionCtx) (ctx : TunnelCtx) :
    ServeCliDirect.Pc → Option TunnelEntry
  | .publish t => some (entry s ctx t)
  | _ => none

/-- The entry of a tunnel through a node that is not announced yet. -/
def ServeCliViaNode.Pc.announces? (s : SessionCtx) (ctx : TunnelCtx) (info : NodeInfo) :
    ServeCliViaNode.Pc → Option TunnelEntry
  | .increment t | .publish t => some (entry s ctx info t)
  | .fallback pc => pc.announces? s ctx
  | _ => none

/-- The entry that a task has made and not announced yet. -/
def ServerTask.announces? (t : Tid) : ServerTask → Option (String × TunnelEntry)
  | .cli register (.direct ctx pc) =>
      (pc.announces? ⟨t, register⟩ ctx).map fun e => (ctx.tunnelId, e)
  | .cli register (.viaNode ctx info pc) =>
      (pc.announces? ⟨t, register⟩ ctx info).map fun e => (ctx.tunnelId, e)
  | _ => none

/-- The event that announces an entry: what it says besides the node. -/
def BhEvent.announces (id : String) (e : TunnelEntry) : BhEvent → Prop
  | .tunnelOpened id' protocol localPort remotePort _ startedAt =>
      id' = id → protocol = protocolStr e.protocol ∧ localPort = e.localPort ∧
        remotePort = e.remotePort ∧ startedAt = e.startedAt
  | _ => True

/-- The operation makes an entry. -/
def Op.inserts : Op → Bool
  | .insertTunnel _ _ => true
  | _ => false

/-- Whether an operation announces a tunnel. -/
def Op.opens : Op → Bool
  | .publish (.tunnelOpened ..) => true
  | _ => false

/-- What a step does to the entry that a session is to announce. -/
inductive AnnouncesStep (t : Tid) (k : ServerTask) (op : Op) (k' : ServerTask) : Prop where
  | inserts {id e} : op = .insertTunnel id e → e.close = t → k'.announces? t = some (id, e) →
      AnnouncesStep t k op k'
  | announces {id e protocol name localPort port at'} :
      op = .publish (.tunnelOpened id protocol localPort port name at') →
      k.announces? t = some (id, e) → (BhEvent.tunnelOpened id protocol localPort port name
        at').announces id e → k'.announces? t = .none → AnnouncesStep t k op k'
  | none : op.inserts = false → op.opens = false →
      (k'.announces? t = .none ∨ op.onTunnels = false ∧ k'.announces? t = k.announces? t) →
      AnnouncesStep t k op k'

section Announces

variable {tokens : List String} {s : SessionCtx} {ctx : TunnelCtx} {info : NodeInfo}
  {k k' : ServerTask} {cfg : ServerConfig} {ls : List (Tid × Op)} {c c' : Server} {t : Tid}
  {op : Op}
  {id : String} {e : TunnelEntry}

/-- Where `serve_cli_direct` neither records nor announces. -/
theorem ServeTunnel.Step.not_announces {pc : Pc} {f : Flow Pc} (h : Step s ctx pc op f) :
    op.inserts = false ∧ op.opens = false := by
  cases h <;> exact ⟨rfl, rfl⟩

theorem ServeCliDirect.Step.announces {pc pc' : Pc} (h : Step s ctx pc op (.at pc'))
    (hk : k.announces? s.task = (pc.announces? s ctx).map fun e => (ctx.tunnelId, e))
    (hk' : k'.announces? s.task = (pc'.announces? s ctx).map fun e => (ctx.tunnelId, e)) :
    AnnouncesStep s.task k op k' := by
  cases h with
  | record => exact .inserts rfl rfl hk'
  | publish => exact .announces rfl hk (fun _ => ⟨rfl, rfl, rfl, rfl⟩) hk'
  | serve h =>
      obtain ⟨hins, hopens⟩ := h.not_announces
      exact .none hins hopens (Or.inl hk')
  | _ => exact .none rfl rfl (Or.inl hk')

theorem ServeCliDirect.Step.announces_ret {pc : Pc} (h : Step s ctx pc op .ret)
    (hk' : k'.announces? s.task = .none) : AnnouncesStep s.task k op k' := by
  cases h with
  | served h =>
      obtain ⟨hins, hopens⟩ := h.not_announces
      exact .none hins hopens (Or.inl hk')
  | _ => exact .none rfl rfl (Or.inl hk')

theorem ServerTask.Step.announces (h : Step tokens t k op k') : AnnouncesStep t k op k' := by
  cases h with
  | @connect peer first =>
      have hd := handleClient_dispatched peer first
      generalize handleClient peer first = k' at hd ⊢
      cases hd <;> exact .none rfl rfl (Or.inl rfl)
  | cli h =>
      cases h with
      | direct h => exact h.announces rfl rfl
      | directRet h => exact h.announces_ret rfl
      | viaNode h =>
          cases h with
          | fallback h => exact h.announces rfl rfl
          | fellBack h => exact h.announces_ret rfl
          | record => exact .inserts rfl rfl rfl
          | increment => exact .none rfl rfl (Or.inr ⟨rfl, rfl⟩)
          | publish => exact .announces rfl rfl (fun _ => ⟨rfl, rfl, rfl, rfl⟩) rfl
          | _ => exact .none rfl rfl (Or.inl rfl)
      | viaNodeRet h => cases h <;> exact .none rfl rfl (Or.inl rfl)
      | _ => exact .none rfl rfl (Or.inl rfl)
  | node h =>
      cases h with
      | forward h | forwarded h => cases h <;> exact .none rfl rfl (Or.inl rfl)
      | _ => exact .none rfl rfl (Or.inl rfl)
  | visitor h => cases h <;> exact .none rfl rfl (Or.inl rfl)
  | dataConn h => cases h <;> exact .none rfl rfl (Or.inl rfl)
  | close h => cases h <;> exact .none rfl rfl (Or.inl rfl)
  | _ => exact .none rfl rfl (Or.inl rfl)

theorem ServerTask.close_of_announces (h : k.announces? t = some (id, e)) : e.close = t := by
  have hdirect : ∀ {register ctx} {pc : ServeCliDirect.Pc},
      pc.announces? ⟨t, register⟩ ctx = some e → e.close = t := by
    intro register ctx pc h
    cases pc with
    | publish => cases h; rfl
    | _ => cases h
  cases k with
  | cli register pc =>
      cases pc with
      | direct ctx pc =>
          obtain ⟨e', he, hid⟩ := Option.map_eq_some_iff.mp h
          cases hid
          exact hdirect he
      | viaNode ctx info pc =>
          obtain ⟨e', he, hid⟩ := Option.map_eq_some_iff.mp h
          cases hid
          cases pc with
          | increment | publish => cases he; rfl
          | fallback pc => exact hdirect he
          | _ => cases he
      | _ => cases h
  | _ => cases h

/-- An announcement is one of the events of the id. -/
theorem opened_of_published {protocol name : String} {localPort port : UInt16} {at' : DateTime}
    (h : .tunnelOpened id protocol localPort port name at' ∈ published ls) :
    .opened ∈ lives id ls := by
  obtain ⟨⟨t, op⟩, hm, hop⟩ := List.mem_filterMap.mp h
  refine List.mem_filterMap.mpr ⟨(t, op), hm, ?_⟩
  cases op with
  | publish e =>
      cases hop
      exact if_pos rfl
  | _ => cases hop

/-- What is in the table agrees with what sessions are to announce and with what
    has been announced. -/
structure TableInv (ls : List (Tid × Op)) (c : Server) : Prop where
  pending : ∀ t id e, (c.task t).announces? t = some (id, e) →
    c.shared.activeTunnels.lookup id = some e
  events : ∀ id e ev, c.shared.activeTunnels.lookup id = some e → ev ∈ published ls →
    ev.announces id e

theorem TableInv.step (hi : TableInv ls c) (hr : (server cfg).Run ls c) (hnd : (uuids ls).Nodup)
    (h : (server cfg).step c (t, op) = some c') : TableInv (ls ++ [(t, op)]) c' := by
  have hx := server_step_exec h
  have hself := (server_step_self h).announces
  constructor
  case pending =>
    intro u id e hu
    by_cases hut : u = t
    · subst hut
      cases hself with
      | inserts hop _ hk' =>
          -- The entry that is to be announced has just been inserted.
          rw [hk'] at hu
          cases hu
          subst hop
          rw [ServerState.exec_insertTunnel hx, if_pos rfl]
      | announces _ _ _ hk' => rw [hk'] at hu; cases hu
      | none _ _ hk' =>
          obtain hk' | ⟨hop, hk'⟩ := hk'
          · rw [hk'] at hu
            cases hu
          · rw [hk'] at hu
            rw [ServerState.exec_activeTunnels hx hop]
            exact hi.pending u id e hu
    · rw [server_step_attr (f := ServerTask.announces? u) (fun _ _ => rfl) h hut] at hu
      -- Only its own session removes it.
      refine entry_stays hr hnd h (hi.pending u id e hu) ?_
      rw [ServerTask.close_of_announces hu]
      exact Ne.symm hut
  case events =>
    intro id e ev hl hev
    rw [published_snoc, List.mem_append, Option.mem_toList] at hev
    obtain rfl | hold := ServerState.exec_entry hx hl
    -- nothing has been announced under a new entry's id
    · have hnil := insert_fresh hr hnd h
      obtain hev | hev := hev
      · cases ev with
        | tunnelOpened id' protocol localPort port name at' =>
            rintro rfl
            have hopened := opened_of_published hev
            rw [hnil] at hopened
            cases hopened
        | _ => trivial
      · cases hev
    · obtain hev | hev := hev
      · exact hi.events id e ev hold hev
      · cases ev with
        | tunnelOpened id' protocol localPort port name at' =>
            have hop : op = .publish (.tunnelOpened id' protocol localPort port name at') := by
              cases op with
              | publish ev => cases hev; rfl
              | _ => cases hev
            rintro rfl
            cases hself with
            | inserts hop' => rw [hop'] at hop; cases hop
            | announces hop' hk hmatch =>
                rw [hop'] at hop
                cases hop
                -- What is announced is the entry that is there.
                have hpending := hi.pending t _ _ hk
                rw [hold] at hpending
                cases hpending
                exact hmatch rfl
            | none _ hnone => rw [hop] at hnone; cases hnone
        | _ => trivial

theorem tableInv (h : (server cfg).Run ls c) (hnd : (uuids ls).Nodup) : TableInv ls c := by
  refine Conc.Lts.Run.induct (P := fun ls c => (uuids ls).Nodup → TableInv ls c) ?_ ?_ h hnd
  · intro _
    constructor
    case pending =>
      intro t id e hk
      cases hk
    case events =>
      intro id e ev hl
      cases hl
  · intro ls c a c' hr hi hs hnd
    have hnd := (nodup_of_snoc hnd).1
    exact (hi hnd).step hr hnd hs

end Announces

end Borehole
