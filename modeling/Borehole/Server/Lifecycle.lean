/-
  Borehole.Server.Lifecycle

  What a run publishes and archives about each tunnel and each node.

  A session moves through a fixed sequence of stages, and its stage says which
  events it has produced and whether its entry is in `active_tunnels`.  The one
  point where a session itself does not know is the central cleanup, which asks
  the table: the entry is there exactly if the tunnel was announced.
-/

import Borehole.Conc.Lifetimes
import Borehole.Server.Ids

namespace Borehole

open Conc Lifetimes

/-! ## The events of an id -/

/-- What can happen to a tunnel or a node. -/
inductive Life where
  | opened
  | archived
  | closed
  | connected
  | left
  deriving DecidableEq, Repr

/-- The event of an operation, with the id it is about. -/
def Op.life? : Op → Option (String × Life)
  | .publish (.tunnelOpened id ..) => some (id, .opened)
  | .publish (.tunnelClosed id) => some (id, .closed)
  | .publish (.nodeConnected id _) => some (id, .connected)
  | .publish (.nodeLeft id) => some (id, .left)
  | .recordTunnel h => some (h.tunnelId, .archived)
  | _ => none

/-- The event of an operation about `id`. -/
def Op.lifeOf (id : String) (op : Op) : Option Life :=
  op.life?.bind fun x => if x.1 = id then some x.2 else none

/-- The events of a run about `id`, in order. -/
def lives (id : String) (ls : List (Tid × Op)) : List Life :=
  ls.filterMap fun a => a.2.lifeOf id

theorem lives_snoc (id : String) (ls : List (Tid × Op)) (t : Tid) (op : Op) :
    lives id (ls ++ [(t, op)]) = lives id ls ++ (op.lifeOf id).toList := by
  rw [lives, List.filterMap_append, lives]
  cases h : op.lifeOf id <;> simp [h]

theorem Op.lifeOf_some {id : String} {op : Op} {x : Life} :
    op.lifeOf id = some x ↔ op.life? = some (id, x) := by
  rw [lifeOf, Option.bind_eq_some_iff]
  constructor
  · rintro ⟨⟨id', x'⟩, hf, h⟩
    split at h
    · rename_i hid
      cases hid
      cases h
      exact hf
    · cases h
  · intro hf
    exact ⟨_, hf, if_pos rfl⟩

/-! ## The stages of a session -/

/-- The stages of a CLI session (up to `over`) and of a node session (`up` and
    `down`, and `fresh` before its announcement). -/
inductive Stage where
  | fresh
  | recorded
  | announced
  /-- Announced or never recorded. -/
  | closing
  | removed
  | archived
  | over
  | up
  | down
  deriving DecidableEq

/-- What a stage says about the session's entry and events. -/
def Stage.Holds (entry : Bool) (events : List Life) : Stage → Prop
  | .fresh => entry = false ∧ events = []
  | .recorded => entry = true ∧ events = []
  | .announced => entry = true ∧ events = [.opened]
  | .closing => entry = true ∧ events = [.opened] ∨ entry = false ∧ events = []
  | .removed => entry = false ∧ events = [.opened]
  | .archived => entry = false ∧ events = [.opened, .archived]
  | .over => entry = false ∧ (events = [] ∨ events = [.opened, .archived, .closed])
  | .up => entry = false ∧ events = [.connected]
  | .down => entry = false ∧ (events = [] ∨ events = [.connected, .left])

/-- A session whose tunnel is announced and not closed, as far as it knows. -/
def Stage.live : Stage → Bool
  | .announced | .closing | .removed | .archived => true
  | _ => false

/-- How far a tunnel on the direct path is. -/
def ServeCliDirect.Pc.stage : ServeCliDirect.Pc → Stage
  | .publish _ => .recorded
  | .serve _ => .announced
  | _ => .fresh

/-- How far a tunnel through a node is. -/
def ServeCliViaNode.Pc.stage : ServeCliViaNode.Pc → Stage
  | .lockNode | .openTunnel | .lockFallback | .startedAt | .record _ => .fresh
  | .fallback pc => pc.stage
  | .unlockFallback => .closing
  | .increment _ | .publish _ => .recorded
  | .lockCli | .registered | .select | .lockClose | .closeTunnel | .decrement => .announced

/-- How far the tunnel of a session is, from its beginning to the end. -/
def HandleCli.Pc.stage : HandleCli.Pc → Stage
  | .direct _ pc => pc.stage
  | .viaNode _ _ pc => pc.stage
  | .remove _ => .closing
  | .endedAt _ _ | .archive _ _ _ => .removed
  | .closed _ => .archived
  | .release _ | .done _ => .over
  | _ => .fresh

/-- How far a node is. -/
def HandleNode.Pc.stage : HandleNode.Pc → Stage
  | .read _ | .forward _ _ _ | .remove _ | .left _ => .up
  | .done _ => .down
  | _ => .fresh

/-- How far what a task serves is. -/
def ServerTask.stage : ServerTask → Stage
  | .cli _ pc => pc.stage
  | .node _ _ pc => pc.stage
  | _ => .fresh

/-- Whether `id` has an entry after the operation, given whether it had one. -/
def Op.entryAfter (id : String) (entry : Bool) : Op → Bool
  | .insertTunnel id' _ => if id' = id then true else entry
  | .removeTunnel id' _ => if id' = id then false else entry
  | _ => entry

/-- The id that an operation inserts, removes or reports about. -/
def Op.subject? (op : Op) : Option String :=
  match op with
  | .insertTunnel id _ | .removeTunnel id _ => some id
  | op => op.life?.map Prod.fst

section Steps

variable {tokens : List String} {s : SessionCtx} {ctx : TunnelCtx} {node : NodeInfo} {t : Tid}
  {k k' : ServerTask} {op : Op} {id : String} {entry : Bool} {events : List Life}

theorem ServeTunnel.Step.no_subject {pc : Pc} {f : Flow Pc} (h : Step s ctx pc op f) :
    op.subject? = none := by
  cases h <;> rfl

theorem ServeCliDirect.Step.subject {pc : Pc} {f : Flow Pc} (h : Step s ctx pc op f) :
    op.subject? = none ∨ op.subject? = some ctx.tunnelId := by
  cases h with
  | record | publish => exact Or.inr rfl
  | serve h | served h => exact Or.inl h.no_subject
  | _ => exact Or.inl rfl

theorem ServeCliViaNode.Step.subject {pc : Pc} {f : Flow Pc} (h : Step s ctx node pc op f) :
    op.subject? = none ∨ op.subject? = some ctx.tunnelId := by
  cases h with
  | record | publish => exact Or.inr rfl
  | fallback h | fellBack h => exact h.subject
  | _ => exact Or.inl rfl

/-- A session touches no entry and reports no event but its own. -/
theorem ServerTask.Step.subject (h : Step tokens t k op k') :
    op.subject? = none ∨ op.subject? = k.ident? := by
  cases h with
  | cli h =>
      cases h with
      | direct h | directRet h => exact h.subject
      | viaNode h | viaNodeRet h => exact h.subject
      | removed | notRecorded | archive | closed => exact Or.inr rfl
      | _ => exact Or.inl rfl
  | node h =>
      cases h with
      | connected | left => exact Or.inr rfl
      | forward h | forwarded h => cases h <;> exact Or.inl rfl
      | _ => exact Or.inl rfl
  | visitor h => cases h <;> exact Or.inl rfl
  | dataConn h => cases h <;> exact Or.inl rfl
  | close h => cases h <;> exact Or.inl rfl
  | _ => exact Or.inl rfl

theorem Op.subject_of_life {x : Life} (h : op.life? = some (id, x)) : op.subject? = some id := by
  cases op with
  | publish e => cases e <;> cases h <;> rfl
  | recordTunnel e => cases h; rfl
  | _ => cases h

/-- An operation without a subject, or with another one, changes nothing for
    `id`. -/
theorem Op.other_subject (entry : Bool) (h : op.subject? ≠ some id) :
    op.lifeOf id = none ∧ op.entryAfter id entry = entry := by
  constructor
  · cases hl : op.lifeOf id with
    | none => rfl
    | some x => exact absurd (Op.subject_of_life (Op.lifeOf_some.mp hl)) h
  · cases op with
    | insertTunnel id' e => exact if_neg fun hid => h (congrArg some hid)
    | removeTunnel id' got => exact if_neg fun hid => h (congrArg some hid)
    | _ => rfl

/-- What an operation that is about nothing leaves to a session's stage. -/
theorem Op.no_subject (id : String) (entry : Bool) (h : op.subject? = none) :
    op.lifeOf id = none ∧ op.entryAfter id entry = entry :=
  Op.other_subject entry (by rw [h]; exact nofun)

/-- `op` takes a session of `id` from stage `st` to stage `st'`. -/
def StageStep (id : String) (st : Stage) (op : Op) (st' : Stage) : Prop :=
  ∀ entry events, st.Holds entry events →
    (∀ got, op = .removeTunnel id got → got.isSome = entry) →
    st'.Holds (op.entryAfter id entry) (events ++ (op.lifeOf id).toList)

namespace StageStep

theorem weaken {st st' : Stage} (hop : op.subject? = none)
    (h : ∀ entry events, st.Holds entry events → st'.Holds entry events) :
    StageStep id st op st' := by
  intro entry events hst _
  obtain ⟨hl, he⟩ := Op.no_subject id entry hop
  rw [hl, he, Option.toList_none, List.append_nil]
  exact h entry events hst

theorem stay {st : Stage} (hop : op.subject? = none) : StageStep id st op st :=
  weaken hop fun _ _ h => h

theorem record {e : TunnelEntry} : StageStep id .fresh (.insertTunnel id e) .recorded := by
  rintro entry events ⟨_, rfl⟩ _
  exact ⟨if_pos rfl, rfl⟩

theorem announce {protocol name : String} {localPort port : UInt16} {at' : DateTime} :
    StageStep id .recorded (.publish (.tunnelOpened id protocol localPort port name at'))
      .announced := by
  rintro entry events ⟨rfl, rfl⟩ _
  refine ⟨rfl, ?_⟩
  simp [Op.lifeOf, Op.life?]

theorem removed {e : TunnelEntry} : StageStep id .closing (.removeTunnel id (some e)) .removed := by
  intro entry events h hgot
  have hentry : entry = true := (hgot _ rfl).symm
  obtain ⟨_, rfl⟩ | ⟨hn, _⟩ := h
  · exact ⟨if_pos rfl, rfl⟩
  · rw [hentry] at hn
    cases hn

theorem notRecorded : StageStep id .closing (.removeTunnel id none) .over := by
  intro entry events h hgot
  have hentry : entry = false := (hgot _ rfl).symm
  obtain ⟨hn, _⟩ | ⟨_, rfl⟩ := h
  · rw [hentry] at hn
    cases hn
  · exact ⟨if_pos rfl, Or.inl rfl⟩

theorem archive {h : TunnelHistory} (hid : h.tunnelId = id) :
    StageStep id .removed (.recordTunnel h) .archived := by
  subst hid
  rintro entry events ⟨rfl, rfl⟩ _
  refine ⟨rfl, ?_⟩
  simp [Op.lifeOf, Op.life?]

theorem close : StageStep id .archived (.publish (.tunnelClosed id)) .over := by
  rintro entry events ⟨rfl, rfl⟩ _
  refine ⟨rfl, Or.inr ?_⟩
  simp [Op.lifeOf, Op.life?]

theorem connect {name : String} : StageStep id .fresh (.publish (.nodeConnected id name)) .up := by
  rintro entry events ⟨rfl, rfl⟩ _
  refine ⟨rfl, ?_⟩
  simp [Op.lifeOf, Op.life?]

theorem left : StageStep id .up (.publish (.nodeLeft id)) .down := by
  rintro entry events ⟨rfl, rfl⟩ _
  refine ⟨rfl, Or.inr ?_⟩
  simp [Op.lifeOf, Op.life?]

end StageStep

theorem ServeCliDirect.Step.stage {pc pc' : Pc} (h : Step s ctx pc op (.at pc')) :
    StageStep ctx.tunnelId pc.stage op pc'.stage := by
  cases h with
  | record => exact .record
  | publish => exact .announce
  | serve h => exact .stay h.no_subject
  | _ => exact .stay rfl

/-- `serve_cli_direct` returns before it records the tunnel or after it serves
    it. -/
theorem ServeCliDirect.Step.stage_ret {pc : Pc} (h : Step s ctx pc op .ret) :
    StageStep ctx.tunnelId pc.stage op .closing := by
  cases h with
  | rejected | registerFailed => exact .weaken rfl fun _ _ h => Or.inr h
  | served h => exact .weaken h.no_subject fun _ _ h => Or.inl h

theorem ServeCliViaNode.Step.stage {pc pc' : Pc} (h : Step s ctx node pc op (.at pc')) :
    StageStep ctx.tunnelId pc.stage op pc'.stage := by
  cases h with
  | record => exact .record
  | publish => exact .announce
  | fallback h => exact h.stage
  | fellBack h => exact h.stage_ret
  | _ => exact .stay rfl

theorem ServeCliViaNode.Step.stage_ret {pc : Pc} (h : Step s ctx node pc op .ret) :
    StageStep ctx.tunnelId pc.stage op .closing := by
  cases h with
  | unlockFallback => exact .stay rfl
  | decrement => exact .weaken rfl fun _ _ h => Or.inl h

theorem HandleCli.Step.stage {pc pc' : Pc} {ctx : TunnelCtx} (h : Step tokens s pc op pc')
    (hctx : pc.ctx? = some ctx) : StageStep ctx.tunnelId pc.stage op pc'.stage := by
  cases h with
  | direct h => cases hctx; exact h.stage
  | directRet h => cases hctx; exact h.stage_ret
  | viaNode h => cases hctx; exact h.stage
  | viaNodeRet h => cases hctx; exact h.stage_ret
  | removed => cases hctx; exact .removed
  | notRecorded => cases hctx; exact .notRecorded
  | archive => cases hctx; exact .archive rfl
  | closed => cases hctx; exact .close
  | picked | noNode | endedAt | release => exact .stay rfl
  | _ => cases hctx

theorem HandleNode.Step.stage {host : String} {reg : RegisterNode} {pc pc' : Pc}
    (h : Step tokens t host reg pc op pc') (hid : pc.nodeId? = some id) :
    StageStep id pc.stage op pc'.stage := by
  cases h with
  | connected => cases hid; exact .connect
  | left => cases hid; exact .left
  | unlockFailed => exact .weaken rfl fun _ _ h => ⟨h.1, Or.inl h.2⟩
  | forward h | forwarded h => exact .stay (by cases h <;> rfl)
  | rejected => cases hid
  | _ => exact .stay rfl

/-- A step takes a session from stage to stage. -/
theorem ServerTask.Step.stage (h : Step tokens t k op k') (hid : k.ident? = some id) :
    StageStep id k.stage op k'.stage := by
  cases h with
  | cli h =>
      obtain ⟨ctx, hctx, rfl⟩ := Option.map_eq_some_iff.mp hid
      exact h.stage hctx
  | node h => exact h.stage hid
  | visitor h => exact .stay (by cases h <;> rfl)
  | _ => cases hid

/-- A task that has no id yet, or gets one, is fresh. -/
theorem ServerTask.Step.fresh (h : Step tokens t k op k') (hn : k.ident? = none)
    (hid : k'.ident? = some id) : k'.stage = .fresh := by
  cases h with
  | @connect peer first =>
      have hd := handleClient_dispatched peer first
      generalize handleClient peer first = k' at hd ⊢
      cases hd <;> rfl
  | cli h =>
      cases h with
      | tunnelId => rfl
      | rejected => cases hid
      | _ => first | cases hid; done | cases hn
  | node h =>
      cases h with
      | nodeId => rfl
      | rejected => cases hid
      | _ => first | cases hid; done | cases hn
  | _ => first | cases hid; done | cases hn

end Steps

/-! ## Stages over runs -/

/-- The stage of every session agrees with the table and with what was
    published and archived. -/
def LifeInv (ls : List (Tid × Op)) (c : Server) : Prop :=
  ∀ t id, (c.task t).ident? = some id →
    (c.task t).stage.Holds (c.shared.activeTunnels.lookup id).isSome (lives id ls)

section Runs

variable {cfg : ServerConfig} {ls : List (Tid × Op)} {c c' : Server} {t u : Tid} {op : Op}
  {id : String}

/-- Events are about generated ids. -/
theorem lives_mem {x : Life} (h : (server cfg).Run ls c) (hx : x ∈ lives id ls) :
    id ∈ uuids ls := by
  refine Conc.Lts.Run.induct (P := fun ls _ => ∀ x ∈ lives id ls, id ∈ uuids ls) nofun ?_ h x hx
  rintro ls c ⟨t, op⟩ c' hr hi hs x hx
  rw [uuids_snoc, List.mem_append]
  rw [lives_snoc, List.mem_append, Option.mem_toList] at hx
  refine Or.inl ?_
  obtain hx | hx := hx
  · exact hi x hx
  · have hsub := Op.subject_of_life (Op.lifeOf_some.mp hx)
    obtain hn | hk := (server_step_self hs).subject
    · rw [hn] at hsub
      cases hsub
    · exact ident_mem hr (hk ▸ hsub)

/-- Entries are under generated ids. -/
theorem entry_mem {e : TunnelEntry} (h : (server cfg).Run ls c)
    (he : c.shared.activeTunnels.lookup id = some e) : id ∈ uuids ls :=
  ident_mem h (ServerTask.ident_of_ctx (ServerTask.ctx_of_tunnel (tunnelInv h id e he)))

theorem exec_entryAfter {s s' : ServerState} (h : s.exec t op = some s') :
    (s'.activeTunnels.lookup id).isSome = op.entryAfter id (s.activeTunnels.lookup id).isSome := by
  by_cases hop : op.onTunnels = true
  · cases op with
    | insertTunnel id' e =>
        rw [ServerState.exec_insertTunnel h, Op.entryAfter]
        simp only [eq_comm (a := id) (b := id')]
        split <;> rfl
    | removeTunnel id' got =>
        rw [(ServerState.exec_removeTunnel h).2, Op.entryAfter]
        simp only [eq_comm (a := id) (b := id')]
        split <;> rfl
    | _ => cases hop
  · rw [ServerState.exec_activeTunnels h (Bool.eq_false_iff.mpr hop)]
    cases op with
    | insertTunnel | removeTunnel => exact absurd rfl hop
    | _ => rfl

theorem lifeInv_step (hr : (server cfg).Run ls c) (hi : LifeInv ls c)
    (hnd : (uuids (ls ++ [(t, op)])).Nodup) (h : (server cfg).step c (t, op) = some c') :
    LifeInv (ls ++ [(t, op)]) c' := by
  have hx := server_step_exec h
  have hself := server_step_self h
  obtain ⟨hnd, hfresh⟩ := nodup_of_snoc hnd
  -- for an id that the stepping task does not own, nothing changes
  have hother : ∀ id, (c.task t).ident? ≠ some id →
      lives id (ls ++ [(t, op)]) = lives id ls ∧
        (c'.shared.activeTunnels.lookup id).isSome = (c.shared.activeTunnels.lookup id).isSome := by
    intro id hne
    have hsub : op.subject? ≠ some id := by
      intro hs
      obtain hn | hk := hself.subject
      · rw [hn] at hs
        cases hs
      · exact hne (hk ▸ hs)
    obtain ⟨hl, he⟩ := Op.other_subject (c.shared.activeTunnels.lookup id).isSome hsub
    rw [lives_snoc, hl, exec_entryAfter hx, he, Option.toList_none, List.append_nil]
    exact ⟨rfl, rfl⟩
  intro u id hu
  cases hold : (c.task u).ident? with
  | some id' =>
      have hkeep := server_step_keeps_ident h hold
      rw [hu] at hkeep
      cases hkeep
      by_cases hut : u = t
      · subst hut
        rw [exec_entryAfter hx, lives_snoc]
        refine hself.stage hold _ _ (hi u id hold) ?_
        rintro got rfl
        rw [(ServerState.exec_removeTunnel hx).1]
      · have hne : (c.task t).ident? ≠ some id := fun ht => hut (ident_unique hr hnd hold ht)
        obtain ⟨hl, he⟩ := hother id hne
        rw [hl, he]
        have hstage : (c'.task u).stage = (c.task u).stage :=
          server_step_attr (fun _ _ => rfl) h hut
        rw [hstage]
        exact hi u id hold
  | none =>
      -- a new id: nothing has been recorded or reported under it
      have hnew : id ∉ uuids ls ∧ (c'.task u).stage = .fresh := by
        obtain hall | ⟨v, id', hop, _, hid, hall⟩ := server_step_ident h
        · rw [hall, hold] at hu
          cases hu
        · have huv : u = v := by
            by_contra hne
            rw [hall u hne, hold] at hu
            cases hu
          subst huv
          rw [hid] at hu
          cases hu
          refine ⟨hfresh id hop, ?_⟩
          by_cases hut : u = t
          · subst hut
            exact hself.fresh hold hid
          · obtain he | ⟨_, ha⟩ := server_step_other h hut
            · rw [he, hold] at hid
              cases hid
            · generalize c'.task u = k' at ha ⊢
              generalize c.task u = k at ha
              cases ha <;> rfl
      have hnone : c.shared.activeTunnels.lookup id = none := by
        cases he : c.shared.activeTunnels.lookup id with
        | none => rfl
        | some e => exact absurd (entry_mem hr he) hnew.1
      have hnil : lives id ls = [] := by
        rw [List.eq_nil_iff_forall_not_mem]
        intro x hx
        exact hnew.1 (lives_mem hr hx)
      have hne : (c.task t).ident? ≠ some id := fun ht => hnew.1 (ident_mem hr ht)
      obtain ⟨hl, he⟩ := hother id hne
      rw [hnew.2, hl, he, hnone, hnil]
      exact ⟨rfl, rfl⟩

theorem lifeInv (h : (server cfg).Run ls c) (hnd : (uuids ls).Nodup) : LifeInv ls c := by
  refine Conc.Lts.Run.induct (P := fun ls c => (uuids ls).Nodup → LifeInv ls c) ?_ ?_ h hnd
  · intro _ t id hk
    cases hk
  · intro ls c a c' hr hi hs hnd
    exact lifeInv_step hr (hi (nodup_of_snoc hnd).1) hnd hs

end Runs

/-! ## Ports in the event log -/

/-- What an event means for the tunnels of the dashboard. -/
def BhEvent.mark? : BhEvent → Option (Mark String UInt16)
  | .tunnelOpened id _ _ port _ _ => some (.opened id port)
  | .tunnelClosed id => some (.closed id)
  | _ => none

/-- What an operation announces about a tunnel. -/
def Op.mark? : Op → Option (Mark String UInt16)
  | .publish e => e.mark?
  | _ => none

/-- The openings and closings of tunnels that a run publishes, in order. -/
def announcements (ls : List (Tid × Op)) : List (Mark String UInt16) :=
  ls.filterMap fun a => a.2.mark?

theorem announcements_snoc (ls : List (Tid × Op)) (t : Tid) (op : Op) :
    announcements (ls ++ [(t, op)]) = announcements ls ++ op.mark?.toList := by
  rw [announcements, List.filterMap_append, announcements]
  cases h : op.mark? <;> simp [h]

/-- What a step does to a session's announcement. -/
inductive AnnounceStep (k : ServerTask) (op : Op) (k' : ServerTask) : Prop where
  | opens {ctx} : op.mark? = some (.opened ctx.tunnelId ctx.port) → k.ctx? = some ctx →
      k.port? = some ctx.port → k.stage.live = false → k'.stage.live = true → AnnounceStep k op k'
  | closes {ctx} : op.mark? = some (.closed ctx.tunnelId) → k.ctx? = some ctx → AnnounceStep k op k'
  | leaves {ctx} : op = .removeTunnel ctx.tunnelId none → k.ctx? = some ctx → k.stage = .closing →
      AnnounceStep k op k'
  | none : op.mark? = .none → (k.stage.live = true → k'.stage.live = true) → AnnounceStep k op k'

section Announcements

variable {tokens : List String} {s : SessionCtx} {ctx : TunnelCtx} {node : NodeInfo}
  {k k' : ServerTask} {cfg : ServerConfig} {ls : List (Tid × Op)} {c c' : Server} {t : Tid}
  {op : Op}

theorem ServeTunnel.Step.no_mark {pc : Pc} {f : Flow Pc} (h : Step s ctx pc op f) :
    op.mark? = none := by
  cases h <;> rfl

theorem ServeCliDirect.Step.mark {pc : Pc} {f : Flow Pc} (h : Step s ctx pc op f) :
    op.mark? = none ∨ (∃ at', pc = .publish at' ∧ f = .at (.serve .select)) ∧
      op.mark? = some (.opened ctx.tunnelId ctx.port) := by
  cases h with
  | publish => exact Or.inr ⟨⟨_, rfl, rfl⟩, rfl⟩
  | serve h | served h => exact Or.inl h.no_mark
  | _ => exact Or.inl rfl

theorem ServeCliDirect.Step.live {pc pc' : Pc} (h : Step s ctx pc op (.at pc'))
    (hl : pc.stage.live = true) : pc'.stage.live = true := by
  cases h with
  | serve h => rfl
  | _ => cases hl

theorem ServerTask.Step.announce (h : Step tokens t k op k') : AnnounceStep k op k' := by
  cases h with
  | connect => exact .none rfl nofun
  | cli h =>
      cases h with
      | direct h =>
          obtain hm | ⟨⟨_, rfl, hf⟩, hm⟩ := h.mark
          · exact .none hm h.live
          · cases hf
            exact .opens hm rfl rfl rfl rfl
      | directRet h =>
          obtain hm | ⟨⟨_, _, hf⟩, _⟩ := h.mark
          · exact .none hm fun _ => rfl
          · cases hf
      | viaNode h =>
          cases h with
          | fallback h =>
              obtain hm | ⟨⟨_, rfl, hf⟩, hm⟩ := h.mark
              · exact .none hm h.live
              · cases hf
                exact .opens hm rfl rfl rfl rfl
          | fellBack h =>
              obtain hm | ⟨⟨_, _, hf⟩, _⟩ := h.mark
              · exact .none hm fun _ => rfl
              · cases hf
          -- Through a node, the tunnel is announced once it is open there.
          | publish => exact .opens rfl rfl rfl rfl rfl
          | _ => exact .none rfl id
      | viaNodeRet h => cases h <;> exact .none rfl fun _ => rfl
      | notRecorded => exact .leaves rfl rfl rfl
      | closed => exact .closes rfl rfl
      | removed => exact .none rfl fun _ => rfl
      | _ => exact .none rfl id
  | node h =>
      cases h with
      | connected | left => exact .none rfl nofun
      | forward h | forwarded h => exact .none (by cases h <;> rfl) nofun
      | _ => exact .none rfl id
  | visitor h => exact .none (by cases h <;> rfl) id
  | dataConn h => exact .none (by cases h <;> rfl) id
  | close h => exact .none (by cases h <;> rfl) id
  | _ => exact .none rfl id

theorem ServerTask.port_of_live (hctx : k.ctx? = some ctx) (hl : k.stage.live = true) :
    k.port? = some ctx.port := by
  cases k with
  | cli register pc =>
      cases pc with
      | release | done => cases hl
      | direct | viaNode | remove | endedAt | archive | closed => cases hctx; rfl
      | pick => cases hl
      | _ => cases hctx
  | _ => cases hctx

theorem server_step_keeps_ctx {u : Tid} (h : (server cfg).step c (t, op) = some c')
    (hk : (c.task u).ctx? = some ctx) : (c'.task u).ctx? = some ctx := by
  by_cases hu : u = t
  · subst hu
    obtain he | ⟨hn, _⟩ := (server_step_self h).ctx
    · rw [he, hk]
    · rw [hk] at hn
      cases hn
  · rw [server_step_attr (f := ServerTask.ctx?) (fun _ _ => rfl) h hu, hk]

/-- What is announced and not closed belongs to a session that still holds its
    port, and no two such tunnels have the same port. -/
structure AnnounceInv (ls : List (Tid × Op)) (c : Server) : Prop where
  live : ∀ x ∈ live (announcements ls),
    ∃ t, (c.task t).ctx? = some ⟨x.1, x.2⟩ ∧ (c.task t).stage.live = true
  exclusive : Exclusive (announcements ls)

/-- An announced tunnel has its event. -/
theorem opened_mem_lives {x : String × UInt16} (h : x ∈ live (announcements ls)) :
    Life.opened ∈ lives x.1 ls := by
  obtain ⟨⟨t, op⟩, ha, hm⟩ := List.mem_filterMap.mp (mem_of_mem_live h)
  refine List.mem_filterMap.mpr ⟨(t, op), ha, ?_⟩
  cases op with
  | publish e => cases e <;> cases hm; exact if_pos rfl
  | _ => cases hm

theorem announceInv_step (hr : (server cfg).Run ls c) (hi : AnnounceInv ls c)
    (hnd : (uuids ls).Nodup) (h : (server cfg).step c (t, op) = some c') :
    AnnounceInv (ls ++ [(t, op)]) c' := by
  have hkeep : ∀ u ctx, u ≠ t → (c.task u).ctx? = some ctx ∧ (c.task u).stage.live = true →
      (c'.task u).ctx? = some ctx ∧ (c'.task u).stage.live = true := by
    rintro u ctx hu ⟨hctx, hl⟩
    refine ⟨server_step_keeps_ctx h hctx, ?_⟩
    rw [server_step_attr (f := ServerTask.stage) (fun _ _ => rfl) h hu]
    exact hl
  -- the sessions behind announced tunnels other than that of `t`
  have hothers : ∀ x ∈ live (announcements ls), (c.task t).ctx? ≠ some ⟨x.1, x.2⟩ →
      ∃ u, (c'.task u).ctx? = some ⟨x.1, x.2⟩ ∧ (c'.task u).stage.live = true := by
    intro x hx hne
    obtain ⟨u, hu⟩ := hi.live x hx
    have hut : u ≠ t := fun hut => hne (hut ▸ hu.1)
    exact ⟨u, hkeep u _ hut hu⟩
  have hquiet : op.mark? = none → announcements (ls ++ [(t, op)]) = announcements ls := by
    intro hm
    rw [announcements_snoc, hm, Option.toList_none, List.append_nil]
  cases (server_step_self h).announce with
  | @opens ctx hm hctx hport hl hl' =>
      have hlog : announcements (ls ++ [(t, op)]) =
          announcements ls ++ [.opened ctx.tunnelId ctx.port] := by
        rw [announcements_snoc, hm, Option.toList_some]
      have hnot : ∀ x ∈ live (announcements ls), x.2 = ctx.port → False := by
        intro x hx hport'
        obtain ⟨u, hu, hlu⟩ := hi.live x hx
        have hpu := ServerTask.port_of_live hu hlu
        rw [show (⟨x.1, x.2⟩ : TunnelCtx).port = ctx.port from hport'] at hpu
        rw [(portInv hr).unique u t _ hpu hport, hl] at hlu
        cases hlu
      constructor
      case live =>
        intro x hx
        rw [hlog, live_opened, List.mem_append] at hx
        obtain hx | hx := hx
        · refine hothers x hx fun hk => ?_
          rw [hctx] at hk
          exact hnot x hx (congrArg TunnelCtx.port (Option.some.inj hk)).symm
        · rw [List.mem_singleton.mp hx]
          exact ⟨t, server_step_keeps_ctx h hctx, hl'⟩
      case exclusive =>
        rw [hlog]
        exact hi.exclusive.opened fun id hx => hnot _ hx rfl
  | @closes ctx hm hctx =>
      have hlog : announcements (ls ++ [(t, op)]) = announcements ls ++ [.closed ctx.tunnelId] := by
        rw [announcements_snoc, hm, Option.toList_some]
      constructor
      case live =>
        intro x hx
        rw [hlog, live_closed, List.mem_filter, decide_eq_true_iff] at hx
        refine hothers x hx.1 fun hk => hx.2 ?_
        rw [hctx] at hk
        exact (congrArg TunnelCtx.tunnelId (Option.some.inj hk)).symm
      case exclusive =>
        rw [hlog]
        exact hi.exclusive.closed
  | @leaves ctx hop hctx hclosing =>
      have hm : op.mark? = none := by
        rw [hop]
        rfl
      refine ⟨?_, hquiet hm ▸ hi.exclusive⟩
      intro x hx
      rw [hquiet hm] at hx
      refine hothers x hx fun hk => ?_
      -- the entry was not there, so the tunnel was never announced
      rw [hctx] at hk
      have hid : ctx.tunnelId = x.1 := congrArg TunnelCtx.tunnelId (Option.some.inj hk)
      have hlife := lifeInv hr hnd t ctx.tunnelId (ServerTask.ident_of_ctx hctx)
      have hx' := server_step_exec h
      rw [hop] at hx'
      rw [hclosing, (ServerState.exec_removeTunnel hx').1] at hlife
      obtain ⟨hentry, _⟩ | ⟨_, hnil⟩ := hlife
      · cases hentry
      · have hopened := opened_mem_lives hx
        rw [← hid, hnil] at hopened
        cases hopened
  | none hm hlive =>
      refine ⟨?_, hquiet hm ▸ hi.exclusive⟩
      intro x hx
      rw [hquiet hm] at hx
      obtain ⟨u, hu, hlu⟩ := hi.live x hx
      by_cases hut : u = t
      · subst hut
        exact ⟨u, server_step_keeps_ctx h hu, hlive hlu⟩
      · exact ⟨u, hkeep u _ hut ⟨hu, hlu⟩⟩

theorem announceInv (h : (server cfg).Run ls c) (hnd : (uuids ls).Nodup) : AnnounceInv ls c := by
  refine Conc.Lts.Run.induct (P := fun ls c => (uuids ls).Nodup → AnnounceInv ls c) ?_ ?_ h hnd
  · intro _
    exact ⟨nofun, exclusive_nil⟩
  · intro ls c a c' hr hi hs hnd
    have hnd := (nodup_of_snoc hnd).1
    exact announceInv_step hr (hi hnd) hnd hs

end Announcements

end Borehole
