/-
  Borehole.Server.Ids

  Generated ids.

  A CLI session generates a tunnel id, a node session a node id and a serving
  loop a connection id for each visitor.  A task keeps the id it was given, so
  where the generated ids are all distinct an id belongs to one task for good.
-/

import Borehole.Server.Routes

namespace Borehole

/-- The id that an operation generates. -/
def Op.uuid? : Op → Option String
  | .uuid id => some id
  | .accept (some (_, vis)) => some vis.connId
  | _ => none

/-- The ids generated in a run, in order. -/
def uuids (ls : List (Tid × Op)) : List String :=
  ls.filterMap fun a => a.2.uuid?

@[simp] theorem uuids_snoc (ls : List (Tid × Op)) (t : Tid) (op : Op) :
    uuids (ls ++ [(t, op)]) = uuids ls ++ op.uuid?.toList := by
  rw [uuids, List.filterMap_append, uuids]
  cases h : op.uuid? <;> simp [h]

/-- The tunnel of a session, once it has an id. -/
def HandleCli.Pc.ctx? : HandleCli.Pc → Option TunnelCtx
  | .pick ctx | .direct ctx _ | .viaNode ctx _ _ | .remove ctx | .endedAt ctx _
  | .archive ctx _ _ | .closed ctx | .release ctx => some ctx
  | .done ctx => ctx
  | _ => none

/-- The tunnel of a task. -/
def ServerTask.ctx? : ServerTask → Option TunnelCtx
  | .cli _ pc => pc.ctx?
  | _ => none

/-- The id that a node session has drawn. -/
def HandleNode.Pc.nodeId? : HandleNode.Pc → Option String
  | .register id | .lockAck id | .ack id | .ackFailed id | .unlockFailed id | .connected id
  | .read id | .forward id _ _ | .remove id | .left id => some id
  | .done id => id
  | _ => none

/-- The id generated for a task. -/
def ServerTask.ident? : ServerTask → Option String
  | .cli _ pc => pc.ctx?.map TunnelCtx.tunnelId
  | .node _ _ pc => pc.nodeId?
  | .visitor vis _ => some vis.connId
  | _ => none

theorem ServerTask.ident_of_ctx {k : ServerTask} {ctx : TunnelCtx} (h : k.ctx? = some ctx) :
    k.ident? = some ctx.tunnelId := by
  cases k with
  | cli register pc =>
      rw [ident?, show pc.ctx? = some ctx from h]
      rfl
  | _ => cases h

theorem ServerTask.ctx_of_tunnel {k : ServerTask} {ctx : TunnelCtx} (h : k.tunnel? = some ctx) :
    k.ctx? = some ctx := by
  cases k with
  | cli register pc => cases pc <;> first | exact h | cases h
  | _ => cases h

section Steps

variable {tokens : List String} {t : Tid} {k k' : ServerTask} {op : Op}

/-- A task keeps its id, and gets it from the operation that generates it. -/
theorem ServerTask.Step.ident (h : Step tokens t k op k') :
    k'.ident? = k.ident? ∨ k.ident? = none ∧ ∃ id, op = .uuid id ∧ k'.ident? = some id := by
  cases h with
  | @connect peer first =>
      have hd := handleClient_dispatched peer first
      generalize handleClient peer first = k' at hd ⊢
      cases hd <;> exact Or.inl rfl
  | cli h =>
      cases h with
      | tunnelId => exact Or.inr ⟨rfl, _, rfl, rfl⟩
      | _ => exact Or.inl rfl
  | node h =>
      cases h with
      | nodeId => exact Or.inr ⟨rfl, _, rfl, rfl⟩
      | _ => exact Or.inl rfl
  | _ => exact Or.inl rfl

/-- A session keeps its tunnel, and gets it with the id that it generates. -/
theorem ServerTask.Step.ctx (h : Step tokens t k op k') :
    k'.ctx? = k.ctx? ∨ k.ctx? = none ∧ ∃ ctx, op = .uuid ctx.tunnelId ∧ k'.ctx? = some ctx ∧
      k.port? = some ctx.port := by
  cases h with
  | @connect peer first =>
      have hd := handleClient_dispatched peer first
      generalize handleClient peer first = k' at hd ⊢
      cases hd <;> exact Or.inl rfl
  | cli h =>
      cases h with
      | tunnelId => exact Or.inr ⟨rfl, _, rfl, rfl, rfl⟩
      | _ => exact Or.inl rfl
  | _ => exact Or.inl rfl

end Steps

section Server

variable {cfg : ServerConfig} {ls : List (Tid × Op)} {c c' : Server} {t u v : Tid} {op : Op}
  {id : String}

/-- A step gives an id to at most one task, the one it was generated for. -/
theorem server_step_ident (h : (server cfg).step c (t, op) = some c') :
    (∀ u, (c'.task u).ident? = (c.task u).ident?) ∨
    ∃ v id, op.uuid? = some id ∧ (c.task v).ident? = none ∧ (c'.task v).ident? = some id ∧
      ∀ u, u ≠ v → (c'.task u).ident? = (c.task u).ident? := by
  have hself := (server_step_self h).ident
  have hadopt : ∀ u, u ≠ t → (c'.task u).ident? = (c.task u).ident? ∨
      op.child = some u ∧ (c.task u).ident? = none ∧ ∃ id, op.uuid? = some id ∧
        (c'.task u).ident? = some id := by
    intro u hu
    obtain he | ⟨hc, ha⟩ := server_step_other h hu
    · rw [he]
      exact Or.inl rfl
    · generalize c.task u = k at ha
      generalize c'.task u = k' at ha
      cases ha with
      | accept => exact Or.inr ⟨hc, rfl, _, rfl, rfl⟩
      | insertPending | spawn | drop => exact Or.inl rfl
  obtain hself | ⟨hn, id, rfl, hid⟩ := hself
  · by_cases hall : ∀ u, u ≠ t → (c'.task u).ident? = (c.task u).ident?
    · refine Or.inl fun u => ?_
      by_cases hu : u = t
      · rw [hu, hself]
      · exact hall u hu
    · simp only [not_forall] at hall
      obtain ⟨v, hv, hne⟩ := hall
      obtain he | ⟨hc, hn, id, hop, hid⟩ := hadopt v hv
      · exact absurd he hne
      · refine Or.inr ⟨v, id, hop, hn, hid, fun u hu => ?_⟩
        by_cases hut : u = t
        · rw [hut, hself]
        · obtain he | ⟨hc', _⟩ := hadopt u hut
          · exact he
          · rw [hc] at hc'
            exact absurd (Option.some.inj hc').symm hu
  · refine Or.inr ⟨t, id, rfl, hn, hid, fun u hu => ?_⟩
    obtain he | ⟨hc, _⟩ := hadopt u hu
    · exact he
    · cases hc

/-- A task never loses its id. -/
theorem server_step_keeps_ident (h : (server cfg).step c (t, op) = some c')
    (hk : (c.task u).ident? = some id) : (c'.task u).ident? = some id := by
  obtain hall | ⟨v, _, _, hn, _, hall⟩ := server_step_ident h
  · rw [hall, hk]
  · have hu : u ≠ v := by
      rintro rfl
      rw [hk] at hn
      cases hn
    rw [hall u hu, hk]

/-- The ids of tasks have been generated. -/
theorem ident_mem (h : (server cfg).Run ls c) (hk : (c.task u).ident? = some id) :
    id ∈ uuids ls := by
  refine Conc.Lts.Run.induct
    (P := fun ls c => ∀ u id, (c.task u).ident? = some id → id ∈ uuids ls) ?_ ?_ h u id hk
  · intro u id hk
    cases hk
  · rintro ls c ⟨t, op⟩ c' - hi hs u id hk
    rw [uuids_snoc, List.mem_append, Option.mem_toList]
    obtain hall | ⟨v, id', hop, _, hid, hall⟩ := server_step_ident hs
    · rw [hall] at hk
      exact Or.inl (hi u id hk)
    · by_cases hu : u = v
      · rw [hu, hid] at hk
        cases hk
        exact Or.inr hop
      · rw [hall u hu] at hk
        exact Or.inl (hi u id hk)

theorem nodup_of_snoc {ls : List (Tid × Op)} {a : Tid × Op} (h : (uuids (ls ++ [a])).Nodup) :
    (uuids ls).Nodup ∧ ∀ id, a.2.uuid? = some id → id ∉ uuids ls := by
  obtain ⟨t, op⟩ := a
  rw [uuids_snoc, List.nodup_append] at h
  refine ⟨h.1, fun id hid hm => ?_⟩
  exact h.2.2 id hm id (Option.mem_toList.mpr hid) rfl

/-- No two tasks have the same id where the generated ids are distinct. -/
theorem ident_unique (h : (server cfg).Run ls c) (hnd : (uuids ls).Nodup)
    (hu : (c.task u).ident? = some id) (hv : (c.task v).ident? = some id) : u = v := by
  refine Conc.Lts.Run.induct (P := fun ls c => (uuids ls).Nodup → ∀ u v id,
    (c.task u).ident? = some id → (c.task v).ident? = some id → u = v) ?_ ?_ h hnd u v id hu hv
  · intro _ u v id hu
    cases hu
  · rintro ls c ⟨t, op⟩ c' hr hi hs hnd u v id hu hv
    obtain ⟨hnd, hfresh⟩ := nodup_of_snoc hnd
    obtain hall | ⟨w, id', hop, _, hid, hall⟩ := server_step_ident hs
    · rw [hall] at hu hv
      exact hi hnd u v id hu hv
    -- the new id is not the id of any task yet
    · have hnew : ∀ u, u ≠ w → (c'.task u).ident? ≠ some id' := by
        intro u huw hu
        rw [hall u huw] at hu
        exact hfresh id' hop (ident_mem hr hu)
      by_cases huw : u = w <;> by_cases hvw : v = w
      · rw [huw, hvw]
      · rw [huw, hid] at hu
        cases hu
        exact absurd hv (hnew v hvw)
      · rw [hvw, hid] at hv
        cases hv
        exact absurd hu (hnew u huw)
      · rw [hall u huw] at hu
        rw [hall v hvw] at hv
        exact hi hnd u v id hu hv

/-- Two sessions of one tunnel are the same session. -/
theorem ctx_unique {ctx ctx' : TunnelCtx} (h : (server cfg).Run ls c) (hnd : (uuids ls).Nodup)
    (hu : (c.task u).ctx? = some ctx) (hv : (c.task v).ctx? = some ctx')
    (hid : ctx.tunnelId = ctx'.tunnelId) : u = v :=
  ident_unique h hnd (ServerTask.ident_of_ctx hu) (hid ▸ ServerTask.ident_of_ctx hv)

end Server

end Borehole
