/-
  Borehole.Server.Closing

  Closing a tunnel from the dashboard.

  DELETE stores a permit in the `Notify` of the tunnel's session, and only the
  close branch of that session's `select!` takes it, on its way out of the loop.
  So the permit outlives every other branch and every body that runs between the
  request and the next `select!`.  Past the loop a session runs through a fixed
  sequence of operations that ends with the release of its port.
-/

import Borehole.Server.Lifecycle
import Borehole.Server.Orders
import Borehole.Server.Writers
import Borehole.Server.Handshake

namespace Borehole

open Conc Tasks

/-! ## Where a session is with its loop -/

/-- At the `select!` of the serving loop. -/
def ServerTask.selecting : ServerTask → Bool
  | .cli _ (.direct _ (.serve .select)) | .cli _ (.viaNode _ _ .select)
  | .cli _ (.viaNode _ _ (.fallback (.serve .select))) => true
  | _ => false

/-- Past the serving loop. -/
def ServerTask.left : ServerTask → Bool
  | .cli _ (.viaNode _ _ .lockClose) | .cli _ (.viaNode _ _ .closeTunnel)
  | .cli _ (.viaNode _ _ .decrement) | .cli _ (.viaNode _ _ .unlockFallback)
  | .cli _ (.remove _) | .cli _ (.endedAt _ _) | .cli _ (.archive _ _ _) | .cli _ (.closed _)
  | .cli _ (.release _) | .cli _ (.done _) => true
  | _ => false

/-- A bound on the operations that a session past its loop has to perform. -/
def ServerTask.remaining : ServerTask → Nat
  | .cli _ (.viaNode _ _ .lockClose) => 8
  | .cli _ (.viaNode _ _ .closeTunnel) => 7
  | .cli _ (.viaNode _ _ .decrement) | .cli _ (.viaNode _ _ .unlockFallback) => 6
  | .cli _ (.remove _) => 5
  | .cli _ (.endedAt _ _) => 4
  | .cli _ (.archive _ _ _) => 3
  | .cli _ (.closed _) => 2
  | .cli _ (.release _) => 1
  | _ => 0

/-- The central cleanup has taken the entry out. -/
def ServerTask.removed : ServerTask → Bool
  | .cli _ (.endedAt _ _) | .cli _ (.archive _ _ _) | .cli _ (.closed _) | .cli _ (.release _)
  | .cli _ (.done _) => true
  | _ => false

/-- The session is over. -/
def ServerTask.ended : ServerTask → Bool
  | .cli _ (.done _) => true
  | _ => false

/-- Whether an operation takes the entry of `id` out of the table. -/
def Op.removes (id : String) : Op → Bool
  | .removeTunnel id' _ => id' = id
  | _ => false

/-- How often a run takes the entry of `id` out of the table. -/
def removals (id : String) (ls : List (Tid × Op)) : Nat :=
  ls.countP fun a => a.2.removes id

/-- The ports that task `t` gives back in a run. -/
def releases (t : Tid) (ls : List (Tid × Op)) : List UInt16 :=
  (opsOf t ls).filterMap Op.gives?

section Steps

variable {tokens : List String} {s : SessionCtx} {ctx : TunnelCtx} {t u : Tid} {op : Op}
  {k k' : ServerTask} {id : String} {ls : List (Tid × Op)}

@[simp] theorem removals_snoc : removals id (ls ++ [(t, op)]) =
    removals id ls + if op.removes id then 1 else 0 := by
  rw [removals, List.countP_append, List.countP_singleton, removals]

@[simp] theorem releases_snoc_self :
    releases t (ls ++ [(t, op)]) = releases t ls ++ op.gives?.toList := by
  rw [releases, opsOf_append, opsOf_singleton_self, List.filterMap_append, releases]
  cases h : op.gives? <;> simp [h]

theorem releases_snoc_ne (h : t ≠ u) : releases u (ls ++ [(t, op)]) = releases u ls := by
  rw [releases, opsOf_append, opsOf_singleton_ne op h, List.append_nil, releases]

/-- Past its loop a session only gets closer to its end. -/
theorem ServerTask.Step.remaining_lt (h : Step tokens t k op k') (hk : k.left = true) :
    k'.left = true ∧ k'.remaining < k.remaining := by
  cases h with
  | cli h =>
      cases h with
      | viaNode h => cases h <;> first | cases hk; done | exact ⟨rfl, by simp [remaining]⟩
      | viaNodeRet h => cases h <;> exact ⟨rfl, by simp [remaining]⟩
      | removed | notRecorded | endedAt | archive | closed | release =>
          exact ⟨rfl, by simp [remaining]⟩
      | _ => cases hk
  | _ => cases hk

/-- The close branch leads out of the loop. -/
theorem ServerTask.Step.notified (h : Step tokens t k .notified k') : k'.left = true := by
  cases h with
  | cli h =>
      cases h with
      | direct h =>
          cases h with
          | serve h => cases h
      | directRet h => rfl
      | viaNode h =>
          cases h with
          | fallback h =>
              cases h with
              | serve h => cases h
          | fellBack | closed => rfl
      | viaNodeRet h => cases h
  | node h =>
      cases h with
      | forward h | forwarded h => cases h
  | visitor h => cases h
  | dataConn h => cases h
  | close h => cases h

/-- What a step does to the cleanup of a session. -/
inductive CleanStep (ctx : TunnelCtx) (k : ServerTask) (op : Op) (k' : ServerTask) : Prop where
  | quiet : op.removes ctx.tunnelId = false → op.gives? = none → k'.removed = k.removed →
      k'.ended = k.ended → CleanStep ctx k op k'
  | remove : op.removes ctx.tunnelId = true → op.gives? = none → k.removed = false →
      k'.removed = true → k.ended = false → k'.ended = false → CleanStep ctx k op k'
  | release : op.removes ctx.tunnelId = false → op.gives? = some ctx.port → k.removed = true →
      k'.removed = true → k.ended = false → k'.ended = true → CleanStep ctx k op k'

theorem ServeCliDirect.Step.not_cleans {pc : Pc} {f : Flow Pc} (h : Step s ctx pc op f) :
    op.removes id = false ∧ op.gives? = none := by
  cases h with
  | serve h | served h => cases h <;> exact ⟨rfl, rfl⟩
  | _ => exact ⟨rfl, rfl⟩

theorem ServeCliViaNode.Step.not_cleans {node : NodeInfo} {pc : Pc} {f : Flow Pc}
    (h : Step s ctx node pc op f) : op.removes id = false ∧ op.gives? = none := by
  cases h with
  | fallback h | fellBack h => exact h.not_cleans
  | _ => exact ⟨rfl, rfl⟩

theorem ServerTask.Step.clean (h : Step tokens t k op k') (hk : k.ctx? = some ctx) :
    CleanStep ctx k op k' := by
  cases h with
  | cli h =>
      cases h with
      | direct h | directRet h =>
          obtain ⟨hr, hg⟩ := h.not_cleans
          exact .quiet hr hg rfl rfl
      | viaNode h | viaNodeRet h =>
          obtain ⟨hr, hg⟩ := h.not_cleans
          exact .quiet hr hg rfl rfl
      | removed | notRecorded =>
          cases hk
          exact .remove (decide_eq_true rfl) rfl rfl rfl rfl rfl
      | release => cases hk; exact .release rfl rfl rfl rfl rfl rfl
      | picked | noNode | endedAt | archive | closed => exact .quiet rfl rfl rfl rfl
      | _ => cases hk
  | _ => cases hk

/-- Only a session with a tunnel gives a port back. -/
theorem ServerTask.Step.gives {port : UInt16} (h : Step tokens t k op k')
    (hg : op.gives? = some port) : ∃ ctx, k.ctx? = some ctx := by
  have hquiet : ∀ {P : Prop}, op.removes "" = false ∧ op.gives? = none → P := by
    rintro P ⟨_, hn⟩
    rw [hn] at hg
    cases hg
  cases h with
  | cli h =>
      cases h with
      | direct h | directRet h => exact hquiet h.not_cleans
      | viaNode h | viaNodeRet h => exact hquiet h.not_cleans
      | release => exact ⟨_, rfl⟩
      | _ => cases hg
  | node h =>
      cases h with
      | forward h | forwarded h => cases h <;> cases hg
      | _ => cases hg
  | visitor h => cases h <;> cases hg
  | dataConn h => cases h <;> cases hg
  | close h => cases h <;> cases hg
  | _ => cases hg

/-- A session that gets its tunnel has cleaned nothing up. -/
theorem ServerTask.Step.not_cleaned (h : Step tokens t k op k') (hk : k.ctx? = none)
    (hk' : k'.ctx? = some ctx) : k'.removed = false ∧ k'.ended = false := by
  cases h with
  | @connect peer first =>
      have hd := handleClient_dispatched peer first
      generalize handleClient peer first = k' at hd hk'
      cases hd <;> cases hk'
  | cli h =>
      cases h with
      | tunnelId => exact ⟨rfl, rfl⟩
      | _ => first | cases hk'; done | cases hk
  | _ => cases hk'

theorem ServerTask.Step.looked {w : Tid} (h : Step tokens t k op k')
    (hk : k' = .close (.notify id w)) : op = .getClose id (some w) := by
  cases h with
  | @connect peer first =>
      have hd := handleClient_dispatched peer first
      generalize handleClient peer first = k' at hd hk
      cases hd <;> cases hk
  | close h =>
      cases h with
      | found => cases hk; rfl
      | notFound | notify => cases hk
  | _ => cases hk

theorem ServerTask.Step.signalled (h : Step tokens t k op k')
    (hk : k' = .close (.answered id true)) :
      ∃ w, k = .close (.notify id w) ∧ op = .notifyOne w := by
  cases h with
  | @connect peer first =>
      have hd := handleClient_dispatched peer first
      generalize handleClient peer first = k' at hd hk
      cases hd <;> cases hk
  | close h =>
      cases h with
      | notify => cases hk; exact ⟨_, rfl, rfl⟩
      | found | notFound => cases hk
  | _ => cases hk

end Steps

/-! ## What a request leaves behind -/

/-- A request that is about to signal, or has signalled, holds the `Notify` of
    the tunnel's session. -/
structure DeleteInv (ls : List (Tid × Op)) (c : Server) : Prop where
  looked : ∀ d id w, c.task d = .close (.notify id w) → ∃ ctx, (c.task w).ctx? = some ctx ∧
    ctx.tunnelId = id
  signalled : ∀ d id, c.task d = .close (.answered id true) → ∃ w ctx, (d, .notifyOne w) ∈ ls ∧
    (c.task w).ctx? = some ctx ∧ ctx.tunnelId = id

/-- A signal is there until the session has left its loop. -/
def PermitInv (ls : List (Tid × Op)) (c : Server) : Prop :=
  ∀ d w, (d, .notifyOne w) ∈ ls → (c.task w).left = false → c.shared.permit w = true

/-- How far the cleanup of a session has come. -/
structure Cleaned (ls : List (Tid × Op)) (k : ServerTask) (t : Tid) (ctx : TunnelCtx) : Prop where
  removals : removals ctx.tunnelId ls = if k.removed then 1 else 0
  releases : releases t ls = if k.ended then [ctx.port] else []

section Runs

variable {cfg : ServerConfig} {ls : List (Tid × Op)} {c c' : Server} {t d w : Tid} {op : Op}
  {id : String} {ctx : TunnelCtx}

theorem PermitInv.step (hi : PermitInv ls c) (h : (server cfg).step c (t, op) = some c') :
    PermitInv (ls ++ [(t, op)]) c' := by
  have hx := server_step_exec h
  intro d w hm hw
  obtain hm | hm := List.mem_append.mp hm
  · have hold : (c.task w).left = false := by
      by_cases hwt : w = t
      · subst hwt
        by_contra hl
        obtain ⟨hl', _⟩ := (server_step_self h).remaining_lt (Bool.eq_true_of_not_eq_false hl)
        rw [hl'] at hw
        cases hw
      · rw [server_step_attr (f := ServerTask.left) (fun _ _ => rfl) h hwt] at hw
        exact hw
    obtain hp | ⟨rfl, rfl⟩ := ServerState.exec_keepsPermit hx (hi d w hm hold)
    · exact hp
    · rw [(server_step_self h).notified] at hw
      cases hw
  · cases List.mem_singleton.mp hm
    rw [ServerState.exec_notifyOne hx, Function.update_self]

theorem permitInv (h : (server cfg).Run ls c) : PermitInv ls c := by
  refine Conc.Lts.Run.induct (P := fun ls c => PermitInv ls c) ?_
    (fun _ _ _ _ _ hi hs => hi.step hs) h
  nofun

theorem DeleteInv.step (hi : DeleteInv ls c) (hr : (server cfg).Run ls c)
    (h : (server cfg).step c (t, op) = some c') : DeleteInv (ls ++ [(t, op)]) c' := by
  have hx := server_step_exec h
  have hself := server_step_self h
  have hkeep : ∀ {d pc}, d ≠ t → c'.task d = .close pc → c.task d = .close pc := by
    intro d pc hd hk
    obtain he | ⟨_, ha⟩ := server_step_other h hd
    · rw [← he, hk]
    · rw [hk] at ha
      generalize c.task d = k at ha
      cases ha
  constructor
  case looked =>
    intro d id w hk
    by_cases hd : d = t
    · subst hd
      obtain rfl := hself.looked hk
      obtain ⟨hg, _⟩ := Option.ite_none_right_eq_some.mp hx
      obtain ⟨e, he, hclose⟩ := Option.map_eq_some_iff.mp hg
      have hctx := ServerTask.ctx_of_tunnel (tunnelInv hr id e he)
      rw [hclose] at hctx
      exact ⟨_, server_step_keeps_ctx h hctx, rfl⟩
    · obtain ⟨ctx, hctx, hid⟩ := hi.looked d id w (hkeep hd hk)
      exact ⟨ctx, server_step_keeps_ctx h hctx, hid⟩
  case signalled =>
    intro d id hk
    by_cases hd : d = t
    · subst hd
      obtain ⟨w, hk₀, rfl⟩ := hself.signalled hk
      obtain ⟨ctx, hctx, hid⟩ := hi.looked d id w hk₀
      exact ⟨w, ctx, by simp, server_step_keeps_ctx h hctx, hid⟩
    · obtain ⟨w, ctx, hm, hctx, hid⟩ := hi.signalled d id (hkeep hd hk)
      exact ⟨w, ctx, List.mem_append_left _ hm, server_step_keeps_ctx h hctx, hid⟩

theorem deleteInv (h : (server cfg).Run ls c) : DeleteInv ls c := by
  refine Conc.Lts.Run.induct (P := fun ls c => DeleteInv ls c) ?_
    (fun _ _ _ _ hr hi hs => hi.step hr hs) h
  constructor
  case looked =>
    intro d id w hk
    cases hk
  case signalled =>
    intro d id hk
    cases hk

/-! ## The cleanup -/

/-- Entries are taken out under generated ids. -/
theorem removals_of_fresh (h : (server cfg).Run ls c) (hid : id ∉ uuids ls) :
    removals id ls = 0 := by
  refine Conc.Lts.Run.induct (P := fun ls _ => id ∉ uuids ls → removals id ls = 0) ?_ ?_ h hid
  · intro _
    rfl
  · rintro ls c ⟨t, op⟩ c' hr hi hs hid
    rw [uuids_snoc, List.mem_append, not_or] at hid
    rw [removals_snoc, hi hid.1, if_neg]
    intro hrem
    have hsub : op.subject? = some id := by
      cases op with
      | removeTunnel id' got => exact congrArg some (of_decide_eq_true hrem)
      | _ => cases hrem
    obtain hn | hk := (server_step_self hs).subject
    · rw [hn] at hsub
      cases hsub
    · exact hid.1 (ident_mem hr (hk ▸ hsub))

theorem Op.not_removes (h : op.subject? ≠ some id) : op.removes id = false := by
  cases op with
  | removeTunnel id' got => exact decide_eq_false fun hid => h (congrArg some hid)
  | _ => rfl

/-- How far every session's cleanup has come. -/
structure CleanInv (ls : List (Tid × Op)) (c : Server) : Prop where
  sessions : ∀ t ctx, (c.task t).ctx? = some ctx → Cleaned ls (c.task t) t ctx
  others : ∀ t, (c.task t).ctx? = none → releases t ls = []

theorem Cleaned.step {k k' : ServerTask} (hi : Cleaned ls k t ctx) (h : CleanStep ctx k op k') :
    Cleaned (ls ++ [(t, op)]) k' t ctx := by
  cases h with
  | quiet hrem hgives hrd hend =>
      constructor
      case removals =>
        rw [removals_snoc, hrem, hi.removals, hrd]
        simp
      case releases =>
        rw [releases_snoc_self, hgives, hi.releases, hend]
        simp
  | remove hrem hgives hrd hrd' hend hend' =>
      constructor
      case removals =>
        rw [removals_snoc, hrem, hi.removals, hrd, hrd']
        simp
      case releases =>
        rw [releases_snoc_self, hgives, hi.releases, hend, hend']
        simp
  | release hrem hgives hrd hrd' hend hend' =>
      constructor
      case removals =>
        rw [removals_snoc, hrem, hi.removals, hrd, hrd']
        simp
      case releases =>
        rw [releases_snoc_self, hgives, hi.releases, hend, hend']
        simp

theorem CleanInv.step (hi : CleanInv ls c) (hr : (server cfg).Run ls c)
    (hnd : (uuids (ls ++ [(t, op)])).Nodup) (h : (server cfg).step c (t, op) = some c') :
    CleanInv (ls ++ [(t, op)]) c' := by
  have hself := server_step_self h
  obtain ⟨hnd, hfresh⟩ := nodup_of_snoc hnd
  constructor
  case sessions =>
    intro u ctx hu
    by_cases hut : u = t
    · subst hut
      obtain he | ⟨hnone, ctx', rfl, hctx', _⟩ := hself.ctx
      · rw [he] at hu
        exact (hi.sessions u ctx hu).step (hself.clean hu)
      -- a new tunnel: nothing has been done under its id
      · rw [hctx'] at hu
        cases hu
        obtain ⟨hrd, hend⟩ := hself.not_cleaned hnone hctx'
        constructor
        case removals =>
          rw [removals_snoc, removals_of_fresh hr (hfresh _ rfl), hrd]
          rfl
        case releases =>
          rw [releases_snoc_self, hi.others u hnone, hend]
          rfl
    · have hk : (c.task u).ctx? = some ctx := by
        rw [← server_step_attr (f := ServerTask.ctx?) (fun _ _ => rfl) h hut, hu]
      have hsub : op.subject? ≠ some ctx.tunnelId := by
        intro hs
        obtain hn | hident := hself.subject
        · rw [hn] at hs
          cases hs
        · exact hut (ident_unique hr hnd (ServerTask.ident_of_ctx hk) (hident ▸ hs))
      have hold := hi.sessions u ctx hk
      constructor
      case removals =>
        rw [removals_snoc, Op.not_removes hsub, hold.removals,
          server_step_attr (f := ServerTask.removed) (fun _ _ => rfl) h hut]
        simp
      case releases =>
        rw [releases_snoc_ne (Ne.symm hut), hold.releases,
          server_step_attr (f := ServerTask.ended) (fun _ _ => rfl) h hut]
  case others =>
    intro u hu
    by_cases hut : u = t
    · subst hut
      have hnone : (c.task u).ctx? = none := by
        cases hk : (c.task u).ctx? with
        | none => rfl
        | some ctx => rw [server_step_keeps_ctx h hk] at hu; cases hu
      rw [releases_snoc_self, hi.others u hnone]
      cases hg : op.gives? with
      | none => rfl
      | some port =>
          obtain ⟨ctx, hctx⟩ := hself.gives hg
          rw [hctx] at hnone
          cases hnone
    · rw [server_step_attr (f := ServerTask.ctx?) (fun _ _ => rfl) h hut] at hu
      rw [releases_snoc_ne (Ne.symm hut), hi.others u hu]

theorem cleanInv (h : (server cfg).Run ls c) (hnd : (uuids ls).Nodup) : CleanInv ls c := by
  refine Conc.Lts.Run.induct (P := fun ls c => (uuids ls).Nodup → CleanInv ls c) ?_ ?_ h hnd
  · intro _
    refine ⟨?_, fun _ _ => rfl⟩
    intro t ctx hk
    cases hk
  · intro ls c a c' hr hi hs hnd
    exact (hi (nodup_of_snoc hnd).1).step hr hnd hs

/-- The entry is gone once the cleanup has taken it out. -/
theorem entry_gone (h : (server cfg).Run ls c) (hnd : (uuids ls).Nodup)
    (hctx : (c.task t).ctx? = some ctx) (hrem : (c.task t).removed = true) :
    c.shared.activeTunnels.lookup ctx.tunnelId = none := by
  have hlife := lifeInv h hnd t ctx.tunnelId (ServerTask.ident_of_ctx hctx)
  have hentry : (c.shared.activeTunnels.lookup ctx.tunnelId).isSome = false := by
    generalize c.task t = k at hrem hlife
    cases k with
    | cli register pc => cases pc <;> first | exact hlife.1 | cases hrem
    | _ => cases hrem
  exact Option.not_isSome_iff_eq_none.mp (by rw [hentry]; exact Bool.false_ne_true)

/-- A tunnel's port is one of the pool's. -/
theorem ctx_inRange (h : (server cfg).Run ls c) (hctx : (c.task t).ctx? = some ctx) :
    c.shared.portMgr.inRange ctx.port = true := by
  refine Conc.Lts.Run.induct (P := fun _ c => ∀ t ctx, (c.task t).ctx? = some ctx →
    c.shared.portMgr.inRange ctx.port = true) ?_ ?_ h t ctx hctx
  · intro t ctx hk
    cases hk
  · rintro ls c ⟨t, op⟩ c' hr hi hs u ctx hu
    have hrange : c'.shared.portMgr.inRange ctx.port = c.shared.portMgr.inRange ctx.port := by
      rw [PortManager.inRange, ServerState.exec_range (server_step_exec hs), PortManager.inRange]
    rw [hrange]
    by_cases hut : u = t
    · subst hut
      obtain he | ⟨_, ctx', _, hctx', hport⟩ := (server_step_self hs).ctx
      · exact hi u ctx (he ▸ hu)
      -- the port of a new tunnel is the one that its session holds
      · rw [hctx'] at hu
        cases hu
        exact (portInv hr).held_inRange u _ hport
    · rw [server_step_attr (f := ServerTask.ctx?) (fun _ _ => rfl) hs hut] at hu
      exact hi u ctx hu

/-- A session holds its port to the end. -/
theorem ServerTask.port_of_ctx {k : ServerTask} (hctx : k.ctx? = some ctx)
    (hend : k.ended = false) : k.port? = some ctx.port := by
  cases k with
  | cli register pc =>
      cases pc with
      | done => cases hend
      | direct | viaNode | remove | endedAt | archive | closed | release | pick =>
          cases hctx
          rfl
      | _ => cases hctx
  | _ => cases hctx

/-- A session that is over has removed its entry and released its port. -/
theorem ServerTask.given_back {k : ServerTask} (h : k.ended = true) :
    k.removed = true ∧ k.port? = none := by
  unfold ServerTask.ended at h
  split at h
  · exact ⟨rfl, rfl⟩
  · cases h

/-- The port of a session that is over is free, or somebody else's. -/
theorem port_freed (h : (server cfg).Run ls c) (hctx : (c.task t).ctx? = some ctx)
    (hend : (c.task t).ended = true) : ctx.port ∈ c.shared.portMgr.available ∨
      ∃ u, u ≠ t ∧ (c.task u).port? = some ctx.port := by
  obtain hfree | ⟨u, hu⟩ := (portInv h).free_or_held ctx.port (ctx_inRange h hctx)
  · exact Or.inl hfree
  · refine Or.inr ⟨u, ?_, hu⟩
    rintro rfl
    rw [(ServerTask.given_back hend).2] at hu
    cases hu

/-- The release puts the port back into the pool. -/
theorem release_frees (h : (server cfg).Run ls c) (hctx : (c.task t).ctx? = some ctx)
    (hs : (server cfg).step c (t, .release ctx.port) = some c') :
    ctx.port ∈ c'.shared.portMgr.available := by
  have hgives := ServerState.exec_gives (server_step_exec hs) rfl (ctx_inRange h hctx)
  rw [hgives]
  exact Finset.mem_insert_self _ _

/-! ## Progress -/

/-- At its `select!` a session whose permit is stored can take the close branch. -/
theorem closes_of_permit (hk : (c.task t).selecting = true) (hp : c.shared.permit t = true) :
    ∃ c', (server cfg).step c (t, .notified) = some c' := by
  have hx : ∃ sh, c.shared.exec t .notified = some sh :=
    ⟨_, if_pos hp⟩
  obtain ⟨sh, hx⟩ := hx
  have hn : ∃ k, ServerTask.next cfg.tokens t (c.task t) .notified = some k := by
    generalize c.task t = k at hk
    unfold ServerTask.selecting at hk
    split at hk
    · exact ⟨_, rfl⟩
    · exact ⟨_, rfl⟩
    · exact ⟨_, rfl⟩
    · cases hk
  obtain ⟨k, hn⟩ := hn
  exact ⟨_, Conc.Tasks.step_of_next hn hx rfl⟩

/-- What a session past its loop does next. -/
def ServerTask.cleanup (sh : ServerState) (t : Tid) : ServerTask → Op
  | .cli _ (.viaNode _ info .lockClose) => .lockWriter info.tx
  | .cli _ (.viaNode ctx info .closeTunnel) =>
      .sendUnlock info.tx (ServeCliViaNode.closeMsg ctx) true
  | .cli _ (.viaNode _ info .decrement) => .decrementTunnels info.nodeId
  | .cli _ (.viaNode _ _ .unlockFallback) => .unlockWriter t
  | .cli _ (.remove ctx) => .removeTunnel ctx.tunnelId (sh.activeTunnels.lookup ctx.tunnelId)
  | .cli _ (.endedAt _ _) => .now 0
  | .cli _ (.archive ctx entry t') => .recordTunnel (HandleCli.history ctx entry t')
  | .cli _ (.closed ctx) => .publish (.tunnelClosed ctx.tunnelId)
  | .cli _ (.release ctx) => .release ctx.port
  | _ => .compute

theorem ServerTask.next_cleanup {sh : ServerState} {k : ServerTask} (hk : k.left = true)
    (hend : k.ended = false) : ∃ k', k.next cfg.tokens t (k.cleanup sh t) = some k' := by
  unfold ServerTask.left at hk
  split at hk
  case h_5 ctx =>
      cases hl : sh.activeTunnels.lookup ctx.tunnelId with
      | none => simp [ServerTask.next, ServerTask.cleanup, handleCli, hl]
      | some e => simp [ServerTask.next, ServerTask.cleanup, handleCli, hl]
  case h_10 => cases hend
  case h_11 => cases hk
  all_goals simp [ServerTask.next, ServerTask.cleanup, handleCli, serveCliViaNode]

/-- The session waits for the writer of its node, which another task holds. -/
def Server.Waits (c : Server) (t : Tid) : Prop :=
  ∃ register ctx node u, c.task t = .cli register (.viaNode ctx node .lockClose) ∧
    c.shared.writer node.tx = some u ∧ u ≠ t

theorem exec_cleanup (hw : WriterInv c) (hk : (c.task t).left = true)
    (hend : (c.task t).ended = false) :
    c.Waits t ∨ ∃ sh, c.shared.exec t ((c.task t).cleanup c.shared t) = some sh := by
  unfold ServerTask.left at hk
  split at hk <;> rename_i hpc
  case h_1 =>
      rename_i register ctx node
      rw [hpc]
      cases hl : c.shared.writer node.tx with
      | none => exact Or.inr ⟨_, if_pos hl⟩
      | some u =>
          refine Or.inl ⟨register, ctx, node, u, hpc, hl, ?_⟩
          rintro rfl
          have hholds := (hw node.tx u).mp hl
          rw [hpc] at hholds
          cases hholds
  case h_2 =>
      rename_i register ctx node
      have hl : c.shared.writer node.tx = some t := (hw node.tx t).mpr (by rw [hpc]; rfl)
      rw [hpc]
      exact Or.inr ⟨_, if_pos hl⟩
  case h_4 =>
      have hl : c.shared.writer t = some t := (hw t t).mpr (by rw [hpc]; rfl)
      rw [hpc]
      exact Or.inr ⟨_, if_pos hl⟩
  case h_5 =>
      rw [hpc]
      exact Or.inr ⟨_, if_pos rfl⟩
  case h_10 => rw [hpc] at hend; cases hend
  case h_11 => cases hk
  all_goals
    rw [hpc]
    exact Or.inr ⟨_, rfl⟩

/-- Past its loop a session can always take its next step, unless it waits for
    the writer of its node. -/
theorem finishes (h : (server cfg).Run ls c) (hk : (c.task t).left = true)
    (hend : (c.task t).ended = false) :
    c.Waits t ∨ ∃ c', (server cfg).step c (t, (c.task t).cleanup c.shared t) = some c' := by
  obtain hwaits | ⟨sh, hx⟩ := exec_cleanup (writerInv h) hk hend
  · exact Or.inl hwaits
  · obtain ⟨k', hn⟩ := ServerTask.next_cleanup hk hend
    have hchild : ((c.task t).cleanup c.shared t).child = none := by
      unfold ServerTask.cleanup
      split <;> rfl
    exact Or.inr ⟨_, Conc.Tasks.step_of_next hn hx hchild⟩

/-! ## The theorem -/

/-- A session past its loop takes its entry out of the table and gives its port
    back exactly once, in boundedly many steps of its own.  It holds the port until
    then, and afterwards the port is in the pool, or with whoever has got it from
    there. -/
structure CleansUp (cfg : ServerConfig) (ls : List (Tid × Op)) (c : Server) (w : Tid)
    (ctx : TunnelCtx) : Prop where
  sofar : Cleaned ls (c.task w) w ctx
  gone : (c.task w).removed = true → c.shared.activeTunnels.lookup ctx.tunnelId = none
  held : (c.task w).ended = false → (c.task w).port? = some ctx.port
  frees : ∀ c', (server cfg).step c (w, .release ctx.port) = some c' →
    ctx.port ∈ c'.shared.portMgr.available
  freed : (c.task w).ended = true → ctx.port ∈ c.shared.portMgr.available ∨
    ∃ u, u ≠ w ∧ (c.task u).port? = some ctx.port
  decreases : (c.task w).left = true → ∀ op c', (server cfg).step c (w, op) = some c' →
    (c'.task w).left = true ∧ (c'.task w).remaining < (c.task w).remaining
  advances : (c.task w).left = true → (c.task w).ended = false →
    c.Waits w ∨ ∃ op c', (server cfg).step c (w, op) = some c'

theorem cleansUp (h : (server cfg).Run ls c) (hnd : (uuids ls).Nodup)
    (hctx : (c.task w).ctx? = some ctx) : CleansUp cfg ls c w ctx where
  sofar := (cleanInv h hnd).sessions w ctx hctx
  gone := entry_gone h hnd hctx
  held := ServerTask.port_of_ctx hctx
  frees := fun _ hs => release_frees h hctx hs
  freed := port_freed h hctx
  decreases := fun hk _ _ hs => (server_step_self hs).remaining_lt hk
  advances := fun hk hend => (finishes h hk hend).imp_right fun hs => ⟨_, hs⟩

/-- Once DELETE has answered 204, the signal is stored for the session of that
    tunnel for as long as it has not left its loop, so at its `select!` the close
    branch is enabled and leads out of the loop, and the session cleans up. -/
theorem close_kept (h : (server cfg).Run ls c) (hnd : (uuids ls).Nodup)
    (hd : c.task d = .close (.answered id true)) :
    ∃ w ctx, (c.task w).ctx? = some ctx ∧ ctx.tunnelId = id ∧
      ((c.task w).left = false → c.shared.permit w = true) ∧
      ((c.task w).selecting = true → ∃ c', (server cfg).step c (w, .notified) = some c' ∧
        (c'.task w).left = true) ∧
      CleansUp cfg ls c w ctx := by
  obtain ⟨w, ctx, hm, hctx, hid⟩ := (deleteInv h).signalled d id hd
  have hpermit := permitInv h d w hm
  refine ⟨w, ctx, hctx, hid, hpermit, ?_, cleansUp h hnd hctx⟩
  intro hk
  have hnot : (c.task w).left = false := by
    generalize c.task w = k at hk
    unfold ServerTask.selecting at hk
    split at hk <;> first | rfl | cases hk
  obtain ⟨c', hs⟩ := closes_of_permit hk (hpermit hnot)
  exact ⟨c', hs, (server_step_self hs).notified⟩

/-- The dashboard closes tunnel `t` while its session is about to answer its
    CLI, which sends a line before the session is back at its `select!`. -/
def closedEarly : List (Tid × Op) :=
  nodeVisible ++ nodeAnswered ++ cliOrdered ++ cliExposed ++
    [(4, .delete "t"), (4, .getClose "t" (some 1)), (4, .notifyOne 1)] ++ cliAnswered ++
    [(1, .readLine (some none))]

/-- It leaves the loop and cleans up. -/
def closedDown : List (Tid × Op) :=
  closedEarly ++ (1, .notified) :: cliClosed.tail

theorem close_kept_early :
    (∃ c c', (server onePort).Run closedEarly c ∧
      (server onePort).step c (1, .notified) = some c' ∧ (c'.task 1).left = true) ∧
    ∃ c, (server onePort).Run closedDown c ∧ (c.task 1).ended = true ∧
      c.shared.activeTunnels.lookup "t" = none ∧ removals "t" closedDown = 1 ∧
      releases 1 closedDown = [7000] ∧
      (7000 ∈ c.shared.portMgr.available ∨ ∃ u, u ≠ 1 ∧ (c.task u).port? = some 7000) := by
  constructor
  · obtain ⟨c, h, hd, hk, hctx⟩ : ∃ c, (server onePort).Run closedEarly c ∧
        c.task 4 = .close (.answered "t" true) ∧ (c.task 1).selecting = true ∧
        (c.task 1).ctx? = some ⟨"t", 7000⟩ :=
      ⟨_, rfl, rfl, rfl, rfl⟩
    have hnd : (uuids closedEarly).Nodup := by decide
    obtain ⟨w, ctx, hw, hid, _, hclose, _⟩ := close_kept h hnd hd
    obtain rfl := ctx_unique h hnd hctx hw hid.symm
    obtain ⟨c', hs, hleft⟩ := hclose hk
    exact ⟨c, c', h, hs, hleft⟩
  · obtain ⟨c, h, hd, hend, hctx⟩ : ∃ c, (server onePort).Run closedDown c ∧
        c.task 4 = .close (.answered "t" true) ∧ (c.task 1).ended = true ∧
        (c.task 1).ctx? = some ⟨"t", 7000⟩ :=
      ⟨_, rfl, rfl, rfl, rfl⟩
    have hnd : (uuids closedDown).Nodup := by decide
    obtain ⟨w, ctx, hw, hid, _, _, hclean⟩ := close_kept h hnd hd
    obtain rfl := ctx_unique h hnd hctx hw hid.symm
    rw [hctx] at hw
    cases hw
    have hremoved : (c.task 1).removed = true := (ServerTask.given_back hend).1
    refine ⟨c, h, hend, hclean.gone hremoved, ?_, ?_, hclean.freed hend⟩
    · rw [hclean.sofar.removals, hremoved]
      rfl
    · rw [hclean.sofar.releases, hend]
      rfl

end Runs

end Borehole
