/-
  Borehole.Server.Orders

  The orders written on a node's control stream.

  A session served through a node writes one `OpenTunnel` and, if that
  succeeded, one `CloseTunnel` before its port goes back to the pool.  As long
  as no write on the stream has failed, the tunnels opened there and not closed
  are those of sessions that still hold their ports.
-/

import Borehole.Conc.Lifetimes
import Borehole.Server.Handshake
import Borehole.Server.Ids

namespace Borehole

open Conc Lifetimes

/-! ## The order stream -/

/-- The outcome of an operation's write on stream `w`. -/
def Op.outcomeOn (w : Tid) (op : Op) : Option Bool :=
  op.frame?.bind fun f => if f.1 = w then some f.2.2 else none

/-- The outcomes of the writes of a run on stream `w`, in order. -/
def outcomes (w : Tid) (ls : List (Tid × Op)) : List Bool :=
  ls.filterMap fun a => a.2.outcomeOn w

/-- A stream on which a write failed accepts no later frame. -/
def Sticky (w : Tid) (ls : List (Tid × Op)) : Prop :=
  (outcomes w ls).Pairwise fun ok ok' => ok' = true → ok = true

instance (w : Tid) (ls : List (Tid × Op)) : Decidable (Sticky w ls) := by
  unfold Sticky
  infer_instance

/-- What an order means for the tunnels of a node. -/
def Message.mark? : Message → Option (Mark String UInt16)
  | .openTunnel o => some (.opened o.tunnelId o.remotePort)
  | .closeTunnel o => some (.closed o.tunnelId)
  | _ => none

/-- The orders that were written on stream `w` with success. -/
def orders (w : Tid) (ls : List (Tid × Op)) : List (Mark String UInt16) :=
  (written w ls).filterMap Message.mark?

theorem outcomes_snoc (w : Tid) (ls : List (Tid × Op)) (t : Tid) (op : Op) :
    outcomes w (ls ++ [(t, op)]) = outcomes w ls ++ (op.outcomeOn w).toList := by
  rw [outcomes, List.filterMap_append, outcomes]
  cases h : op.outcomeOn w <;> simp [h]

/-- The order that an operation writes on stream `w` with success. -/
def Op.orderOn (w : Tid) (op : Op) : Option (Mark String UInt16) :=
  (op.writtenOn w).bind Message.mark?

theorem orders_snoc (w : Tid) (ls : List (Tid × Op)) (t : Tid) (op : Op) :
    orders w (ls ++ [(t, op)]) = orders w ls ++ (op.orderOn w).toList := by
  rw [orders, written_snoc, List.filterMap_append, orders, Op.orderOn]
  cases op.writtenOn w with
  | none => rfl
  | some m => cases hm : m.mark? <;> simp [hm]

theorem Sticky.of_snoc {w : Tid} {ls : List (Tid × Op)} {a : Tid × Op} (h : Sticky w (ls ++ [a])) :
    Sticky w ls ∧ (a.2.outcomeOn w = some true → false ∉ outcomes w ls) := by
  obtain ⟨t, op⟩ := a
  rw [Sticky, outcomes_snoc, List.pairwise_append] at h
  refine ⟨h.1, fun hop hf => ?_⟩
  cases h.2.2 false hf true (by rw [hop]; simp) rfl

/-! ## Where a session stands with its orders -/

/-- Whether a session served through a node has written its `OpenTunnel`. -/
def ServeCliViaNode.Pc.ordered : ServeCliViaNode.Pc → Bool
  | .lockNode | .openTunnel => false
  | _ => true

/-- Whether it has an open tunnel at the node. -/
def ServeCliViaNode.Pc.opened : ServeCliViaNode.Pc → Bool
  | .startedAt | .record _ | .increment _ | .publish _ | .lockCli | .registered | .select
  | .lockClose | .closeTunnel => true
  | _ => false

/-- A session that will write no `OpenTunnel` any more. -/
def ServerTask.ordered : ServerTask → Bool
  | .cli _ (.viaNode _ _ pc) => pc.ordered
  | .cli _ (.remove _) | .cli _ (.endedAt _ _) | .cli _ (.archive _ _ _) | .cli _ (.closed _)
  | .cli _ (.release _) | .cli _ (.done _) => true
  | _ => false

/-- The tunnel that a session has open at a node, and the node's stream. -/
def ServerTask.opened? : ServerTask → Option (TunnelCtx × Tid)
  | .cli _ (.viaNode ctx info pc) => if pc.opened then some (ctx, info.tx) else none
  | _ => none

/-- A session that will write no `CloseTunnel` any more. -/
def ServerTask.finished : ServerTask → Bool
  | .cli _ (.viaNode _ _ .decrement) | .cli _ (.remove _) | .cli _ (.endedAt _ _)
  | .cli _ (.archive _ _ _) | .cli _ (.closed _) | .cli _ (.release _) | .cli _ (.done _) => true
  | _ => false

/-- What a step does to a session's orders: it writes its `OpenTunnel`, its
    `CloseTunnel`, or no order. -/
inductive OrderStep (k : ServerTask) (op : Op) (k' : ServerTask) : Prop where
  | opens {ctx w ok} : op.frame? = some (w, .openTunnel ⟨ctx.tunnelId, ctx.port⟩, ok) →
      k.ctx? = some ctx → k.ordered = false → k'.ordered = true →
      k'.opened? = (if ok then some (ctx, w) else none) → OrderStep k op k'
  | closes {ctx w ok} : op.frame? = some (w, .closeTunnel ⟨ctx.tunnelId⟩, ok) →
      k.opened? = some (ctx, w) → k.finished = false → k'.finished = true →
      k'.opened? = none → OrderStep k op k'
  | none : (∀ f, op.frame? = some f → f.2.1.mark? = .none) → k'.opened? = k.opened? →
      OrderStep k op k'

section Steps

variable {tokens : List String} {s : SessionCtx} {ctx : TunnelCtx} {t : Tid} {k k' : ServerTask}
  {op : Op}

theorem ServerTask.ctx_of_opened {w : Tid} (h : k.opened? = some (ctx, w)) :
    k.ctx? = some ctx ∧ k.port? = some ctx.port := by
  cases k with
  | cli register pc =>
      cases pc with
      | viaNode ctx' node pc =>
          simp only [opened?, Option.ite_none_right_eq_some, Option.some.injEq, Prod.mk.injEq] at h
          obtain ⟨_, rfl, _⟩ := h
          exact ⟨rfl, rfl⟩
      | _ => cases h
  | _ => cases h

theorem OrderStep.quiet (hop : op.frame? = .none) (ho : k'.opened? = k.opened?) :
    OrderStep k op k' :=
  .none (fun f hf => by rw [hop] at hf; cases hf) ho

theorem ServeCliDirect.Step.no_order {pc : Pc} {fl : Flow Pc} (h : Step s ctx pc op fl) :
    ∀ f, op.frame? = some f → f.2.1.mark? = none := by
  intro f hf
  cases h with
  | rejected | registered | registerFailed => cases hf; rfl
  | serve h | served h => cases h <;> cases hf <;> rfl
  | _ => cases hf

theorem ServerTask.Step.order (h : Step tokens t k op k') : OrderStep k op k' := by
  cases h with
  | @connect peer first =>
      refine .quiet rfl ?_
      have hd := handleClient_dispatched peer first
      generalize handleClient peer first = k' at hd ⊢
      cases hd <;> rfl
  | refused => exact .none (fun f hf => by cases hf; rfl) rfl
  | cli h =>
      cases h with
      | rejected => exact .none (fun f hf => by cases hf; rfl) rfl
      | direct h | directRet h => exact .none h.no_order rfl
      | viaNode h =>
          cases h with
          | opened | unreachable => exact .opens rfl rfl rfl rfl rfl
          | closeTunnel => exact .closes rfl rfl rfl rfl rfl
          | fallback h | fellBack h => exact .none h.no_order rfl
          | registered => exact .none (fun f hf => by cases hf; rfl) rfl
          | _ => exact .quiet rfl rfl
      | viaNodeRet h => cases h <;> exact .quiet rfl rfl
      | _ => exact .quiet rfl rfl
  | node h =>
      refine .none ?_ rfl
      intro f hf
      cases h with
      | rejected | acked | ackFailed => cases hf; rfl
      | forward h | forwarded h => cases h <;> cases hf <;> rfl
      | _ => cases hf
  | visitor h => exact .quiet (by cases h <;> rfl) rfl
  | dataConn h => exact .quiet (by cases h <;> rfl) rfl
  | close h => exact .quiet (by cases h <;> rfl) rfl
  | _ => exact .quiet rfl rfl

/-- A session never comes back to its orders. -/
theorem ServerTask.Step.ordered (h : Step tokens t k op k') (hk : k.ordered = true) :
    k'.ordered = true := by
  cases h with
  | cli h =>
      cases h with
      | viaNode h =>
          cases h with
          | lockNode => cases hk
          | _ => rfl
      | _ => first | rfl | cases hk
  | _ => cases hk

theorem ServerTask.Step.finished (h : Step tokens t k op k') (hk : k.finished = true) :
    k'.finished = true := by
  cases h with
  | cli h =>
      cases h with
      | viaNode h => cases h <;> cases hk
      | _ => first | rfl | cases hk
  | _ => cases hk

end Steps

/-! ## The invariant -/

/-- The orders of a run on stream `w` against the sessions.  `live` is about a
    stream on which every write has succeeded. -/
structure OrderInv (w : Tid) (ls : List (Tid × Op)) (c : Server) : Prop where
  opened : ∀ t ctx, (c.task t).opened? = some (ctx, w) →
    ctx.tunnelId ∈ (orders w ls).filterMap Mark.openId
  opens : ∀ id ∈ (orders w ls).filterMap Mark.openId,
    ∃ t, (c.task t).ident? = some id ∧ (c.task t).ordered = true
  closes : ∀ id ∈ (orders w ls).filterMap Mark.closeId,
    ∃ t, (c.task t).ident? = some id ∧ (c.task t).finished = true
  live : false ∉ outcomes w ls → ∀ x ∈ Lifetimes.live (orders w ls),
    ∃ t, (c.task t).opened? = some (⟨x.1, x.2⟩, w)
  wellFormed : WellFormed (orders w ls)

section Invariant

variable {cfg : ServerConfig} {ls : List (Tid × Op)} {c c' : Server} {t w : Tid} {op : Op}

theorem Op.orderOn_none (h : ∀ f, op.frame? = some f → f.2.1.mark? = none) :
    op.orderOn w = none := by
  simp only [orderOn, writtenOn]
  cases hf : op.frame? with
  | none => rfl
  | some f =>
      rw [Option.bind_some]
      split
      · exact h f hf
      · rfl

/-- A frame on another stream, or one that failed, is no order on this one. -/
theorem Op.orderOn_frame {w' : Tid} {m : Message} {ok : Bool} (h : op.frame? = some (w', m, ok)) :
    op.orderOn w = if w' = w ∧ ok = true then m.mark? else none := by
  simp only [orderOn, writtenOn, h, Option.bind_some]
  split <;> rfl

theorem Op.outcomeOn_frame {w' : Tid} {m : Message} {ok : Bool} (h : op.frame? = some (w', m, ok)) :
    op.outcomeOn w = if w' = w then some ok else none := by
  simp [outcomeOn, h]

theorem server_step_ordered {u : Tid} (h : (server cfg).step c (t, op) = some c') :
    ((c.task u).ordered = true → (c'.task u).ordered = true) ∧
    ((c.task u).finished = true → (c'.task u).finished = true) := by
  by_cases hu : u = t
  · subst hu
    exact ⟨(server_step_self h).ordered, (server_step_self h).finished⟩
  · rw [server_step_attr (f := ServerTask.ordered) (fun _ _ => rfl) h hu,
      server_step_attr (f := ServerTask.finished) (fun _ _ => rfl) h hu]
    exact ⟨id, id⟩

/-- The sessions behind the orders stay behind them. -/
theorem OrderInv.keeps (hi : OrderInv w ls c) (h : (server cfg).step c (t, op) = some c') :
    (∀ id ∈ (orders w ls).filterMap Mark.openId,
      ∃ u, (c'.task u).ident? = some id ∧ (c'.task u).ordered = true) ∧
    (∀ id ∈ (orders w ls).filterMap Mark.closeId,
      ∃ u, (c'.task u).ident? = some id ∧ (c'.task u).finished = true) := by
  refine ⟨fun id hid => ?_, fun id hid => ?_⟩
  · obtain ⟨u, hu, ho⟩ := hi.opens id hid
    exact ⟨u, server_step_keeps_ident h hu, (server_step_ordered h).1 ho⟩
  · obtain ⟨u, hu, hf⟩ := hi.closes id hid
    exact ⟨u, server_step_keeps_ident h hu, (server_step_ordered h).2 hf⟩

/-- A step that writes no order on the stream keeps the invariant. -/
theorem OrderInv.quiet (hi : OrderInv w ls c) (h : (server cfg).step c (t, op) = some c')
    (horder : op.orderOn w = none)
    (hopened : ∀ ctx, (c'.task t).opened? = some (ctx, w) → (c.task t).opened? = some (ctx, w))
    (hlive : op.outcomeOn w = some false ∨
      ∀ ctx, (c.task t).opened? = some (ctx, w) → (c'.task t).opened? = some (ctx, w)) :
    OrderInv w (ls ++ [(t, op)]) c' := by
  have hls : orders w (ls ++ [(t, op)]) = orders w ls := by
    rw [orders_snoc, horder, Option.toList_none, List.append_nil]
  have hother : ∀ u, u ≠ t → (c'.task u).opened? = (c.task u).opened? := fun u hu =>
    server_step_attr (fun _ _ => rfl) h hu
  obtain ⟨hopens, hcloses⟩ := hi.keeps h
  refine ⟨?_, hls ▸ hopens, hls ▸ hcloses, ?_, hls ▸ hi.wellFormed⟩
  · intro u ctx hu
    rw [hls]
    by_cases hut : u = t
    · subst hut
      exact hi.opened u ctx (hopened ctx hu)
    · exact hi.opened u ctx (hother u hut ▸ hu)
  · intro hok x hx
    rw [outcomes_snoc, List.mem_append, not_or, Option.mem_toList] at hok
    rw [hls] at hx
    obtain ⟨u, hu⟩ := hi.live hok.1 x hx
    refine ⟨u, ?_⟩
    by_cases hut : u = t
    · subst hut
      exact hlive.resolve_left hok.2 _ hu
    · rw [hother u hut, hu]

/-- A session that has yet to write its `OpenTunnel` holds its port, and has no tunnel open. -/
theorem ServerTask.unordered {k : ServerTask} {ctx : TunnelCtx} (hk : k.ctx? = some ctx)
    (hord : k.ordered = false) : k.port? = some ctx.port ∧ k.opened? = none := by
  cases k with
  | cli register pc =>
      cases pc with
      | viaNode ctx node pc =>
          cases hk
          cases pc <;> first | exact ⟨rfl, rfl⟩ | cases hord
      | done => cases hord
      | _ => first | cases hk; exact ⟨rfl, rfl⟩ | cases hk
  | _ => cases hk

/-- A session writes its `OpenTunnel`. -/
theorem OrderInv.opens_step {ctx : TunnelCtx} (hr : (server cfg).Run ls c) (hi : OrderInv w ls c)
    (hnd : (uuids ls).Nodup) (h : (server cfg).step c (t, op) = some c')
    (hok : false ∉ outcomes w ls)
    (hf : op.frame? = some (w, .openTunnel ⟨ctx.tunnelId, ctx.port⟩, true))
    (hk : (c.task t).ctx? = some ctx) (hord : (c.task t).ordered = false)
    (hord' : (c'.task t).ordered = true) (ho : (c'.task t).opened? = some (ctx, w)) :
    OrderInv w (ls ++ [(t, op)]) c' := by
  have hother : ∀ u, u ≠ t → (c'.task u).opened? = (c.task u).opened? := fun u hu =>
    server_step_attr (fun _ _ => rfl) h hu
  obtain ⟨hopens, hcloses⟩ := hi.keeps h
  obtain ⟨hport, hnone⟩ := ServerTask.unordered hk hord
  have hident : (c.task t).ident? = some ctx.tunnelId := ServerTask.ident_of_ctx hk
  have horder : op.orderOn w = some (.opened ctx.tunnelId ctx.port) := by
    rw [Op.orderOn_frame hf, if_pos ⟨rfl, rfl⟩]
    rfl
  have hls : orders w (ls ++ [(t, op)]) = orders w ls ++ [.opened ctx.tunnelId ctx.port] := by
    rw [orders_snoc, horder, Option.toList_some]
  constructor
  case opened =>
    intro u ctx' hu
    rw [hls, List.filterMap_append, List.mem_append]
    by_cases hut : u = t
    · subst hut
      rw [ho] at hu
      cases hu
      exact Or.inr (List.mem_singleton.mpr rfl)
    · exact Or.inl (hi.opened u ctx' (hother u hut ▸ hu))
  case opens =>
    intro id hid
    rw [hls, List.filterMap_append, List.mem_append] at hid
    obtain hid | hid := hid
    · exact hopens id hid
    · obtain rfl := List.mem_singleton.mp hid
      exact ⟨t, server_step_keeps_ident h hident, hord'⟩
  case closes =>
    intro id hid
    rw [hls, List.filterMap_append, List.mem_append] at hid
    exact hcloses id (hid.resolve_right nofun)
  case live =>
    intro _ x hx
    rw [hls, live_opened, List.mem_append] at hx
    obtain hx | hx := hx
    · obtain ⟨u, hu⟩ := hi.live hok x hx
      have hut : u ≠ t := by
        rintro rfl
        rw [hnone] at hu
        cases hu
      exact ⟨u, hother u hut ▸ hu⟩
    · obtain rfl := List.mem_singleton.mp hx
      exact ⟨t, ho⟩
  case wellFormed =>
    rw [hls]
    refine hi.wellFormed.opened ?_ ?_
    -- Whoever opened this id would be this session, which has not yet.
    · intro hid
      obtain ⟨u, hu, hordu⟩ := hi.opens _ hid
      rw [ident_unique hr hnd hu hident, hord] at hordu
      cases hordu
    -- Whoever has this port open still holds it.
    · intro id hid
      obtain ⟨u, hu⟩ := hi.live hok _ hid
      have hportu := (ServerTask.ctx_of_opened hu).2
      rw [(portInv hr).unique u t ctx.port hportu hport, hnone] at hu
      cases hu

/-- A session writes its `CloseTunnel`. -/
theorem OrderInv.closes_step {ctx : TunnelCtx} (hr : (server cfg).Run ls c) (hi : OrderInv w ls c)
    (hnd : (uuids ls).Nodup) (h : (server cfg).step c (t, op) = some c')
    (hok : false ∉ outcomes w ls) (hf : op.frame? = some (w, .closeTunnel ⟨ctx.tunnelId⟩, true))
    (hk : (c.task t).opened? = some (ctx, w)) (hfin : (c.task t).finished = false)
    (hfin' : (c'.task t).finished = true) (ho : (c'.task t).opened? = none) :
    OrderInv w (ls ++ [(t, op)]) c' := by
  have hother : ∀ u, u ≠ t → (c'.task u).opened? = (c.task u).opened? := fun u hu =>
    server_step_attr (fun _ _ => rfl) h hu
  obtain ⟨hopens, hcloses⟩ := hi.keeps h
  have hident : (c.task t).ident? = some ctx.tunnelId :=
    ServerTask.ident_of_ctx (ServerTask.ctx_of_opened hk).1
  have horder : op.orderOn w = some (.closed ctx.tunnelId) := by
    rw [Op.orderOn_frame hf, if_pos ⟨rfl, rfl⟩]
    rfl
  have hls : orders w (ls ++ [(t, op)]) = orders w ls ++ [.closed ctx.tunnelId] := by
    rw [orders_snoc, horder, Option.toList_some]
  constructor
  case opened =>
    intro u ctx' hu
    rw [hls, List.filterMap_append, List.mem_append]
    by_cases hut : u = t
    · subst hut
      rw [ho] at hu
      cases hu
    · exact Or.inl (hi.opened u ctx' (hother u hut ▸ hu))
  case opens =>
    intro id hid
    rw [hls, List.filterMap_append, List.mem_append] at hid
    exact hopens id (hid.resolve_right nofun)
  case closes =>
    intro id hid
    rw [hls, List.filterMap_append, List.mem_append] at hid
    obtain hid | hid := hid
    · exact hcloses id hid
    · obtain rfl := List.mem_singleton.mp hid
      exact ⟨t, server_step_keeps_ident h hident, hfin'⟩
  case live =>
    intro _ x hx
    rw [hls, live_closed, List.mem_filter, decide_eq_true_iff] at hx
    obtain ⟨u, hu⟩ := hi.live hok x hx.1
    have hut : u ≠ t := by
      rintro rfl
      rw [hk] at hu
      cases hu
      exact hx.2 rfl
    exact ⟨u, hother u hut ▸ hu⟩
  case wellFormed =>
    rw [hls]
    refine hi.wellFormed.closed (hi.opened t ctx hk) ?_
    -- Whoever closed this id would be this session, which has not yet.
    intro hid
    obtain ⟨u, hu, hfinu⟩ := hi.closes _ hid
    rw [ident_unique hr hnd hu hident, hfin] at hfinu
    cases hfinu

theorem orderInv_step (hr : (server cfg).Run ls c) (hi : OrderInv w ls c)
    (hnd : (uuids ls).Nodup) (hsticky : Sticky w (ls ++ [(t, op)]))
    (h : (server cfg).step c (t, op) = some c') : OrderInv w (ls ++ [(t, op)]) c' := by
  cases (server_step_self h).order with
  | none hmark ho =>
      exact hi.quiet h (Op.orderOn_none hmark) (fun ctx => by rw [ho]; exact id)
        (Or.inr fun ctx => by rw [ho]; exact id)
  | @opens ctx w' ok hf hk hord hord' ho =>
      by_cases hw : w' = w ∧ ok = true
      · obtain ⟨rfl, rfl⟩ := hw
        -- The stream sticks to a failure, so that a write that succeeds follows none.
        have hok : false ∉ outcomes w' ls :=
          hsticky.of_snoc.2 (by rw [Op.outcomeOn_frame hf, if_pos rfl])
        exact hi.opens_step hr hnd h hok hf hk hord hord' (by rw [ho, if_pos rfl])
      -- On another stream, or with a write that fails, nothing is opened on this one.
      · refine hi.quiet h ?_ ?_ ?_
        · rw [Op.orderOn_frame hf, if_neg hw]
        · intro ctx' hu
          rw [ho] at hu
          split at hu
          · rename_i hok
            cases hu
            exact absurd ⟨rfl, hok⟩ hw
          · cases hu
        · right
          intro ctx' hu
          rw [(ServerTask.unordered hk hord).2] at hu
          cases hu
  | @closes ctx w' ok hf hk hfin hfin' ho =>
      by_cases hw : w' = w
      · subst hw
        cases ok with
        | false =>
            -- The session is done with a tunnel that stays open, and the stream has failed.
            refine hi.quiet h ?_ ?_ (Or.inl ?_)
            · rw [Op.orderOn_frame hf, if_neg (by simp)]
            · intro ctx' hu
              rw [ho] at hu
              cases hu
            · rw [Op.outcomeOn_frame hf, if_pos rfl]
        | true =>
            have hok : false ∉ outcomes w' ls :=
              hsticky.of_snoc.2 (by rw [Op.outcomeOn_frame hf, if_pos rfl])
            exact hi.closes_step hr hnd h hok hf hk hfin hfin' ho
      -- The session is at another stream.
      · refine hi.quiet h ?_ ?_ ?_
        · rw [Op.orderOn_frame hf, if_neg (fun hc => hw hc.1)]
        · intro ctx' hu
          rw [ho] at hu
          cases hu
        · right
          intro ctx' hu
          rw [hk] at hu
          cases hu
          exact absurd rfl hw

/-- The orders written on a stream are well formed: each tunnel id is opened and
    closed at most once, closed only after it was opened, and the tunnels that
    are open at any time have distinct ports, so that a port is opened again
    only after its previous holder was closed. -/
theorem node_orders (h : (server cfg).Run ls c) (hnd : (uuids ls).Nodup) (hsticky : Sticky w ls) :
    WellFormed (orders w ls) ∧
    ∀ pre mid post id id' port,
      orders w ls = pre ++ .opened id port :: (mid ++ .opened id' port :: post) →
      .closed id ∈ mid := by
  have hi : (uuids ls).Nodup → Sticky w ls → OrderInv w ls c := by
    refine Conc.Lts.Run.induct
      (P := fun ls c => (uuids ls).Nodup → Sticky w ls → OrderInv w ls c) ?_ ?_ h
    · intro _ _
      refine ⟨?_, nofun, nofun, ?_, .nil⟩
      · intro t ctx hk
        cases hk
      · intro _ x hx
        cases hx
    · intro ls c a c' hr hi hs hnd hsticky
      have hnd := (nodup_of_snoc hnd).1
      exact orderInv_step hr (hi hnd hsticky.of_snoc.1) hnd hsticky hs
  have hwf := (hi hnd hsticky).wellFormed
  exact ⟨hwf, fun pre mid post id id' port heq => hwf.exclusive.reuse heq⟩

/-- The CLI of tunnel `t` leaves, and its session cleans up. -/
def cliClosed : List (Tid × Op) :=
  [(1, .readLine none), (1, .lockWriter 2), (1, .sendUnlock 2 (.closeTunnel ⟨"t"⟩) true),
   (1, .decrementTunnels "n"),
   (1, .removeTunnel "t" (some (ServeCliViaNode.entry ⟨1, anyPort⟩ ⟨"t", 7000⟩ fra 0))),
   (1, .now 5),
   (1, .recordTunnel (HandleCli.history ⟨"t", 7000⟩
     (ServeCliViaNode.entry ⟨1, anyPort⟩ ⟨"t", 7000⟩ fra 0) 5)),
   (1, .publish (.tunnelClosed "t")), (1, .release 7000)]

/-- Another CLI opens tunnel `u` on the same port of the same node. -/
def cliReused : List (Tid × Op) :=
  [(3, .connect "10.0.0.3" (some (some (.register anyPort)))), (3, .compute),
   (3, .acquire (some 7000)), (3, .uuid "u"), (3, .pick none (some fra)), (3, .lockWriter 2),
   (3, .sendUnlock 2 (.openTunnel ⟨"u", 7000⟩) true), (3, .now 6),
   (3, .insertTunnel "u" (ServeCliViaNode.entry ⟨3, anyPort⟩ ⟨"u", 7000⟩ fra 6)),
   (3, .incrementTunnels "n"),
   (3, .publish (ServeCliViaNode.opened ⟨3, anyPort⟩ ⟨"u", 7000⟩ fra 6))]

/-- Two sessions one after the other on the only port. -/
def portReused : List (Tid × Op) :=
  nodeVisible ++ nodeAnswered ++ cliOrdered ++ cliExposed ++ cliAnswered ++ cliClosed ++ cliReused

theorem node_orders_portReused :
    orders 2 portReused = [.opened "t" 7000, .closed "t", .opened "u" 7000] ∧
      WellFormed (orders 2 portReused) := by
  obtain ⟨c, h, -⟩ : ∃ c, (server onePort).Run portReused c ∧ True :=
    Conc.Lts.exists_run (by decide)
  exact ⟨by decide, (node_orders h (by decide) (by decide)).1⟩

end Invariant

end Borehole
