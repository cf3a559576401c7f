/-
  Borehole.Node.Visitors

  The node's pending map as a rendezvous.

  As on the server, visitors are the waiters and data connections the sockets.
  An accept loop has its latest visitor in custody until it spawns the visitor's
  task, and may be cancelled in between; what it leaves behind then is the
  visitor's entry in `pending`.
-/

import Borehole.Conc.Custody
import Borehole.Conc.Rendezvous
import Borehole.Node.Steps

namespace Borehole.Node

open Conc

/-! ## What tasks have to do with visitors -/

/-- An accept loop with a visitor in its hands. -/
inductive Holding where
  | inserting (v : Tid) (vis : VisitorConn)
  | reporting (v : Tid) (vis : VisitorConn)
  | dropping (v : Tid)
  | spawning (v : Tid)

namespace Holding

/-- The visitor. -/
def visitor : Holding → Tid
  | .inserting v _ | .reporting v _ | .dropping v | .spawning v => v

/-- Where the visitor is that a loop has in its hands. -/
inductive Has : Holding → NodeTask → Prop where
  | inserting {v vis} : Has (.inserting v vis) (.visitor vis .accepted)
  | reporting {v vis} : Has (.reporting v vis) (.visitor vis .reporting)
  | dropping {v vis} : Has (.dropping v) (.visitor vis .reporting)
  | spawning {v vis} : Has (.spawning v) (.visitor vis .reporting)

end Holding

/-- What an accept loop is doing with a visitor. -/
def TunnelAcceptLoop.Pc.holding? (ctx : LoopCtx) : TunnelAcceptLoop.Pc → Option Holding
  | .accept | .cancelled _ => none
  | .insertPending v connId => some (.inserting v ⟨ctx.tunnelId, connId⟩)
  | .encode v connId | .encodeFailed v connId | .lockWriter v connId _ | .write v connId _
  | .flush v connId | .removePending v connId => some (.reporting v ⟨ctx.tunnelId, connId⟩)
  | .unlockFailed v | .drop v => some (.dropping v)
  | .unlock v | .spawn v => some (.spawning v)

/-- What a task is doing with a visitor. -/
def NodeTask.holding? : NodeTask → Option Holding
  | .loop ctx _ pc => pc.holding? ctx
  | _ => none

/-- Visitors are in the custody of accept loops. -/
def custody : Custody Tid NodeTask Holding where
  hand? := NodeTask.holding?
  ward := Holding.visitor
  Has := Holding.Has

/-- Where a visitor is on its way to its data connection. -/
def VisitorTask.Pc.place (connId : String) : VisitorTask.Pc → Waiting String Tid
  | .accepted => .arrived connId
  | .reporting | .waiting | .removePending => .offered connId
  | .piping d | .done (some d) => .met connId d
  | .done none => .left connId

/-- Whether the visitor's own task runs. -/
def VisitorTask.Pc.spawned : VisitorTask.Pc → Bool
  | .accepted | .reporting => false
  | _ => true

/-- Where the visitor of a task is. -/
def NodeTask.place : NodeTask → Waiting String Tid
  | .visitor vis pc => pc.place vis.connId
  | _ => .absent

/-- How far a data connection is. -/
def HandleDataConn.Pc.call : HandleDataConn.Pc → Calling String Tid
  | .readFrame => .silent
  | .claim connId => .announced connId
  | .deliver connId v => .holding connId v
  | .done connId => .over connId

/-- How far the data connection of a task is. -/
def NodeTask.call : NodeTask → Calling String Tid
  | .dataConn pc => pc.call
  | _ => .silent

/-- The rendezvous of visitors and data connections. -/
def rendezvousOf (c : NodeConf) : Rendezvous String Tid Tid where
  table k := c.shared.pending.lookup k
  waiter v := (c.task v).place
  box v := (c.shared.oneshot v).value
  socket d := (c.task d).call

/-- Whether an operation is about a visitor or an entry of `pending`. -/
def Op.meets : Op → Bool
  | .accept (some _) | .insertPending _ _ | .removePending _ _ | .spawn _ | .dropVisitor _
  | .cancelLock _ _ | .cancelWrite _ _ _ | .deliver _ _ | .received _ | .elapsed => true
  | _ => false

theorem Op.not_meets {op : Op} (h : op.meets = false) :
    op.onPending = false ∧ op.onOneshots = false := by
  cases op with
  | accept got =>
      cases got with
      | none => exact ⟨rfl, rfl⟩
      | some x => cases h
  | _ => first | exact ⟨rfl, rfl⟩ | cases h

/-- What an accept loop of tunnel `tunnelId` does with its visitors. -/
inductive Holding.Step (tunnelId : String) : Option Holding → Op → Option Holding → Prop where
  | accept {v vis} : vis.tunnelId = tunnelId →
      Step tunnelId none (.accept (some (v, vis))) (some (.inserting v vis))
  | insertPending {v vis} :
      Step tunnelId (some (.inserting v vis)) (.insertPending vis.connId v)
        (some (.reporting v vis))
  | removePending {v vis got} :
      Step tunnelId (some (.reporting v vis)) (.removePending vis.connId got)
        (some (.dropping v))
  | drop {v} : Step tunnelId (some (.dropping v)) (.dropVisitor v) none
  | flushed {v vis s} :
      Step tunnelId (some (.reporting v vis)) (.flush s true) (some (.spawning v))
  | spawn {v} : Step tunnelId (some (.spawning v)) (.spawn v) none
  | cancelLock {v vis port} :
      Step tunnelId (some (.reporting v vis)) (.cancelLock port v) none
  | cancelWrite {v vis port s} :
      Step tunnelId (some (.reporting v vis)) (.cancelWrite port s v) none
  | quiet {h op} : op.meets = false → Step tunnelId h op h

/-- What a step of a task is for visitors and data connections. -/
inductive NodeTask.Meets (k : NodeTask) (op : Op) (k' : NodeTask) : Prop where
  | loop {ctx aborted pc pc'} : k = .loop ctx aborted pc → k' = .loop ctx aborted pc' →
      Holding.Step ctx.tunnelId k.holding? op k'.holding? → Meets k op k'
  | visitor {vis pc pc'} : k = .visitor vis pc → k' = .visitor vis pc' →
      VisitorTask.Step vis pc op pc' → Meets k op k'
  | dataConn {pc pc'} : k = .dataConn pc → k' = .dataConn pc' → HandleDataConn.Step pc op pc' →
      Meets k op k'
  | apart : k'.holding? = none → k.holding? = none → k'.place = k.place → k'.call = k.call →
      op.meets = false → Meets k op k'

section Steps

variable {op : Op} {k k' : NodeTask}

theorem TunnelAcceptLoop.Step.holding {ctx : LoopCtx} {aborted : Bool} {pc pc' : Pc}
    (h : Step ctx aborted pc op pc') :
    Holding.Step ctx.tunnelId (pc.holding? ctx) op (pc'.holding? ctx) := by
  cases h with
  | @accept v vis hvis =>
      have he : (Pc.insertPending v vis.connId).holding? ctx = some (.inserting v vis) := by
        rw [Pc.holding?, ← hvis]
      rw [he]
      exact .accept hvis
  | flushed => exact .flushed
  | _ => first | exact .quiet rfl | constructor

theorem NodeTask.Step.meets (h : Step k op k') : Meets k op k' := by
  cases h with
  | loop h => exact .loop rfl rfl h.holding
  | visitor h => exact .visitor rfl rfl h
  | dataConn h => exact .dataConn rfl rfl h
  | dataConnect => exact .apart rfl rfl rfl rfl rfl
  | session h =>
      refine .apart rfl rfl rfl rfl ?_
      cases h <;> rfl

/-- A visitor in the hands of a loop does nothing itself. -/
theorem Holding.Has.idle {x : Holding} (hx : x.Has k) (h : NodeTask.Step k op k') : False := by
  cases hx <;> cases h with
  | visitor h => cases h

/-- A loop keeps its visitor, or has just accepted it. -/
theorem NodeTask.Meets.holding {x : Holding} (h : Meets k op k') (hk : k'.holding? = some x) :
    (∃ vis, op = .accept (some (x.visitor, vis))) ∨
      ∃ y, k.holding? = some y ∧ y.visitor = x.visitor := by
  cases h with
  | loop _ _ h =>
      rw [hk] at h
      generalize k.holding? = o at h ⊢
      cases h with
      | accept => exact Or.inl ⟨_, rfl⟩
      | _ => exact Or.inr ⟨_, rfl, rfl⟩
  | visitor _ hk' _ => rw [hk'] at hk; cases hk
  | dataConn _ hk' _ => rw [hk'] at hk; cases hk
  | apart hn _ _ _ _ => rw [hn] at hk; cases hk

/-- An operation on a visitor in custody is done by its keeper. -/
theorem NodeTask.Meets.child {v : Tid} (h : Meets k op k') (hc : op.child = some v) :
    (∃ x, k.holding? = some x ∧ x.visitor = v) ∨
      (∃ vis, op = .accept (some (v, vis))) ∨ op.meets = false := by
  cases h with
  | loop _ _ h =>
      generalize k.holding? = o at h ⊢
      generalize k'.holding? = o' at h
      cases h with
      | accept => cases hc; exact Or.inr (Or.inl ⟨_, rfl⟩)
      | insertPending | drop | spawn | cancelLock | cancelWrite =>
          cases hc
          exact Or.inl ⟨_, rfl, rfl⟩
      | quiet hop => exact Or.inr (Or.inr hop)
      | _ => cases hc
  | visitor _ _ h => cases h <;> cases hc
  | dataConn _ _ h => cases h <;> cases hc
  | apart _ _ _ _ hop => exact Or.inr (Or.inr hop)

end Steps

section Node

variable {c c' : NodeConf} {ls : List (Tid × Op)} {t u v : Tid} {op : Op}

/-- An attribute that visitors do not have and that a loop has whether it is
    aborted or not is changed for nobody but the task that steps. -/
theorem node_step_attr {α : Type} {f : NodeTask → α}
    (hv : ∀ vis pc, f (.visitor vis pc) = f .idle)
    (hl : ∀ ctx aborted pc, f (.loop ctx true pc) = f (.loop ctx aborted pc))
    (hs : ∀ ctx, f (.loop ctx false .accept) = f .idle)
    (h : node.step c (t, op) = some c') (hu : u ≠ t) : f (c'.task u) = f (c.task u) := by
  obtain he | ⟨_, ha⟩ := node_step_other h hu
  · rw [he]
  · generalize c.task u = k at ha
    generalize c'.task u = k' at ha
    cases ha with
    | spawnLoop => exact hs _
    | abort => exact hl _ _ _
    | _ => simp only [hv]

theorem node_step_holding (h : node.step c (t, op) = some c') (hu : u ≠ t) :
    (c'.task u).holding? = (c.task u).holding? :=
  node_step_attr (f := NodeTask.holding?) (fun _ _ => rfl) (fun _ _ _ => rfl) (fun _ => rfl) h hu

theorem node_step_call (h : node.step c (t, op) = some c') (hu : u ≠ t) :
    (c'.task u).call = (c.task u).call :=
  node_step_attr (f := NodeTask.call) (fun _ _ => rfl) (fun _ _ _ => rfl) (fun _ => rfl) h hu

/-- A visitor that is being accepted is nobody's yet. -/
theorem accepting_free {vis : VisitorConn} (h : node.step c (t, .accept (some (v, vis))) = some c')
    (x : Holding) : ¬x.Has (c.task v) := by
  intro hx
  obtain ⟨_, ha⟩ := node_step_child h rfl
  generalize c.task v = k at ha hx
  generalize c'.task v = k' at ha
  cases ha
  cases hx

/-- What a step does to a task that an operation starts, aborts, or moves on is
    done by its keeper or to a task that is nobody's ward. -/
theorem node_step_allows (h : node.step c (t, op) = some c') :
    custody.Allows nodeTasks c t op where
  free := fun x hx => hx.idle (node_step_self h)
  child := by
    intro v hc
    obtain hkeeper | ⟨vis, rfl⟩ | hop := (node_step_self h).meets.child hc
    · exact Or.inl hkeeper
    · cases hc
      exact Or.inr (accepting_free h)
    -- a task that is started or aborted is no visitor
    · refine Or.inr fun x hx => ?_
      obtain ⟨_, ha⟩ := node_step_child h hc
      change Holding.Has x (c.task v) at hx
      generalize c.task v = k at ha hx
      generalize c'.task v = k' at ha
      cases ha with
      | spawnLoop | abort => cases hx
      | _ => cases hop

/-- What a step of a loop leaves in its hands is where it has to be. -/
theorem holding_has (hi : custody.Inv c) (h : node.step c (t, op) = some c') {x : Holding}
    (hk : (c'.task t).holding? = some x) : x.Has (c'.task x.visitor) := by
  have ha := node_step_allows h
  have hold : ∀ y, (c.task t).holding? = some y → y.Has (c.task y.visitor) := hi.has t
  have hstay : ∀ y : Holding, (c.task t).holding? = some y → op.child = none →
      c'.task y.visitor = c.task y.visitor := fun y hy hc => hi.stays ha h hy hc
  cases (node_step_self h).meets with
  | loop _ _ hs =>
      generalize (c.task t).holding? = o at hs hold hstay
      rw [hk] at hs
      cases hs with
      | @accept v vis =>
          obtain ⟨_, hadopt⟩ := node_step_child h rfl
          change Holding.Has (.inserting v vis) (c'.task v)
          generalize c.task v = kv at hadopt
          generalize c'.task v = kv' at hadopt ⊢
          cases hadopt
          exact .inserting
      | @insertPending v vis =>
          obtain ⟨_, hadopt⟩ := node_step_child h rfl
          have hv : Holding.Has (.inserting v vis) (c.task v) := hold _ rfl
          change Holding.Has (.reporting v vis) (c'.task v)
          generalize c.task v = kv at hadopt hv
          generalize c'.task v = kv' at hadopt ⊢
          cases hv
          cases hadopt
          exact .reporting
      | @removePending v vis =>
          have hv : Holding.Has (.reporting v vis) (c.task v) := hold _ rfl
          -- The entry is back in the loop's hands, and the visitor's task is where it was.
          have he : c'.task v = c.task v := hstay _ rfl rfl
          change Holding.Has (.dropping v) (c'.task v)
          rw [he]
          generalize c.task v = kv at hv ⊢
          cases hv
          exact .dropping
      | @flushed v vis s =>
          have hv : Holding.Has (.reporting v vis) (c.task v) := hold _ rfl
          have he : c'.task v = c.task v := hstay _ rfl rfl
          change Holding.Has (.spawning v) (c'.task v)
          rw [he]
          generalize c.task v = kv at hv ⊢
          cases hv
          exact .spawning
      | quiet hop =>
          -- An operation on no visitor leaves the one in hand where it is.
          have hv := hold x rfl
          have hne : op.child ≠ some x.visitor := by
            intro hc
            obtain ⟨_, hadopt⟩ := node_step_child h hc
            generalize c.task x.visitor = kv at hadopt hv
            generalize c'.task x.visitor = kv' at hadopt
            cases hadopt with
            | spawnLoop | abort => cases hv
            | _ => cases hop
          have hvt : x.visitor ≠ t := by
            intro hvt
            rw [hvt] at hv
            exact hv.idle (node_step_self h)
          obtain he | ⟨hc, _⟩ := node_step_other h hvt
          · rwa [he]
          · exact absurd hc hne
  | visitor _ hk' _ =>
      rw [hk'] at hk
      cases hk
  | dataConn _ hk' _ =>
      rw [hk'] at hk
      cases hk
  | apart hn _ _ _ _ =>
      rw [hn] at hk
      cases hk

theorem custody_step (hi : custody.Inv c) (h : node.step c (t, op) = some c') :
    custody.Inv c' := by
  refine hi.step (node_step_allows h) h (fun u hu => node_step_holding h hu)
    (fun x hx => holding_has hi h hx) ?_
  intro x hx
  obtain ⟨vis, rfl⟩ | hold := (node_step_self h).meets.holding hx
  · exact Or.inr (accepting_free h)
  · exact Or.inl hold

/-! ## Refinement -/

theorem rendezvous_table (h : node.step c (t, op) = some c') (hop : op.onPending = false) :
    (rendezvousOf c').table = (rendezvousOf c).table := by
  funext k
  exact congrArg (Finmap.lookup k) ((NodeState.exec_frame (node_step_exec h)).pending hop)

theorem rendezvous_insertPending {k : String} (h : node.step c (t, .insertPending k v) = some c') :
    (rendezvousOf c').table = Function.update (rendezvousOf c).table k (some v) := by
  funext k'
  rw [Function.update_apply]
  exact NodeState.exec_insertPending (node_step_exec h) k'

theorem rendezvous_removePending {k : String} {got : Option Tid}
    (h : node.step c (t, .removePending k got) = some c') :
    (rendezvousOf c').table = Function.update (rendezvousOf c).table k none := by
  funext k'
  rw [Function.update_apply]
  exact (NodeState.exec_removePending (node_step_exec h)).2 k'

theorem rendezvous_box (h : node.step c (t, op) = some c') (hop : op.onOneshots = false) :
    (rendezvousOf c').box = (rendezvousOf c).box := by
  funext u
  exact congrArg (fun f => (f u).value) ((NodeState.exec_frame (node_step_exec h)).oneshot hop)

theorem rendezvous_box_update {x : Oneshot}
    (hx : c'.shared.oneshot = Function.update c.shared.oneshot v x) :
    (rendezvousOf c').box = Function.update (rendezvousOf c).box v x.value := by
  have hbox : (rendezvousOf c').box = Oneshot.value ∘ c'.shared.oneshot := rfl
  rw [hbox, hx, Function.comp_update]
  rfl

theorem rendezvous_socket (h : node.step c (t, op) = some c')
    (hk : (c'.task t).call = (c.task t).call) :
    (rendezvousOf c').socket = (rendezvousOf c).socket := by
  funext u
  by_cases hu : u = t
  · subst hu
    exact hk
  · exact node_step_call h hu

/-- A step that is not about visitors moves none of them. -/
theorem rendezvous_waiter (h : node.step c (t, op) = some c') (hop : op.meets = false)
    (hk : (c'.task t).place = (c.task t).place) :
    (rendezvousOf c').waiter = (rendezvousOf c).waiter := by
  funext u
  by_cases hu : u = t
  · subst hu
    exact hk
  · obtain he | ⟨_, ha⟩ := node_step_other h hu
    · exact congrArg NodeTask.place he
    · change (c'.task u).place = (c.task u).place
      generalize c.task u = k at ha
      generalize c'.task u = k' at ha
      cases ha with
      | spawnLoop | abort => rfl
      | _ => cases hop

/-- The visitor that an operation gives up. -/
def Op.leaves? : Op → Option Tid
  | .dropVisitor v | .cancelLock _ v | .cancelWrite _ _ v => some v
  | _ => none

theorem Op.child_of_leaves (op : Op) (h : op.leaves? = some v) : op.child = some v := by
  cases op <;> cases h <;> rfl

/-- A step on no other task of a task that is no visitor moves no visitor. -/
theorem rendezvous_waiter_own (h : node.step c (t, op) = some c') (hc : op.child = none)
    (hk : (c'.task t).place = (c.task t).place) :
    (rendezvousOf c').waiter = (rendezvousOf c).waiter := by
  have hm := Tasks.step_map NodeTask.place h hc
  rw [hk] at hm
  exact hm.trans (Function.update_eq_self _ _)

section Adopt

variable {k k' : NodeTask} {vis : VisitorConn}

theorem NodeTask.Adopt.place_accept (h : Adopt (.accept (some (v, vis))) k k') :
    k.place = .absent ∧ k'.place = .arrived vis.connId := by
  cases h
  exact ⟨rfl, rfl⟩

theorem NodeTask.Adopt.place_insertPending {connId : String}
    (h : Adopt (.insertPending connId v) k k') (hk : Holding.Has (.inserting v vis) k) :
    k.place = .arrived vis.connId ∧ k'.place = .offered vis.connId := by
  cases hk
  cases h
  exact ⟨rfl, rfl⟩

theorem NodeTask.Adopt.place_spawn (h : Adopt (.spawn v) k k') : k'.place = k.place := by
  cases h
  rfl

theorem NodeTask.Adopt.place_leaves (h : Adopt op k k') (hop : op.leaves? = some v) :
    ∃ connId, k.place = .offered connId ∧ k'.place = .left connId := by
  cases h with
  | drop | cancelLock | cancelWrite => exact ⟨_, rfl, rfl⟩
  | spawnLoop | abort | accept | insertPending | spawn => cases hop

end Adopt

/-- What operation `op` of the node is at the rendezvous. -/
inductive Meeting (op : Op) (r r' : Rendezvous String Tid Tid) : Prop where
  | apart : r' = r → Meeting op r r'
  | event {e : Rendezvous.Event String Tid Tid} : e.leaving? = none → Rendezvous.Step r e r' →
      Meeting op r r'
  | leave {v : Tid} : op.leaves? = some v → Rendezvous.Step r (.leave v) r' → Meeting op r r'

theorem visitor_step_meeting {vis : VisitorConn} {pc pc' : VisitorTask.Pc}
    (h : node.step c (t, op) = some c') (hk : c.task t = .visitor vis pc)
    (hk' : c'.task t = .visitor vis pc') (hs : VisitorTask.Step vis pc op pc') :
    Meeting op (rendezvousOf c) (rendezvousOf c') := by
  have hx := node_step_exec h
  have hsocket := rendezvous_socket h (by rw [hk, hk']; rfl)
  have hplace : (rendezvousOf c).waiter t = pc.place vis.connId := congrArg NodeTask.place hk
  have hplace' : (c'.task t).place = pc'.place vis.connId := congrArg NodeTask.place hk'
  have hmap := Tasks.step_map NodeTask.place h
  rw [hplace'] at hmap
  cases hs with
  | received =>
      obtain ⟨hbox, hone⟩ := NodeState.exec_received hx
      exact .event rfl ((Rendezvous.Step.meet hplace hbox).to (rendezvous_table h rfl) (hmap rfl)
        (rendezvous_box_update hone) hsocket)
  | elapsed =>
      have hwaiter : (rendezvousOf c').waiter = (rendezvousOf c).waiter := by
        have hm := hmap rfl
        rw [show Function.update (fun u => (c.task u).place) t (VisitorTask.Pc.place vis.connId
          .removePending) = fun u => (c.task u).place from
            Function.update_eq_self_iff.mpr hplace.symm] at hm
        exact hm
      exact .event rfl (Rendezvous.Step.discard.to (rendezvous_table h rfl) hwaiter
        (rendezvous_box_update (NodeState.exec_elapsed hx)) hsocket)
  | removePending =>
      exact .event rfl ((Rendezvous.Step.retire hplace).to (rendezvous_removePending h) (hmap rfl)
        (rendezvous_box h rfl) hsocket)
  | piped =>
      exact .apart (Rendezvous.ext (rendezvous_table h rfl)
        (rendezvous_waiter h rfl (hplace'.trans hplace.symm)) (rendezvous_box h rfl) hsocket)

theorem dataConn_step_meeting {pc pc' : HandleDataConn.Pc}
    (h : node.step c (t, op) = some c') (hk : c.task t = .dataConn pc)
    (hk' : c'.task t = .dataConn pc') (hs : HandleDataConn.Step pc op pc') :
    Meeting op (rendezvousOf c) (rendezvousOf c') := by
  have hx := node_step_exec h
  have hcall : (rendezvousOf c).socket t = pc.call := congrArg NodeTask.call hk
  have hcall' : (c'.task t).call = pc'.call := congrArg NodeTask.call hk'
  have hmap := Tasks.step_map NodeTask.call h
  rw [hcall'] at hmap
  have hwaiter : op.child = none → (rendezvousOf c').waiter = (rendezvousOf c).waiter :=
    fun hc => rendezvous_waiter_own h hc (by rw [hk, hk']; rfl)
  cases hs with
  | announced =>
      exact .event rfl ((Rendezvous.Step.announce hcall).to (rendezvous_table h rfl) (hwaiter rfl)
        (rendezvous_box h rfl) (hmap rfl))
  | unexpected =>
      exact .event rfl ((Rendezvous.Step.hangUpSilent hcall).to (rendezvous_table h rfl)
        (hwaiter rfl) (rendezvous_box h rfl) (hmap rfl))
  | claimed =>
      obtain ⟨hl, _⟩ := NodeState.exec_removePending hx
      exact .event rfl ((Rendezvous.Step.take hcall hl).to (rendezvous_removePending h)
        (hwaiter rfl) (rendezvous_box h rfl) (hmap rfl))
  | @unknown connId =>
      obtain ⟨hl, _⟩ := NodeState.exec_removePending hx
      have htable : (rendezvousOf c').table = (rendezvousOf c).table := by
        rw [rendezvous_removePending h]
        exact Function.update_eq_self_iff.mpr hl.symm
      exact .event rfl ((Rendezvous.Step.hangUp (Or.inl hcall)).to htable (hwaiter rfl)
        (rendezvous_box h rfl) (hmap rfl))
  | @deliver connId v ok =>
      obtain ⟨hrec, hone⟩ := NodeState.exec_deliver hx
      cases ok with
      | true =>
          exact .event rfl ((Rendezvous.Step.deliver hcall).to (rendezvous_table h rfl)
            (hwaiter rfl) (rendezvous_box_update hone) (hmap rfl))
      | false =>
          have hbox : (rendezvousOf c').box = (rendezvousOf c).box := by
            rw [rendezvous_box_update hone]
            exact Function.update_eq_self _ _
          exact .event rfl ((Rendezvous.Step.hangUp (Or.inr ⟨v, hcall⟩)).to
            (rendezvous_table h rfl) (hwaiter rfl) hbox (hmap rfl))

theorem loop_step_meeting {ctx : LoopCtx} {aborted : Bool} {pc pc' : TunnelAcceptLoop.Pc}
    (hi : custody.Inv c) (h : node.step c (t, op) = some c') (hk : c.task t = .loop ctx aborted pc)
    (hk' : c'.task t = .loop ctx aborted pc')
    (hs : Holding.Step ctx.tunnelId (c.task t).holding? op (c'.task t).holding?) :
    Meeting op (rendezvousOf c) (rendezvousOf c') := by
  have hx := node_step_exec h
  have hplace : (c'.task t).place = (c.task t).place := by
    rw [hk, hk']
    rfl
  have hsocket := rendezvous_socket h (by rw [hk, hk']; rfl)
  have hold : ∀ y, (c.task t).holding? = some y → y.Has (c.task y.visitor) := hi.has t
  have hmap : ∀ v, op.child = some v → (rendezvousOf c').waiter =
      Function.update (rendezvousOf c).waiter v (c'.task v).place :=
    fun v hc => Tasks.step_map_child NodeTask.place h hc hplace
  -- to give a visitor up is to leave
  have hleave : ∀ v, op.leaves? = some v → op.child = some v → op.onPending = false →
      c'.shared.oneshot = Function.update c.shared.oneshot v ⟨none, false⟩ →
      Meeting op (rendezvousOf c) (rendezvousOf c') := by
    intro v hl hc hp hone
    obtain ⟨connId, hwas, hnow⟩ := (node_step_child h hc).2.place_leaves hl
    have hwaiter := hmap v hc
    rw [hnow] at hwaiter
    have hstep := Rendezvous.Step.leave (r := rendezvousOf c) hwas
    exact .leave hl
      (hstep.to (rendezvous_table h hp) hwaiter (rendezvous_box_update hone) hsocket)
  generalize (c.task t).holding? = o at hs hold
  generalize (c'.task t).holding? = o' at hs
  cases hs with
  | @accept v vis =>
      obtain ⟨hwas, hnow⟩ := (node_step_child h rfl).2.place_accept
      have hwaiter := hmap v rfl
      rw [hnow] at hwaiter
      have hstep := Rendezvous.Step.arrive (r := rendezvousOf c) (k := vis.connId) hwas
      exact .event rfl (hstep.to (rendezvous_table h rfl) hwaiter
        (rendezvous_box_update (NodeState.exec_accept hx)) hsocket)
  | @insertPending v vis =>
      obtain ⟨hwas, hnow⟩ := (node_step_child h rfl).2.place_insertPending (hold _ rfl)
      have hwaiter := hmap v rfl
      rw [hnow] at hwaiter
      have hstep := Rendezvous.Step.offer (r := rendezvousOf c) hwas
      exact .event rfl
        (hstep.to (rendezvous_insertPending h) hwaiter (rendezvous_box h rfl) hsocket)
  | removePending =>
      exact .event rfl (Rendezvous.Step.remove.to (rendezvous_removePending h)
        (rendezvous_waiter_own h rfl hplace) (rendezvous_box h rfl) hsocket)
  | flushed =>
      exact .apart (Rendezvous.ext (rendezvous_table h rfl) (rendezvous_waiter_own h rfl hplace)
        (rendezvous_box h rfl) hsocket)
  | @spawn v =>
      -- the visitor is waiting now, with its sender where it was
      have hwaiter := hmap v rfl
      rw [(node_step_child h rfl).2.place_spawn] at hwaiter
      exact .apart (Rendezvous.ext (rendezvous_table h rfl)
        (hwaiter.trans (Function.update_eq_self _ _)) (rendezvous_box h rfl) hsocket)
  | drop => exact hleave _ rfl rfl rfl (NodeState.exec_dropVisitor hx)
  | cancelLock => exact hleave _ rfl rfl rfl (NodeState.exec_cancelLock hx)
  | cancelWrite => exact hleave _ rfl rfl rfl (NodeState.exec_cancelWrite hx).2.2
  | quiet hop =>
      exact .apart (Rendezvous.ext (rendezvous_table h (Op.not_meets hop).1)
        (rendezvous_waiter h hop hplace) (rendezvous_box h (Op.not_meets hop).2) hsocket)

theorem node_step_meeting (hi : custody.Inv c) (h : node.step c (t, op) = some c') :
    Meeting op (rendezvousOf c) (rendezvousOf c') := by
  cases (node_step_self h).meets with
  | loop hk hk' hs => exact loop_step_meeting hi h hk hk' hs
  | visitor hk hk' hs => exact visitor_step_meeting h hk hk' hs
  | dataConn hk hk' hs => exact dataConn_step_meeting h hk hk' hs
  | apart _ _ hplace hcall hop =>
      exact .apart (Rendezvous.ext (rendezvous_table h (Op.not_meets hop).1)
        (rendezvous_waiter h hop hplace) (rendezvous_box h (Op.not_meets hop).2)
        (rendezvous_socket h hcall))

/-! ## Visitors that are not spawned yet -/

/-- A visitor whose task has not been spawned is in the hands of a loop. -/
def Kept (c : NodeConf) : Prop :=
  ∀ v vis pc, c.task v = .visitor vis pc → pc.spawned = false →
    ∃ l x, (c.task l).holding? = some x ∧ x.visitor = v

/-- The loop that moves a visitor which is not spawned has it in its hands. -/
theorem NodeTask.Meets.keeps {k k' kv : NodeTask} {vis : VisitorConn} {pc : VisitorTask.Pc}
    (h : Meets k op k') (hc : op.child = some v)
    (ha : NodeTask.Adopt op kv (.visitor vis pc)) (hpc : pc.spawned = false) :
    ∃ x, k'.holding? = some x ∧ x.visitor = v := by
  cases h with
  | loop _ _ hs =>
      generalize k.holding? = o at hs
      generalize k'.holding? = o' at hs ⊢
      cases ha with
      | accept =>
          cases hc
          cases hs with
          | accept => exact ⟨_, rfl, rfl⟩
          | quiet hop => cases hop
      | insertPending =>
          cases hc
          cases hs with
          | insertPending => exact ⟨_, rfl, rfl⟩
          | quiet hop => cases hop
      | spawn | drop | cancelLock | cancelWrite => cases hpc
  | visitor _ _ hs => cases hs <;> cases hc
  | dataConn _ _ hs => cases hs <;> cases hc
  | apart _ _ _ _ hop => cases ha <;> cases hop

/-- A loop keeps its visitor until it acts on it. -/
theorem NodeTask.Meets.still {k k' : NodeTask} {x : Holding} (h : Meets k op k')
    (hk : k.holding? = some x) (hl : op.leaves? ≠ some x.visitor) (hs : op ≠ .spawn x.visitor) :
    ∃ y, k'.holding? = some y ∧ y.visitor = x.visitor := by
  cases h with
  | loop _ _ hstep =>
      rw [hk] at hstep
      generalize k'.holding? = o' at hstep ⊢
      cases hstep with
      | insertPending | removePending | flushed | quiet => exact ⟨_, rfl, rfl⟩
      | drop | cancelLock | cancelWrite => exact absurd rfl hl
      | spawn => exact absurd rfl hs
  | visitor hk' _ _ => rw [hk'] at hk; cases hk
  | dataConn hk' _ _ => rw [hk'] at hk; cases hk
  | apart _ hn _ _ _ => rw [hn] at hk; cases hk

theorem Kept.step (hk : Kept c) (h : node.step c (t, op) = some c') : Kept c' := by
  intro v vis pc hv hpc
  have hstep := node_step_self h
  by_cases hvt : v = t
  -- only a spawned visitor takes steps
  · subst hvt
    rw [hv] at hstep
    generalize c.task v = k at hstep
    cases hstep with
    | visitor hs => cases hs <;> cases hpc
  obtain he | ⟨hc, ha⟩ := node_step_other h hvt
  · obtain ⟨l, x, hl, rfl⟩ := hk v vis pc (he.symm.trans hv) hpc
    by_cases hlt : l = t
    · subst hlt
      -- an operation on the visitor would have moved it
      have hchild : op.child ≠ some x.visitor := by
        intro hc
        obtain ⟨_, ha⟩ := node_step_child h hc
        rw [← he, hv] at ha
        cases ha
      have hl' : op.leaves? ≠ some x.visitor := fun hop => hchild (op.child_of_leaves hop)
      have hs' : op ≠ .spawn x.visitor := fun hop => hchild (by rw [hop]; rfl)
      exact ⟨l, hstep.meets.still hl hl' hs'⟩
    · exact ⟨l, x, (node_step_holding h hlt).trans hl, rfl⟩
  · rw [hv] at ha
    exact ⟨t, hstep.meets.keeps hc ha hpc⟩

end Node

end Borehole.Node
