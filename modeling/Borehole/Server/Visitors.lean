/-
  Borehole.Server.Visitors

  The server's pending map as a rendezvous.

  Visitors are the waiters, data connections the sockets and `conn_id`s the
  keys.  A serving loop acts for the visitor it has just accepted until it
  spawns the visitor's task; a visitor is in the hands of one loop at most.
-/

import Borehole.Conc.Custody
import Borehole.Conc.Rendezvous
import Borehole.Server.Ids

namespace Borehole

open Conc

/-! ## What tasks have to do with visitors -/

/-- A serving loop with a visitor in its hands. -/
inductive Handling where
  | inserting (v : Tid) (vis : Visitor)
  | noticing (v : Tid) (vis : Visitor)
  | noticed (v : Tid)
  | spawning (v : Tid) (connectedAt : DateTime)
  | removing (v : Tid) (vis : Visitor)
  | dropping (v : Tid)

/-- What `serve_tunnel` is doing with a visitor. -/
def ServeTunnel.Pc.handling? : ServeTunnel.Pc → Option Handling
  | .select => none
  | .insertPending v vis => some (.inserting v vis)
  | .notify v vis => some (.noticing v vis)
  | .connectedAt v => some (.noticed v)
  | .spawn v t => some (.spawning v t)
  | .removePending v vis => some (.removing v vis)
  | .drop v => some (.dropping v)

/-- What a session on the direct path is doing with a visitor. -/
def ServeCliDirect.Pc.handling? : ServeCliDirect.Pc → Option Handling
  | .serve pc => pc.handling?
  | _ => none

/-- What a session that has fallen back to the direct path is doing with a visitor. -/
def ServeCliViaNode.Pc.handling? : ServeCliViaNode.Pc → Option Handling
  | .fallback pc => pc.handling?
  | _ => none

/-- What a session is doing with a visitor. -/
def HandleCli.Pc.handling? : HandleCli.Pc → Option Handling
  | .direct _ pc => pc.handling?
  | .viaNode _ _ pc => pc.handling?
  | _ => none

/-- What a task is doing with a visitor. -/
def ServerTask.handling? : ServerTask → Option Handling
  | .cli _ pc => pc.handling?
  | _ => none

/-- Where a visitor is on its way to its data connection. -/
def VisitorTask.Pc.place (connId : String) : VisitorTask.Pc → Waiting String Tid
  | .accepted => .arrived connId
  | .notifying | .waiting _ | .removePending => .offered connId
  | .proxying d _ | .endedAt d _ | .record d _ _ | .done (some d) => .met connId d
  | .done none => .left connId

/-- Where the visitor of a task is. -/
def ServerTask.place : ServerTask → Waiting String Tid
  | .visitor vis pc => pc.place vis.connId
  | _ => .absent

/-- How far a data connection is. -/
def HandleDataConn.Pc.call : HandleDataConn.Pc → Calling String Tid
  | .readFrame => .silent
  | .claim connId => .announced connId
  | .deliver connId v => .holding connId v
  | .done connId => .over connId

/-- How far the data connection of a task is. -/
def ServerTask.call : ServerTask → Calling String Tid
  | .dataConn pc => pc.call
  | _ => .silent

/-- The rendezvous of visitors and data connections. -/
def Server.rendezvous (c : Server) : Rendezvous String Tid Tid where
  table k := c.shared.pending.lookup k
  waiter v := (c.task v).place
  box v := (c.shared.oneshot v).value
  socket d := (c.task d).call

namespace Handling

/-- The visitor. -/
def visitor : Handling → Tid
  | .inserting v _ | .noticing v _ | .noticed v | .spawning v _ | .removing v _ | .dropping v => v

/-- Where the visitor is that a loop has in its hands. -/
inductive Has : Handling → ServerTask → Prop where
  | inserting {v vis} : Has (.inserting v vis) (.visitor vis .accepted)
  | noticing {v vis} : Has (.noticing v vis) (.visitor vis .notifying)
  | noticed {v vis} : Has (.noticed v) (.visitor vis .notifying)
  | spawning {v t vis} : Has (.spawning v t) (.visitor vis .notifying)
  | removing {v vis} : Has (.removing v vis) (.visitor vis .notifying)
  | dropping {v vis} : Has (.dropping v) (.visitor vis .notifying)

end Handling

/-- Visitors are in the custody of serving loops. -/
def serverCustody : Custody Tid ServerTask Handling where
  hand? := ServerTask.handling?
  ward := Handling.visitor
  Has := Handling.Has

/-- Whether an operation is about a visitor or an entry of `pending`. -/
def Op.meets : Op → Bool
  | .accept (some _) | .insertPending _ _ | .removePending _ _ | .spawn _ _ | .dropVisitor _
  | .deliver _ _ | .received _ | .elapsed | .recordConnection _ => true
  | _ => false

theorem Op.not_meets {op : Op} (h : op.meets = false) :
    op.onPending = false ∧ op.onOneshots = false ∧ op.child = none := by
  cases op with
  | accept got =>
      cases got with
      | none => exact ⟨rfl, rfl, rfl⟩
      | some x => cases h
  | _ => first | exact ⟨rfl, rfl, rfl⟩ | cases h

/-- What a serving loop of session `t` does with its visitors. -/
inductive Handling.Step (t : Tid) : Option Handling → Op → Option Handling → Prop where
  | accept {v vis} : Step t none (.accept (some (v, vis))) (some (.inserting v vis))
  | insertPending {v vis} :
      Step t (some (.inserting v vis)) (.insertPending vis.connId v) (some (.noticing v vis))
  | notified {v vis} :
      Step t (some (.noticing v vis)) (.send t (ServeTunnel.notice vis) true) (some (.noticed v))
  | notifyFailed {v vis} :
      Step t (some (.noticing v vis)) (.send t (ServeTunnel.notice vis) false)
        (some (.removing v vis))
  | removePending {v vis got} :
      Step t (some (.removing v vis)) (.removePending vis.connId got) (some (.dropping v))
  | drop {v} : Step t (some (.dropping v)) (.dropVisitor v) none
  | connectedAt {v now} : Step t (some (.noticed v)) (.now now) (some (.spawning v now))
  | spawn {v now} : Step t (some (.spawning v now)) (.spawn v now) none
  | quiet {h op} : op.meets = false → Step t h op h

/-- What a step of a task is for visitors and data connections. -/
inductive ServerTask.Meets (t : Tid) (k : ServerTask) (op : Op) (k' : ServerTask) : Prop where
  | loop : Handling.Step t k.handling? op k'.handling? → k'.place = k.place → k'.call = k.call →
      Meets t k op k'
  | visitor {vis pc pc'} : k = .visitor vis pc → k' = .visitor vis pc' →
      VisitorTask.Step vis pc op pc' → Meets t k op k'
  | dataConn {pc pc'} : k = .dataConn pc → k' = .dataConn pc' → HandleDataConn.Step pc op pc' →
      Meets t k op k'

section Steps

variable {tokens : List String} {s : SessionCtx} {ctx : TunnelCtx} {node : NodeInfo}
  {t : Tid} {op : Op} {k k' : ServerTask}

/-- What a call is doing with a visitor. -/
def Flow.handling? {Pc : Type} (f : Pc → Option Handling) : Flow Pc → Option Handling
  | .at pc => f pc
  | .ret => none

theorem ServeTunnel.Step.handling {pc : Pc} {f : Flow Pc} (h : Step s ctx pc op f) :
    Handling.Step s.task pc.handling? op (f.handling? Pc.handling?) := by
  cases h <;> first | exact .quiet rfl | constructor

theorem ServeCliDirect.Step.handling {pc : Pc} {f : Flow Pc} (h : Step s ctx pc op f) :
    Handling.Step s.task pc.handling? op (f.handling? Pc.handling?) := by
  cases h with
  | serve h | served h => exact h.handling
  | _ => exact .quiet rfl

theorem ServeCliViaNode.Step.handling {pc : Pc} {f : Flow Pc} (h : Step s ctx node pc op f) :
    Handling.Step s.task pc.handling? op (f.handling? Pc.handling?) := by
  cases h with
  | fallback h | fellBack h => exact h.handling
  | _ => exact .quiet rfl

theorem HandleCli.Step.handling {pc pc' : Pc} (h : Step tokens s pc op pc') :
    Handling.Step s.task pc.handling? op pc'.handling? := by
  cases h with
  | direct h | directRet h => exact h.handling
  | viaNode h | viaNodeRet h => exact h.handling
  | _ => exact .quiet rfl

theorem ServerTask.Step.meets (h : Step tokens t k op k') : Meets t k op k' := by
  cases h with
  | @connect peer first =>
      have hd := handleClient_dispatched peer first
      generalize handleClient peer first = k' at hd ⊢
      cases hd <;> exact .loop (.quiet rfl) rfl rfl
  | cli h => exact .loop h.handling rfl rfl
  | visitor h => exact .visitor rfl rfl h
  | dataConn h => exact .dataConn rfl rfl h
  | node h =>
      refine .loop (.quiet ?_) rfl rfl
      cases h with
      | forward h | forwarded h => cases h <;> rfl
      | _ => rfl
  | close h =>
      refine .loop (.quiet ?_) rfl rfl
      cases h <;> rfl
  | _ => exact .loop (.quiet rfl) rfl rfl

/-- An operation on a visitor is done by the loop that has it in its hands, or
    by the one that accepts it. -/
theorem ServerTask.Meets.child {v : Tid} (h : Meets t k op k') (hc : op.child = some v) :
    (∃ vis, op = .accept (some (v, vis))) ∨ ∃ x, k.handling? = some x ∧ x.visitor = v := by
  cases h with
  | loop h _ _ =>
      generalize k.handling? = o at h ⊢
      generalize k'.handling? = o' at h
      cases h with
      | accept => cases hc; exact Or.inl ⟨_, rfl⟩
      | insertPending | drop | spawn => cases hc; exact Or.inr ⟨_, rfl, rfl⟩
      | quiet hop => rw [(Op.not_meets hop).2.2] at hc; cases hc
      | _ => cases hc
  | visitor _ _ h => cases h <;> cases hc
  | dataConn _ _ h => cases h <;> cases hc

/-- A loop keeps its visitor, or has just accepted it. -/
theorem ServerTask.Meets.handling {x : Handling} (h : Meets t k op k')
    (hk : k'.handling? = some x) :
    (∃ vis, op = .accept (some (x.visitor, vis))) ∨
      ∃ y, k.handling? = some y ∧ y.visitor = x.visitor := by
  cases h with
  | loop h _ _ =>
      rw [hk] at h
      generalize k.handling? = o at h ⊢
      cases h with
      | accept => exact Or.inl ⟨_, rfl⟩
      | _ => exact Or.inr ⟨_, rfl, rfl⟩
  | visitor _ hk' _ => rw [hk'] at hk; cases hk
  | dataConn _ hk' _ => rw [hk'] at hk; cases hk

/-- What a loop does on its own keeps its visitor where it has to be. -/
theorem Handling.Step.moves {o : Option Handling} {x : Handling} (h : Handling.Step t o op (some x))
    (hc : op.child = none) :
    ∃ y, o = some y ∧ x.visitor = y.visitor ∧ ∀ k, y.Has k → x.Has k := by
  cases h with
  | notified | notifyFailed | removePending | connectedAt =>
      refine ⟨_, rfl, rfl, fun k hk => ?_⟩
      cases hk
      constructor
  | quiet => exact ⟨x, rfl, rfl, fun k hk => hk⟩
  | _ => cases hc

/-- A visitor in the hands of a loop does nothing itself. -/
theorem Handling.Has.idle {x : Handling} (hx : x.Has k) (h : ServerTask.Step tokens t k op k') :
    False := by
  cases hx <;> cases h with
  | visitor h => cases h

end Steps

section Server

variable {cfg : ServerConfig} {ls : List (Tid × Op)} {c c' : Server} {t u v : Tid} {op : Op}

/-- Visitors in the hands of serving loops. -/
structure LoopInv (c : Server) : Prop where
  has : ∀ t x, (c.task t).handling? = some x → x.Has (c.task x.visitor)
  dropped : ∀ t v, (c.task t).handling? = some (.dropping v) →
    ∀ k, c.shared.pending.lookup k ≠ some v
  unique : ∀ t u x y, (c.task t).handling? = some x → (c.task u).handling? = some y →
    x.visitor = y.visitor → t = u

/-- A visitor that is being accepted is nobody's yet. -/
theorem accepting_free {vis : Visitor}
    (h : (server cfg).step c (t, .accept (some (v, vis))) = some c') (x : Handling) :
    ¬x.Has (c.task v) := by
  intro hx
  obtain ⟨_, ha⟩ := server_step_child h rfl
  generalize c.task v = k at ha hx
  generalize c'.task v = k' at ha
  cases ha
  cases hx

/-- Nobody else acts on a visitor that a loop has in its hands. -/
theorem server_step_allows (h : (server cfg).step c (t, op) = some c') :
    serverCustody.Allows (serverTasks cfg) c t op where
  free := fun x hx => hx.idle (server_step_self h)
  child := by
    intro v hc
    obtain ⟨vis, rfl⟩ | hkeeper := (server_step_self h).meets.child hc
    · exact Or.inr (accepting_free h)
    · exact Or.inl hkeeper

theorem LoopInv.custody (hi : LoopInv c) : serverCustody.Inv c :=
  ⟨hi.has, hi.unique⟩

/-- The visitor in the hands of the loop that steps. -/
theorem LoopInv.has_self {x : Handling} (hi : LoopInv c)
    (h : (server cfg).step c (t, op) = some c') (hk : (c'.task t).handling? = some x) :
    x.Has (c'.task x.visitor) := by
  have hstays : ∀ y : Handling, (c.task t).handling? = some y → op.child = none →
      c'.task y.visitor = c.task y.visitor :=
    fun y hy hc => hi.custody.stays (server_step_allows h) h hy hc
  cases (server_step_self h).meets with
  | loop hs _ _ =>
      have hhas := hi.has t
      generalize (c.task t).handling? = o at hs hhas hstays
      rw [hk] at hs
      by_cases hc : op.child = none
      -- a loop that acts on its own state only leaves its visitor where it is
      · obtain ⟨y, rfl, hv, hmoves⟩ := hs.moves hc
        rw [hv, hstays y rfl hc]
        exact hmoves _ (hhas y rfl)
      · cases hs with
        | @accept v vis =>
            obtain ⟨_, ha⟩ := server_step_child h rfl
            change Handling.Has (.inserting v vis) (c'.task v)
            generalize c.task v = kv at ha
            generalize c'.task v = kv' at ha ⊢
            cases ha
            exact .inserting
        | @insertPending v vis =>
            obtain ⟨_, ha⟩ := server_step_child h rfl
            have hv : Handling.Has (.inserting v vis) (c.task v) := hhas _ rfl
            change Handling.Has (.noticing v vis) (c'.task v)
            generalize c.task v = kv at ha hv
            generalize c'.task v = kv' at ha ⊢
            cases hv
            cases ha
            exact .noticing
        | quiet hop => exact absurd (Op.not_meets hop).2.2 hc
        | _ => exact absurd rfl hc
  | visitor _ hk' _ =>
      rw [hk'] at hk
      cases hk
  | dataConn _ hk' _ =>
      rw [hk'] at hk
      cases hk

theorem LoopInv.dropped_self (hi : LoopInv c) (hex : c.rendezvous.Exclusive)
    (h : (server cfg).step c (t, op) = some c') (hk : (c'.task t).handling? = some (.dropping v))
    (k : String) : c'.shared.pending.lookup k ≠ some v := by
  have hx := server_step_exec h
  cases (server_step_self h).meets with
  | loop hs _ _ =>
      have hhas := hi.has t
      have hdropped := hi.dropped t v
      generalize (c.task t).handling? = o at hs hhas hdropped
      rw [hk] at hs
      cases hs with
      | @removePending v vis =>
          intro hl
          rw [(ServerState.exec_removePending hx).2] at hl
          split at hl
          · cases hl
          -- an entry of this visitor would be under its own `conn_id`
          · rename_i hne
            have hv : Handling.Has (.removing v vis) (c.task v) := hhas _ rfl
            obtain ⟨hkey, _⟩ := hex.entry k v hl
            change (c.task v).place.offered? = some k at hkey
            generalize c.task v = kv at hv hkey
            cases hv
            exact hne (Option.some.inj hkey).symm
      | quiet hop =>
          rw [ServerState.exec_pending hx (Op.not_meets hop).1]
          exact hdropped rfl k
  | visitor _ hk' _ =>
      rw [hk'] at hk
      cases hk
  | dataConn _ hk' _ =>
      rw [hk'] at hk
      cases hk

/-- The loops keep custody of their visitors. -/
theorem LoopInv.custody_step (hi : LoopInv c) (h : (server cfg).step c (t, op) = some c') :
    serverCustody.Inv c' := by
  refine hi.custody.step (server_step_allows h) h (fun u hu => ?_) (fun x hx => hi.has_self h hx) ?_
  · exact server_step_attr (f := ServerTask.handling?) (fun _ _ => rfl) h hu
  · intro x hx
    obtain ⟨vis, rfl⟩ | hold := (server_step_self h).meets.handling hx
    · exact Or.inr (accepting_free h)
    · exact Or.inl hold

theorem loopInv_step (hi : LoopInv c) (hex : c.rendezvous.Exclusive)
    (h : (server cfg).step c (t, op) = some c') : LoopInv c' := by
  have hcustody := hi.custody_step h
  refine ⟨hcustody.has, ?_, hcustody.unique⟩
  intro u v hu k hk
  by_cases hut : u = t
  · subst hut
    exact hi.dropped_self hex h hu k hk
  · rw [server_step_attr (f := ServerTask.handling?) (fun _ _ => rfl) h hut] at hu
    obtain hk | rfl := ServerState.exec_pendingEntry (server_step_exec h) hk
    · exact hi.dropped u v hu k hk
    -- a visitor that is being dropped has had its entry
    · obtain ⟨_, ha⟩ := server_step_child h rfl
      have hhas := hi.has u _ hu
      change Handling.Has (.dropping v) (c.task v) at hhas
      generalize c.task v = k at ha hhas
      generalize c'.task v = k' at ha
      cases hhas
      cases ha

/-! ## Refinement -/

theorem rendezvous_table (h : (server cfg).step c (t, op) = some c') (hop : op.onPending = false) :
    c'.rendezvous.table = c.rendezvous.table := by
  funext k
  exact congrArg (Finmap.lookup k) (ServerState.exec_pending (server_step_exec h) hop)

theorem rendezvous_insertPending {k : String}
    (h : (server cfg).step c (t, .insertPending k v) = some c') :
    c'.rendezvous.table = Function.update c.rendezvous.table k (some v) := by
  funext k'
  rw [Function.update_apply]
  exact ServerState.exec_insertPending (server_step_exec h) k'

theorem rendezvous_removePending {k : String} {got : Option Tid}
    (h : (server cfg).step c (t, .removePending k got) = some c') :
    c'.rendezvous.table = Function.update c.rendezvous.table k none := by
  funext k'
  rw [Function.update_apply]
  exact (ServerState.exec_removePending (server_step_exec h)).2 k'

theorem rendezvous_box (h : (server cfg).step c (t, op) = some c') (hop : op.onOneshots = false) :
    c'.rendezvous.box = c.rendezvous.box := by
  funext u
  exact congrArg (fun f => (f u).value) (ServerState.exec_oneshot (server_step_exec h) hop)

theorem rendezvous_box_update {x : Oneshot}
    (hx : c'.shared.oneshot = Function.update c.shared.oneshot v x) :
    c'.rendezvous.box = Function.update c.rendezvous.box v x.value := by
  have hbox : c'.rendezvous.box = Oneshot.value ∘ c'.shared.oneshot := rfl
  rw [hbox, hx, Function.comp_update]
  rfl

theorem rendezvous_socket (h : (server cfg).step c (t, op) = some c')
    (hk : (c'.task t).call = (c.task t).call) : c'.rendezvous.socket = c.rendezvous.socket := by
  funext u
  by_cases hu : u = t
  · subst hu
    exact hk
  · exact server_step_attr (f := ServerTask.call) (fun _ _ => rfl) h hu

theorem rendezvous_waiter (h : (server cfg).step c (t, op) = some c') (hc : op.child = none)
    (hk : (c'.task t).place = (c.task t).place) : c'.rendezvous.waiter = c.rendezvous.waiter := by
  have hmap := Tasks.step_map ServerTask.place h hc
  rw [hk, Function.update_eq_self] at hmap
  exact hmap

/-- What a step of the server is at the rendezvous: nothing, or a step at which
    no visitor leaves an entry behind. -/
inductive Meeting (r r' : Rendezvous String Tid Tid) : Prop where
  | apart : r' = r → Meeting r r'
  | event {e : Rendezvous.Event String Tid Tid} :
      e.leaving? = none → Rendezvous.Step r e r' → Meeting r r'
  | leave {v : Tid} : (∀ k, r.table k ≠ some v) → Rendezvous.Step r (.leave v) r' → Meeting r r'

theorem visitor_step_meeting {vis : Visitor} {pc pc' : VisitorTask.Pc}
    (h : (server cfg).step c (t, op) = some c') (hk : c.task t = .visitor vis pc)
    (hk' : c'.task t = .visitor vis pc') (hs : VisitorTask.Step vis pc op pc') :
    Meeting c.rendezvous c'.rendezvous := by
  have hx := server_step_exec h
  have hsocket := rendezvous_socket h (by rw [hk, hk']; rfl)
  have hplace : c.rendezvous.waiter t = pc.place vis.connId := congrArg ServerTask.place hk
  have hplace' : (c'.task t).place = pc'.place vis.connId := congrArg ServerTask.place hk'
  have hmap := Tasks.step_map ServerTask.place h
  rw [hplace'] at hmap
  cases hs with
  | received =>
      obtain ⟨hbox, hone⟩ := ServerState.exec_received hx
      exact .event rfl ((Rendezvous.Step.meet hplace hbox).to (rendezvous_table h rfl) (hmap rfl)
        (rendezvous_box_update hone) hsocket)
  | elapsed =>
      have hbox := rendezvous_box_update (ServerState.exec_elapsed hx)
      have hwaiter := rendezvous_waiter h rfl (hplace'.trans hplace.symm)
      exact .event rfl (Rendezvous.Step.discard.to (rendezvous_table h rfl) hwaiter hbox hsocket)
  | removePending =>
      exact .event rfl ((Rendezvous.Step.retire hplace).to (rendezvous_removePending h) (hmap rfl)
        (rendezvous_box h rfl) hsocket)
  | _ =>
      have hwaiter := rendezvous_waiter h rfl (hplace'.trans hplace.symm)
      exact .apart (Rendezvous.ext (rendezvous_table h rfl) hwaiter (rendezvous_box h rfl) hsocket)

theorem dataConn_step_meeting {pc pc' : HandleDataConn.Pc}
    (h : (server cfg).step c (t, op) = some c') (hk : c.task t = .dataConn pc)
    (hk' : c'.task t = .dataConn pc') (hs : HandleDataConn.Step pc op pc') :
    Meeting c.rendezvous c'.rendezvous := by
  have hx := server_step_exec h
  have hcall : c.rendezvous.socket t = pc.call := congrArg ServerTask.call hk
  have hcall' : (c'.task t).call = pc'.call := congrArg ServerTask.call hk'
  have hmap := Tasks.step_map ServerTask.call h
  rw [hcall'] at hmap
  have hwaiter : op.child = none → c'.rendezvous.waiter = c.rendezvous.waiter :=
    fun hc => rendezvous_waiter h hc (by rw [hk, hk']; rfl)
  cases hs with
  | announced =>
      exact .event rfl ((Rendezvous.Step.announce hcall).to (rendezvous_table h rfl) (hwaiter rfl)
        (rendezvous_box h rfl) (hmap rfl))
  | unexpected =>
      exact .event rfl ((Rendezvous.Step.hangUpSilent hcall).to (rendezvous_table h rfl)
        (hwaiter rfl) (rendezvous_box h rfl) (hmap rfl))
  | claimed =>
      obtain ⟨hl, _⟩ := ServerState.exec_removePending hx
      exact .event rfl ((Rendezvous.Step.take hcall hl).to (rendezvous_removePending h)
        (hwaiter rfl) (rendezvous_box h rfl) (hmap rfl))
  | @unknown connId =>
      obtain ⟨hl, _⟩ := ServerState.exec_removePending hx
      have htable : c'.rendezvous.table = c.rendezvous.table := by
        rw [rendezvous_removePending h]
        exact Function.update_eq_self_iff.mpr hl.symm
      -- There was no entry, so that removing it leaves the table as it was.
      exact .event rfl ((Rendezvous.Step.hangUp (Or.inl hcall)).to htable (hwaiter rfl)
        (rendezvous_box h rfl) (hmap rfl))
  | @deliver connId v ok =>
      obtain ⟨hrec, hone⟩ := ServerState.exec_deliver hx
      cases ok with
      | true =>
          exact .event rfl ((Rendezvous.Step.deliver hcall).to (rendezvous_table h rfl)
            (hwaiter rfl) (rendezvous_box_update hone) (hmap rfl))
      | false =>
          -- The waiting task has gone, and the stream is dropped.
          have hbox : c'.rendezvous.box = c.rendezvous.box := by
            rw [rendezvous_box_update hone]
            exact Function.update_eq_self _ _
          exact .event rfl ((Rendezvous.Step.hangUp (Or.inr ⟨v, hcall⟩)).to
            (rendezvous_table h rfl) (hwaiter rfl) hbox (hmap rfl))

theorem loop_step_meeting (hi : LoopInv c) (h : (server cfg).step c (t, op) = some c')
    (hs : Handling.Step t (c.task t).handling? op (c'.task t).handling?)
    (hplace : (c'.task t).place = (c.task t).place) (hcall : (c'.task t).call = (c.task t).call) :
    Meeting c.rendezvous c'.rendezvous := by
  have hx := server_step_exec h
  have hsocket := rendezvous_socket h hcall
  have hchild := fun v (hc : op.child = some v) =>
    Tasks.step_map_child ServerTask.place h hc hplace
  have hhas := hi.has t
  have hdropped := hi.dropped t
  generalize (c.task t).handling? = o at hs hhas hdropped
  generalize (c'.task t).handling? = o' at hs
  cases hs with
  | @accept v vis =>
      obtain ⟨_, ha⟩ := server_step_child h rfl
      -- The visitor's task gets its `conn_id` and its channel.
      have hv : c.rendezvous.waiter v = .absent ∧ (c'.task v).place = .arrived vis.connId := by
        change (c.task v).place = _ ∧ _
        generalize c.task v = kv at ha
        generalize c'.task v = kv' at ha ⊢
        cases ha
        exact ⟨rfl, rfl⟩
      have hwaiter := hchild v rfl
      rw [hv.2] at hwaiter
      exact .event rfl ((Rendezvous.Step.arrive hv.1).to (rendezvous_table h rfl) hwaiter
        (rendezvous_box_update (ServerState.exec_accept hx)) hsocket)
  | @insertPending v vis =>
      obtain ⟨_, ha⟩ := server_step_child h rfl
      have hv : c.rendezvous.waiter v = .arrived vis.connId ∧
          (c'.task v).place = .offered vis.connId := by
        -- The visitor in the handler's hands is the one it has accepted.
        have hvis : Handling.Has (.inserting v vis) (c.task v) := hhas _ rfl
        change (c.task v).place = _ ∧ _
        generalize c.task v = kv at ha hvis
        generalize c'.task v = kv' at ha ⊢
        cases hvis
        cases ha
        exact ⟨rfl, rfl⟩
      have hwaiter := hchild v rfl
      rw [hv.2] at hwaiter
      exact .event rfl ((Rendezvous.Step.offer hv.1).to (rendezvous_insertPending h) hwaiter
        (rendezvous_box h rfl) hsocket)
  | removePending =>
      exact .event rfl (Rendezvous.Step.remove.to (rendezvous_removePending h)
        (rendezvous_waiter h rfl hplace) (rendezvous_box h rfl) hsocket)
  | @drop v =>
      obtain ⟨_, ha⟩ := server_step_child h rfl
      -- It leaves with its receiver, whether or not its entry is still in the table.
      have hv : ∃ connId, c.rendezvous.waiter v = .offered connId ∧
          (c'.task v).place = .left connId := by
        change ∃ connId, (c.task v).place = _ ∧ _
        generalize c.task v = kv at ha
        generalize c'.task v = kv' at ha ⊢
        cases ha
        exact ⟨_, rfl, rfl⟩
      obtain ⟨connId, hoff, hleft⟩ := hv
      have hwaiter := hchild v rfl
      rw [hleft] at hwaiter
      exact .leave (hdropped v rfl) ((Rendezvous.Step.leave hoff).to (rendezvous_table h rfl)
        hwaiter (rendezvous_box_update (ServerState.exec_dropVisitor hx)) hsocket)
  | @spawn v now =>
      obtain ⟨_, ha⟩ := server_step_child h rfl
      -- A waiting visitor stays where it is when its task is started.
      have hv : (c'.task v).place = (c.task v).place := by
        generalize c.task v = kv at ha
        generalize c'.task v = kv' at ha
        cases ha
        rfl
      have hwaiter := hchild v rfl
      rw [hv, Function.update_eq_self] at hwaiter
      exact .apart (Rendezvous.ext (rendezvous_table h rfl) hwaiter (rendezvous_box h rfl) hsocket)
  | quiet hop =>
      obtain ⟨hpending, honeshots, hnone⟩ := Op.not_meets hop
      exact .apart (Rendezvous.ext (rendezvous_table h hpending) (rendezvous_waiter h hnone hplace)
        (rendezvous_box h honeshots) hsocket)
  | _ =>
      exact .apart (Rendezvous.ext (rendezvous_table h rfl) (rendezvous_waiter h rfl hplace)
        (rendezvous_box h rfl) hsocket)

/-- Every step of the server is a step at the rendezvous, or none. -/
theorem server_step_meeting (hi : LoopInv c) (h : (server cfg).step c (t, op) = some c') :
    Meeting c.rendezvous c'.rendezvous := by
  cases (server_step_self h).meets with
  | loop hs hplace hcall => exact loop_step_meeting hi h hs hplace hcall
  | visitor hk hk' hs => exact visitor_step_meeting h hk hk' hs
  | dataConn hk hk' hs => exact dataConn_step_meeting h hk hk' hs

theorem Meeting.exclusive {r r' : Rendezvous String Tid Tid} (h : Meeting r r')
    (hr : r.Exclusive) : r'.Exclusive := by
  cases h with
  | apart he => rwa [he]
  | event _ h => exact hr.step h
  | leave _ h => exact hr.step h

theorem Meeting.tidy {r r' : Rendezvous String Tid Tid} (h : Meeting r r')
    (hr : r.Exclusive) (ht : r.Tidy) : r'.Tidy := by
  cases h with
  | apart he => rwa [he]
  | event he h =>
      refine ht.step hr h fun w hw => ?_
      rw [he] at hw
      cases hw
  | leave hl h =>
      refine ht.step hr h fun w hw => ?_
      rw [← Option.some.inj hw]
      exact hl

/-- The invariants of the server's rendezvous. -/
structure VisitorInv (c : Server) : Prop where
  loop : LoopInv c
  exclusive : c.rendezvous.Exclusive
  tidy : c.rendezvous.Tidy

theorem visitorInv (h : (server cfg).Run ls c) : VisitorInv c := by
  refine Lts.Run.induct (P := fun _ c => VisitorInv c) ?_ ?_ h
  · have hloop : ∀ t x, ((Server.start cfg).task t).handling? ≠ some x := by
      intro t x hx
      cases hx
    refine ⟨⟨?_, ?_, ?_⟩, Rendezvous.Exclusive.of_empty ?_ ?_ ?_ ?_, ?_⟩
    · exact fun t x hx => absurd hx (hloop t x)
    · exact fun t v hx => absurd hx (hloop t _)
    · exact fun t u x y hx => absurd hx (hloop t x)
    · exact fun k => rfl
    · exact fun v => rfl
    · exact fun v => rfl
    · exact fun d => rfl
    · intro k v hk
      cases hk
  · rintro ls c ⟨t, op⟩ c' - hi hs
    have hmeet := server_step_meeting hi.loop hs
    exact ⟨loopInv_step hi.loop hi.exclusive hs, hmeet.exclusive hi.exclusive,
      hmeet.tidy hi.exclusive hi.tidy⟩

end Server

end Borehole
