/-
  Borehole.Node.Steps

  Inversion of the node's transition functions and operations: one named rule
  per transition, and what each operation does to each part of the shared state.
-/

import Borehole.Node.Control

namespace Borehole.Node

open Conc

/-! ## Transitions -/

section Transitions

variable {ctx : LoopCtx} {aborted : Bool} {op : Op}

/-- The transitions of `run_session`. -/
inductive RunSession.Step : Pc → Op → Pc → Prop where
  | connected {s : Nat} : Step (.connect s) (.connect true) (.register s)
  | unreachable {s : Nat} : Step (.connect s) (.connect false) (.sleep s)
  | sent {s : Nat} : Step (.register s) (.sendRegister true) (.verdict s)
  | sendFailed {s : Nat} : Step (.register s) (.sendRegister false) (.sleep s)
  | registered {s : Nat} {m} :
      Step (.verdict s) (.readVerdict (some (some (.nodeRegistered m)))) (.orders s ∅)
  | rejected {s : Nat} {line} : (∀ m, line ≠ some (some (.nodeRegistered m))) →
      Step (.verdict s) (.readVerdict line) (.sleep s)
  | order {s : Nat} {tunnels line} :
      Step (.orders s tunnels) (.readOrder s line) (serveOrder s tunnels line)
  | bound {s : Nat} {tunnels order} :
      Step (.bind s tunnels order) (.bind order.remotePort true) (.spawn s tunnels order)
  | bindFailed {s : Nat} {tunnels order} :
      Step (.bind s tunnels order) (.bind order.remotePort false) (.orders s tunnels)
  | spawnLoop {s : Nat} {tunnels} {order : OpenTunnel} {l} :
      Step (.spawn s tunnels order) (.spawnLoop l ⟨s, order.tunnelId, order.remotePort⟩)
        (.orders s (tunnels.insert order.tunnelId l))
  | close {s : Nat} {tunnels tunnelId l} :
      Step (.close s tunnels tunnelId l) (.abort tunnelId l) (.orders s tunnels)
  | teardown {s : Nat} {tunnels tunnelId l} : tunnels.lookup tunnelId = some l →
      Step (.teardown s tunnels) (.abort tunnelId l) (.teardown s (tunnels.erase tunnelId))
  | over {s : Nat} : Step (.teardown s ∅) .compute (.sleep s)
  | sleep {s : Nat} : Step (.sleep s) .sleep (.connect (s + 1))

theorem runSession_step {pc pc' : RunSession.Pc} (h : runSession pc op = some pc') :
    RunSession.Step pc op pc' := by
  revert h
  fun_cases runSession pc op
  case case6 hl => intro h; cases h; exact .rejected hl
  all_goals
    intro h
    cases h
    all_goals try casesm* _ ∧ _
    all_goals subst_vars
    all_goals constructor
    all_goals assumption

/-- The transitions of `tunnel_accept_loop`. -/
inductive TunnelAcceptLoop.Step (ctx : LoopCtx) (aborted : Bool) : Pc → Op → Pc → Prop where
  | acceptError : Step ctx aborted .accept (.accept none) .accept
  | accept {v vis} : vis.tunnelId = ctx.tunnelId →
      Step ctx aborted .accept (.accept (some (v, vis))) (.insertPending v vis.connId)
  | cancelAccept : aborted = true →
      Step ctx aborted .accept (.cancelAccept ctx.port) (.cancelled none)
  | insertPending {v connId} :
      Step ctx aborted (.insertPending v connId) (.insertPending connId v) (.encode v connId)
  | encoded {v connId frame} : frame? ctx.tunnelId connId = some frame →
      Step ctx aborted (.encode v connId) .compute (.lockWriter v connId frame)
  | notEncoded {v connId} : frame? ctx.tunnelId connId = none →
      Step ctx aborted (.encode v connId) .compute (.encodeFailed v connId)
  | encodeFailed {v connId got} :
      Step ctx aborted (.encodeFailed v connId) (.removePending connId got) (.drop v)
  | lockWriter {v connId frame} :
      Step ctx aborted (.lockWriter v connId frame) (.lockWriter ctx.session)
        (.write v connId frame)
  | cancelLock {v connId frame} : aborted = true →
      Step ctx aborted (.lockWriter v connId frame) (.cancelLock ctx.port v) (.cancelled none)
  | wrote {v connId bytes} : bytes ≠ [] →
      Step ctx aborted (.write v connId bytes) (.write ctx.session bytes) (.flush v connId)
  | wrotePart {v connId bytes rest} : bytes ≠ [] → rest ≠ [] →
      Step ctx aborted (.write v connId (bytes ++ rest)) (.write ctx.session bytes)
        (.write v connId rest)
  | writeFailed {v connId rest} :
      Step ctx aborted (.write v connId rest) (.writeFailed ctx.session) (.removePending v connId)
  | cancelWrite {v connId rest} : aborted = true →
      Step ctx aborted (.write v connId rest) (.cancelWrite ctx.port ctx.session v)
        (.cancelled (some (connId, rest)))
  | flushed {v connId} :
      Step ctx aborted (.flush v connId) (.flush ctx.session true) (.unlock v)
  | flushFailed {v connId} :
      Step ctx aborted (.flush v connId) (.flush ctx.session false) (.removePending v connId)
  | cancelFlush {v connId} : aborted = true →
      Step ctx aborted (.flush v connId) (.cancelWrite ctx.port ctx.session v)
        (.cancelled (some (connId, [])))
  | removePending {v connId got} :
      Step ctx aborted (.removePending v connId) (.removePending connId got) (.unlockFailed v)
  | unlockFailed {v} : Step ctx aborted (.unlockFailed v) (.unlockWriter ctx.session) (.drop v)
  | drop {v} : Step ctx aborted (.drop v) (.dropVisitor v) .accept
  | unlock {v} : Step ctx aborted (.unlock v) (.unlockWriter ctx.session) (.spawn v)
  | spawn {v} : Step ctx aborted (.spawn v) (.spawn v) .accept

theorem tunnelAcceptLoop_step {pc pc' : TunnelAcceptLoop.Pc}
    (h : tunnelAcceptLoop ctx aborted pc op = some pc') :
    TunnelAcceptLoop.Step ctx aborted pc op pc' := by
  revert h
  fun_cases tunnelAcceptLoop ctx aborted pc op
  case case4 ha => intro h; cases h; obtain ⟨ha, rfl⟩ := ha; exact .cancelAccept ha
  case case14 ha => intro h; cases h; obtain ⟨ha, rfl, rfl⟩ := ha; exact .cancelLock ha
  case case16 hw hnil =>
      intro h
      cases h
      obtain ⟨rfl, hne, rest, rfl⟩ := hw
      rw [List.drop_left] at hnil
      rw [hnil, List.append_nil]
      exact .wrote hne
  case case17 hw hrest =>
      intro h
      cases h
      obtain ⟨rfl, hne, rest, rfl⟩ := hw
      rw [List.drop_left] at hrest ⊢
      exact .wrotePart hne hrest
  case case21 ha => intro h; cases h; obtain ⟨ha, rfl, rfl, rfl⟩ := ha; exact .cancelWrite ha
  case case27 ha => intro h; cases h; obtain ⟨ha, rfl, rfl, rfl⟩ := ha; exact .cancelFlush ha
  all_goals
    intro h
    cases h
    all_goals try casesm* _ ∧ _
    all_goals subst_vars
    all_goals constructor
    all_goals assumption

/-- The transitions of the task that `tunnel_accept_loop` spawns for a visitor. -/
inductive VisitorTask.Step (vis : VisitorConn) : Pc → Op → Pc → Prop where
  | received {d} : Step vis .waiting (.received d) (.piping d)
  | elapsed : Step vis .waiting .elapsed .removePending
  | piped {d} : Step vis (.piping d) .piped (.done (some d))
  | removePending {got} : Step vis .removePending (.removePending vis.connId got) (.done none)

theorem visitorTask_step {vis : VisitorConn} {pc pc' : VisitorTask.Pc}
    (h : visitorTask vis pc op = some pc') : VisitorTask.Step vis pc op pc' := by
  revert h
  fun_cases visitorTask vis pc op
  all_goals
    intro h
    cases h
    all_goals constructor

/-- The transitions of `handle_data_conn`. -/
inductive HandleDataConn.Step : Pc → Op → Pc → Prop where
  | announced {connId} :
      Step .readFrame (.readFrame (some (some (.dataConn ⟨connId⟩)))) (.claim connId)
  | unexpected {frame} : (∀ m, frame ≠ some (some (.dataConn m))) →
      Step .readFrame (.readFrame frame) (.done none)
  | claimed {connId v} :
      Step (.claim connId) (.removePending connId (some v)) (.deliver connId v)
  | unknown {connId} : Step (.claim connId) (.removePending connId none) (.done (some connId))
  | deliver {connId v ok} : Step (.deliver connId v) (.deliver v ok) (.done (some connId))

theorem handleDataConn_step {pc pc' : HandleDataConn.Pc} (h : handleDataConn pc op = some pc') :
    HandleDataConn.Step pc op pc' := by
  revert h
  fun_cases handleDataConn pc op
  case case2 frame hf => intro h; cases h; exact .unexpected hf
  all_goals
    intro h
    cases h
    all_goals constructor

/-- The transitions of a task. -/
inductive NodeTask.Step : NodeTask → Op → NodeTask → Prop where
  | dataConnect : Step .idle .dataConnect (.dataConn .readFrame)
  | session {pc op pc'} : RunSession.Step pc op pc' → Step (.session pc) op (.session pc')
  | loop {ctx aborted pc op pc'} : TunnelAcceptLoop.Step ctx aborted pc op pc' →
      Step (.loop ctx aborted pc) op (.loop ctx aborted pc')
  | visitor {vis pc op pc'} : VisitorTask.Step vis pc op pc' →
      Step (.visitor vis pc) op (.visitor vis pc')
  | dataConn {pc op pc'} : HandleDataConn.Step pc op pc' → Step (.dataConn pc) op (.dataConn pc')

theorem next_step {k k' : NodeTask} (h : NodeTask.next k op = some k') : NodeTask.Step k op k' := by
  revert h
  fun_cases NodeTask.next k op <;> intro h
  case case2 =>
      obtain ⟨pc', hs, rfl⟩ := Option.map_eq_some_iff.mp h
      exact .session (runSession_step hs)
  case case3 =>
      obtain ⟨pc', hs, rfl⟩ := Option.map_eq_some_iff.mp h
      exact .loop (tunnelAcceptLoop_step hs)
  case case4 =>
      obtain ⟨pc', hs, rfl⟩ := Option.map_eq_some_iff.mp h
      exact .visitor (visitorTask_step hs)
  case case5 =>
      obtain ⟨pc', hs, rfl⟩ := Option.map_eq_some_iff.mp h
      exact .dataConn (handleDataConn_step hs)
  all_goals
    cases h
    all_goals constructor

/-- What an operation does to the other task that it is about. -/
inductive NodeTask.Adopt : Op → NodeTask → NodeTask → Prop where
  | spawnLoop {l ctx} : Adopt (.spawnLoop l ctx) .idle (.loop ctx false .accept)
  | abort {id l ctx aborted pc} :
      Adopt (.abort id l) (.loop ctx aborted pc) (.loop ctx true pc)
  | accept {v vis} : Adopt (.accept (some (v, vis))) .idle (.visitor vis .accepted)
  | insertPending {connId v vis} :
      Adopt (.insertPending connId v) (.visitor vis .accepted) (.visitor vis .reporting)
  | spawn {v vis} : Adopt (.spawn v) (.visitor vis .reporting) (.visitor vis .waiting)
  | drop {v vis} : Adopt (.dropVisitor v) (.visitor vis .reporting) (.visitor vis (.done none))
  | cancelLock {port v vis} :
      Adopt (.cancelLock port v) (.visitor vis .reporting) (.visitor vis (.done none))
  | cancelWrite {port s v vis} :
      Adopt (.cancelWrite port s v) (.visitor vis .reporting) (.visitor vis (.done none))

theorem adopt_step {k k' : NodeTask} (h : NodeTask.adopt op k = some k') :
    NodeTask.Adopt op k k' := by
  revert h
  fun_cases NodeTask.adopt op k
  all_goals
    intro h
    cases h
    all_goals constructor

end Transitions

/-! ## Operations -/

namespace Op

/-- Whether an operation changes `pending`. -/
def onPending : Op → Bool
  | .insertPending _ _ | .removePending _ _ => true
  | _ => false

/-- Whether an operation opens or closes a public listener. -/
def onBound : Op → Bool
  | .bind _ true | .cancelAccept _ | .cancelLock _ _ | .cancelWrite _ _ _ => true
  | _ => false

/-- Whether an operation locks or unlocks a writer. -/
def onWriters : Op → Bool
  | .lockWriter _ | .unlockWriter _ | .cancelWrite _ _ _ => true
  | _ => false

/-- Whether an operation writes to a control stream. -/
def onWire : Op → Bool
  | .write _ _ => true
  | _ => false

/-- Whether an operation changes a oneshot channel. -/
def onOneshots : Op → Bool
  | .accept (some _) | .dropVisitor _ | .cancelLock _ _ | .cancelWrite _ _ _ | .deliver _ _
  | .received _ | .elapsed => true
  | _ => false

end Op

namespace NodeState

variable {n n' : NodeState} {t : Tid} {op : Op}

/-- Each part of the state is changed by the operations on it and by no other. -/
structure Frame (op : Op) (n n' : NodeState) : Prop where
  pending : op.onPending = false → n'.pending = n.pending
  bound : op.onBound = false → n'.bound = n.bound
  writer : op.onWriters = false → n'.writer = n.writer
  wire : op.onWire = false → n'.wire = n.wire
  oneshot : op.onOneshots = false → n'.oneshot = n.oneshot

theorem exec_frame (h : n.exec t op = some n') : Frame op n n' := by
  revert h
  fun_cases exec n t op
  all_goals
    intro h
    cases h
    all_goals
      constructor
      all_goals
        intro hop
        first | rfl | cases hop

/-- A stream that has failed stays failed. -/
theorem exec_failed {s : Nat} (h : n.exec t op = some n') (hs : n'.failed s = false) :
    n.failed s = false := by
  revert h
  fun_cases exec n t op
  all_goals
    intro h
    cases h
    all_goals first | exact hs | skip
  all_goals
    simp only [Function.update_apply] at hs
    split at hs
    · cases hs
    · exact hs

theorem exec_insertPending {connId : String} {v : Tid}
    (h : n.exec t (.insertPending connId v) = some n') (c : String) :
    n'.pending.lookup c = if c = connId then some v else n.pending.lookup c := by
  cases h
  split
  · subst c
    exact Finmap.lookup_insert _
  · exact Finmap.lookup_insert_of_ne _ ‹_›

theorem exec_removePending {connId : String} {got : Option Tid}
    (h : n.exec t (.removePending connId got) = some n') :
    n.pending.lookup connId = got ∧ ∀ c,
      n'.pending.lookup c = if c = connId then none else n.pending.lookup c := by
  obtain ⟨hg, hs⟩ := Option.ite_none_right_eq_some.mp h
  cases hs
  refine ⟨hg, fun c => ?_⟩
  split
  · subst c
    exact Finmap.lookup_erase _ _
  · exact Finmap.lookup_erase_ne ‹_›

/-- An entry of `pending` that was not there before has just been inserted. -/
theorem exec_pendingEntry {k : String} {v : Tid}
    (h : n.exec t op = some n') (hl : n'.pending.lookup k = some v) :
    n.pending.lookup k = some v ∨ op = .insertPending k v := by
  by_cases hop : op.onPending = true
  · cases op with
    | insertPending k' v' =>
        rw [exec_insertPending h] at hl
        split at hl
        · rename_i hk
          cases hl
          rw [hk]
          exact Or.inr rfl
        · exact Or.inl hl
    | removePending k' got =>
        rw [(exec_removePending h).2] at hl
        split at hl
        · cases hl
        · exact Or.inl hl
    | _ => cases hop
  · rw [(exec_frame h).pending (Bool.eq_false_iff.mpr hop)] at hl
    exact Or.inl hl

theorem exec_accept {v : Tid} {vis : VisitorConn}
    (h : n.exec t (.accept (some (v, vis))) = some n') :
    n'.oneshot = Function.update n.oneshot v Oneshot.new := by
  cases h
  rfl

theorem exec_dropVisitor {v : Tid} (h : n.exec t (.dropVisitor v) = some n') :
    n'.oneshot = Function.update n.oneshot v ⟨none, false⟩ := by
  cases h
  rfl

theorem exec_cancelLock {port : UInt16} {v : Tid} (h : n.exec t (.cancelLock port v) = some n') :
    n'.oneshot = Function.update n.oneshot v ⟨none, false⟩ := by
  cases h
  rfl

theorem exec_deliver {v : Tid} {ok : Bool} (h : n.exec t (.deliver v ok) = some n') :
    (n.oneshot v).receiver = ok ∧
      n'.oneshot = Function.update n.oneshot v (if ok then ⟨some t, true⟩ else n.oneshot v) := by
  obtain ⟨hg, hs⟩ := Option.ite_none_right_eq_some.mp h
  cases hs
  exact ⟨hg, rfl⟩

theorem exec_received {d : Tid} (h : n.exec t (.received d) = some n') :
    (n.oneshot t).value = some d ∧ n'.oneshot = Function.update n.oneshot t ⟨none, false⟩ := by
  obtain ⟨hg, hs⟩ := Option.ite_none_right_eq_some.mp h
  cases hs
  exact ⟨hg, rfl⟩

theorem exec_elapsed (h : n.exec t .elapsed = some n') :
    n'.oneshot = Function.update n.oneshot t ⟨none, false⟩ := by
  cases h
  rfl

theorem exec_bind {port : UInt16} (h : n.exec t (.bind port true) = some n') :
    n.bound port = false ∧ n'.bound = Function.update n.bound port true := by
  obtain ⟨hg, hs⟩ := Option.ite_none_right_eq_some.mp h
  cases hs
  exact ⟨hg, rfl⟩

theorem exec_lockWriter {s : Nat} (h : n.exec t (.lockWriter s) = some n') :
    n.writer s = none ∧ n'.writer = Function.update n.writer s (some t) := by
  obtain ⟨hg, hs⟩ := Option.ite_none_right_eq_some.mp h
  cases hs
  exact ⟨hg, rfl⟩

theorem exec_unlockWriter {s : Nat} (h : n.exec t (.unlockWriter s) = some n') :
    n.writer s = some t ∧ n'.writer = Function.update n.writer s none := by
  obtain ⟨hg, hs⟩ := Option.ite_none_right_eq_some.mp h
  cases hs
  exact ⟨hg, rfl⟩

theorem exec_write {s : Nat} {bytes : List UInt8} (h : n.exec t (.write s bytes) = some n') :
    n.writer s = some t ∧ n'.wire = Function.update n.wire s (n.wire s ++ bytes) := by
  obtain ⟨hg, hs⟩ := Option.ite_none_right_eq_some.mp h
  cases hs
  exact ⟨hg, rfl⟩

/-- A stream is written to by the writes to it. -/
theorem exec_wire {s : Nat} (h : n.exec t op = some n') (hop : ∀ bytes, op ≠ .write s bytes) :
    n'.wire s = n.wire s := by
  cases op with
  | write s' bytes =>
      rw [(exec_write h).2, Function.update_of_ne]
      rintro rfl
      exact hop bytes rfl
  | _ => rw [(exec_frame h).wire rfl]

theorem exec_writeFailed {s : Nat} (h : n.exec t (.writeFailed s) = some n') :
    n'.failed s = true := by
  obtain ⟨_, hs⟩ := Option.ite_none_right_eq_some.mp h
  cases hs
  exact Function.update_self _ _ _

theorem exec_cancelWrite {port : UInt16} {s : Nat} {v : Tid}
    (h : n.exec t (.cancelWrite port s v) = some n') :
    n.writer s = some t ∧ n'.writer = Function.update n.writer s none ∧
      n'.oneshot = Function.update n.oneshot v ⟨none, false⟩ := by
  obtain ⟨hg, hs⟩ := Option.ite_none_right_eq_some.mp h
  cases hs
  exact ⟨hg, rfl, rfl⟩

/-- A writer is locked and unlocked by the operations on it. -/
theorem exec_writer {s : Nat} (h : n.exec t op = some n')
    (hop : op.onWriters = true → ∃ s' ≠ s, op = .lockWriter s' ∨ op = .unlockWriter s' ∨
      ∃ port v, op = .cancelWrite port s' v) : n'.writer s = n.writer s := by
  by_cases hon : op.onWriters = true
  · obtain ⟨s', hne, rfl | rfl | ⟨_, _, rfl⟩⟩ := hop hon
    · rw [(exec_lockWriter h).2, Function.update_of_ne (Ne.symm hne)]
    · rw [(exec_unlockWriter h).2, Function.update_of_ne (Ne.symm hne)]
    · rw [(exec_cancelWrite h).2.1, Function.update_of_ne (Ne.symm hne)]
  · rw [(exec_frame h).writer (Bool.eq_false_iff.mpr hon)]

end NodeState

/-! ## Steps of the node -/

section Step

variable {c c' : NodeConf} {t u v : Tid} {op : Op}

theorem node_step_self (h : node.step c (t, op) = some c') :
    NodeTask.Step (c.task t) op (c'.task t) :=
  next_step (Tasks.step_next h)

theorem node_step_exec (h : node.step c (t, op) = some c') :
    c.shared.exec t op = some c'.shared :=
  Tasks.step_exec h

/-- Another task stays where it is, unless it is the one the step is about. -/
theorem node_step_other (h : node.step c (t, op) = some c') (hu : u ≠ t) :
    c'.task u = c.task u ∨ op.child = some u ∧ NodeTask.Adopt op (c.task u) (c'.task u) := by
  obtain rfl | ⟨_, hc, ha⟩ | ⟨_, _, he⟩ := Tasks.step_task h u
  · exact absurd rfl hu
  · exact Or.inr ⟨hc, adopt_step ha⟩
  · exact Or.inl he

/-- A task that has started does not go back to where it had not. -/
theorem node_not_idle (h : node.step c (t, op) = some c') (hu : c.task u ≠ .idle) :
    c'.task u ≠ .idle := by
  by_cases hut : u = t
  · subst hut
    have hself := node_step_self h
    generalize c.task u = k at hself
    generalize c'.task u = k' at hself ⊢
    cases hself <;> nofun
  · obtain he | ⟨_, ha⟩ := node_step_other h hut
    · rw [he]
      exact hu
    · generalize c.task u = k at ha
      generalize c'.task u = k' at ha ⊢
      cases ha <;> nofun

theorem node_step_child (h : node.step c (t, op) = some c') (hc : op.child = some v) :
    v ≠ t ∧ NodeTask.Adopt op (c.task v) (c'.task v) := by
  obtain ⟨hne, ha⟩ := Tasks.step_child h hc
  exact ⟨hne, adopt_step ha⟩

end Step

end Borehole.Node
