/-
  Borehole.Server.Exec

  What the operations do to each part of the shared state: for every part, the
  operations that touch it, a frame lemma for all others, and the effect of
  those that do.
-/

import Borehole.Server.State

namespace Borehole

namespace Op

/-- Whether an operation touches the port pool. -/
def onPool : Op → Bool
  | .acquire _ | .acquireSpecific _ _ | .release _ => true
  | _ => false

/-- Whether an operation changes `active_tunnels`. -/
def onTunnels : Op → Bool
  | .insertTunnel _ _ | .removeTunnel _ _ => true
  | _ => false

/-- Whether an operation changes `pending`. -/
def onPending : Op → Bool
  | .insertPending _ _ | .removePending _ _ => true
  | _ => false

/-- Whether an operation changes the node registry. -/
def onRegistry : Op → Bool
  | .registerNode _ | .removeNode _ | .incrementTunnels _ | .decrementTunnels _ => true
  | _ => false

/-- Whether an operation locks or unlocks a writer. -/
def onWriters : Op → Bool
  | .lockWriter _ | .unlockWriter _ | .sendUnlock _ _ _ => true
  | _ => false

/-- Whether an operation changes a oneshot channel. -/
def onOneshots : Op → Bool
  | .accept (some _) | .dropVisitor _ | .deliver _ _ | .received _ | .elapsed => true
  | _ => false

/-- Whether an operation adds to the history. -/
def onHistory : Op → Bool
  | .recordTunnel _ | .recordConnection _ => true
  | _ => false

/-- Whether an operation stores or takes a permit. -/
def onPermits : Op → Bool
  | .notifyOne _ | .notified => true
  | _ => false

/-- The port an operation takes from the pool. -/
def takes? : Op → Option UInt16
  | .acquire got | .acquireSpecific _ got => got
  | _ => none

/-- The port an operation puts back into the pool. -/
def gives? : Op → Option UInt16
  | .release port => some port
  | _ => none

end Op

namespace ServerState

variable {s s' : ServerState} {t : Tid} {op : Op}

/-! ## Frames -/

/-- Each part of the state is changed by the operations on it and by no other. -/
structure Frame (op : Op) (s s' : ServerState) : Prop where
  portMgr : op.onPool = false → s'.portMgr = s.portMgr
  activeTunnels : op.onTunnels = false → s'.activeTunnels = s.activeTunnels
  pending : op.onPending = false → s'.pending = s.pending
  nodeManager : op.onRegistry = false → s'.nodeManager = s.nodeManager
  writer : op.onWriters = false → s'.writer = s.writer
  oneshot : op.onOneshots = false → s'.oneshot = s.oneshot
  history : op.onHistory = false → s'.history = s.history
  permit : op.onPermits = false → s'.permit = s.permit

theorem exec_frame (h : s.exec t op = some s') : Frame op s s' := by
  revert h
  fun_cases exec s t op
  case case2 got =>
      intro h
      obtain ⟨pm, _, rfl⟩ := Option.map_eq_some_iff.mp h
      exact ⟨fun hop => (by cases hop), fun _ => rfl, fun _ => rfl, fun _ => rfl, fun _ => rfl,
        fun _ => rfl, fun _ => rfl, fun _ => rfl⟩
  all_goals
    intro h
    cases h
    all_goals
      constructor
      all_goals
        intro hop
        first | rfl | cases hop

theorem exec_portMgr (h : s.exec t op = some s') (hop : op.onPool = false) :
    s'.portMgr = s.portMgr :=
  (exec_frame h).portMgr hop

theorem exec_activeTunnels (h : s.exec t op = some s') (hop : op.onTunnels = false) :
    s'.activeTunnels = s.activeTunnels :=
  (exec_frame h).activeTunnels hop

theorem exec_pending (h : s.exec t op = some s') (hop : op.onPending = false) :
    s'.pending = s.pending :=
  (exec_frame h).pending hop

theorem exec_nodeManager (h : s.exec t op = some s') (hop : op.onRegistry = false) :
    s'.nodeManager = s.nodeManager :=
  (exec_frame h).nodeManager hop

theorem exec_writer (h : s.exec t op = some s') (hop : op.onWriters = false) :
    s'.writer = s.writer :=
  (exec_frame h).writer hop

theorem exec_oneshot (h : s.exec t op = some s') (hop : op.onOneshots = false) :
    s'.oneshot = s.oneshot :=
  (exec_frame h).oneshot hop

theorem exec_history (h : s.exec t op = some s') (hop : op.onHistory = false) :
    s'.history = s.history :=
  (exec_frame h).history hop

theorem exec_permit (h : s.exec t op = some s') (hop : op.onPermits = false) :
    s'.permit = s.permit :=
  (exec_frame h).permit hop

/-! ## Effects on the port pool -/

@[simp] theorem exec_range (h : s.exec t op = some s') : s'.portMgr.range = s.portMgr.range := by
  cases op with
  | acquire got =>
      obtain ⟨pm, hpm, rfl⟩ := Option.map_eq_some_iff.mp h
      cases got with
      | none => rw [(PortManager.acquire_none hpm).2]
      | some port => rw [(PortManager.acquire_some hpm).2]
  | acquireSpecific port got =>
      obtain ⟨hg, hs⟩ := Option.ite_none_right_eq_some.mp h
      cases hs
      cases got with
      | none => simp [(PortManager.acquireSpecific_none hg).2]
      | some p => simp [(PortManager.acquireSpecific_some hg).2.2]
  | release port => cases h; exact PortManager.release_range _ _
  | _ => rw [exec_portMgr h rfl]

/-- A taken port was free and is no longer. -/
theorem exec_takes {port : UInt16} (h : s.exec t op = some s') (hop : op.takes? = some port) :
    port ∈ s.portMgr.available ∧ s'.portMgr.available = s.portMgr.available.erase port := by
  cases op with
  | acquire got =>
      cases hop
      obtain ⟨pm, hpm, rfl⟩ := Option.map_eq_some_iff.mp h
      obtain ⟨hm, rfl⟩ := PortManager.acquire_some hpm
      exact ⟨hm, rfl⟩
  | acquireSpecific p got =>
      cases hop
      obtain ⟨hg, hs⟩ := Option.ite_none_right_eq_some.mp h
      cases hs
      obtain ⟨rfl, hm, he⟩ := PortManager.acquireSpecific_some hg
      exact ⟨hm, by rw [he]⟩
  | _ => cases hop

/-- A port of the range that is given back is free. -/
theorem exec_gives {port : UInt16} (h : s.exec t op = some s') (hop : op.gives? = some port)
    (hr : s.portMgr.inRange port = true) :
    s'.portMgr.available = insert port s.portMgr.available := by
  cases op with
  | release p =>
      cases hop
      cases h
      exact PortManager.release_available hr
  | _ => cases hop

theorem exec_keeps (h : s.exec t op = some s') (ht : op.takes? = none) (hg : op.gives? = none) :
    s'.portMgr = s.portMgr := by
  cases op with
  | acquire got =>
      cases ht
      obtain ⟨pm, hpm, rfl⟩ := Option.map_eq_some_iff.mp h
      exact (PortManager.acquire_none hpm).2
  | acquireSpecific p got =>
      cases ht
      obtain ⟨hg, hs⟩ := Option.ite_none_right_eq_some.mp h
      cases hs
      exact (PortManager.acquireSpecific_none hg).2
  | release p => cases hg
  | _ => exact exec_portMgr h rfl

/-- A random port is refused only by an empty pool. -/
theorem exec_acquire_none (h : s.exec t (.acquire none) = some s') :
    s.portMgr.available = ∅ := by
  obtain ⟨pm, hpm, _⟩ := Option.map_eq_some_iff.mp h
  exact (PortManager.acquire_none hpm).1

/-- A requested port is refused only if it is out of range or not free. -/
theorem exec_acquireSpecific_none {port : UInt16}
    (h : s.exec t (.acquireSpecific port none) = some s') :
    s.portMgr.inRange port = false ∨ port ∉ s.portMgr.available := by
  obtain ⟨hg, _⟩ := Option.ite_none_right_eq_some.mp h
  exact (PortManager.acquireSpecific_none hg).1

/-! ## Effects on the maps -/

theorem exec_insertTunnel {id : String} {e : TunnelEntry}
    (h : s.exec t (.insertTunnel id e) = some s') (id' : String) :
    s'.activeTunnels.lookup id' = if id' = id then some e else s.activeTunnels.lookup id' := by
  cases h
  split
  · subst id'
    exact Finmap.lookup_insert _
  · exact Finmap.lookup_insert_of_ne _ ‹_›

theorem exec_removeTunnel {id : String} {got : Option TunnelEntry}
    (h : s.exec t (.removeTunnel id got) = some s') :
    s.activeTunnels.lookup id = got ∧ ∀ id',
      s'.activeTunnels.lookup id' = if id' = id then none else s.activeTunnels.lookup id' := by
  obtain ⟨hg, hs⟩ := Option.ite_none_right_eq_some.mp h
  cases hs
  refine ⟨hg, fun id' => ?_⟩
  split
  · subst id'
    exact Finmap.lookup_erase _ _
  · exact Finmap.lookup_erase_ne ‹_›

theorem exec_getRoute {id : String} {got : Option TunnelRoute}
    (h : s.exec t (.getRoute id got) = some s') :
    (s.activeTunnels.lookup id).bind TunnelEntry.route = got ∧ s' = s := by
  obtain ⟨hg, hs⟩ := Option.ite_none_right_eq_some.mp h
  cases hs
  exact ⟨hg, rfl⟩

theorem exec_insertPending {connId : String} {v : Tid}
    (h : s.exec t (.insertPending connId v) = some s') (c : String) :
    s'.pending.lookup c = if c = connId then some v else s.pending.lookup c := by
  cases h
  split
  · subst c
    exact Finmap.lookup_insert _
  · exact Finmap.lookup_insert_of_ne _ ‹_›

theorem exec_removePending {connId : String} {got : Option Tid}
    (h : s.exec t (.removePending connId got) = some s') :
    s.pending.lookup connId = got ∧ ∀ c,
      s'.pending.lookup c = if c = connId then none else s.pending.lookup c := by
  obtain ⟨hg, hs⟩ := Option.ite_none_right_eq_some.mp h
  cases hs
  refine ⟨hg, fun c => ?_⟩
  split
  · subst c
    exact Finmap.lookup_erase _ _
  · exact Finmap.lookup_erase_ne ‹_›

/-- Looking an unknown `conn_id` up changes nothing. -/
theorem exec_removePending_none {connId : String}
    (h : s.exec t (.removePending connId none) = some s') : s'.pending = s.pending := by
  obtain ⟨hn, hl⟩ := exec_removePending h
  refine Finmap.ext_lookup fun c => ?_
  rw [hl]
  split
  · rename_i hc
    rw [hc, hn]
  · rfl

theorem exec_recordTunnel {entry : TunnelHistory} (h : s.exec t (.recordTunnel entry) = some s') :
    s'.history = s.history.recordTunnel entry := by
  rw [← Option.some.inj h]

theorem exec_recordConnection {entry : ConnectionHistory}
    (h : s.exec t (.recordConnection entry) = some s') :
    s'.history = s.history.recordConnection entry := by
  rw [← Option.some.inj h]

/-! ## Effects on the oneshots -/

theorem exec_accept {v : Tid} {vis : Visitor} (h : s.exec t (.accept (some (v, vis))) = some s') :
    s'.oneshot = Function.update s.oneshot v Oneshot.new := by
  cases h
  rfl

theorem exec_dropVisitor {v : Tid} (h : s.exec t (.dropVisitor v) = some s') :
    s'.oneshot = Function.update s.oneshot v ⟨none, false⟩ := by
  cases h
  rfl

theorem exec_deliver {v : Tid} {ok : Bool} (h : s.exec t (.deliver v ok) = some s') :
    (s.oneshot v).receiver = ok ∧
      s'.oneshot = Function.update s.oneshot v (if ok then ⟨some t, true⟩ else s.oneshot v) := by
  obtain ⟨hg, hs⟩ := Option.ite_none_right_eq_some.mp h
  cases hs
  exact ⟨hg, rfl⟩

theorem exec_received {d : Tid} (h : s.exec t (.received d) = some s') :
    (s.oneshot t).value = some d ∧ s'.oneshot = Function.update s.oneshot t ⟨none, false⟩ := by
  obtain ⟨hg, hs⟩ := Option.ite_none_right_eq_some.mp h
  cases hs
  exact ⟨hg, rfl⟩

theorem exec_elapsed (h : s.exec t .elapsed = some s') :
    s'.oneshot = Function.update s.oneshot t ⟨none, false⟩ := by
  cases h
  rfl

/-! ## Where table entries come from -/

/-- What an operation leaves in the registry was there, up to the count, or has
    just been registered. -/
theorem exec_registry {id : String} {info : NodeInfo}
    (h : s.exec t op = some s') (hl : s'.nodeManager.nodes.lookup id = some info) :
    op = .registerNode info ∨
    ∃ n, s.nodeManager.nodes.lookup id = some { info with tunnelCount := n } := by
  by_cases hop : op.onRegistry = true
  · cases op with
    | registerNode i =>
        cases h
        rw [NodeManager.lookup_register] at hl
        split at hl
        · cases hl
          exact Or.inl rfl
        · exact Or.inr ⟨_, hl⟩
    | removeNode i =>
        cases h
        rw [NodeManager.lookup_remove] at hl
        split at hl
        · cases hl
        · exact Or.inr ⟨_, hl⟩
    | incrementTunnels i | decrementTunnels i =>
        cases h
        simp only [NodeManager.incrementTunnels, NodeManager.decrementTunnels,
          NodeManager.lookup_modify] at hl
        split at hl
        · obtain ⟨old, ho, rfl⟩ := Option.map_eq_some_iff.mp hl
          exact Or.inr ⟨old.tunnelCount, ho⟩
        · exact Or.inr ⟨_, hl⟩
    | _ => cases hop
  · rw [exec_nodeManager h (Bool.eq_false_iff.mpr hop)] at hl
    exact Or.inr ⟨_, hl⟩

theorem exec_registerNode {info : NodeInfo} (h : s.exec t (.registerNode info) = some s')
    (id : String) : s'.nodeManager.nodes.lookup id =
      if id = info.nodeId then some info else s.nodeManager.nodes.lookup id := by
  cases h
  exact NodeManager.lookup_register

/-- A node leaves the registry only by being removed. -/
theorem exec_nodeGone {id : String} (h : s.exec t op = some s')
    (hl : (s.nodeManager.nodes.lookup id).isSome = true) :
    (s'.nodeManager.nodes.lookup id).isSome = true ∨ op = .removeNode id := by
  by_cases hop : op.onRegistry = true
  · cases op with
    | registerNode info =>
        rw [exec_registerNode h]
        split
        · exact Or.inl rfl
        · exact Or.inl hl
    | removeNode id' =>
        cases h
        rw [NodeManager.lookup_remove]
        split
        · rename_i hid
          rw [hid]
          exact Or.inr rfl
        · exact Or.inl hl
    | incrementTunnels id' | decrementTunnels id' =>
        cases h
        simp only [NodeManager.incrementTunnels, NodeManager.decrementTunnels,
          NodeManager.lookup_modify]
        split
        · rw [Option.isSome_map]
          exact Or.inl hl
        · exact Or.inl hl
    | _ => cases hop
  · rw [exec_nodeManager h (Bool.eq_false_iff.mpr hop)]
    exact Or.inl hl

theorem exec_pick {name : Option String} {info : NodeInfo}
    (h : s.exec t (.pick name (some info)) = some s') :
    s.nodeManager.nodes.lookup info.nodeId = some info := by
  obtain ⟨hp, _⟩ := Option.ite_none_right_eq_some.mp h
  exact hp.1

/-- An entry that was not there before has just been inserted. -/
theorem exec_entry {id : String} {e : TunnelEntry}
    (h : s.exec t op = some s') (hl : s'.activeTunnels.lookup id = some e) :
    op = .insertTunnel id e ∨ s.activeTunnels.lookup id = some e := by
  by_cases hop : op.onTunnels = true
  · cases op with
    | insertTunnel id' e' =>
        rw [exec_insertTunnel h] at hl
        split at hl
        · rename_i hid
          cases hl
          rw [hid]
          exact Or.inl rfl
        · exact Or.inr hl
    | removeTunnel id' got =>
        rw [(exec_removeTunnel h).2] at hl
        split at hl
        · cases hl
        · exact Or.inr hl
    | _ => cases hop
  · rw [exec_activeTunnels h (Bool.eq_false_iff.mpr hop)] at hl
    exact Or.inr hl

/-- An entry of `pending` that was not there before has just been inserted. -/
theorem exec_pendingEntry {k : String} {v : Tid}
    (h : s.exec t op = some s') (hl : s'.pending.lookup k = some v) :
    s.pending.lookup k = some v ∨ op = .insertPending k v := by
  by_cases hop : op.onPending = true
  · cases op with
    | insertPending k' v' =>
        rw [exec_insertPending h] at hl
        split at hl
        · rename_i hk
          cases hl
          rw [hk]
          exact Or.inr rfl
        · exact Or.inl hl
    | removePending k' got =>
        rw [(exec_removePending h).2] at hl
        split at hl
        · cases hl
        · exact Or.inl hl
    | _ => cases hop
  · rw [exec_pending h (Bool.eq_false_iff.mpr hop)] at hl
    exact Or.inl hl

/-- An entry of `pending` that is no longer there has just been taken out or
    replaced. -/
theorem exec_pendingGone {k : String} {v : Tid} (h : s.exec t op = some s')
    (hl : s.pending.lookup k = some v) :
    s'.pending.lookup k = some v ∨ op = .removePending k (some v) ∨
      ∃ v', op = .insertPending k v' := by
  by_cases hop : op.onPending = true
  · cases op with
    | insertPending k' v' =>
        rw [exec_insertPending h]
        split
        · rename_i hk
          rw [hk]
          exact Or.inr (Or.inr ⟨v', rfl⟩)
        · exact Or.inl hl
    | removePending k' got =>
        obtain ⟨hg, hl'⟩ := exec_removePending h
        rw [hl']
        split
        · rename_i hk
          rw [hk, hg] at hl
          rw [hk, hl]
          exact Or.inr (Or.inl rfl)
        · exact Or.inl hl
    | _ => cases hop
  · rw [exec_pending h (Bool.eq_false_iff.mpr hop)]
    exact Or.inl hl

/-! ## Effects on the permits -/

theorem exec_notifyOne {w : Tid} (h : s.exec t (.notifyOne w) = some s') :
    s'.permit = Function.update s.permit w true := by
  cases h
  rfl

theorem exec_notified (h : s.exec t .notified = some s') :
    s.permit t = true ∧ s'.permit = Function.update s.permit t false := by
  obtain ⟨hp, hs⟩ := Option.ite_none_right_eq_some.mp h
  cases hs
  exact ⟨hp, rfl⟩

/-- A permit stays until its session takes it. -/
theorem exec_keepsPermit {w : Tid} (h : s.exec t op = some s') (hw : s.permit w = true) :
    s'.permit w = true ∨ op = .notified ∧ t = w := by
  by_cases hop : op.onPermits = true
  · cases op with
    | notifyOne w' =>
        rw [exec_notifyOne h, Function.update_apply]
        split
        · exact Or.inl rfl
        · exact Or.inl hw
    | notified =>
        by_cases htw : w = t
        · exact Or.inr ⟨rfl, htw.symm⟩
        · rw [(exec_notified h).2, Function.update_of_ne htw]
          exact Or.inl hw
    | _ => cases hop
  · rw [exec_permit h (Bool.eq_false_iff.mpr hop)]
    exact Or.inl hw

/-! ## Effects on the writers' mutexes -/

theorem exec_lockWriter {w : Tid} (h : s.exec t (.lockWriter w) = some s') :
    s.writer w = none ∧ s'.writer = Function.update s.writer w (some t) := by
  obtain ⟨hg, hs⟩ := Option.ite_none_right_eq_some.mp h
  cases hs
  exact ⟨hg, rfl⟩

theorem exec_unlockWriter {w : Tid} (h : s.exec t (.unlockWriter w) = some s') :
    s.writer w = some t ∧ s'.writer = Function.update s.writer w none := by
  obtain ⟨hg, hs⟩ := Option.ite_none_right_eq_some.mp h
  cases hs
  exact ⟨hg, rfl⟩

theorem exec_sendUnlock {w : Tid} {m : Message} {ok : Bool}
    (h : s.exec t (.sendUnlock w m ok) = some s') :
    s.writer w = some t ∧ s'.writer = Function.update s.writer w none := by
  obtain ⟨hg, hs⟩ := Option.ite_none_right_eq_some.mp h
  cases hs
  exact ⟨hg, rfl⟩

end ServerState
end Borehole
