/-
  Borehole.Node.Pairing

  Which visitors a node reports and which data connections it gives them.
-/

import Borehole.Node.Pending

namespace Borehole.Node

open Conc

/-- The visitor that a task handles. -/
def NodeTask.visitor? : NodeTask → Option VisitorConn
  | .visitor vis _ => some vis
  | _ => none

theorem NodeTask.visits_of_offered {k : NodeTask} {id : String}
    (h : k.place.offered? = some id) : ∃ x, k.visitor? = some x ∧ x.connId = id := by
  cases k with
  | visitor vis pc =>
      refine ⟨vis, rfl, ?_⟩
      rcases pc with _ | _ | _ | _ | _ | (_ | _) <;>
        first | exact Option.some.inj h | cases h
  | _ => cases h

section Steps

variable {k k' : NodeTask} {op : Op} {id : String}

/-- A data connection names a `conn_id` in its first frame. -/
theorem NodeTask.Step.calls (h : Step k op k') (hk : k'.call.named? = some id) :
    k.call.named? = some id ∨ op = .readFrame (some (some (.dataConn ⟨id⟩))) := by
  cases h with
  | dataConn h =>
      cases h with
      | announced =>
          cases hk
          exact Or.inr rfl
      | unexpected => cases hk
      | _ => exact Or.inl hk
  | _ => cases hk

theorem NodeTask.Step.reads_dataConn {line : Option Line} (h : Step k (.readFrame line) k') :
    ∃ pc, k = .dataConn pc := by
  cases h with
  | dataConn => exact ⟨_, rfl⟩
  | session h => cases h
  | loop h => cases h
  | visitor h => cases h

end Steps

section Node

variable {c c' : NodeConf} {ls : List (Tid × Op)} {t v d : Tid} {op : Op} {x : VisitorConn}

theorem node_step_visitor (h : node.step c (t, op) = some c')
    (hv : (c.task v).visitor? = some x) : (c'.task v).visitor? = some x := by
  by_cases hvt : v = t
  · subst hvt
    have hself := node_step_self h
    generalize c.task v = k at hself hv
    generalize c'.task v = k' at hself ⊢
    cases hself with
    | visitor => exact hv
    | _ => cases hv
  · obtain he | ⟨_, ha⟩ := node_step_other h hvt
    · rw [he, hv]
    · generalize c.task v = k at ha hv
      generalize c'.task v = k' at ha ⊢
      cases ha <;> first | exact hv | cases hv

/-- A visitor comes with the operation that accepts it. -/
theorem node_step_arrival (h : node.step c (t, op) = some c')
    (hv : (c'.task v).visitor? = some x) :
    (c.task v).visitor? = some x ∨ op = .accept (some (v, x)) := by
  by_cases hvt : v = t
  · subst hvt
    have hself := node_step_self h
    generalize c.task v = k at hself ⊢
    generalize c'.task v = k' at hself hv
    cases hself with
    | visitor => exact Or.inl hv
    | _ => cases hv
  · obtain he | ⟨hc, ha⟩ := node_step_other h hvt
    · exact Or.inl (he ▸ hv)
    · generalize c.task v = k at ha ⊢
      generalize c'.task v = k' at ha hv
      cases ha with
      | accept =>
          cases hv
          cases hc
          exact Or.inr rfl
      | insertPending | spawn | drop | cancelLock | cancelWrite => exact Or.inl hv
      | _ => cases hv

/-- What a loop is writing is the report of a visitor that it has accepted. -/
theorem writing_visitor {l : Tid} {ctx : LoopCtx} {aborted : Bool} {connId : String}
    {rest : List UInt8} (h : node.Run ls c)
    (hl : c.task l = .loop ctx aborted (.write v connId rest)) :
    (c.task v).visitor? = some ⟨ctx.tunnelId, connId⟩ := by
  have hhas := (visitorInv h).custody.has l (.reporting v ⟨ctx.tunnelId, connId⟩)
    (congrArg NodeTask.holding? hl)
  change Holding.Has _ (c.task v) at hhas
  generalize c.task v = k at hhas ⊢
  cases hhas
  rfl

theorem Meeting.newly_taken {r r' : Rendezvous String Tid Tid} (h : Meeting op r r')
    (ht : r'.Taken v d) :
    r.Taken v d ∨ ∃ k, r.socket d = .announced k ∧ r'.socket d = .holding k v := by
  cases h with
  | apart he => exact Or.inl (he ▸ ht)
  | event _ h => exact h.newly_taken ht
  | leave _ h => exact h.newly_taken ht

/-- A data connection takes a visitor's sender by finding its entry. -/
theorem taken_step (h : node.Run ls c) (hs : node.step c (t, op) = some c')
    (ht : (rendezvousOf c').Taken v d) :
    (rendezvousOf c).Taken v d ∨
      t = d ∧ ∃ k, c.task d = .dataConn (.claim k) ∧ op = .removePending k (some v) := by
  obtain ht | ⟨k, hann, hhold⟩ := (node_step_meeting (visitorInv h).custody hs).newly_taken ht
  · exact Or.inl ht
  · change (c.task d).call = .announced k at hann
    change (c'.task d).call = .holding k v at hhold
    by_cases hdt : d = t
    · subst hdt
      have hself := node_step_self hs
      generalize c.task d = kd at hself hann ⊢
      generalize c'.task d = kd' at hself hhold
      cases hself with
      | dataConn hself =>
          cases hself with
          | claimed =>
              cases hhold
              exact Or.inr ⟨rfl, _, rfl, rfl⟩
          | unknown => cases hhold
          | _ => cases hann
      | _ => cases hann
    · rw [node_step_call hs hdt, hann] at hhold
      cases hhold

end Node

end Borehole.Node
