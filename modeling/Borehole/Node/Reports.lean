/-
  Borehole.Node.Reports

  The frames on a node's control stream.

  A loop writes its report under the mutex of its session's writer, in as many
  parts as it takes, so reports do not interleave.  A loop that is dropped in the
  middle of a report gives the mutex up; what the next loop writes then comes
  after a report that is cut short.
-/

import Borehole.Conc.Framing
import Borehole.Node.Pending

namespace Borehole.Node

open Conc

/-! ## Where a loop is with its report -/

/-- A frame that reports a visitor. -/
def IsReport (bytes : List UInt8) : Prop :=
  ∃ tunnelId connId, TunnelAcceptLoop.frame? tunnelId connId = some bytes

/-- The loop has the writer. -/
def TunnelAcceptLoop.Pc.holdsWriter : TunnelAcceptLoop.Pc → Bool
  | .write _ _ _ | .flush _ _ | .removePending _ _ | .unlockFailed _ | .unlock _ => true
  | _ => false

/-- The task has the writer of session `s`. -/
def NodeTask.holdsWriter (s : Nat) : NodeTask → Bool
  | .loop ctx _ pc => decide (ctx.session = s) && pc.holdsWriter
  | _ => false

/-- The report that the task is writing in session `s`, and what is left of it. -/
def NodeTask.report? (s : Nat) : NodeTask → Option (List UInt8 × List UInt8)
  | .loop ctx _ (.write _ connId rest) =>
      if ctx.session = s then (TunnelAcceptLoop.frame? ctx.tunnelId connId).map (·, rest) else none
  | _ => none

/-- The task was dropped in session `s` after it had written a part of its
    report, but not all of it. -/
def NodeTask.cutShort (s : Nat) : NodeTask → Bool
  | .loop ctx _ (.cancelled (some (connId, rest))) =>
      ctx.session = s ∧ rest ≠ [] ∧ TunnelAcceptLoop.frame? ctx.tunnelId connId ≠ some rest
  | _ => false

/-- What is in a loop's buffer is the report of its visitor. -/
def TunnelAcceptLoop.Pc.Encoded (ctx : LoopCtx) : TunnelAcceptLoop.Pc → Prop
  | .lockWriter _ connId frame => frame? ctx.tunnelId connId = some frame
  | .write _ _ rest => rest ≠ []
  | _ => True

/-- What a loop is writing is the encoded report of its visitor. -/
def NodeTask.Encoded : NodeTask → Prop
  | .loop ctx _ pc => pc.Encoded ctx
  | _ => True

/-- What a step does to the writer of session `s`: the task has it or not. -/
inductive Locking (s : Nat) : Bool → Op → Bool → Prop where
  | lock : Locking s false (.lockWriter s) true
  | unlock : Locking s true (.unlockWriter s) false
  | cancel {port v} : Locking s true (.cancelWrite port s v) false
  | quiet {b op} : (op.onWriters = true → ∃ s' ≠ s, op = .lockWriter s' ∨ op = .unlockWriter s' ∨
      ∃ port v, op = .cancelWrite port s' v) → Locking s b op b

/-- What a step does to the report of session `s` that a task is writing, and
    whether the report is cut short. -/
inductive Reporting (s : Nat) : Option (List UInt8 × List UInt8) → Op →
    Option (List UInt8 × List UInt8) → Bool → Prop where
  | start {frame} : IsReport frame → Reporting s none (.lockWriter s) (some (frame, frame)) false
  | part {frame bytes rest} : rest ≠ [] →
      Reporting s (some (frame, bytes ++ rest)) (.write s bytes) (some (frame, rest)) false
  | whole {frame bytes} : Reporting s (some (frame, bytes)) (.write s bytes) none false
  | failed {w} : Reporting s (some w) (.writeFailed s) none false
  | cancel {frame rest port v} :
      Reporting s (some (frame, rest)) (.cancelWrite port s v) none (decide (rest ≠ frame))
  | quiet {w op} : (∀ bytes, op ≠ .write s bytes) → Reporting s w op w false

section Steps

variable {op : Op} {k k' : NodeTask} {s : Nat}

theorem IsReport.head {bytes : List UInt8} (h : IsReport bytes) :
    ∃ rest, bytes = 123 :: 34 :: rest := by
  obtain ⟨tunnelId, connId, h⟩ := h
  obtain ⟨rest, hl⟩ := toLine_head (.visitorConn ⟨tunnelId, connId⟩)
  rw [TunnelAcceptLoop.frame?, hl] at h
  exact ⟨rest, (Option.some.inj h).symm⟩

theorem TunnelAcceptLoop.frame?_some (tunnelId connId : String) :
    ∃ frame, frame? tunnelId connId = some frame :=
  ⟨_, rfl⟩

theorem NodeTask.report?_write {ctx : LoopCtx} {aborted : Bool} {v : Tid} {connId : String}
    {frame rest : List UInt8} (h : TunnelAcceptLoop.frame? ctx.tunnelId connId = some frame) :
    (NodeTask.loop ctx aborted (.write v connId rest)).report? ctx.session =
      some (frame, rest) := by
  rw [report?, if_pos rfl, h, Option.map_some]

theorem NodeTask.Step.encoded (hk : k.Encoded) (h : Step k op k') : k'.Encoded := by
  cases h with
  | loop h =>
      cases h with
      | encoded he => exact he
      | lockWriter =>
          obtain ⟨rest, rfl⟩ := IsReport.head ⟨_, _, hk⟩
          exact nofun
      | wrotePart _ hr => exact hr
      | _ => trivial
  | _ => trivial

theorem NodeTask.Step.locking (h : Step k op k') :
    Locking s (k.holdsWriter s) op (k'.holdsWriter s) := by
  cases h with
  | @loop ctx aborted pc op pc' h =>
      by_cases hs : ctx.session = s
      · subst hs
        simp only [NodeTask.holdsWriter, decide_true, Bool.true_and]
        cases h with
        | lockWriter => exact .lock
        | unlock | unlockFailed => exact .unlock
        | cancelWrite | cancelFlush => exact .cancel
        | _ => exact .quiet nofun
      · simp only [NodeTask.holdsWriter, hs, decide_false, Bool.false_and]
        refine .quiet fun hop => ⟨ctx.session, hs, ?_⟩
        cases h <;> first | (cases hop; done) | simp
  | session h => cases h <;> exact .quiet nofun
  | visitor h => cases h <;> exact .quiet nofun
  | dataConn h => cases h <;> exact .quiet nofun
  | dataConnect => exact .quiet nofun

theorem NodeTask.Step.reporting (hk : k.Encoded) (h : Step k op k') :
    ∃ cut, Reporting s (k.report? s) op (k'.report? s) cut ∧
      k'.cutShort s = (k.cutShort s || cut) := by
  cases h with
  | @loop ctx aborted pc op pc' h =>
      by_cases hs : ctx.session = s
      · subst hs
        cases h with
        | lockWriter =>
            -- With the writer locked the frame is to be written whole.
            have hframe : TunnelAcceptLoop.frame? _ _ = some _ := hk
            rw [NodeTask.report?_write hframe]
            exact ⟨false, .start ⟨_, _, hframe⟩, rfl⟩
        | @wrote _ connId =>
            obtain ⟨frame, hframe⟩ := TunnelAcceptLoop.frame?_some ctx.tunnelId connId
            rw [NodeTask.report?_write hframe]
            exact ⟨false, .whole, rfl⟩
        | @wrotePart _ connId _ _ _ hrest =>
            obtain ⟨frame, hframe⟩ := TunnelAcceptLoop.frame?_some ctx.tunnelId connId
            rw [NodeTask.report?_write hframe, NodeTask.report?_write hframe]
            exact ⟨false, .part hrest, rfl⟩
        | @writeFailed _ connId =>
            obtain ⟨frame, hframe⟩ := TunnelAcceptLoop.frame?_some ctx.tunnelId connId
            rw [NodeTask.report?_write hframe]
            exact ⟨false, .failed, rfl⟩
        | @cancelWrite _ connId rest =>
            -- An aborted loop leaves on the stream what it has written of the frame.
            have hrest : rest ≠ [] := hk
            obtain ⟨frame, hframe⟩ := TunnelAcceptLoop.frame?_some ctx.tunnelId connId
            rw [NodeTask.report?_write hframe]
            refine ⟨decide (rest ≠ frame), .cancel, ?_⟩
            simp [NodeTask.cutShort, hframe, hrest, eq_comm]
        | cancelFlush =>
            refine ⟨false, .quiet nofun, ?_⟩
            simp [NodeTask.cutShort]
        | _ => exact ⟨false, .quiet nofun, rfl⟩
      -- the loop is one of another session
      · have hnone : ∀ pc, (NodeTask.loop ctx aborted pc).report? s = none := by
          intro pc
          cases pc <;> first | rfl | exact if_neg hs
        have huncut : ∀ pc, (NodeTask.loop ctx aborted pc).cutShort s = false := by
          intro pc
          rcases pc with _ | _ | _ | _ | _ | _ | _ | _ | _ | _ | _ | _ | (_ | _) <;>
            simp [NodeTask.cutShort, hs]
        rw [hnone, hnone, huncut, huncut]
        refine ⟨false, .quiet fun bytes hop => ?_, rfl⟩
        cases h <;> cases hop <;> exact hs rfl
  | session h => exact ⟨false, by cases h <;> exact .quiet nofun, rfl⟩
  | visitor h => exact ⟨false, by cases h <;> exact .quiet nofun, rfl⟩
  | dataConn h => exact ⟨false, by cases h <;> exact .quiet nofun, rfl⟩
  | dataConnect => exact ⟨false, .quiet nofun, rfl⟩

theorem NodeTask.holdsWriter_of_report {w : List UInt8 × List UInt8} (h : k.report? s = some w) :
    k.holdsWriter s = true := by
  cases k with
  | loop ctx aborted pc =>
      cases pc with
      | write v connId rest =>
          simp only [report?] at h
          split at h
          · rename_i hs
            simp [holdsWriter, hs, TunnelAcceptLoop.Pc.holdsWriter]
          · cases h
      | _ => cases h
  | _ => cases h

end Steps

/-! ## The writers -/

/-- The loops know what they write, and who has a writer has locked it. -/
structure LoopInv (c : NodeConf) : Prop where
  encoded : ∀ l, (c.task l).Encoded
  locked : ∀ l s, (c.task l).holdsWriter s = true → c.shared.writer s = some l

/-- What is on the stream of session `s` after its whole reports is what there
    is of the one that is being written. -/
structure Written (s : Nat) (c : NodeConf) (p : List UInt8) : Prop where
  framed : Framed IsReport (c.shared.wire s) p
  report : ∀ l frame rest, (c.task l).report? s = some (frame, rest) →
    IsReport frame ∧ frame = p ++ rest
  idle : (∀ l, (c.task l).report? s = none) → p = []

/-- The stream of session `s`: reports, of which the last may be under way or,
    where one was cut short, have been given up. -/
structure StreamInv (s : Nat) (c : NodeConf) : Prop where
  framed : c.shared.failed s = false →
    ∃ p, Framed IsReport (c.shared.wire s) p ∧ ∃ f, IsReport f ∧ p <+: f
  uncut : c.shared.failed s = false → (∀ l, (c.task l).cutShort s = false) → ∃ p, Written s c p

/-- Nothing is written to a stream on which a report was cut short. -/
def Unbroken (c : NodeConf) (a : Tid × Op) : Prop :=
  ∀ s bytes, a.2 = .write s bytes → ∀ l, (c.task l).cutShort s = false

section Invariant

variable {c c' : NodeConf} {ls : List (Tid × Op)} {t l : Tid} {op : Op} {s : Nat}

theorem LoopInv.step (hi : LoopInv c) (h : node.step c (t, op) = some c') : LoopInv c' := by
  have hx := node_step_exec h
  refine ⟨fun l => ?_, fun l s hl => ?_⟩
  · by_cases hlt : l = t
    · subst hlt
      exact (node_step_self h).encoded (hi.encoded l)
    · obtain he | ⟨_, ha⟩ := node_step_other h hlt
      · rw [he]
        exact hi.encoded l
      · have hl := hi.encoded l
        generalize c.task l = k at ha hl
        generalize c'.task l = k' at ha ⊢
        cases ha with
        | abort => exact hl
        | _ => trivial
  · have hother : ∀ u, u ≠ t → (c'.task u).holdsWriter s = (c.task u).holdsWriter s := fun u hu =>
      node_step_attr (f := NodeTask.holdsWriter s) (fun _ _ => rfl) (fun _ _ _ => rfl)
        (fun _ => Bool.and_false _) h hu
    have hlock := (node_step_self h).locking (s := s)
    generalize hb : (c.task t).holdsWriter s = b at hlock
    generalize hb' : (c'.task t).holdsWriter s = b' at hlock
    -- who else has the writer had it before
    have hkept : l ≠ t → c.shared.writer s = some l := by
      intro hlt
      rw [hother l hlt] at hl
      exact hi.locked l s hl
    cases hlock with
    | lock =>
        obtain ⟨hfree, hw⟩ := NodeState.exec_lockWriter hx
        by_cases hlt : l = t
        · rw [hw, hlt, Function.update_self]
        · have hmine := hkept hlt
          rw [hfree] at hmine
          cases hmine
    | unlock =>
        obtain ⟨hmine, _⟩ := NodeState.exec_unlockWriter hx
        by_cases hlt : l = t
        · rw [hlt, hb'] at hl
          cases hl
        · rw [hkept hlt] at hmine
          exact absurd (Option.some.inj hmine) hlt
    | cancel =>
        obtain ⟨hmine, _⟩ := NodeState.exec_cancelWrite hx
        by_cases hlt : l = t
        · rw [hlt, hb'] at hl
          cases hl
        · rw [hkept hlt] at hmine
          exact absurd (Option.some.inj hmine) hlt
    | quiet hop =>
        rw [NodeState.exec_writer hx hop]
        by_cases hlt : l = t
        · subst hlt
          exact hi.locked l s (hb.trans (hb'.symm.trans hl))
        · exact hkept hlt

/-- One loop at a time is writing in a session. -/
theorem LoopInv.unique (hi : LoopInv c) {l l' : Tid} {w w' : List UInt8 × List UInt8}
    (h : (c.task l).report? s = some w) (h' : (c.task l').report? s = some w') : l = l' := by
  have hl := hi.locked l s (NodeTask.holdsWriter_of_report h)
  have hl' := hi.locked l' s (NodeTask.holdsWriter_of_report h')
  rw [hl] at hl'
  exact Option.some.inj hl'

/-- There is always a report to be had. -/
theorem Written.begins {p : List UInt8} (hw : Written s c p) : ∃ f, IsReport f ∧ p <+: f := by
  by_cases hidle : ∀ l, (c.task l).report? s = none
  · rw [hw.idle hidle]
    obtain ⟨frame, hf⟩ := TunnelAcceptLoop.frame?_some "" ""
    exact ⟨frame, ⟨_, _, hf⟩, List.nil_prefix⟩
  · obtain ⟨l, hl⟩ := not_forall.mp hidle
    obtain ⟨⟨frame, rest⟩, hl⟩ := Option.ne_none_iff_exists'.mp hl
    obtain ⟨hf, he⟩ := hw.report l frame rest hl
    exact ⟨frame, hf, rest, he.symm⟩

theorem node_step_report (h : node.step c (t, op) = some c') {u : Tid} (hu : u ≠ t) :
    (c'.task u).report? s = (c.task u).report? s :=
  node_step_attr (f := NodeTask.report? s) (fun _ _ => rfl) (fun _ _ pc => by cases pc <;> rfl)
    (fun _ => rfl) h hu

theorem node_step_cutShort (h : node.step c (t, op) = some c') {u : Tid} (hu : u ≠ t) :
    (c'.task u).cutShort s = (c.task u).cutShort s :=
  node_step_attr (f := NodeTask.cutShort s) (fun _ _ => rfl)
    (fun _ _ pc => by
      rcases pc with _ | _ | _ | _ | _ | _ | _ | _ | _ | _ | _ | _ | (_ | _) <;> rfl)
    (fun _ => rfl) h hu

theorem Written.step {p : List UInt8} (hi : LoopInv c) (hw : Written s c p)
    (h : node.step c (t, op) = some c') (hf : c'.shared.failed s = false)
    (hr : Reporting s ((c.task t).report? s) op ((c'.task t).report? s) false) :
    ∃ p', Written s c' p' := by
  have hx := node_step_exec h
  -- a report that another loop is writing was so before
  have hother : ∀ {u w}, u ≠ t → (c'.task u).report? s = some w →
      (c.task u).report? s = some w := fun hu he => (node_step_report h hu).symm.trans he
  generalize hb : (c.task t).report? s = b at hr
  generalize hb' : (c'.task t).report? s = b' at hr
  generalize hcut : false = cut at hr
  cases hr with
  | @start frame hframe =>
      have hnobody : ∀ u, (c.task u).report? s = none := by
        intro u
        refine Option.eq_none_iff_forall_ne_some.mpr fun w hu => ?_
        have hl := hi.locked u s (NodeTask.holdsWriter_of_report hu)
        rw [(NodeState.exec_lockWriter hx).1] at hl
        cases hl
      have hp := hw.framed
      rw [hw.idle hnobody] at hp
      refine ⟨[], ?_, fun u f r hu => ?_, fun _ => rfl⟩
      · rw [NodeState.exec_wire hx nofun]
        exact hp
      · by_cases hut : u = t
        · rw [hut, hb'] at hu
          cases hu
          exact ⟨hframe, rfl⟩
        · have hu := hother hut hu
          rw [hnobody u] at hu
          cases hu
  | @part frame bytes rest _ =>
      obtain ⟨hframe, he⟩ := hw.report t _ _ hb
      refine ⟨p ++ bytes, ?_, fun u f r hu => ?_, fun hn => ?_⟩
      · rw [(NodeState.exec_write hx).2, Function.update_self]
        exact hw.framed.append
      · have hut : u = t := (hi.step h).unique hu hb'
        rw [hut, hb'] at hu
        cases hu
        exact ⟨hframe, he.trans (List.append_assoc _ _ _).symm⟩
      · rw [hn t] at hb'
        cases hb'
  | @whole frame bytes =>
      obtain ⟨hframe, he⟩ := hw.report t _ _ hb
      refine ⟨[], ?_, fun u f r hu => ?_, fun _ => rfl⟩
      · rw [(NodeState.exec_write hx).2, Function.update_self]
        rw [he] at hframe
        exact hw.framed.append.whole hframe
      · by_cases hut : u = t
        · rw [hut, hb'] at hu
          cases hu
        · exact absurd (hi.unique (hother hut hu) hb) hut
  | failed =>
      rw [NodeState.exec_writeFailed hx] at hf
      cases hf
  | @cancel frame rest port v =>
      obtain ⟨_, he⟩ := hw.report t _ _ hb
      have hrest : rest = frame := Decidable.of_not_not (of_decide_eq_false hcut.symm)
      rw [hrest] at he
      have hp := hw.framed
      rw [List.self_eq_append_left.mp he] at hp
      refine ⟨[], ?_, fun u f r hu => ?_, fun _ => rfl⟩
      · rw [NodeState.exec_wire hx nofun]
        exact hp
      · by_cases hut : u = t
        · rw [hut, hb'] at hu
          cases hu
        · exact absurd (hi.unique (hother hut hu) hb) hut
  | quiet hop =>
      have hsame : ∀ u, (c'.task u).report? s = (c.task u).report? s := by
        intro u
        by_cases hut : u = t
        · rw [hut, hb, hb']
        · exact node_step_report h hut
      refine ⟨p, ?_, fun u f r hu => ?_, fun hn => ?_⟩
      · rw [NodeState.exec_wire hx hop]
        exact hw.framed
      · exact hw.report u f r ((hsame u).symm.trans hu)
      · exact hw.idle fun u => (hsame u).symm.trans (hn u)

theorem StreamInv.step (hl : LoopInv c) (hi : StreamInv s c) (hok : Unbroken c (t, op))
    (h : node.step c (t, op) = some c') : StreamInv s c' := by
  have hx := node_step_exec h
  obtain ⟨cut, hr, hcut⟩ := (node_step_self h).reporting (s := s) (hl.encoded t)
  -- a loop that was cut short stays so
  have hback : (∀ u, (c'.task u).cutShort s = false) →
      (∀ u, (c.task u).cutShort s = false) ∧ cut = false := by
    intro hu
    have ht := hu t
    rw [hcut, Bool.or_eq_false_iff] at ht
    refine ⟨fun u => ?_, ht.2⟩
    by_cases hut : u = t
    · rw [hut]
      exact ht.1
    · rw [← node_step_cutShort h hut]
      exact hu u
  have huncut : c'.shared.failed s = false → (∀ u, (c'.task u).cutShort s = false) →
      ∃ p, Written s c' p := by
    intro hf hu
    obtain ⟨hold, rfl⟩ := hback hu
    obtain ⟨p, hw⟩ := hi.uncut (NodeState.exec_failed hx hf) hold
    exact hw.step hl h hf hr
  refine ⟨fun hf => ?_, huncut⟩
  by_cases hop : ∃ bytes, op = .write s bytes
  · obtain ⟨bytes, rfl⟩ := hop
    have hold := hok s bytes rfl
    have hnow : ∀ u, (c'.task u).cutShort s = false := by
      intro u
      by_cases hut : u = t
      · rw [hut, hcut, hold t]
        generalize (c.task t).report? s = b at hr
        generalize (c'.task t).report? s = b' at hr
        cases hr with
        | part | whole => rfl
        | quiet hne => exact absurd rfl (hne bytes)
      · rw [node_step_cutShort h hut]
        exact hold u
    obtain ⟨p, hw⟩ := huncut hf hnow
    exact ⟨p, hw.framed, hw.begins⟩
  · rw [NodeState.exec_wire hx fun bytes he => hop ⟨bytes, he⟩]
    exact hi.framed (NodeState.exec_failed hx hf)

theorem loopInv (h : node.Run ls c) : LoopInv c := by
  refine Conc.Lts.Run.induct (P := fun _ c => LoopInv c) ⟨fun l => ?_, fun l s hl => ?_⟩
    (fun _ _ _ _ _ hi hs => hi.step hs) h
  · simp only [node, Tasks.lts, NodeConf.start]
    split <;> trivial
  · simp only [node, Tasks.lts, NodeConf.start] at hl
    split at hl <;> cases hl

/-- A report is cut short when a loop is cancelled in the middle of a write. -/
theorem uncut_of_uncancelled (h : node.Run ls c)
    (hn : ∀ t port s v, (t, .cancelWrite port s v) ∉ ls) : (c.task l).cutShort s = false := by
  revert hn l s
  refine Conc.Lts.Run.induct (P := fun ls c => ∀ {l s},
    (∀ t port s v, (t, .cancelWrite port s v) ∉ ls) → (c.task l).cutShort s = false) ?_ ?_ h
  · intro l s _
    simp only [node, Tasks.lts, NodeConf.start]
    split <;> rfl
  · rintro ls c ⟨t, op⟩ c' hr ih hs l s hn
    have hold := ih (l := l) (s := s) fun t port s v hm => hn t port s v (List.mem_append_left _ hm)
    by_cases hlt : l = t
    · subst hlt
      obtain ⟨cut, hrep, hcut⟩ := (node_step_self hs).reporting (s := s) ((loopInv hr).encoded l)
      rw [hcut, hold, Bool.false_or]
      generalize (c.task l).report? s = b at hrep
      generalize (c'.task l).report? s = b' at hrep
      cases hrep with
      | cancel => exact absurd (List.mem_append_right _ (List.mem_singleton.mpr rfl)) (hn l _ s _)
      | _ => rfl
    · rw [node_step_cutShort hs hlt]
      exact hold

/-- If nothing is written to a stream after a loop was dropped in the middle of a
    report, then the stream is a sequence of reports, of which the last may be
    under way, for as long as it has not failed. -/
theorem reports_whole (h : node.Run ls c) (hok : node.Along Unbroken ls)
    (hf : c.shared.failed s = false) :
    ∃ p, Framed IsReport (c.shared.wire s) p ∧ ∃ f, IsReport f ∧ p <+: f := by
  have hi : StreamInv s c := by
    refine Conc.Lts.Run.induct_along (P := fun _ c => StreamInv s c) ?_ ?_ h hok
    · have hw : Written s NodeConf.start [] := by
        refine ⟨.nil, fun l frame rest hl => ?_, fun _ => rfl⟩
        simp only [NodeConf.start] at hl
        split at hl <;> cases hl
      exact ⟨fun _ => ⟨[], hw.framed, hw.begins⟩, fun _ _ => ⟨[], hw⟩⟩
    · intro ls c a c' hr hi hok hs
      exact hi.step (loopInv hr) hok hs
  exact hi.framed hf

/-- The report of visitor `connId` of tunnel `tunnelId`. -/
def reportBytes (tunnelId connId : String) : List UInt8 :=
  (TunnelAcceptLoop.frame? tunnelId connId).getD []

/-- The report of a visitor goes out in two parts. -/
def reportedInParts : List (Tid × Op) :=
  [(1, .write 0 [123]), (1, .write 0 ((reportBytes "t" "c").drop 1)), (1, .flush 0 true),
   (1, .unlockWriter 0), (1, .spawn 2)]

theorem reports_whole_inParts :
    ∃ c, node.Run (tunnelOpened ++ visitorAccepted ++ reportedInParts) c ∧
      ∃ p, Framed IsReport (c.shared.wire 0) p ∧ ∃ f, IsReport f ∧ p <+: f := by
  obtain ⟨c, h, hf⟩ : ∃ c, node.Run (tunnelOpened ++ visitorAccepted ++ reportedInParts) c ∧
      c.shared.failed 0 = false := ⟨_, rfl, rfl⟩
  refine ⟨c, h, reports_whole h (h.along fun pre a post c₁ he hr s bytes _ l => ?_) hf⟩
  refine uncut_of_uncancelled hr fun t port s v hm => ?_
  have hm : (t, .cancelWrite port s v) ∈ tunnelOpened ++ visitorAccepted ++ reportedInParts :=
    he ▸ List.mem_append_left _ hm
  simp [tunnelOpened, visitorAccepted, reportedInParts] at hm

/-- A tunnel `u` on port 7001 has a visitor, too, when the report on a visitor of
    tunnel `t` stops after one byte and that tunnel is closed. -/
def closedAtWrite : List (Tid × Op) :=
  [(0, .readOrder 0 (some (some (.openTunnel ⟨"u", 7001⟩)))), (0, .bind 7001 true),
   (0, .spawnLoop 4 ⟨0, "u", 7001⟩),
   (4, .accept (some (5, ⟨"u", "d"⟩))), (4, .insertPending "d" 5), (4, .compute),
   (1, .write 0 [123])] ++ closedAtReport ++
  [(4, .lockWriter 0), (4, .write 0 (reportBytes "u" "d"))]

theorem reports_closedAtWrite :
    ∃ c, node.Run (tunnelOpened ++ visitorAccepted ++ closedAtWrite) c ∧
      c.shared.failed 0 = false ∧
      ¬∃ p, Framed IsReport (c.shared.wire 0) p ∧ ∃ f, IsReport f ∧ p <+: f := by
  obtain ⟨c, h, hf, hw⟩ : ∃ c, node.Run (tunnelOpened ++ visitorAccepted ++ closedAtWrite) c ∧
      c.shared.failed 0 = false ∧ c.shared.wire 0 = 123 :: reportBytes "u" "d" := ⟨_, rfl, rfl, rfl⟩
  refine ⟨c, h, hf, ?_⟩
  rintro ⟨p, hp, hpart⟩
  have hreport : IsReport (reportBytes "u" "d") := ⟨"u", "d", rfl⟩
  obtain ⟨rest, hrest⟩ := hreport.head
  rw [hw, hrest] at hp
  -- the second byte on the stream is the first of a report, and no report has it second
  obtain hnil | ⟨f, hframe, hp⟩ := hp.head hpart
  · cases hnil
  · obtain ⟨rest', rfl⟩ := hframe.head
    obtain ⟨_, he⟩ | ⟨_, he⟩ := hp
    all_goals
      obtain ⟨hbyte, _⟩ := List.cons.inj (List.cons.inj he).2
      exact absurd hbyte (by decide)

end Invariant

end Borehole.Node
