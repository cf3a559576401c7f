/-
  Borehole.Conc.Wires

  Byte streams that concurrent tasks write frames on, a part at a time.

  Over a system whose labels say only when the write of a frame ends, the system
  of this module also says how far each write has come.  A task that leaves a
  write otherwise than by its end leaves what it has written on the stream.

  Where a stream has one writer at a time and no write is left in this way, every
  stream is the frames that were sent on it, in order, and a part of the frame
  that is being written.
-/

import Borehole.Conc.Lts
import Mathlib.Logic.Function.Basic

namespace Borehole.Conc

variable {State Label T W β : Type}

/-- What the tasks of a system write: the frame that a task is about to write or
    in the middle of, and the write that a label ends, with its outcome. -/
structure Wiring (State Label T W β : Type) where
  who : Label → T
  frame? : State → T → Option (W × List β)
  ends? : Label → Option (W × List β × Bool)

/-- A state, the bytes of every stream, how far every task is with its frame, and
    the streams on which a write has failed. -/
structure Wired (State T W β : Type) where
  state : State
  stream : W → List β
  sent : T → List β
  failed : W → Bool

/-- One partial write, or one step of the underlying system. -/
inductive WireOp (Label T β : Type) where
  | part (t : T) (bytes : List β)
  | step (l : Label)

/-- The step of the underlying system. -/
def WireOp.step? : WireOp Label T β → Option Label
  | .part _ _ => none
  | .step l => some l

namespace Wiring

variable [DecidableEq T] [DecidableEq W] [DecidableEq β] (K : Wiring State Label T W β)
  (L : Lts State Label)

/-- A partial write appends a part of what is left of the frame.  A write that
    succeeds has written all of it; one that fails, any part. -/
def step (c : Wired State T W β) : WireOp Label T β → Option (Wired State T W β)
  | .part t bytes =>
      (K.frame? c.state t).bind fun (w, frame) =>
        if c.sent t ++ bytes <+: frame then
          some { c with
            stream := Function.update c.stream w (c.stream w ++ bytes)
            sent := Function.update c.sent t (c.sent t ++ bytes) }
        else none
  | .step l =>
      (L.step c.state l).bind fun s =>
        let done := { c with state := s, sent := Function.update c.sent (K.who l) [] }
        match K.ends? l with
        | none => some done
        | some (_, frame, true) => if c.sent (K.who l) = frame then some done else none
        | some (w, _, false) => some { done with failed := Function.update c.failed w true }

/-- The system with its streams. -/
def lts : Lts (Wired State T W β) (WireOp Label T β) where
  init := ⟨L.init, fun _ => [], fun _ => [], fun _ => false⟩
  step := K.step L

/-- The frames sent on stream `w` with success, one for each write. -/
def sends (w : W) (ls : List (WireOp Label T β)) : List (List β) :=
  ls.filterMap fun l => (l.step?.bind K.ends?).bind fun (w', frame, ok) =>
    if w' = w ∧ ok = true then some frame else none

/-- One writer on a stream at a time. -/
def Exclusive (s : State) : Prop :=
  ∀ t u w f f', K.frame? s t = some (w, f) → K.frame? s u = some (w, f') → t = u

/-- A step ends the write of its task, if the task is in one, and leaves the
    writes of the others alone. -/
structure Orderly : Prop where
  ends : ∀ s l s' w f, L.step s l = some s' → K.frame? s (K.who l) = some (w, f) →
    ∃ ok, K.ends? l = some (w, f, ok)
  begun : ∀ s l s' w f ok, L.step s l = some s' → K.ends? l = some (w, f, ok) →
    K.frame? s (K.who l) = some (w, f)
  others : ∀ s l s' t, L.step s l = some s' → t ≠ K.who l → K.frame? s' t = K.frame? s t

variable {K L} {c c' : Wired State T W β} {l : Label} {ls : List (WireOp Label T β)} {w : W}
  {t : T}

omit [DecidableEq T] [DecidableEq β] in
@[simp] theorem sends_nil : K.sends w ([] : List (WireOp Label T β)) = [] := rfl

omit [DecidableEq T] [DecidableEq β] in
theorem sends_part {bytes : List β} : K.sends w (ls ++ [.part t bytes]) = K.sends w ls := by
  simp [sends, WireOp.step?]

omit [DecidableEq T] [DecidableEq β] in
theorem sends_step : K.sends w (ls ++ [.step l]) = K.sends w ls ++
    ((K.ends? l).bind fun (w', frame, ok) =>
      if w' = w ∧ ok = true then some frame else none).toList := by
  rw [sends, List.filterMap_append, sends]
  simp only [List.filterMap_cons, List.filterMap_nil, WireOp.step?, Option.bind_some]
  split <;> simp_all

/-! ## One step -/

theorem step_part {bytes : List β} (h : (K.lts L).step c (.part t bytes) = some c') :
    ∃ w frame, K.frame? c.state t = some (w, frame) ∧ c.sent t ++ bytes <+: frame ∧
      c'.state = c.state ∧ c'.failed = c.failed ∧
      c'.stream = Function.update c.stream w (c.stream w ++ bytes) ∧
      c'.sent = Function.update c.sent t (c.sent t ++ bytes) := by
  obtain ⟨⟨w, frame⟩, hf, h⟩ := Option.bind_eq_some_iff.mp h
  obtain ⟨hp, h⟩ := Option.ite_none_right_eq_some.mp h
  cases h
  exact ⟨w, frame, hf, hp, rfl, rfl, rfl, rfl⟩

/-- A step of the underlying system: what it ends, and what it does not change. -/
theorem step_step (h : (K.lts L).step c (.step l) = some c') :
    L.step c.state l = some c'.state ∧ c'.stream = c.stream ∧
      c'.sent = Function.update c.sent (K.who l) [] ∧
      (∀ w frame, K.ends? l = some (w, frame, true) → c.sent (K.who l) = frame) ∧
      ∀ w, c'.failed w = false ↔ c.failed w = false ∧
        ∀ frame, K.ends? l ≠ some (w, frame, false) := by
  obtain ⟨s, hs, h⟩ := Option.bind_eq_some_iff.mp h
  dsimp only at h
  split at h
  · rename_i hn
    cases h
    refine ⟨hs, rfl, rfl, fun w frame he => ?_, fun w => ?_⟩
    · rw [hn] at he
      cases he
    · simp [hn]
  · rename_i frame hn
    obtain ⟨hsent, h⟩ := Option.ite_none_right_eq_some.mp h
    cases h
    refine ⟨hs, rfl, rfl, fun w frame he => ?_, fun w => ?_⟩
    · rw [hn] at he
      cases he
      exact hsent
    · simp [hn]
  · rename_i w' frame hn
    cases h
    refine ⟨hs, rfl, rfl, fun w frame he => ?_, fun w => ?_⟩
    · rw [hn] at he
      cases he
    · simp only [hn, Function.update_apply]
      by_cases hw : w = w'
      · simp [hw]
      · simp [hw, Ne.symm hw]

/-- A run with streams is a run of the underlying system. -/
theorem runFrom_base (h : (K.lts L).runFrom c ls = some c') :
    L.runFrom c.state (ls.filterMap WireOp.step?) = some c'.state := by
  refine Lts.runFrom_induct (P := fun ls c' =>
    L.runFrom c.state (ls.filterMap WireOp.step?) = some c'.state) rfl ?_ h
  intro ls c l c' _ ih hs
  rw [List.filterMap_append]
  cases l with
  | part t bytes =>
      obtain ⟨w, frame, _, _, hstate, _⟩ := step_part hs
      rw [hstate, List.filterMap_cons_none rfl, List.filterMap_nil, List.append_nil]
      exact ih
  | step l => exact Lts.runFrom_snoc.mpr ⟨c.state, ih, (step_step hs).1⟩

theorem run_base (h : (K.lts L).Run ls c) : L.Run (ls.filterMap WireOp.step?) c.state :=
  runFrom_base h

/-! ## The invariant -/

/-- A stream is the frames sent on it and what its writer has written of the next
    one. -/
structure Inv (K : Wiring State Label T W β) (ls : List (WireOp Label T β))
    (c : Wired State T W β) : Prop where
  sent : ∀ t, c.sent t = [] ∨ ∃ w frame, K.frame? c.state t = some (w, frame) ∧
    c.sent t <+: frame
  stream : ∀ w, c.failed w = false → ∃ part, c.stream w = (K.sends w ls).flatten ++ part ∧
    (∀ t frame, K.frame? c.state t = some (w, frame) → part = c.sent t) ∧
    ((∀ t frame, K.frame? c.state t ≠ some (w, frame)) → part = [])

theorem Inv.part (hi : Inv K ls c) (hx : K.Exclusive c.state) {bytes : List β}
    (h : (K.lts L).step c (.part t bytes) = some c') : Inv K (ls ++ [.part t bytes]) c' := by
  obtain ⟨w, frame, hf, hp, hstate, hfailed, hstream, hsent⟩ := step_part h
  refine ⟨fun u => ?_, fun w' hw' => ?_⟩
  · rw [hstate, hsent]
    by_cases hu : u = t
    · subst hu
      rw [Function.update_self]
      exact Or.inr ⟨w, frame, hf, hp⟩
    · rw [Function.update_of_ne hu]
      exact hi.sent u
  · rw [hfailed] at hw'
    obtain ⟨part, hs, hpart, hnone⟩ := hi.stream w' hw'
    rw [sends_part, hstate, hstream, hsent]
    by_cases hw : w' = w
    · subst hw
      refine ⟨part ++ bytes, ?_, fun u f hu => ?_, fun hn => absurd hf (hn t frame)⟩
      · rw [Function.update_self, hs, List.append_assoc]
      · obtain rfl := hx u t w' f frame hu hf
        rw [Function.update_self, hpart u f hu]
    · refine ⟨part, ?_, fun u f hu => ?_, hnone⟩
      · rw [Function.update_of_ne hw, hs]
      · have hut : u ≠ t := by
          rintro rfl
          rw [hf] at hu
          cases hu
          exact hw rfl
        rw [Function.update_of_ne hut]
        exact hpart u f hu

theorem Inv.step (hi : Inv K ls c) (ho : K.Orderly L) (hx : K.Exclusive c.state)
    (hx' : K.Exclusive c'.state) (h : (K.lts L).step c (.step l) = some c') :
    Inv K (ls ++ [.step l]) c' := by
  obtain ⟨hs, hstream, hsent, hwhole, hok⟩ := step_step h
  have hother :
      ∀ u, u ≠ K.who l → c'.sent u = c.sent u ∧ K.frame? c'.state u = K.frame? c.state u :=
    fun u hu => ⟨by rw [hsent, Function.update_of_ne hu], ho.others _ _ _ u hs hu⟩
  have hself : c'.sent (K.who l) = [] := by rw [hsent, Function.update_self]
  refine ⟨fun u => ?_, fun w hw => ?_⟩
  · by_cases hu : u = K.who l
    · subst hu
      exact Or.inl hself
    · rw [(hother u hu).1, (hother u hu).2]
      exact hi.sent u
  · obtain ⟨hwf, hne⟩ := (hok w).mp hw
    obtain ⟨part, hs', hpart, hnone⟩ := hi.stream w hwf
    rw [hstream, hs', sends_step]
    by_cases hend : ∃ frame, K.frame? c.state (K.who l) = some (w, frame)
    -- the step ends the write on `w`: its frame is whole and nobody else writes there
    · obtain ⟨frame, hf⟩ := hend
      obtain ⟨ok, he⟩ := ho.ends _ _ _ w frame hs hf
      cases ok with
      | false => exact absurd he (hne frame)
      | true =>
          refine ⟨[], ?_, fun u f hu => ?_, fun _ => rfl⟩
          · rw [hpart _ _ hf, hwhole w frame he, he]
            simp
          · by_cases hu' : u = K.who l
            · rw [hu', hself]
            · rw [(hother u hu').2] at hu
              exact absurd (hx u _ w f frame hu hf) hu'
    -- the step is about no write on `w`
    · have hnil : ((K.ends? l).bind fun (w', frame, ok) =>
          if w' = w ∧ ok = true then some frame else none) = none := by
        rw [Option.bind_eq_none_iff]
        rintro ⟨w', frame, ok⟩ he
        refine if_neg ?_
        rintro ⟨rfl, -⟩
        exact hend ⟨frame, ho.begun _ _ _ _ _ ok hs he⟩
      refine ⟨part, by rw [hnil]; simp, fun u f hu => ?_, fun hn => hnone fun u f hu => ?_⟩
      · by_cases hu' : u = K.who l
        -- the task starts on a stream that nobody else is writing on
        · subst hu'
          rw [hself]
          refine hnone fun v f' hv => ?_
          by_cases hv' : v = K.who l
          · subst hv'
            exact hend ⟨f', hv⟩
          · rw [← (hother v hv').2] at hv
            exact hv' (hx' v _ w f' f hv hu)
        · rw [(hother u hu').1]
          rw [(hother u hu').2] at hu
          exact hpart u f hu
      · by_cases hu' : u = K.who l
        · subst hu'
          exact hend ⟨f, hu⟩
        · rw [← (hother u hu').2] at hu
          exact hn u f hu

theorem inv (ho : K.Orderly L) (hx : ∀ ls s, L.Run ls s → K.Exclusive s)
    (h : (K.lts L).Run ls c) : Inv K ls c := by
  refine Lts.Run.induct (P := fun ls c => Inv K ls c) ?_ ?_ h
  · exact ⟨fun _ => Or.inl rfl, fun _ _ => ⟨[], rfl, fun _ _ _ => rfl, fun _ => rfl⟩⟩
  · intro ls c l c' hr hi hs
    have hexc := hx _ _ (run_base hr)
    cases l with
    | part t bytes => exact hi.part hexc hs
    | step l =>
        have hrun := run_base (Lts.run_snoc.mpr ⟨c, hr, hs⟩)
        exact hi.step ho hexc (hx _ _ hrun) hs

/-- A stream on which no write has failed is the frames sent on it, and a part of
    the frame that its writer is writing. -/
theorem framed (ho : K.Orderly L) (hx : ∀ ls s, L.Run ls s → K.Exclusive s)
    (h : (K.lts L).Run ls c) (hw : c.failed w = false) :
    ∃ part, c.stream w = (K.sends w ls).flatten ++ part ∧
      (part = [] ∨ ∃ t frame, K.frame? c.state t = some (w, frame) ∧ part = c.sent t ∧
        part <+: frame) := by
  have hi := inv ho hx h
  obtain ⟨part, hs, hpart, hnone⟩ := hi.stream w hw
  refine ⟨part, hs, ?_⟩
  by_cases hex : ∃ t frame, K.frame? c.state t = some (w, frame)
  · obtain ⟨t, frame, hf⟩ := hex
    have hp := hpart t frame hf
    obtain hn | ⟨w', frame', hf', hpre⟩ := hi.sent t
    · exact Or.inl (hp.trans hn)
    · rw [hf] at hf'
      cases hf'
      exact Or.inr ⟨t, frame, hf, hp, by rw [hp]; exact hpre⟩
  · exact Or.inl (hnone fun t frame hf => hex ⟨t, frame, hf⟩)

end Wiring
end Borehole.Conc
