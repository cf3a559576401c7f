/-
  Borehole.Conc.Custody

  Tasks in the hands of other tasks.

  A task may act for another one that has not started to run itself.  While it
  does, it has that task in its custody: the ward takes no step of its own and
  nobody else acts on it.
-/

import Borehole.Conc.Tasks

namespace Borehole.Conc

/-- A discipline of custody: what a task has in its hands, whose custody that
    is, and where the ward has to be. -/
structure Custody (Tid Task Hand : Type) where
  hand? : Task → Option Hand
  ward : Hand → Tid
  Has : Hand → Task → Prop

namespace Custody

variable {Tid Task Op Shared Hand : Type} [DecidableEq Tid] {M : Tasks Tid Task Op Shared}
  {K : Custody Tid Task Hand} {c c' : Conf Tid Task Shared} {t u : Tid} {op : Op} {h : Hand}

/-- Every ward is where its keeper thinks it is, and has one keeper. -/
structure Inv (K : Custody Tid Task Hand) (c : Conf Tid Task Shared) : Prop where
  has : ∀ t h, K.hand? (c.task t) = some h → K.Has h (c.task (K.ward h))
  unique : ∀ t u h h', K.hand? (c.task t) = some h → K.hand? (c.task u) = some h' →
    K.ward h = K.ward h' → t = u

/-- A task may step if it is nobody's ward, and may act on its own ward or on a
    task that is nobody's. -/
structure Allows (K : Custody Tid Task Hand) (M : Tasks Tid Task Op Shared)
    (c : Conf Tid Task Shared) (t : Tid) (op : Op) : Prop where
  free : ∀ h, ¬K.Has h (c.task t)
  child : ∀ v, M.child op = some v →
    (∃ h, K.hand? (c.task t) = some h ∧ K.ward h = v) ∨ ∀ h, ¬K.Has h (c.task v)

/-- A ward is left alone by everybody but its keeper. -/
theorem Inv.keeps (hi : K.Inv c) (ha : K.Allows M c t op) (hs : M.step c (t, op) = some c')
    (hu : K.hand? (c.task u) = some h) (hut : u ≠ t) : c'.task (K.ward h) = c.task (K.ward h) := by
  have hhas := hi.has u h hu
  obtain he | ⟨_, hc, _⟩ | ⟨_, _, he⟩ := Tasks.step_task hs (K.ward h)
  · rw [he] at hhas
    exact absurd hhas (ha.free h)
  · obtain ⟨h', hh', hw⟩ | hnone := ha.child _ hc
    · exact absurd (hi.unique u t h h' hu hh' hw.symm) hut
    · exact absurd hhas (hnone h)
  · exact he

/-- A keeper's own step does not move its ward unless it acts on it. -/
theorem Inv.stays (hi : K.Inv c) (ha : K.Allows M c t op) (hs : M.step c (t, op) = some c')
    (ht : K.hand? (c.task t) = some h) (hc : M.child op = none) :
    c'.task (K.ward h) = c.task (K.ward h) := by
  refine Tasks.step_others hs hc fun he => ?_
  have hhas := hi.has t h ht
  rw [he] at hhas
  exact ha.free h hhas

/-- Custody is kept by a step that leaves the stepping task with its old ward or
    with one that was nobody's. -/
theorem Inv.step (hi : K.Inv c) (ha : K.Allows M c t op) (hs : M.step c (t, op) = some c')
    (hother : ∀ u, u ≠ t → K.hand? (c'.task u) = K.hand? (c.task u))
    (hhas : ∀ h, K.hand? (c'.task t) = some h → K.Has h (c'.task (K.ward h)))
    (hward : ∀ h, K.hand? (c'.task t) = some h →
      (∃ h', K.hand? (c.task t) = some h' ∧ K.ward h' = K.ward h) ∨
        ∀ h', ¬K.Has h' (c.task (K.ward h))) : K.Inv c' := by
  -- nobody else has the ward that the stepping task ends up with
  have hnew : ∀ h h' u, K.hand? (c'.task t) = some h → K.hand? (c.task u) = some h' → u ≠ t →
      K.ward h ≠ K.ward h' := by
    intro h h' u ht hu hut hw
    obtain ⟨h'', ht', hw'⟩ | hnone := hward h ht
    · exact hut (hi.unique t u h'' h' ht' hu (hw'.trans hw)).symm
    · have hu' := hi.has u h' hu
      rw [← hw] at hu'
      exact hnone h' hu'
  refine ⟨?_, ?_⟩
  · intro u h hu
    by_cases hut : u = t
    · subst hut
      exact hhas h hu
    · rw [hother u hut] at hu
      rw [hi.keeps ha hs hu hut]
      exact hi.has u h hu
  · intro u u' h h' hu hu' hw
    by_cases hut : u = t <;> by_cases hut' : u' = t
    · rw [hut, hut']
    · rw [hut] at hu
      rw [hother u' hut'] at hu'
      exact absurd hw (hnew h h' u' hu hu' hut')
    · rw [hut'] at hu'
      rw [hother u hut] at hu
      exact absurd hw.symm (hnew h' h u hu' hu hut)
    · rw [hother u hut] at hu
      rw [hother u' hut'] at hu'
      exact hi.unique u u' h h' hu hu' hw

/-- A task that waits to be acted for is somebody's ward. -/
def Kept (K : Custody Tid Task Hand) (waits : Task → Bool) (c : Conf Tid Task Shared) : Prop :=
  ∀ v, waits (c.task v) = true → ∃ t h, K.hand? (c.task t) = some h ∧ K.ward h = v

/-- Nobody is left waiting by a step that takes over whom it makes wait, and that
    gives up no ward but the one it acts on. -/
theorem Kept.step {waits : Task → Bool} (hk : K.Kept waits c) (hs : M.step c (t, op) = some c')
    (hother : ∀ u, u ≠ t → K.hand? (c'.task u) = K.hand? (c.task u))
    (hself : waits (c'.task t) = true → waits (c.task t) = true)
    (hacts : ∀ v, M.child op = some v → waits (c'.task v) = true →
      ∃ h, K.hand? (c'.task t) = some h ∧ K.ward h = v)
    (hkeeps : ∀ h, K.hand? (c.task t) = some h → M.child op ≠ some (K.ward h) →
      ∃ h', K.hand? (c'.task t) = some h' ∧ K.ward h' = K.ward h) : K.Kept waits c' := by
  have hold : ∀ v, waits (c.task v) = true → M.child op ≠ some v →
      ∃ u h, K.hand? (c'.task u) = some h ∧ K.ward h = v := by
    intro v hv hc
    obtain ⟨u, h, hu, rfl⟩ := hk v hv
    by_cases hut : u = t
    · subst hut
      exact ⟨u, hkeeps h hu hc⟩
    · exact ⟨u, h, (hother u hut).trans hu, rfl⟩
  intro v hv
  obtain rfl | ⟨-, hc, -⟩ | ⟨-, hc, he⟩ := Tasks.step_task hs v
  · refine hold v (hself hv) fun hc => ?_
    exact (Tasks.step_child hs hc).1 rfl
  · exact ⟨t, hacts v hc hv⟩
  · rw [he] at hv
    exact hold v hv hc

end Custody
end Borehole.Conc
