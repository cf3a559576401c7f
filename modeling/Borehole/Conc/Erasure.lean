/-
  Borehole.Conc.Erasure

  Tasks that leave no trace.

  A task that changes nothing of the shared state and acts on no other task can
  be erased from a run: the others take the same steps without it.
-/

import Borehole.Conc.Tasks

namespace Borehole.Conc.Tasks

variable {Tid Task Op Shared : Type} [DecidableEq Tid] {M : Tasks Tid Task Op Shared}
  {c c' d c₀ : Conf Tid Task Shared} {t u : Tid} {op : Op} {ls : List (Tid × Op)}

/-- The same shared state, and the same tasks but for `t`. -/
structure Agree (t : Tid) (c d : Conf Tid Task Shared) : Prop where
  shared : d.shared = c.shared
  task : ∀ u, u ≠ t → d.task u = c.task u

omit [DecidableEq Tid] in
theorem Agree.refl (t : Tid) (c : Conf Tid Task Shared) : Agree t c c :=
  ⟨rfl, fun _ _ => rfl⟩

/-- As long as task `t` is one of `K`, its operations have no effect on anything
    but itself, and no operation acts on it. -/
structure Traceless (M : Tasks Tid Task Op Shared) (t : Tid) (K : Task → Prop) : Prop where
  next : ∀ k op k', K k → M.next t k op = some k' → K k'
  child : ∀ k op k', K k → M.next t k op = some k' → M.child op = none
  exec : ∀ k op k' s s', K k → M.next t k op = some k' → M.exec s t op = some s' → s' = s
  adopt : ∀ k u op k', K k → M.child op = some t → M.adopt u op k ≠ some k'

/-- A step of another task is possible in both configurations. -/
theorem Agree.other (ha : Agree t c d) (h : M.step c (u, op) = some c') (hu : u ≠ t)
    (hc : M.child op ≠ some t) :
    ∃ d', M.step d (u, op) = some d' ∧ Agree t c' d' ∧ d'.task t = d.task t := by
  obtain ⟨k, hk, hx, hchild⟩ := step_some h
  rw [← ha.task u hu] at hk
  rw [← ha.shared] at hx
  obtain ⟨hn, ht⟩ | ⟨v, k', hv, hvu, hadopt, ht⟩ := hchild
  · refine ⟨_, step_of_next hk hx hn, ⟨rfl, fun w hw => ?_⟩, ?_⟩
    · show Function.update d.task u k w = _
      rw [ht, Function.update_apply, Function.update_apply, ha.task w hw]
    · exact Function.update_of_ne (Ne.symm hu) _ _
  · have hvt : v ≠ t := by
      rintro rfl
      exact hc hv
    rw [← ha.task v hvt] at hadopt
    refine ⟨⟨c'.shared, Function.update (Function.update d.task u k) v k'⟩, ?_,
      ⟨rfl, fun w hw => ?_⟩, ?_⟩
    · simp [step, hk, hx, hv, hvu, hadopt]
    · show Function.update (Function.update d.task u k) v k' w = _
      rw [ht, Function.update_apply, Function.update_apply, Function.update_apply,
        Function.update_apply, ha.task w hw]
    · exact (Function.update_of_ne (Ne.symm hvt) _ _).trans
        (Function.update_of_ne (Ne.symm hu) _ _)

/-- A step of the traceless task changes nothing that the others see. -/
theorem Traceless.self {K : Task → Prop} (hK : Traceless M t K) (hc : K (c.task t))
    (ha : Agree t c d) (h : M.step c (t, op) = some c') : Agree t c' d ∧ K (c'.task t) := by
  have hnext := step_next h
  refine ⟨⟨?_, fun u hu => ?_⟩, hK.next _ _ _ hc hnext⟩
  · rw [ha.shared, hK.exec _ _ _ _ _ hc hnext (step_exec h)]
  · rw [ha.task u hu, step_others h (hK.child _ _ _ hc hnext) hu]

/-- A run without the operations of task `t`. -/
def erase (t : Tid) (ls : List (Tid × Op)) : List (Tid × Op) :=
  ls.filter fun a => a.1 ≠ t

/-- The run without the traceless task leads to the same shared state and the
    same other tasks, and leaves the task where it was. -/
theorem Traceless.erase {K : Task → Prop} (hK : Traceless M t K) (hc : K (c.task t))
    (ha : Agree t c d) (h : (M.lts c₀).runFrom c ls = some c') :
    ∃ d', (M.lts c₀).runFrom d (erase t ls) = some d' ∧ Agree t c' d' ∧ d'.task t = d.task t := by
  induction ls generalizing c d with
  | nil =>
      obtain rfl := Option.some.inj h
      exact ⟨d, rfl, ha, rfl⟩
  | cons a ls ih =>
      obtain ⟨c₁, hs, hr⟩ := Option.bind_eq_some_iff.mp h
      obtain ⟨u, op⟩ := a
      by_cases hu : u = t
      · subst hu
        obtain ⟨ha₁, hc₁⟩ := hK.self hc ha hs
        rw [Tasks.erase, List.filter_cons_of_neg (by simp), ← Tasks.erase]
        exact ih hc₁ ha₁ hr
      · have hchild : M.child op ≠ some t := fun he =>
          hK.adopt _ _ _ _ hc he (step_child hs he).2
        obtain ⟨d₁, hd₁, ha₁, ht₁⟩ := ha.other hs hu hchild
        have hc₁ : K (c₁.task t) := by
          obtain he | ⟨_, he, _⟩ | ⟨_, _, he⟩ := step_task hs t
          · exact absurd he.symm hu
          · exact absurd he hchild
          · rw [he]
            exact hc
        obtain ⟨d', hd', ha', ht'⟩ := ih hc₁ ha₁ hr
        refine ⟨d', ?_, ha', ht'.trans ht₁⟩
        rw [Tasks.erase, List.filter_cons_of_pos (by simpa using hu), ← Tasks.erase]
        exact Option.bind_eq_some_iff.mpr ⟨d₁, hd₁, hd'⟩

end Borehole.Conc.Tasks
