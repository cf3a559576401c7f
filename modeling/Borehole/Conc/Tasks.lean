/-
  Borehole.Conc.Tasks

  Programs made of concurrent tasks over one shared state.

  A task is a program counter with its local data.  `next` says which
  operations a task may perform where it stands and where each takes it, `exec`
  what an operation does to the shared state, and one step of the program is
  one operation of one task.  The schedule, the results of the operations that
  the environment decides and the identities of new tasks are all part of the
  label, so every interleaving is a run of the system below.

  An operation may also act on one other task (`child`): start it, hand it
  something, cancel it.  `adopt` says what that does to the other task.
-/

import Borehole.Conc.Lts
import Mathlib.Logic.Function.Basic

namespace Borehole.Conc

/-- The code of a concurrent program. -/
structure Tasks (Tid Task Op Shared : Type) where
  next : Tid → Task → Op → Option Task
  exec : Shared → Tid → Op → Option Shared
  child : Op → Option Tid
  adopt : Tid → Op → Task → Option Task

/-- The shared state and where every task stands. -/
structure Conf (Tid Task Shared : Type) where
  shared : Shared
  task : Tid → Task

namespace Tasks

variable {Tid Task Op Shared : Type} [DecidableEq Tid] (M : Tasks Tid Task Op Shared)

/-- One operation of one task. -/
def step (c : Conf Tid Task Shared) (a : Tid × Op) : Option (Conf Tid Task Shared) :=
  (M.next a.1 (c.task a.1) a.2).bind fun k =>
    (M.exec c.shared a.1 a.2).bind fun sh =>
      match M.child a.2 with
      | none => some ⟨sh, Function.update c.task a.1 k⟩
      | some u =>
          if u = a.1 then none
          else (M.adopt a.1 a.2 (c.task u)).map fun k' =>
            ⟨sh, Function.update (Function.update c.task a.1 k) u k'⟩

/-- The interleavings of the program from the configuration `c`. -/
def lts (c : Conf Tid Task Shared) : Lts (Conf Tid Task Shared) (Tid × Op) where
  init := c
  step := M.step

variable {M} {c c' : Conf Tid Task Shared} {t : Tid} {op : Op}

theorem step_some (h : M.step c (t, op) = some c') :
    ∃ k, M.next t (c.task t) op = some k ∧ M.exec c.shared t op = some c'.shared ∧
      (M.child op = none ∧ c'.task = Function.update c.task t k ∨
        ∃ u k', M.child op = some u ∧ u ≠ t ∧ M.adopt t op (c.task u) = some k' ∧
          c'.task = Function.update (Function.update c.task t k) u k') := by
  simp only [step, Option.bind_eq_some_iff] at h
  obtain ⟨k, hk, sh, hsh, h⟩ := h
  refine ⟨k, hk, ?_⟩
  split at h
  · rename_i hc
    cases h
    exact ⟨hsh, Or.inl ⟨hc, rfl⟩⟩
  · rename_i u hc
    split at h
    · cases h
    · rename_i hu
      rw [Option.map_eq_some_iff] at h
      obtain ⟨k', hk', rfl⟩ := h
      exact ⟨hsh, Or.inr ⟨u, k', hc, hu, hk', rfl⟩⟩

theorem step_exec (h : M.step c (t, op) = some c') :
    M.exec c.shared t op = some c'.shared := by
  obtain ⟨_, _, h, _⟩ := step_some h
  exact h

theorem step_next (h : M.step c (t, op) = some c') :
    M.next t (c.task t) op = some (c'.task t) := by
  obtain ⟨k, hk, _, ⟨_, ht⟩ | ⟨u, _, _, hu, _, ht⟩⟩ := step_some h
  · rw [ht, Function.update_self, hk]
  · rw [ht, Function.update_of_ne (Ne.symm hu), Function.update_self, hk]

/-- An operation that a task may perform and that has its effect is a step. -/
theorem step_of_next {k : Task} {sh : Shared} (hk : M.next t (c.task t) op = some k)
    (hx : M.exec c.shared t op = some sh) (hc : M.child op = none) :
    M.step c (t, op) = some ⟨sh, Function.update c.task t k⟩ := by
  simp [step, hk, hx, hc]

/-- What a step does to each task: the task that steps, the one it acts on, and
    the others. -/
theorem step_task (h : M.step c (t, op) = some c') (u : Tid) :
    u = t ∨
    (u ≠ t ∧ M.child op = some u ∧ M.adopt t op (c.task u) = some (c'.task u)) ∨
    (u ≠ t ∧ M.child op ≠ some u ∧ c'.task u = c.task u) := by
  by_cases hut : u = t
  · exact Or.inl hut
  obtain ⟨k, hk, _, ⟨hc, ht⟩ | ⟨v, k', hc, hv, hk', ht⟩⟩ := step_some h
  · refine Or.inr (Or.inr ⟨hut, by simp [hc], ?_⟩)
    rw [ht, Function.update_of_ne hut]
  · by_cases huv : u = v
    · subst huv
      refine Or.inr (Or.inl ⟨hut, hc, ?_⟩)
      rw [ht, Function.update_self, hk']
    · refine Or.inr (Or.inr ⟨hut, by simp [hc, Ne.symm huv], ?_⟩)
      rw [ht, Function.update_of_ne huv, Function.update_of_ne hut]

/-- An operation on no other task leaves the other tasks alone. -/
theorem step_others (h : M.step c (t, op) = some c') (hc : M.child op = none) {u : Tid}
    (hu : u ≠ t) : c'.task u = c.task u := by
  obtain rfl | ⟨_, hu', _⟩ | ⟨_, _, he⟩ := step_task h u
  · exact absurd rfl hu
  · rw [hc] at hu'
    cases hu'
  · exact he

/-- The task that an operation is about. -/
theorem step_child {u : Tid} (h : M.step c (t, op) = some c') (hc : M.child op = some u) :
    u ≠ t ∧ M.adopt t op (c.task u) = some (c'.task u) := by
  obtain ⟨_, _, _, ⟨hn, _⟩ | ⟨v, _, hv, hne, _⟩⟩ := step_some h
  · rw [hc] at hn
    cases hn
  · rw [hc] at hv
    cases hv
    obtain he | ⟨_, _, ha⟩ | ⟨_, hn, _⟩ := step_task h u
    · exact absurd he hne
    · exact ⟨hne, ha⟩
    · exact absurd hc hn

/-- What a step changes of an attribute, where it acts on no other task. -/
theorem step_map {α : Type} (f : Task → α) (h : M.step c (t, op) = some c')
    (hc : M.child op = none) :
    (fun u => f (c'.task u)) = Function.update (fun u => f (c.task u)) t (f (c'.task t)) := by
  funext u
  rw [Function.update_apply]
  split
  · subst u
    rfl
  · rw [step_others h hc ‹_›]

/-- What a step changes of an attribute, where it acts on another task and keeps
    its own. -/
theorem step_map_child {α : Type} {v : Tid} (f : Task → α) (h : M.step c (t, op) = some c')
    (hc : M.child op = some v) (hf : f (c'.task t) = f (c.task t)) :
    (fun u => f (c'.task u)) = Function.update (fun u => f (c.task u)) v (f (c'.task v)) := by
  funext u
  rw [Function.update_apply]
  split
  · subst u
    rfl
  · rename_i huv
    obtain rfl | ⟨_, hc', _⟩ | ⟨_, _, he⟩ := step_task h u
    · exact hf
    · rw [hc] at hc'
      exact absurd (Option.some.inj hc').symm huv
    · rw [he]

/-- A task that no operation of a run belongs to or acts on stands where it
    stood. -/
theorem run_untouched {c₀ : Conf Tid Task Shared} {ls : List (Tid × Op)}
    (h : (M.lts c₀).Run ls c) (ht : ∀ a ∈ ls, a.1 ≠ t ∧ M.child a.2 ≠ some t) :
    c.task t = c₀.task t := by
  refine Lts.Run.induct (P := fun ls c => (∀ a ∈ ls, a.1 ≠ t ∧ M.child a.2 ≠ some t) →
    c.task t = c₀.task t) (fun _ => rfl) ?_ h ht
  rintro ls c ⟨u, op⟩ c' _ ih hs ht
  obtain ⟨hu, hc⟩ := ht (u, op) (by simp)
  obtain rfl | ⟨_, hc', _⟩ | ⟨_, _, he⟩ := step_task hs t
  · exact absurd rfl hu
  · exact absurd hc' hc
  · rw [he]
    exact ih fun a ha => ht a (List.mem_append_left _ ha)

/-- A step that leaves its task and the shared state as they are, and acts on no
    other task, leaves everything as it is. -/
theorem step_still (h : M.step c (t, op) = some c') (hc : M.child op = none)
    (hshared : c'.shared = c.shared) (htask : c'.task t = c.task t) : c' = c := by
  have htasks : c'.task = c.task := by
    funext u
    by_cases hu : u = t
    · rw [hu, htask]
    · exact step_others h hc hu
  cases c
  cases c'
  cases hshared
  cases htasks
  rfl

/-- Operations of one task that change nothing but the task. -/
theorem runFrom_alone {c₀ : Conf Tid Task Shared} {ops : List Op} {k : Task}
    (hexec : ∀ op ∈ ops, M.exec c.shared t op = some c.shared)
    (hchild : ∀ op ∈ ops, M.child op = none) (hnext : ops.foldlM (M.next t) (c.task t) = some k) :
    (M.lts c₀).runFrom c (ops.map (t, ·)) = some ⟨c.shared, Function.update c.task t k⟩ := by
  induction ops generalizing c with
  | nil =>
      cases hnext
      rw [Function.update_eq_self]
      rfl
  | cons op ops ih =>
      obtain ⟨k₁, hk₁, hnext⟩ := Option.bind_eq_some_iff.mp hnext
      have hs := step_of_next hk₁ (hexec op List.mem_cons_self) (hchild op List.mem_cons_self)
      have hself : Function.update c.task t k₁ t = k₁ := Function.update_self ..
      rw [← hself] at hnext
      have hrest := @ih ⟨c.shared, Function.update c.task t k₁⟩
        (fun op hop => hexec op (List.mem_cons_of_mem _ hop))
        (fun op hop => hchild op (List.mem_cons_of_mem _ hop)) hnext
      rw [Function.update_idem] at hrest
      exact Option.bind_eq_some_iff.mpr ⟨_, hs, hrest⟩

/-! ## The operations of one task -/

/-- The operations of task `t` in a run, in order. -/
def opsOf (t : Tid) (ls : List (Tid × Op)) : List Op :=
  ls.filterMap fun a => if a.1 = t then some a.2 else none

@[simp] theorem opsOf_nil (t : Tid) : opsOf t ([] : List (Tid × Op)) = [] := rfl

@[simp] theorem opsOf_append (t : Tid) (ls ls' : List (Tid × Op)) :
    opsOf t (ls ++ ls') = opsOf t ls ++ opsOf t ls' := by
  simp [opsOf]

@[simp] theorem opsOf_singleton_self (t : Tid) (op : Op) : opsOf t [(t, op)] = [op] := by
  simp [opsOf]

theorem opsOf_singleton_ne {t u : Tid} (op : Op) (h : u ≠ t) : opsOf t [(u, op)] = [] := by
  simp [opsOf, h]

theorem mem_opsOf {t : Tid} {op : Op} {ls : List (Tid × Op)} :
    op ∈ opsOf t ls ↔ (t, op) ∈ ls := by
  rw [opsOf, List.mem_filterMap]
  constructor
  · rintro ⟨⟨u, op'⟩, hm, h⟩
    split at h
    · rename_i hu
      cases hu
      cases h
      exact hm
    · cases h
  · intro hm
    exact ⟨(t, op), hm, if_pos rfl⟩

/-- What a task's own operations and those on it preserve, of what it has done and
    where it stands, holds for each task in every run. -/
theorem run_history {M : Tasks Tid Task Op Shared} {c₀ c : Conf Tid Task Shared}
    {ls : List (Tid × Op)} {P : Tid → List Op → Task → Prop} (h : (M.lts c₀).Run ls c)
    (start : ∀ t, P t [] (c₀.task t))
    (self : ∀ t ops k op k', P t ops k → M.next t k op = some k' → P t (ops ++ [op]) k')
    (adopt : ∀ t u ops k op k', P t ops k → M.child op = some t → M.adopt u op k = some k' →
      P t ops k') (t : Tid) : P t (opsOf t ls) (c.task t) := by
  refine Lts.Run.induct (L := M.lts c₀) (P := fun ls c => ∀ t, P t (opsOf t ls) (c.task t))
    start ?_ h t
  rintro ls c ⟨u, op⟩ c' - ih hs t
  rw [opsOf_append]
  by_cases hut : u = t
  · subst hut
    rw [opsOf_singleton_self]
    exact self u _ _ op _ (ih u) (step_next hs)
  · rw [opsOf_singleton_ne op hut, List.append_nil]
    obtain rfl | ⟨_, hc, ha⟩ | ⟨_, _, he⟩ := step_task hs t
    · exact absurd rfl hut
    · exact adopt t u _ _ op _ (ih t) hc ha
    · rw [he]
      exact ih t

end Tasks
end Borehole.Conc
