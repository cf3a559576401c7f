/-
  Borehole.Conc.Drain

  Concurrent programs that come to rest.

  Some operations are the program's own and the others are prompted from outside.
  If every task has an amount of work left, and an own operation takes some of it
  off the task that performs it and gives nobody more, then only finitely many own
  operations can follow each other, in whatever order.
-/

import Borehole.Conc.Tasks

namespace Borehole.Conc

namespace Tasks

variable {Tid Task Op Shared : Type} [DecidableEq Tid] {M : Tasks Tid Task Op Shared}
  {own : Op → Bool} {work : Task → Nat} {c c' c₀ : Conf Tid Task Shared} {t : Tid} {op : Op}
  {ls : List (Tid × Op)}

/-- Own operations use up the work that tasks have left. -/
structure Winds (M : Tasks Tid Task Op Shared) (own : Op → Bool) (work : Task → Nat) : Prop where
  next : ∀ t k op k', own op = true → M.next t k op = some k' → work k' < work k
  adopt : ∀ t k op k', own op = true → M.adopt t op k = some k' → work k' ≤ work k

/-- The work that some tasks have left. -/
def left (work : Task → Nat) (c : Conf Tid Task Shared) : List Tid → Nat
  | [] => 0
  | t :: ts => work (c.task t) + left work c ts

/-- Nobody else has any work left. -/
def Busy (work : Task → Nat) (c : Conf Tid Task Shared) (ts : List Tid) : Prop :=
  ∀ t, t ∉ ts → work (c.task t) = 0

/-- No own operation is possible. -/
def AtRest (M : Tasks Tid Task Op Shared) (own : Op → Bool) (c : Conf Tid Task Shared) : Prop :=
  ∀ t op, own op = true → M.step c (t, op) = none

/-- A step whose operation is offered, has an effect and suits the task that it is
    about is possible. -/
theorem step_isSome (hn : (M.next t (c.task t) op).isSome = true)
    (hx : (M.exec c.shared t op).isSome = true)
    (hc : ∀ v, M.child op = some v → v ≠ t ∧ (M.adopt t op (c.task v)).isSome = true) :
    (M.step c (t, op)).isSome = true := by
  obtain ⟨k, hk⟩ := Option.isSome_iff_exists.mp hn
  obtain ⟨sh, hsh⟩ := Option.isSome_iff_exists.mp hx
  cases hchild : M.child op with
  | none => simp [step, hk, hsh, hchild]
  | some v =>
      obtain ⟨hne, ha⟩ := hc v hchild
      obtain ⟨k', hk'⟩ := Option.isSome_iff_exists.mp ha
      simp [step, hk, hsh, hchild, hne, hk']

omit [DecidableEq Tid] in
theorem left_le (hle : ∀ t, work (c'.task t) ≤ work (c.task t)) (ts : List Tid) :
    left work c' ts ≤ left work c ts := by
  induction ts with
  | nil => exact Nat.le_refl 0
  | cons t ts ih => exact Nat.add_le_add (hle t) ih

omit [DecidableEq Tid] in
theorem left_lt (hle : ∀ t, work (c'.task t) ≤ work (c.task t))
    (hlt : work (c'.task t) < work (c.task t)) {ts : List Tid} (ht : t ∈ ts) :
    left work c' ts < left work c ts := by
  induction ts with
  | nil => cases ht
  | cons u ts ih =>
      obtain rfl | ht := List.mem_cons.mp ht
      · exact Nat.add_lt_add_of_lt_of_le hlt (left_le hle ts)
      · exact Nat.add_lt_add_of_le_of_lt (hle u) (ih ht)

theorem Winds.step (hw : Winds M own work) (ho : own op = true) (h : M.step c (t, op) = some c') :
    work (c'.task t) < work (c.task t) ∧ ∀ u, work (c'.task u) ≤ work (c.task u) := by
  have hself := hw.next t _ op _ ho (step_next h)
  refine ⟨hself, ?_⟩
  intro u
  obtain rfl | ⟨-, -, ha⟩ | ⟨-, -, he⟩ := step_task h u
  · exact Nat.le_of_lt hself
  · exact hw.adopt t _ op _ ho ha
  · exact Nat.le_of_eq (congrArg work he)

/-- A task performs no more own operations than it has work left. -/
theorem Winds.opsOf_length_le (hw : Winds M own work) (h : (M.lts c₀).runFrom c ls = some c')
    (ho : ∀ a ∈ ls, own a.2 = true) (t : Tid) :
    (opsOf t ls).length + work (c'.task t) ≤ work (c.task t) := by
  induction ls generalizing c with
  | nil =>
      rw [← Option.some.inj h]
      simp
  | cons a ls ih =>
      obtain ⟨u, op⟩ := a
      obtain ⟨c₁, hs, h⟩ := Option.bind_eq_some_iff.mp h
      obtain ⟨hlt, hle⟩ := hw.step (ho _ List.mem_cons_self) hs
      have hrest := ih h fun a ha => ho a (List.mem_cons_of_mem _ ha)
      have hsplit : opsOf t ((u, op) :: ls) = opsOf t [(u, op)] ++ opsOf t ls :=
        opsOf_append t [(u, op)] ls
      rw [hsplit]
      by_cases hut : u = t
      · subst hut
        rw [opsOf_singleton_self, List.length_append, List.length_singleton]
        omega
      · have hstays := hle t
        rw [opsOf_singleton_ne op hut, List.nil_append]
        omega

/-- A sequence of own operations is not longer than the work that is left. -/
theorem Winds.length_le (hw : Winds M own work) {ts : List Tid} (hb : Busy work c ts)
    (h : (M.lts c₀).runFrom c ls = some c') (ho : ∀ a ∈ ls, own a.2 = true) :
    ls.length + left work c' ts ≤ left work c ts := by
  induction ls generalizing c with
  | nil =>
      rw [← Option.some.inj h]
      simp
  | cons a ls ih =>
      obtain ⟨t, op⟩ := a
      obtain ⟨c₁, hs, h⟩ := Option.bind_eq_some_iff.mp h
      obtain ⟨hlt, hle⟩ := hw.step (ho _ List.mem_cons_self) hs
      have ht : t ∈ ts := by
        by_contra hn
        rw [hb t hn] at hlt
        omega
      have hb₁ : Busy work c₁ ts := by
        intro u hu
        have hu' := hle u
        rw [hb u hu] at hu'
        exact Nat.le_zero.mp hu'
      have hrest := ih hb₁ h fun a ha => ho a (List.mem_cons_of_mem _ ha)
      have hless := left_lt hle hlt ht
      rw [List.length_cons]
      omega

/-- At any time finitely many tasks have work left. -/
theorem run_busy (hb : ∃ ts, Busy work c₀ ts) (h : (M.lts c₀).Run ls c) :
    ∃ ts, Busy work c ts := by
  refine Lts.Run.induct (L := M.lts c₀) (P := fun _ c => ∃ ts, Busy work c ts) hb ?_ h
  rintro ls c ⟨t, op⟩ c' - ⟨ts, hts⟩ hs
  refine ⟨t :: (M.child op).toList ++ ts, ?_⟩
  intro u hu
  simp only [List.cons_append, List.mem_cons, List.mem_append, not_or] at hu
  obtain ⟨hut, hchild, hts'⟩ := hu
  obtain rfl | ⟨-, hc, -⟩ | ⟨-, -, he⟩ := step_task hs u
  · exact absurd rfl hut
  · rw [hc] at hchild
    simp at hchild
  · rw [he]
    exact hts u hts'

/-- The program comes to rest, if it is let. -/
theorem Winds.exists_rest (hw : Winds M own work) {ts : List Tid} (hb : Busy work c ts) :
    ∃ ls c', (M.lts c₀).runFrom c ls = some c' ∧ (∀ a ∈ ls, own a.2 = true) ∧ AtRest M own c' := by
  induction hn : left work c ts using Nat.strongRecOn generalizing c with
  | ind n ih =>
      by_cases hrest : AtRest M own c
      · exact ⟨[], c, rfl, nofun, hrest⟩
      · simp only [AtRest, not_forall] at hrest
        obtain ⟨t, op, ho, hs⟩ := hrest
        obtain ⟨c₁, hs⟩ := Option.ne_none_iff_exists'.mp hs
        have hone : (M.lts c₀).runFrom c [(t, op)] = some c₁ :=
          Option.bind_eq_some_iff.mpr ⟨_, hs, rfl⟩
        have hless := hw.length_le hb hone (by simpa using ho)
        have hb₁ : Busy work c₁ ts := by
          intro u hu
          have hu' := (hw.step ho hs).2 u
          rw [hb u hu] at hu'
          exact Nat.le_zero.mp hu'
        obtain ⟨ls, c', hr, hown, hrest⟩ := ih _ (by simp at hless; omega) hb₁ rfl
        exact ⟨(t, op) :: ls, c', Option.bind_eq_some_iff.mpr ⟨_, hs, hr⟩,
          List.forall_mem_cons.mpr ⟨ho, hown⟩, hrest⟩

end Tasks

end Borehole.Conc
