/-
  Borehole.Conc.LockOrder

  Deadlock by a cycle of waits, for agents that hold and wait for mutexes.

  If the mutexes have ranks such that an agent waits only for mutexes ranked
  above all that it holds, no agents wait for each other in a circle.
-/

import Mathlib.Logic.Relation
import Mathlib.Order.Basic

namespace Borehole.Conc

variable {Agent Mutex Rank : Type} [Preorder Rank] {waits holds : Agent → Mutex → Prop}
  {rank : Mutex → Rank}

/-- `a` waits for a mutex that `b` holds. -/
def WaitsOn (waits holds : Agent → Mutex → Prop) (a b : Agent) : Prop :=
  ∃ m, waits a m ∧ holds b m

/-- What an agent holds is ranked below what it waits for. -/
def InOrder (rank : Mutex → Rank) (waits holds : Agent → Mutex → Prop) : Prop :=
  ∀ a m m', holds a m → waits a m' → rank m < rank m'

/-- Along a chain of waits the ranks do not go down. -/
theorem InOrder.chain (ho : InOrder rank waits holds) {a b : Agent}
    (h : Relation.TransGen (WaitsOn waits holds) a b) :
    ∃ m m', waits a m ∧ holds b m' ∧ rank m ≤ rank m' := by
  induction h with
  | single hab =>
      obtain ⟨m, hw, hh⟩ := hab
      exact ⟨m, m, hw, hh, le_rfl⟩
  | tail _ hbc ih =>
      obtain ⟨m, m', hw, hh, hle⟩ := ih
      obtain ⟨m'', hw', hh'⟩ := hbc
      exact ⟨m, m'', hw, hh', hle.trans (ho _ _ _ hh hw').le⟩

/-- Agents that lock in order do not wait in a circle. -/
theorem InOrder.acyclic (ho : InOrder rank waits holds) (a : Agent) :
    ¬ Relation.TransGen (WaitsOn waits holds) a a := by
  intro h
  obtain ⟨m, m', hw, hh, hle⟩ := ho.chain h
  exact absurd (ho a m' m hh hw) (not_lt_of_ge hle)

end Borehole.Conc
