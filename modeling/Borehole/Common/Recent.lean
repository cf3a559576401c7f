/-
  Borehole.Common.Recent

  The newest entries of a log that only grows, read in pages.

  A reader who asks for page 0, 1, 2, ... of the newest entries sees them move:
  what is appended between two reads pushes every entry towards higher pages,
  and the oldest ones out.  The pages move the other way by a page at a time, so
  an entry may be met twice and is not missed unless it has gone.
-/

import Mathlib.Data.List.DropRight
import Mathlib.Data.Nat.Find

namespace Borehole

variable {α : Type} {cap k i p : Nat} {log log' : List α} {e : α}

/-- Page `i` of the newest `cap` entries, newest first. -/
def recentPage (cap k i : Nat) (log : List α) : List α :=
  ((log.rtake cap).reverse.drop (i * k)).take k

theorem reverse_rtake (cap : Nat) (log : List α) :
    (log.rtake cap).reverse = log.reverse.take cap := by
  rw [List.rtake_eq_reverse_take_reverse, List.reverse_reverse]

theorem length_recentPage :
    (recentPage cap k i log).length = min k (min cap log.length - i * k) := by
  rw [recentPage, reverse_rtake, List.length_take, List.length_drop, List.length_take,
    List.length_reverse]

/-- An entry is on the page that its distance from the newest one falls into. -/
theorem mem_recentPage (hp : log[p]? = some e) (hkept : log.length ≤ p + cap)
    (hlo : i * k ≤ log.length - 1 - p) (hhi : log.length - 1 - p < i * k + k) :
    e ∈ recentPage cap k i log := by
  have hlt : p < log.length := (List.getElem?_eq_some_iff.mp hp).1
  refine List.mem_of_getElem? (i := log.length - 1 - p - i * k) ?_
  rw [recentPage, reverse_rtake, List.getElem?_take_of_lt (by omega), List.getElem?_drop,
    List.getElem?_take_of_lt (by omega), List.getElem?_reverse (by omega), ← hp]
  congr 1
  omega

/-- The pages up to the first short one show every entry that is in the log at
    the first read and among the newest `cap` at the last. -/
theorem recentPages_complete {n : Nat} {logs : Nat → List α}
    (hgrow : ∀ i < n, logs i <+: logs (i + 1))
    (hshort : (recentPage cap k n (logs n)).length < k)
    (hp : (logs 0)[p]? = some e) (hkept : (logs n).length ≤ p + cap) :
    ∃ i ≤ n, e ∈ recentPage cap k i (logs i) := by
  have hlt : p < (logs 0).length := (List.getElem?_eq_some_iff.mp hp).1
  have hpre : ∀ i j, i ≤ j → j ≤ n → logs i <+: logs j := by
    intro i j hij hj
    induction j, hij using Nat.le_induction with
    | base => exact List.prefix_rfl
    | succ j _ ih => exact (ih (by omega)).trans (hgrow j (by omega))
  have hlen : ∀ i j, i ≤ j → j ≤ n → (logs i).length ≤ (logs j).length :=
    fun i j hij hj => (hpre i j hij hj).length_le
  -- the entry keeps its place in the log, and is in reach at the last page
  have hlast : (logs n).length - 1 - p < n * k + k := by
    rw [length_recentPage] at hshort
    have h0 := hlen 0 n (Nat.zero_le n) le_rfl
    omega
  have hreach : ∃ i, (logs i).length - 1 - p < i * k + k ∧ i ≤ n := ⟨n, hlast, le_rfl⟩
  classical
  obtain ⟨hhi, hin⟩ := Nat.find_spec hreach
  have hmin : ∀ j < Nat.find hreach, ¬ ((logs j).length - 1 - p < j * k + k ∧ j ≤ n) :=
    fun j hj => Nat.find_min hreach hj
  generalize Nat.find hreach = i at hhi hin hmin
  refine ⟨i, hin, mem_recentPage ?_ ((hlen i n hin le_rfl).trans hkept) ?_ hhi⟩
  · obtain ⟨rest, hrest⟩ := hpre 0 i (Nat.zero_le i) hin
    rw [← hrest, List.getElem?_append_left hlt, hp]
  -- it was beyond the page before, and has not come nearer
  · cases i with
    | zero => omega
    | succ j =>
        have hbefore := hmin j (Nat.lt_succ_self j)
        have hmono := hlen j (j + 1) (Nat.le_succ j) hin
        rw [Nat.succ_mul]
        omega

end Borehole
