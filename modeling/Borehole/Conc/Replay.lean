/-
  Borehole.Conc.Replay

  A keyed list that follows a log of updates.

  An update puts a row at the end in place of all rows with its key, or drops
  the rows with a key.  What the list holds under a key after a log is decided by
  the last update about that key, and without one it is what was there.
-/

import Mathlib.Data.List.Induction
import Mathlib.Data.List.Nodup

namespace Borehole.Conc

/-- An update of a keyed list. -/
inductive Update (Key Row : Type) where
  | put (row : Row)
  | drop (key : Key)
  deriving DecidableEq

namespace Replay

variable {Key Row : Type} [DecidableEq Key] (key : Row → Key)

/-- The key an update is about. -/
def about : Update Key Row → Key
  | .put row => key row
  | .drop k => k

/-- The list after one update. -/
def after (rows : List Row) : Update Key Row → List Row
  | .put row => rows.filter (fun r => key r ≠ key row) ++ [row]
  | .drop k => rows.filter fun r => key r ≠ k

/-- The list after a log of updates. -/
def replay (rows : List Row) (us : List (Update Key Row)) : List Row :=
  us.foldl (after key) rows

/-- The rows under a key. -/
def rowsAt (k : Key) (rows : List Row) : List Row :=
  rows.filter fun r => key r = k

/-- The last update of a log about a key. -/
def last? (k : Key) (us : List (Update Key Row)) : Option (Update Key Row) :=
  (us.filter fun u => about key u = k).getLast?

variable {key} {rows : List Row} {us us' : List (Update Key Row)} {u : Update Key Row} {k : Key}

@[simp] theorem replay_append : replay key rows (us ++ us') = replay key (replay key rows us) us' :=
  List.foldl_append

theorem replay_snoc : replay key rows (us ++ [u]) = after key (replay key rows us) u := by
  rw [replay_append]
  rfl

theorem mem_rowsAt {r : Row} : r ∈ rowsAt key k rows ↔ r ∈ rows ∧ key r = k := by
  simp [rowsAt]

/-- What is under a key after an update about it. -/
theorem rowsAt_after_self : rowsAt key (about key u) (after key rows u) =
    match u with | .put row => [row] | .drop _ => [] := by
  have hnone : ∀ k, (rows.filter fun r => key r ≠ k).filter (fun r => key r = k) = [] := by
    intro k
    rw [List.filter_eq_nil_iff]
    intro r hr
    simpa using (List.mem_filter.mp hr).2
  cases u with
  | put row =>
      rw [rowsAt, after, List.filter_append, show about key (.put row) = key row from rfl,
        hnone (key row)]
      simp
  | drop k => exact hnone k

/-- An update leaves the rows under the other keys alone. -/
theorem rowsAt_after_of_ne (h : about key u ≠ k) :
    rowsAt key k (after key rows u) = rowsAt key k rows := by
  have hfilter : ∀ k', k' ≠ k → (rows.filter fun r => key r ≠ k').filter (fun r => key r = k) =
      rows.filter fun r => key r = k := by
    intro k' hk
    rw [List.filter_filter]
    refine List.filter_congr fun r _ => ?_
    by_cases hr : key r = k
    · simp [hr, Ne.symm hk]
    · simp [hr]
  cases u with
  | put row =>
      have hrow : key row ≠ k := h
      rw [rowsAt, after, List.filter_append, hfilter _ hrow]
      simp [rowsAt, hrow]
  | drop k' => exact hfilter k' h

theorem last?_snoc (h : about key u = k) : last? key k (us ++ [u]) = some u := by
  simp [last?, List.filter_append, h]

theorem last?_snoc_of_ne (h : about key u ≠ k) : last? key k (us ++ [u]) = last? key k us := by
  simp [last?, List.filter_append, h]

/-- The last update about a key decides what is under it. -/
theorem rowsAt_replay : rowsAt key k (replay key rows us) =
    match last? key k us with
    | none => rowsAt key k rows
    | some (.put row) => [row]
    | some (.drop _) => [] := by
  induction us using List.reverseRecOn with
  | nil => rfl
  | append_singleton us u ih =>
      rw [replay_snoc]
      by_cases hu : about key u = k
      · subst hu
        rw [rowsAt_after_self, last?_snoc rfl]
        cases u <;> rfl
      · rw [rowsAt_after_of_ne hu, last?_snoc_of_ne hu, ih]

/-- A list with at most one row under each key has no key twice. -/
theorem nodup_of_rowsAt (h : ∀ k, (rowsAt key k rows).length ≤ 1) : (rows.map key).Nodup := by
  rw [List.nodup_iff_count_le_one]
  intro k
  rw [List.count_eq_countP, List.countP_map, List.countP_eq_length_filter]
  have hrows : rows.filter ((fun x => x == k) ∘ key) = rowsAt key k rows :=
    List.filter_congr fun r _ => by simp [beq_eq_decide]
  rw [hrows]
  exact h k

/-- In a list without repeated keys there is at most one row under a key. -/
theorem rowsAt_of_mem {r : Row} (hnd : (rows.map key).Nodup) (hr : r ∈ rows) :
    rowsAt key (key r) rows = [r] := by
  induction rows with
  | nil => cases hr
  | cons r' rows ih =>
      rw [List.map_cons, List.nodup_cons] at hnd
      obtain rfl | hr := List.mem_cons.mp hr
      · have hnone : rows.filter (fun x => key x = key r) = [] := by
          rw [List.filter_eq_nil_iff]
          intro x hx hxr
          exact hnd.1 (List.mem_map.mpr ⟨x, hx, of_decide_eq_true hxr⟩)
        rw [rowsAt, List.filter_cons, if_pos (decide_eq_true rfl), hnone]
      · have hne : key r' ≠ key r := fun he => hnd.1 (List.mem_map.mpr ⟨r, hr, he.symm⟩)
        rw [rowsAt, List.filter_cons, if_neg (by simpa using hne)]
        exact ih hnd.2 hr

theorem rowsAt_of_not_mem (h : k ∉ rows.map key) : rowsAt key k rows = [] := by
  rw [rowsAt, List.filter_eq_nil_iff]
  intro r hr hk
  exact h (List.mem_map.mpr ⟨r, hr, of_decide_eq_true hk⟩)

end Replay
end Borehole.Conc
