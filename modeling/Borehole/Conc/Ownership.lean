/-
  Borehole.Conc.Ownership

  Resources with one owner each.

  A resource is in use exactly while somebody owns it.  It is acquired when it is
  not in use, may be handed on, and is released by its owner.
-/

import Mathlib.Logic.Function.Basic

namespace Borehole.Conc

variable {T R : Type}

/-- The resources in use are those that are owned, by one task each. -/
structure Owned (used : R → Bool) (own : T → Option R) : Prop where
  owner : ∀ r, used r = true → ∃ t, own t = some r
  used : ∀ t r, own t = some r → used r = true
  unique : ∀ t u r, own t = some r → own u = some r → t = u

namespace Owned

variable [DecidableEq T] [DecidableEq R] {used : R → Bool} {own : T → Option R} {t u : T} {r : R}

theorem acquire (h : Owned used own) (hr : used r = false) (ht : own t = none) :
    Owned (Function.update used r true) (Function.update own t (some r)) := by
  have hfree : ∀ u, own u ≠ some r := by
    intro u hu
    rw [h.used u r hu] at hr
    cases hr
  refine ⟨fun r' hr' => ?_, fun u r' hu => ?_, fun u u' r' hu hu' => ?_⟩
  · by_cases he : r' = r
    · exact ⟨t, by rw [he, Function.update_self]⟩
    · rw [Function.update_of_ne he] at hr'
      obtain ⟨u, hu⟩ := h.owner r' hr'
      have hut : u ≠ t := by
        rintro rfl
        rw [ht] at hu
        cases hu
      exact ⟨u, by rw [Function.update_of_ne hut, hu]⟩
  · rw [Function.update_apply] at hu ⊢
    split at hu
    · rw [if_pos (Option.some.inj hu).symm]
    · rw [h.used u r' hu, ite_self]
  · rw [Function.update_apply] at hu hu'
    split at hu <;> split at hu'
    · rename_i hut hut'
      rw [hut, hut']
    · rw [← Option.some.inj hu] at hu'
      exact absurd hu' (hfree u')
    · rw [← Option.some.inj hu'] at hu
      exact absurd hu (hfree u)
    · exact h.unique u u' r' hu hu'

theorem release (h : Owned used own) (ht : own t = some r) :
    Owned (Function.update used r false) (Function.update own t none) := by
  refine ⟨fun r' hr' => ?_, fun u r' hu => ?_, fun u u' r' hu hu' => ?_⟩
  · rw [Function.update_apply] at hr'
    split at hr'
    · cases hr'
    · rename_i hne
      obtain ⟨u, hu⟩ := h.owner r' hr'
      have hut : u ≠ t := by
        rintro rfl
        rw [ht] at hu
        exact hne (Option.some.inj hu).symm
      exact ⟨u, by rw [Function.update_of_ne hut, hu]⟩
  · rw [Function.update_apply] at hu
    split at hu
    · cases hu
    · rename_i hut
      have hne : r' ≠ r := by
        rintro rfl
        exact hut (h.unique u t r' hu ht)
      rw [Function.update_of_ne hne, h.used u r' hu]
  · rw [Function.update_apply] at hu hu'
    split at hu
    · cases hu
    · split at hu'
      · cases hu'
      · exact h.unique u u' r' hu hu'

omit [DecidableEq R] in
theorem move (h : Owned used own) (ht : own t = some r) (hu : own u = none) :
    Owned used (Function.update (Function.update own t none) u (some r)) := by
  have hnow : ∀ v, Function.update (Function.update own t none) u (some r) v =
      if v = u then some r else if v = t then none else own v := by
    intro v
    rw [Function.update_apply, Function.update_apply]
  refine ⟨fun r' hr' => ?_, fun v r' hv => ?_, fun v v' r' hv hv' => ?_⟩
  · obtain ⟨v, hv⟩ := h.owner r' hr'
    by_cases hvt : v = t
    · rw [hvt, ht] at hv
      exact ⟨u, by rw [hnow, if_pos rfl, hv]⟩
    · have hvu : v ≠ u := by
        rintro rfl
        rw [hu] at hv
        cases hv
      exact ⟨v, by rw [hnow, if_neg hvu, if_neg hvt, hv]⟩
  · rw [hnow] at hv
    split at hv
    · rw [← Option.some.inj hv]
      exact h.used t r ht
    · split at hv
      · cases hv
      · exact h.used v r' hv
  · rw [hnow] at hv hv'
    -- nobody but `t` had what `u` has now
    have hother : ∀ v, v ≠ t → own v ≠ some r := fun v hvt hv => hvt (h.unique v t r hv ht)
    split at hv <;> split at hv'
    · rename_i hvu hvu'
      rw [hvu, hvu']
    · split at hv'
      · cases hv'
      · rw [← Option.some.inj hv] at hv'
        exact absurd hv' (hother v' ‹_›)
    · split at hv
      · cases hv
      · rw [← Option.some.inj hv'] at hv
        exact absurd hv (hother v ‹_›)
    · split at hv
      · cases hv
      · split at hv'
        · cases hv'
        · exact h.unique v v' r' hv hv'

end Owned
end Borehole.Conc
