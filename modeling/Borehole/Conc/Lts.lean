/-
  Borehole.Conc.Lts

  Executable labelled transition systems: a partial step function on states,
  the runs it generates from one initial state, and the induction rules that
  carry an invariant over all runs.

  A run is identified with the list of its labels, so everything a run leaves
  behind (what was written, published, generated) is a function of that list
  and no history needs to be kept in the state.
-/

import Mathlib.Data.List.Induction

namespace Borehole.Conc

/-- A transition system: `step s l` is the state after `l`, or `none` where `l`
    is not enabled in `s`. -/
structure Lts (State Label : Type) where
  init : State
  step : State → Label → Option State

namespace Lts

variable {State Label : Type} (L : Lts State Label)

/-- The state after the labels `ls`, if each of them is enabled in turn. -/
def runFrom (s : State) : List Label → Option State
  | [] => some s
  | l :: ls => (L.step s l).bind fun s' => runFrom s' ls

/-- `ls` is a run of the system and ends in `s`. -/
def Run (ls : List Label) (s : State) : Prop :=
  L.runFrom L.init ls = some s

variable {L}

theorem runFrom_append {s : State} {ls ls' : List Label} :
    L.runFrom s (ls ++ ls') = (L.runFrom s ls).bind fun s' => L.runFrom s' ls' := by
  induction ls generalizing s with
  | nil => rfl
  | cons l ls ih =>
      simp only [List.cons_append, runFrom]
      cases L.step s l with
      | none => rfl
      | some s' => exact ih

theorem runFrom_snoc {s s' : State} {ls : List Label} {l : Label} :
    L.runFrom s (ls ++ [l]) = some s' ↔
      ∃ s₁, L.runFrom s ls = some s₁ ∧ L.step s₁ l = some s' := by
  rw [runFrom_append, Option.bind_eq_some_iff]
  simp [runFrom]

/-- A run passes through a state after each of its prefixes. -/
theorem run_append {ls ls' : List Label} {s' : State} :
    L.Run (ls ++ ls') s' ↔ ∃ s, L.Run ls s ∧ L.runFrom s ls' = some s' := by
  rw [Run, runFrom_append, Option.bind_eq_some_iff]
  rfl

/-- The last step of a run. -/
theorem run_snoc {ls : List Label} {l : Label} {s' : State} :
    L.Run (ls ++ [l]) s' ↔ ∃ s, L.Run ls s ∧ L.step s l = some s' :=
  runFrom_snoc

theorem Run.functional {ls : List Label} {s s' : State}
    (h : L.Run ls s) (h' : L.Run ls s') : s = s' :=
  Option.some.inj (Eq.trans (Eq.symm h) h')

/-- A run found by evaluation, with what is wanted of its last state. -/
theorem exists_run {ls : List Label} {p : State → Prop} [DecidablePred p]
    (h : (L.runFrom L.init ls).any (fun s => decide (p s)) = true) : ∃ s, L.Run ls s ∧ p s := by
  obtain ⟨s, hs, hp⟩ := (Option.any_eq_true _ _).mp h
  exact ⟨s, hs, of_decide_eq_true hp⟩

/-- Induction over the continuations of a state: `P` relates what was done since
    `s` to the state it led to. -/
theorem runFrom_induct {s : State} {P : List Label → State → Prop}
    (hinit : P [] s)
    (hstep : ∀ ls s₁ l s₂, L.runFrom s ls = some s₁ → P ls s₁ →
      L.step s₁ l = some s₂ → P (ls ++ [l]) s₂)
    {ls : List Label} {s' : State} (h : L.runFrom s ls = some s') : P ls s' := by
  induction ls using List.reverseRecOn generalizing s' with
  | nil => rw [← Option.some.inj h]; exact hinit
  | append_singleton ls l ih =>
      obtain ⟨s₁, h₁, hs⟩ := runFrom_snoc.mp h
      exact hstep ls s₁ l s' h₁ (ih h₁) hs

/-- Induction over runs, one step at the end at a time. -/
theorem Run.induct {P : List Label → State → Prop}
    (hinit : P [] L.init)
    (hstep : ∀ ls s l s', L.Run ls s → P ls s → L.step s l = some s' → P (ls ++ [l]) s')
    {ls : List Label} {s : State} (h : L.Run ls s) : P ls s :=
  runFrom_induct hinit hstep h

/-! ## Runs whose steps all meet a condition -/

/-- Every step of the continuation `ls` of `s` meets `ok` in the state it is
    taken in. -/
def AlongFrom (L : Lts State Label) (ok : State → Label → Prop) (s : State) :
    List Label → Prop
  | [] => True
  | l :: ls => ok s l ∧ ∀ s' ∈ L.step s l, AlongFrom L ok s' ls

/-- Every step of the run `ls` meets `ok` in the state it is taken in. -/
def Along (L : Lts State Label) (ok : State → Label → Prop) (ls : List Label) : Prop :=
  L.AlongFrom ok L.init ls

instance decidableAlongFrom (ok : State → Label → Prop) [∀ s l, Decidable (ok s l)] :
    ∀ (s : State) (ls : List Label), Decidable (L.AlongFrom ok s ls)
  | _, [] => isTrue trivial
  | s, l :: ls =>
      match h : L.step s l with
      | none => decidable_of_iff (ok s l) (by simp [AlongFrom, h])
      | some s' =>
          have := decidableAlongFrom ok s' ls
          decidable_of_iff (ok s l ∧ L.AlongFrom ok s' ls) (by simp [AlongFrom, h])

instance (ok : State → Label → Prop) [∀ s l, Decidable (ok s l)] (ls : List Label) :
    Decidable (L.Along ok ls) :=
  decidableAlongFrom ok L.init ls

theorem alongFrom_snoc {ok : State → Label → Prop} {s s₁ : State} {ls : List Label} {l : Label}
    (hr : L.runFrom s ls = some s₁) :
    L.AlongFrom ok s (ls ++ [l]) ↔ L.AlongFrom ok s ls ∧ ok s₁ l := by
  induction ls generalizing s with
  | nil =>
      rw [← Option.some.inj hr]
      simp [AlongFrom]
  | cons k ls ih =>
      simp only [runFrom, Option.bind_eq_some_iff] at hr
      obtain ⟨s', hs, hr⟩ := hr
      simp only [List.cons_append, AlongFrom, hs, Option.mem_some_iff, forall_eq', ih hr, and_assoc]

/-- What comes first meets the condition too. -/
theorem AlongFrom.left {ok : State → Label → Prop} {s : State} {ls ls' : List Label}
    (h : L.AlongFrom ok s (ls ++ ls')) : L.AlongFrom ok s ls := by
  induction ls generalizing s with
  | nil => trivial
  | cons l ls ih => exact ⟨h.1, fun s' hs => ih (h.2 s' hs)⟩

theorem AlongFrom.and {ok ok' : State → Label → Prop} {s : State} {ls : List Label}
    (h : L.AlongFrom ok s ls) (h' : L.AlongFrom ok' s ls) :
    L.AlongFrom (fun s l => ok s l ∧ ok' s l) s ls := by
  induction ls generalizing s with
  | nil => trivial
  | cons l ls ih => exact ⟨⟨h.1, h'.1⟩, fun s' hs => ih (h.2 s' hs) (h'.2 s' hs)⟩

/-- A condition that holds of every step after every prefix. -/
theorem Run.along {ok : State → Label → Prop} {ls : List Label} {s : State} (h : L.Run ls s)
    (hok : ∀ pre l post s', ls = pre ++ l :: post → L.Run pre s' → ok s' l) : L.Along ok ls := by
  induction ls using List.reverseRecOn generalizing s with
  | nil => trivial
  | append_singleton ls l ih =>
      obtain ⟨s₁, hr, _⟩ := run_snoc.mp h
      refine (alongFrom_snoc hr).mpr ⟨ih hr fun pre l' post s' he => ?_, hok ls l [] s₁ rfl hr⟩
      exact hok pre l' (post ++ [l]) s' (by rw [he, List.append_assoc, List.cons_append])

/-- Induction over the runs whose steps all meet `ok`. -/
theorem Run.induct_along {ok : State → Label → Prop} {P : List Label → State → Prop}
    (hinit : P [] L.init)
    (hstep : ∀ ls s l s', L.Run ls s → P ls s → ok s l → L.step s l = some s' → P (ls ++ [l]) s')
    {ls : List Label} {s : State} (h : L.Run ls s) (hok : L.Along ok ls) : P ls s := by
  refine Run.induct (P := fun ls s => L.Along ok ls → P ls s) (fun _ => hinit) ?_ h hok
  intro ls s l s' hr ih hs hok
  obtain ⟨hok, hl⟩ := (alongFrom_snoc hr).mp hok
  exact hstep ls s l s' hr (ih hok) hl hs

end Lts
end Borehole.Conc
