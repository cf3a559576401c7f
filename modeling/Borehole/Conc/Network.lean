/-
  Borehole.Conc.Network

  Programs that run side by side and talk over connections.

  A connection is named after the party that opens it and carries one stream
  each way.  A stream keeps its order, but the network may lose frames, deliver
  a line that does not decode, and end a stream at any point.

  A composed system projects to each of its components, so that what holds of
  all runs of a component holds of it inside the system.
-/

import Borehole.Conc.Lts
import Mathlib.Logic.Function.Basic

namespace Borehole.Conc

/-! ## Projections -/

/-- Every step of `L` is a step of `L'`, or leaves the state of `L'` as it is. -/
structure Projection {S S' A A' : Type} (L : Lts S A) (L' : Lts S' A') (f : S → S')
    (label : A → Option A') : Prop where
  init : f L.init = L'.init
  own : ∀ {s a s' b}, L.step s a = some s' → label a = some b → L'.step (f s) b = some (f s')
  other : ∀ {s a s'}, L.step s a = some s' → label a = none → f s' = f s

namespace Projection

variable {S S' A A' : Type} {L : Lts S A} {L' : Lts S' A'} {f : S → S'} {label : A → Option A'}

/-- A step leaves a component as it is, or is a step of the component. -/
theorem step (h : Projection L L' f label) {s s' : S} {a : A} (hs : L.step s a = some s') :
    f s' = f s ∨ ∃ b, label a = some b ∧ L'.step (f s) b = some (f s') := by
  cases hb : label a with
  | none => exact Or.inl (h.other hs hb)
  | some b => exact Or.inr ⟨b, rfl, h.own hs hb⟩

/-- The steps of a component in a run are a run of the component. -/
theorem run (h : Projection L L' f label) {ls : List A} {s : S} (hr : L.Run ls s) :
    L'.Run (ls.filterMap label) (f s) := by
  refine Lts.Run.induct (P := fun ls s => L'.Run (ls.filterMap label) (f s)) ?_ ?_ hr
  · rw [h.init]
    rfl
  · intro ls s a s' _ ih hs
    rw [List.filterMap_append]
    cases hb : label a with
    | none =>
        rw [h.other hs hb]
        simpa [hb] using ih
    | some b =>
        simp only [List.filterMap_cons, List.filterMap_nil, hb]
        exact Lts.run_snoc.mpr ⟨f s, ih, h.own hs hb⟩

end Projection

/-! ## The network -/

/-- One of the two streams of a connection: written by the party that opened it,
    or by the other side. -/
inductive Way (Party : Type) where
  | up (p : Party)
  | down (p : Party)
  deriving DecidableEq

/-- What is open and under way. -/
structure Network (Party Msg : Type) where
  /-- The connection is open and nobody has accepted it yet. -/
  waiting : Party → Bool
  /-- Written and not read. -/
  stream : Way Party → List Msg

/-- What a step of a program does on the network. -/
inductive Act (Party Msg : Type) where
  | quiet
  | dial (p : Party)
  | accept (p : Party)
  | put (way : Way Party) (m : Msg)
  /-- A read: `none` at the end of a stream or on an error, `some none` for a line
      that does not decode. -/
  | get (way : Way Party) (line : Option (Option Msg))

namespace Network

variable {Party Msg : Type} [DecidableEq Party] [DecidableEq Msg]

/-- No connection is open, and nothing has been sent. -/
def empty : Network Party Msg where
  waiting := fun _ => false
  stream := fun _ => []

/-- What an act does, where the network lets it happen. -/
def exec (n : Network Party Msg) : Act Party Msg → Option (Network Party Msg)
  | .quiet => some n
  | .dial p => some { n with waiting := Function.update n.waiting p true }
  | .accept p =>
      if n.waiting p then some { n with waiting := Function.update n.waiting p false } else none
  | .put way m => some { n with stream := Function.update n.stream way (n.stream way ++ [m]) }
  | .get way (some (some m)) =>
      -- what was written before `m` and has not been read by now is lost
      if m ∈ n.stream way then
        some { n with
          stream := Function.update n.stream way ((n.stream way).dropWhile (· ≠ m)).tail }
      else none
  | .get _ _ => some n

/-- Nothing is lost or garbled in what is done. -/
def InOrder (n : Network Party Msg) : Act Party Msg → Prop
  | .get way (some (some m)) => (n.stream way).head? = some m
  | .get _ (some none) => False
  | _ => True

instance (n : Network Party Msg) (a : Act Party Msg) : Decidable (n.InOrder a) := by
  unfold InOrder
  split <;> infer_instance

variable {n n' : Network Party Msg} {a : Act Party Msg} {way : Way Party} {m : Msg}

/-- What a step does to the streams: it writes at the end of one, reads off
    the front of one, or leaves them alone. -/
theorem exec_streams (h : n.exec a = some n') :
    n'.stream = n.stream ∨
    (∃ way m, a = .put way m ∧ n'.stream = Function.update n.stream way (n.stream way ++ [m])) ∨
    ∃ way m, a = .get way (some (some m)) ∧ m ∈ n.stream way ∧
      n'.stream = Function.update n.stream way ((n.stream way).dropWhile (· ≠ m)).tail := by
  cases a with
  | quiet | dial _ =>
      cases h
      exact Or.inl rfl
  | accept p =>
      simp only [exec, Option.ite_none_right_eq_some, Option.some.injEq] at h
      rw [← h.2]
      exact Or.inl rfl
  | put way m =>
      cases h
      exact Or.inr (Or.inl ⟨way, m, rfl, rfl⟩)
  | get way line =>
      rcases line with _ | _ | m
      · cases h
        exact Or.inl rfl
      · cases h
        exact Or.inl rfl
      · simp only [exec, Option.ite_none_right_eq_some, Option.some.injEq] at h
        obtain ⟨hm, rfl⟩ := h
        exact Or.inr (Or.inr ⟨way, m, rfl, hm, rfl⟩)

/-- What is under way was under way before, or is being written. -/
theorem exec_stream (h : n.exec a = some n') (hm : m ∈ n'.stream way) :
    m ∈ n.stream way ∨ a = .put way m := by
  obtain he | ⟨way', m', rfl, he⟩ | ⟨way', m', rfl, _, he⟩ := exec_streams h
  · exact Or.inl (he ▸ hm)
  · rw [he, Function.update_apply] at hm
    split at hm
    · rename_i hway
      subst hway
      rw [List.mem_append, List.mem_singleton] at hm
      exact hm.imp_right fun hm => by rw [hm]
    · exact Or.inl hm
  · rw [he, Function.update_apply] at hm
    split at hm
    · rename_i hway
      subst hway
      exact Or.inl (List.dropWhile_subset _ (List.mem_of_mem_tail hm))
    · exact Or.inl hm

/-- A line that decodes is a frame that was under way. -/
theorem exec_get (h : n.exec (.get way (some (some m))) = some n') : m ∈ n.stream way := by
  simp only [exec, Option.ite_none_right_eq_some] at h
  exact h.1

/-- What is accepted was waiting. -/
theorem exec_accept {p : Party} (h : n.exec (.accept p) = some n') : n.waiting p = true := by
  simp only [exec, Option.ite_none_right_eq_some] at h
  exact h.1

/-- A connection waits because its party has dialled. -/
theorem exec_waiting {p : Party} (h : n.exec a = some n') (hp : n'.waiting p = true) :
    n.waiting p = true ∨ a = .dial p := by
  cases a with
  | quiet | put _ _ =>
      cases h
      exact Or.inl hp
  | dial q =>
      cases h
      change Function.update n.waiting q true p = true at hp
      rw [Function.update_apply] at hp
      split at hp
      · rename_i hq
        exact Or.inr (by rw [hq])
      · exact Or.inl hp
  | accept q =>
      simp only [exec, Option.ite_none_right_eq_some, Option.some.injEq] at h
      rw [← h.2] at hp
      change Function.update n.waiting q false p = true at hp
      rw [Function.update_apply] at hp
      split at hp
      · cases hp
      · exact Or.inl hp
  | get way line =>
      rcases line with _ | _ | m
      · cases h
        exact Or.inl hp
      · cases h
        exact Or.inl hp
      · simp only [exec, Option.ite_none_right_eq_some, Option.some.injEq] at h
        rw [← h.2] at hp
        exact Or.inl hp

end Network
end Borehole.Conc
